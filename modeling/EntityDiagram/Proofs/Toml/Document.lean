import EntityDiagram.Proofs.Text.Space
import EntityDiagram.Proofs.Toml.Draft
import EntityDiagram.Proofs.Toml.Value
import EntityDiagram.Toml.Printer

/-!
# `EntityDiagram.Proofs.Toml.Document`: documents are read as they were written

`read_document` reads back a document of entries and sections with a line for each entry. The
document is taken as a list of lines, each with what it says (`WrittenLine`): the lines make up its
text (`toList_document`), each of them is read whatever follows (`line_of_mem`), and together they
say the entries and the sections (`filterMap_writtenGroups`), which make the table again
(`ofLines?_sections`).

`format_lawful` puts both together: a table of settings is written and read back as it was, which is
the one thing that reading settings asks of a format of documents. The keys of settings are bare,
their values are simple, and a section holds entries only, so that no line of a document is of
another kind than those three: an entry, a header, or an empty line between two groups.
-/

set_option autoImplicit false

namespace EntityDiagram.Toml

open Scan

/-! ### Keys -/

/-- A key that may stand without quotes is written as it is. -/
theorem keyText_of_isBareKey {key : String} (h : isBareKey key = true) : keyText key = key := by
  rw [keyText]
  exact if_pos h

/-- A blank is no character of a bare key, and so ends one. -/
theorem isBare_of_isBlank {c : Char} (h : isBlank c = true) : isBare c = false := by
  rw [isBlank, Bool.or_eq_true, beq_iff_eq, beq_iff_eq] at h
  rcases h with rfl | rfl <;> decide

/-- A character of a bare key is no blank. -/
theorem isBlank_of_isBare {c : Char} (h : isBare c = true) : isBlank c = false := by
  cases hblank : isBlank c with
  | false => rfl
  | true =>
      rw [isBare_of_isBlank hblank] at h
      cases h

/-- Characters of bare keys differ from all others. -/
theorem ne_of_isBare {c d : Char} (hc : isBare c = true) (hd : isBare d = false) : c ≠ d := by
  rintro rfl
  rw [hc] at hd
  cases hd

variable {k : String} {rest : List Char}

/-- What may follow a key and the blanks after it. -/
structure EndsKey (rest : List Char) : Prop where
  blank : ∀ c ∈ rest.head?, isBlank c = false
  bare : ∀ c ∈ rest.head?, isBare c = false
  point : rest.head? ≠ some '.'

/-- Whether a key may end in front of a text is told by its first character. -/
theorem EndsKey.cons {c : Char} (h : isBlank c = false ∧ isBare c = false ∧ c ≠ '.')
    (rest : List Char) : EndsKey (c :: rest) where
  blank := forall_head?_cons h.1 rest
  bare := forall_head?_cons h.2.1 rest
  point := by simpa using h.2.2

/-- A bare key has a first character, and all its characters are bare. -/
theorem exists_cons_of_isBareKey (h : isBareKey k = true) :
    ∃ c more, k.toList = c :: more ∧ ∀ d ∈ k.toList, isBare d = true := by
  rw [isBareKey, Bool.and_eq_true, List.all_eq_true] at h
  cases hchars : k.toList with
  | nil => simp [String.toList_eq_nil_iff.1 hchars] at h
  | cons c more => exact ⟨c, more, rfl, hchars ▸ h.2⟩

/-- A bare key is read with the blanks after it. -/
theorem keyPart_bare (h : isBareKey k = true) (run : List Char) (hrun : ∀ c ∈ run, isBlank c = true)
    (hrest : EndsKey rest) : keyPart (k.toList ++ (run ++ rest)) = some (k, rest) := by
  obtain ⟨c, more, hchars, hbare⟩ := exists_cons_of_isBareKey h
  have hc : isBare c = true := hbare c (by simp [hchars])
  have hhead : (k.toList ++ (run ++ rest)).head? = some c := by simp [hchars]
  have hblank : ∀ d ∈ (k.toList ++ (run ++ rest)).head?, isBlank d = false := by
    intro d hd
    obtain rfl : c = d := Option.some.inj (hhead.symm.trans hd)
    exact isBlank_of_isBare hc
  have hstop : ∀ d ∈ (run ++ rest).head?, isBare d = false := by
    cases run with
    | nil => exact hrest.bare
    | cons d run => simpa using isBare_of_isBlank (hrun d List.mem_cons_self)
  -- A key that does not start with a quote is read by the last case.
  have hround : keyPart (k.toList ++ (run ++ rest)) = (do
      let bare ← takeWhile isBare
      require !bare.isEmpty
      blanks
      return String.ofList bare : Scan String) (k.toList ++ (run ++ rest)) := by
    rw [keyPart, bind_eq (blanks_eq hblank), bind_eq (peek_eq _), hhead]
    refine congrFun ?_ _
    split
    · rename_i heq
      exact absurd (Option.some.inj heq) (ne_of_isBare hc (by decide))
    · rename_i heq
      exact absurd (Option.some.inj heq) (ne_of_isBare hc (by decide))
    · rfl
  rw [hround, bind_eq (takeWhile_append hbare hstop), bind_eq (require_eq (by simp [hchars]) _),
    bind_eq (blanks_append run hrun hrest.blank), String.ofList_toList]
  rfl

/-- A bare key in front of no point is a whole key. -/
theorem key_bare (h : isBareKey k = true) (run : List Char) (hrun : ∀ c ∈ run, isBlank c = true)
    (hrest : EndsKey rest) : key (k.toList ++ (run ++ rest)) = some (([], k), rest) := by
  have hend : literal "." rest = some (false, rest) := literal_of_head (c := '.') rfl hrest.point
  rw [key, bind_eq (keyPart_bare h run hrun hrest), bind_eq (Rounds.many_eq (.done (by
    rw [bind_eq hend]
    rfl)))]
  rfl

/-! ### Lines -/

/-- A simple value does not start with a blank. -/
theorem IsSimple.isBlank_head? {v : Toml} (h : IsSimple v) (rest : List Char) :
    ∀ c ∈ ((valueText v).toList ++ rest).head?, isBlank c = false := by
  cases h with
  | text s => exact isBlank_of_ink (isInk_head?_quoted s rest)
  | bool b => cases b <;> exact forall_head?_cons (by decide) _
  | texts items =>
      obtain ⟨more, hchars⟩ := exists_valueText_array (items.map .text)
      rw [hchars]
      exact forall_head?_cons (by decide) _

/-- The line of an entry is read behind its blanks. -/
theorem entry_eq {e : String × Toml} (hbare : isBareKey e.1 = true) (hsimple : IsSimple e.2)
    (rest : List Char) :
    entry ((entryLine e).toList ++ rest) = some (.entry [] e.1 e.2, rest) := by
  have hchars : (entryLine e).toList ++ rest = e.1.toList ++ ([' '] ++ '=' ::
      ([' '] ++ ((valueText e.2).toList ++ '\n' :: rest))) := by
    simp [entryLine, keyText_of_isBareKey hbare]
  have hvalue : value (depthLimit - 1) ((valueText e.2).toList ++ '\n' :: rest) =
      some (e.2, '\n' :: rest) := hsimple.value_eq 78 rest
  rw [hchars, entry, bind_eq (key_bare hbare [' '] (List.all_eq_true.1 rfl) (.cons (by decide) _))]
  dsimp only
  rw [bind_eq (expect_cons (c := '=') rfl _),
    bind_eq (blanks_append [' '] (List.all_eq_true.1 rfl) (hsimple.isBlank_head? _)),
    bind_eq hvalue, bind_eq (restOfLine_cons rest)]
  rfl

/-- The header of a section is read behind its bracket. -/
theorem header_eq (hbare : isBareKey k = true) (rest : List Char) :
    header (k.toList ++ ']' :: '\n' :: rest) = some (.header [] k, rest) := by
  obtain ⟨c, more, hchars, hall⟩ := exists_cons_of_isBareKey hbare
  have hbracket : (k.toList ++ ']' :: '\n' :: rest).head? ≠ some '[' := by
    rw [hchars]
    intro heq
    exact absurd (Option.some.inj heq) (ne_of_isBare (hall c (by simp [hchars])) (by decide))
  have hends : EndsKey (']' :: '\n' :: rest) := .cons (by decide) _
  have hkey := key_bare hbare [] (by simp) hends
  rw [header, bind_eq (literal_of_head (c := '[') rfl hbracket), if_neg (by simp)]
  rw [List.nil_append] at hkey
  rw [bind_eq hkey]
  dsimp only
  rw [bind_eq (expect_cons (c := ']') rfl _), bind_eq (restOfLine_cons rest)]
  rfl

/-- The line of an entry is read as a line. -/
theorem line_entry {e : String × Toml} (hbare : isBareKey e.1 = true) (hsimple : IsSimple e.2)
    (rest : List Char) :
    line ((entryLine e).toList ++ rest) = some (some (some (.entry [] e.1 e.2)), rest) := by
  obtain ⟨c, more, hchars, hall⟩ := exists_cons_of_isBareKey hbare
  have hc : isBare c = true := hall c (by simp [hchars])
  have hhead : ((entryLine e).toList ++ rest).head? = some c := by
    simp [entryLine, keyText_of_isBareKey hbare, hchars]
  have hblank : ∀ d ∈ ((entryLine e).toList ++ rest).head?, isBlank d = false := by
    intro d hd
    obtain rfl : c = d := Option.some.inj (hhead.symm.trans hd)
    exact isBlank_of_isBare hc
  -- A line that starts with a character of a bare key is none of the other kinds.
  have hround : line ((entryLine e).toList ++ rest) =
      (do return some (some (← entry)) : Scan (Option (Option Line)))
        ((entryLine e).toList ++ rest) := by
    rw [line, bind_eq (blanks_eq hblank), bind_eq (peek_eq _), hhead]
    refine congrFun ?_ _
    split
    case h_1 heq => cases heq
    case h_6 => rfl
    all_goals
      rename_i heq
      exact absurd (Option.some.inj heq) (ne_of_isBare hc (by decide))
  rw [hround, bind_eq (entry_eq hbare hsimple rest)]
  rfl

/-- The line of a header is told by its bracket, and opens the section of that key. -/
theorem line_header (hbare : isBareKey k = true) (rest : List Char) :
    line ('[' :: (k.toList ++ ']' :: '\n' :: rest)) = some (some (some (.header [] k)), rest) := by
  rw [line, bind_eq (blanks_eq (forall_head?_cons (by decide) _)), bind_eq (peek_eq _)]
  show (next >>= fun _ => header >>= fun l => pure (some (some l))) _ = _
  rw [bind_eq (next_cons _ _), bind_eq (header_eq hbare rest)]
  rfl

/-- An empty line says nothing. -/
theorem line_newline (rest : List Char) : line ('\n' :: rest) = some (some none, rest) := by
  rw [line, bind_eq (blanks_eq (forall_head?_cons (by decide) _)), bind_eq (peek_eq _)]
  show (endOfLine >>= fun _ => pure (some none)) _ = _
  rw [bind_eq (endOfLine_cons rest)]
  rfl

/-- Behind the last line there is no other one. -/
theorem line_nil : line [] = some (none, []) := rfl

/-! ### Tables from lines -/

variable {nodes : List (String × Node)} {key : String}

namespace Progress

/-- An entry is added at the end of the document. -/
theorem step_entry (h : key ∉ nodes.map Prod.fst) (v : Toml) :
    step { draft := { entries := nodes } } (.entry [] key v) =
      some { draft := { entries := nodes ++ [(key, .value v)] } } := by
  rw [step, Draft.modifyAt, Draft.insert_new _ h]
  rfl

/-- A header adds a section at the end and opens it. -/
theorem step_header (path : List String) (h : key ∉ nodes.map Prod.fst) :
    step { draft := { entries := nodes }, path } (.header [] key) =
      some { draft := { entries := nodes ++ [(key, .table .header [])] }, path := [key] } := by
  rw [step, Draft.openTable, Draft.modifyAt]
  dsimp only
  rw [Text.lookup_eq_none h, Draft.set_new _ h]
  rfl

/-- An entry is added at the end of the section that is open, which stays the last one. -/
theorem step_sectionEntry {title : String} (htitle : title ∉ nodes.map Prod.fst)
    {inner : List (String × Node)} (h : key ∉ inner.map Prod.fst) (v : Toml) :
    step { draft := { entries := nodes ++ [(title, .table .header inner)] }, path := [title] }
        (.entry [] key v) =
      some { draft := { entries := nodes ++
        [(title, .table .header (inner ++ [(key, .value v)]))] }, path := [title] } := by
  rw [step, Draft.modifyAt]
  dsimp only
  rw [Text.lookup_append_singleton htitle]
  dsimp only
  rw [if_neg (by simp), Draft.modifyAt, Draft.insert_new _ h]
  show (do let draft ← some (Draft.set _ _ _); return _ : Option Progress) = _
  rw [Draft.set_last _ htitle]
  rfl

/-- Entries are added one after the other to the table that is open, given that one of them is. It
is used for the entries in front of the sections and for those of each section. -/
theorem foldlM_entries (table : List (String × Node) → Progress)
    (hstep : ∀ {inner key}, key ∉ inner.map Prod.fst → ∀ v,
      step (table inner) (.entry [] key v) = some (table (inner ++ [(key, .value v)])))
    (inner : List (String × Node)) (entries : List (String × Toml))
    (hnodup : (inner.map Prod.fst ++ entries.map Prod.fst).Nodup) :
    (entries.map fun e => Line.entry [] e.1 e.2).foldlM step (table inner) =
      some (table (inner ++ valueNodes entries)) := by
  induction entries generalizing inner with
  | nil => simp [valueNodes]
  | cons e entries ih =>
      -- A key is new to the table, since the keys before it and after it are all different.
      have hnew : e.1 ∉ inner.map Prod.fst := by
        intro hmem
        exact (List.nodup_append.1 hnodup).2.2 _ hmem _ (by simp) rfl
      have hmore := ih (inner ++ [(e.1, .value e.2)]) (by simpa using hnodup)
      rw [List.map_cons, List.foldlM_cons, hstep hnew]
      show List.foldlM step _ _ = _
      rw [hmore]
      simp [valueNodes]

end Progress

/-- The lines of a section. -/
def sectionLines (s : String × List (String × Toml)) : List Line :=
  .header [] s.1 :: s.2.map fun e => .entry [] e.1 e.2

/-- The nodes that sections become. -/
def sectionNodes (sections : List (String × List (String × Toml))) : List (String × Node) :=
  sections.map fun s => (s.1, .table .header (valueNodes s.2))

/-- Sections are added one after the other to the document. Which of them is open in the end does
not matter. -/
theorem foldlM_sections (nodes : List (String × Node))
    (sections : List (String × List (String × Toml))) (path : List String)
    (hnodup : (nodes.map Prod.fst ++ sections.map Prod.fst).Nodup)
    (hinner : ∀ s ∈ sections, (s.2.map Prod.fst).Nodup) :
    ∃ path', (sections.flatMap sectionLines).foldlM Progress.step
        { draft := { entries := nodes }, path } =
      some { draft := { entries := nodes ++ sectionNodes sections }, path := path' } := by
  induction sections generalizing nodes path with
  | nil => exact ⟨path, by simp [sectionNodes]⟩
  | cons s sections ih =>
      obtain ⟨hs, hsections⟩ := List.forall_mem_cons.1 hinner
      have hnew : s.1 ∉ nodes.map Prod.fst := by
        intro hmem
        exact (List.nodup_append.1 hnodup).2.2 _ hmem _ (by simp) rfl
      obtain ⟨path', hmore⟩ := ih (nodes ++ [(s.1, .table .header (valueNodes s.2))])
        [s.1] (by simpa using hnodup) hsections
      -- The entries of a section go into its table, which is the last one.
      have hentries := Progress.foldlM_entries _
        (fun h v => Progress.step_sectionEntry hnew h v) [] s.2 (by simpa using hs)
      refine ⟨path', ?_⟩
      rw [List.flatMap_cons, List.foldlM_append, sectionLines, List.foldlM_cons,
        Progress.step_header path hnew]
      show (do let p ← List.foldlM _ _ _; List.foldlM _ p _ : Option Progress) = _
      rw [hentries]
      show List.foldlM _ _ _ = _
      rw [List.nil_append, hmore]
      simp [sectionNodes]

/-- Entries and sections make a table of both. All names on one level have to differ, as a name that
is given twice is an error. -/
theorem ofLines?_sections {entries : List (String × Toml)}
    {sections : List (String × List (String × Toml))}
    (hnodup : (entries.map Prod.fst ++ sections.map Prod.fst).Nodup)
    (hinner : ∀ s ∈ sections, (s.2.map Prod.fst).Nodup) :
    ofLines? ((entries.map fun e => .entry [] e.1 e.2) ++ sections.flatMap sectionLines) =
      some (.table (entries ++ sections.map fun s => (s.1, .table s.2))) := by
  have hentries := Progress.foldlM_entries (fun nodes => { draft := { entries := nodes } })
    Progress.step_entry [] entries (by simpa using (List.nodup_append.1 hnodup).1)
  -- The sections are read into the table that the entries have left.
  obtain ⟨path, hsections⟩ := foldlM_sections (valueNodes entries) sections []
    (by simpa [map_fst_valueNodes] using hnodup) hinner
  rw [ofLines?, List.foldlM_append]
  show Option.map _ (do let p ← List.foldlM _ _ _; List.foldlM _ p _ : Option Progress) = _
  rw [hentries]
  show Option.map _ (List.foldlM _ _ _) = _
  rw [List.nil_append, hsections]
  simp [Draft.finish, finishEntries_eq_map, valueNodes, sectionNodes, Node.finish,
    Function.comp_def]

/-! ### Documents -/

/-- A line as it is written, and what it says. -/
abbrev WrittenLine := List Char × Option Line

/-- The line of an entry. -/
def writtenEntry (e : String × Toml) : WrittenLine :=
  ((entryLine e).toList, some (.entry [] e.1 e.2))

/-- The lines of a section. -/
def writtenSection (s : String × List (String × Toml)) : List WrittenLine :=
  ('[' :: (s.1.toList ++ [']', '\n']), some (.header [] s.1)) :: s.2.map writtenEntry

/-- The groups of lines of a document, between which a line stays empty. -/
def writtenGroups (entries : List (String × Toml))
    (sections : List (String × List (String × Toml))) : List (List WrittenLine) :=
  (if entries.isEmpty then [] else [entries.map writtenEntry]) ++ sections.map writtenSection

/-- An empty line. -/
def emptyLine : WrittenLine := (['\n'], none)

/-- What joined groups are mapped to is joined from what each of them is mapped to. The groups are
the paragraphs of a document. -/
theorem flatMap_intercalate {α β : Type} (f : α → List β) (separator : List α)
    (groups : List (List α)) :
    (separator.intercalate groups).flatMap f =
      (separator.flatMap f).intercalate (groups.map (·.flatMap f)) := by
  induction groups with
  | nil => simp
  | cons group groups ih =>
      cases groups with
      | nil => simp
      | cons next groups =>
          rw [List.intercalate_cons_cons, List.flatMap_append, List.flatMap_append, ih]
          simp [List.intercalate_cons_cons]

/-- A separator of which nothing is left leaves nothing between the groups. -/
theorem filterMap_intercalate {α β : Type} {f : α → Option β} {separator : List α}
    (h : separator.filterMap f = []) (groups : List (List α)) :
    (separator.intercalate groups).filterMap f = groups.flatMap (·.filterMap f) := by
  induction groups with
  | nil => rfl
  | cons group groups ih =>
      cases groups with
      | nil => simp
      | cons next groups =>
          rw [List.intercalate_cons_cons, List.filterMap_append, List.filterMap_append, h, ih,
            List.append_nil]
          rfl

variable {entries : List (String × Toml)} {sections : List (String × List (String × Toml))}

/-- A simple value is written on the line of its entry, and so is no section. -/
theorem IsSimple.isSection {e : String × Toml} (h : IsSimple e.2) : isSection e = false := by
  obtain ⟨key, v⟩ := e
  cases h <;> rfl

/-- Nor has it the entries of one. -/
theorem IsSimple.section? {e : String × Toml} (h : IsSimple e.2) : section? e = none := by
  obtain ⟨key, v⟩ := e
  cases h <;> rfl

/-- The entries in front of the sections are those that are given as such. -/
theorem filter_isSection (h : IsSimpleDocument entries sections) :
    (entries ++ sections.map fun s => (s.1, Toml.table s.2)).filter (!isSection ·) = entries := by
  have hentries : entries.filter (!isSection ·) = entries := by
    rw [List.filter_eq_self]
    intro e he
    simp [(h.table.simple e he).isSection]
  have hsections : (sections.map fun s => (s.1, Toml.table s.2)).filter (!isSection ·) = [] := by
    simp [List.filter_map, isSection]
  rw [List.filter_append, hentries, hsections, List.append_nil]

/-- The sections are written one by one. Entries that are no tables are passed over. -/
theorem filterMap_section? (h : IsSimpleDocument entries sections) :
    (entries ++ sections.map fun s => (s.1, Toml.table s.2)).filterMap section? =
      sections.map fun s =>
        "[" ++ keyText s.1 ++ "]\n" ++ String.join (s.2.map entryLine) := by
  have hentries : entries.filterMap section? = [] := by
    rw [List.filterMap_eq_nil_iff]
    exact fun e he => (h.table.simple e he).section?
  rw [List.filterMap_append, hentries, List.nil_append, List.filterMap_map]
  exact congrFun List.filterMap_eq_map' sections

/-- The text of the entries is made of their lines. -/
theorem toList_entryLines (entries : List (String × Toml)) :
    (String.join (entries.map entryLine)).toList =
      (entries.map writtenEntry).flatMap Prod.fst := by
  simp [String.toList_join, List.flatMap_map, writtenEntry]

/-- A document is written line by line. -/
theorem toList_document (h : IsSimpleDocument entries sections) :
    (document (entries ++ sections.map fun s => (s.1, .table s.2))).toList =
      ([emptyLine].intercalate (writtenGroups entries sections)).flatMap Prod.fst := by
  -- Without entries the document has no group before the first section, and so no empty line.
  have hentries : ((if (entries.map entryLine).isEmpty then []
      else [String.join (entries.map entryLine)]).map String.toList) =
      (if entries.isEmpty then [] else [entries.map writtenEntry]).map (·.flatMap Prod.fst) := by
    cases entries with
    | nil => rfl
    | cons e entries => exact congrArg ([·]) (toList_entryLines (e :: entries))
  have hsections : (sections.map fun s =>
      "[" ++ keyText s.1 ++ "]\n" ++ String.join (s.2.map entryLine)).map String.toList =
      (sections.map writtenSection).map (·.flatMap Prod.fst) := by
    rw [List.map_map, List.map_map]
    refine List.map_congr_left fun s hs => ?_
    show ("[" ++ keyText s.1 ++ "]\n" ++ String.join (s.2.map entryLine)).toList = _
    rw [String.toList_append, toList_entryLines, keyText_of_isBareKey (h.bare s hs)]
    simp [writtenSection]
  rw [flatMap_intercalate, document, filter_isSection h, filterMap_section? h,
    String.toList_intercalate, writtenGroups]
  rw [List.map_append, List.map_append, hentries, hsections]
  simp [emptyLine]

/-- Each line of a document is read, whatever follows, and none starts with a byte order mark. A
byte order mark would be dropped at the very front of a document. -/
theorem line_of_mem (h : IsSimpleDocument entries sections) {l : WrittenLine}
    (hl : l ∈ [emptyLine].intercalate (writtenGroups entries sections)) :
    (∃ c, l.1.head? = some c ∧ c ≠ '\uFEFF') ∧
      ∀ rest, line (l.1 ++ rest) = some (some l.2, rest) := by
  have hentry {table : List (String × Toml)} (htable : IsSimpleTable table) {l : WrittenLine}
      (hl : l ∈ table.map writtenEntry) : (∃ c, l.1.head? = some c ∧ c ≠ '\uFEFF') ∧
        ∀ rest, line (l.1 ++ rest) = some (some l.2, rest) := by
    obtain ⟨e, he, rfl⟩ := List.mem_map.1 hl
    obtain ⟨c, more, hchars, hall⟩ := exists_cons_of_isBareKey (htable.bare e he)
    refine ⟨⟨c, ?_, ne_of_isBare (hall c (by simp [hchars])) (by decide)⟩,
      line_entry (htable.bare e he) (htable.simple e he)⟩
    simp [writtenEntry, entryLine, keyText_of_isBareKey (htable.bare e he), hchars]
  -- The line stands between two groups, or it is an entry or the header of a section.
  rcases Text.mem_intercalate hl with hl | ⟨group, hgroup, hl⟩
  · obtain rfl := List.mem_singleton.1 hl
    exact ⟨⟨'\n', rfl, by decide⟩, line_newline⟩
  rcases List.mem_append.1 hgroup with hgroup | hgroup
  · split at hgroup
    · cases hgroup
    · obtain rfl := List.mem_singleton.1 hgroup
      exact hentry h.table hl
  · obtain ⟨s, hs, rfl⟩ := List.mem_map.1 hgroup
    rcases List.mem_cons.1 hl with rfl | hl
    · refine ⟨⟨'[', rfl, by decide⟩, fun rest => ?_⟩
      simpa using line_header (h.bare s hs) rest
    · exact hentry (h.inner s hs) hl

/-- Every line of an entry says that entry, and together they say all of them in their order. -/
theorem filterMap_writtenEntry (entries : List (String × Toml)) :
    (entries.map writtenEntry).filterMap Prod.snd =
      entries.map fun e => .entry [] e.1 e.2 := by
  rw [List.filterMap_map]
  exact congrFun List.filterMap_eq_map' entries

/-- What the lines of a document say. The empty lines between the groups say nothing. -/
theorem filterMap_writtenGroups (entries : List (String × Toml))
    (sections : List (String × List (String × Toml))) :
    ([emptyLine].intercalate (writtenGroups entries sections)).filterMap Prod.snd =
      (entries.map fun e => .entry [] e.1 e.2) ++ sections.flatMap sectionLines := by
  have hentries : (if entries.isEmpty then [] else [entries.map writtenEntry]).flatMap
      (·.filterMap Prod.snd) = entries.map fun e => .entry [] e.1 e.2 := by
    cases entries with
    | nil => rfl
    | cons e entries => simpa using filterMap_writtenEntry (e :: entries)
  rw [filterMap_intercalate rfl, writtenGroups, List.flatMap_append, hentries, List.flatMap_map]
  refine congrArg _ (congrFun (congrArg _ (funext fun s => ?_)) sections)
  rw [writtenSection, List.filterMap_cons, filterMap_writtenEntry]
  rfl

/-- A document is read as it was written, if there is a line for each entry. -/
theorem read_document (h : IsSimpleDocument entries sections) :
    read (document (withSections entries sections)) =
      some (.table (withSections entries sections)) := by
  rw [withSections]
  have hrounds := rounds_flatMap Prod.fst Prod.snd
    ([emptyLine].intercalate (writtenGroups entries sections)) (fun l hl => by
    obtain ⟨⟨c, hhead, _⟩, hline⟩ := line_of_mem h hl
    refine ⟨?_, hline⟩
    intro hnil
    rw [hnil] at hhead
    cases hhead) line_nil
  rw [← toList_document h, List.append_nil] at hrounds
  -- A byte order mark at the front would be taken away.
  have hmark : (document (entries ++ sections.map fun s => (s.1, .table s.2))).toList.head? ≠
      some '\uFEFF' := by
    rw [toList_document h]
    cases hall : [emptyLine].intercalate (writtenGroups entries sections) with
    | nil => simp
    | cons l ls =>
        obtain ⟨⟨c, hhead, hne⟩, _⟩ := line_of_mem h (l := l) (by simp [hall])
        rw [List.flatMap_cons, List.head?_append, hhead]
        simpa using hne
  have hlines : lines (document (entries ++ sections.map fun s => (s.1, .table s.2))).toList =
      some ((entries.map fun e => .entry [] e.1 e.2) ++ sections.flatMap sectionLines, []) := by
    rw [lines, bind_eq (literal_of_head (c := '\uFEFF') rfl hmark), bind_eq hrounds.many_eq]
    show some (((List.intercalate _ _).map Prod.snd).filterMap id, []) = _
    rw [List.filterMap_map, Function.id_comp, filterMap_writtenGroups]
  show ((lines _).bind fun p => ofLines? p.1) = _
  rw [hlines]
  exact ofLines?_sections h.nodup fun s hs => (h.inner s hs).nodup

/-- **The format of the program is lawful:** it reads the documents that it writes. -/
theorem format_lawful : format.Lawful := fun _ _ => read_document

end EntityDiagram.Toml
