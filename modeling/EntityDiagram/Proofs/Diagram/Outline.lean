import EntityDiagram.Proofs.Diagram.Parts

/-!
# `EntityDiagram.Proofs.Diagram.Outline`: what a diagram says, apart from how it is written

An `Outline` holds what the diagram of a schema shows under some options: its direction, the tables
with their columns, and the foreign keys. It is put together from the parts of
`EntityDiagram.Proofs.Diagram.Parts`, and none of these is taken from the renderer. A `Line` is one
line of the text of a diagram with the parts that the line is made of.

* `lines_eq`: the renderer writes the lines of the outline and nothing else, so whatever the outline
  leaves out of the schema is not in the text.
* `fits_outline`: lines are told apart from their text alone, so their parts must fit (`Line.Fits`).
  Those of an outline do if the schema is `NamedByWords`. Types, comments and options may be
  anything: a type is always shown as one word, and what is said about a column stands at the end of
  its line.
* `notMem_details`: nothing that is said about a column ends its quotes or its line.
-/

set_option autoImplicit false

namespace EntityDiagram.Diagram

open Text (isSpace joinTexts)

/-! ### Outlines -/

/-- A column as it is shown. -/
structure ShownColumn where
  type : String
  name : String
  mark : Mark
  /-- What is said about it; empty where nothing is. -/
  details : String
deriving DecidableEq, Repr, Inhabited

/-- A table as it is shown. -/
structure ShownTable where
  name : String
  columns : List ShownColumn
deriving DecidableEq, Repr, Inhabited

/-- A foreign key as it is shown. -/
structure ShownKey where
  target : String
  symbol : String
  source : String
  columns : List String
deriving DecidableEq, Repr, Inhabited

/-- What a diagram shows. -/
structure Outline where
  direction : Direction := .topToBottom
  tables : List ShownTable := []
  keys : List ShownKey := []
deriving DecidableEq, Repr, Inhabited

/-- A column of `t` as it is shown: its type as one word, its name, its part in keys, and what is
said about it. -/
def shownColumn (t : Table) (showComments : Bool) (c : Column) : ShownColumn where
  type := typeOf c
  name := c.name
  mark := markOf t c
  details := detailsOf showComments c

/-- A table with the columns that the options show. -/
def shownTable (keySuffix : String) (o : Options) (t : Table) : ShownTable where
  name := t.name
  columns := (t.columns.filter (Shows keySuffix o.viewMode)).map (shownColumn t o.showComments)

/-- A foreign key as it is shown. -/
def shownKey (k : ForeignKey) : ShownKey where
  target := k.toTable
  symbol := symbolOf k.cardinality
  source := k.fromTable
  columns := k.fromColumns

/-- What the diagram of a schema shows: its layout, the selected tables with the columns that the
view mode shows, and the foreign keys of these tables, all in the order of the schema. -/
def outline (keySuffix : String) (o : Options) (s : Schema) : Outline where
  direction := o.direction
  tables := (o.selected s).map (shownTable keySuffix o)
  keys := (o.selected s).flatMap fun t => t.foreignKeys.map shownKey

/-! ### Lines -/

/-- A line of a diagram. -/
inductive Line where
  | title
  | leftToRight
  | table (name : String)
  | column (c : ShownColumn)
  | close
  | key (k : ShownKey)
deriving DecidableEq, Repr, Inhabited

/-- The text of a line. -/
def Line.text : Line → String
  | .title => "erDiagram"
  | .leftToRight => "    direction LR"
  | .table name => "    " ++ name ++ " \x7b"
  | .column c =>
    "        " ++ (c.type ++ " " ++ c.name ++ c.mark.text
      ++ if c.details = "" then "" else " \"" ++ c.details ++ "\"")
  | .close => "    \x7d"
  | .key k =>
    "    " ++ k.target ++ " " ++ k.symbol ++ " " ++ k.source ++ " : \"" ++ joinTexts "," k.columns
      ++ "\""

/-- The block of a table. -/
def ShownTable.lines (t : ShownTable) : List Line :=
  .table t.name :: t.columns.map .column ++ [.close]

/-- The lines of a diagram that shows the outline. -/
def Outline.lines (d : Outline) : List Line :=
  .title :: (if d.direction = .leftToRight then [.leftToRight] else [])
    ++ (d.tables.flatMap ShownTable.lines ++ d.keys.map .key)

/-! ### The text of a diagram -/

/-- Texts that are not empty are joined to an empty text only if there are none. -/
theorem joinTexts_eq_empty_iff {separator : String} {parts : List String}
    (h : ∀ part ∈ parts, part ≠ "") : joinTexts separator parts = "" ↔ parts.isEmpty = true := by
  cases parts with
  | nil => simp [joinTexts]
  | cons part more =>
      have hpart : part ≠ "" := h part List.mem_cons_self
      cases more with
      | nil => simpa [joinTexts] using hpart
      | cons next more => simp [joinTexts, hpart]

/-- A comment that is shown has a character at least. -/
theorem shownComment_ne_empty {c : Column} {comment : String} (h : shownComment c = some comment) :
    comment ≠ "" := by
  obtain ⟨s, -, hs⟩ := Option.bind_eq_some_iff.1 h
  split at hs
  · cases hs
  · rename_i hblank
    obtain rfl := Option.some.inj hs
    intro hempty
    rw [String.ofList_eq_empty_iff] at hempty
    exact hblank (by rw [hempty]; rfl)

/-- What is said about a column is never empty. -/
theorem ne_empty_of_mem_details {c : Column} {showComments : Bool} :
    ∀ said ∈ details c showComments, said ≠ "" := by
  intro said hsaid
  rcases List.mem_append.1 hsaid with hsaid | hsaid
  · split at hsaid
    · rw [List.mem_singleton.1 hsaid]
      decide
    · cases hsaid
  · split at hsaid
    · exact shownComment_ne_empty (Option.mem_toList.1 hsaid)
    · cases hsaid

/-- The line of a column is that of the column as it is shown. -/
theorem columnLine_eq (t : Table) (showComments : Bool) (c : Column) :
    "        " ++ columnLine t showComments c =
      (Line.column (shownColumn t showComments c)).text := by
  simp only [columnLine, Line.text, shownColumn, keyMark_eq, typeToken_eq, ← joinTexts_details_eq,
    joinTexts_eq_empty_iff ne_empty_of_mem_details]

/-- The lines of a table are those of the table as it is shown. -/
theorem tableLines_eq (keySuffix : String) (o : Options) (t : Table) :
    tableLines keySuffix o t = (shownTable keySuffix o t).lines.map Line.text := by
  simp [tableLines, ShownTable.lines, shownTable, Line.text, columnLine_eq, visibleColumns_eq,
    Function.comp_def]

/-- The line of a foreign key is that of the key as it is shown. -/
theorem keyLine_eq (k : ForeignKey) : keyLine k = (Line.key (shownKey k)).text := by
  rw [keyLine, symbol_eq]
  rfl

/-- **A diagram is the text of its outline.** -/
theorem lines_eq (keySuffix : String) (o : Options) (s : Schema) :
    lines keySuffix o s = (outline keySuffix o s).lines.map Line.text := by
  have htables : tableLines keySuffix o =
      fun t => (shownTable keySuffix o t).lines.map Line.text :=
    funext (tableLines_eq keySuffix o)
  have hkeys : keyLine = fun k => (Line.key (shownKey k)).text :=
    funext keyLine_eq
  by_cases hdirection : o.direction = .leftToRight <;>
    simp [lines, Outline.lines, outline, filter_keeps_eq, htables, hkeys, hdirection, Line.text,
      List.map_flatMap, List.flatMap_map, Function.comp_def]

/-! ### Lines that can be told apart -/

/-- Whether the text is not empty and holds no white space. -/
def IsWhole (s : String) : Prop := s ≠ "" ∧ ∀ c ∈ s.toList, isSpace c = false

/-- Whether the text is a name that a diagram can show: besides, it holds none of the marks that
stand around names. -/
def IsWord (s : String) : Prop := IsWhole s ∧ ∀ c ∈ s.toList, c ∉ ['"', ',', '{', '}']

/-- The characters of a name can be looked at one by one. -/
instance (s : String) : Decidable (IsWhole s) :=
  decidable_of_iff (s ≠ "" ∧ (s.toList.all fun c => !isSpace c) = true) (by simp [IsWhole])

/-- A word is a name with a first character. -/
instance (s : String) : Decidable (IsWord s) :=
  decidable_of_iff (IsWhole s ∧ (s.toList.all fun c => decide (c ∉ ['"', ',', '{', '}'])) = true)
    (by simp [IsWord])

/-- The symbols of cardinalities. -/
def symbols : List String := ["||--||", "\x7do--o\x7b", "||--o\x7b"]

/-- Whether the parts of a line can be found in its text. -/
def Line.Fits : Line → Prop
  | .title | .leftToRight | .close => True
  | .table name => IsWhole name
  | .column c => IsWhole c.type ∧ IsWhole c.name ∧ '\n' ∉ c.details.toList
  | .key k =>
    IsWhole k.target ∧ k.symbol ∈ symbols ∧ IsWhole k.source ∧
      k.columns ≠ [] ∧ ∀ name ∈ k.columns, IsWord name

/-- Whether the tables and columns of a schema are named by words, also in foreign keys, and no
foreign key is without a source. -/
structure NamedByWords (s : Schema) : Prop where
  tables : ∀ t ∈ s.tables, IsWord t.name
  columns : ∀ t ∈ s.tables, ∀ c ∈ t.columns, IsWord c.name
  keys : ∀ t ∈ s.tables, ∀ k ∈ t.foreignKeys,
    IsWord k.toTable ∧ IsWord k.fromTable ∧ k.fromColumns ≠ [] ∧ ∀ name ∈ k.fromColumns, IsWord name

/-- The characters that would end a quoted text or its line. -/
def breakers : List Char := ['"', '\r', '\n']

/-- A comment as it is shown ends neither its quotes nor its line. -/
theorem notMem_escapeComment (s : List Char) : ∀ c ∈ escapeComment s, c ∉ breakers := by
  intro c hc
  obtain ⟨d, hd, rfl⟩ := List.mem_map.1 hc
  have hquote : d ≠ '"' := by
    rcases Text.mem_replaceFrom _ 0 hd with hd | hd
    · rw [List.mem_singleton.1 hd]
      decide
    · obtain ⟨e, -, rfl⟩ := List.mem_map.1 hd
      split <;> simp_all
  split
  · decide
  · simp_all [breakers]

/-- Nothing that is said about a column ends its quotes or its line. -/
theorem notMem_details (c : Column) (showComments : Bool) :
    ∀ d ∈ (joinTexts ", " (details c showComments)).toList, d ∉ breakers := by
  have hsaid : ∀ said ∈ details c showComments, ∀ d ∈ said.toList, d ∉ breakers := by
    intro said hsaid
    -- What is said is fixed, or a comment with its breakers escaped.
    rcases List.mem_append.1 hsaid with hsaid | hsaid
    · split at hsaid
      · rw [List.mem_singleton.1 hsaid]
        simp [breakers]
      · cases hsaid
    · split at hsaid
      · obtain ⟨s, hs, hshown⟩ := Option.bind_eq_some_iff.1 (Option.mem_toList.1 hsaid)
        obtain ⟨comment, -, rfl⟩ := Option.map_eq_some_iff.1 hs
        split at hshown
        · cases hshown
        · obtain rfl := Option.some.inj hshown
          rw [String.toList_ofList]
          exact notMem_escapeComment _
      · cases hsaid
  have hseparator : ∀ d ∈ ", ".toList, d ∉ breakers := by simp [breakers]
  intro d hd
  rw [Text.toList_joinTexts] at hd
  rcases Text.mem_joinWith hd with hd | ⟨part, hpart, hd⟩
  · exact hseparator d hd
  · obtain ⟨said, hmem, rfl⟩ := List.mem_map.1 hpart
    exact hsaid said hmem d hd

/-- A symbol is a word. -/
theorem isWhole_of_mem_symbols : ∀ symbol ∈ symbols, IsWhole symbol := by decide

/-- The symbol of a foreign key is one of three. -/
theorem symbolOf_mem (cardinality : Option Cardinality) : symbolOf cardinality ∈ symbols := by
  rcases cardinality with _ | _ | _ | _ <;> decide

/-- The lines of a table fit. -/
theorem fits_shownTable (keySuffix : String) (o : Options) {t : Table} (hname : IsWord t.name)
    (hcolumns : ∀ c ∈ t.columns, IsWord c.name) :
    ∀ l ∈ (shownTable keySuffix o t).lines, l.Fits := by
  intro l hl
  simp only [ShownTable.lines, shownTable, List.mem_append, List.mem_cons, List.mem_map,
    List.not_mem_nil, or_false] at hl
  obtain (rfl | ⟨_, ⟨c, hc, rfl⟩, rfl⟩) | rfl := hl
  · exact hname.1
  · refine ⟨typeOf_ne_empty c, (hcolumns c (List.mem_filter.1 hc).1).1, fun h => ?_⟩
    rw [shownColumn, ← joinTexts_details_eq] at h
    exact notMem_details c o.showComments _ h (by decide)
  · trivial

/-- **The lines of a diagram fit if the schema is named by words.** -/
theorem fits_outline (keySuffix : String) (o : Options) {s : Schema} (h : NamedByWords s) :
    ∀ l ∈ (outline keySuffix o s).lines, l.Fits := by
  intro l hl
  rcases List.mem_append.1 hl with hl | hl
  · rcases List.mem_cons.1 hl with rfl | hl
    · trivial
    · split at hl
      · rw [List.mem_singleton.1 hl]
        trivial
      · cases hl
  · rcases List.mem_append.1 hl with hl | hl
    · -- A line within a table.
      obtain ⟨_, hshown, hl⟩ := List.mem_flatMap.1 hl
      obtain ⟨t, ht, rfl⟩ := List.mem_map.1 hshown
      have hmem := (List.mem_filter.1 ht).1
      exact fits_shownTable keySuffix o (h.tables t hmem) (h.columns t hmem) l hl
    · -- A line of a foreign key, whose names are those of the two tables and of the columns.
      obtain ⟨_, hshown, rfl⟩ := List.mem_map.1 hl
      obtain ⟨t, ht, hkey⟩ := List.mem_flatMap.1 hshown
      obtain ⟨k, hk, rfl⟩ := List.mem_map.1 hkey
      obtain ⟨htarget, hsource, hne, hcolumns⟩ := h.keys t (List.mem_filter.1 ht).1 k hk
      exact ⟨htarget.1, symbolOf_mem k.cardinality, hsource.1, hne, hcolumns⟩

end EntityDiagram.Diagram
