import EntityDiagram.Proofs.Diagram.Outline

/-!
# `EntityDiagram.Proofs.Diagram.ReadBack`: diagrams are unambiguous

`readDiagram` takes the text of a diagram apart: into lines, each line into its parts by the spaces
between them, and the lines into tables with columns. The details of a column and the sources of a
foreign key stand at the end of a line, so they need no more than their last quotation mark
dropped, whatever marks they hold themselves.

* `readLine_text`: a line whose parts fit is read back.
* `gather_lines`: the lines of an outline make that outline again.
* `readDiagram_render`: a diagram says exactly what its outline holds, so two diagrams are equal
  only if they show the same.

The reader is a specification and not part of the program: it is written down here from the grammar
of diagrams, it knows nothing of the renderer, and it has no way to fail. That it finds the parts of
a line again asks for names without white space, as an outline of a schema `NamedByWords` has them.
Whatever stands between the quotation marks of a line may be anything, since the reader takes the
rest of the line.
-/

set_option autoImplicit false

namespace EntityDiagram.Diagram

open Text (dropLead? dropLead?_append isSpace joinTexts splitWhere)

/-! ### The reader -/

/-- The text up to its first space. -/
def firstWord (s : List Char) : List Char := s.takeWhile (· != ' ')

/-- The text from its first space on. -/
def afterWord (s : List Char) : List Char := s.dropWhile (· != ' ')

/-- The mark that a text starts with, and what follows it. A name may not begin with a blank, so a
mark cannot be confused with one. -/
def readMark : List Char → Mark × List Char
  | ' ' :: 'P' :: 'K' :: rest => (.primary, rest)
  | ' ' :: 'F' :: 'K' :: rest => (.foreign, rest)
  | rest => (.plain, rest)

/-- The column of a line. -/
def readColumn (s : List Char) : ShownColumn :=
  let name := (afterWord s).tail
  let marked := readMark (afterWord name)
  { type := String.ofList (firstWord s)
    name := String.ofList (firstWord name)
    mark := marked.1
    -- Behind the space and the mark before the details, up to the mark at the end.
    details := String.ofList (marked.2.drop 2).dropLast }

/-- The foreign key of a line. -/
def readKey (s : List Char) : ShownKey :=
  let symbol := (afterWord s).tail
  let source := (afterWord symbol).tail
  let names := ((afterWord source).drop 4).dropLast
  { target := String.ofList (firstWord s)
    symbol := String.ofList (firstWord symbol)
    source := String.ofList (firstWord source)
    columns := (splitWhere (· == ',') names).map String.ofList }

/-- A line that is not the title and not that of a column. -/
def readOuterLine (s : List Char) : Line :=
  match afterWord s with
  | [] => .close
  | [' ', 'L', 'R'] => .leftToRight
  | [' ', '{'] => .table (String.ofList (firstWord s))
  | _ => .key (readKey s)

/-- A line, by how far it is indented. -/
def readLine (s : List Char) : Line :=
  match dropLead? [' ', ' ', ' ', ' '] s with
  | none => .title
  | some outer =>
    match dropLead? [' ', ' ', ' ', ' '] outer with
    | none => readOuterLine outer
    | some column => .column (readColumn column)

/-- What lines say, from the last one on: the columns of a table that starts further up, and all
else. -/
def gather : List Line → List ShownColumn × Outline
  | [] => ([], {})
  | l :: rest =>
    let (columns, d) := gather rest
    match l with
    | .title | .close => (columns, d)
    | .leftToRight => (columns, { d with direction := .leftToRight })
    | .table name => ([], { d with tables := { name, columns } :: d.tables })
    | .column c => (c :: columns, d)
    | .key k => (columns, { d with keys := k :: d.keys })

/-- What a diagram shows. -/
def readDiagram (text : String) : Outline :=
  (gather ((splitWhere (· == '\n') text.toList).dropLast.map readLine)).2

/-! ### Words -/

namespace IsWhole

variable {w : String} (h : IsWhole w)
include h

/-- A word goes on through all its characters. -/
theorem ne_space {c : Char} (hc : c ∈ w.toList) : (c != ' ') = true := by
  have hspace := h.2 c hc
  rw [bne_iff_ne]
  rintro rfl
  cases hspace

/-- A word stays on its line. -/
theorem newline_notMem : '\n' ∉ w.toList := by
  intro hc
  have hspace := h.2 _ hc
  cases hspace

/-- A word that a space follows, or nothing, is the first word. -/
theorem firstWord_append {rest : List Char} (hrest : ∀ c ∈ rest.head?, c = ' ') :
    firstWord (w.toList ++ rest) = w.toList := by
  rw [firstWord, List.takeWhile_append_of_pos fun c hc => h.ne_space hc]
  cases rest with
  | nil => simp
  | cons c rest => rw [hrest c rfl]; simp

/-- What follows a word is all that stands behind it, the space included. -/
theorem afterWord_append {rest : List Char} (hrest : ∀ c ∈ rest.head?, c = ' ') :
    afterWord (w.toList ++ rest) = rest := by
  rw [afterWord, List.dropWhile_append_of_pos fun c hc => h.ne_space hc]
  cases rest with
  | nil => rfl
  | cons c rest => rw [hrest c rfl]; simp

/-- A line that starts with a word is not indented further. -/
theorem dropLead?_eq_none (lead rest : List Char) :
    dropLead? (' ' :: lead) (w.toList ++ rest) = none := by
  have hne : w.toList ≠ [] := fun hnil => h.1 (String.toList_eq_nil_iff.1 hnil)
  obtain ⟨c, s, hcons⟩ := List.exists_cons_of_ne_nil hne
  have hc : (c != ' ') = true := h.ne_space (by rw [hcons]; exact List.mem_cons_self)
  rw [hcons, List.cons_append, dropLead?, if_neg]
  intro hspace
  rw [← beq_iff_eq.1 hspace] at hc
  cases hc

end IsWhole

/-! ### Lines -/

/-- What is said about a column, as it stands at the end of its line. -/
def quotedDetails (details : String) : List Char :=
  if details = "" then [] else ' ' :: '"' :: (details.toList ++ ['"'])

/-- What is said about a column is found between the outermost quotation marks. -/
theorem dropLast_quotedDetails (details : String) :
    ((quotedDetails details).drop 2).dropLast = details.toList := by
  rw [quotedDetails]
  split
  · rename_i h
    rw [h]
    rfl
  · exact List.dropLast_concat

/-- A mark is read back, whatever is said behind it. -/
theorem readMark_text (m : Mark) (details : String) :
    readMark (m.text.toList ++ quotedDetails details) = (m, quotedDetails details) := by
  cases m with
  | primary | foreign => rfl
  | plain =>
      rw [quotedDetails]
      split <;> rfl

/-- A space comes before a mark, and before what is said. -/
theorem head?_mark_quotedDetails (m : Mark) (details : String) :
    ∀ c ∈ (m.text.toList ++ quotedDetails details).head?, c = ' ' := by
  intro c hc
  cases m with
  | primary | foreign => exact (Option.some.inj hc).symm
  | plain =>
      rw [quotedDetails] at hc
      split at hc
      · cases hc
      · exact (Option.some.inj hc).symm

/-- A column is read back. -/
theorem readColumn_append {c : ShownColumn} (htype : IsWhole c.type) (hname : IsWhole c.name) :
    readColumn (c.type.toList ++ ' ' :: (c.name.toList ++
      (c.mark.text.toList ++ quotedDetails c.details))) = c := by
  have hhead := head?_mark_quotedDetails c.mark c.details
  rw [readColumn, htype.afterWord_append (by simp), htype.firstWord_append (by simp),
    List.tail_cons, hname.afterWord_append hhead, hname.firstWord_append hhead, readMark_text]
  dsimp only
  rw [dropLast_quotedDetails]
  simp only [String.ofList_toList]

/-- The sources of a foreign key are read back. -/
theorem splitWhere_joinTexts {names : List String} (hne : names ≠ [])
    (h : ∀ name ∈ names, IsWord name) :
    (splitWhere (· == ',') (joinTexts "," names).toList).map String.ofList = names := by
  have hcomma : ∀ part ∈ names.map String.toList, ',' ∉ part := by
    intro part hpart hc
    obtain ⟨name, hname, rfl⟩ := List.mem_map.1 hpart
    exact (h name hname).2 _ hc (by simp)
  have hseparator : ",".toList = [','] := rfl
  rw [Text.toList_joinTexts, hseparator, Text.splitWhere_joinWith (by simpa using hne) hcomma,
    List.map_map]
  simp [Function.comp_def]

/-- A foreign key is read back. -/
theorem readKey_append {k : ShownKey} (h : (Line.key k).Fits) :
    readKey (k.target.toList ++ ' ' :: (k.symbol.toList ++ ' ' :: (k.source.toList ++
      (" : \"".toList ++ ((joinTexts "," k.columns).toList ++ ['"']))))) = k := by
  obtain ⟨htarget, hsymbol, hsource, hne, hcolumns⟩ := h
  have hsymbol := isWhole_of_mem_symbols _ hsymbol
  have hnames : ((" : \"".toList ++ ((joinTexts "," k.columns).toList ++ ['"'])).drop 4).dropLast =
      (joinTexts "," k.columns).toList := List.dropLast_concat
  rw [readKey, htarget.afterWord_append (by simp), htarget.firstWord_append (by simp),
    List.tail_cons, hsymbol.afterWord_append (by simp), hsymbol.firstWord_append (by simp),
    List.tail_cons, hsource.afterWord_append (by simp), hsource.firstWord_append (by simp),
    hnames, splitWhere_joinTexts hne hcolumns]
  simp only [String.ofList_toList]

/-- A word and a symbol start the line of a foreign key: no symbol is a brace or a layout. -/
theorem readOuterLine_symbol {s rest : List Char} {symbol : String} (h : symbol ∈ symbols)
    (hs : afterWord s = ' ' :: (symbol.toList ++ rest)) : readOuterLine s = .key (readKey s) := by
  rw [readOuterLine, hs]
  simp only [symbols, List.mem_cons, List.not_mem_nil, or_false] at h
  rcases h with rfl | rfl | rfl <;> rfl

/-- A line that starts with a word after one indentation is an outer one. -/
theorem readLine_outer {w : String} (h : IsWhole w) (rest : List Char) :
    readLine ([' ', ' ', ' ', ' '] ++ (w.toList ++ rest)) = readOuterLine (w.toList ++ rest) := by
  rw [readLine, dropLead?_append]
  dsimp only
  rw [h.dropLead?_eq_none]

/-- The characters of the line of a table. -/
theorem toList_text_table (name : String) :
    (Line.table name).text.toList = [' ', ' ', ' ', ' '] ++ (name.toList ++ [' ', '{']) := by
  simp [Line.text]

/-- The characters of the line of a column. The lead is split in two because the reader asks for it
in two steps. -/
theorem toList_text_column (c : ShownColumn) :
    (Line.column c).text.toList =
      [' ', ' ', ' ', ' '] ++ ([' ', ' ', ' ', ' '] ++ (c.type.toList ++ ' ' ::
        (c.name.toList ++ (c.mark.text.toList ++ quotedDetails c.details)))) := by
  by_cases h : c.details = "" <;> simp [Line.text, quotedDetails, h]

/-- The characters of the line of a foreign key. The columns are quoted, so the last character is a
quote. -/
theorem toList_text_key (k : ShownKey) :
    (Line.key k).text.toList =
      [' ', ' ', ' ', ' '] ++ (k.target.toList ++ ' ' :: (k.symbol.toList ++ ' ' ::
        (k.source.toList ++ (" : \"".toList ++
          ((joinTexts "," k.columns).toList ++ ['"']))))) := by
  simp [Line.text]

/-- **A line whose parts fit is read back.** -/
theorem readLine_text {l : Line} (h : l.Fits) : readLine l.text.toList = l := by
  cases l with
  | title | leftToRight | close => rfl
  | table name =>
      rw [toList_text_table, readLine_outer h, readOuterLine, h.afterWord_append (by simp),
        h.firstWord_append (by simp), String.ofList_toList]
      rfl
  | column c =>
      -- A column is told by four more spaces behind the first four.
      rw [toList_text_column, readLine, dropLead?_append]
      dsimp only
      rw [dropLead?_append]
      dsimp only
      rw [readColumn_append h.1 h.2.1]
  | key k =>
      rw [toList_text_key, readLine_outer h.1,
        readOuterLine_symbol h.2.1 (h.1.afterWord_append (by simp)), readKey_append h]

/-- No line that fits is broken. -/
theorem newline_notMem_text {l : Line} (h : l.Fits) : '\n' ∉ l.text.toList := by
  cases l with
  | title | leftToRight | close => decide
  | table name => simpa [Line.text] using h.newline_notMem
  | column c =>
      obtain ⟨htype, hname, hdetails⟩ := h
      have hmark : '\n' ∉ c.mark.text.toList := by cases c.mark <;> decide
      -- The details hold no line break, and neither do the quotes around them.
      have hsaid : '\n' ∉ quotedDetails c.details := by
        rw [quotedDetails]
        split <;> simp [hdetails]
      simp [toList_text_column, htype.newline_notMem, hname.newline_notMem, hmark, hsaid]
  | key k =>
      obtain ⟨htarget, hsymbol, hsource, -, hcolumns⟩ := h
      have hnames : '\n' ∉ (joinTexts "," k.columns).toList := by
        rw [Text.toList_joinTexts]
        intro hc
        rcases Text.mem_joinWith hc with hc | ⟨part, hpart, hc⟩
        · exact absurd hc (by decide)
        · obtain ⟨name, hname, rfl⟩ := List.mem_map.1 hpart
          exact (hcolumns name hname).1.newline_notMem hc
      simp [toList_text_key, htarget.newline_notMem, hsource.newline_notMem,
        (isWhole_of_mem_symbols _ hsymbol).newline_notMem, hnames]

/-! ### Outlines -/

/-- The block of a table is gathered as the table. -/
theorem gather_tableLines (t : ShownTable) {rest : List Line} {d : Outline}
    (h : gather rest = ([], d)) :
    gather (t.lines ++ rest) = ([], { d with tables := t :: d.tables }) := by
  have hcolumns : ∀ columns : List ShownColumn,
      gather (columns.map .column ++ .close :: rest) = (columns, d) := by
    intro columns
    induction columns with
    | nil => simp [gather, h]
    | cons c columns ih => simp [gather, ih]
  simp [ShownTable.lines, gather, hcolumns]

/-- The lines of relations come behind all blocks, and each of them is a relation of the diagram. -/
theorem gather_keyLines (keys : List ShownKey) :
    gather (keys.map .key) = ([], { keys }) := by
  induction keys with
  | nil => rfl
  | cons k keys ih => simp [gather, ih]

/-- The blocks of tables are gathered as the tables. The columns of each table are collected at its
header, as the lines are read from the last one on. -/
theorem gather_tablesLines (tables : List ShownTable) {rest : List Line} {d : Outline}
    (h : gather rest = ([], d)) :
    gather (tables.flatMap ShownTable.lines ++ rest) =
      ([], { d with tables := tables ++ d.tables }) := by
  induction tables with
  | nil => exact h
  | cons t tables ih =>
      rw [List.flatMap_cons, List.append_assoc, gather_tableLines t ih]
      rfl

/-- **The lines of an outline make it again.** -/
theorem gather_lines (d : Outline) : gather d.lines = ([], d) := by
  have h := gather_tablesLines d.tables (gather_keyLines d.keys)
  obtain ⟨direction, tables, keys⟩ := d
  cases direction <;> simp [Outline.lines, gather, h]

/-! ### Diagrams -/

/-- The lines of a text, each ended by a line break, are split again. -/
theorem splitWhere_lines {ls : List String} (h : ∀ l ∈ ls, '\n' ∉ l.toList) :
    splitWhere (· == '\n') (String.join (ls.map (· ++ "\n"))).toList =
      ls.map String.toList ++ [[]] := by
  induction ls with
  | nil => rfl
  | cons l ls ih =>
      obtain ⟨hl, hrest⟩ := List.forall_mem_cons.1 h
      have hline : ∀ c ∈ l.toList, (c == '\n') = false := by
        intro c hc
        rw [beq_eq_false_iff_ne]
        rintro rfl
        exact hl hc
      -- Each line ends with a break, so the last piece of the split is empty.
      have hjoin : (String.join ((l :: ls).map (· ++ "\n"))).toList =
          l.toList ++ '\n' :: (String.join (ls.map (· ++ "\n"))).toList := by simp
      rw [hjoin, Text.splitWhere_append hline '\n' (by simp), ih hrest]
      rfl

/-- The reader finds what the diagram shows. -/
theorem readDiagram_render_eq_outline (keySuffix : String) (o : Options) {s : Schema}
    (h : NamedByWords s) : readDiagram (render keySuffix o s) = outline keySuffix o s := by
  have hfits := fits_outline keySuffix o h
  have hbreak : ∀ l ∈ lines keySuffix o s, '\n' ∉ l.toList := by
    intro text htext
    rw [lines_eq] at htext
    obtain ⟨l, hl, rfl⟩ := List.mem_map.1 htext
    exact newline_notMem_text (hfits l hl)
  have hread : ((lines keySuffix o s).map String.toList).map readLine =
      (outline keySuffix o s).lines := by
    rw [lines_eq, List.map_map, List.map_map]
    exact (List.map_congr_left fun l hl => readLine_text (hfits l hl)).trans (List.map_id _)
  rw [readDiagram, render, splitWhere_lines hbreak, List.dropLast_concat, hread, gather_lines]

/-- **A diagram can be read back**, whatever the types, the comments and the options are: it says
what its outline holds, and two diagrams are equal exactly where their outlines are. -/
theorem readDiagram_render {s : Schema} (h : NamedByWords s) (keySuffix : String) (o : Options) :
    readDiagram (render keySuffix o s) = outline keySuffix o s ∧
      ∀ {s' : Schema}, NamedByWords s' → ∀ (keySuffix' : String) (o' : Options),
        render keySuffix o s = render keySuffix' o' s' ↔
          outline keySuffix o s = outline keySuffix' o' s' := by
  refine ⟨readDiagram_render_eq_outline keySuffix o h, ?_⟩
  intro s' h' keySuffix' o'
  constructor
  · intro htext
    rw [← readDiagram_render_eq_outline keySuffix o h, htext,
      readDiagram_render_eq_outline keySuffix' o' h']
  · intro houtline
    rw [render, render, lines_eq, lines_eq, houtline]

/-- Two tables, with a type and a comment that hold quotation marks and line breaks. -/
def ordersSchema : Schema where
  dbType := "mysql"
  tables :=
    [{ name := "users"
       columns :=
         [{ name := "id", dataType := "INT", baseType := "INT", inPrimaryKey := true },
          { name := "kind", dataType := "ENUM('a \"', 'PK')", baseType := "ENUM"
            nullable := false, comment := some "\" PK \"\n    \x7d" }] },
     { name := "orders"
       columns := [{ name := "user_id", dataType := "INT", baseType := "INT" }]
       foreignKeys :=
         [{ fromTable := "orders", fromColumns := ["user_id"], toTable := "users"
            toColumns := ["id"] }] }]

/-- The diagram of these tables says this and nothing else: the type of the second column is one
word, its comment stands behind NOT NULL on one line, and the key without a cardinality is one to
many. It is not the diagram of the second table alone. -/
theorem readDiagram_render_ordersSchema :
    NamedByWords ordersSchema ∧
      readDiagram (render "_id" {} ordersSchema) =
        { direction := .topToBottom
          tables :=
            [{ name := "users"
               columns :=
                 [{ type := "int", name := "id", mark := .primary, details := "" },
                  { type := "enum('a\"'_'pk')", name := "kind", mark := .plain
                    details := "NOT NULL, ' PK '     \x7d" }] },
             { name := "orders"
               columns := [{ type := "int", name := "user_id", mark := .foreign, details := "" }] }]
          keys :=
            [{ target := "users", symbol := "||--o\x7b", source := "orders"
               columns := ["user_id"] }] } ∧
      render "_id" {} ordersSchema ≠ render "_id" { excludeTables := ["users"] } ordersSchema := by
  have h : NamedByWords ordersSchema := ⟨by decide, by decide, by decide⟩
  obtain ⟨hread, hiff⟩ := readDiagram_render h "_id" {}
  -- The content is compared with the outline, which is an independent description. The text itself
  -- is not evaluated.
  refine ⟨h, hread.trans (by decide +kernel), fun htext => ?_⟩
  exact absurd ((hiff h "_id" { excludeTables := ["users"] }).1 htext) (by decide +kernel)

end EntityDiagram.Diagram
