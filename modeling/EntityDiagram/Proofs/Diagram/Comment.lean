import EntityDiagram.Proofs.Diagram.Outline
import Mathlib.Data.List.Forall2

/-!
# `EntityDiagram.Proofs.Diagram.Comment`: what comments can change in a diagram

A comment is any text, and the rest of a diagram is not to depend on it. `Schema.uncommented` is
what is left of a schema without its comments, and two schemas of which that is the same are
compared here, line by line. The theorems:

* `tableLines_uncommented`: where comments are not shown, no line reads them.
* `exists_columnLine_eq`: all that is said about a column, NOT NULL and comment together, is one
  quoted text at the end of its line, and nothing in it ends the quotes or the line.
* `render_of_uncommented_eq`: both for whole diagrams.

What may differ is said as a relation between two lines, `SameBesideQuote`. Lines of columns agree
in front of the quoted text, and neither quoted text holds a quotation mark or the end of a line;
all other lines agree as they are. The lines of two diagrams are compared in pairs, so that there
are as many of them in the one as in the other, and whoever takes the diagrams apart meets the same
structure in both.
-/

set_option autoImplicit false

namespace EntityDiagram

/-- The column without its comment. -/
def Column.uncommented (c : Column) : Column := { c with comment := none }

/-- The table without its comment and those of its columns. -/
def Table.uncommented (t : Table) : Table :=
  { t with comment := none, columns := t.columns.map Column.uncommented }

/-- The view without its comment and those of its columns. -/
def View.uncommented (v : View) : View :=
  { v with comment := none, columns := v.columns.map Column.uncommented }

/-- The schema without any comments. -/
def Schema.uncommented (s : Schema) : Schema :=
  { s with
    tables := s.tables.map Table.uncommented
    views := s.views.map View.uncommented }

namespace Diagram

open Text (joinTexts)

/-! ### Lines that differ in comments at most -/

/-- Whether the text is one quoted token with the space before it, or empty. -/
def IsQuote (q : String) : Prop :=
  q = "" ∨ ∃ said : String, q = " \"" ++ said ++ "\"" ∧ ∀ c ∈ said.toList, c ∉ breakers

/-- The line of a column of `t` without what is said about it: type, name and part in keys. -/
def columnHead (t : Table) (c : Column) : String :=
  "        " ++ typeToken c ++ " " ++ c.name ++ keyMark t c

/-- A line of the diagram of `s` and the one in its place in that of `s'`, where the two differ at
most in one quoted token at the end of the line of a column. -/
inductive SameBesideQuote (s s' : Schema) : String → String → Prop
  | column {t t' : Table} {c c' : Column} {q q' : String} (ht : t ∈ s.tables) (hc : c ∈ t.columns)
      (ht' : t' ∈ s'.tables) (hc' : c' ∈ t'.columns) (htype : typeToken c = typeToken c')
      (hname : c.name = c'.name) (hmark : keyMark t c = keyMark t' c')
      (hq : IsQuote q) (hq' : IsQuote q') :
      SameBesideQuote s s' (columnHead t c ++ q) (columnHead t' c' ++ q')
  | other {l : Line} (hl : ∀ c, l ≠ .column c) : SameBesideQuote s s' l.text l.text

/-! ### Columns -/

/-- All that is said about a column is one quoted token at the end of its line. -/
theorem exists_columnLine_eq (t : Table) (showComments : Bool) (c : Column) :
    ∃ q, IsQuote q ∧ "        " ++ columnLine t showComments c = columnHead t c ++ q := by
  by_cases hsaid : (details c showComments).isEmpty = true
  · refine ⟨"", .inl rfl, ?_⟩
    simp [columnLine, columnHead, hsaid, String.append_assoc]
  · refine ⟨_, .inr ⟨_, rfl, notMem_details c showComments⟩, ?_⟩
    simp [columnLine, columnHead, hsaid, String.append_assoc]

/-- Neither type, name nor part in keys is taken from a comment. -/
theorem head_eq_of_uncommented_eq {t t' : Table} {c c' : Column}
    (ht : t.uncommented = t'.uncommented) (hc : c.uncommented = c'.uncommented) :
    typeToken c = typeToken c' ∧ c.name = c'.name ∧ keyMark t c = keyMark t' c' := by
  have htype : typeToken c.uncommented = typeToken c'.uncommented := by rw [hc]
  have hname : c.uncommented.name = c'.uncommented.name := by rw [hc]
  have hmark : keyMark t.uncommented c.uncommented = keyMark t'.uncommented c'.uncommented := by
    rw [ht, hc]
  exact ⟨htype, hname, hmark⟩

/-- A view mode selects columns without regard to their comments. -/
theorem visibleColumns_uncommented (keySuffix : String) (mode : ViewMode) (t : Table) :
    visibleColumns keySuffix mode t.uncommented =
      (visibleColumns keySuffix mode t).map Column.uncommented := by
  cases mode with
  | conceptual | physical => rfl
  | logical =>
      show (t.columns.map Column.uncommented).filter _ = _
      rw [List.filter_map]
      rfl

/-- A view mode shows columns of the table alone. -/
theorem mem_of_mem_visibleColumns {keySuffix : String} {mode : ViewMode} {t : Table} {c : Column}
    (h : c ∈ visibleColumns keySuffix mode t) : c ∈ t.columns := by
  rw [visibleColumns_eq] at h
  exact (List.mem_filter.1 h).1

/-! ### Tables -/

/-- Where comments are not shown, the lines of a table do not depend on them. -/
theorem tableLines_uncommented (keySuffix : String) {o : Options} (ho : o.showComments = false)
    (t : Table) : tableLines keySuffix o t.uncommented = tableLines keySuffix o t := by
  rw [tableLines, tableLines, visibleColumns_uncommented, ho, List.map_map]
  rfl

/-- Lists that are the same under `f` are related member by member by what `f` leaves. -/
theorem forall₂_of_map_eq {α β : Type} {f : α → β} {r : α → α → Prop} {as bs : List α}
    (h : as.map f = bs.map f) (hr : ∀ a ∈ as, ∀ b ∈ bs, f a = f b → r a b) :
    List.Forall₂ r as bs := by
  induction as generalizing bs with
  | nil =>
      obtain rfl := List.map_eq_nil_iff.1 h.symm
      exact .nil
  | cons a as ih =>
      obtain ⟨b, bs, rfl, hab, hrest⟩ := List.map_eq_cons_iff.1 h.symm
      refine .cons (hr a List.mem_cons_self b List.mem_cons_self hab.symm) (ih hrest.symm ?_)
      exact fun a' ha' b' hb' =>
        hr a' (List.mem_cons_of_mem a ha') b' (List.mem_cons_of_mem b hb')

/-- Tables that differ in comments at most have the same lines beside one quoted token at the end
of the line of each column. -/
theorem tableLines_sameBesideQuote {s s' : Schema} (keySuffix : String) (o : Options)
    {t t' : Table} (ht : t ∈ s.tables) (ht' : t' ∈ s'.tables)
    (h : t.uncommented = t'.uncommented) :
    List.Forall₂ (SameBesideQuote s s') (tableLines keySuffix o t) (tableLines keySuffix o t') := by
  have hname : t.uncommented.name = t'.uncommented.name := by rw [h]
  have hvisible : (visibleColumns keySuffix o.viewMode t).map Column.uncommented =
      (visibleColumns keySuffix o.viewMode t').map Column.uncommented := by
    rw [← visibleColumns_uncommented, ← visibleColumns_uncommented, h]
  -- Columns that belong together are shown alike but for what stands in quotes.
  have hcolumns : List.Forall₂ (SameBesideQuote s s')
      ((visibleColumns keySuffix o.viewMode t).map
        fun c => "        " ++ columnLine t o.showComments c)
      ((visibleColumns keySuffix o.viewMode t').map
        fun c => "        " ++ columnLine t' o.showComments c) := by
    rw [List.forall₂_map_left_iff, List.forall₂_map_right_iff]
    refine forall₂_of_map_eq hvisible fun c hc c' hc' hsame => ?_
    obtain ⟨q, hq, hline⟩ := exists_columnLine_eq t o.showComments c
    obtain ⟨q', hq', hline'⟩ := exists_columnLine_eq t' o.showComments c'
    obtain ⟨htype, hname, hmark⟩ := head_eq_of_uncommented_eq h hsame
    rw [hline, hline']
    exact .column ht (mem_of_mem_visibleColumns hc) ht' (mem_of_mem_visibleColumns hc') htype hname
      hmark hq hq'
  have hfirst :
      SameBesideQuote s s' ("    " ++ t.name ++ " \x7b") ("    " ++ t'.name ++ " \x7b") := by
    rw [show t.name = t'.name from hname]
    exact .other (l := .table t'.name) nofun
  have hlast : SameBesideQuote s s' "    \x7d" "    \x7d" := .other (l := .close) nofun
  exact .cons hfirst (List.rel_append hcolumns (.cons hlast .nil))

/-! ### Diagrams -/

/-- The tables that are shown are the same, comments aside. -/
theorem filter_uncommented (o : Options) (s : Schema) :
    s.uncommented.tables.filter (fun t => o.keeps t.name) =
      (s.tables.filter fun t => o.keeps t.name).map Table.uncommented := by
  show (s.tables.map Table.uncommented).filter _ = _
  rw [List.filter_map]
  rfl

/-- The lines of foreign keys do not depend on comments. -/
theorem flatMap_keyLine_uncommented (tables : List Table) :
    (tables.map Table.uncommented).flatMap (fun t => t.foreignKeys.map keyLine) =
      tables.flatMap fun t => t.foreignKeys.map keyLine := by
  rw [List.flatMap_map]
  rfl

/-- Where comments are not shown, no line depends on them. -/
theorem lines_uncommented (keySuffix : String) {o : Options} (ho : o.showComments = false)
    (s : Schema) : lines keySuffix o s.uncommented = lines keySuffix o s := by
  have htables (tables : List Table) :
      (tables.map Table.uncommented).flatMap (tableLines keySuffix o) =
        tables.flatMap (tableLines keySuffix o) := by
    rw [List.flatMap_map]
    simp only [tableLines_uncommented keySuffix ho]
  simp only [lines, filter_uncommented, flatMap_keyLine_uncommented, htables]

/-- Schemas that differ in comments at most have the same lines beside one quoted token at the end
of the line of each column. -/
theorem lines_sameBesideQuote {s s' : Schema} (h : s.uncommented = s'.uncommented)
    (keySuffix : String) (o : Options) :
    List.Forall₂ (SameBesideQuote s s') (lines keySuffix o s) (lines keySuffix o s') := by
  have hkept : (s.tables.filter fun t => o.keeps t.name).map Table.uncommented =
      (s'.tables.filter fun t => o.keeps t.name).map Table.uncommented := by
    rw [← filter_uncommented, ← filter_uncommented, h]
  have hfront : List.Forall₂ (SameBesideQuote s s')
      (["erDiagram"] ++ if o.direction = .leftToRight then ["    direction LR"] else [])
      (["erDiagram"] ++ if o.direction = .leftToRight then ["    direction LR"] else []) := by
    refine .cons (.other (l := .title) nofun) ?_
    split
    · exact .cons (.other (l := .leftToRight) nofun) .nil
    · exact .nil
  have htables : List.Forall₂ (SameBesideQuote s s')
      ((s.tables.filter fun t => o.keeps t.name).flatMap (tableLines keySuffix o))
      ((s'.tables.filter fun t => o.keeps t.name).flatMap (tableLines keySuffix o)) := by
    refine List.rel_flatMap (forall₂_of_map_eq hkept fun t ht t' ht' hsame => ?_) fun _ _ => id
    exact tableLines_sameBesideQuote keySuffix o (List.mem_filter.1 ht).1 (List.mem_filter.1 ht').1
      hsame
  -- Lines of keys show no comment, so they are the same.
  have hkeys : List.Forall₂ (SameBesideQuote s s')
      ((s.tables.filter fun t => o.keeps t.name).flatMap fun t => t.foreignKeys.map keyLine)
      ((s'.tables.filter fun t => o.keeps t.name).flatMap fun t => t.foreignKeys.map keyLine) := by
    rw [← flatMap_keyLine_uncommented, hkept, flatMap_keyLine_uncommented, List.forall₂_same]
    intro l hl
    obtain ⟨t, -, hl⟩ := List.mem_flatMap.1 hl
    obtain ⟨k, -, rfl⟩ := List.mem_map.1 hl
    rw [keyLine_eq]
    exact .other (l := .key (shownKey k)) nofun
  exact List.rel_append (List.rel_append hfront htables) hkeys

/-- What is said about a column does not break its line. -/
theorem IsQuote.newline_notMem {q : String} (h : IsQuote q) : '\n' ∉ q.toList := by
  rcases h with rfl | ⟨said, rfl, hsaid⟩
  · decide
  · have hsaid : '\n' ∉ said.toList := fun hmem => hsaid _ hmem (by decide)
    simp [hsaid]

/-- Lines that differ in a quoted token at most have the same number of line breaks. -/
theorem SameBesideQuote.count_newline {s s' : Schema} {l l' : String}
    (h : SameBesideQuote s s' l l') : l.toList.count '\n' = l'.toList.count '\n' := by
  cases h with
  | @column t t' c c' q q' _ _ _ _ htype hname hmark hq hq' =>
      have hhead : columnHead t c = columnHead t' c' := by
        rw [columnHead, columnHead, htype, hname, hmark]
      rw [String.toList_append, String.toList_append, List.count_append, List.count_append, hhead,
        List.count_eq_zero.2 hq.newline_notMem, List.count_eq_zero.2 hq'.newline_notMem]
  | other => rfl

/-- Texts of such lines have the same number of lines. A comment cannot add a line, whatever it
holds. -/
theorem count_newline_join {s s' : Schema} {ls ls' : List String}
    (h : List.Forall₂ (SameBesideQuote s s') ls ls') :
    (String.join (ls.map (· ++ "\n"))).toList.count '\n' =
      (String.join (ls'.map (· ++ "\n"))).toList.count '\n' := by
  induction h with
  | nil => rfl
  | cons hline _ ih => simpa [List.count_append, hline.count_newline] using ih

/-- **Comments change a diagram only inside quoted tokens.** Two schemas that differ in comments
alone have the same diagram where comments are not shown. Otherwise the two have the same number
of lines, and each line is the same beside the one quoted token with all that is said about a
column. -/
theorem render_of_uncommented_eq {s s' : Schema} (h : s.uncommented = s'.uncommented)
    (keySuffix : String) (o : Options) :
    (o.showComments = false → render keySuffix o s = render keySuffix o s') ∧
      (render keySuffix o s).toList.count '\n' = (render keySuffix o s').toList.count '\n' ∧
      List.Forall₂ (SameBesideQuote s s') (lines keySuffix o s) (lines keySuffix o s') := by
  have hlines := lines_sameBesideQuote h keySuffix o
  refine ⟨fun ho => ?_, count_newline_join hlines, hlines⟩
  rw [render, render, ← lines_uncommented keySuffix ho s, h, lines_uncommented keySuffix ho s']

/-- A table with one column of this comment. -/
def commentedSchema (comment : String) : Schema where
  dbType := "mysql"
  tables :=
    [{ name := "users"
       columns :=
         [{ name := "name", dataType := "TEXT", baseType := "TEXT", nullable := false
            comment := some comment }] }]

/-- Two comments, one that holds quotation marks and a line that looks like that of a column. -/
theorem render_of_uncommented_eq_commentedSchema :
    let s := commentedSchema "a \"b\"\r\n        int id PK \"key\""
    let s' := commentedSchema " "
    s.uncommented = s'.uncommented ∧
      render "_id" { showComments := false } s = render "_id" { showComments := false } s' ∧
      render "_id" {} s ≠ render "_id" {} s' ∧
      (render "_id" {} s).toList.count '\n' = (render "_id" {} s').toList.count '\n' ∧
      List.Forall₂ (SameBesideQuote s s') (lines "_id" {} s) (lines "_id" {} s') := by
  intro s s'
  have h : s.uncommented = s'.uncommented := by decide
  obtain ⟨-, hcount, hlines⟩ := render_of_uncommented_eq h "_id" {}
  exact ⟨h, (render_of_uncommented_eq h "_id" { showComments := false }).1 rfl,
    by decide +kernel, hcount, hlines⟩

end Diagram

end EntityDiagram
