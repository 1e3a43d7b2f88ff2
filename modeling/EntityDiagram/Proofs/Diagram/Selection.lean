import EntityDiagram.Proofs.Diagram.Outline

/-!
# `EntityDiagram.Proofs.Diagram.Selection`: what options change in a diagram

Some options say which tables a diagram shows and some say how they are shown. The first do the same
as taking the other tables out of the schema (`render_eq_render_selected`). Of the second, the view
mode and whether comments are shown decide about the lines of columns only, and the direction about
one line of its own. The reserved options and the dialect decide about nothing.

The lines of a diagram are told apart by their kind here and not by their text, which the name of a
table could imitate.

* `filter_isHeader_lines`, `filter_isRelationship_lines`, `columnsByTable_lines`: what an outline
  shows, found in its lines again.
* `headers_eq`, `relationships_eq`, `columnLines_eq`: the lines of each kind in a diagram.
* `render_direction`: the line of the direction.
* `render_changes`: what each of the options changes.
-/

set_option autoImplicit false

namespace EntityDiagram.Diagram

/-! ### Kinds of lines -/

/-- Whether the line is the first one of a table. -/
def Line.isHeader : Line → Bool
  | .table _ => true
  | _ => false

/-- Whether the line is that of a column. -/
def Line.isColumn : Line → Bool
  | .column _ => true
  | _ => false

/-- Whether the line is that of a foreign key. -/
def Line.isRelationship : Line → Bool
  | .key _ => true
  | _ => false

/-- The lines of columns, table by table: those right below each header. Lines that belong to no
table are stepped over. -/
def columnsByTable : List Line → List (List Line)
  | [] => []
  | .table _ :: rest => rest.takeWhile Line.isColumn :: columnsByTable rest
  | _ :: rest => columnsByTable rest

/-- Lines that are neither the title nor that of the direction stand in the blocks of tables and
behind them. -/
theorem filter_lines {p : Line → Bool} (htitle : p .title = false) (hleft : p .leftToRight = false)
    (d : Outline) :
    d.lines.filter p =
      d.tables.flatMap (fun t => t.lines.filter p) ++ (d.keys.map .key).filter p := by
  have hfront : (Line.title :: if d.direction = .leftToRight then [Line.leftToRight] else []).filter
      p = [] := by
    split <;> simp [htitle, hleft]
  rw [Outline.lines, List.filter_append, List.filter_append, hfront, List.nil_append,
    List.filter_flatMap]

/-- The headers in the lines of an outline are those of its tables. -/
theorem filter_isHeader_lines (d : Outline) :
    d.lines.filter Line.isHeader = d.tables.map fun t => .table t.name := by
  have htable (t : ShownTable) : t.lines.filter Line.isHeader = [.table t.name] := by
    rw [ShownTable.lines, List.cons_append, List.filter_cons_of_pos rfl]
    simp [Line.isHeader]
  have hkeys : (d.keys.map Line.key).filter Line.isHeader = [] := by simp [Line.isHeader]
  rw [filter_lines rfl rfl, hkeys, List.append_nil, List.map_eq_flatMap]
  simp only [htable]

/-- The lines of foreign keys in the lines of an outline are those of its keys. -/
theorem filter_isRelationship_lines (d : Outline) :
    d.lines.filter Line.isRelationship = d.keys.map .key := by
  have htable : ∀ t ∈ d.tables, t.lines.filter Line.isRelationship = [] := by
    intro t _
    simp [ShownTable.lines, Line.isRelationship]
  have hkeys : (d.keys.map Line.key).filter Line.isRelationship = d.keys.map .key :=
    List.filter_eq_self.2 (List.forall_mem_map.2 fun _ _ => rfl)
  rw [filter_lines rfl rfl, List.flatMap_eq_nil_iff.2 htable, hkeys, List.nil_append]

/-- The columns in the block of a table end where the block is closed. -/
theorem columnsByTable_block (t : ShownTable) (rest : List Line) :
    columnsByTable (t.lines ++ rest) = t.columns.map .column :: columnsByTable rest := by
  have hrun (columns : List ShownColumn) :
      (columns.map Line.column ++ .close :: rest).takeWhile Line.isColumn =
        columns.map Line.column := by
    induction columns with
    | nil => rfl
    | cons c columns ih => exact congrArg (Line.column c :: ·) ih
  -- The lines of the columns have been counted for this table, and the search for the next one goes
  -- over them.
  have hskip (columns : List ShownColumn) :
      columnsByTable (columns.map Line.column ++ .close :: rest) = columnsByTable rest := by
    induction columns with
    | nil => rfl
    | cons c columns ih => exact ih
  show columnsByTable (.table t.name :: (t.columns.map Line.column ++ [.close] ++ rest)) = _
  rw [List.append_assoc, columnsByTable]
  exact congrArg₂ List.cons (hrun t.columns) (hskip t.columns)

/-- The lines of columns, table by table, are those of the tables of the outline. -/
theorem columnsByTable_lines (d : Outline) :
    columnsByTable d.lines = d.tables.map fun t => t.columns.map .column := by
  have hkeys (keys : List ShownKey) : columnsByTable (keys.map .key) = [] := by
    induction keys with
    | nil => rfl
    | cons k keys ih => exact ih
  have htables (tables : List ShownTable) :
      columnsByTable (tables.flatMap ShownTable.lines ++ d.keys.map .key) =
        tables.map fun t => t.columns.map .column := by
    induction tables with
    | nil => exact hkeys d.keys
    | cons t tables ih =>
        rw [List.flatMap_cons, List.append_assoc, columnsByTable_block, ih]
        rfl
  -- Neither the title nor the line of the direction is a header.
  rw [Outline.lines]
  split <;> exact htables d.tables

/-! ### Options without a selection -/

/-- The options that say how tables are shown: no table is to be included or excluded, and neither
a reserved option nor the dialect is set. -/
def Options.manner (o : Options) : Options where
  viewMode := o.viewMode
  direction := o.direction
  showComments := o.showComments

/-- Every table is shown if none is to be included or excluded. -/
theorem filter_keeps_manner (o : Options) (tables : List Table) :
    tables.filter (fun t => o.manner.keeps t.name) = tables :=
  List.filter_eq_self.2 fun _ _ => rfl

/-! ### The lines of each kind -/

section Kinds
variable (keySuffix : String) (o : Options) (s : Schema)

/-- The headers of a diagram in their order. -/
def headers : List Line := (outline keySuffix o s).lines.filter Line.isHeader

/-- The lines of foreign keys of a diagram in their order. -/
def relationships : List Line := (outline keySuffix o s).lines.filter Line.isRelationship

/-- The lines of columns of a diagram in their order, table by table. -/
def columnLines : List (List Line) := columnsByTable (outline keySuffix o s).lines

/-- The tables of an outline are the selected ones as they are shown. -/
theorem tables_outline :
    (outline keySuffix o s).tables = (o.selected s).map (shownTable keySuffix o) :=
  rfl

/-- Each selected table has a header. -/
theorem headers_eq : headers keySuffix o s = (o.selected s).map fun t => .table t.name := by
  rw [headers, filter_isHeader_lines, tables_outline, List.map_map]
  rfl

/-- Each foreign key of a selected table has a line. -/
theorem relationships_eq :
    relationships keySuffix o s =
      (o.selected s).flatMap fun t => t.foreignKeys.map fun k => .key (shownKey k) := by
  rw [relationships, filter_isRelationship_lines, outline, List.map_flatMap]
  simp only [List.map_map]
  rfl

/-- The line of a column of `t`. -/
def lineOf (t : Table) (c : Column) : Line := .column (shownColumn t o.showComments c)

/-- Each column that the view mode shows has a line in its table. They stand in the order of the
columns. -/
theorem columnLines_eq :
    columnLines keySuffix o s =
      (o.selected s).map fun t =>
        (t.columns.filter (Shows keySuffix o.viewMode)).map (lineOf o t) := by
  rw [columnLines, columnsByTable_lines, tables_outline, List.map_map]
  refine List.map_congr_left fun t _ => ?_
  exact List.map_map

end Kinds

/-! ### Diagrams -/

/-- **Selecting tables is taking the others out of the schema**, and what is neither about tables
nor about how they are shown changes nothing. -/
theorem render_eq_render_selected (keySuffix : String) (o : Options) (s : Schema) :
    render keySuffix o s = render keySuffix o.manner { s with tables := o.selected s } := by
  have htables : tableLines keySuffix o = tableLines keySuffix o.manner := rfl
  simp only [render, lines, filter_keeps_eq, filter_keeps_manner, htables]
  rfl

/-- The direction is a line of its own behind the first one. -/
theorem render_direction (keySuffix : String) (o : Options) (s : Schema) :
    ∃ rest,
      render keySuffix { o with direction := .topToBottom } s = "erDiagram\n" ++ rest ∧
      render keySuffix { o with direction := .leftToRight } s =
        "erDiagram\n" ++ ("    direction LR\n" ++ rest) := by
  let tables := s.tables.filter fun t => o.keeps t.name
  let below := tables.flatMap (tableLines keySuffix o) ++
    tables.flatMap fun t => t.foreignKeys.map keyLine
  refine ⟨String.join (below.map (· ++ "\n")), ?_, ?_⟩
  · show String.join (("erDiagram" :: below).map (· ++ "\n")) = _
    rw [List.map_cons, String.join_cons]
    rfl
  · show String.join (("erDiagram" :: "    direction LR" :: below).map (· ++ "\n")) = _
    rw [List.map_cons, List.map_cons, String.join_cons, String.join_cons]
    rfl

/-- **What each of the options changes.** A diagram is the text of its lines, and it is that of the
schema with the selected tables alone. Its headers and the lines of its foreign keys depend neither
on the view mode nor on the direction nor on whether comments are shown. The columns of a table are
all shown in the physical view, those like keys in the logical one, with the same lines, and none in
the conceptual one. The direction from left to right puts one line behind the first one. -/
theorem render_changes (keySuffix : String) (o : Options) (s : Schema) :
    render keySuffix o s = String.join ((outline keySuffix o s).lines.map (·.text ++ "\n")) ∧
      render keySuffix o s = render keySuffix o.manner { s with tables := o.selected s } ∧
      (∀ viewMode direction showComments,
        headers keySuffix { o with viewMode, direction, showComments } s = headers keySuffix o s ∧
          relationships keySuffix { o with viewMode, direction, showComments } s =
            relationships keySuffix o s) ∧
      (columnLines keySuffix { o with viewMode := .physical } s =
          (o.selected s).map (fun t => t.columns.map (lineOf o t)) ∧
        columnLines keySuffix { o with viewMode := .logical } s =
          (o.selected s).map (fun t => (t.columns.filter (IsKeyLike keySuffix)).map (lineOf o t)) ∧
        columnLines keySuffix { o with viewMode := .conceptual } s =
          (o.selected s).map fun _ => []) ∧
      ∃ rest,
        render keySuffix { o with direction := .topToBottom } s = "erDiagram\n" ++ rest ∧
        render keySuffix { o with direction := .leftToRight } s =
          "erDiagram\n" ++ ("    direction LR\n" ++ rest) := by
  have htext : render keySuffix o s =
      String.join ((outline keySuffix o s).lines.map (·.text ++ "\n")) := by
    rw [render, lines_eq, List.map_map]
    rfl
  refine ⟨htext, render_eq_render_selected keySuffix o s, ?_, ⟨?_, ?_, ?_⟩,
    render_direction keySuffix o s⟩
  · intro viewMode direction showComments
    -- The options select the same tables, and the lines depend on nothing else.
    constructor
    · rw [headers_eq, headers_eq]
      rfl
    · rw [relationships_eq, relationships_eq]
      rfl
  · rw [columnLines_eq]
    simp [Shows, lineOf, Options.selected]
  · rw [columnLines_eq]
    simp [Shows, lineOf, Options.selected]
  · rw [columnLines_eq]
    simp [Shows, Options.selected]

end EntityDiagram.Diagram
