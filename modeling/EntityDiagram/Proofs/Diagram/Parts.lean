import EntityDiagram.Diagram.Render
import EntityDiagram.Proofs.Text.Affix
import EntityDiagram.Proofs.Text.Casing

/-!
# `EntityDiagram.Proofs.Diagram.Parts`: the parts of a diagram, apart from how they are computed

A diagram shows some of the tables of a schema, some of their columns and all of their foreign keys.
This module says which ones, and what is shown of each, without a word about how a line is put
together. These are the definitions to read in order to know what a diagram means:

* `Options.selected`: the tables, and `Shows`: their columns.
* `typeOf`, `markOf` and `detailsOf`: what is shown of a column besides its name.
* `symbolOf`: how a foreign key relates its two tables.

Beside each of them stands the theorem that the renderer writes just that: `filter_keeps_eq`,
`visibleColumns_eq`, `typeToken_eq`, `joinTexts_details_eq` and `symbol_eq`. The renderer computes
most of these in another way. It edits the text of a type character by character, escapes all of a
comment before it looks whether anything is left of it, and has one symbol for each cardinality.
-/

set_option autoImplicit false

namespace EntityDiagram.Diagram

open Text (isSpace joinTexts)

/-! ### Selected tables -/

/-- The tables that the options select, in order: those to include if there are any, and all but
those to exclude otherwise. -/
def Options.selected (o : Options) (s : Schema) : List Table :=
  s.tables.filter fun t =>
    if o.includeTables = [] then t.name ∉ o.excludeTables else t.name ∈ o.includeTables

/-- The tables that are kept are the selected ones. -/
theorem filter_keeps_eq (o : Options) (s : Schema) :
    (s.tables.filter fun t => o.keeps t.name) = o.selected s := by
  refine List.filter_congr fun t _ => ?_
  by_cases hinclude : o.includeTables = [] <;> simp [Options.keeps, hinclude]

/-! ### Shown columns -/

/-- Whether the column is shown wherever columns are shown at all: it is in the primary key, or its
name is a stem with the suffix behind it. -/
def IsKeyLike (keySuffix : String) (c : Column) : Prop :=
  c.inPrimaryKey = true ∨ ∃ stem, c.name = stem ++ keySuffix

/-- The suffix is found at the end of a name exactly if the name is a stem with the suffix behind
it. The stem may be empty. -/
theorem endsIn_iff {suffix name : String} :
    endsIn suffix name = true ↔ ∃ stem, name = stem ++ suffix := by
  rw [endsIn, Option.isSome_iff_exists]
  constructor
  · rintro ⟨front, hfront⟩
    exact ⟨String.ofList front, Text.dropTail?_toList_eq_some_iff.1 hfront⟩
  · rintro ⟨stem, hname⟩
    refine ⟨stem.toList, Text.dropTail?_toList_eq_some_iff.2 ?_⟩
    rw [hname, String.ofList_toList]

/-- The suffix of a column name can be compared. -/
instance (keySuffix : String) (c : Column) : Decidable (IsKeyLike keySuffix c) :=
  decidable_of_iff (c.inPrimaryKey = true ∨ endsIn keySuffix c.name = true)
    (or_congr_right endsIn_iff)

/-- Whether a view mode shows the column: the physical view shows all columns, the logical one those
like keys, and the conceptual one none. -/
def Shows (keySuffix : String) (mode : ViewMode) (c : Column) : Prop :=
  mode = .physical ∨ mode = .logical ∧ IsKeyLike keySuffix c

/-- In each mode there are only flags of the column and its name to look at. -/
instance (keySuffix : String) (mode : ViewMode) (c : Column) :
    Decidable (Shows keySuffix mode c) :=
  inferInstanceAs (Decidable (mode = .physical ∨ mode = .logical ∧ IsKeyLike keySuffix c))

/-- The columns that are visible are those that the view mode shows, in their order. -/
theorem visibleColumns_eq (keySuffix : String) (mode : ViewMode) (t : Table) :
    visibleColumns keySuffix mode t = t.columns.filter (Shows keySuffix mode) := by
  cases mode with
  | physical => exact (List.filter_eq_self.2 fun _ _ => by simp [Shows]).symm
  | logical => exact List.filter_congr fun c _ => by simp [Shows, IsKeyLike, ← endsIn_iff]
  | conceptual => exact (List.filter_eq_nil_iff.2 fun _ _ => by simp [Shows]).symm

/-! ### The type of a column -/

/-- The type of a column as it is shown, as one word: the words of the full type are run together,
with an underscore for each comma and in lower case. A type without any words is unknown. -/
def typeOf (c : Column) : String :=
  match Text.words c.fullType.toList with
  | [] => "unknown"
  | w :: ws =>
    String.ofList (Text.lower ((w :: ws).flatten.map fun c => if c = ',' then '_' else c))

/-- The token that is written for a type is the type as it is shown. The renderer drops the white
space from the whole text, and only looks at the end whether anything is left. -/
theorem typeToken_eq (c : Column) : typeToken c = typeOf c := by
  have hshown : (c.fullType.toList.filter fun d => !isSpace d).map
      (fun d => if (d == ',') = true then '_' else d) =
      (Text.words c.fullType.toList).flatten.map fun d => if d = ',' then '_' else d := by
    simp only [Text.flatten_words, beq_iff_eq]
  rw [typeToken, typeOf, hshown]
  cases hwords : Text.words c.fullType.toList with
  | nil => rfl
  | cons w ws =>
      -- A word is not empty, so the fallback for a type without any is not taken.
      have hne : (w :: ws).flatten ≠ [] := by
        have hw := (Text.mem_words (s := c.fullType.toList) (w := w) (by simp [hwords])).1
        simp [hw]
      have hlower :
          (Text.lower ((w :: ws).flatten.map fun d => if d = ',' then '_' else d)).isEmpty =
            false := by
        rw [List.isEmpty_eq_false_iff, Ne, Text.lower_eq_nil_iff, List.map_eq_nil_iff]
        exact hne
      simp only [hlower]
      rfl

/-- The type of a column is shown as one word, whatever it is: it holds a character at least and no
white space. -/
theorem typeOf_ne_empty (c : Column) :
    typeOf c ≠ "" ∧ ∀ d ∈ (typeOf c).toList, isSpace d = false := by
  rw [typeOf]
  split
  · exact ⟨by decide, Text.forall_mem_of_all (by decide)⟩
  · rename_i w ws hwords
    -- No word is empty, and none has a space in it.
    have hmem : ∀ v ∈ w :: ws, v ≠ [] ∧ ∀ d ∈ v, d ∈ c.fullType.toList ∧ isSpace d = false := by
      intro v hv
      exact Text.mem_words (hwords ▸ hv)
    constructor
    · rw [Ne, String.ofList_eq_empty_iff, Text.lower_eq_nil_iff, List.map_eq_nil_iff]
      simp [(hmem w List.mem_cons_self).1]
    · rw [String.toList_ofList]
      refine Text.isSpace_lower fun d hd => ?_
      obtain ⟨e, he, rfl⟩ := List.mem_map.1 hd
      split
      · decide
      · obtain ⟨v, hv, hev⟩ := List.mem_flatten.1 he
        exact ((hmem v hv).2 e hev).2

/-! ### The part of a column in keys -/

/-- The part that a column plays in keys, as it is shown. -/
inductive Mark where
  | primary
  | foreign
  | plain
deriving DecidableEq, Repr, Inhabited

/-- A mark as it is written. -/
def Mark.text : Mark → String
  | .primary => " PK"
  | .foreign => " FK"
  | .plain => ""

/-- The mark of a column: a member of the primary key is nothing else besides, and any other column
is marked if a foreign key of its table starts from it. -/
def markOf (t : Table) (c : Column) : Mark :=
  if c.inPrimaryKey then .primary
  else if ∃ k ∈ t.foreignKeys, c.name ∈ k.fromColumns then .foreign
  else .plain

/-- The mark that is written is the mark of the column. -/
theorem keyMark_eq (t : Table) (c : Column) : keyMark t c = (markOf t c).text := by
  have hforeign : t.isForeignKeyColumn c.name = true ↔
      ∃ k ∈ t.foreignKeys, c.name ∈ k.fromColumns := by
    simp [Table.isForeignKeyColumn]
  unfold keyMark markOf
  simp only [hforeign]
  split
  · rfl
  · split <;> rfl

/-! ### What is said about a column -/

/-- A comment as it is shown, on one line and between double quotes: a double quote becomes a single
one, and a line break becomes a space, be it a line feed, a carriage return or both together. -/
def oneLine : List Char → List Char
  | [] => []
  | '\x0d' :: '\n' :: s => ' ' :: oneLine s
  | c :: s =>
    (if c = '"' then '\'' else if c = '\n' ∨ c = '\x0d' then ' ' else c) :: oneLine s

/-- The comment of a column as it is shown, unless there is nothing in it but white space. -/
def commentOf (c : Column) : Option String :=
  match c.comment with
  | none => none
  | some comment =>
    if comment.toList.all isSpace then none
    else some (String.ofList (oneLine comment.toList))

/-- What is said about a column: that it may not be empty, which goes without saying for a member of
the primary key, and then its comment, if comments are shown. -/
def detailsOf (showComments : Bool) (c : Column) : String :=
  let isRequired := c.nullable = false ∧ c.inPrimaryKey = false
  match (if showComments then commentOf c else none) with
  | none => if isRequired then "NOT NULL" else ""
  | some comment => if isRequired then "NOT NULL, " ++ comment else comment

/-- A comment is escaped to what is shown of it. The renderer does this in three passes over the
text, one for each kind of character that may not stand there. -/
theorem escapeComment_eq (s : List Char) : escapeComment s = oneLine s := by
  rw [escapeComment, Text.replace]
  -- The renderer looks for line breaks behind the first pass, which neither makes nor removes any.
  fun_induction oneLine s with
  | case1 => rfl
  | case2 s ih => simpa [Text.replaceFrom] using ih
  | case3 c s hpair ih =>
      have hkept : ¬ ((if (c == '"') = true then '\'' else c) = '\x0d' ∧
          ['\n'] <+: s.map fun c => if (c == '"') = true then '\'' else c) := by
        rintro ⟨hc, hs⟩
        have hc : c = '\x0d' := by
          split at hc
          · cases hc
          · exact hc
        cases s with
        | nil => simp at hs
        | cons d s =>
            have hd : (if (d == '"') = true then '\'' else d) = '\n' :=
              (List.cons_prefix_cons.1 hs).1.symm
            split at hd
            · cases hd
            · exact hpair s hc (by rw [hd])
      rw [List.map_cons, Text.replaceFrom_cons_of_not hkept, List.map_cons, ih]
      congr 1
      by_cases hquote : c = '"' <;> simp [hquote]

/-- A comment that is shown is blank exactly if it was blank before. -/
theorem isBlank_oneLine (s : List Char) :
    Text.isBlank (oneLine s) = true ↔ s.all isSpace = true := by
  rw [Text.isBlank, List.all_eq_true, List.all_eq_true]
  fun_induction oneLine s with
  | case1 => simp
  | case2 s ih =>
      have hbreak : isSpace '\x0d' = true ∧ isSpace '\n' = true ∧ isSpace ' ' = true := by decide
      simpa [hbreak] using ih
  | case3 c s _ ih =>
      -- A quote and a line break are replaced, and each by a character of the same sort.
      have hfirst : isSpace (if c = '"' then '\'' else if c = '\n' ∨ c = '\x0d' then ' ' else c) =
          isSpace c := by
        split
        · rename_i hc
          rw [hc]
          decide
        · split
          · rename_i hc
            rcases hc with rfl | rfl <;> decide
          · rfl
      rw [List.forall_mem_cons, List.forall_mem_cons, hfirst, ih]

/-- The comment that is written is the comment of the column as it is shown. -/
theorem shownComment_eq (c : Column) : shownComment c = commentOf c := by
  rw [shownComment, commentOf]
  cases c.comment with
  | none => rfl
  | some comment =>
      simp only [Option.map_some, Option.bind_some, escapeComment_eq, isBlank_oneLine]

/-- What is written about a column is what is said about it. -/
theorem joinTexts_details_eq (c : Column) (showComments : Bool) :
    joinTexts ", " (details c showComments) = detailsOf showComments c := by
  -- The program tests two flags where the description has two equations.
  have hrequired : (!c.nullable && !c.inPrimaryKey) = true ↔
      c.nullable = false ∧ c.inPrimaryKey = false := by
    simp
  rw [details, detailsOf, shownComment_eq]
  simp only [hrequired]
  cases hcomment : if showComments = true then commentOf c else none with
  | none =>
      split <;> cases showComments <;> simp_all [joinTexts]
  | some comment =>
      cases showComments with
      | false => cases hcomment
      | true =>
          simp only [if_true] at hcomment ⊢
          split <;> simp [hcomment, joinTexts]

/-! ### Foreign keys -/

/-- How a foreign key relates its tables, with the end at the target first. Many rows of the target
belong to a row of the source only if the relation is many to many, and just one row of the source
belongs to a row of the target only if it is one to one. A key that has not been classified counts
as one to many. -/
def symbolOf (cardinality : Option Cardinality) : String :=
  (if cardinality = some .manyToMany then "\x7do" else "||") ++ "--"
    ++ (if cardinality = some .oneToOne then "||" else "o\x7b")

/-- The symbol that is written is made of its two ends. -/
theorem symbol_eq (cardinality : Option Cardinality) :
    symbol cardinality = symbolOf cardinality := by
  rcases cardinality with _ | _ | _ | _ <;> decide

end EntityDiagram.Diagram
