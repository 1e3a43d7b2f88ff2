import EntityDiagram.Parsing.Result
import EntityDiagram.Proofs.Json.Variant

/-!
# `EntityDiagram.Proofs.Schema.Json`: schemas are read as they were written

Reading a record takes back what was written, in every variant of it: what is unset may be left
out, and members that no reader knows may be added, at every depth. Each record has its own lemma,
which takes the members one by one; a record within another is one of its members.

The principal result is `readBack_schema_and_result`, for schemas and for the results of reading a
script. Lists of views, of warnings and of errors and the table of notes may be left out as well
where they are empty.
-/

set_option autoImplicit false

namespace EntityDiagram

open Json

/-! ### Choices -/

/-- Each cardinality is found by its label. No two of them have the same label. -/
theorem Cardinality.ofLabel?_label (c : Cardinality) : ofLabel? c.label = some c := by
  cases c <;> rfl

/-- Each kind of table is found by its label. -/
theorem TableKind.ofLabel?_label (k : TableKind) : ofLabel? k.label = some k := by
  cases k <;> rfl

/-- Cardinalities are taken back. -/
theorem Cardinality.takesBack : TakesBack Cardinality.ofJson? (.str ·.label) :=
  takesBack_label Cardinality.ofLabel?_label

/-- Kinds of tables are taken back. -/
theorem TableKind.takesBack : TakesBack TableKind.ofJson? (.str ·.label) :=
  takesBack_label TableKind.ofLabel?_label

/-! ### Records -/

/-- Columns are taken back. Each member is read by a lemma for its kind of value, in the order of
the members. -/
theorem Column.takesBack : TakesBack Column.ofJson? Column.toJson := by
  intro c j h
  obtain ⟨members, rfl, hkept⟩ := h.exists_members (by simp)
  simp only [List.forall_mem_cons] at hkept
  obtain ⟨hname, htype, hbase, hlength, hprecision, hscale, hnullable, hdefault, hcomment, hkey,
    hauto, -⟩ := hkept
  simp only [Column.ofJson?, hname.member takesBack_str rfl, htype.member takesBack_str rfl,
    hbase.member takesBack_str rfl, hlength.memberOpt takesBack_uint32 fun _ => rfl,
    hprecision.memberOpt takesBack_uint32 fun _ => rfl,
    hscale.memberOpt takesBack_uint32 fun _ => rfl, hnullable.member takesBack_bool rfl,
    hdefault.memberOpt takesBack_str fun _ => rfl, hcomment.memberOpt takesBack_str fun _ => rfl,
    hkey.member takesBack_bool rfl, hauto.member takesBack_bool rfl]
  rfl

/-- Primary keys are taken back. -/
theorem PrimaryKey.takesBack : TakesBack PrimaryKey.ofJson? PrimaryKey.toJson := by
  intro k j h
  obtain ⟨members, rfl, hkept⟩ := h.exists_members (by simp)
  simp only [List.forall_mem_cons] at hkept
  obtain ⟨hname, hcolumns, -⟩ := hkept
  simp only [PrimaryKey.ofJson?, hname.memberOpt takesBack_str fun _ => rfl,
    hcolumns.member (takesBack_list takesBack_str) rfl]
  rfl

/-- Foreign keys are taken back. -/
theorem ForeignKey.takesBack : TakesBack ForeignKey.ofJson? ForeignKey.toJson := by
  intro k j h
  obtain ⟨members, rfl, hkept⟩ := h.exists_members (by simp)
  simp only [List.forall_mem_cons] at hkept
  obtain ⟨hname, hfrom, hfromColumns, hto, htoColumns, hdelete, hupdate, hcardinality, -⟩ := hkept
  simp only [ForeignKey.ofJson?, hname.memberOpt takesBack_str fun _ => rfl,
    hfrom.member takesBack_str rfl, hfromColumns.member (takesBack_list takesBack_str) rfl,
    hto.member takesBack_str rfl, htoColumns.member (takesBack_list takesBack_str) rfl,
    hdelete.memberOpt takesBack_str fun _ => rfl, hupdate.memberOpt takesBack_str fun _ => rfl,
    hcardinality.memberOpt Cardinality.takesBack fun _ => rfl]
  rfl

/-- Indexes are taken back. -/
theorem Index.takesBack : TakesBack Index.ofJson? Index.toJson := by
  intro i j h
  obtain ⟨members, rfl, hkept⟩ := h.exists_members (by simp)
  simp only [List.forall_mem_cons] at hkept
  obtain ⟨hname, hcolumns, hunique, hkind, -⟩ := hkept
  simp only [Index.ofJson?, hname.memberOpt takesBack_str fun _ => rfl,
    hcolumns.member (takesBack_list takesBack_str) rfl, hunique.member takesBack_bool rfl,
    hkind.memberOpt takesBack_str fun _ => rfl]
  rfl

/-- Tables are taken back. Its lists are taken back since their items are. -/
theorem Table.takesBack : TakesBack Table.ofJson? Table.toJson := by
  intro t j h
  obtain ⟨members, rfl, hkept⟩ := h.exists_members (by simp)
  simp only [List.forall_mem_cons] at hkept
  obtain ⟨hname, hcomment, hcolumns, hprimary, hforeign, hindexes, hkind, -⟩ := hkept
  simp only [Table.ofJson?, hname.member takesBack_str rfl,
    hcomment.memberOpt takesBack_str fun _ => rfl,
    hcolumns.member (takesBack_list Column.takesBack) rfl,
    hprimary.memberOpt PrimaryKey.takesBack fun _ => rfl,
    hforeign.member (takesBack_list ForeignKey.takesBack) rfl,
    hindexes.member (takesBack_list Index.takesBack) rfl,
    hkind.memberOpt TableKind.takesBack fun _ => rfl]
  rfl

/-- Views are taken back. -/
theorem View.takesBack : TakesBack View.ofJson? View.toJson := by
  intro v j h
  obtain ⟨members, rfl, hkept⟩ := h.exists_members (by simp)
  simp only [List.forall_mem_cons] at hkept
  obtain ⟨hname, hcomment, hcolumns, hdefinition, -⟩ := hkept
  simp only [View.ofJson?, hname.member takesBack_str rfl,
    hcomment.memberOpt takesBack_str fun _ => rfl,
    hcolumns.member (takesBack_list Column.takesBack) rfl,
    hdefinition.memberOpt takesBack_str fun _ => rfl]
  rfl

/-- Schemas are taken back. Views and notes may be left out if there are none. -/
theorem Schema.takesBack : TakesBack Schema.ofJson? Schema.toJson := by
  intro s j h
  obtain ⟨members, rfl, hkept⟩ := h.exists_members (by simp)
  simp only [List.forall_mem_cons] at hkept
  obtain ⟨htype, hname, htables, hviews, hnotes, -⟩ := hkept
  simp only [Schema.ofJson?, htype.member takesBack_str rfl,
    hname.memberOpt takesBack_str fun _ => rfl,
    htables.member (takesBack_list Table.takesBack) rfl,
    hviews.memberOr (takesBack_list View.takesBack) eq_nil_of_isOmissible,
    hnotes.tableOr (by simp [textTables])]
  rfl

/-- Results are taken back. A schema that is missing is `null`, or absent. -/
theorem ParseResult.takesBack : TakesBack ParseResult.ofJson? ParseResult.toJson := by
  intro r j h
  obtain ⟨members, rfl, hkept⟩ := h.exists_members (by simp)
  simp only [List.forall_mem_cons] at hkept
  obtain ⟨hsuccess, hschema, hwarnings, herrors, hmessage, -⟩ := hkept
  simp only [ParseResult.ofJson?, hsuccess.member takesBack_bool rfl,
    hschema.memberOpt Schema.takesBack fun _ => rfl,
    hwarnings.memberOr (takesBack_list takesBack_str) eq_nil_of_isOmissible,
    herrors.memberOr (takesBack_list takesBack_str) eq_nil_of_isOmissible,
    hmessage.member takesBack_str rfl]
  rfl

/-- A schema or a result is read from what is written for it, and from every variant of that. A
variant may leave out what is unset, may hold members that nobody asks for, and may have its members
in another order. -/
theorem readBack_schema_and_result :
    (∀ s : Schema, Schema.ofJson? s.toJson = some s ∧
      ∀ j, Variant s.toJson j → Schema.ofJson? j = some s) ∧
    ∀ r : ParseResult, ParseResult.ofJson? r.toJson = some r ∧
      ∀ j, Variant r.toJson j → ParseResult.ofJson? j = some r :=
  ⟨fun s => ⟨Schema.takesBack s _ (.same _), Schema.takesBack s⟩,
    fun r => ⟨ParseResult.takesBack r _ (.same _), ParseResult.takesBack r⟩⟩

section Sample

/-- A schema with one table of one column. -/
def sampleSchema : Schema where
  dbType := "mysql"
  tables := [{ name := "orders", columns := [.ofType "id" "BIGINT"] }]

/-- The column of the sample without what is unset, and with a position. No reader asks for the
position. -/
def sampleColumnJson : Json :=
  .obj [
    ("position", .int 1),
    ("name", .str "id"),
    ("type", .str "BIGINT"),
    ("raw_type", .str "BIGINT"),
    ("nullable", .bool true),
    ("primary_key_part", .bool false),
    ("auto_increment", .bool false)]

/-- The sample without most of what is unset, and without its views and notes. -/
def sampleJson : Json :=
  .obj [
    ("tables", .arr [.obj [
      ("name", .str "orders"),
      ("columns", .arr [sampleColumnJson]),
      ("foreign_keys", .arr []),
      ("indexes", .arr []),
      ("comment", .null)]]),
    ("db_type", .str "mysql")]

/-- The sample differs from what is written in the ways of a variant. -/
theorem variant_sampleJson : Variant sampleSchema.toJson sampleJson := by
  -- Member by member, each one is kept or left out. Only a default may be left out.
  have hcolumn : Variant (Column.ofType "id" "BIGINT").toJson sampleColumnJson := by
    refine .obj ?_
    simp only [List.forall_mem_cons]
    exact ⟨.kept (by decide) rfl (.same _), .kept (by decide) rfl (.same _),
      .kept (by decide) rfl (.same _), .omitted rfl rfl, .omitted rfl rfl, .omitted rfl rfl,
      .kept (by decide) rfl (.same _), .omitted rfl rfl, .omitted rfl rfl,
      .kept (by decide) rfl (.same _), .kept (by decide) rfl (.same _), by simp⟩
  have htables : Variant (ofList Table.toJson sampleSchema.tables)
      (.arr [.obj [
        ("name", .str "orders"),
        ("columns", .arr [sampleColumnJson]),
        ("foreign_keys", .arr []),
        ("indexes", .arr []),
        ("comment", .null)]]) := by
    refine .arr (.cons (.obj ?_) .nil)
    simp only [List.forall_mem_cons]
    exact ⟨.kept (by decide) rfl (.same _), .kept (by decide) rfl (.same _),
      .kept (by decide) rfl (.arr (.cons hcolumn .nil)), .omitted rfl rfl,
      .kept (by decide) rfl (.same _), .kept (by decide) rfl (.same _), .omitted rfl rfl,
      by simp⟩
  refine .obj ?_
  simp only [List.forall_mem_cons]
  exact ⟨.kept (by decide) rfl (.same _), .omitted rfl rfl, .kept (by decide) rfl htables,
    .omitted rfl rfl, .omitted rfl rfl, by simp⟩

/-- The sample is read from its variant, and so is the result that holds it. In the variant, members
that are unset or empty are left out, and there are some that no reader knows. -/
theorem readBack_sample :
    Schema.ofJson? sampleJson = some sampleSchema ∧
      ParseResult.ofJson? (.obj [
          ("database_model", sampleJson),
          ("message", .str "Parse succeeded"),
          ("success", .bool true)]) =
        some (.succeeded sampleSchema []) := by
  refine ⟨(readBack_schema_and_result.1 sampleSchema).2 _ variant_sampleJson,
    (readBack_schema_and_result.2 (.succeeded sampleSchema [])).2 _ (.obj ?_)⟩
  simp only [List.forall_mem_cons]
  exact ⟨.kept (by decide) rfl (.same _), .kept (by decide) rfl variant_sampleJson,
    .omitted rfl rfl, .omitted rfl rfl, .kept (by decide) rfl (.same _), by simp⟩

end Sample

end EntityDiagram
