import EntityDiagram.Proofs.Json.Variant
import EntityDiagram.Proofs.Text.Lookup
import EntityDiagram.Proofs.Toml.Document
import EntityDiagram.Settings.Document

/-!
# `EntityDiagram.Proofs.Settings.Partial`: defaults for what is left out

Settings and options may be written in part: a whole section may be missing, or single members of a
section that is there. `readBack_kept` says what is read then. The members that are written have the
values that were written for them, and every other member has the value that it has in settings
which nobody has given at all.

The readers do not take that value from such settings. Each member of a section has a default of its
own (`Diagram.Options.unwritten`, `DiagramSettings.unwritten`, `Relation.Config.unwritten`), a
section that is absent is taken as a whole, and settings without any file are a third thing. So the
result is about the agreement of these defaults as much as about the readers:

* `ofToml?_filter`, `ofJson?_kept`: the reader of one record gives the written members and, for the
  others, what stands in `unwritten`. A lookup finds a member of a part if it is kept and nothing
  otherwise, and the reader of the member makes its value or its default of that.
* `unwritten_eq`: what stands there is what holds where nothing is given. Only with this do a
  section that is empty and one that is absent say the same.
* `Settings.ofText?_kept`: the same for documents, in every format that reads what it writes
  (`Toml.Format.Lawful`). Nothing else is known of the format.
-/

set_option autoImplicit false

namespace EntityDiagram

/-! ### Members that may be left out -/

variable {α : Type} {name : String} {a : α} {isKept : Bool}

/-- A member of a table that may be left out. It is the one place where a default comes in. -/
theorem Toml.memberOr_eq (read : Toml → Option α) {entries : List (String × Toml)} {v : Toml}
    (hlookup : entries.lookup name = if isKept then some v else none) (hread : read v = some a)
    (position : Nat) (default : α) :
    (Toml.table entries).memberOr position name read default =
      some (if isKept then a else default) := by
  rw [memberOr, member?, hlookup]
  cases isKept with
  | false => rfl
  | true => exact hread

/-- A member of an object that may be left out. The readers of options and of the inference settings
use it for every field. -/
theorem Json.memberOr_eq (read : Json → Option α) {members : List (String × Json)} {v : Json}
    (hlookup : members.lookup name = if isKept then some v else none) (hread : read v = some a)
    (default : α) :
    (Json.obj members).memberOr name read default = some (if isKept then a else default) := by
  rw [memberOr, member?, hlookup]
  cases isKept with
  | false => rfl
  | true => exact hread

/-! ### Choices -/

/-- Each view mode is found by its label. -/
theorem Diagram.ViewMode.ofLabel?_label (m : ViewMode) : ofLabel? m.label = some m := by
  cases m <;> rfl

/-- Each direction is found by its label. -/
theorem Diagram.Direction.ofLabel?_label (d : Direction) : ofLabel? d.label = some d := by
  cases d <;> rfl

/-- Each dialect is found by its name. -/
theorem Sql.Dialect.ofLabel?_name (d : Dialect) : ofLabel? d.name = some d := by
  cases d <;> rfl

/-! ### Sections of settings -/

/-- Texts are read from the array of them. -/
theorem Toml.list?_text? (items : List String) :
    list? text? (.array (items.map .text)) = some items := by
  rw [list?, List.mapM_map]
  induction items with
  | nil => rfl
  | cons item items ih =>
      rw [List.mapM_cons, ih]
      rfl

/-- The settings with the members that are kept, and with those of `d` in place of the others. -/
def DiagramSettings.keeping (keep : String → Bool) (s d : DiagramSettings) : DiagramSettings where
  viewMode := if keep "view_mode" then s.viewMode else d.viewMode
  direction := if keep "direction" then s.direction else d.direction
  showComments := if keep "show_comments" then s.showComments else d.showComments
  excludeTables := if keep "exclude_tables" then s.excludeTables else d.excludeTables

/-- The settings with the members that are kept, and with those of `d` in place of the others. -/
def Relation.Config.keeping (keep : String → Bool) (c d : Relation.Config) : Relation.Config where
  junctions := if keep "identify_junction_tables" then c.junctions else d.junctions
  namingConvention :=
    if keep "enable_naming_convention" then c.namingConvention else d.namingConvention
  suffix := if keep "naming_convention_suffix" then c.suffix else d.suffix

/-- A member that is left out of the section for diagrams says what holds without any settings. -/
theorem DiagramSettings.unwritten_eq : unwritten = {} := rfl

/-- A member that is left out of the section for inference says what holds without any settings. -/
theorem Relation.Config.unwritten_eq : unwritten = {} := rfl

/-- The section for diagrams is read from a part of it, with the defaults of its reader. -/
theorem DiagramSettings.ofToml?_filter (s : DiagramSettings) (keep : String → Bool) :
    ofToml? (.table (s.toEntries.filter fun e => keep e.1)) = some (s.keeping keep unwritten) := by
  have hlookup := Text.forall_lookup_filter s.toEntries (by simp [toEntries]) keep
  -- All that is needed of the part is what is found in it.
  generalize s.toEntries.filter (fun e => keep e.1) = entries at hlookup ⊢
  simp only [toEntries, List.forall_mem_cons] at hlookup
  obtain ⟨hmode, hdirection, hcomments, hexclude, -⟩ := hlookup
  rw [ofToml?, if_pos (by rfl)]
  simp only [
    Toml.memberOr_eq (Toml.choice? Diagram.ViewMode.ofLabel?) hmode
      s.viewMode.ofLabel?_label,
    Toml.memberOr_eq (Toml.choice? Diagram.Direction.ofLabel?) hdirection
      s.direction.ofLabel?_label,
    Toml.memberOr_eq Toml.bool? hcomments rfl,
    Toml.memberOr_eq (Toml.list? Toml.text?) hexclude (Toml.list?_text? _)]
  rfl

/-- The section for inference is read from a part of it, with the defaults of its reader. -/
theorem Relation.Config.ofToml?_filter (c : Relation.Config) (keep : String → Bool) :
    ofToml? (.table (c.toEntries.filter fun e => keep e.1)) = some (c.keeping keep unwritten) := by
  have hlookup := Text.forall_lookup_filter c.toEntries (by simp [toEntries]) keep
  generalize c.toEntries.filter (fun e => keep e.1) = entries at hlookup ⊢
  simp only [toEntries, List.forall_mem_cons] at hlookup
  obtain ⟨hjunctions, hnaming, hsuffix, -⟩ := hlookup
  rw [ofToml?, if_pos (by rfl)]
  simp only [Toml.memberOr_eq Toml.bool? hjunctions rfl,
    Toml.memberOr_eq Toml.bool? hnaming rfl,
    Toml.memberOr_eq Toml.text? hsuffix rfl]
  rfl

/-! ### Settings -/

/-- The part of a value at a key of which the entries with kept paths are left, if it is a table. -/
def Toml.keptValue (keep : List String → Bool) (key : String) : Toml → Toml
  | .table inner => .table (inner.filter fun e => keep [key, e.1])
  | v => v

/-- The entries with kept paths, and of each section that is kept the entries with kept paths. -/
def Toml.kept (keep : List String → Bool) (entries : List (String × Toml)) :
    List (String × Toml) :=
  (entries.filter fun e => keep [e.1]).map fun e => (e.1, keptValue keep e.1 e.2)

/-- The settings with the members whose paths are kept, and with those of settings that nobody has
given in place of the others. The path of a member of a section is kept if the section is. -/
def Settings.keeping (keep : List String → Bool) (s : Settings) : Settings :=
  let d : Settings := {}
  { dialect := if keep ["dialect"] then s.dialect else d.dialect
    diagram := s.diagram.keeping (fun key => keep ["render"] && keep ["render", key]) d.diagram
    inference :=
      s.inference.keeping (fun key => keep ["inference"] && keep ["inference", key]) d.inference }

/-- The section that is read has the kept members if the section is kept, and none of them
otherwise. -/
theorem DiagramSettings.keeping_eq_ite (isKept : Bool) (keep : String → Bool)
    (s d : DiagramSettings) : s.keeping (fun key => isKept && keep key) d =
      if isKept then s.keeping keep d else d := by
  cases isKept <;> rfl

/-- The section that is read has the kept members if the section is kept, and none of them
otherwise. -/
theorem Relation.Config.keeping_eq_ite (isKept : Bool) (keep : String → Bool)
    (c d : Relation.Config) : c.keeping (fun key => isKept && keep key) d =
      if isKept then c.keeping keep d else d := by
  cases isKept <;> rfl

/-- Entries whose names differ, of which some are kept in part. A section is kept with the part of
it that is kept. -/
theorem Toml.forall_lookup_kept (entries : List (String × Toml))
    (hnodup : (entries.map Prod.fst).Nodup) (keep : List String → Bool) :
    ∀ e ∈ entries, (kept keep entries).lookup e.1 =
      if keep [e.1] then some (keptValue keep e.1 e.2) else none := by
  intro e he
  rw [kept, Text.lookup_map, Text.forall_lookup_filter entries hnodup (fun key => keep [key]) e he]
  split <;> rfl

/-- Settings are read from a part of them: sections that are absent, sections that are there in part
and sections that are all there. -/
theorem Settings.ofToml?_kept (s : Settings) (keep : List String → Bool) :
    ofToml? (.table (Toml.kept keep s.toEntries)) = some (s.keeping keep) := by
  have hlookup := Toml.forall_lookup_kept s.toEntries (by simp [toEntries]) keep
  generalize Toml.kept keep s.toEntries = entries at hlookup ⊢
  simp only [toEntries, List.forall_mem_cons] at hlookup
  obtain ⟨hdialect, hrender, hinference, -⟩ := hlookup
  rw [ofToml?, if_pos (by rfl)]
  simp only [
    Toml.memberOr_eq (Toml.choice? Sql.Dialect.ofLabel?) hdialect s.dialect.ofLabel?_name,
    Toml.memberOr_eq _ hrender (s.diagram.ofToml?_filter fun key => keep ["render", key]),
    Toml.memberOr_eq _ hinference (s.inference.ofToml?_filter fun key => keep ["inference", key])]
  -- A section that is there and one that is absent have their defaults from different places.
  rw [DiagramSettings.unwritten_eq, Relation.Config.unwritten_eq, keeping,
    DiagramSettings.keeping_eq_ite, Relation.Config.keeping_eq_ite]
  rfl

/-- An empty section says as much as none. A missing section is read by the default of the whole,
and an empty one by the defaults of its fields, which agree. -/
theorem Settings.ofToml?_empty_section (entries : List (String × Toml)) :
    ofToml? (.table (("render", .table []) :: entries.filter (·.1 != "render"))) =
        ofToml? (.table (entries.filter (·.1 != "render"))) ∧
      ofToml? (.table (("inference", .table []) :: entries.filter (·.1 != "inference"))) =
        ofToml? (.table (entries.filter (·.1 != "inference"))) := by
  -- The section was taken out first, so the empty one is all there is under the title.
  have habsent (title : String) : (entries.filter (·.1 != title)).lookup title = none := by
    rw [Text.lookup_filter (· != title), if_neg (by simp)]
  constructor
  · have hrender := habsent "render"
    generalize entries.filter (·.1 != "render") = others at hrender ⊢
    simp only [ofToml?, Toml.memberOr, Toml.member?, hrender]
    rfl
  · have hinference := habsent "inference"
    generalize entries.filter (·.1 != "inference") = others at hinference ⊢
    simp only [ofToml?, Toml.memberOr, Toml.member?, hinference]
    rfl

/-! ### Settings as a document -/

/-- The sections of the settings. -/
def Settings.sections (s : Settings) : List (String × List (String × Toml)) :=
  [("render", s.diagram.toEntries), ("inference", s.inference.toEntries)]

/-- The entries of the section for diagrams are simple. -/
theorem DiagramSettings.isSimpleTable (s : DiagramSettings) : Toml.IsSimpleTable s.toEntries where
  bare := by simp [toEntries]; decide
  simple := by
    simp only [toEntries, List.forall_mem_cons]
    exact ⟨.text _, .text _, .bool _, .texts _, by simp⟩
  nodup := by simp [toEntries]

/-- The entries of the section for inference are simple. -/
theorem Relation.Config.isSimpleTable (c : Relation.Config) : Toml.IsSimpleTable c.toEntries where
  bare := by simp [toEntries]; decide
  simple := by
    simp only [toEntries, List.forall_mem_cons]
    exact ⟨.bool _, .bool _, .text _, by simp⟩
  nodup := by simp [toEntries]

/-- Settings are written with a line for each entry. -/
theorem Settings.isSimpleDocument (s : Settings) :
    Toml.IsSimpleDocument [("dialect", .text s.dialect.name)] s.sections where
  table := ⟨by simp; decide, by simpa using .text _, by simp⟩
  bare := by simp [sections]; decide
  inner := by
    simp only [sections, List.forall_mem_cons]
    exact ⟨s.diagram.isSimpleTable, s.inference.isSimpleTable, by simp⟩
  nodup := by simp [sections]

namespace Toml

variable {entries : List (String × Toml)} {sections : List (String × List (String × Toml))}

/-- The sections with kept names, each with the entries of kept paths. -/
def keptSections (keep : List String → Bool) (sections : List (String × List (String × Toml))) :
    List (String × List (String × Toml)) :=
  (sections.filter fun s => keep [s.1]).map fun s => (s.1, s.2.filter fun e => keep [s.1, e.1])

/-- A part of a simple table is simple. -/
theorem IsSimpleTable.filter (h : IsSimpleTable entries) (p : String × Toml → Bool) :
    IsSimpleTable (entries.filter p) where
  bare e he := h.bare e (List.mem_of_mem_filter he)
  simple e he := h.simple e (List.mem_of_mem_filter he)
  nodup := h.nodup.sublist (List.filter_sublist.map _)

/-- A kept section is a part of one of the sections. -/
theorem mem_keptSections {keep : List String → Bool} {s : String × List (String × Toml)}
    (h : s ∈ keptSections keep sections) :
    ∃ t ∈ sections, s = (t.1, t.2.filter fun e => keep [t.1, e.1]) := by
  obtain ⟨t, ht, rfl⟩ := List.mem_map.1 h
  exact ⟨t, List.mem_of_mem_filter ht, rfl⟩

/-- A part of a document with a line for each entry is one. -/
theorem IsSimpleDocument.kept (h : IsSimpleDocument entries sections)
    (keep : List String → Bool) :
    IsSimpleDocument (entries.filter fun e => keep [e.1]) (keptSections keep sections) where
  table := h.table.filter _
  bare s hs := by
    obtain ⟨t, ht, rfl⟩ := mem_keptSections hs
    exact h.bare t ht
  inner s hs := by
    obtain ⟨t, ht, rfl⟩ := mem_keptSections hs
    exact (h.inner t ht).filter _
  nodup := by
    -- The titles of the kept sections are some of the titles there were.
    have hnames : (keptSections keep sections).map Prod.fst =
        (sections.filter fun s => keep [s.1]).map Prod.fst := by
      simp [keptSections]
    rw [hnames]
    exact h.nodup.sublist ((List.filter_sublist.map _).append (List.filter_sublist.map _))

/-- Of a simple value, all is kept. -/
theorem IsSimple.keptValue {v : Toml} (h : IsSimple v) (keep : List String → Bool)
    (key : String) : keptValue keep key v = v := by
  cases h <;> rfl

/-- Of entries and sections, the kept entries are left and the kept parts of the sections. Only
sections hold entries of their own, as all other values are simple. -/
theorem kept_sections (h : ∀ e ∈ entries, IsSimple e.2) (keep : List String → Bool) :
    kept keep (entries ++ sections.map fun s => (s.1, .table s.2)) =
      (entries.filter fun e => keep [e.1]) ++
        (keptSections keep sections).map fun s => (s.1, .table s.2) := by
  have hentries : (entries.filter fun e => keep [e.1]).map
      (fun e => (e.1, keptValue keep e.1 e.2)) = entries.filter fun e => keep [e.1] := by
    conv_rhs => rw [← List.map_id (entries.filter fun e => keep [e.1])]
    refine List.map_congr_left fun e he => ?_
    rw [(h e (List.mem_of_mem_filter he)).keptValue]
    rfl
  rw [kept, List.filter_append, List.map_append, hentries, keptSections, List.filter_map,
    List.map_map, List.map_map]
  rfl

end Toml

/-- Settings are read from the document of a part of them, in every format that reads what it
writes. -/
theorem Settings.ofText?_kept {f : Toml.Format} (hf : f.Lawful) (s : Settings)
    (keep : List String → Bool) :
    ofText? f (f.write (Toml.kept keep s.toEntries)) = some (s.keeping keep) := by
  have hdocument := s.isSimpleDocument
  have hread := hf _ _ (hdocument.kept keep)
  rw [Toml.withSections, ← Toml.kept_sections hdocument.table.simple] at hread
  rw [ofText?, show s.toEntries = [("dialect", .text s.dialect.name)] ++
    s.sections.map fun s => (s.1, .table s.2) from rfl, hread]
  exact s.ofToml?_kept keep

/-- With every path kept, the entries are all the entries. -/
theorem Toml.kept_all (entries : List (String × Toml)) :
    kept (fun _ => true) entries = entries := by
  have hvalue (key : String) (v : Toml) : keptValue (fun _ => true) key v = v := by
    cases v with
    | table inner => simp [keptValue]
    | _ => rfl
  simp [kept, hvalue]

/-! ### Settings and options as objects -/

/-- The part of an object of which some members are kept. -/
def Json.kept (keep : String → Bool) : Json → Json
  | .obj members => .obj (members.filter fun m => keep m.1)
  | j => j

/-- What is found in a part of an object whose names differ. The names have to differ, so that
leaving out one member cannot uncover another one. -/
theorem Json.exists_kept {j : Json} {members : List (String × Json)} (hj : j = .obj members)
    (hnodup : (members.map Prod.fst).Nodup) (keep : String → Bool) :
    ∃ part, j.kept keep = .obj part ∧
      ∀ m ∈ members, part.lookup m.1 = if keep m.1 then some m.2 else none := by
  rw [hj]
  exact ⟨_, rfl, Text.forall_lookup_filter members hnodup keep⟩

/-- Settings for inference are read from a part of the object. -/
theorem Relation.Config.ofJson?_kept (c : Relation.Config) (keep : String → Bool) :
    ofJson? (c.toJson.kept keep) = some (c.keeping keep unwritten) := by
  obtain ⟨part, hpart, hlookup⟩ := Json.exists_kept (j := c.toJson) rfl (by simp) keep
  simp only [List.forall_mem_cons] at hlookup
  obtain ⟨hjunctions, hnaming, hsuffix, -⟩ := hlookup
  rw [hpart, ofJson?, if_pos (by rfl)]
  simp only [Json.memberOr_eq Json.bool? hjunctions rfl,
    Json.memberOr_eq Json.bool? hnaming rfl,
    Json.memberOr_eq Json.str? hsuffix rfl]
  rfl

/-- The options with the members that are kept, and with those of `d` in place of the others. -/
def Diagram.Options.keeping (keep : String → Bool) (o d : Options) : Options where
  viewMode := if keep "view_mode" then o.viewMode else d.viewMode
  includeTables := if keep "include_tables" then o.includeTables else d.includeTables
  excludeTables := if keep "exclude_tables" then o.excludeTables else d.excludeTables
  relationDepth := if keep "relation_depth" then o.relationDepth else d.relationDepth
  direction := if keep "direction" then o.direction else d.direction
  showComments := if keep "show_comments" then o.showComments else d.showComments
  groupBySchema := if keep "group_by_schema" then o.groupBySchema else d.groupBySchema
  tablePrefix := if keep "table_prefix" then o.tablePrefix else d.tablePrefix
  dialect := if keep "dialect" then o.dialect else d.dialect

/-- A member that is left out of options says what holds where no options are given. -/
theorem Diagram.Options.unwritten_eq : unwritten = {} := rfl

/-- The names of the tables to include and to exclude are sets: ascending, each name once. -/
structure Diagram.Options.HasSets (o : Options) : Prop where
  included : o.includeTables.Pairwise (· < ·)
  excluded : o.excludeTables.Pairwise (· < ·)

/-- Names that ascend are in order. -/
theorem sortedNames_of_pairwise {names : List String} (h : names.Pairwise (· < ·)) :
    sortedNames names = names := by
  induction names with
  | nil => rfl
  | cons name names ih =>
      obtain ⟨hname, hnames⟩ := List.pairwise_cons.1 h
      have hrest := ih hnames
      rw [sortedNames] at hrest
      rw [sortedNames, List.foldr_cons, hrest]
      cases names with
      | nil => rfl
      | cons other names => rw [insertName, if_pos (hname other (by simp))]

/-- Options are read from a part of the object. -/
theorem Diagram.Options.ofJson?_kept {o : Options} (h : o.HasSets) (keep : String → Bool) :
    ofJson? (o.toJson.kept keep) = some (o.keeping keep unwritten) := by
  obtain ⟨part, hpart, hlookup⟩ := Json.exists_kept (j := o.toJson) rfl (by simp) keep
  simp only [List.forall_mem_cons] at hlookup
  obtain ⟨hmode, hinclude, hexclude, hdepth, hdirection, hcomments, hgroup, hprefix, hdialect, -⟩ :=
    hlookup
  -- The reader sorts the names, which are sorted already where there are any.
  have hsets {names default : List String} (hnames : names.Pairwise (· < ·))
      (hdefault : default = [])
      (isKept : Bool) :
      sortedNames (if isKept then names else default) = if isKept then names else default := by
    subst hdefault
    cases isKept with
    | false => rfl
    | true => exact sortedNames_of_pairwise hnames
  have hincluded := hsets h.included (rfl : unwritten.includeTables = [])
  have hexcluded := hsets h.excluded (rfl : unwritten.excludeTables = [])
  have hnames (names : List String) : Json.list? Json.str? (Json.ofStrings names) = some names :=
    Json.takesBack_list Json.takesBack_str names _ (.same _)
  have hnumber (n : Option UInt32) :
      Json.opt? Json.uint32? (Json.ofOption Json.ofUInt32 n) = some n :=
    Json.takesBack_opt Json.takesBack_uint32 (by simp [Json.ofUInt32]) n _ (.same _)
  have htext (s : Option String) : Json.opt? Json.str? (Json.ofOption .str s) = some s :=
    Json.takesBack_opt Json.takesBack_str (by simp) s _ (.same _)
  rw [hpart, ofJson?, if_pos (by rfl)]
  simp only [
    Json.memberOr_eq (·.str?.bind ViewMode.ofLabel?) hmode o.viewMode.ofLabel?_label,
    Json.memberOr_eq _ hinclude (hnames _), Json.memberOr_eq _ hexclude (hnames _),
    Json.memberOr_eq _ hdepth (hnumber _),
    Json.memberOr_eq (·.str?.bind Direction.ofLabel?) hdirection
      o.direction.ofLabel?_label,
    Json.memberOr_eq Json.bool? hcomments rfl,
    Json.memberOr_eq Json.bool? hgroup rfl,
    Json.memberOr_eq _ hprefix (htext _), Json.memberOr_eq _ hdialect (htext _),
    Option.bind_eq_bind, Option.bind_some, hincluded, hexcluded]
  rfl

/-! ### Reading what was written, in part or as a whole -/

/-- With every member kept, an object is all of it. -/
theorem Json.kept_all (j : Json) : j.kept (fun _ => true) = j := by
  cases j <;> simp [kept]

/-- **What is read from a part is what was written, and the defaults for the rest.** Settings that
are read from a part of what is written for them have their values on the kept keys, and on the
others the values of settings that nobody has given. With every key kept they are all there. An
empty section says as much as none. All this holds of tables, and of documents in every format
that reads what it writes. The same is true of the settings for inference and of options as
objects. -/
theorem readBack_kept :
    (∀ (s : Settings) (keep : List String → Bool),
      Settings.ofToml? (.table (Toml.kept keep s.toEntries)) = some (s.keeping keep) ∧
        Settings.ofToml? (.table s.toEntries) = some s) ∧
    (∀ f : Toml.Format, f.Lawful → ∀ (s : Settings) (keep : List String → Bool),
      Settings.ofText? f (f.write (Toml.kept keep s.toEntries)) = some (s.keeping keep) ∧
        Settings.ofText? f (s.toText f) = some s) ∧
    (∀ entries : List (String × Toml), ∀ title ∈ ["render", "inference"],
      Settings.ofToml? (.table ((title, .table []) :: entries.filter (·.1 != title))) =
        Settings.ofToml? (.table (entries.filter (·.1 != title)))) ∧
    (∀ (c : Relation.Config) (keep : String → Bool),
      Relation.Config.ofJson? (c.toJson.kept keep) = some (c.keeping keep {}) ∧
        Relation.Config.ofJson? c.toJson = some c) ∧
    ∀ o : Diagram.Options, o.HasSets → ∀ keep : String → Bool,
      Diagram.Options.ofJson? (o.toJson.kept keep) = some (o.keeping keep {}) ∧
        Diagram.Options.ofJson? o.toJson = some o := by
  -- Writing everything is the case where everything is kept, so the second half of each part
  -- follows from the first.
  refine ⟨fun s keep => ⟨s.ofToml?_kept keep, ?_⟩, fun f hf s keep => ⟨s.ofText?_kept hf keep, ?_⟩,
    fun entries => ?_, fun c keep => ⟨c.ofJson?_kept keep, ?_⟩,
    fun o ho keep => ⟨Diagram.Options.ofJson?_kept ho keep, ?_⟩⟩
  · have hall := s.ofToml?_kept fun _ => true
    rwa [Toml.kept_all] at hall
  · have hall := s.ofText?_kept hf fun _ => true
    rwa [Toml.kept_all] at hall
  · obtain ⟨hrender, hinference⟩ := Settings.ofToml?_empty_section entries
    simpa using ⟨hrender, hinference⟩
  · have hall := c.ofJson?_kept fun _ => true
    rwa [Json.kept_all] at hall
  · have hall := Diagram.Options.ofJson?_kept ho fun _ => true
    rwa [Json.kept_all] at hall

/-- Options that differ from the defaults in three members. -/
def sampleOptions : Diagram.Options where
  includeTables := ["orders", "users"]
  direction := .leftToRight
  showComments := false

/-- The tables to include are named in ascending order. -/
theorem sampleOptions_hasSets : sampleOptions.HasSets where
  included := List.pairwise_pair.2 (by decide)
  excluded := .nil

/-- Settings that differ from the defaults in a member of each section and in one outside. -/
def sampleSettings : Settings where
  dialect := .mySql
  diagram := { showComments := false, excludeTables := ["logs", "jobs"] }
  inference := { suffix := "_key" }

/-- Of the document of `sampleSettings` the section for inference and a member of the other one are
left out, and of the object of `sampleOptions` all but two members. -/
theorem readBack_sample_parts :
    Toml.format.Lawful ∧ sampleOptions.HasSets ∧
      Settings.ofText? Toml.format
          "dialect = \"mysql\"\n\n[render]\nexclude_tables = [\n    \"logs\",\n    \"jobs\",\n]\n" =
        some { dialect := .mySql, diagram := { excludeTables := ["logs", "jobs"] } } ∧
      Diagram.Options.ofJson? (.obj [
          ("include_tables", .arr [.str "orders", .str "users"]),
          ("direction", .str "LR")]) =
        some { includeTables := ["orders", "users"], direction := .leftToRight } := by
  obtain ⟨-, hdocuments, -, -, hoptions⟩ := readBack_kept
  refine ⟨Toml.format_lawful, sampleOptions_hasSets, ?_, ?_⟩
  · have hread := (hdocuments Toml.format Toml.format_lawful sampleSettings fun path =>
      [["dialect"], ["render"], ["render", "exclude_tables"]].contains path).1
    -- The text is written out by the concrete format, and compared character by character.
    have hdocument : Toml.format.write (Toml.kept (fun path =>
        [["dialect"], ["render"], ["render", "exclude_tables"]].contains path)
        sampleSettings.toEntries) =
      "dialect = \"mysql\"\n\n[render]\nexclude_tables = [\n    \"logs\",\n    \"jobs\",\n]\n" := by
      decide +kernel
    rw [hdocument] at hread
    exact hread
  · have hread := (hoptions sampleOptions sampleOptions_hasSets
      fun name => name == "include_tables" || name == "direction").1
    simpa [Json.kept, Diagram.Options.toJson, Diagram.Options.keeping, sampleOptions,
      Json.ofStrings, Diagram.Direction.label] using hread

end EntityDiagram
