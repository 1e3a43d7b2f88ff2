import EntityDiagram.Json.Basic
import EntityDiagram.Proofs.Text.Lookup

/-!
# `EntityDiagram.Proofs.Json.Variant`: the ways to write a record

A record is written with all its members, but a reader also takes it with less and with more: what
is unset, and some members where they are empty, may be left out, and a member that no reader asks
for may be added. `Variant w j` says that `j` is the value `w` with such changes, in the records at
every depth. A table of texts is no record, and stays as it is.

A reader takes a writer back (`TakesBack`) if it reads every variant of what is written as what was
written. `Kept.member`, `Kept.memberOr`, `Kept.tableOr` and `Kept.memberOpt` say so of one member of
a record, for each way in which a record reads its members, and `takesBack_list` of arrays.

An array has no members to leave out, but its items may be records, so that a variant of it varies
the items one by one (`VariantItems`). The relation is an inductive predicate on both values, by
mutual recursion on records and arrays, and the readers are taken through it member by member: no
lemma looks at a whole record. Where a value may be unset, `takesBack_opt` asks that nothing that is
set is written as `null`.
-/

set_option autoImplicit false

namespace EntityDiagram.Json

/-! ### Variants -/

/-- The members of records that stand for something empty where they are absent. The readers have an
empty default for these, and for no other list. -/
def emptyWhenAbsent : List String := ["views", "metadata", "warnings", "errors"]

/-- The members of records that hold tables of texts. What they hold is no record, so that nothing
in them may be left out. -/
def textTables : List String := ["metadata"]

/-- Whether the value is an array or an object without anything in it. -/
def isEmpty : Json → Bool
  | .arr [] | .obj [] => true
  | _ => false

/-- Whether a member may be left out of a record: one that is unset, or one that is empty where that
is what its absence means. It depends on the name of the member and on its value alone. -/
def isOmissible (name : String) : Json → Bool
  | .null => true
  | value => emptyWhenAbsent.contains name && value.isEmpty

mutual

/-- The second value is the first one with members left out of its records that may be, and with
others added to them. The order of the members does not matter. It is one relation for all records,
so what each reader has to accept is said once. -/
inductive Variant : Json → Json → Prop where
  | same (w : Json) : Variant w w
  | arr {items items' : List Json} (h : VariantItems items items') :
      Variant (.arr items) (.arr items')
  | obj {members members' : List (String × Json)} (h : ∀ m ∈ members, Kept members' m) :
      Variant (.obj members) (.obj members')

/-- Each value of the second list is a variant of the one in its place in the first list. Items are
neither added nor left out, and keep their order. -/
inductive VariantItems : List Json → List Json → Prop where
  | nil : VariantItems [] []
  | cons {w j : Json} {items items' : List Json} (h : Variant w j)
      (hitems : VariantItems items items') : VariantItems (w :: items) (j :: items')

/-- What has become of a member among the members of a variant. Members that are found more than
once count by the first one. -/
inductive Kept : List (String × Json) → String × Json → Prop where
  | omitted {members : List (String × Json)} {name : String} {value : Json}
      (h : isOmissible name value = true) (hlookup : members.lookup name = none) :
      Kept members (name, value)
  /-- A table of texts is kept as it is. -/
  | table {members : List (String × Json)} {name : String} {value : Json}
      (h : name ∈ textTables) (hlookup : members.lookup name = some value) :
      Kept members (name, value)
  | kept {members : List (String × Json)} {name : String} {value value' : Json}
      (h : name ∉ textTables) (hlookup : members.lookup name = some value')
      (hvariant : Variant value value') : Kept members (name, value)

end

/-- A variant of a record is an object that keeps its members. The names have to differ, so that
each member is found by its own name where nothing has changed. -/
theorem Variant.exists_members {members : List (String × Json)} {j : Json}
    (h : Variant (.obj members) j) (hnodup : (members.map Prod.fst).Nodup) :
    ∃ members', j = .obj members' ∧ ∀ m ∈ members, Kept members' m := by
  cases h with
  | same =>
      refine ⟨members, rfl, fun m hm => ?_⟩
      by_cases htable : m.1 ∈ textTables
      · exact .table htable (Text.lookup_of_mem hnodup hm)
      · exact .kept htable (Text.lookup_of_mem hnodup hm) (.same _)
  | obj h => exact ⟨_, rfl, h⟩

/-- Only the variants of `null` are `null`. So unset and set cannot be confused. -/
theorem Variant.eq_null_iff {w j : Json} (h : Variant w j) : j = .null ↔ w = .null := by
  cases h <;> simp

/-! ### Readers -/

variable {α : Type}

/-- The reader reads every variant of what is written as what was written. This includes what is
written itself, which is a variant. -/
def TakesBack (read : Json → Option α) (write : α → Json) : Prop :=
  ∀ a j, Variant (write a) j → read j = some a

variable {read : Json → Option α} {write : α → Json}

/-- Truth values are taken back. -/
theorem takesBack_bool : TakesBack bool? .bool := by
  rintro b j (_ | _ | _)
  rfl

/-- Strings are taken back. -/
theorem takesBack_str : TakesBack str? .str := by
  rintro s j (_ | _ | _)
  rfl

/-- Integers of 32 bits are taken back. Every such integer is in the range that the reader
accepts. -/
theorem takesBack_uint32 : TakesBack uint32? ofUInt32 := by
  rintro n j (_ | _ | _)
  have hlt : n.toNat < UInt32.size := n.toNat_lt
  show (if n.toNat < UInt32.size then some n.toNat.toUInt32 else none) = some n
  rw [if_pos hlt]
  simp

/-- A choice that is written by its label is taken back from the label. The labels are told apart by
the hypothesis. -/
theorem takesBack_label {label : α → String} {ofLabel? : String → Option α}
    (hlabel : ∀ a, ofLabel? (label a) = some a) :
    TakesBack (fun j => j.str?.bind ofLabel?) (fun a => .str (label a)) := by
  rintro a j (_ | _ | _)
  exact hlabel a

/-- Arrays are taken back if their items are. An array has no members to leave out, so only its
items may differ. -/
theorem takesBack_list (h : TakesBack read write) : TakesBack (list? read) (ofList write) := by
  have hitems {as : List α} {items : List Json} (hvariant : VariantItems (as.map write) items) :
      items.mapM read = some as := by
    induction as generalizing items with
    | nil =>
        cases hvariant
        rfl
    | cons a as ih =>
        cases hvariant with
        | cons hfirst hrest =>
            rw [List.mapM_cons, h a _ hfirst, ih hrest]
            rfl
  -- What is written is a variant of itself, item by item.
  have hself (as : List α) : VariantItems (as.map write) (as.map write) := by
    induction as with
    | nil => exact .nil
    | cons a as ih => exact .cons (.same _) ih
  intro as j hvariant
  cases hvariant with
  | same => exact hitems (hself as)
  | arr hvariant => exact hitems hvariant

/-- A table of texts is read as it is written. -/
theorem strMap?_table (table : List (String × String)) :
    strMap? (.obj (table.map fun entry => (entry.1, .str entry.2))) = some table := by
  rw [strMap?, List.mapM_map]
  induction table with
  | nil => rfl
  | cons entry table ih =>
      rw [List.mapM_cons, ih]
      rfl

/-! ### Members -/

variable {members : List (String × Json)} {name : String}

/-- A member that has to be there is read. It cannot have been left out. -/
theorem Kept.member {a : α} (h : Kept members (name, write a)) (hread : TakesBack read write)
    (hneeded : isOmissible name (write a) = false) :
    (obj members).member name read = some a := by
  rw [Json.member, member?]
  cases h with
  | omitted hname => rw [hneeded] at hname; cases hname
  | table _ hlookup => rw [hlookup]; exact hread a _ (.same _)
  | kept _ hlookup hvariant => rw [hlookup]; exact hread a _ hvariant

/-- A written list that may be left out of a record is empty. -/
theorem eq_nil_of_isOmissible {items : List α}
    (h : isOmissible name (ofList write items) = true) : [] = items := by
  cases items with
  | nil => rfl
  | cons item items => simp [isOmissible, ofList, isEmpty] at h

/-- A member with a default is read, where it has this default whenever it may be left out. If it
was left out, its value is the default. -/
theorem Kept.memberOr {a default : α} (h : Kept members (name, write a))
    (hread : TakesBack read write) (hdefault : isOmissible name (write a) = true → default = a) :
    (obj members).memberOr name read default = some a := by
  rw [Json.memberOr, member?]
  cases h with
  | omitted hname hlookup => rw [hlookup, ← hdefault hname]
  | table _ hlookup => rw [hlookup]; exact hread a _ (.same _)
  | kept _ hlookup hvariant => rw [hlookup]; exact hread a _ hvariant

/-- A table of texts is read, where an empty one may be left out. -/
theorem Kept.tableOr {table : List (String × String)}
    (h : Kept members (name, .obj (table.map fun entry => (entry.1, .str entry.2))))
    (htable : name ∈ textTables) : (obj members).memberOr name strMap? [] = some table := by
  rw [Json.memberOr, member?]
  cases h with
  | omitted hname hlookup =>
      rw [hlookup]
      cases table with
      | nil => rfl
      | cons entry table => simp [isOmissible, isEmpty] at hname
  | table _ hlookup => rw [hlookup]; exact strMap?_table table
  | kept hrecord => exact absurd htable hrecord

/-- A value that may be unset is taken back: `null` is read as unset, and nothing that is set is
written as `null`. The second condition keeps the two apart. -/
theorem takesBack_opt (hread : TakesBack read write) (hset : ∀ a, write a ≠ .null) :
    TakesBack (opt? read) (ofOption write) := by
  intro o value hvariant
  have hnull := hvariant.eq_null_iff
  cases o with
  | none => rw [hnull.2 rfl, opt?]
  | some a =>
      have hne : value ≠ .null := fun heq => hset a (hnull.1 heq)
      -- The reader tells `null` apart, so the value is taken by its constructor.
      cases value with
      | null => exact absurd rfl hne
      | _ =>
          show (read _).map some = some (some a)
          rw [hread a _ hvariant]
          rfl

/-- A member that may be unset is read, where only an unset one may be left out. Where it is left
out, it was unset. -/
theorem Kept.memberOpt {o : Option α} (h : Kept members (name, ofOption write o))
    (hread : TakesBack read write) (hset : ∀ a, isOmissible name (write a) = false) :
    (obj members).memberOpt name read = some o := by
  have hnull (a : α) : write a ≠ .null := by
    intro heq
    have hwritten := hset a
    rw [heq] at hwritten
    cases hwritten
  refine h.memberOr (takesBack_opt hread hnull) fun homissible => ?_
  cases o with
  | none => rfl
  | some a =>
      rw [ofOption, hset a] at homissible
      cases homissible

end EntityDiagram.Json
