import Mathlib.Data.List.Basic

/-!
# `EntityDiagram.Proofs.Text.Lookup`: entries by their names

The members of a record and the entries of a table are lists of values with names, and the first
one of a name counts. What a lookup finds in a part of such a list, and in a longer one.

* `lookup_eq_none`, `lookup_of_mem`: what is found under a name that does not occur, and under the
  name of an entry where names differ.
* `lookup_filter`, `forall_lookup_filter`: a part of a list that is kept by its names. A record with
  members left out is such a part.
* `lookup_map`: values that change with their names in view.

Both formats of this library, settings and schemas, read a record by looking up one member after the
other, so that their readers meet in these lemmas.
-/

set_option autoImplicit false

namespace EntityDiagram.Text

variable {α β : Type} {entries : List (String × α)} {name : String}

/-- Nothing is found under a name that does not occur. -/
theorem lookup_eq_none (h : name ∉ entries.map Prod.fst) : entries.lookup name = none := by
  rw [List.lookup_eq_none_iff]
  intro e he
  rw [bne_iff_ne]
  rintro rfl
  exact h (List.mem_map_of_mem he)

/-- What is added at the end is found if its name did not occur. -/
theorem lookup_append_singleton (h : name ∉ entries.map Prod.fst) (a : α) :
    (entries ++ [(name, a)]).lookup name = some a := by
  rw [List.lookup_append, lookup_eq_none h]
  simp

/-- Among entries whose names differ, each is found by its name. -/
theorem lookup_of_mem (hnodup : (entries.map Prod.fst).Nodup) {e : String × α} (h : e ∈ entries) :
    entries.lookup e.1 = some e.2 := by
  induction entries with
  | nil => cases h
  | cons first entries ih =>
      rw [List.map_cons, List.nodup_cons] at hnodup
      rw [List.lookup_cons]
      rcases List.mem_cons.1 h with rfl | h
      · simp
      · have hne : (e.1 == first.1) = false := by
          rw [beq_eq_false_iff_ne]
          intro heq
          exact hnodup.1 (heq ▸ List.mem_map_of_mem h)
        rw [hne, ih hnodup.2 h]

/-- Among the entries whose names are kept, a kept name is found as before and no other is. -/
theorem lookup_filter (keep : String → Bool) (entries : List (String × α)) (name : String) :
    (entries.filter fun e => keep e.1).lookup name =
      if keep name then entries.lookup name else none := by
  induction entries with
  | nil => simp
  | cons e entries ih =>
      rw [List.filter_cons, List.lookup_cons]
      -- An entry of the name is found or left out. Any other entry makes no difference, kept or
      -- not.
      by_cases hname : name = e.1
      · subst hname
        rw [beq_self_eq_true]
        split
        · rw [List.lookup_cons, beq_self_eq_true]
        · rename_i hkeep
          rw [ih, if_neg hkeep]
      · have hne : (name == e.1) = false := by simpa using hname
        rw [hne]
        split
        · rw [List.lookup_cons, hne, ih]
        · exact ih

/-- Of entries whose names differ, each kept one is found by its name and no other is. If names
could repeat, a second entry might be found in place of one that is left out. -/
theorem forall_lookup_filter (entries : List (String × α))
    (hnodup : (entries.map Prod.fst).Nodup) (keep : String → Bool) :
    ∀ e ∈ entries, (entries.filter fun e => keep e.1).lookup e.1 =
      if keep e.1 then some e.2 else none := by
  intro e he
  rw [lookup_filter, lookup_of_mem hnodup he]

/-- An entry is found where each value is changed by its name. -/
theorem lookup_map (change : String → α → β) (entries : List (String × α)) (name : String) :
    (entries.map fun e => (e.1, change e.1 e.2)).lookup name =
      (entries.lookup name).map (change name) := by
  induction entries with
  | nil => rfl
  | cons e entries ih =>
      rw [List.map_cons, List.lookup_cons, List.lookup_cons, ih]
      split
      · rename_i hname
        rw [beq_iff_eq.1 hname]
        rfl
      · rfl

end EntityDiagram.Text
