import EntityDiagram.Text.Replace

/-!
# `EntityDiagram.Proofs.Text.Affix`: leads, tails and replaced parts of a text

* `dropLead?_eq_some_iff`, `dropTail?_eq_some_iff`: what is left of a text without its lead or its
  tail is what makes the text together with it.
* `mem_replaceFrom`: where the characters of a text with replacements come from.

The first two are equivalences, so that they serve in both directions: to compute what is left, and
to tell from what was left how the text was made. Recursion is on the lead in the first case. In the
second a text is reversed, since a tail cannot be met from the front.
-/

set_option autoImplicit false

namespace EntityDiagram.Text

/-- What follows the lead of a text. -/
theorem dropLead?_append (lead s : List Char) : dropLead? lead (lead ++ s) = some s := by
  induction lead with
  | nil => rfl
  | cons c lead ih => rw [List.cons_append, dropLead?, if_pos (by simp), ih]

/-- What follows the lead of a text makes the text together with it. -/
theorem dropLead?_eq_some_iff {lead s rest : List Char} :
    dropLead? lead s = some rest ↔ s = lead ++ rest := by
  refine ⟨fun h => ?_, fun h => h ▸ dropLead?_append lead rest⟩
  induction lead generalizing s with
  | nil => exact Option.some.inj h
  | cons p lead ih =>
      cases s with
      | nil => cases h
      | cons c s =>
          rw [dropLead?] at h
          split at h
          · rename_i hpc
            rw [ih h, beq_iff_eq.1 hpc, List.cons_append]
          · cases h

/-- What precedes the tail of a text makes the text together with it. -/
theorem dropTail?_eq_some_iff {tail s front : List Char} :
    dropTail? tail s = some front ↔ s = front ++ tail := by
  rw [dropTail?, Option.map_eq_some_iff]
  constructor
  · rintro ⟨rest, hrest, rfl⟩
    rw [← List.reverse_reverse s, dropLead?_eq_some_iff.1 hrest, List.reverse_append,
      List.reverse_reverse]
  · rintro rfl
    refine ⟨front.reverse, dropLead?_eq_some_iff.2 ?_, List.reverse_reverse front⟩
    rw [List.reverse_append]

/-- What precedes the tail of a string makes the string together with it. -/
theorem dropTail?_toList_eq_some_iff {tail s : String} {front : List Char} :
    dropTail? tail.toList s.toList = some front ↔ s = String.ofList front ++ tail := by
  rw [dropTail?_eq_some_iff, ← String.toList_inj]
  simp

/-- A character that starts no occurrence stays in its place. -/
theorem replaceFrom_cons_of_not {first c : Char} {more new s : List Char}
    (h : ¬ (c = first ∧ more <+: s)) :
    replaceFrom first more new 0 (c :: s) = c :: replaceFrom first more new 0 s := by
  rw [replaceFrom, if_neg]
  simpa [List.isPrefixOf_iff_prefix] using h

/-- A replacement brings in no characters but those of the new text. -/
theorem mem_replaceFrom {first : Char} {more new : List Char} {c : Char} (s : List Char) :
    ∀ skip, c ∈ replaceFrom first more new skip s → c ∈ new ∨ c ∈ s := by
  induction s with
  | nil =>
      intro skip h
      cases skip <;> cases h
  | cons d s ih =>
      intro skip h
      -- A character that belongs to a match is skipped. At any other one a match may begin.
      cases skip with
      | succ skip => exact (ih skip h).imp_right (List.mem_cons_of_mem d)
      | zero =>
          rw [replaceFrom] at h
          split at h
          · rcases List.mem_append.1 h with h | h
            · exact .inl h
            · exact (ih _ h).imp_right (List.mem_cons_of_mem d)
          · rcases List.mem_cons.1 h with rfl | h
            · exact .inr List.mem_cons_self
            · exact (ih _ h).imp_right (List.mem_cons_of_mem d)

end EntityDiagram.Text
