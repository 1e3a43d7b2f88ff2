import EntityDiagram.Text.CodeRange
import Mathlib.Data.List.Basic

/-!
# `EntityDiagram.Proofs.Text.CodeSet`: finite sets of code points

To compare a thousand code points or ranges of them with others one by one would take long, so a
set of code points is taken as the bits of a number: `isDisjoint` compares it with a list of code
points, and `isApart` with ranges of them.

Both tests are one pass over a list, and the kernel computes with the bits of a number directly. The
lemmas next to them, `notMem_of_isDisjoint` and `has_of_isApart`, give back what a test says about a
single character. They are how the tables of case mappings are checked as a whole in
`EntityDiagram.Proofs.Text.Casing`, where each entry on its own would be out of reach.
-/

set_option autoImplicit false

namespace EntityDiagram.Text

/-- A list of numbers as the number whose bits they are. -/
def bitsOf (ns : List Nat) : Nat := ns.foldr (fun n bits => 1 <<< n ||| bits) 0

/-- The bits are the numbers of the list. -/
theorem testBit_bitsOf {ns : List Nat} {n : Nat} : (bitsOf ns).testBit n = true ↔ n ∈ ns := by
  induction ns with
  | nil => simp [bitsOf]
  | cons m ns ih =>
      rw [bitsOf, List.foldr_cons, ← bitsOf, Nat.testBit_or, Bool.or_eq_true, ih,
        Nat.one_shiftLeft, Nat.testBit_two_pow, List.mem_cons]
      simp [eq_comm]

/-- Whether the lists have no number in common. -/
def isDisjoint (ms ns : List Nat) : Bool := ms.all fun m => !(bitsOf ns).testBit m

/-- A number of the one list is none of the other. -/
theorem notMem_of_isDisjoint {ms ns : List Nat} (h : isDisjoint ms ns = true) {n : Nat}
    (hn : n ∈ ms) : n ∉ ns := by
  rw [isDisjoint, List.all_eq_true] at h
  rw [← testBit_bitsOf]
  simpa using h n hn

/-- Whether none of the numbers lies in one of the ranges. -/
def isApart (ranges : CodeRanges) (ns : List Nat) : Bool :=
  ranges.all fun r => (bitsOf ns >>> r.1) % (1 <<< (r.2 + 1 - r.1)) == 0

/-- A character of one of the numbers lies in none of the ranges. -/
theorem has_of_isApart {ranges : CodeRanges} {ns : List Nat} (h : isApart ranges ns = true)
    {c : Char} (hc : c.toNat ∈ ns) : ranges.has c = false := by
  rw [isApart, List.all_eq_true] at h
  rw [CodeRanges.has, List.any_eq_false]
  intro r hr hrange
  simp only [Bool.and_eq_true, decide_eq_true_eq] at hrange
  obtain ⟨hlow, hhigh⟩ := hrange
  -- The bit of the character is one of those that are zero.
  have hbit : ((bitsOf ns >>> r.1) % (1 <<< (r.2 + 1 - r.1))).testBit (c.toNat - r.1) = true := by
    rw [Nat.one_shiftLeft, Nat.testBit_mod_two_pow, Nat.testBit_shiftRight,
      Nat.add_sub_cancel' hlow, testBit_bitsOf.2 hc, Bool.and_true, decide_eq_true_eq]
    omega
  rw [beq_iff_eq.1 (h r hr), Nat.zero_testBit] at hbit
  cases hbit

end EntityDiagram.Text
