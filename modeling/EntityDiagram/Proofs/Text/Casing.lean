import EntityDiagram.Proofs.Text.Space

/-!
# `EntityDiagram.Proofs.Text.Casing`: the case mappings

The tables of case mappings are checked as a whole: the code points to which they lead are listed
(`imageCodes`) and shown to have none in common with those in question (`isDisjoint`).

* `isSpace_lower`: a text without white space has none in lower case.
* `upper_upper`: a text in upper case is its own upper case.
* `mem_upperChar`: upper case makes neither white space nor opening parentheses.

A mapping is a list of runs of code points, so that a statement about all characters is one about
the entries of two tables. `mapCase_cases` is where both meet: a character stays as it is, or it
becomes characters to which a table leads. Each of the main results takes the first case apart by
hand and leaves the second one to a check of the whole table by computation.
-/

set_option autoImplicit false

namespace EntityDiagram.Text

/-! ### Mapping one character -/

/-- The code points that a run maps. They are as far apart as the step of the run says, from the
first to the last one. -/
def CaseRun.codes (run : CaseRun) : List Nat :=
  (List.range ((run.last - run.first) / run.step + 1)).map fun k => run.first + k * run.step

/-- The code points that a pair of tables maps. The tables are those of characters that become
several ones, and of runs that are shifted as a whole. -/
def mappedCodes (runs : List CaseRun) (expansions : List (Nat × List Nat)) : List Nat :=
  expansions.map Prod.fst ++ runs.flatMap CaseRun.codes

/-- The code points that a pair of tables leads to. Properties of the results of a mapping are
checked on these numbers, once for each table, and not character by character. -/
def imageCodes (runs : List CaseRun) (expansions : List (Nat × List Nat)) : List Nat :=
  expansions.flatMap Prod.snd ++
    runs.flatMap fun run => run.codes.map fun n : Nat => ((n : Int) + run.shift).toNat

/-- A run maps its code points. -/
theorem CaseRun.mem_codes {run : CaseRun} {n : Nat} (h : run.covers n = true) : n ∈ run.codes := by
  simp only [covers, Bool.and_eq_true, decide_eq_true_eq, beq_iff_eq] at h
  obtain ⟨⟨hfirst, hlast⟩, hstep⟩ := h
  refine List.mem_map.2 ⟨(n - run.first) / run.step, List.mem_range.2 ?_, ?_⟩
  · have hle : (n - run.first) / run.step ≤ (run.last - run.first) / run.step :=
      Nat.div_le_div_right (by omega)
    omega
  · rw [Nat.div_mul_cancel (Nat.dvd_of_mod_eq_zero hstep)]
    omega

/-- A character that is made from its code has that code, or else the code zero. The code zero
stands for numbers that are the code of no character. -/
theorem toNat_ofNat_or (n : Nat) : (Char.ofNat n).toNat = n ∨ (Char.ofNat n).toNat = 0 := by
  by_cases h : n.isValidChar
  · left
    rw [Char.ofNat, dif_pos h]
    rfl
  · right
    rw [Char.ofNat, dif_neg h]
    rfl

/-- A character that the tables do not map stays as it is. -/
theorem mapCase_of_notMem {runs : List CaseRun} {expansions : List (Nat × List Nat)} {c : Char}
    (h : c.toNat ∉ mappedCodes runs expansions) : mapCase runs expansions c = [c] := by
  rw [mappedCodes, List.mem_append, not_or] at h
  have hlookup : expansions.lookup c.toNat = none := by
    rw [List.lookup_eq_none_iff]
    intro e he
    rw [bne_iff_ne]
    intro hcode
    exact h.1 (List.mem_map.2 ⟨e, he, hcode.symm⟩)
  have hfind : runs.find? (fun run => run.covers c.toNat) = none :=
    List.find?_eq_none.2 fun run hrun hcovers =>
      h.2 (List.mem_flatMap.2 ⟨run, hrun, CaseRun.mem_codes hcovers⟩)
  rw [mapCase, hlookup, hfind]

/-- A character stays as it is, or it is mapped to characters to which the tables lead. So what
holds of the images holds of all that a mapping changes. -/
theorem mapCase_cases (runs : List CaseRun) (expansions : List (Nat × List Nat)) (c : Char) :
    mapCase runs expansions c = [c] ∨
      ∀ d ∈ mapCase runs expansions c, d.toNat ∈ 0 :: imageCodes runs expansions := by
  -- A code of no character would be taken for that of the character 0.
  have hcode {n : Nat} (hn : n ∈ imageCodes runs expansions) :
      (Char.ofNat n).toNat ∈ 0 :: imageCodes runs expansions := by
    rcases toNat_ofNat_or n with h | h
    · rw [h]
      exact List.mem_cons_of_mem _ hn
    · rw [h]
      exact List.mem_cons_self
  rw [mapCase]
  split
  · rename_i codes hcodes
    obtain ⟨before, after, hsplit, -⟩ := List.lookup_eq_some_iff.1 hcodes
    refine .inr fun d hd => ?_
    obtain ⟨n, hn, rfl⟩ := List.mem_map.1 hd
    have hmem : (c.toNat, codes) ∈ expansions := by simp [hsplit]
    exact hcode (List.mem_append_left _ (List.mem_flatMap.2 ⟨_, hmem, hn⟩))
  · split
    · rename_i run hrun
      refine .inr fun d hd => ?_
      rw [List.mem_singleton.1 hd]
      have hcovers := List.find?_some (p := fun r : CaseRun => r.covers c.toNat) hrun
      exact hcode (List.mem_append_right _ (List.mem_flatMap.2 ⟨run,
        List.mem_of_find?_eq_some hrun, List.mem_map.2 ⟨_, CaseRun.mem_codes hcovers, rfl⟩⟩))
    · exact .inl rfl

/-- No character is mapped to nothing, unless the tables say so. The expansions are the only place
where the tables could lead to nothing, as a run maps each character to one. -/
theorem mapCase_ne_nil {runs : List CaseRun} {expansions : List (Nat × List Nat)}
    (h : ∀ e ∈ expansions, e.2 ≠ []) (c : Char) : mapCase runs expansions c ≠ [] := by
  rw [mapCase]
  split
  · rename_i codes hcodes
    obtain ⟨before, after, hsplit, -⟩ := List.lookup_eq_some_iff.1 hcodes
    simpa using h (c.toNat, codes) (by simp [hsplit])
  · split <;> simp

/-! ### Lower case -/

/-- Lower case leads to no white space. The check is on the two lists of numbers, in which the
images are looked up bit by bit. -/
theorem lowerImages_notSpace :
    isDisjoint (0 :: imageCodes lowerRuns lowerExpansions) spaceCodes = true := by
  decide +kernel

/-- The lower-case form of a character holds no white space unless the character is some. The
converse is not needed: white space is dropped before a text is put into lower case. -/
theorem isSpace_lowerChar {c : Char} (hc : isSpace c = false) :
    ∀ d ∈ lowerChar c, isSpace d = false := by
  intro d hd
  rw [lowerChar] at hd
  split at hd
  · rename_i hascii
    rw [List.mem_singleton.1 hd]
    exact forall_ascii (p := fun c => isSpace c = false → isSpace c.toLower = false)
      (by decide +kernel) hascii hc
  · rcases mapCase_cases lowerRuns lowerExpansions c with hself | himage
    · rw [hself] at hd
      rwa [List.mem_singleton.1 hd]
    · rw [← Bool.not_eq_true, isSpace_iff]
      exact notMem_of_isDisjoint lowerImages_notSpace (himage d hd)

/-- Lower case does so wherever the text stands. What comes before a text only decides which of two
letters a sigma becomes. -/
theorem isSpace_lowerAfter (before : List Char) {s : List Char} (h : ∀ c ∈ s, isSpace c = false) :
    ∀ c ∈ lowerAfter before s, isSpace c = false := by
  induction s generalizing before with
  | nil => simp [lowerAfter]
  | cons c rest ih =>
      obtain ⟨hc, hrest⟩ := List.forall_mem_cons.1 h
      intro d hd
      rw [lowerAfter, List.mem_append] at hd
      rcases hd with hd | hd
      · split at hd
        · split at hd <;> rw [List.mem_singleton.1 hd] <;> decide
        · exact isSpace_lowerChar hc d hd
      · exact ih (c :: before) hrest d hd

/-- **A text without white space has none in lower case.** This is why a type is still one word
after it has been put into lower case. -/
theorem isSpace_lower {s : List Char} (h : ∀ c ∈ s, isSpace c = false) :
    ∀ c ∈ lower s, isSpace c = false :=
  isSpace_lowerAfter [] h

/-- The lower-case form of a character is not empty. -/
theorem lowerChar_ne_nil (c : Char) : lowerChar c ≠ [] := by
  rw [lowerChar]
  split
  · simp
  · exact mapCase_ne_nil (by decide) c

/-- A text is empty in lower case only if it was empty before. -/
theorem lower_eq_nil_iff {s : List Char} : lower s = [] ↔ s = [] := by
  cases s with
  | nil => simp [lower, lowerAfter]
  | cons c s =>
      have hfirst : lower (c :: s) ≠ [] := by
        rw [lower, lowerAfter, Ne, List.append_eq_nil_iff, not_and_or]
        left
        split
        · split <;> simp
        · exact lowerChar_ne_nil c
      simp [hfirst]

/-! ### Upper case -/

/-- Upper case leads to characters that it leaves alone, and neither to white space nor to an
opening parenthesis. The three conditions are checked at once, since the images are the same. -/
theorem upperImages_settled : isDisjoint (0 :: imageCodes upperRuns upperExpansions)
    (mappedCodes upperRuns upperExpansions ++ List.range' 97 26 ++ 40 :: spaceCodes) = true := by
  decide +kernel

/-- The same for a single character. ASCII is not in the tables, so its characters are checked one
by one. -/
theorem mem_upperChar {c d : Char} (h : d ∈ upperChar c) :
    upperChar d = [d] ∧ (isSpace c = false → isSpace d = false) ∧ (c ≠ '(' → d ≠ '(') := by
  rw [upperChar] at h
  split at h
  · rename_i hascii
    rw [List.mem_singleton.1 h]
    -- There are 128 characters to check, and the kernel goes through them.
    exact forall_ascii (p := fun c => upperChar c.toUpper = [c.toUpper] ∧
      (isSpace c = false → isSpace c.toUpper = false) ∧ (c ≠ '(' → c.toUpper ≠ '('))
      (by decide +kernel) hascii
  · rename_i hascii
    rcases mapCase_cases upperRuns upperExpansions c with hself | himage
    · rw [hself] at h
      rw [List.mem_singleton.1 h, upperChar, if_neg hascii, hself]
      exact ⟨rfl, id, id⟩
    · -- What the tables lead to is in upper case already, and neither a space nor `(`.
      have hout := notMem_of_isDisjoint upperImages_settled (himage d h)
      rw [List.mem_append, List.mem_append, not_or, not_or, List.mem_cons, not_or] at hout
      obtain ⟨⟨hmapped, hsmall⟩, hopen, hspace⟩ := hout
      refine ⟨?_, fun _ => ?_, ?_⟩
      · rw [upperChar]
        split
        · rename_i hd
          exact forall_ascii (p := fun d => d.toNat ∉ List.range' 97 26 → [d.toUpper] = [d])
            (by decide +kernel) hd hsmall
        · exact mapCase_of_notMem hmapped
      · rwa [← Bool.not_eq_true, isSpace_iff]
      · rintro - rfl
        exact hopen rfl

/-- The upper-case form of a character is not empty. -/
theorem upperChar_ne_nil (c : Char) : upperChar c ≠ [] := by
  rw [upperChar]
  split
  · simp
  · exact mapCase_ne_nil (by decide +kernel) c

/-- **Upper case of upper case is the same text.** Types are compared in upper case, and this makes
their normal form a fixed point. -/
theorem upper_upper (s : List Char) : upper (upper s) = upper s := by
  have hsettled : ∀ d ∈ upper s, upperChar d = [d] := by
    intro d hd
    obtain ⟨c, -, hc⟩ := List.mem_flatMap.1 hd
    exact (mem_upperChar hc).1
  rw [upper, List.flatMap_congr hsettled, List.flatMap_singleton']

end EntityDiagram.Text
