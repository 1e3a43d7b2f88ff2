import EntityDiagram.Proofs.Text.CodeSet
import EntityDiagram.Proofs.Text.PlainWord
import Mathlib.Data.List.Forall2
import Mathlib.Data.List.TakeWhile

/-!
# `EntityDiagram.Proofs.Text.Space`: white space around the parts of a text

White space is a finite set, so what holds of its 25 characters is checked on each of them:
`forall_isSpace`. The rest of the module says how white space around a text, and commas between
texts, are taken away again.

* `not_has_of_isSpace`, `isAlphanumeric_of_isSpace`, `isWordChar_of_isSpace`: white space belongs to
  no word.
* `trim_pad`, `trimStart_append`, `trimEnd_cons`: trimming.
* `words_append`, `words_cons`, `words_spaces_append`: words.
* `padded_trim`, `trim_trim`: what trimming leaves, whatever the text.
* `splitWhere_joinWith`, `words_joinWith`: joined texts are split at their separator.
* `mem_of_mem_splitWhere`, `mem_words`: what pieces and words consist of.
-/

set_option autoImplicit false

namespace EntityDiagram.Text

/-! ### Characters -/

/-- The code points of white space. These are the 25 characters with the Unicode property
`White_Space`. -/
def spaceCodes : List Nat :=
  [9, 10, 11, 12, 13, 32, 0x85, 0xA0, 0x1680, 0x2000, 0x2001, 0x2002, 0x2003, 0x2004, 0x2005,
   0x2006, 0x2007, 0x2008, 0x2009, 0x200A, 0x2028, 0x2029, 0x202F, 0x205F, 0x3000]

/-- What holds of the listed characters holds of all white space. There are few enough of them for a
property to be decided one by one. -/
theorem forall_isSpace {p : Char → Prop} (h : ∀ n ∈ spaceCodes, p (Char.ofNat n)) {c : Char}
    (hc : isSpace c = true) : p c := by
  have hmem : c.toNat ∈ spaceCodes := by
    simp only [spaceCodes, List.mem_cons, List.not_mem_nil, or_false]
    rw [isSpace] at hc
    split at hc
    · -- ASCII is tested without the table of ranges.
      rcases Bool.or_eq_true_iff.1 hc with hc | hc
      · rw [beq_iff_eq.1 hc]
        decide
      · rw [Bool.and_eq_true, decide_eq_true_eq, decide_eq_true_eq] at hc
        have hlow : 9 ≤ c.toNat := Char.le_def.1 hc.1
        have hhigh : c.toNat ≤ 13 := Char.le_def.1 hc.2
        omega
    · simp only [CodeRanges.has, spaceRanges, List.any_cons, List.any_nil, Bool.or_false,
        Bool.or_eq_true, Bool.and_eq_true, decide_eq_true_eq] at hc
      omega
  have hofNat := h _ hmem
  rwa [Char.ofNat_toNat] at hofNat

/-- White space is what the list of its code points says. -/
theorem isSpace_iff {c : Char} : isSpace c = true ↔ c.toNat ∈ spaceCodes := by
  constructor
  · exact forall_isSpace (p := fun c => c.toNat ∈ spaceCodes) (by decide +kernel)
  · intro h
    have hofNat : ∀ n ∈ spaceCodes, isSpace (Char.ofNat n) = true := by decide +kernel
    simpa using hofNat c.toNat h

/-- White space is none of the characters above ASCII of which words consist. Each of the three
tables is checked as a mask of bits against the list. -/
theorem not_has_of_isSpace {c : Char} (h : isSpace c = true) :
    alphabeticRanges.has c = false ∧ numericRanges.has c = false ∧
      wordMarkRanges.has c = false := by
  have hcode := isSpace_iff.1 h
  exact ⟨has_of_isApart (by decide +kernel) hcode, has_of_isApart (by decide +kernel) hcode,
    has_of_isApart (by decide +kernel) hcode⟩

/-- White space is neither a letter nor a number. -/
theorem isAlphanumeric_of_isSpace {c : Char} (h : isSpace c = true) : isAlphanumeric c = false := by
  have hascii := forall_isSpace
    (p := fun c => (isAsciiLetter c || isAsciiDigit c) = false) (by decide) h
  obtain ⟨hletter, hnumber, -⟩ := not_has_of_isSpace h
  rw [isAlphanumeric, hascii, hletter, hnumber]
  split <;> rfl

/-- White space is no character of a word. -/
theorem isWordChar_of_isSpace {c : Char} (h : isSpace c = true) : isWordChar c = false := by
  have hascii := forall_isSpace
    (p := fun c => (isAsciiLetter c || isAsciiDigit c || c == '_') = false) (by decide) h
  obtain ⟨hletter, -, hmark⟩ := not_has_of_isSpace h
  rw [isWordChar, hascii, hletter, hmark]
  split <;> rfl

/-- No characters are white space. -/
theorem forall_isSpace_nil : ∀ c ∈ ([] : List Char), isSpace c = true := by simp

/-- A text is white space and then something else. The split is at the first character that is no
white space, if there is one. -/
theorem exists_spaces_append (s : List Char) : ∃ g r, s = g ++ r ∧
    (∀ c ∈ g, isSpace c = true) ∧ ∀ c ∈ r.head?, isSpace c = false := by
  refine ⟨s.takeWhile isSpace, s.dropWhile isSpace, List.takeWhile_append_dropWhile.symm,
    List.all_eq_true.1 (List.all_takeWhile ..), fun c hc => ?_⟩
  have hnot := List.head?_dropWhile_not isSpace s
  rw [Option.mem_def.1 hc] at hnot
  exact hnot

/-! ### Trimming -/

/-- White space at the front is dropped up to the text. It stops at the text, whose first character
is no white space. -/
theorem trimStart_append {g s : List Char} (hg : ∀ c ∈ g, isSpace c = true)
    (hs : ∀ c ∈ s.head?, isSpace c = false) : trimStart (g ++ s) = s := by
  rw [trimStart, List.dropWhile_append_of_pos hg]
  cases s with
  | nil => rfl
  | cons c s => rw [List.dropWhile_cons_of_neg (by simp [hs c rfl])]

/-- The end of a text is trimmed behind its first character, unless nothing is left. This gives
the recursion from the front that inductions over a text need, while trimming itself starts at the
end. -/
theorem trimEnd_cons (c : Char) (s : List Char) :
    trimEnd (c :: s) = if isSpace c = true ∧ trimEnd s = [] then [] else c :: trimEnd s := by
  have hempty : trimEnd s = [] ↔ (s.reverse.dropWhile isSpace).isEmpty = true := by
    rw [trimEnd, dropEndWhile, List.reverse_eq_nil_iff, List.isEmpty_iff]
  rw [trimEnd, dropEndWhile, List.reverse_cons, List.dropWhile_append]
  by_cases hs : trimEnd s = []
  · rw [if_pos (hempty.1 hs), hs]
    cases hc : isSpace c <;> simp [List.dropWhile, hc]
  · rw [if_neg (fun h => hs (hempty.2 h)), if_neg (fun h => hs h.2), List.reverse_append,
      List.reverse_singleton]
    rfl

/-- What is trimmed at its end is a front of the text. -/
theorem trimEnd_prefix (s : List Char) : trimEnd s <+: s := by
  induction s with
  | nil => exact List.prefix_refl _
  | cons c s ih =>
      rw [trimEnd_cons]
      split
      · exact List.nil_prefix
      · exact List.cons_prefix_cons.2 ⟨rfl, ih⟩

/-- Nothing is added to a text by trimming it. -/
theorem mem_of_mem_trim {s : List Char} {c : Char} (h : c ∈ trim s) : c ∈ s := by
  have hend : trim s <+: trimStart s := trimEnd_prefix _
  exact (List.dropWhile_sublist _).mem (hend.mem h)

/-- A text without white space is not trimmed at its end, whatever follows. Only white space that
follows it can be trimmed away. -/
theorem trimEnd_append {u : List Char} (hu : ∀ c ∈ u, isSpace c = false) (s : List Char) :
    trimEnd (u ++ s) = u ++ trimEnd s := by
  induction u with
  | nil => rfl
  | cons c u ih =>
      rw [List.cons_append, trimEnd_cons, if_neg (by simp [hu c (by simp)]),
        ih fun d hd => hu d (by simp [hd])]
      rfl

/-- White space is trimmed away as a whole. -/
theorem trimEnd_spaces {g : List Char} (hg : ∀ c ∈ g, isSpace c = true) : trimEnd g = [] := by
  induction g with
  | nil => rfl
  | cons c g ih =>
      rw [trimEnd_cons, if_pos ⟨hg c (by simp), ih fun d hd => hg d (by simp [hd])⟩]

/-- Trimming the front of a text does not go beyond a character that is no white space. So what
stands behind such a character is not touched, white space or not. -/
theorem trimStart_append_cons {c : Char} (hc : isSpace c = false) (s t : List Char) :
    trimStart (s ++ c :: t) = trimStart s ++ c :: t := by
  rw [trimStart, trimStart, List.dropWhile_append]
  split
  · rename_i hempty
    rw [List.isEmpty_iff.1 hempty, List.dropWhile_cons_of_neg (by simp [hc])]
    rfl
  · rfl

/-- Nor does trimming the end of a text. -/
theorem trimEnd_append_cons {c : Char} (hc : isSpace c = false) (s t : List Char) :
    trimEnd (s ++ c :: t) = s ++ c :: trimEnd t := by
  induction s with
  | nil => rw [List.nil_append, trimEnd_cons, if_neg (by simp [hc]), List.nil_append]
  | cons d s ih =>
      rw [List.cons_append, trimEnd_cons, ih, if_neg (by simp), List.cons_append]

/-- A text without white space is trimmed to itself, whatever white space is around it. Names and
values are written with such padding between the marks of a list. -/
theorem trim_pad {g s g' : List Char} (hg : ∀ c ∈ g, isSpace c = true)
    (hs : ∀ c ∈ s, isSpace c = false) (hg' : ∀ c ∈ g', isSpace c = true) :
    trim (g ++ (s ++ g')) = s := by
  cases s with
  | nil =>
      have hspaces : ∀ c ∈ g ++ ([] ++ g'), isSpace c = true := by
        intro c hc
        rcases List.mem_append.1 hc with hc | hc
        · exact hg c hc
        · exact hg' c hc
      rw [trim, trimStart, List.dropWhile_eq_nil_iff.2 hspaces]
      rfl
  | cons c s =>
      rw [trim, trimStart_append hg (by simp [hs c (by simp)]), trimEnd_append hs,
        trimEnd_spaces hg', List.append_nil]

/-- The text `x` is `s` with white space around it. Neither end needs to have any. -/
def Padded (s x : List Char) : Prop :=
  ∃ g g', x = g ++ (s ++ g') ∧ (∀ c ∈ g, isSpace c = true) ∧ ∀ c ∈ g', isSpace c = true

/-- White space around a text is trimmed away. -/
theorem Padded.trim_eq {s x : List Char} (h : Padded s x) (hs : ∀ c ∈ s, isSpace c = false) :
    trim x = s := by
  obtain ⟨g, g', rfl, hg, hg'⟩ := h
  exact trim_pad hg hs hg'

/-- The characters of a text with white space around it. Each of them belongs to the text or is
padding. -/
theorem Padded.mem {s x : List Char} (h : Padded s x) {c : Char} (hc : c ∈ x) :
    c ∈ s ∨ isSpace c = true := by
  obtain ⟨g, g', rfl, hg, hg'⟩ := h
  rcases List.mem_append.1 hc with hc | hc
  · exact .inr (hg c hc)
  · exact (List.mem_append.1 hc).imp_right (hg' c)

/-- Nothing is trimmed off a text whose ends are no white space. White space inside the text does
not matter. -/
theorem trim_eq_self_of_ends {s : List Char} (hfirst : ∀ c ∈ s.head?, isSpace c = false)
    (hlast : ∀ c ∈ s.getLast?, isSpace c = false) : trim s = s := by
  have hstart : trimStart s = s := by
    simpa using trimStart_append (g := []) (by simp) hfirst
  have hend : s.reverse.dropWhile isSpace = s.reverse := by
    cases hs : s.reverse with
    | nil => rfl
    | cons c r =>
        have hc : isSpace c = false := hlast c (by rw [← List.head?_reverse, hs]; rfl)
        rw [List.dropWhile_cons_of_neg (by simp [hc])]
  rw [trim, hstart, trimEnd, dropEndWhile, hend, List.reverse_reverse]

/-- A trimmed text starts with no white space. -/
theorem isSpace_head?_trim (s : List Char) : ∀ c ∈ (trim s).head?, isSpace c = false := by
  obtain ⟨t, ht⟩ := trimEnd_prefix (trimStart s)
  intro c hc
  have hstart : c ∈ (trimStart s).head? := by
    rw [← ht, List.head?_append, show (trimEnd (trimStart s)).head? = some c from hc]
    rfl
  have hnot := List.head?_dropWhile_not isSpace s
  rw [show (s.dropWhile isSpace).head? = some c from hstart] at hnot
  exact hnot

/-- Nor does it end with any. -/
theorem isSpace_getLast?_trim (s : List Char) : ∀ c ∈ (trim s).getLast?, isSpace c = false := by
  intro c hc
  rw [trim, trimEnd, dropEndWhile, List.getLast?_reverse] at hc
  have hnot := List.head?_dropWhile_not isSpace (trimStart s).reverse
  rw [Option.mem_def.1 hc] at hnot
  exact hnot

/-- Trimming twice is trimming once. -/
theorem trim_trim (s : List Char) : trim (trim s) = trim s :=
  trim_eq_self_of_ends (isSpace_head?_trim s) (isSpace_getLast?_trim s)

/-- A text is what trimming leaves of it, with white space around. Together with `trim_trim` this
says that trimming finds the largest text without white space at its ends. -/
theorem padded_trim (s : List Char) : Padded (trim s) s := by
  refine ⟨s.takeWhile isSpace, ((trimStart s).reverse.takeWhile isSpace).reverse, ?_,
    List.all_eq_true.1 (List.all_takeWhile ..), fun c hc => ?_⟩
  · rw [trim, trimEnd, dropEndWhile, ← List.reverse_append, List.takeWhile_append_dropWhile,
      List.reverse_reverse, trimStart, List.takeWhile_append_dropWhile]
  · exact List.all_eq_true.1 (List.all_takeWhile ..) c (List.mem_reverse.1 hc)

/-- White space in front of a text is part of no word. -/
theorem words_spaces_append {g : List Char} (hg : ∀ c ∈ g, isSpace c = true) (s : List Char) :
    words (g ++ s) = words s := by
  induction g with
  | nil => rfl
  | cons c g ih =>
      have hrest := ih fun d hd => hg d (List.mem_cons_of_mem _ hd)
      rw [words] at hrest
      rw [words, List.cons_append, splitWhere, if_pos (hg c List.mem_cons_self),
        List.filter_cons_of_neg (by simp), hrest]

/-- A word ends at white space. The end of the text counts as white space here. -/
theorem words_append {w s : List Char} (hne : w ≠ []) (hw : ∀ c ∈ w, isSpace c = false)
    (hs : ∀ c ∈ s.head?, isSpace c = true) : words (w ++ s) = w :: words s := by
  cases s with
  | nil =>
      rw [List.append_nil, words_eq_singleton hne hw]
      rfl
  | cons c s =>
      have hc := hs c rfl
      have hrest : words (c :: s) = words s :=
        words_spaces_append (g := [c]) (by simpa using hc) s
      rw [hrest, words, splitWhere_append hw c hc, List.filter_cons_of_pos (by simpa using hne),
        words]

/-- The first word of a text reaches to the first white space. -/
theorem words_cons {c : Char} (hc : isSpace c = false) (s : List Char) :
    words (c :: s) = (c :: s.takeWhile fun d => !isSpace d) ::
      words (s.dropWhile fun d => !isSpace d) := by
  have hword : ∀ d ∈ c :: s.takeWhile fun d => !isSpace d, isSpace d = false := by
    intro d hd
    rcases List.mem_cons.1 hd with rfl | hd
    · exact hc
    · simpa using List.mem_takeWhile_imp hd
  have hrest : ∀ d ∈ (s.dropWhile fun d => !isSpace d).head?, isSpace d = true := by
    intro d hd
    have hnot := List.head?_dropWhile_not (fun d => !isSpace d) s
    rw [Option.mem_def.1 hd] at hnot
    simpa using hnot
  rw [← words_append (by simp) hword hrest, List.cons_append, List.takeWhile_append_dropWhile]

/-- White space does not change the words of a text. For a single word this is trimming. -/
theorem words_append_spaces {w g : List Char} (hne : w ≠ []) (hw : ∀ c ∈ w, isSpace c = false)
    (hg : ∀ c ∈ g, isSpace c = true) : words (w ++ g) = [w] := by
  have hblank : words g = [] := by
    rw [← List.append_nil g, words_spaces_append hg]
    rfl
  rw [words_append hne hw fun c hc => hg c (List.mem_of_mem_head? hc), hblank]

/-! ### Joining and splitting -/

/-- Among texts that belong to a list one by one, each belongs to one of it. The list is the one
that the others belong to, so that properties of its members pass over. -/
theorem exists_rel_of_mem {α β : Type} {r : α → β → Prop} {as : List α} {bs : List β}
    (h : List.Forall₂ r as bs) {b : β} (hb : b ∈ bs) : ∃ a ∈ as, r a b := by
  induction h with
  | nil => cases hb
  | @cons a b' as bs hab _ ih =>
      rcases List.mem_cons.1 hb with rfl | hb
      · exact ⟨a, by simp, hab⟩
      · obtain ⟨a', ha', hrel⟩ := ih hb
        exact ⟨a', List.mem_cons_of_mem _ ha', hrel⟩

/-- Joined texts, the first one apart. -/
theorem joinWith_cons_cons (separator first next : List Char) (more : List (List Char)) :
    joinWith separator (first :: next :: more) =
      first ++ (separator ++ joinWith separator (next :: more)) := by
  simp [joinWith]

/-- A single text is joined to itself. -/
theorem joinWith_singleton (separator part : List Char) : joinWith separator [part] = part := by
  simp [joinWith]

/-- Texts are joined as their characters are. -/
theorem toList_joinTexts (separator : String) (parts : List String) :
    (joinTexts separator parts).toList = joinWith separator.toList (parts.map String.toList) := by
  rw [joinTexts, String.toList_intercalate]
  rfl

/-- What occurs in a list of joined parts occurs in the separator or in one of the parts. Nothing
else can come in by joining. -/
theorem mem_intercalate {α : Type} {a : α} {separator : List α} {parts : List (List α)}
    (h : a ∈ separator.intercalate parts) : a ∈ separator ∨ ∃ part ∈ parts, a ∈ part := by
  induction parts with
  | nil => simp at h
  | cons part more ih =>
      cases more with
      | nil => exact .inr ⟨part, by simp, by simpa using h⟩
      | cons next more =>
          rw [List.intercalate_cons_cons, List.mem_append, List.mem_append] at h
          rcases h with (h | h) | h
          · exact .inr ⟨part, by simp, h⟩
          · exact .inl h
          · exact (ih h).imp_right fun ⟨p, hp, ha⟩ => ⟨p, List.mem_cons_of_mem _ hp, ha⟩

/-- The characters of joined texts. -/
theorem mem_joinWith {separator : List Char} {parts : List (List Char)} {c : Char}
    (h : c ∈ joinWith separator parts) : c ∈ separator ∨ ∃ part ∈ parts, c ∈ part :=
  mem_intercalate h

/-- Texts that are joined by a separator are split at it again. None of them may hold the separator,
and there has to be one at least, as splitting never leaves nothing. -/
theorem splitWhere_joinWith {separator : Char} {parts : List (List Char)} (hne : parts ≠ [])
    (h : ∀ part ∈ parts, separator ∉ part) :
    splitWhere (· == separator) (joinWith [separator] parts) = parts := by
  have hpart {part : List Char} (hp : separator ∉ part) :
      ∀ c ∈ part, (c == separator) = false := by
    intro c hc
    rw [beq_eq_false_iff_ne]
    rintro rfl
    exact hp hc
  -- The induction is on the texts, of which the last one has no separator behind it.
  induction parts with
  | nil => exact absurd rfl hne
  | cons part more ih =>
      cases more with
      | nil =>
          rw [joinWith_singleton, splitWhere_eq_singleton (hpart (h part (by simp)))]
      | cons next more =>
          rw [joinWith_cons_cons, List.singleton_append,
            splitWhere_append (hpart (h part (by simp))) separator (by simp),
            ih (by simp) fun p hp => h p (List.mem_cons_of_mem _ hp)]

/-! ### Pieces and words -/

/-- There is always a piece. -/
theorem splitWhere_ne_nil (p : Char → Bool) (s : List Char) : splitWhere p s ≠ [] := by
  cases s with
  | nil => simp [splitWhere]
  | cons c s =>
      rw [splitWhere]
      split
      · simp
      · split <;> simp

/-- A piece of a split text consists of characters of the text that do not separate. The recursion
puts a character in front of the first piece of the rest, which is there by `splitWhere_ne_nil`. -/
theorem mem_of_mem_splitWhere {p : Char → Bool} {s piece : List Char} (h : piece ∈ splitWhere p s) :
    ∀ c ∈ piece, c ∈ s ∧ p c = false := by
  induction s generalizing piece with
  | nil =>
      rw [splitWhere, List.mem_singleton] at h
      simp [h]
  | cons d s ih =>
      intro c hc
      rw [splitWhere] at h
      split at h
      · rcases List.mem_cons.1 h with rfl | h
        · simp at hc
        · exact (ih h c hc).imp_left (List.mem_cons_of_mem _)
      · -- The character goes to the front of the first piece of the rest.
        rename_i hd
        split at h
        · rename_i hnil
          exact absurd hnil (splitWhere_ne_nil p s)
        · rename_i first more hmore
          rcases List.mem_cons.1 h with rfl | h
          · rcases List.mem_cons.1 hc with rfl | hc
            · exact ⟨List.mem_cons_self, by simpa using hd⟩
            · exact (ih (by simp [hmore]) c hc).imp_left (List.mem_cons_of_mem _)
          · exact (ih (by simp [hmore, h]) c hc).imp_left (List.mem_cons_of_mem _)

/-- The pieces of a split text, one behind the other, are the text without what separates them. So
no character is lost or moved by splitting, apart from the separators. -/
theorem flatten_splitWhere (p : Char → Bool) (s : List Char) :
    (splitWhere p s).flatten = s.filter fun c => !p c := by
  induction s with
  | nil => rfl
  | cons c s ih =>
      rw [splitWhere]
      cases hc : p c with
      | true => simpa [hc] using ih
      | false =>
          rw [if_neg (by simp), List.filter_cons_of_pos (by simp [hc]), ← ih]
          split
          · rename_i hnil
            -- There is always a first piece, which the character joins.
            exact absurd hnil (splitWhere_ne_nil p s)
          · rename_i piece pieces hpieces
            rw [hpieces]
            rfl

/-- The words of a text, one behind the other, are the text without its white space. -/
theorem flatten_words (s : List Char) : (words s).flatten = s.filter fun c => !isSpace c := by
  rw [words, List.flatten_filter_not_isEmpty, flatten_splitWhere]

/-- Words are not empty, and they consist of characters of the text that are no white space. -/
theorem mem_words {s w : List Char} (h : w ∈ words s) :
    w ≠ [] ∧ ∀ c ∈ w, c ∈ s ∧ isSpace c = false := by
  rw [words, List.mem_filter] at h
  exact ⟨by simpa using h.2, mem_of_mem_splitWhere h.1⟩

/-- Words that are joined by spaces are found again. They must be words: neither empty nor with
white space in them. -/
theorem words_joinWith {ws : List (List Char)}
    (h : ∀ w ∈ ws, w ≠ [] ∧ ∀ c ∈ w, isSpace c = false) : words (joinWith [' '] ws) = ws := by
  induction ws with
  | nil => rfl
  | cons w ws ih =>
      obtain ⟨⟨hne, hspace⟩, hws⟩ := List.forall_mem_cons.1 h
      cases ws with
      | nil => rw [joinWith_singleton, words_eq_singleton hne hspace]
      | cons next more =>
          rw [joinWith_cons_cons, words_append hne hspace (by simp; decide),
            words_spaces_append (by simp; decide), ih hws]

end EntityDiagram.Text
