import EntityDiagram.Text.Alphanumeric
import EntityDiagram.Text.Casing
import EntityDiagram.Text.Replace
import EntityDiagram.Text.Space
import Mathlib.Data.List.Forall2

/-!
# `EntityDiagram.Proofs.Text.PlainWord`: upper-case ASCII words

Keywords, type names and referential actions are written as upper-case ASCII words. On such words
the Unicode functions of `Text` are simple, and this module says how:

* `upper_plain`: upper case changes nothing.
* `eqIgnoreCase_plain_iff`: comparison without regard to case is equality.
* `upperText_of_eqIgnoreCase`, `eqIgnoreCase_upperText`: such a word is the upper case of what
  equals it without regard to case.
* `words_eq_singleton`, `trim_eq_self`, `splitWhere_append`: cutting a text without white space.

Facts about single characters are checked on all 128 ASCII characters, through `forall_ascii`.

The words of SQL that the readers know are plain, which is decided for each of them where it is
needed (`isPlainWord`). What a script holds need not be: there the same functions work on any
Unicode text, and nothing of this module applies.
-/

set_option autoImplicit false

namespace EntityDiagram.Text

/-- Whether a plain word may start with the character. Only upper-case letters are allowed, as the
words of the program's patterns are written in upper case. -/
def startsPlain (c : Char) : Bool := ('A' ≤ c && c ≤ 'Z') || c == '_'

/-- Whether the character may stand in a plain word. A digit or a dollar sign may stand anywhere but
at the start. -/
def isPlain (c : Char) : Bool := startsPlain c || isAsciiDigit c || c == '$'

/-- Whether the text is an upper-case ASCII word. -/
def isPlainWord : List Char → Bool
  | [] => false
  | c :: rest => startsPlain c && rest.all isPlain

/-! ### Characters -/

/-- What holds of all 128 ASCII characters holds of every ASCII character. With it a property of
ASCII characters is decided by going through them. -/
theorem forall_ascii {p : Char → Prop} (h : ∀ n : Fin 128, p (Char.ofNat n)) {c : Char}
    (hc : isAscii c = true) : p c := by
  have hlt : c.toNat < 128 := by simpa [isAscii] using hc
  have := h ⟨c.toNat, hlt⟩
  rwa [Char.ofNat_toNat] at this

/-- What has been checked for each character of a text holds of all of them. It turns a check that
`decide` can run into the statement that lemmas ask for. -/
theorem forall_mem_of_all {p : Char → Prop} [DecidablePred p] {s : List Char}
    (h : (s.all fun c => decide (p c)) = true) : ∀ c ∈ s, p c := fun c hc =>
  of_decide_eq_true (List.all_eq_true.1 h c hc)

/-- A character that is ASCII in lower case is ASCII. Lower case changes the letters from `A` to `Z`
only, and all of these are ASCII. -/
theorem isAscii_of_toLower {c : Char} (h : isAscii c.toLower = true) : isAscii c = true := by
  by_cases hupper : c.val ≥ 'A'.val ∧ c.val ≤ 'Z'.val
  · have hle : c ≤ 'Z' := Char.le_def.2 hupper.2
    have hlt : c.toNat < 128 := Nat.lt_of_le_of_lt (Char.le_def.1 hle) (by decide)
    simpa [isAscii] using hlt
  · have hsame : c.toLower = c := dif_neg hupper
    rwa [hsame] at h

/-- A character up to `_` is ASCII. -/
theorem isAscii_of_isPlain {c : Char} (h : isPlain c = true) : isAscii c = true := by
  have hle : c ≤ '_' := by
    simp only [isPlain, startsPlain, isAsciiDigit, Bool.or_eq_true, Bool.and_eq_true,
      decide_eq_true_eq, beq_iff_eq] at h
    rcases h with ((⟨-, h⟩ | rfl) | ⟨-, h⟩) | rfl
    · exact Char.le_trans h (by decide)
    · decide
    · exact Char.le_trans h (by decide)
    · decide
  have hle' : c.toNat ≤ '_'.toNat := Char.le_def.1 hle
  have : c.toNat < 128 := Nat.lt_of_le_of_lt hle' (by decide)
  simpa [isAscii] using this

/-- A character that starts a plain word may stand in one. -/
theorem isPlain_of_startsPlain {c : Char} (h : startsPlain c = true) : isPlain c = true := by
  simp [isPlain, h]

/-- A plain character is no white space, is its own upper-case form, and comes back from lower
case. -/
theorem isPlain_facts {c : Char} (h : isPlain c = true) :
    isSpace c = false ∧ upperChar c = [c] ∧ c.toLower.toUpper = c := by
  -- Not on all characters: the facts fail outside ASCII, so the premise stays in what is checked.
  have key : isPlain c = true → isSpace c = false ∧ upperChar c = [c] ∧ c.toLower.toUpper = c :=
    forall_ascii (p := fun c => isPlain c = true →
      isSpace c = false ∧ upperChar c = [c] ∧ c.toLower.toUpper = c) (by decide)
      (isAscii_of_isPlain h)
  exact key h

/-- A character with the lower case of a plain one is an ASCII character, and the plain one is its
upper case. Keywords are compared in lower case and kept in upper case, and here the two meet. -/
theorem upper_of_toLower {c d : Char} (hd : isPlain d = true) (h : c.toLower = d.toLower) :
    isAscii c = true ∧ c.toUpper = d ∧ upperChar c = [d] := by
  have hlower : isPlain d = true → isAscii d.toLower = true :=
    forall_ascii (p := fun d => isPlain d = true → isAscii d.toLower = true) (by decide)
      (isAscii_of_isPlain hd)
  have hascii : isAscii c = true := isAscii_of_toLower (h ▸ hlower hd)
  obtain ⟨htoUpper, hupperChar⟩ : c.toUpper = c.toLower.toUpper ∧ upperChar c = [c.toUpper] :=
    forall_ascii (p := fun c => c.toUpper = c.toLower.toUpper ∧ upperChar c = [c.toUpper])
      (by decide) hascii
  have hupper : c.toUpper = d := by rw [htoUpper, h, (isPlain_facts hd).2.2]
  exact ⟨hascii, hupper, hupper ▸ hupperChar⟩

/-! ### Words -/

/-- The characters of a plain word are plain. -/
theorem forall_isPlain {w : List Char} (h : isPlainWord w = true) : ∀ c ∈ w, isPlain c = true := by
  cases w with
  | nil => simp
  | cons c rest =>
      rw [isPlainWord, Bool.and_eq_true, List.all_eq_true] at h
      intro d hd
      rcases List.mem_cons.1 hd with rfl | hd
      · exact isPlain_of_startsPlain h.1
      · exact h.2 d hd

/-- A plain word is in upper case. None of its characters changes, whether or not it may stand at
the start of a word. -/
theorem upper_plain {w : List Char} (h : ∀ c ∈ w, isPlain c = true) : upper w = w := by
  induction w with
  | nil => rfl
  | cons c rest ih =>
      rw [upper, List.flatMap_cons, (isPlain_facts (h c (by simp))).2.1, ← upper,
        ih fun d hd => h d (by simp [hd])]
      rfl

/-- A plain word is in upper case, as a string. -/
theorem upperText_plain {w : String} (h : isPlainWord w.toList = true) : upperText w = w := by
  rw [upperText, upper_plain (forall_isPlain h), String.ofList_toList]

/-- Upper case undoes lower case on plain words. -/
theorem map_toUpper_map_toLower {w : List Char} (h : ∀ c ∈ w, isPlain c = true) :
    (w.map Char.toLower).map Char.toUpper = w := by
  rw [List.map_map]
  exact (List.map_congr_left fun c hc => (isPlain_facts (h c hc)).2.2).trans (List.map_id w)

/-- Two plain words that differ only in case are equal. Two keywords of a list that are not the same
therefore never match the same word. -/
theorem eqIgnoreCase_plain_iff {v w : String} (hv : isPlainWord v.toList = true)
    (hw : isPlainWord w.toList = true) : eqIgnoreCase v w = true ↔ v = w := by
  rw [eqIgnoreCase, beq_iff_eq]
  constructor
  · intro h
    have h' := congrArg (List.map Char.toUpper) h
    rw [map_toUpper_map_toLower (forall_isPlain hv), map_toUpper_map_toLower (forall_isPlain hw)]
      at h'
    exact String.toList_inj.1 h'
  · rintro rfl
    rfl

/-- Texts are equal without regard to case if their characters are. This is the form for inductions
along the two texts. -/
theorem eqIgnoreCase_iff_forall₂ {u w : String} : eqIgnoreCase u w = true ↔
    List.Forall₂ (fun c d => c.toLower = d.toLower) u.toList w.toList := by
  rw [eqIgnoreCase, beq_iff_eq, ← List.forall₂_eq_eq_eq, List.forall₂_map_left_iff,
    List.forall₂_map_right_iff]

/-- A plain word is the upper case of what equals it without regard to case. So a word that was
matched in any letter case has one spelling afterwards. -/
theorem upperText_of_eqIgnoreCase {u w : String} (hw : isPlainWord w.toList = true)
    (h : eqIgnoreCase u w = true) : upperText u = w := by
  have key {u w : List Char} (hw : ∀ d ∈ w, isPlain d = true)
      (h : List.Forall₂ (fun c d => c.toLower = d.toLower) u w) : upper u = w := by
    induction h with
    | nil => rfl
    | @cons c d u w hcd _ ih =>
        rw [upper, List.flatMap_cons, (upper_of_toLower (hw d (by simp)) hcd).2.2, ← upper,
          ih fun e he => hw e (by simp [he])]
        rfl
  rw [upperText, key (forall_isPlain hw) (eqIgnoreCase_iff_forall₂.1 h), String.ofList_toList]

/-- An ASCII text equals its upper case without regard to case. -/
theorem eqIgnoreCase_upperText {u : String} (h : ∀ c ∈ u.toList, isAscii c = true) :
    eqIgnoreCase u (upperText u) = true := by
  have key {u : List Char} (h : ∀ c ∈ u, isAscii c = true) :
      List.Forall₂ (fun c d => c.toLower = d.toLower) u (upper u) := by
    induction u with
    | nil => exact .nil
    | cons c u ih =>
        obtain ⟨hupper, hlower⟩ : upperChar c = [c.toUpper] ∧ c.toLower = c.toUpper.toLower :=
          forall_ascii (p := fun c => upperChar c = [c.toUpper] ∧ c.toLower = c.toUpper.toLower)
            (by decide) (h c (by simp))
        rw [upper, List.flatMap_cons, hupper, ← upper]
        exact .cons hlower (ih fun d hd => h d (by simp [hd]))
  rw [eqIgnoreCase_iff_forall₂, upperText, String.toList_ofList]
  exact key h

/-! ### Cutting -/

/-- Nothing is trimmed off a text without white space. -/
theorem trim_eq_self {s : List Char} (h : ∀ c ∈ s, isSpace c = false) : trim s = s := by
  have hdrop {t : List Char} (ht : ∀ c ∈ t, isSpace c = false) : t.dropWhile isSpace = t := by
    cases t with
    | nil => rfl
    | cons c rest => rw [List.dropWhile_cons, if_neg (by simp [ht c (by simp)])]
  rw [trim, trimStart, hdrop h, trimEnd, dropEndWhile,
    hdrop (fun c hc => h c (List.mem_reverse.1 hc)), List.reverse_reverse]

/-- Nothing is trimmed off a text whose first and last characters are no white space. -/
theorem trim_of_ends {c d : Char} (hc : isSpace c = false) (hd : isSpace d = false)
    (s : List Char) : trim (c :: (s ++ [d])) = c :: (s ++ [d]) := by
  have hreverse : (c :: (s ++ [d])).reverse = d :: (c :: s).reverse := by simp
  rw [trim, trimStart, List.dropWhile_cons_of_neg (by simp [hc]), trimEnd, dropEndWhile, hreverse,
    List.dropWhile_cons_of_neg (by simp [hd]), ← hreverse, List.reverse_reverse]

/-- A text is one piece up to the first separator. The rest is split on its own, so a text with many
separators is split by induction. -/
theorem splitWhere_append {p : Char → Bool} {s : List Char} (h : ∀ c ∈ s, p c = false)
    (d : Char) (hd : p d = true) (rest : List Char) :
    splitWhere p (s ++ d :: rest) = s :: splitWhere p rest := by
  induction s with
  | nil => simp [splitWhere, hd]
  | cons c s ih =>
      rw [List.cons_append, splitWhere, if_neg (by simp [h c (by simp)]),
        ih fun d hd => h d (by simp [hd])]

/-- A text without separators is one piece. -/
theorem splitWhere_eq_singleton {p : Char → Bool} {s : List Char} (h : ∀ c ∈ s, p c = false) :
    splitWhere p s = [s] := by
  induction s with
  | nil => rfl
  | cons c s ih =>
      rw [splitWhere, if_neg (by simp [h c (by simp)]), ih fun d hd => h d (by simp [hd])]

/-- A text without white space is one word. The empty text is left out, as it has no words at
all. -/
theorem words_eq_singleton {s : List Char} (hs : s ≠ []) (h : ∀ c ∈ s, isSpace c = false) :
    words s = [s] := by
  rw [words, splitWhere_eq_singleton h]
  cases s with
  | nil => exact absurd rfl hs
  | cons c rest => rfl

end EntityDiagram.Text
