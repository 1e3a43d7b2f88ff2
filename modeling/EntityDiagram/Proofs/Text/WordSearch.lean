import EntityDiagram.Proofs.Text.FirstMatch
import EntityDiagram.Proofs.Text.Space

/-!
# `EntityDiagram.Proofs.Text.WordSearch`: where a search for a word can succeed

A pattern reads its words in any letter case, and a search tries it at every character of a text.
Most of these places are ruled out by the word alone.

* `First.word`, `Fails.word`: a word is read where it stands, and not where another one stands.
* `Keyed ws p`: the pattern `p` only matches at the start of a run of word characters that spells
  one of the words `ws`. Then a search steps over white space (`searchFrom_spaces`), over any
  other word (`Keyed.searchFrom_run`) and over any text that holds none of the words
  (`Keyed.searchFrom_append`) at once.
* `NeedsSpace p`: white space has to follow that run. Then a search steps over quoted names, even
  over those that hold the word (`NeedsSpace.searchFrom_append`).
* `Anchored p`: the pattern `p` only matches at the start of a text, so a search is no more than a
  match there (`Anchored.search_eq_none`).
-/

set_option autoImplicit false

namespace EntityDiagram.Text.Pattern

variable {α β : Type}

/-! ### Letters -/

/-- What starts a plain word is a character of a word and folds to itself. -/
theorem startsPlain_facts {c : Char} (h : startsPlain c = true) :
    isWordChar c = true ∧ foldsTo c c = true := by
  have key : startsPlain c = true → isWordChar c = true ∧ foldsTo c c = true :=
    forall_ascii (p := fun c => startsPlain c = true → isWordChar c = true ∧ foldsTo c c = true)
      (by decide) (isAscii_of_isPlain (isPlain_of_startsPlain h))
  exact key h

/-- A character that folds to a letter is a character of a word. The two letters outside of ASCII
that fold to one of its letters are checked by themselves. -/
theorem isWordChar_of_foldsTo {l c : Char} (hl : startsPlain l = true)
    (h : foldsTo l c = true) : isWordChar c = true := by
  simp only [foldsTo, Bool.or_eq_true, Bool.and_eq_true, beq_iff_eq] at h
  rcases h with (h | ⟨-, rfl⟩) | ⟨-, rfl⟩
  · by_cases hlower : 'a' ≤ c ∧ c ≤ 'z'
    · -- A lower-case letter is a letter.
      have hlt : c.toNat < 128 :=
        Nat.lt_of_le_of_lt (Char.le_def.1 hlower.2) (by decide)
      have hascii : isAscii c = true := by simpa [isAscii] using hlt
      simp [isWordChar, hascii, isAsciiLetter, hlower]
    · have hsame : c.toUpper = c := by
        simp only [Char.le_def] at hlower
        exact dif_neg (by simpa using hlower)
      rw [hsame] at h
      rw [h]
      exact (startsPlain_facts hl).1
  · decide +kernel
  · decide +kernel

/-- A plain character only folds to itself. It is in upper case already. -/
theorem eq_of_foldsTo {l c : Char} (hc : isPlain c = true) (h : foldsTo l c = true) : l = c := by
  have key : isPlain c = true → c.toUpper = c ∧ c ≠ 'ſ' ∧ c ≠ '\u212A' :=
    forall_ascii (p := fun c => isPlain c = true → c.toUpper = c ∧ c ≠ 'ſ' ∧ c ≠ '\u212A')
      (by decide) (isAscii_of_isPlain hc)
  obtain ⟨hupper, hs, hk⟩ := key hc
  simp only [foldsTo, Bool.or_eq_true, Bool.and_eq_true, beq_iff_eq, hupper, hs, hk, and_false,
    or_false] at h
  exact h.symm

/-- A character folds to what a plain one of its lower case folds to. So words that are equal
without regard to case are matched by the same patterns. -/
theorem foldsTo_of_toLower {l c d : Char} (hd : isPlain d = true) (h : c.toLower = d.toLower) :
    foldsTo l c = foldsTo l d := by
  obtain ⟨hascii, hupper, -⟩ := upper_of_toLower hd h
  have other {e : Char} (he : isAscii e = true) : (e == 'ſ') = false ∧ (e == '\u212A') = false :=
    forall_ascii (p := fun e => (e == 'ſ') = false ∧ (e == '\u212A') = false) (by decide) he
  obtain ⟨hs, hk⟩ := other hascii
  obtain ⟨hs', hk'⟩ := other (isAscii_of_isPlain hd)
  rw [foldsTo, foldsTo, hupper, (upper_of_toLower hd rfl).2.1, hs, hk, hs', hk']

/-! ### Words -/

/-- Whether two words differ within the shorter of them, case aside. Words of which one is a front
of the other do not clash. The test runs, so clashes in the lists of keywords are decided. -/
def clashes : List Char → List Char → Bool
  | l :: w, c :: v => !foldsTo l c || clashes w v
  | _, _ => false

/-- The text `u` is the word `w` in some letter case. The letters are compared one by one, so both
have the same length. -/
def Spells (w u : List Char) : Prop := List.Forall₂ (fun l c => foldsTo l c = true) w u

/-- The word `w` stands in the text on its own, in some letter case. On its own means that no
character of a word stands next to it. The ends of the text are as good as such a character. -/
def HoldsWord (w : String) (s : List Char) : Prop :=
  ∃ u r v, s = u ++ (r ++ v) ∧ Spells w.toList r ∧ (∀ c ∈ u.getLast?, isWordChar c = false) ∧
    ∀ c ∈ v.head?, isWordChar c = false

/-- A word matches a text that spells it, and nothing else. There is one match at most. -/
theorem mem_anyCase {w : List Char} {before : Option Char} {s : List Char} {m : Unit × Place}
    (h : m ∈ anyCase w ⟨before, s⟩) :
    ∃ u v, s = u ++ v ∧ Spells w u ∧ m = ((), ⟨after before u, v⟩) := by
  induction w generalizing before s with
  | nil => exact ⟨[], s, rfl, .nil, List.mem_singleton.1 h⟩
  | cons l w ih =>
      obtain ⟨n, hn, hm⟩ := List.mem_flatMap.1 h
      cases s with
      | nil => cases hn
      | cons c s =>
          -- The first letter decides whether there is a match here at all.
          by_cases hc : foldsTo l c = true
          · rw [char_of hc] at hn
            obtain rfl := List.mem_singleton.1 hn
            obtain ⟨u, v, rfl, hu, rfl⟩ := ih hm
            exact ⟨c :: u, v, rfl, .cons hc hu, by rw [after_cons]⟩
          · have hfails : char (foldsTo l) ⟨before, c :: s⟩ = [] := if_neg hc
            rw [hfails] at hn
            cases hn

/-- Where a word spells a text, the text consists of characters of a word. Nothing but a letter or
an underscore folds to one of these. -/
theorem Spells.isWordChar {w u : List Char} (h : Spells w u) (hw : w.all startsPlain = true) :
    ∀ c ∈ u, isWordChar c = true := by
  induction h with
  | nil => simp
  | cons hc _ ih =>
      rw [List.all_cons, Bool.and_eq_true] at hw
      intro d hd
      rcases List.mem_cons.1 hd with rfl | hd
      · exact isWordChar_of_foldsTo hw.1 hc
      · exact ih hw.2 d hd

/-- A plain text spells only itself. -/
theorem Spells.eq {w u : List Char} (h : Spells w u) (hu : ∀ c ∈ u, isPlain c = true) :
    w = u := by
  induction h with
  | nil => rfl
  | cons hc _ ih =>
      rw [eq_of_foldsTo (hu _ (by simp)) hc, ih fun d hd => hu d (by simp [hd])]

/-- No word spells a text that it clashes with. They differ at some place, whatever the letter case
is. -/
theorem not_spells_of_clashes {w u : List Char} (h : clashes w u = true) : ¬Spells w u := by
  intro hspells
  induction hspells with
  | nil => cases h
  | cons hc _ ih =>
      rw [clashes, hc, Bool.not_true, Bool.false_or] at h
      exact ih h

/-- A word is read off a text that spells it. What stands behind it does not matter, as a word is
read without a look at the next character. -/
theorem First.word_of_spells {w : String} {u : List Char} (h : Spells w.toList u)
    (before : Option Char) (t : List Char) :
    First (Pattern.word w) ⟨before, u ++ t⟩ () ⟨after before u, t⟩ := by
  have key {w u : List Char} (h : Spells w u) (before : Option Char) :
      First (anyCase w) ⟨before, u ++ t⟩ () ⟨after before u, t⟩ := by
    induction h generalizing before with
    | nil => rfl
    | @cons l c w u hlc _ ih =>
        rw [after_cons]
        exact (First.of_singleton (char_of hlc before (u ++ t))).bind (ih (some c))
  exact key h before

/-- A word is read where it stands. -/
theorem First.word {w : String} (hw : w.toList.all startsPlain = true) (before : Option Char)
    (t : List Char) :
    First (word w) ⟨before, w.toList ++ t⟩ () ⟨after before w.toList, t⟩ :=
  First.word_of_spells (List.forall₂_same.2 fun c hc =>
    (startsPlain_facts (List.all_eq_true.1 hw c hc)).2) before t

/-- A word is not read where a text stands that clashes with it. The text behind `v` cannot make up
for the difference. -/
theorem Fails.word {w : String} {v : List Char} (h : clashes w.toList v = true)
    (before : Option Char) (t : List Char) : Fails (Pattern.word w) ⟨before, v ++ t⟩ := by
  have key {w v : List Char} (h : clashes w v = true) (before : Option Char) :
      Fails (anyCase w) ⟨before, v ++ t⟩ := by
    induction w generalizing v before with
    | nil => simp [clashes] at h
    | cons l w ih =>
        cases v with
        | nil => simp [clashes] at h
        | cons c v =>
            by_cases hc : foldsTo l c = true
            · rw [clashes, hc, Bool.not_true, Bool.false_or] at h
              exact Fails.bind_right (char_of hc before (v ++ t)) (ih h (some c))
            · exact Fails.bind_left (if_neg hc)
  exact key h before

/-- Behind a word that stands there, a sequence fails with its rest. -/
theorem Fails.word_bind {w : String} {f : Unit → Pattern α} {before : Option Char}
    {t : List Char} (h : Fails (f ()) ⟨after before w.toList, t⟩) :
    Fails (Pattern.word w >>= f) ⟨before, w.toList ++ t⟩ := by
  refine Fails.bind fun m hm => ?_
  obtain ⟨u, v, huv, hu, rfl⟩ := mem_anyCase hm
  obtain ⟨rfl, rfl⟩ := List.append_inj huv hu.length_eq
  exact h

/-- A word takes characters of words. -/
theorem Takes.word {w : String} (hw : w.toList.all startsPlain = true) :
    Takes isWordChar (Pattern.word w) := by
  have key {w : List Char} (hw : ∀ l ∈ w, startsPlain l = true) : Takes isWordChar (anyCase w) := by
    induction w with
    | nil => exact Takes.pure ()
    | cons l w ih =>
        exact (Takes.char fun c hc => isWordChar_of_foldsTo (hw l (by simp)) hc).bind fun _ =>
          ih fun d hd => hw d (by simp [hd])
  exact key (List.all_eq_true.1 hw)

/-- A word is not read where none starts. Symbols, white space and the end of a text are such
places. -/
theorem Fails.word_of_head {w : String} (hw : w.toList.all startsPlain = true)
    (hne : w.toList ≠ []) {s : List Char} (hs : ∀ c ∈ s.head?, isWordChar c = false)
    (before : Option Char) : Fails (Pattern.word w) ⟨before, s⟩ := by
  refine List.eq_nil_iff_forall_not_mem.2 fun m hm => ?_
  obtain ⟨u, v, rfl, hu, -⟩ := mem_anyCase hm
  cases u with
  | nil => exact hne (List.forall₂_nil_right_iff.1 hu)
  | cons c u =>
      have hc := hu.isWordChar hw c (by simp)
      rw [hs c rfl] at hc
      cases hc

/-- A word is not read where white space stands. -/
theorem Fails.word_space {w : String} (hw : w.toList.all startsPlain = true)
    (hne : w.toList ≠ []) {c : Char} (hc : isSpace c = true) (before : Option Char)
    (s : List Char) : Fails (Pattern.word w) ⟨before, c :: s⟩ :=
  Fails.word_of_head hw hne (by simpa using isWordChar_of_isSpace hc) before

/-- None of the words is read where a text stands that clashes with all of them. Each clash is
decided by itself, so that this can be used for long lists of words. -/
theorem Fails.oneOf_words {ws : List String} {v : List Char}
    (h : ∀ w ∈ ws, clashes w.toList v = true) (before : Option Char) (t : List Char) :
    Fails (Pattern.oneOf (ws.map Pattern.word)) ⟨before, v ++ t⟩ := by
  refine Fails.oneOf fun p hp => ?_
  obtain ⟨w, hw, rfl⟩ := List.mem_map.1 hp
  exact Fails.word (h w hw) before t

/-- None of the words is read at white space or at the end of the text. A word begins with a
letter. -/
theorem Fails.oneOf_words_of_head {ws : List String}
    (h : ∀ w ∈ ws, w.toList.all startsPlain = true ∧ w.toList ≠ []) {s : List Char}
    (hs : ∀ c ∈ s.head?, isSpace c = true) (before : Option Char) :
    Fails (Pattern.oneOf (ws.map Pattern.word)) ⟨before, s⟩ := by
  refine Fails.oneOf fun p hp => ?_
  obtain ⟨w, hw, rfl⟩ := List.mem_map.1 hp
  exact Fails.word_of_head (h w hw).1 (h w hw).2
    (fun c hc => isWordChar_of_isSpace (hs c hc)) before

/-! ### Letter case -/

/-- What equals a word without regard to case spells it. The two ways to compare agree where the
word is plain. -/
theorem spells_of_eqIgnoreCase {u w : String} (hw : w.toList.all startsPlain = true)
    (h : eqIgnoreCase u w = true) : Spells w.toList u.toList := by
  have key {u w : List Char} (hw : ∀ d ∈ w, startsPlain d = true)
      (h : List.Forall₂ (fun c d => c.toLower = d.toLower) u w) : Spells w u := by
    induction h with
    | nil => exact .nil
    | @cons c d u w hcd _ ih =>
        have hd := hw d (by simp)
        have hfolds := foldsTo_of_toLower (l := d) (isPlain_of_startsPlain hd) hcd
        exact .cons (hfolds.trans (startsPlain_facts hd).2) (ih fun e he => hw e (by simp [he]))
  exact key (List.all_eq_true.1 hw) (eqIgnoreCase_iff_forall₂.1 h)

/-- It clashes with what the word clashes with. -/
theorem clashes_of_eqIgnoreCase {u w : String} (hw : w.toList.all startsPlain = true)
    (h : eqIgnoreCase u w = true) (v : List Char) : clashes v u.toList = clashes v w.toList := by
  have key {u w : List Char} (hw : ∀ d ∈ w, startsPlain d = true)
      (h : List.Forall₂ (fun c d => c.toLower = d.toLower) u w) (v : List Char) :
      clashes v u = clashes v w := by
    induction h generalizing v with
    | nil => rfl
    | @cons c d u w hcd _ ih =>
        cases v with
        | nil => rfl
        | cons l v =>
            rw [clashes, clashes, ih (fun e he => hw e (by simp [he])),
              foldsTo_of_toLower (isPlain_of_startsPlain (hw d (by simp))) hcd]
  exact key (List.all_eq_true.1 hw) (eqIgnoreCase_iff_forall₂.1 h) v

/-- An ASCII text that spells a word equals it without regard to case. Outside of ASCII they differ:
some characters fold to a letter without having its lower case. -/
theorem eqIgnoreCase_of_spells {u w : String} (hu : ∀ c ∈ u.toList, isAscii c = true)
    (h : Spells w.toList u.toList) :
    eqIgnoreCase u w = true := by
  have key {u w : List Char} (hu : ∀ c ∈ u, isAscii c = true) (h : Spells w u) :
      List.Forall₂ (fun c d => c.toLower = d.toLower) u w := by
    induction h with
    | nil => exact .nil
    | @cons l c w u hlc _ ih =>
        refine .cons ?_ (ih fun e he => hu e (by simp [he]))
        -- The two letters outside of ASCII that fold to ASCII ones are excluded by the hypothesis.
        obtain ⟨hs, hk, hlower⟩ : (c == 'ſ') = false ∧ (c == '\u212A') = false ∧
            c.toLower = c.toUpper.toLower :=
          forall_ascii (p := fun c => (c == 'ſ') = false ∧ (c == '\u212A') = false ∧
            c.toLower = c.toUpper.toLower) (by decide) (hu c (by simp))
        have hupper : c.toUpper = l := by simpa [foldsTo, hs, hk] using hlc
        rw [hlower, hupper]
  exact eqIgnoreCase_iff_forall₂.2 (key hu h)

/-! ### White space -/

/-- White space is read as a whole. -/
theorem First.spaces {g t : List Char} (hg : ∀ c ∈ g, isSpace c = true)
    (ht : ∀ c ∈ t.head?, isSpace c = false) (before : Option Char) :
    First spaces ⟨before, g ++ t⟩ () ⟨after before g, t⟩ := First.many hg ht before

/-- White space is read as a whole. -/
theorem First.spaces1 {g t : List Char} (hne : g ≠ []) (hg : ∀ c ∈ g, isSpace c = true)
    (ht : ∀ c ∈ t.head?, isSpace c = false) (before : Option Char) :
    First spaces1 ⟨before, g ++ t⟩ () ⟨after before g, t⟩ := First.some1 hne hg ht before

/-- Behind a run of word characters, no word goes on. It is stated for the first character because
that is all a pattern can see. -/
theorem head?_dropWhile_word (s : List Char) :
    ∀ c ∈ (s.dropWhile isWordChar).head?, isWordChar c = false := by
  intro c hc
  have hnot := List.head?_dropWhile_not isWordChar s
  rw [Option.mem_def.1 hc] at hnot
  simpa using hnot

/-- Two words with white space between them are not read where the first white space stands before a
symbol. The first word may stand in `r` or not. What comes behind it is never white space and then a
second word. -/
theorem Fails.word_spaces1_word {w v : String} (hw : w.toList.all startsPlain = true)
    (hv : v.toList.all startsPlain = true) (hne : v.toList ≠ []) (f : Unit → Pattern α)
    {r g t : List Char} (hr : ∀ c ∈ r, isSpace c = false) (hg : ∀ c ∈ g, isSpace c = true)
    (ht : ∀ c ∈ t.head?, isSpace c = false ∧ isWordChar c = false) (before : Option Char) :
    Fails (Pattern.word w >>= fun _ => Pattern.spaces1 >>= fun _ => Pattern.word v >>= f)
      ⟨before, r ++ (g ++ t)⟩ := by
  -- White space is followed by something that starts no word.
  have hgap (before : Option Char) :
      Fails (Pattern.spaces1 >>= fun _ => Pattern.word v >>= f) ⟨before, g ++ t⟩ := by
    refine (Takes.some1 fun _ h => h).fails_bind hg (fun c hc => (ht c hc).1)
      (fun _ _ c s hc => ?_) fun _ => ?_
    · exact Fails.bind_left (Fails.word_space hv hne hc _ _)
    · exact Fails.bind_left (Fails.word_of_head hv hne (fun c hc => (ht c hc).2) _)
  -- And in front of anything else there is no white space to read.
  have hother {c : Char} (hc : isSpace c = false) (before : Option Char) (s : List Char) :
      Fails (Pattern.spaces1 >>= fun _ => Pattern.word v >>= f) ⟨before, c :: s⟩ :=
    Fails.bind_left (Fails.some1 (by simpa using hc))
  -- The first word ends within its run of word characters, and there or behind it stands white
  -- space, or the gap.
  have hsplit : r ++ (g ++ t) =
      r.takeWhile isWordChar ++ (r.dropWhile isWordChar ++ (g ++ t)) := by
    rw [← List.append_assoc (r.takeWhile isWordChar), List.takeWhile_append_dropWhile]
  rw [hsplit]
  refine (Takes.word hw).fails_bind (fun c hc => List.mem_takeWhile_imp hc) ?_
    (fun _ _ c s hc => ?_) fun _ => ?_
  · have hend := head?_dropWhile_word r
    cases hdrop : r.dropWhile isWordChar with
    | nil =>
        cases g with
        | nil => exact fun c hc => (ht c hc).2
        | cons d g =>
            rintro c ⟨⟩
            exact isWordChar_of_isSpace (hg d (by simp))
    | cons d rest =>
        rw [hdrop] at hend
        exact hend
  · refine hother ?_ _ _
    rw [Bool.eq_false_iff]
    intro hspace
    rw [isWordChar_of_isSpace hspace] at hc
    cases hc
  · cases hdrop : r.dropWhile isWordChar with
    | nil => exact hgap _
    | cons d rest =>
        exact hother
          (hr d ((List.dropWhile_sublist isWordChar).mem (hdrop ▸ List.mem_cons_self))) _ _

/-! ### Searches -/

/-- A search ends where the pattern matches. The place at which it starts is the first one that is
tried. -/
theorem searchFrom_of_first {p : Pattern α} {before : Option Char} {s : List Char} {a : α}
    {stop : Place} (h : First p ⟨before, s⟩ a stop) :
    searchFrom p before s = some ⟨⟨before, s⟩, a, stop⟩ := by
  cases s with
  | nil => rw [searchFrom, show (p ⟨before, []⟩).head? = _ from h]; rfl
  | cons c s => rw [searchFrom, show (p ⟨before, c :: s⟩).head? = _ from h]

/-- A search ends where the pattern matches. -/
theorem search_of_first {p : Pattern α} {here stop : Place} {a : α} (h : First p here a stop) :
    p.search here = some ⟨here, a, stop⟩ := searchFrom_of_first h

/-- A search goes on where the pattern fails. -/
theorem searchFrom_of_fails {p : Pattern α} {before : Option Char} {c : Char} {s : List Char}
    (h : Fails p ⟨before, c :: s⟩) : searchFrom p before (c :: s) = searchFrom p (some c) s := by
  rw [searchFrom, show p ⟨before, c :: s⟩ = [] from h]
  rfl

/-- A search ends without a match at the end of the text. -/
theorem searchFrom_nil {p : Pattern α} {before : Option Char} (h : Fails p ⟨before, []⟩) :
    searchFrom p before [] = none := by
  rw [searchFrom, show p ⟨before, []⟩ = [] from h]
  rfl

/-- A search steps over a text at whose characters nothing matches. The condition is on all ends of
that text, with what follows behind them. -/
theorem searchFrom_append_of_fails {p : Pattern α} {s t : List Char}
    (h : ∀ z, z ≠ [] → z <:+ s → ∀ before, Fails p ⟨before, z ++ t⟩) (before : Option Char) :
    searchFrom p before (s ++ t) = searchFrom p (after before s) t := by
  induction s generalizing before with
  | nil => rfl
  | cons c s ih =>
      have hhere : Fails p ⟨before, c :: (s ++ t)⟩ :=
        h (c :: s) (by simp) (List.suffix_refl _) before
      rw [List.cons_append, searchFrom_of_fails hhere,
        ih fun z hne hz => h z hne (hz.trans (List.suffix_cons _ _)), after_cons]

/-- A search finds nothing in a text at whose ends the pattern fails. The empty end is among them,
where a pattern that takes nothing could still match. -/
theorem searchFrom_eq_none {p : Pattern α} {s : List Char}
    (h : ∀ t, t <:+ s → ∀ before, Fails p ⟨before, t⟩) (before : Option Char) :
    searchFrom p before s = none := by
  induction s generalizing before with
  | nil => exact searchFrom_nil (h [] (List.suffix_refl _) before)
  | cons c s ih =>
      rw [searchFrom_of_fails (h _ (List.suffix_refl _) before)]
      exact ih (fun t ht => h t (ht.trans (List.suffix_cons _ _))) (some c)

/-- A pattern that is found nowhere in a text fails at its start. -/
theorem fails_of_occursIn {p : Pattern α} {s : List Char} (h : p.occursIn s = false) :
    Fails p (.start s) := by
  rw [occursIn, Option.isSome_eq_false_iff, Option.isNone_iff_eq_none] at h
  cases hhead : (p (.start s)).head? with
  | none => exact List.head?_eq_none_iff.1 hhead
  | some m =>
      have hfirst : First p (.start s) m.1 m.2 := hhead
      rw [search_of_first hfirst] at h
      cases h

/-- What a search finds has the value that is found. Where it was found is forgotten. -/
theorem find?_of_searchFrom {p : Pattern α} {s : List Char} {found : Found α}
    (h : searchFrom p none s = some found) : p.find? s = some found.value := by
  rw [find?, search]
  exact congrArg (Option.map (·.value)) h

/-- A pattern that matches at the start of a text is found there. -/
theorem find?_of_first {p : Pattern α} {s : List Char} {a : α} {stop : Place}
    (h : First p (.start s) a stop) : p.find? s = some a :=
  find?_of_searchFrom (searchFrom_of_first h)

/-- Whether the pattern only matches at the start of a text. There is a character in front of every
other place. -/
def Anchored (p : Pattern α) : Prop := ∀ c s, Fails p ⟨some c, s⟩

/-- A pattern that begins with the start of the text is anchored. -/
theorem Anchored.textStart_bind (f : Unit → Pattern α) : Anchored (textStart >>= f) :=
  fun c s => (Fails.textStart c s).bind_left

/-- A sequence is anchored by its first part. -/
theorem Anchored.bind {p : Pattern α} (hp : Anchored p) (f : α → Pattern β) :
    Anchored (p >>= f) := fun c s => (hp c s).bind_left

/-- An anchored pattern is not found if it fails at the start. -/
theorem Anchored.search_eq_none {p : Pattern α} (hp : Anchored p) {s : List Char}
    (h : Fails p (.start s)) : p.search (.start s) = none := by
  have key (c : Char) (s : List Char) : searchFrom p (some c) s = none := by
    induction s generalizing c with
    | nil => exact searchFrom_nil (hp c [])
    | cons d s ih => rw [searchFrom_of_fails (hp c (d :: s)), ih d]
  cases s with
  | nil => exact searchFrom_nil h
  | cons c s => exact (searchFrom_of_fails h).trans (key c s)

/-- An anchored pattern is not found if it fails at the start. There is only one place to try. -/
theorem Anchored.find?_eq_none {p : Pattern α} (hp : Anchored p) {s : List Char}
    (h : Fails p (.start s)) : p.find? s = none := by
  rw [find?, hp.search_eq_none h]
  rfl

/-! ### Keyed patterns -/

/-- Whether the pattern only matches at the start of a word, and this word is one of `ws`. Such
patterns step over words as a whole, which makes searches for them easy to follow. -/
def Keyed (ws : List String) (p : Pattern α) : Prop :=
  ∀ before s, ∀ m ∈ p ⟨before, s⟩, (∀ c ∈ before, isWordChar c = false) ∧
    (∃ c ∈ s.head?, isWordChar c = true) ∧ ∃ w ∈ ws, Spells w.toList (s.takeWhile isWordChar)

/-- Whether white space follows the word at which the pattern matches. A word with a parenthesis or
the end of the text behind it is no place for such a pattern then. -/
def NeedsSpace (p : Pattern α) : Prop :=
  ∀ before s, ∀ m ∈ p ⟨before, s⟩, ∃ c ∈ (s.dropWhile isWordChar).head?, isSpace c = true

/-- Whether the pattern only matches where a word ends. It is what has to follow a word that a
pattern reads, so that the word is not the front of a longer one. -/
def EndsWord (p : Pattern α) : Prop :=
  ∀ before s, (∃ c ∈ before, isWordChar c = true) → ∀ m ∈ p ⟨before, s⟩,
    ∀ c ∈ s.head?, isWordChar c = false

/-- Whether the pattern only matches at white space. -/
def StartsSpace (p : Pattern α) : Prop :=
  ∀ before s, ∀ m ∈ p ⟨before, s⟩, ∃ c ∈ s.head?, isSpace c = true

/-- A sequence that begins with white space only matches there. -/
theorem StartsSpace.spaces1_bind (f : Unit → Pattern α) : StartsSpace (spaces1 >>= f) := by
  intro before s m hm
  obtain ⟨n, hn, -⟩ := List.mem_flatMap.1 hm
  obtain ⟨u, v, rfl, hne, hu, -⟩ := mem_some1 hn
  cases u with
  | nil => exact absurd rfl hne
  | cons c u => exact ⟨c, rfl, hu c (by simp)⟩

/-- A word ends at white space. -/
theorem StartsSpace.endsWord {p : Pattern α} (h : StartsSpace p) : EndsWord p := by
  intro before s _ m hm c hc
  obtain ⟨d, hd, hspace⟩ := h before s m hm
  obtain rfl := Option.mem_unique hc hd
  exact isWordChar_of_isSpace hspace

/-- A word ends at a boundary. -/
theorem EndsWord.boundary : EndsWord Pattern.boundary := by
  rintro before s ⟨d, hd, hword⟩ m hm c hc
  have hne := (mem_boundary hm).2
  rw [Option.mem_def.1 hd, Option.mem_def.1 hc, Option.map_some, Option.map_some,
    Option.getD_some, Option.getD_some, hword] at hne
  simpa using hne.symm

/-- A sequence matches where its first part does. -/
theorem EndsWord.bind {p : Pattern α} (hp : EndsWord p) (f : α → Pattern β) :
    EndsWord (p >>= f) := by
  intro before s hbefore m hm
  obtain ⟨n, hn, -⟩ := List.mem_flatMap.1 hm
  exact hp before s hbefore n hn

/-- Nothing in front changes where a sequence matches. -/
theorem EndsWord.pure_bind {a : β} {f : β → Pattern α} (hf : EndsWord (f a)) :
    EndsWord (Pure.pure a >>= f) := by
  intro before s hbefore m hm
  obtain ⟨n, hn, hm⟩ := List.mem_flatMap.1 hm
  obtain rfl := List.mem_singleton.1 hn
  exact hf before s hbefore m hm

/-- A word ends where a character follows that is none of a word. -/
theorem EndsWord.char_bind {q : Char → Bool} (hq : ∀ c, q c = true → isWordChar c = false)
    (f : Unit → Pattern α) : EndsWord (char q >>= f) := by
  intro before s _ m hm c hc
  obtain ⟨n, hn, -⟩ := List.mem_flatMap.1 hm
  obtain ⟨t, rfl⟩ := List.head?_eq_some_iff.1 hc
  by_cases hqc : q c = true
  · exact hq c hqc
  · rw [show char q ⟨before, c :: t⟩ = [] from if_neg hqc] at hn
    cases hn

/-- White space may stand between a word and where it has to have ended. -/
theorem EndsWord.spaces_bind {f : Unit → Pattern α} (hf : EndsWord (f ())) :
    EndsWord (spaces >>= f) := by
  intro before s hbefore m hm
  obtain ⟨n, hn, hm⟩ := List.mem_flatMap.1 hm
  obtain ⟨u, v, rfl, hu, rfl⟩ := mem_many hn
  cases u with
  | nil => exact hf before v hbefore m hm
  | cons d u =>
      intro c hc
      obtain rfl := Option.some.inj hc
      exact isWordChar_of_isSpace (hu d (by simp))

/-- A match of a word on its own, up to its end. What is known of it is all that the three parts
tell: the spelling, both ends, and the match of the rest. -/
theorem mem_boundary_word {w : String} (hw : w.toList.all startsPlain = true)
    (hne : w.toList ≠ []) {f : Unit → Pattern α} {before : Option Char} {s : List Char}
    {m : α × Place} (hm : m ∈ (boundary >>= fun _ => word w >>= f) ⟨before, s⟩) :
    ∃ u v, s = u ++ v ∧ Spells w.toList u ∧ (∀ c ∈ before, isWordChar c = false) ∧
      (∃ c ∈ u.getLast?, isWordChar c = true) ∧ m ∈ f () ⟨after before u, v⟩ := by
  obtain ⟨n, hn, hm⟩ := List.mem_flatMap.1 hm
  obtain ⟨rfl, hside⟩ := mem_boundary hn
  obtain ⟨n, hn, hm⟩ := List.mem_flatMap.1 hm
  obtain ⟨u, v, rfl, hu, rfl⟩ := mem_anyCase hn
  have hword := hu.isWordChar hw
  have hune : u ≠ [] := by
    rintro rfl
    exact hne (List.forall₂_nil_right_iff.1 hu)
  refine ⟨u, v, rfl, hu, fun c hc => ?_, ?_, hm⟩
  · -- The word starts with a character of a word, so there is none before it.
    cases u with
    | nil => exact absurd rfl hune
    | cons d u =>
        rw [Option.mem_def.1 hc] at hside
        simpa [hword d (by simp)] using hside
  · exact ⟨u.getLast hune, List.getLast?_eq_some_getLast hune, hword _ (List.getLast_mem hune)⟩

/-- A word on its own does not match where no character of a word stands. It is the first letter
that would be missing. -/
theorem Fails.boundary_word {w : String} (hw : w.toList.all startsPlain = true)
    (hne : w.toList ≠ []) (f : Unit → Pattern α) {s : List Char}
    (hs : ∀ c ∈ s.head?, isWordChar c = false) (before : Option Char) :
    Fails (Pattern.boundary >>= fun _ => Pattern.word w >>= f) ⟨before, s⟩ := by
  refine List.eq_nil_iff_forall_not_mem.2 fun m hm => ?_
  obtain ⟨u, v, rfl, hu, -, -, -⟩ := mem_boundary_word hw hne hm
  cases u with
  | nil => exact hne (List.forall₂_nil_right_iff.1 hu)
  | cons c u =>
      have hc := hu.isWordChar hw c (by simp)
      rw [hs c rfl] at hc
      cases hc

/-- A run of word characters is taken up to its end. Here `u` is the run, and `v` cannot go on with
it. -/
theorem takeWhile_dropWhile_run {u v : List Char} (hu : ∀ c ∈ u, isWordChar c = true)
    (hv : ∀ c ∈ v.head?, isWordChar c = false) :
    (u ++ v).takeWhile isWordChar = u ∧ (u ++ v).dropWhile isWordChar = v := by
  rw [List.takeWhile_append_of_pos hu, List.dropWhile_append_of_pos hu]
  cases v with
  | nil => simp
  | cons c v => simp [hv c rfl]

/-- A run of word characters at the start of a text is not continued by what follows the text. -/
theorem takeWhile_append_of_head (s : List Char) {t : List Char}
    (ht : ∀ c ∈ t.head?, isWordChar c = false) :
    (s ++ t).takeWhile isWordChar = s.takeWhile isWordChar := by
  induction s with
  | nil =>
      cases t with
      | nil => rfl
      | cons c t => simp [ht c rfl]
  | cons c s ih =>
      rw [List.cons_append, List.takeWhile_cons, List.takeWhile_cons, ih]

/-- A word that has to end makes a pattern keyed. The boundary in front gives the start of the word,
and what follows gives its end. -/
theorem Keyed.of_word {w : String} (hw : w.toList.all startsPlain = true) (hne : w.toList ≠ [])
    {f : Unit → Pattern α} (hf : EndsWord (f ())) :
    Keyed [w] (boundary >>= fun _ => word w >>= f) := by
  intro before s m hm
  obtain ⟨u, v, rfl, hu, hbefore, ⟨c, hc, hlast⟩, hm⟩ := mem_boundary_word hw hne hm
  have hword := hu.isWordChar hw
  have hend : ∀ c ∈ v.head?, isWordChar c = false :=
    hf _ v ⟨c, by rw [after, Option.mem_def.1 hc]; rfl, hlast⟩ m hm
  refine ⟨hbefore, ?_, w, List.mem_singleton_self w, ?_⟩
  · cases u with
    | nil => cases hc
    | cons d u => exact ⟨d, rfl, hword d (by simp)⟩
  · rw [(takeWhile_dropWhile_run hword hend).1]
    exact hu

/-- White space that has to follow a word follows the run at which the pattern matches. -/
theorem NeedsSpace.of_word {w : String} (hw : w.toList.all startsPlain = true)
    (hne : w.toList ≠ []) {f : Unit → Pattern α} (hf : StartsSpace (f ())) :
    NeedsSpace (boundary >>= fun _ => word w >>= f) := by
  intro before s m hm
  obtain ⟨u, v, rfl, hu, -, -, hm⟩ := mem_boundary_word hw hne hm
  obtain ⟨c, hc, hspace⟩ := hf _ v m hm
  have hend : ∀ d ∈ v.head?, isWordChar d = false := by
    intro d hd
    obtain rfl := Option.mem_unique hd hc
    exact isWordChar_of_isSpace hspace
  rw [(takeWhile_dropWhile_run (hu.isWordChar hw) hend).2]
  exact ⟨c, hc, hspace⟩

/-- Alternatives that are keyed are keyed by all their words. Each may be keyed by a word of its
own. -/
theorem Keyed.oneOf {ws : List String} {ps : List (Pattern α)}
    (h : ∀ p ∈ ps, Keyed ws p) : Keyed ws (Pattern.oneOf ps) := by
  intro before s m hm
  obtain ⟨p, hp, hm⟩ := List.mem_flatMap.1 hm
  exact h p hp before s m hm

/-- More words only allow more. -/
theorem Keyed.mono {ws ws' : List String} {p : Pattern α} (h : Keyed ws p) (hws : ws ⊆ ws') :
    Keyed ws' p := by
  intro before s m hm
  obtain ⟨hbefore, hhead, w, hw, hspells⟩ := h before s m hm
  exact ⟨hbefore, hhead, w, hws hw, hspells⟩

namespace Keyed

variable {ws : List String} {p : Pattern α}

/-- Nothing matches where no word starts. -/
theorem fails_of_head (hp : Keyed ws p) {s : List Char}
    (hs : ∀ c ∈ s.head?, isWordChar c = false) (before : Option Char) :
    Fails p ⟨before, s⟩ := by
  refine List.eq_nil_iff_forall_not_mem.2 fun m hm => ?_
  obtain ⟨-, ⟨c, hc, hword⟩, -⟩ := hp before s m hm
  rw [hs c hc] at hword
  cases hword

/-- Nothing matches inside a word. -/
theorem fails_of_before (hp : Keyed ws p) {d : Char} (hd : isWordChar d = true)
    (s : List Char) : Fails p ⟨some d, s⟩ := by
  refine List.eq_nil_iff_forall_not_mem.2 fun m hm => ?_
  rw [(hp _ s m hm).1 d rfl] at hd
  cases hd

/-- A search steps over white space. -/
theorem searchFrom_spaces (hp : Keyed ws p) {g : List Char} (hg : ∀ c ∈ g, isSpace c = true)
    (before : Option Char) (t : List Char) :
    searchFrom p before (g ++ t) = searchFrom p (after before g) t := by
  induction g generalizing before with
  | nil => rfl
  | cons c g ih =>
      have hfails : Fails p ⟨before, c :: (g ++ t)⟩ :=
        hp.fails_of_head (by simp [isWordChar_of_isSpace (hg c (by simp))]) before
      rw [List.cons_append, searchFrom_of_fails hfails, ih fun d hd => hg d (by simp [hd]),
        after_cons]

/-- A search steps over a run of word characters that spells none of the words. It fails in front of
the run, since that is none of its words, and everywhere inside of it. -/
theorem searchFrom_word (hp : Keyed ws p) {r t : List Char} (hr : ∀ c ∈ r, isWordChar c = true)
    (ht : ∀ c ∈ t.head?, isWordChar c = false) (hws : ∀ w ∈ ws, ¬Spells w.toList r)
    (before : Option Char) :
    searchFrom p before (r ++ t) = searchFrom p (after before r) t := by
  -- Behind the first character the search is inside the word.
  have inside {r : List Char} (hr : ∀ c ∈ r, isWordChar c = true) {d : Char}
      (hd : isWordChar d = true) :
      searchFrom p (some d) (r ++ t) = searchFrom p (after (some d) r) t := by
    induction r generalizing d with
    | nil => rfl
    | cons c r ih =>
        rw [List.cons_append, searchFrom_of_fails (hp.fails_of_before hd _),
          ih (fun e he => hr e (by simp [he])) (hr c (by simp)), after_cons]
  cases r with
  | nil => rfl
  | cons c r =>
      have hfails : Fails p ⟨before, c :: (r ++ t)⟩ := by
        refine List.eq_nil_iff_forall_not_mem.2 fun m hm => ?_
        obtain ⟨-, -, w, hw, hspells⟩ := hp before _ m hm
        rw [← List.cons_append, (takeWhile_dropWhile_run hr ht).1] at hspells
        exact hws w hw hspells
      rw [List.cons_append, searchFrom_of_fails hfails,
        inside (fun d hd => hr d (by simp [hd])) (hr c (by simp)), after_cons]

/-- A search steps over any other word. For plain words to spell is to be equal, so that the
condition can be decided. -/
theorem searchFrom_run (hp : Keyed ws p) {r t : List Char}
    (hr : ∀ c ∈ r, isPlain c = true ∧ isWordChar c = true)
    (ht : ∀ c ∈ t.head?, isWordChar c = false) (hws : ∀ w ∈ ws, w.toList ≠ r)
    (before : Option Char) :
    searchFrom p before (r ++ t) = searchFrom p (after before r) t :=
  hp.searchFrom_word (fun c hc => (hr c hc).2) ht
    (fun w hw hspells => hws w hw (hspells.eq fun c hc => (hr c hc).1)) before

/-- A search steps over a character that is none of a word. -/
theorem searchFrom_cons (hp : Keyed ws p) {c : Char} (hc : isWordChar c = false)
    (before : Option Char) (s : List Char) :
    searchFrom p before (c :: s) = searchFrom p (some c) s :=
  searchFrom_of_fails (hp.fails_of_head (by simp [hc]) before)

/-- A search steps over a text that ends with a word and holds none of the words. The last word of
the text may not go on behind it. -/
theorem searchFrom_append (hp : Keyed ws p) {s t : List Char} (hs : ∀ w ∈ ws, ¬HoldsWord w s)
    (ht : ∀ c ∈ t.head?, isWordChar c = false) (before : Option Char) :
    searchFrom p before (s ++ t) = searchFrom p (after before s) t := by
  -- Over what is left of the text, behind the part `u` that the search has passed already.
  have key (u : List Char) (hu : ∀ w ∈ ws, ¬HoldsWord w (u ++ s)) :
      searchFrom p (after before u) (s ++ t) = searchFrom p (after before (u ++ s)) t := by
    clear hs
    induction s generalizing u with
    | nil => simp
    | cons c s ih =>
        have hfails : Fails p ⟨after before u, (c :: s) ++ t⟩ := by
          refine List.eq_nil_iff_forall_not_mem.2 fun m hm => ?_
          obtain ⟨hbefore, -, w, hw, hspells⟩ := hp _ _ m hm
          rw [takeWhile_append_of_head (c :: s) ht] at hspells
          refine hu w hw ⟨u, (c :: s).takeWhile isWordChar, (c :: s).dropWhile isWordChar,
            by rw [List.takeWhile_append_dropWhile], hspells, fun d hd => ?_,
            head?_dropWhile_word _⟩
          exact hbefore d (by rw [after, Option.mem_def.1 hd]; rfl)
        rw [List.cons_append] at hfails ⊢
        rw [searchFrom_of_fails hfails]
        have hih := ih (u ++ [c]) (by simpa using hu)
        rw [after_append, after_cons, after_nil] at hih
        rw [hih, List.append_assoc]
        rfl
  exact key [] hs

/-- A search ends without a match at the end of the text. -/
theorem searchFrom_nil (hp : Keyed ws p) (before : Option Char) :
    searchFrom p before [] = none :=
  Pattern.searchFrom_nil (hp.fails_of_head (by simp) before)

end Keyed

/-- A search steps over a text in which no run of word characters has white space behind it. The
part of a key between parentheses is such a text. -/
theorem NeedsSpace.searchFrom_append {p : Pattern α} (hp : NeedsSpace p) {u t : List Char}
    (hu : ∀ c ∈ u, isSpace c = false) {last : Char} (hlast : isWordChar last = false)
    (hspace : isSpace last = false) (before : Option Char) :
    searchFrom p before (u ++ last :: t) = searchFrom p (some last) t := by
  -- The run ends at the last character, or before it at another one that is no white space.
  have hend {v : List Char} (hv : ∀ c ∈ v, isSpace c = false) :
      ∀ c ∈ ((v ++ last :: t).dropWhile isWordChar).head?, isSpace c = false := by
    induction v with
    | nil => simp [hlast, hspace]
    | cons c v ih =>
        by_cases hc : isWordChar c = true
        · rw [List.cons_append, List.dropWhile_cons_of_pos hc]
          exact ih fun d hd => hv d (by simp [hd])
        · rw [List.cons_append, List.dropWhile_cons_of_neg hc]
          simp [hv c (by simp)]
  -- So nothing matches where the run at the place ends like that.
  have hfails {s : List Char} (hs : ∀ c ∈ (s.dropWhile isWordChar).head?, isSpace c = false)
      (before : Option Char) : Fails p ⟨before, s⟩ := by
    refine List.eq_nil_iff_forall_not_mem.2 fun m hm => ?_
    obtain ⟨c, hc, hcspace⟩ := hp before _ m hm
    rw [hs c hc] at hcspace
    cases hcspace
  induction u generalizing before with
  | nil => exact searchFrom_of_fails (hfails (hend hu) before)
  | cons c u ih =>
      have hhere : Fails p ⟨before, c :: (u ++ last :: t)⟩ := hfails (hend hu) before
      rw [List.cons_append, searchFrom_of_fails hhere, ih fun d hd => hu d (by simp [hd])]

end EntityDiagram.Text.Pattern
