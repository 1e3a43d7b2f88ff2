import EntityDiagram.Text.Pattern

/-!
# `EntityDiagram.Proofs.Text.Replacement`: what a replacement leaves

`Pattern.replaceAll` is a search, a list of matches and a substitution. This module describes its
result in two ways.

* A deletion leaves the characters that no match covers: `kept p s` says for each character of `s`
  whether it stays, and `select_kept` that these are what `replaceAll` leaves. `leave` tells what
  stays of each of the pieces that a text is cut into.
* A replacement goes through the text from the left: at each place it either keeps a character,
  because no match starts there, or replaces the preferred match. `Replaced` is that description
  and `replaced_replaceAll` says that it is right.

Both ask that a match ends no earlier than it starts, `Forward`, which the combinators of patterns
preserve.
-/

set_option autoImplicit false

namespace EntityDiagram.Text.Pattern

variable {α β : Type}

/-! ### Forward patterns -/

/-- Whether every match of the pattern ends at an end of the text at whose front it starts. A match
leaves what stands behind it untouched, and never goes back. -/
def Forward (p : Pattern α) : Prop := ∀ here, ∀ m ∈ p here, m.2.rest <:+ here.rest

namespace Forward

/-- A pattern that takes nothing ends where it starts. -/
theorem pure (a : α) : Forward (Pure.pure a : Pattern α) := by
  intro here m hm
  obtain rfl := List.mem_singleton.1 hm
  exact List.suffix_refl _

/-- A pattern goes on where the one before it has ended, so that both together lead forward. -/
theorem bind {p : Pattern α} {f : α → Pattern β} (hp : Forward p) (hf : ∀ a, Forward (f a)) :
    Forward (p >>= f) := by
  intro here m hm
  obtain ⟨n, hn, hm⟩ := List.mem_flatMap.1 hm
  exact (hf n.1 n.2 m hm).trans (hp here n hn)

/-- A character is taken from the front of the text, if it is of the kind. -/
theorem char (p : Char → Bool) : Forward (Pattern.char p) := by
  intro here m hm
  unfold Pattern.char at hm
  split at hm
  · cases hm
  · rename_i c rest hrest
    split at hm
    · obtain rfl := List.mem_singleton.1 hm
      rw [hrest]
      exact List.suffix_cons c rest
    · cases hm

/-- A run of characters ends at an end of the text. -/
theorem runEnds (p : Char → Bool) (before : Option Char) (s : List Char) :
    ∀ there ∈ Pattern.runEnds p before s, there.rest <:+ s := by
  induction s generalizing before with
  | nil =>
      intro there hthere
      obtain rfl := List.mem_singleton.1 hthere
      exact List.suffix_refl _
  | cons c s ih =>
      intro there hthere
      rcases List.mem_cons.1 hthere with rfl | hthere
      · exact List.suffix_refl _
      · split at hthere
        · exact (ih (some c) there hthere).trans (List.suffix_cons c s)
        · cases hthere

/-- As many characters as there are: each of the ends that are tried is an end of the text. -/
theorem many (p : Char → Bool) : Forward (Pattern.many p) := by
  intro here m hm
  obtain ⟨there, hthere, rfl⟩ := List.mem_map.1 hm
  exact runEnds p here.before here.rest there (List.mem_reverse.1 hthere)

/-- As few characters as are needed are tried at the same ends, in the other order. -/
theorem fewest (p : Char → Bool) : Forward (Pattern.fewest p) := by
  intro here m hm
  obtain ⟨there, hthere, rfl⟩ := List.mem_map.1 hm
  exact runEnds p here.before here.rest there hthere

/-- One character at least, and then as many as there are. -/
theorem some1 (p : Char → Bool) : Forward (Pattern.some1 p) := (char p).bind fun _ => many p

/-- Whichever of the patterns matches leads forward. -/
theorem oneOf {ps : List (Pattern α)} (h : ∀ p ∈ ps, Forward p) : Forward (Pattern.oneOf ps) := by
  intro here m hm
  obtain ⟨p, hp, hm⟩ := List.mem_flatMap.1 hm
  exact h p hp here m hm

/-- The stretch of a match has the same end as the match. -/
theorem span {p : Pattern α} (hp : Forward p) : Forward (Pattern.span p) := by
  intro here m hm
  obtain ⟨n, hn, rfl⟩ := List.mem_map.1 hm
  exact hp here n hn

/-- Where the pattern is left out, nothing is taken. -/
theorem optional {p : Pattern α} (hp : Forward p) : Forward (Pattern.optional p) := by
  intro here m hm
  rcases List.mem_append.1 hm with hm | hm
  · obtain ⟨n, hn, rfl⟩ := List.mem_map.1 hm
    exact hp here n hn
  · obtain rfl := List.mem_singleton.1 hm
    exact List.suffix_refl _

/-- A pattern in repetition leads forward as often as it is repeated, by induction on the fuel. Each
round starts where the one before it has ended. -/
theorem repeatUpTo {p : Pattern Unit} (hp : Forward p) (fuel : Nat) :
    Forward (Pattern.repeatUpTo p fuel) := by
  induction fuel with
  | zero => exact pure ()
  | succ fuel ih =>
      intro here m hm
      rcases List.mem_append.1 hm with hm | hm
      · obtain ⟨n, hn, hm⟩ := List.mem_flatMap.1 hm
        exact (ih n.2 m hm).trans (hp here n hn)
      · obtain rfl := List.mem_singleton.1 hm
        exact List.suffix_refl _

/-- A repetition has a character of fuel for each character of the text, which changes nothing about
where it leads. -/
theorem repeated {p : Pattern Unit} (hp : Forward p) : Forward (Pattern.repeated p) :=
  fun here => hp.repeatUpTo here.rest.length here

/-- A text is a pattern of its characters, one after the other. -/
theorem exactly (s : List Char) : Forward (Pattern.exactly s) := by
  induction s with
  | nil => exact pure ()
  | cons c s ih => exact (char _).bind fun _ => ih

/-- So is a text in any letter case. -/
theorem anyCase (s : List Char) : Forward (Pattern.anyCase s) := by
  induction s with
  | nil => exact pure ()
  | cons c s ih => exact (char _).bind fun _ => ih

/-- A word is taken in any letter case. -/
theorem word (w : String) : Forward (Pattern.word w) := anyCase w.toList

/-- White space may be missing, and then nothing is taken. -/
theorem spaces : Forward Pattern.spaces := many _

/-- White space that has to be there. -/
theorem spaces1 : Forward Pattern.spaces1 := some1 _

/-- A pattern that only tests the place. -/
theorem test (t : Place → Prop) [DecidablePred t] :
    Forward fun here => if t here then [((), here)] else [] := by
  intro here m hm
  dsimp only at hm
  split at hm
  · obtain rfl := List.mem_singleton.1 hm
    exact List.suffix_refl _
  · cases hm

/-- Whether a word begins or ends at a place is told without taking a character. -/
theorem boundary : Forward Pattern.boundary := test _

/-- Whether a place is the start of the text is told by what stands before it. -/
theorem textStart : Forward Pattern.textStart := test _

/-- The start of a line is told by the character before it. -/
theorem lineStart : Forward Pattern.lineStart := test _

/-- The end of a line is told by the character behind it, which is not taken. -/
theorem lineEnd : Forward Pattern.lineEnd := test _

end Forward

/-! ### Searching -/

/-- A search finds the preferred match at some place of the text. It is a match there like any
other; that it is the first one is said elsewhere. -/
theorem searchFrom_spec {p : Pattern α} {before : Option Char} {s : List Char} {found : Found α}
    (h : searchFrom p before s = some found) :
    found.start.rest <:+ s ∧ (found.value, found.stop) ∈ p found.start := by
  induction s generalizing before with
  | nil =>
      obtain ⟨m, hm, rfl⟩ := Option.map_eq_some_iff.1 h
      exact ⟨List.suffix_refl _, List.mem_of_mem_head? hm⟩
  | cons c s ih =>
      rw [searchFrom] at h
      split at h
      · rename_i m hm
        cases h
        exact ⟨List.suffix_refl _, List.mem_of_mem_head? hm⟩
      · obtain ⟨hstart, hstop⟩ := ih h
        exact ⟨hstart.trans (List.suffix_cons c s), hstop⟩

/-- Whether the matches follow each other after the place. Each starts at or behind the end of the
one before it, so that they do not overlap. -/
def Ordered : Place → List (Found α) → Prop
  | _, [] => True
  | here, found :: more =>
    found.start.rest <:+ here.rest ∧ found.stop.rest <:+ found.start.rest ∧ Ordered found.stop more

/-- The matches of a forward pattern follow each other. The search goes on from the end of each
match. -/
theorem ordered_matchesUpTo {p : Pattern α} (hp : Forward p) (fuel : Nat) (here : Place) :
    Ordered here (matchesUpTo p fuel here) := by
  induction fuel generalizing here with
  | zero => trivial
  | succ fuel ih =>
      rw [matchesUpTo]
      split
      · trivial
      · rename_i found hfound
        obtain ⟨hstart, hstop⟩ := searchFrom_spec hfound
        exact ⟨hstart, hp found.start _ hstop, ih found.stop⟩

/-- Each of them is a match, and starts in the text. -/
theorem mem_matchesUpTo {p : Pattern α} (hp : Forward p) {fuel : Nat} {here : Place}
    {found : Found α} (h : found ∈ matchesUpTo p fuel here) :
    found.start.rest <:+ here.rest ∧ (found.value, found.stop) ∈ p found.start := by
  induction fuel generalizing here with
  | zero => cases h
  | succ fuel ih =>
      rw [matchesUpTo] at h
      split at h
      · cases h
      · rename_i first hfirst
        obtain ⟨hstart, hmem⟩ := searchFrom_spec hfirst
        rcases List.mem_cons.1 h with rfl | h
        · exact ⟨hstart, hmem⟩
        · obtain ⟨hstart', hmem'⟩ := ih h
          exact ⟨hstart'.trans ((hp _ _ hmem).trans hstart), hmem'⟩

/-- A stretch and what follows it make the text from its start on. It is how a text is cut at the
matches in it. -/
theorem chars_append_rest {start stop : Place} (h : stop.rest <:+ start.rest) :
    (Span.mk start stop).chars ++ stop.rest = start.rest := by
  obtain ⟨s, hs⟩ := h
  rw [Span.chars, ← hs]
  simp

/-! ### Deletions -/

/-- The characters of a text that are marked as kept. There is a mark for each character. -/
def select : List Bool → List Char → List Char
  | true :: marks, c :: s => c :: select marks s
  | false :: marks, _ :: s => select marks s
  | _, _ => []

/-- For each character from the place on, whether none of the matches, which follow each other,
covers it. The marks say more than the text that is left: two texts may lose different characters
and be equal afterwards. -/
def keptFrom (here : Place) : List (Found α) → List Bool
  | [] => here.rest.map fun _ => true
  | found :: more =>
    ((Span.mk here found.start).chars.map fun _ => true) ++
      (((Span.mk found.start found.stop).chars.map fun _ => false) ++ keptFrom found.stop more)

/-- For each character of the text, whether no match of the pattern covers it. It is by these marks
that the parts of a text are followed through a deletion. -/
def kept (p : Pattern α) (s : List Char) : List Bool := keptFrom (.start s) (p.allMatches s)

/-- What stays of each of the pieces of a text. The marks are cut into stretches as long as the
pieces. -/
def leave : List Bool → List (List Char) → List (List Char)
  | _, [] => []
  | marks, piece :: more =>
    select (marks.take piece.length) piece :: leave (marks.drop piece.length) more

/-- What stays of a text is what stays of its two parts. -/
theorem select_append (marks : List Bool) (s t : List Char) :
    select marks (s ++ t) = select (marks.take s.length) s ++ select (marks.drop s.length) t := by
  induction s generalizing marks with
  | nil => simp [select]
  | cons c s ih =>
      cases marks with
      | nil => simp [select]
      | cons mark marks => cases mark <;> simp [select, ih]

/-- What stays of the pieces is what stays of the text. Cutting the text into pieces first makes no
difference. -/
theorem flatten_leave (marks : List Bool) (pieces : List (List Char)) :
    (leave marks pieces).flatten = select marks pieces.flatten := by
  induction pieces generalizing marks with
  | nil => simp [leave, select]
  | cons piece pieces ih =>
      rw [leave, List.flatten_cons, ih, List.flatten_cons, select_append]

/-- Marks keep what they mark. -/
theorem select_map_true (s : List Char) (marks : List Bool) (t : List Char) :
    select ((s.map fun _ => true) ++ marks) (s ++ t) = s ++ select marks t := by
  induction s with
  | nil => rfl
  | cons c s ih => exact congrArg (c :: ·) ih

/-- Marks drop what they do not mark. -/
theorem select_map_false (s : List Char) (marks : List Bool) (t : List Char) :
    select ((s.map fun _ => false) ++ marks) (s ++ t) = select marks t := by
  induction s with
  | nil => rfl
  | cons c s ih => exact ih

/-- Removing matches that follow each other leaves what none of them covers. -/
theorem select_keptFrom {here : Place} {found : List (Found α)} (h : Ordered here found) :
    select (keptFrom here found) here.rest = substitute [] here found := by
  -- On the matches: each cuts the text into what precedes it, itself and the rest.
  induction found generalizing here with
  | nil =>
      have h := select_map_true here.rest [] []
      simpa [keptFrom, substitute, select] using h
  | cons found more ih =>
      obtain ⟨hstart, hstop, hmore⟩ := h
      calc select (keptFrom here (found :: more)) here.rest
          = select (keptFrom here (found :: more)) ((Span.mk here found.start).chars ++
              ((Span.mk found.start found.stop).chars ++ found.stop.rest)) := by
            rw [chars_append_rest hstop, chars_append_rest hstart]
        _ = (Span.mk here found.start).chars ++
            select (keptFrom found.stop more) found.stop.rest := by
            rw [keptFrom, select_map_true, select_map_false]
        _ = substitute [] here (found :: more) := by
            rw [ih hmore, substitute, List.append_nil]

/-- Removing every match of a pattern leaves what no match covers. The program computes the text and
not the marks, so this ties the two together. -/
theorem select_kept {p : Pattern α} (hp : Forward p) (s : List Char) :
    select (p.kept s) s = p.replaceAll [] s :=
  select_keptFrom (ordered_matchesUpTo hp (s.length + 1) (.start s))

/-- Where every character is kept nothing is taken out of the pieces. -/
theorem leave_map_true (pieces : List (List Char)) :
    leave (pieces.flatten.map fun _ => true) pieces = pieces := by
  induction pieces with
  | nil => rfl
  -- The marks of the first piece are as many as its characters.
  | cons piece pieces ih =>
      have hselect : select (piece.map fun _ => true) piece = piece := by
        have h := select_map_true piece [] []
        simpa [select] using h
      have htake : ((piece ++ pieces.flatten).map fun _ => true).take piece.length =
          piece.map fun _ => true := by
        rw [List.map_append, List.take_left' (by simp)]
      have hdrop : ((piece ++ pieces.flatten).map fun _ => true).drop piece.length =
          pieces.flatten.map fun _ => true := by
        rw [List.map_append, List.drop_left' (by simp)]
      rw [List.flatten_cons, leave, htake, hselect, hdrop, ih]

/-! ### Words that a match holds -/

/-- Whether every match of the pattern holds the word, in some letter case. A text without the word
has no match then. -/
def Needs (w : String) (p : Pattern α) : Prop :=
  ∀ here, p here ≠ [] → ∃ there : Place, there.rest <:+ here.rest ∧ word w there ≠ []

namespace Needs

/-- A word holds itself. -/
theorem word (w : String) : Needs w (Pattern.word w) := fun here h =>
  ⟨here, List.suffix_refl _, h⟩

/-- What the first of two patterns holds, both hold. -/
theorem bind_left {w : String} {p : Pattern α} (hp : Needs w p) (f : α → Pattern β) :
    Needs w (p >>= f) := by
  intro here h
  refine hp here fun hnil => h ?_
  show (p here).flatMap _ = []
  rw [hnil]
  rfl

/-- What the second of two patterns holds stands behind the first one, but still in the text. -/
theorem bind_right {w : String} {p : Pattern α} {f : α → Pattern β} (hp : Forward p)
    (hf : ∀ a, Needs w (f a)) : Needs w (p >>= f) := by
  intro here h
  obtain ⟨m, hm⟩ := List.exists_mem_of_ne_nil _ h
  obtain ⟨n, hn, hm⟩ := List.mem_flatMap.1 hm
  obtain ⟨there, hthere, hword⟩ := hf n.1 n.2 (List.ne_nil_of_mem hm)
  exact ⟨there, hthere.trans (hp here n hn), hword⟩

end Needs

/-- Whether every match of the pattern starts in front of the character. The character may stand
anywhere behind the place. -/
def Meets (c : Char) (p : Pattern α) : Prop := ∀ here, ∀ m ∈ p here, c ∈ here.rest

namespace Meets

variable {c : Char}

/-- A character that is taken stands in the text. -/
theorem char : Meets c (Pattern.char (· == c)) := by
  intro here m hm
  unfold Pattern.char at hm
  split at hm
  · cases hm
  · rename_i d rest hrest
    split at hm
    · rename_i hd
      rw [hrest, ← beq_iff_eq.1 hd]
      exact List.mem_cons_self
    · cases hm

/-- What the first of two patterns meets, both meet. -/
theorem bind_left {p : Pattern α} (hp : Meets c p) (f : α → Pattern β) : Meets c (p >>= f) := by
  intro here m hm
  obtain ⟨n, hn, -⟩ := List.mem_flatMap.1 hm
  exact hp here n hn

/-- What the second of two patterns meets stands in what the first one leaves. -/
theorem bind_right {p : Pattern α} {f : α → Pattern β} (hp : Forward p) (hf : ∀ a, Meets c (f a)) :
    Meets c (p >>= f) := by
  intro here m hm
  obtain ⟨n, hn, hm⟩ := List.mem_flatMap.1 hm
  exact (hp here n hn).subset (hf n.1 n.2 m hm)

/-- The pattern is not found where the character does not occur. -/
theorem find?_eq_none {p : Pattern α} (hp : Meets c p) {s : List Char} (h : c ∉ s) :
    p.find? s = none := by
  rw [find?, Option.map_eq_none_iff]
  cases hfound : p.search (.start s) with
  | none => rfl
  | some found =>
      obtain ⟨hstart, hmatch⟩ := searchFrom_spec hfound
      exact absurd (hstart.subset (hp _ _ hmatch)) h

end Meets

/-- A search that finds nothing has tried every place. What stands before that place depends on
where the search started. -/
theorem eq_nil_of_searchFrom {p : Pattern α} {before : Option Char} {s : List Char}
    (h : searchFrom p before s = none) {z : List Char} (hz : z <:+ s) :
    ∃ before, p ⟨before, z⟩ = [] := by
  induction s generalizing before with
  | nil =>
      obtain rfl := List.suffix_nil.1 hz
      exact ⟨before, List.head?_eq_none_iff.1 (Option.map_eq_none_iff.1 h)⟩
  | cons c s ih =>
      rw [searchFrom] at h
      split at h
      · cases h
      · rename_i hnone
        rcases List.suffix_cons_iff.1 hz with rfl | hz
        · exact ⟨before, List.head?_eq_none_iff.1 hnone⟩
        · exact ih h hz

/-- Whether a word matches does not depend on the character before it. -/
theorem word_eq_nil_of {w : String} {before before' : Option Char} {s : List Char}
    (h : word w ⟨before, s⟩ = []) : word w ⟨before', s⟩ = [] := by
  unfold word at h ⊢
  cases hw : w.toList with
  | nil =>
      rw [hw] at h
      cases h
  | cons c cs =>
      rw [hw] at h
      exact h

/-- A pattern matches nowhere in a text that does not mention a word of its matches. Nothing is
deleted from such a text. -/
theorem kept_of_needs {w : String} {p : Pattern α} (hp : Needs w p) {s : List Char}
    (h : (word w).occursIn s = false) : p.kept s = s.map fun _ => true := by
  have hword : searchFrom (word w) none s = none :=
    Option.isNone_iff_eq_none.1 (Option.isSome_eq_false_iff.1 h)
  -- A match would hold the word, and the search for the word has tried that place too.
  have hsearch : p.search (.start s) = none := by
    cases hfound : searchFrom p none s with
    | none => exact hfound
    | some found =>
        obtain ⟨hstart, hmatch⟩ := searchFrom_spec hfound
        obtain ⟨there, hthere, hne⟩ := hp found.start (List.ne_nil_of_mem hmatch)
        obtain ⟨before, hnil⟩ := eq_nil_of_searchFrom hword (hthere.trans hstart)
        exact absurd (word_eq_nil_of hnil) hne
  have hmatches : p.allMatches s = [] := by
    rw [allMatches, matchesUpTo, hsearch]
  rw [kept, hmatches, keptFrom, Place.start]

/-! ### Replacements from the left -/

/-- The text `s`, from a place on, with every match of the pattern replaced: a character is kept
where no match starts, and the preferred match is replaced where there is one. This is the deletion
as one reads it, without fuel and without a list of matches. -/
inductive Replaced (p : Pattern α) (new : List Char) : Place → List Char → Prop where
  | done {before : Option Char} : Replaced p new ⟨before, []⟩ []
  | keep {before : Option Char} {c : Char} {rest s : List Char} (h : p ⟨before, c :: rest⟩ = [])
      (hrest : Replaced p new ⟨some c, rest⟩ s) : Replaced p new ⟨before, c :: rest⟩ (c :: s)
  | replace {here : Place} {m : α × Place} {s : List Char} (h : (p here).head? = some m)
      (hrest : Replaced p new m.2 s) : Replaced p new here (new ++ s)

/-- Whether every match of the pattern consumes a character. A search for all matches goes on behind
each of them, so a match of nothing would stop it. -/
def Consuming (p : Pattern α) : Prop := ∀ here, ∀ m ∈ p here, m.2.rest.length < here.rest.length

/-- A pattern that starts with a character consumes it. -/
theorem Consuming.char_bind (q : Char → Bool) {f : Unit → Pattern β} (hf : ∀ a, Forward (f a)) :
    Consuming (Pattern.char q >>= f) := by
  intro here m hm
  obtain ⟨n, hn, hm⟩ := List.mem_flatMap.1 hm
  have hlength := (hf n.1 n.2 m hm).length_le
  unfold Pattern.char at hn
  split at hn
  · cases hn
  · rename_i c rest hrest
    split at hn
    · obtain rfl := List.mem_singleton.1 hn
      rw [hrest, List.length_cons]
      exact Nat.lt_succ_of_le hlength
    · cases hn

/-- A run of at least one character consumes it. -/
theorem Consuming.some1 (q : Char → Bool) : Consuming (Pattern.some1 q) :=
  .char_bind q fun _ => .many q

/-- Recording the stretch of a match changes nothing about this. -/
theorem Consuming.span {p : Pattern α} (hp : Consuming p) : Consuming (Pattern.span p) := by
  intro here m hm
  obtain ⟨n, hn, rfl⟩ := List.mem_map.1 hm
  exact hp here n hn

/-- What stands in front in a sequence consumes a character whatever follows. -/
theorem Consuming.bind_left {p : Pattern α} {f : α → Pattern β} (hp : Consuming p)
    (hf : ∀ a, Forward (f a)) : Consuming (p >>= f) := by
  intro here m hm
  obtain ⟨n, hn, hm⟩ := List.mem_flatMap.1 hm
  exact Nat.lt_of_le_of_lt (hf n.1 n.2 m hm).length_le (hp here n hn)

/-- What follows in a sequence consumes a character whatever stands in front. -/
theorem Consuming.bind_right {p : Pattern α} {f : α → Pattern β} (hp : Forward p)
    (hf : ∀ a, Consuming (f a)) : Consuming (p >>= f) := by
  intro here m hm
  obtain ⟨n, hn, hm⟩ := List.mem_flatMap.1 hm
  exact Nat.lt_of_lt_of_le (hf n.1 n.2 m hm) (hp here n hn).length_le

/-- A word consumes its characters. -/
theorem Consuming.word {w : String} (hne : w.toList ≠ []) : Consuming (Pattern.word w) := by
  obtain ⟨c, rest, hw⟩ := List.exists_cons_of_ne_nil hne
  rw [Pattern.word, hw]
  exact .char_bind _ fun _ => .anyCase rest

/-- What starts with a word goes forward, and not without consuming a character. -/
theorem forward_and_consuming {w : String} (hne : w.toList ≠ []) {f : Unit → Pattern β}
    (hf : ∀ a, Forward (f a)) :
    Forward (Pattern.word w >>= f) ∧ Consuming (Pattern.word w >>= f) :=
  ⟨(Forward.word w).bind hf, (Consuming.word hne).bind_left hf⟩

/-- A text is replaced in one way only. A kept character has no match at it, so that at each place
only one rule applies. -/
theorem Replaced.unique {p : Pattern α} (hp : Consuming p) {new : List Char} {here : Place}
    {s t : List Char} (hs : Replaced p new here s) (ht : Replaced p new here t) : s = t := by
  -- At the end of a text no match takes a character.
  have hend (before : Option Char) {m : α × Place} (h : (p ⟨before, []⟩).head? = some m) : False :=
    absurd (hp _ m (List.mem_of_mem_head? h)) (Nat.not_lt_zero _)
  -- On the first of the two, with the rules of the other one at the same place.
  induction hs generalizing t with
  | done =>
      cases ht with
      | done => rfl
      | replace h _ => exact (hend _ h).elim
  | keep hnone _ ih =>
      cases ht with
      | keep _ hrest => rw [ih hrest]
      | replace h _ =>
          rw [hnone] at h
          cases h
  | replace h _ ih =>
      cases ht with
      | done => exact (hend _ h).elim
      | keep hnone _ =>
          rw [hnone] at h
          cases h
      | replace h' hrest =>
          obtain rfl := Option.some.inj (h.symm.trans h')
          rw [ih hrest]

/-- A character in front of the first match is kept. -/
theorem substitute_cons (new : List Char) (before : Option Char) (c : Char) (rest : List Char)
    {found : List (Found α)} (h : ∀ f ∈ found.head?, f.start.rest <:+ rest) :
    substitute new ⟨before, c :: rest⟩ found = c :: substitute new ⟨some c, rest⟩ found := by
  cases found with
  | nil => rfl
  | cons f more =>
      have hlength := (h f rfl).length_le
      have htake : (c :: rest).length - f.start.rest.length =
          rest.length - f.start.rest.length + 1 := by
        rw [List.length_cons]
        omega
      rw [substitute, substitute, Span.chars, Span.chars, htake]
      rfl

/-- A search goes on behind a character at which no match starts. -/
theorem matchesUpTo_cons {p : Pattern α} {before : Option Char} {c : Char} {rest : List Char}
    (h : p ⟨before, c :: rest⟩ = []) (fuel : Nat) :
    matchesUpTo p fuel ⟨before, c :: rest⟩ = matchesUpTo p fuel ⟨some c, rest⟩ := by
  cases fuel with
  | zero => rfl
  | succ fuel =>
      have hsearch : p.search ⟨before, c :: rest⟩ = p.search ⟨some c, rest⟩ := by
        rw [search, search]
        show searchFrom p before (c :: rest) = searchFrom p (some c) rest
        rw [searchFrom, h]
        rfl
      rw [matchesUpTo, matchesUpTo, hsearch]

/-- The first match that is found starts in the text. So it cannot start before the place where the
search does. -/
theorem start_suffix_of_mem_head? {p : Pattern α} {fuel : Nat} {here : Place} {found : Found α}
    (h : found ∈ (matchesUpTo p fuel here).head?) : found.start.rest <:+ here.rest := by
  cases fuel with
  | zero => cases h
  | succ fuel =>
      rw [matchesUpTo] at h
      split at h
      · cases h
      · rename_i first hfirst
        cases h
        exact (searchFrom_spec hfirst).1

/-- Substituting the matches that a search finds goes through the text from the left. The fuel has
to be larger than the length of the text. -/
theorem replaced_substitute {p : Pattern α} (hp : Consuming p) (new : List Char) (fuel : Nat)
    (here : Place) (hfuel : here.rest.length < fuel) :
    Replaced p new here (substitute new here (matchesUpTo p fuel here)) := by
  -- On the length of the text and not on the fuel, since a kept character costs no fuel.
  induction hn : here.rest.length using Nat.strongRecOn generalizing here fuel with
  | _ n ih =>
      obtain ⟨before, s⟩ := here
      obtain ⟨fuel, rfl⟩ := Nat.exists_eq_succ_of_ne_zero (Nat.ne_of_gt (Nat.zero_lt_of_lt hfuel))
      cases hmatch : (p ⟨before, s⟩).head? with
      -- A match starts here, so the search stops here and nothing precedes the match.
      | some m =>
          have hmem := hp _ m (List.mem_of_mem_head? hmatch)
          have hfound : matchesUpTo p (fuel + 1) ⟨before, s⟩ =
              ⟨⟨before, s⟩, m.1, m.2⟩ :: matchesUpTo p fuel m.2 := by
            have hsearch : p.search ⟨before, s⟩ = some ⟨⟨before, s⟩, m.1, m.2⟩ := by
              cases s <;> simp [search, searchFrom, hmatch]
            rw [matchesUpTo, hsearch]
          have hrest := ih m.2.rest.length (hn ▸ hmem) fuel m.2
            (Nat.lt_of_lt_of_le hmem (Nat.le_of_lt_succ hfuel)) rfl
          have hempty : (Span.mk ⟨before, s⟩ ⟨before, s⟩).chars = [] := by simp [Span.chars]
          rw [hfound, substitute, hempty]
          exact .replace hmatch hrest
      | none =>
          have hnone : p ⟨before, s⟩ = [] := List.head?_eq_none_iff.1 hmatch
          -- No match starts here: the search goes on behind this character.
          cases s with
          | nil =>
              have hfound : matchesUpTo p (fuel + 1) ⟨before, []⟩ = [] := by
                simp [matchesUpTo, search, searchFrom, hnone]
              rw [hfound]
              exact .done
          | cons c rest =>
              have hstart : ∀ f ∈ (matchesUpTo p (fuel + 1) ⟨some c, rest⟩).head?,
                  f.start.rest <:+ rest := fun f hf => start_suffix_of_mem_head? hf
              rw [matchesUpTo_cons hnone, substitute_cons new before c rest hstart]
              refine .keep hnone (ih rest.length ?_ (fuel + 1) ⟨some c, rest⟩ ?_ rfl)
              · rw [← hn]
                exact Nat.lt_succ_self _
              · exact Nat.lt_of_succ_lt hfuel

/-- Replacing every match of a pattern goes through the text from the left. Together with
`Replaced.unique` this describes the replacement completely. -/
theorem replaced_replaceAll {p : Pattern α} (hp : Consuming p) (new s : List Char) :
    Replaced p new (.start s) (p.replaceAll new s) :=
  replaced_substitute hp new (s.length + 1) (.start s) (Nat.lt_succ_self _)

end EntityDiagram.Text.Pattern
