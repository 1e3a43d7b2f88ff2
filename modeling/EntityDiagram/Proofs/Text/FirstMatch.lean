import EntityDiagram.Proofs.Text.PlainWord
import EntityDiagram.Text.Pattern
import Mathlib.Data.List.Forall2

/-!
# `EntityDiagram.Proofs.Text.FirstMatch`: the preferred match of a pattern

A pattern lists every way to match at a place, but a search only takes the first one. Where each
part of a sequence matches in its preferred way and the rest goes on from there, the first match of
the whole is found without looking at any other way: `First.bind`. To know that a pattern does not
match, all ways count: `Fails.bind`.

* `First`, `Fails`: the preferred match at a place, and that there is none.
* `First.many`, `First.span`, `First.optional`, …: the combinators.
* `Takes q p`: matches of `p` take only characters that satisfy `q`. What follows them and fails at
  such characters fails unless the match is as long as it can be: `Takes.fails_bind`.

The combinators are lists of matches, in the order of preference, so that a match could also be
found by computing the list. For a text with variables in it this is not possible, and would take
too long for one without; the lemmas here follow a pattern along the text instead, one part at a
time. Where a part takes as many characters as it can, the match that goes on from there is the
first one unless the rest fails, and then shorter matches are tried: `Takes.fails_bind` says when
none of those can help.
-/

set_option autoImplicit false

namespace EntityDiagram.Text.Pattern

variable {α β : Type}

/-! ### Sequences -/

/-- The character before the end of the text `s` that follows `before`. A pattern can look at one
character behind it, so this is all that has to be known of a text that has been read. -/
def after (before : Option Char) (s : List Char) : Option Char := s.getLast?.or before

/-- Before nothing stands what stood before. -/
@[simp] theorem after_nil (before : Option Char) : after before [] = before := rfl

/-- The first character of a text comes before the others. -/
@[simp] theorem after_cons (before : Option Char) (c : Char) (s : List Char) :
    after before (c :: s) = after (some c) s := by
  cases s with
  | nil => rfl
  | cons d s => simp [after, List.getLast?_cons]

/-- What stands before the end of two texts stands before the end of the second, read behind the
first. -/
@[simp] theorem after_append (before : Option Char) (s t : List Char) :
    after before (s ++ t) = after (after before s) t := by
  induction s generalizing before with
  | nil => rfl
  | cons c s ih => rw [List.cons_append, after_cons, ih, after_cons]

/-- The preferred match of the pattern at a place. Matches are listed from the preferred one on, and
a search takes no other. -/
def First (p : Pattern α) (here : Place) (a : α) (there : Place) : Prop :=
  (p here).head? = some (a, there)

/-- The pattern does not match at the place. Nothing that could come later makes it match then, as
there is no match to fall back on. -/
def Fails (p : Pattern α) (here : Place) : Prop := p here = []

/-- A pattern that takes nothing matches where it starts, and first there. -/
theorem First.pure (a : α) (here : Place) : First (Pure.pure a : Pattern α) here a here := rfl

/-- A sequence prefers the preferred match of its first part, if the rest goes on from there. If the
rest cannot go on, an earlier part may still give up some of what it took; see `First.bind_iff`. -/
theorem First.bind {p : Pattern α} {f : α → Pattern β} {here there stop : Place} {a : α} {b : β}
    (hp : First p here a there) (hf : First (f a) there b stop) :
    First (p >>= f) here b stop := by
  obtain ⟨more, hmore⟩ := List.head?_eq_some_iff.1 hp
  have heq : (p >>= f) here = f a there ++ more.flatMap fun m => f m.1 m.2 := by
    show (p here).flatMap _ = _
    rw [hmore, List.flatMap_cons]
  obtain ⟨rest, hrest⟩ := List.head?_eq_some_iff.1 hf
  rw [First, heq, hrest]
  rfl

/-- The preferred match of a sequence goes on behind the first match of its first part that can. The
matches before that one are those that were tried in vain. -/
theorem First.bind_iff {p : Pattern α} {f : α → Pattern β} {here stop : Place} {b : β} :
    First (p >>= f) here b stop ↔ ∃ ms m more, p here = ms ++ m :: more ∧
      First (f m.1) m.2 b stop ∧ ∀ n ∈ ms, Fails (f n.1) n.2 := by
  show ((p here).flatMap fun m => f m.1 m.2).head? = _ ↔ _
  rw [List.head?_flatMap, List.findSome?_eq_some_iff]
  simp only [List.head?_eq_none_iff]
  rfl

/-- A sequence fails if no match of its first part can go on. All of them have to be looked at,
since the pattern would fall back on the next one. -/
theorem Fails.bind {p : Pattern α} {f : α → Pattern β} {here : Place}
    (h : ∀ m ∈ p here, Fails (f m.1) m.2) : Fails (p >>= f) here :=
  List.flatMap_eq_nil_iff.2 h

/-- A sequence fails with its first part. -/
theorem Fails.bind_left {p : Pattern α} {f : α → Pattern β} {here : Place} (h : Fails p here) :
    Fails (p >>= f) here :=
  Fails.bind fun m hm => by rw [h] at hm; cases hm

/-- Behind a first part that matches in one way, a sequence fails with its rest. This is the case of
words and of single characters. -/
theorem Fails.bind_right {p : Pattern α} {f : α → Pattern β} {here there : Place} {a : α}
    (hp : p here = [(a, there)]) (hf : Fails (f a) there) : Fails (p >>= f) here :=
  Fails.bind fun m hm => by
    rw [hp] at hm
    obtain rfl := List.mem_singleton.1 hm
    exact hf

/-- Nothing in front changes where a sequence fails. -/
theorem Fails.pure_bind {a : α} {f : α → Pattern β} {here : Place} (h : Fails (f a) here) :
    Fails (Pure.pure a >>= f) here := Fails.bind_right rfl h

/-- Nothing in front changes what a sequence matches. -/
theorem pure_bind (a : α) (f : α → Pattern β) : Pure.pure a >>= f = f a :=
  funext fun _ => List.append_nil _

/-- A sequence may be grouped in either way. -/
theorem bind_bind {γ : Type} (p : Pattern α) (f : α → Pattern β) (g : β → Pattern γ) :
    p >>= f >>= g = p >>= fun a => f a >>= g := funext fun _ => List.flatMap_assoc

/-- A sequence may be grouped in either way. Patterns are written as one long sequence, while lemmas
on their parts speak of groups. -/
theorem Fails.bind_assoc {γ : Type} {p : Pattern α} {f : α → Pattern β} {g : β → Pattern γ}
    {here : Place} (h : Fails (p >>= fun a => f a >>= g) here) : Fails (p >>= f >>= g) here :=
  List.flatMap_assoc.trans h

/-- A part that matches in one way only is preferred to. There is nothing to choose. -/
theorem First.of_singleton {p : Pattern α} {here there : Place} {a : α}
    (h : p here = [(a, there)]) : First p here a there := by
  rw [First, h]
  rfl

/-! ### Characters and runs -/

/-- A character that satisfies the condition. -/
theorem char_of {p : Char → Bool} {c : Char} (h : p c = true) (before : Option Char)
    (s : List Char) : char p ⟨before, c :: s⟩ = [((), ⟨some c, s⟩)] := if_pos h

/-- A character that does not satisfy the condition. -/
theorem Fails.char {p : Char → Bool} {before : Option Char} {s : List Char}
    (h : ∀ c ∈ s.head?, p c = false) : Fails (Pattern.char p) ⟨before, s⟩ := by
  cases s with
  | nil => rfl
  | cons c s => exact if_neg (by simp [h c rfl])

/-- Where no character is read, the text starts with none that satisfies the condition. -/
theorem head?_of_fails_char {p : Char → Bool} {here : Place} (h : Fails (Pattern.char p) here) :
    ∀ c ∈ here.rest.head?, p c = false := by
  obtain ⟨before, s⟩ := here
  intro c hc
  obtain ⟨t, rfl⟩ := List.head?_eq_some_iff.1 hc
  rw [Bool.eq_false_iff]
  intro hp
  rw [Fails, char_of hp] at h
  cases h

/-- A character that is read is the first of the text. -/
theorem mem_char {p : Char → Bool} {before : Option Char} {s : List Char} {m : Unit × Place}
    (h : m ∈ Pattern.char p ⟨before, s⟩) :
    ∃ c r, s = c :: r ∧ p c = true ∧ m = ((), ⟨some c, r⟩) := by
  cases s with
  | nil => cases h
  | cons c r =>
      by_cases hc : p c = true
      · rw [char_of hc] at h
        exact ⟨c, r, rfl, hc, List.mem_singleton.1 h⟩
      · rw [show Pattern.char p ⟨before, c :: r⟩ = [] from if_neg hc] at h
        cases h

/-- Where a character is read, the text starts with one that satisfies the condition. -/
theorem exists_of_first_char {p : Char → Bool} {here there : Place}
    (h : First (Pattern.char p) here () there) : ∃ c, p c = true ∧ here.rest = c :: there.rest := by
  obtain ⟨before, s⟩ := here
  obtain ⟨c, rest, rfl, hc, hm⟩ := mem_char (List.mem_of_mem_head? h)
  cases hm
  exact ⟨c, hc, rfl⟩

/-- A run ends within or behind the characters that satisfy the condition. It may stop after each of
them, and before the first one too. -/
theorem mem_runEnds {p : Char → Bool} {before : Option Char} {s : List Char} {place : Place}
    (h : place ∈ runEnds p before s) :
    ∃ u v, s = u ++ v ∧ (∀ c ∈ u, p c = true) ∧ place = ⟨after before u, v⟩ := by
  induction s generalizing before with
  | nil => exact ⟨[], [], rfl, by simp, List.mem_singleton.1 h⟩
  | cons c s ih =>
      rw [runEnds] at h
      -- The run may end right here, or it takes the character and goes on.
      rcases List.mem_cons.1 h with rfl | h
      · exact ⟨[], c :: s, rfl, by simp, rfl⟩
      · split at h
        · rename_i hc
          obtain ⟨u, v, rfl, hu, rfl⟩ := ih h
          refine ⟨c :: u, v, rfl, fun d hd => ?_, by rw [after_cons]⟩
          rcases List.mem_cons.1 hd with rfl | hd
          · exact hc
          · exact hu d hd
        · cases h

/-- The longest run is the last one. The list goes from the shortest to the longest, and `many`
reads it backwards. -/
theorem getLast?_runEnds {p : Char → Bool} {r t : List Char} (hr : ∀ c ∈ r, p c = true)
    (ht : ∀ c ∈ t.head?, p c = false) (before : Option Char) :
    (runEnds p before (r ++ t)).getLast? = some ⟨after before r, t⟩ := by
  induction r generalizing before with
  | nil =>
      cases t with
      | nil => rfl
      | cons c t => simp [runEnds, ht c rfl]
  | cons c r ih =>
      have hc : p c = true := hr c (by simp)
      rw [List.cons_append, runEnds, if_pos hc, List.getLast?_cons,
        ih fun d hd => hr d (by simp [hd])]
      simp

/-- A run is preferred up to its end. The condition on what follows says that it cannot go on
there. -/
theorem First.many {p : Char → Bool} {r t : List Char} (hr : ∀ c ∈ r, p c = true)
    (ht : ∀ c ∈ t.head?, p c = false) (before : Option Char) :
    First (many p) ⟨before, r ++ t⟩ () ⟨after before r, t⟩ := by
  rw [First, Pattern.many, List.head?_map, List.head?_reverse, getLast?_runEnds hr ht]
  rfl

/-- A run may end before its end. Which of these ends a sequence uses is up to what follows. -/
theorem mem_many {p : Char → Bool} {before : Option Char} {s : List Char} {m : Unit × Place}
    (h : m ∈ many p ⟨before, s⟩) :
    ∃ u v, s = u ++ v ∧ (∀ c ∈ u, p c = true) ∧ m = ((), ⟨after before u, v⟩) := by
  obtain ⟨place, hplace, rfl⟩ := List.mem_map.1 h
  obtain ⟨u, v, hs, hu, rfl⟩ := mem_runEnds (List.mem_reverse.1 hplace)
  exact ⟨u, v, hs, hu, rfl⟩

/-- A run that is taken as short as possible ends at the first place from which the rest goes on.
Any character may stand in it. So the rest has to be ruled out at every earlier place, and to match
at this one. -/
theorem First.fewest_bind {f : Unit → Pattern α} {s rest : List Char} {a : α}
    {stop : Place} (before : Option Char)
    (hearly : ∀ x y, s = x ++ y → y ≠ [] → Fails (f ()) ⟨after before x, y ++ rest⟩)
    (h : First (f ()) ⟨after before s, rest⟩ a stop) :
    First (fewest (fun _ => true) >>= f) ⟨before, s ++ rest⟩ a stop := by
  induction s generalizing before with
  | nil =>
      have hstart : First (fewest fun _ => true) ⟨before, rest⟩ () ⟨before, rest⟩ := by
        cases rest <;> rfl
      exact hstart.bind h
  | cons c s ih =>
      -- One round is the rest at this place, and then the same run behind one character.
      have hround : (fewest (fun _ => true) >>= f) ⟨before, c :: (s ++ rest)⟩ =
          f () ⟨before, c :: (s ++ rest)⟩ ++
            (fewest (fun _ => true) >>= f) ⟨some c, s ++ rest⟩ := rfl
      have hfails : f () ⟨before, c :: (s ++ rest)⟩ = [] := hearly [] (c :: s) rfl (by simp)
      rw [after_cons] at h
      rw [First, List.cons_append, hround, hfails]
      refine ih (some c) (fun x y hs hy => ?_) h
      have hlater := hearly (c :: x) y (by rw [hs]; rfl) hy
      rwa [after_cons] at hlater

/-- A run of at least one character is preferred up to its end. -/
theorem First.some1 {p : Char → Bool} {r t : List Char} (hne : r ≠ [])
    (hr : ∀ c ∈ r, p c = true) (ht : ∀ c ∈ t.head?, p c = false) (before : Option Char) :
    First (some1 p) ⟨before, r ++ t⟩ () ⟨after before r, t⟩ := by
  cases r with
  | nil => exact absurd rfl hne
  | cons c r =>
      have hr' : ∀ d ∈ r, p d = true := fun d hd => hr d (List.mem_cons_of_mem _ hd)
      rw [after_cons]
      exact (First.of_singleton (char_of (hr c List.mem_cons_self) before (r ++ t))).bind
        (First.many hr' ht (some c))

/-- A run of at least one character may end before its end. -/
theorem mem_some1 {p : Char → Bool} {before : Option Char} {s : List Char} {m : Unit × Place}
    (h : m ∈ some1 p ⟨before, s⟩) :
    ∃ u v, s = u ++ v ∧ u ≠ [] ∧ (∀ c ∈ u, p c = true) ∧ m = ((), ⟨after before u, v⟩) := by
  obtain ⟨n, hn, hm⟩ := List.mem_flatMap.1 h
  cases s with
  | nil => cases hn
  | cons c s =>
      by_cases hc : p c = true
      · rw [char_of hc] at hn
        obtain rfl := List.mem_singleton.1 hn
        obtain ⟨u, v, rfl, hu, rfl⟩ := mem_many hm
        exact ⟨c :: u, v, rfl, by simp, by simpa [hc] using hu, by rw [after_cons]⟩
      · have hfails : char p ⟨before, c :: s⟩ = [] := if_neg hc
        rw [hfails] at hn
        cases hn

/-- A run of at least one character needs one. -/
theorem Fails.some1 {p : Char → Bool} {before : Option Char} {s : List Char}
    (h : ∀ c ∈ s.head?, p c = false) : Fails (Pattern.some1 p) ⟨before, s⟩ :=
  (Fails.char h).bind_left

/-- A run that ends within `r` leaves a character of `r`. In the other case all of it was taken. So
it is enough to look at the first character behind a run that was cut short. -/
theorem eq_of_run_append {p : Char → Bool} {r t u v : List Char} (h : r ++ t = u ++ v)
    (hr : ∀ c ∈ r, p c = true) (hu : ∀ c ∈ u, p c = true) (ht : ∀ c ∈ t.head?, p c = false) :
    (u = r ∧ v = t) ∨ ∃ c v', v = c :: v' ∧ p c = true := by
  rcases List.append_eq_append_iff.1 h with ⟨w, rfl, rfl⟩ | ⟨w, rfl, rfl⟩
  · cases w with
    | nil => exact .inl ⟨by simp, by simp⟩
    | cons c w =>
        have hc := hu c (by simp)
        rw [ht c rfl] at hc
        cases hc
  · cases w with
    | nil => exact .inl ⟨by simp, by simp⟩
    | cons c w => exact .inr ⟨c, w ++ t, rfl, hr c (by simp)⟩

/-! ### Parts that may be missing, and alternatives -/

/-- The stretch that the preferred match covers. -/
theorem First.span {p : Pattern α} {here there : Place} {a : α} (h : First p here a there) :
    First (span p) here ⟨here, there⟩ there := by
  rw [First, Pattern.span, List.head?_map, show (p here).head? = _ from h]
  rfl

/-- The characters of a stretch. -/
theorem chars_append (before before' : Option Char) (u t : List Char) :
    (Span.mk ⟨before, u ++ t⟩ ⟨before', t⟩).chars = u := by
  simp [Span.chars]

/-- There is no stretch where there is no match. -/
theorem Fails.span {p : Pattern α} {here : Place} (h : Fails p here) :
    Fails (Pattern.span p) here := List.map_eq_nil_iff.2 h

/-- A part that may be missing is taken where it matches. It is tried first, and left out only if
the rest fails behind it. -/
theorem First.optional {p : Pattern α} {here there : Place} {a : α} (h : First p here a there) :
    First (optional p) here (some a) there := by
  obtain ⟨more, hmore⟩ := List.head?_eq_some_iff.1 h
  rw [First, Pattern.optional, hmore]
  rfl

/-- A part that may be missing is missing where it does not match. Then leaving it out is the only
way. -/
theorem First.optional_none {p : Pattern α} {here : Place} (h : Fails p here) :
    First (Pattern.optional p) here none here := by
  rw [First, Pattern.optional, show p here = [] from h]
  rfl

/-- A part that may be missing is there or not. -/
theorem mem_optional {p : Pattern α} {here : Place} {m : Option α × Place}
    (h : m ∈ Pattern.optional p here) : m = (none, here) ∨ ∃ n ∈ p here, m = (some n.1, n.2) := by
  rcases List.mem_append.1 h with h | h
  · obtain ⟨n, hn, rfl⟩ := List.mem_map.1 h
    exact .inr ⟨n, hn, rfl⟩
  · exact .inl (List.mem_singleton.1 h)

/-- A sequence fails with and without a part that may be missing. Both ways have to be ruled out. -/
theorem Fails.optional_bind {p : Pattern α} {f : Option α → Pattern β} {here : Place}
    (hsome : Fails (p >>= fun a => f (some a)) here) (hnone : Fails (f none) here) :
    Fails (Pattern.optional p >>= f) here := by
  refine Fails.bind fun m hm => ?_
  rcases mem_optional hm with rfl | ⟨n, hn, rfl⟩
  · exact hnone
  · exact List.flatMap_eq_nil_iff.1 hsome n hn

/-- The first alternative is preferred. Whether a later one would match as well plays no part. -/
theorem First.oneOf_head {p : Pattern α} {here there : Place} {a : α} (h : First p here a there)
    (ps : List (Pattern α)) : First (oneOf (p :: ps)) here a there := by
  obtain ⟨more, hmore⟩ := List.head?_eq_some_iff.1 h
  rw [First, oneOf, List.flatMap_cons, hmore]
  rfl

/-- An alternative that fails leaves the choice to the others. -/
theorem First.oneOf_tail {p : Pattern α} {ps : List (Pattern α)} {here there : Place} {a : α}
    (hp : Fails p here) (h : First (oneOf ps) here a there) :
    First (oneOf (p :: ps)) here a there := by
  rw [First, oneOf, List.flatMap_cons, show p here = [] from hp]
  exact h

/-- Alternatives fail together. Their matches are those of all of them together. -/
theorem Fails.oneOf {ps : List (Pattern α)} {here : Place} (h : ∀ p ∈ ps, Fails p here) :
    Fails (Pattern.oneOf ps) here := List.flatMap_eq_nil_iff.2 h

/-- A repetition prefers to go on. It uses up one unit of fuel for the round. -/
theorem First.repeatUpTo_succ {p : Pattern Unit} {fuel : Nat} {here there stop : Place}
    (hp : First p here () there) (h : First (repeatUpTo p fuel) there () stop) :
    First (repeatUpTo p (fuel + 1)) here () stop := by
  obtain ⟨more, hmore⟩ := List.head?_eq_some_iff.1 (First.bind (f := fun _ => _) hp h)
  show (((p here).flatMap fun m => Pattern.repeatUpTo p fuel m.2) ++ [((), here)]).head? = _
  rw [show ((p here).flatMap fun m => Pattern.repeatUpTo p fuel m.2) = _ from hmore]
  rfl

/-- Nothing is repeated where there is no match. -/
theorem First.repeated_none {p : Pattern Unit} {here : Place} (h : Fails p here) :
    First (repeated p) here () here := by
  have hround (fuel : Nat) : First (repeatUpTo p fuel) here () here := by
    cases fuel with
    | zero => rfl
    | succ fuel =>
        have heq : repeatUpTo p (fuel + 1) here =
            ((p here).flatMap fun m => repeatUpTo p fuel m.2) ++ [((), here)] := rfl
        rw [First, heq, show p here = [] from h]
        rfl
  exact hround here.rest.length

/-- A repetition always matches, be it nothing. A search is therefore never stopped by one. -/
theorem First.exists_repeated (p : Pattern Unit) (here : Place) :
    ∃ there, First (repeated p) here () there := by
  have hne (fuel : Nat) : repeatUpTo p fuel here ≠ [] := by
    cases fuel with
    | zero => exact List.cons_ne_nil _ _
    | succ fuel => exact List.append_ne_nil_of_right_ne_nil _ (List.cons_ne_nil _ _)
  exact ⟨_, List.head?_eq_some_head (hne here.rest.length)⟩

/-! ### What a match takes -/

/-- Whether the matches of the pattern take only characters that satisfy the condition. What a match
takes is a front of the text, and the place behind it is the end of the match. -/
def Takes (q : Char → Bool) (p : Pattern α) : Prop :=
  ∀ before s, ∀ m ∈ p ⟨before, s⟩, ∃ u v, s = u ++ v ∧ (∀ c ∈ u, q c = true) ∧
    m.2 = ⟨after before u, v⟩

namespace Takes

variable {q : Char → Bool}

/-- Nothing takes no characters. -/
theorem pure (a : α) : Takes q (Pure.pure a : Pattern α) := by
  intro before s m hm
  exact ⟨[], s, rfl, by simp, by rw [List.mem_singleton.1 hm]; rfl⟩

/-- A sequence takes what its parts take. The second part starts where the first one has ended. -/
theorem bind {p : Pattern α} {f : α → Pattern β} (hp : Takes q p) (hf : ∀ a, Takes q (f a)) :
    Takes q (p >>= f) := by
  intro before s m hm
  obtain ⟨⟨a, there⟩, hn, hm⟩ := List.mem_flatMap.1 hm
  obtain ⟨u, v, rfl, hu, rfl⟩ := hp before s _ hn
  obtain ⟨u', v, rfl, hu', hstop⟩ := hf a _ v m hm
  refine ⟨u ++ u', v, by simp, fun c hc => ?_, by rw [hstop, after_append]⟩
  rcases List.mem_append.1 hc with hc | hc
  · exact hu c hc
  · exact hu' c hc

/-- A character that satisfies the condition. -/
theorem char {p : Char → Bool} (h : ∀ c, p c = true → q c = true) : Takes q (Pattern.char p) := by
  intro before s m hm
  cases s with
  | nil => cases hm
  | cons c s =>
      by_cases hc : p c = true
      · rw [char_of hc] at hm
        obtain rfl := List.mem_singleton.1 hm
        exact ⟨[c], s, rfl, by simpa using h c hc, rfl⟩
      · rw [show Pattern.char p ⟨before, c :: s⟩ = [] from if_neg hc] at hm
        cases hm

/-- A run of characters that satisfy the condition, possibly empty. -/
theorem many {p : Char → Bool} (h : ∀ c, p c = true → q c = true) : Takes q (Pattern.many p) := by
  intro before s m hm
  obtain ⟨u, v, rfl, hu, rfl⟩ := mem_many hm
  exact ⟨u, v, rfl, fun c hc => h c (hu c hc), rfl⟩

/-- A run of characters that satisfy the condition. -/
theorem some1 {p : Char → Bool} (h : ∀ c, p c = true → q c = true) :
    Takes q (Pattern.some1 p) := by
  intro before s m hm
  obtain ⟨u, v, rfl, -, hu, rfl⟩ := mem_some1 hm
  exact ⟨u, v, rfl, fun c hc => h c (hu c hc), rfl⟩

/-- A part that may be missing. -/
theorem optional {p : Pattern α} (hp : Takes q p) : Takes q (Pattern.optional p) := by
  intro before s m hm
  rcases mem_optional hm with rfl | ⟨n, hn, rfl⟩
  · exact ⟨[], s, rfl, by simp, rfl⟩
  · exact hp before s n hn

/-- The stretch of a match. -/
theorem span {p : Pattern α} (hp : Takes q p) : Takes q (Pattern.span p) := by
  intro before s m hm
  obtain ⟨n, hn, rfl⟩ := List.mem_map.1 hm
  exact hp before s n hn

/-- If what follows a pattern can start with none of the characters that the pattern takes, the
pattern has to take them all. It reads `r` in full or gives back a character of `r`, at which the
rest cannot start. This rules out all shorter matches at once. -/
theorem fails_bind {p : Pattern α} {f : α → Pattern β} (hp : Takes q p) {r t : List Char}
    {before : Option Char} (hr : ∀ c ∈ r, q c = true) (ht : ∀ c ∈ t.head?, q c = false)
    (hf : ∀ a before c s, q c = true → Fails (f a) ⟨before, c :: s⟩)
    (h : ∀ a, Fails (f a) ⟨after before r, t⟩) : Fails (p >>= f) ⟨before, r ++ t⟩ := by
  refine Fails.bind fun m hm => ?_
  obtain ⟨a, there⟩ := m
  obtain ⟨u, v, huv, hu, rfl⟩ := hp before _ _ hm
  rcases eq_of_run_append huv hr hu ht with ⟨rfl, rfl⟩ | ⟨c, v', rfl, hc⟩
  · exact h a
  · exact hf a _ _ _ hc

end Takes

/-! ### Places -/

/-- The start of a text. -/
theorem First.textStart (s : List Char) :
    First textStart (.start s) () (.start s) := rfl

/-- Behind a character no text starts. -/
theorem Fails.textStart (c : Char) (s : List Char) : Fails Pattern.textStart ⟨some c, s⟩ := rfl

/-- The end of a text. -/
theorem First.textEnd (before : Option Char) :
    First textEnd ⟨before, []⟩ () ⟨before, []⟩ := rfl

/-- A word starts behind a character that is none of a word. At the start of a text there is no such
character, and a word may start there too. -/
theorem First.boundary {before : Option Char} (hbefore : ∀ c ∈ before, isWordChar c = false)
    {s : List Char} (hs : ∃ c ∈ s.head?, isWordChar c = true) :
    First boundary ⟨before, s⟩ () ⟨before, s⟩ := by
  obtain ⟨c, hc, hword⟩ := hs
  have hleft : (before.map isWordChar).getD false = false := by
    cases before with
    | none => rfl
    | some d => exact hbefore d rfl
  have hright : (s.head?.map isWordChar).getD false = true := by
    rw [Option.mem_def.1 hc]
    exact hword
  rw [First, Pattern.boundary, hleft, hright]
  rfl

/-- A word ends before a character that is none of a word. -/
theorem First.boundary_end {before : Option Char} (hbefore : ∃ c ∈ before, isWordChar c = true)
    {s : List Char} (hs : ∀ c ∈ s.head?, isWordChar c = false) :
    First Pattern.boundary ⟨before, s⟩ () ⟨before, s⟩ := by
  obtain ⟨c, hc, hword⟩ := hbefore
  have hleft : (before.map isWordChar).getD false = true := by
    rw [Option.mem_def.1 hc]
    exact hword
  have hright : (s.head?.map isWordChar).getD false = false := by
    cases s with
    | nil => rfl
    | cons d s => exact hs d rfl
  rw [First, Pattern.boundary, hleft, hright]
  rfl

/-- At a boundary, exactly one side is a character of a word. The ends of the text count as
characters that are none of a word. -/
theorem mem_boundary {before : Option Char} {s : List Char} {m : Unit × Place}
    (h : m ∈ Pattern.boundary ⟨before, s⟩) :
    m = ((), ⟨before, s⟩) ∧
      (before.map isWordChar).getD false ≠ (s.head?.map isWordChar).getD false := by
  rw [Pattern.boundary] at h
  split at h
  · rename_i hne
    exact ⟨List.mem_singleton.1 h, by simpa using hne⟩
  · cases h

end EntityDiagram.Text.Pattern
