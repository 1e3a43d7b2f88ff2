import EntityDiagram.Proofs.Text.Replacement
import EntityDiagram.Proofs.Text.WordSearch

/-!
# `EntityDiagram.Proofs.Text.Locality`: patterns that do not see past a character

A pattern whose parts cannot take a certain character ends in front of it. So it makes the same of a
text whether that character and anything else follow or the text ends there. `Carries w lift p p'`
says so of the text `w` that follows: the matches of `p'` in a text with `w` behind it are those of
`p` in the text alone, with `w` behind each place that they hold. It is closed under the
combinators of patterns.

* `Carries.searchFrom_of_some`, `Carries.searchFrom_of_none`: a search finds in the longer text what
  it finds in the shorter one, and goes on behind it only if that is nothing.
* `matchesAt p here`: all matches from a place on. A pattern that takes characters does not run out
  of fuel, so they satisfy equations that do not speak of it.
* `Carries.matchesAt_extend_cons`: the matches on both sides of a character that none of them takes.
-/

set_option autoImplicit false

namespace EntityDiagram.Text

/-- The place in a text with `w` behind it. What stands in front of the place is not changed by
that. -/
def Place.extend (w : List Char) (here : Place) : Place := ⟨here.before, here.rest ++ w⟩

/-- The stretch in a text with `w` behind it. Both of its ends are places in the longer text
then. -/
def Span.extend (w : List Char) (s : Span) : Span := ⟨s.start.extend w, s.stop.extend w⟩

/-- A stretch has the same characters whatever stands behind the text. What it holds lies in front
of `w`. -/
@[simp] theorem Span.chars_extend (w : List Char) (s : Span) : (s.extend w).chars = s.chars := by
  show (s.start.rest ++ w).take ((s.start.rest ++ w).length - (s.stop.rest ++ w).length) = _
  rw [List.length_append, List.length_append, Nat.add_sub_add_right,
    List.take_append_of_le_length (Nat.sub_le _ _)]
  rfl

namespace Pattern

variable {α β α' β' : Type} {w : List Char}

/-- The matches of `p'` in a text with `w` behind it are those of `p` in the text, where `lift` says
what becomes of their values. So nothing is matched that reaches into `w`, and nothing is missed
because of it. The condition is on all places at once, and therefore carries over to patterns put
together from others. -/
def Carries (w : List Char) (lift : α → α') (p : Pattern α) (p' : Pattern α') : Prop :=
  ∀ here, p' (here.extend w) = (p here).map fun m => (lift m.1, m.2.extend w)

/-- A match found in a text with `w` behind it. Its start, its end and its value are all carried
over. -/
def Found.extend (w : List Char) (lift : α → α') (found : Found α) : Found α' :=
  ⟨found.start.extend w, lift found.value, found.stop.extend w⟩

namespace Carries

/-- A pattern that takes nothing makes the same of every text. This is where `lift` comes in: the
two patterns need not yield the same value. -/
theorem pure (lift : α → α') (a : α) : Carries w lift (Pure.pure a) (Pure.pure (lift a)) :=
  fun _ => rfl

/-- Two patterns, one after the other, where the second may depend on what the first has read. Its
places in the longer text are those in the shorter one with `w` behind them. -/
theorem bind {lift : α → α'} {lift' : β → β'} {p : Pattern α} {p' : Pattern α'}
    {f : α → Pattern β} {f' : α' → Pattern β'} (hp : Carries w lift p p')
    (hf : ∀ a, Carries w lift' (f a) (f' (lift a))) : Carries w lift' (p >>= f) (p' >>= f') := by
  intro here
  show (p' (here.extend w)).flatMap (fun m => f' m.1 m.2) =
    ((p here).flatMap fun m => f m.1 m.2).map _
  rw [hp, List.flatMap_map, List.map_flatMap]
  exact List.flatMap_congr fun m _ => hf m.1 m.2

/-- A character that is looked for in `w` in vain is taken from the text or not at all. Only the
first character of `w` can be looked at, at the end of the text. -/
theorem char {q : Char → Bool} (hq : ∀ c ∈ w.head?, q c = false) :
    Carries w id (Pattern.char q) (Pattern.char q) := by
  rintro ⟨before, s⟩
  cases s with
  | nil => exact Fails.char hq
  | cons c s =>
      by_cases hc : q c = true
      · rw [char_of hc]
        exact char_of hc before (s ++ w)
      · rw [show Pattern.char q ⟨before, c :: s⟩ = [] from if_neg hc]
        exact if_neg hc

/-- A run ends in the text if it cannot go on behind it. These are all the places at which a run may
stop, from the longest one on. -/
theorem runEnds {q : Char → Bool} (hq : ∀ c ∈ w.head?, q c = false) (before : Option Char)
    (s : List Char) :
    Pattern.runEnds q before (s ++ w) = (Pattern.runEnds q before s).map (·.extend w) := by
  induction s generalizing before with
  | nil =>
      cases w with
      | nil => rfl
      | cons c w => simp [Pattern.runEnds, hq c rfl, Place.extend]
  | cons c s ih =>
      rw [List.cons_append, Pattern.runEnds, Pattern.runEnds, List.map_cons, ih]
      split <;> rfl

/-- A run of characters ends before `w` if the first character of `w` would not go on with it. -/
theorem many {q : Char → Bool} (hq : ∀ c ∈ w.head?, q c = false) :
    Carries w id (Pattern.many q) (Pattern.many q) := by
  rintro ⟨before, s⟩
  show (Pattern.runEnds q before (s ++ w)).reverse.map ((), ·) =
    ((Pattern.runEnds q before s).reverse.map ((), ·)).map _
  rw [runEnds hq, ← List.map_reverse, List.map_map, List.map_map]
  rfl

/-- The same for a run of one character at least. -/
theorem some1 {q : Char → Bool} (hq : ∀ c ∈ w.head?, q c = false) :
    Carries w id (Pattern.some1 q) (Pattern.some1 q) := (char hq).bind fun _ => many hq

/-- A pattern that may be left out. -/
theorem optional {lift : α → α'} {p : Pattern α} {p' : Pattern α'} (hp : Carries w lift p p') :
    Carries w (Option.map lift) (Pattern.optional p) (Pattern.optional p') := by
  intro here
  show (p' (here.extend w)).map (fun m : α' × Place => (some m.1, m.2)) ++
      [(none, here.extend w)] =
    ((p here).map (fun m : α × Place => (some m.1, m.2)) ++ [(none, here)]).map _
  rw [hp, List.map_append, List.map_map, List.map_map]
  rfl

/-- Alternatives go side by side, and the matches of each are carried on their own. Their order is
kept, and with it which of them is preferred. -/
theorem oneOf {lift : α → α'} {ps : List (Pattern α)} {ps' : List (Pattern α')}
    (h : List.Forall₂ (Carries w lift) ps ps') :
    Carries w lift (Pattern.oneOf ps) (Pattern.oneOf ps') := by
  intro here
  show ps'.flatMap (fun p => p (here.extend w)) = (ps.flatMap fun p => p here).map _
  induction h with
  | nil => rfl
  | cons hp _ ih => rw [List.flatMap_cons, List.flatMap_cons, List.map_append, hp, ih]

/-- The stretch of a match is carried with its ends. -/
theorem span {lift : α → α'} {p : Pattern α} {p' : Pattern α'} (hp : Carries w lift p p') :
    Carries w (Span.extend w) (Pattern.span p) (Pattern.span p') := by
  intro here
  show (p' (here.extend w)).map (fun m => ((⟨here.extend w, m.2⟩ : Span), m.2)) =
    ((p here).map fun m => ((⟨here, m.2⟩ : Span), m.2)).map _
  rw [hp, List.map_map, List.map_map]
  rfl

/-- A word does not see past a character that is none of a word. At the end of the text, where the
word would have to go on in `w`, it fails on both sides. -/
theorem word {v : String} (hv : v.toList.all startsPlain = true)
    (hw : ∀ c ∈ w.head?, isWordChar c = false) :
    Carries w id (Pattern.word v) (Pattern.word v) := by
  -- The induction is on the characters of the word, as the pattern for a word is made of them.
  have key {v : List Char} (hv : v.all startsPlain = true) :
      Carries w id (anyCase v) (anyCase v) := by
    induction v with
    | nil => exact pure id ()
    | cons l v ih =>
        rw [List.all_cons, Bool.and_eq_true] at hv
        refine (char fun c hc => ?_).bind fun _ => ih hv.2
        rw [Bool.eq_false_iff]
        intro h
        have hword := isWordChar_of_foldsTo hv.1 h
        rw [hw c hc] at hword
        cases hword
  exact key hv

/-- Nor do alternatives that are words. -/
theorem oneOf_words {ws : List String} (hws : ∀ v ∈ ws, v.toList.all startsPlain = true)
    (hw : ∀ c ∈ w.head?, isWordChar c = false) : Carries w id
      (Pattern.oneOf (ws.map Pattern.word)) (Pattern.oneOf (ws.map Pattern.word)) :=
  oneOf (List.forall₂_map_left_iff.2 (List.forall₂_map_right_iff.2
    (List.forall₂_same.2 fun v hv => word (hws v hv) hw)))

/-- White space ends before `w` if that does not start with any. -/
theorem spaces (hw : ∀ c ∈ w.head?, isSpace c = false) :
    Carries w id Pattern.spaces Pattern.spaces := many hw

/-- The same for white space that has to be there. -/
theorem spaces1 (hw : ∀ c ∈ w.head?, isSpace c = false) :
    Carries w id Pattern.spaces1 Pattern.spaces1 := some1 hw

/-- A boundary does not tell the end of a text from a character that is none of a word. Whether a
word ends at the end of the text therefore does not depend on `w`. -/
theorem boundary (hw : ∀ c ∈ w.head?, isWordChar c = false) :
    Carries w id Pattern.boundary Pattern.boundary := by
  rintro ⟨before, s⟩
  have hside : ((s ++ w).head?.map isWordChar).getD false =
      (s.head?.map isWordChar).getD false := by
    cases s with
    | cons c s => rfl
    | nil =>
        cases w with
        | nil => rfl
        | cons c w => exact hw c rfl
  show (if (before.map isWordChar).getD false != ((s ++ w).head?.map isWordChar).getD false then
    [((), Place.extend w ⟨before, s⟩)] else []) = List.map _ (Pattern.boundary ⟨before, s⟩)
  rw [hside, Pattern.boundary]
  split <;> rfl

/-- The start of a text is the start of the longer one. -/
theorem textStart : Carries w id Pattern.textStart Pattern.textStart := by
  intro here
  show (if here.before.isNone then _ else _) = List.map _ (if here.before.isNone then _ else _)
  split <;> rfl

/-- A text without the character at which the one behind starts. It would have to go on into `w`
otherwise. -/
theorem exactly {s : List Char} (hs : ∀ c ∈ w.head?, c ∉ s) :
    Carries w id (Pattern.exactly s) (Pattern.exactly s) := by
  induction s with
  | nil => exact pure id ()
  | cons d s ih =>
      refine (char fun c hc => ?_).bind fun _ => ih fun c hc => ?_
      · rw [beq_eq_false_iff_ne]
        rintro rfl
        exact hs c hc (by simp)
      · exact fun hmem => hs c hc (List.mem_cons_of_mem d hmem)

/-- More rounds than a text has characters change nothing. The fuel is the length of the text, which
is larger for the longer one; the rounds that it allows are the same. -/
theorem repeated {p : Pattern Unit} (hp : Carries w id p p) (hconsuming : Consuming p) :
    Carries w id (Pattern.repeated p) (Pattern.repeated p) := by
  have hround (fuel : Nat) (here : Place) : repeatUpTo p (fuel + 1) here =
      ((p here).flatMap fun m => repeatUpTo p fuel m.2) ++ [((), here)] := rfl
  have key (fuel more : Nat) (here : Place) (hfuel : here.rest.length ≤ fuel) :
      repeatUpTo p (fuel + more) (here.extend w) =
        (repeatUpTo p fuel here).map fun m => (m.1, m.2.extend w) := by
    induction fuel generalizing here with
    | zero =>
        -- The text has ended, and no round starts at what is behind it.
        have hfails : p here = [] := by
          refine List.eq_nil_iff_forall_not_mem.2 fun m hm => ?_
          have := hconsuming here m hm
          omega
        cases more with
        | zero => rfl
        | succ more =>
            rw [Nat.zero_add, hround, hp, hfails]
            rfl
    | succ fuel ih =>
        rw [Nat.succ_add_eq_add_succ, Nat.add_succ, hround, hround, hp, List.flatMap_map,
          List.map_append, List.map_flatMap]
        refine congrArg₂ _ (List.flatMap_congr fun m hm => ih m.2 ?_) rfl
        have := hconsuming here m hm
        omega
  intro here
  have hlength : (here.extend w).rest.length = here.rest.length + w.length := List.length_append
  rw [Pattern.repeated, hlength]
  exact key _ _ here (Nat.le_refl _)

/-- The match preferred in the longer text is the one preferred in the text. As the matches are the
same in number and order, this is their first one. -/
theorem head?_extend {lift : α → α'} {p : Pattern α} {p' : Pattern α'} (hp : Carries w lift p p')
    (here : Place) :
    (p' (here.extend w)).head? = (p here).head?.map fun m => (lift m.1, m.2.extend w) := by
  rw [hp, List.head?_map]

/-- What is preferred in a text is preferred in the longer one. -/
theorem first {lift : α → α'} {p : Pattern α} {p' : Pattern α'} (hp : Carries w lift p p')
    {here there : Place} {a : α} (h : First p here a there) :
    First p' (here.extend w) (lift a) (there.extend w) := by
  rw [First, hp.head?_extend, show (p here).head? = _ from h]
  rfl

/-- What fails in a text fails in the longer one. With `first` this covers all that a search asks of
a pattern at a place. -/
theorem fails {lift : α → α'} {p : Pattern α} {p' : Pattern α'} (hp : Carries w lift p p')
    {here : Place} (h : Fails p here) : Fails p' (here.extend w) := by
  rw [Fails, hp, show p here = [] from h]
  rfl

/-! ### Searches -/

variable {lift : α → α} {p : Pattern α}

/-- What is found in a text is found in the text with more behind it. The converse fails: what is
not found in the text may well start in `w`. -/
theorem searchFrom_of_some (hp : Carries w lift p p) {before : Option Char} {s : List Char}
    {found : Found α} (h : searchFrom p before s = some found) :
    searchFrom p before (s ++ w) = some (found.extend w lift) := by
  induction s generalizing before with
  | nil =>
      -- At the end of the text, what matches takes nothing.
      obtain ⟨m, hm, rfl⟩ := Option.map_eq_some_iff.1 h
      have hfirst : First p ⟨before, w⟩ (lift m.1) (m.2.extend w) := by
        rw [First, show (p ⟨before, w⟩).head? = _ from hp.head?_extend ⟨before, []⟩, hm]
        rfl
      exact searchFrom_of_first hfirst
  | cons c s ih =>
      have hhead : (p ⟨before, c :: (s ++ w)⟩).head? = _ := hp.head?_extend ⟨before, c :: s⟩
      rw [searchFrom] at h
      rw [List.cons_append, searchFrom, hhead]
      -- Both searches try this place, and go on to the next one if nothing matches here.
      cases hm : (p ⟨before, c :: s⟩).head? with
      | none =>
          rw [hm] at h
          exact ih h
      | some m =>
          rw [hm] at h
          obtain rfl := Option.some.inj h
          rfl

/-- A search that finds nothing in a text goes on behind it. What it carries along is the character
in front of `w`, on which a boundary may depend. -/
theorem searchFrom_of_none (hp : Carries w lift p p) {before : Option Char} {s : List Char}
    (h : searchFrom p before s = none) :
    searchFrom p before (s ++ w) = searchFrom p (after before s) w := by
  induction s generalizing before with
  | nil => rfl
  | cons c s ih =>
      have hhead : (p ⟨before, c :: (s ++ w)⟩).head? = _ := hp.head?_extend ⟨before, c :: s⟩
      rw [searchFrom] at h
      rw [List.cons_append, searchFrom, hhead, after_cons]
      -- There was no match at this place, and what was added makes none.
      cases hm : (p ⟨before, c :: s⟩).head? with
      | none =>
          rw [hm] at h
          exact ih h
      | some m =>
          rw [hm] at h
          cases h

/-- A search for a pattern goes on behind a text in which nothing is found for its first part. The
whole pattern need not be local for that: where its first part fails, it fails. -/
theorem searchFrom_bind_of_none {p' : Pattern α'} {lift : α → α'} {p : Pattern α}
    (hp : Carries w lift p p') (f : α' → Pattern β) {before : Option Char} {s : List Char}
    (h : searchFrom p before s = none) :
    searchFrom (p' >>= f) before (s ++ w) = searchFrom (p' >>= f) (after before s) w := by
  induction s generalizing before with
  | nil => rfl
  | cons c s ih =>
      rw [searchFrom] at h
      split at h
      · cases h
      · rename_i hnone
        have hfails : Fails p' ⟨before, c :: (s ++ w)⟩ := hp.fails (List.head?_eq_none_iff.1 hnone)
        rw [List.cons_append, searchFrom_of_fails hfails.bind_left, ih h, after_cons]

/-- The same of a search from a place on. -/
theorem search_extend (hp : Carries w lift p p) {here : Place} {found : Found α}
    (h : p.search here = some found) : p.search (here.extend w) = some (found.extend w lift) :=
  hp.searchFrom_of_some h

/-- If nothing is found behind a text, all matches are those in the text. The fuel is the same on
both sides, since no match is added. -/
theorem matchesUpTo_of_none (hp : Carries w lift p p)
    (hnone : ∀ before, searchFrom p before w = none) (fuel : Nat) (here : Place) :
    matchesUpTo p fuel (here.extend w) = (matchesUpTo p fuel here).map (·.extend w lift) := by
  induction fuel generalizing here with
  | zero => rfl
  | succ fuel ih =>
      rw [matchesUpTo, matchesUpTo]
      cases h : p.search here with
      | none =>
          rw [show p.search (here.extend w) = none from
            (hp.searchFrom_of_none h).trans (hnone _)]
          rfl
      | some found =>
          rw [hp.search_extend h]
          exact congrArg _ (ih found.stop)

end Carries

/-! ### All matches -/

/-- Every match from the place on. There cannot be more matches than characters if each of them
takes one. -/
def matchesAt (p : Pattern α) (here : Place) : List (Found α) :=
  matchesUpTo p (here.rest.length + 1) here

/-- What a search for a pattern that takes characters finds ends behind the place. It is the measure
for every recursion over the matches. -/
theorem Consuming.length_stop_lt {p : Pattern α} (hp : Consuming p) {here : Place}
    {found : Found α} (h : p.search here = some found) :
    found.stop.rest.length < here.rest.length := by
  obtain ⟨hstart, hmem⟩ := searchFrom_spec h
  exact Nat.lt_of_lt_of_le (hp _ _ hmem) hstart.length_le

/-- With fuel enough, more fuel changes nothing. So lemmas about all matches need not say how much
fuel there is. -/
theorem Consuming.matchesUpTo_eq {p : Pattern α} (hp : Consuming p) {fuel : Nat} {here : Place}
    (h : here.rest.length < fuel) : matchesUpTo p fuel here = matchesAt p here := by
  -- On the fuel: each match leaves less text.
  have key (fuel : Nat) : ∀ fuel' (here : Place), here.rest.length < fuel →
      here.rest.length < fuel' → matchesUpTo p fuel here = matchesUpTo p fuel' here := by
    induction fuel with
    | zero => exact fun _ _ h => absurd h (Nat.not_lt_zero _)
    | succ fuel ih =>
        intro fuel' here hfuel hfuel'
        obtain ⟨fuel', rfl⟩ :=
          Nat.exists_eq_succ_of_ne_zero (Nat.ne_of_gt (Nat.zero_lt_of_lt hfuel'))
        rw [matchesUpTo, matchesUpTo]
        cases hsearch : p.search here with
        | none => rfl
        | some found =>
            have hstop := hp.length_stop_lt hsearch
            exact congrArg _ (ih fuel' found.stop (by omega) (by omega))
  exact key fuel _ here h (Nat.lt_succ_self _)

/-- All matches depend on where the first one is found. It is enough to know the first one, as
everything behind it starts where that ends. -/
theorem matchesAt_congr {p : Pattern α} (hp : Consuming p) {here there : Place}
    (h : p.search here = p.search there) : matchesAt p here = matchesAt p there := by
  have hle : here.rest.length < here.rest.length + there.rest.length + 1 := by omega
  have hle' : there.rest.length < here.rest.length + there.rest.length + 1 := by omega
  rw [← hp.matchesUpTo_eq hle, ← hp.matchesUpTo_eq hle', matchesUpTo, matchesUpTo, h]

/-- Behind the first match come all matches from its end on. This and the case without a match are
the recursion by which all matches are found. -/
theorem matchesAt_of_some {p : Pattern α} (hp : Consuming p) {here : Place} {found : Found α}
    (h : p.search here = some found) : matchesAt p here = found :: matchesAt p found.stop := by
  rw [matchesAt, matchesUpTo, h]
  exact congrArg _ (hp.matchesUpTo_eq (hp.length_stop_lt h))

/-- The matches in front of a character that none of them takes, and those behind it. Texts that are
joined by such a character can be searched one after the other. -/
theorem Carries.matchesAt_extend_cons {lift : α → α} {p : Pattern α} {c : Char}
    (hp : Carries (c :: w) lift p p) (hconsuming : Consuming p)
    (hc : ∀ before, Fails p ⟨before, c :: w⟩) (here : Place) :
    matchesAt p (here.extend (c :: w)) =
      (matchesAt p here).map (·.extend (c :: w) lift) ++ matchesAt p ⟨some c, w⟩ := by
  -- On the length of the text that is left, which each match shortens.
  induction hn : here.rest.length using Nat.strongRecOn generalizing here with
  | _ n ih =>
      cases hsearch : p.search here with
      | none =>
          -- Nothing is left to be found in front of the character, so that the search comes to it.
          have hnone : matchesAt p here = [] := by rw [matchesAt, matchesUpTo, hsearch]
          rw [hnone]
          exact matchesAt_congr hconsuming
            ((hp.searchFrom_of_none hsearch).trans (searchFrom_of_fails (hc _)))
      | some found =>
          have hlt := hconsuming.length_stop_lt hsearch
          rw [matchesAt_of_some hconsuming (hp.search_extend hsearch),
            matchesAt_of_some hconsuming hsearch]
          exact congrArg _ (ih _ (hn ▸ hlt) found.stop rfl)

end Pattern

end EntityDiagram.Text
