import EntityDiagram.Ddl.Script

/-!
# `EntityDiagram.Proofs.Ddl.Routine`: readers that go token by token

The readers of `EntityDiagram.Ddl` are recursive functions on the tokens that are left. How often a
loop goes round, and where it stands then, cannot be seen in them. A `Routine` can: it looks at the
current token, steps forward, fails or repeats something in a `loop`, and its `Run` keeps record of
each step and each turn. A routine has no run if one of its loops takes more turns than it may, so a
loop that never ends has no run at all, whatever the limit is.

`Routine.Follows` says that a routine does what a reader does: it ends with the same outcome at the
same position, within as many turns of each loop as there are tokens, and whatever it records makes
progress (`Event.Progresses`). Its rules follow the ways in which routines are put together. The one
for loops is `Routine.follows_loop`: it asks for one turn only, from any state at any position, and
the loop as a whole is by induction on the tokens that are left.
-/

set_option autoImplicit false

namespace EntityDiagram.Ddl

variable {α β σ ρ : Type}

/-! ### Progress -/

/-- Whether the way from one position to another takes a token which is not the end. -/
def Consumes (before after : List Token) : Prop :=
  ∃ t rest, before = t :: rest ∧ t ≠ .eof ∧ after <:+ rest

/-- What leaves the first token behind takes it. -/
theorem consumes_of_tail {ts left : List Token} (hend : current ts ≠ .eof)
    (hleft : left <:+ ts.tail) : Consumes ts left := by
  cases ts with
  | nil => exact absurd rfl hend
  | cons t rest => exact ⟨t, rest, rfl, hend, hleft⟩

/-- What goes on behind the first token has taken it. -/
theorem consumes_of_suffix {t : Token} {rest left : List Token} (ht : (t == .eof) = false)
    (hleft : left <:+ rest) : Consumes (t :: rest) left :=
  ⟨t, rest, rfl, beq_eq_false_iff_ne.1 ht, hleft⟩

/-- One step takes the first token. -/
theorem consumes_cons {t : Token} {rest : List Token} (ht : (t == .eof) = false) :
    Consumes (t :: rest) rest :=
  consumes_of_suffix ht (List.suffix_refl _)

/-- What a run keeps record of. A position is the list of the tokens that are left. -/
inductive Event where
  /-- One step of the reader. -/
  | advance (before after : List Token)
  /-- One turn of a loop, and whether the loop goes on after it. -/
  | turn (before after : List Token) (goesOn : Bool)

/-- Whether a step or turn does not go back and, if it is a turn after which the loop goes on, takes
a token which is not the end. -/
def Event.Progresses : Event → Prop
  | .advance before after => after <:+ before
  | .turn before after goesOn => after <:+ before ∧ (goesOn = true → Consumes before after)

/-- Whether the events lead from one position to another and make progress. Steps are the only way
to get on, each over one token; a turn is recorded where it ends. -/
inductive Leads : List Token → List Event → List Token → Prop
  | done (ts : List Token) : Leads ts [] ts
  | advance {ts left : List Token} {events : List Event} (h : Leads ts.tail events left) :
      Leads ts (.advance ts ts.tail :: events) left
  | turn {before ts left : List Token} {goesOn : Bool} {events : List Event}
      (hturn : (Event.turn before ts goesOn).Progresses) (h : Leads ts events left) :
      Leads ts (.turn before ts goesOn :: events) left

/-- Two ways that meet are one way, and the records of both stand one behind the other. -/
theorem Leads.append {ts mid left : List Token} {events events' : List Event}
    (h : Leads ts events mid) (h' : Leads mid events' left) :
    Leads ts (events ++ events') left := by
  induction h with
  | done => exact h'
  | advance _ ih => exact (ih h').advance
  | turn hturn _ ih => exact (ih h').turn hturn

/-- Every event on a way makes progress on its own: a step leaves the tail of the tokens, and a turn
is recorded only with the proof that it does. -/
theorem Leads.progresses {ts left : List Token} {events : List Event} (h : Leads ts events left) :
    ∀ e ∈ events, e.Progresses := by
  induction h with
  | done => exact List.forall_mem_nil _
  | advance _ ih => exact List.forall_mem_cons.2 ⟨List.tail_suffix _, ih⟩
  | turn hturn _ ih => exact List.forall_mem_cons.2 ⟨hturn, ih⟩

/-- What is led to is a rest of the tokens. -/
theorem Leads.suffix {ts left : List Token} {events : List Event} (h : Leads ts events left) :
    left <:+ ts := by
  induction h with
  | done => exact List.suffix_refl _
  | advance _ ih => exact ih.trans (List.tail_suffix _)
  | turn _ _ ih => exact ih

/-- How many of the tokens are not the end. -/
def wordCount (ts : List Token) : Nat := ts.countP (· != .eof)

/-- What is left of the tokens holds no more words than all of them, the end being none. -/
theorem wordCount_le {ts left : List Token} (h : left <:+ ts) : wordCount left ≤ wordCount ts :=
  h.sublist.countP_le

/-- A turn that takes a token leaves fewer. -/
theorem Consumes.wordCount_lt {before after : List Token} (h : Consumes before after) :
    wordCount after < wordCount before := by
  obtain ⟨t, rest, rfl, ht, hafter⟩ := h
  have hcons : wordCount (t :: rest) = wordCount rest + 1 :=
    List.countP_cons_of_pos (by simpa using ht)
  rw [hcons]
  exact Nat.lt_succ_of_le (wordCount_le hafter)

/-- A way that takes a token leads forward, like every other way. -/
theorem Consumes.suffix {before after : List Token} (h : Consumes before after) :
    after <:+ before := by
  obtain ⟨t, rest, rfl, -, hafter⟩ := h
  exact hafter.trans (List.suffix_cons _ _)

/-- A script that has an end has fewer other tokens than tokens. -/
theorem wordCount_lt_length {ts : List Token} (h : ts.getLast? = some .eof) :
    wordCount ts < ts.length := by
  obtain ⟨front, rfl⟩ := List.getLast?_eq_some_iff.1 h
  have hend : wordCount [Token.eof] = 0 := rfl
  rw [wordCount, List.countP_append, ← wordCount, ← wordCount, hend, List.length_append]
  exact Nat.lt_succ_of_le List.countP_le_length

/-! ### Routines -/

/-- A run of a routine from its start to its end. -/
structure Run (α : Type) where
  outcome : Except UnterminatedTable α
  /-- The position at the end. -/
  position : List Token
  /-- The steps and turns in their order. -/
  events : List Event

/-- A reader that goes token by token. From a position it has a run, unless one of its loops would
take more than `limit` turns in a row. -/
def Routine (α : Type) : Type := (limit : Nat) → List Token → Option (Run α)

/-- How a turn of a loop ends. -/
inductive Turn (σ ρ : Type) where
  | leave (result : ρ)
  | again (state : σ)

namespace Routine

/-- One routine after the other. What fails ends the whole. -/
protected def bind (p : Routine α) (f : α → Routine β) : Routine β := fun limit ts =>
  match p limit ts with
  | none => none
  | some ⟨.error e, position, events⟩ => some ⟨.error e, position, events⟩
  | some ⟨.ok a, position, events⟩ =>
    -- What comes behind goes on where the first one has ended, and so does its record.
    (f a limit position).map fun more => { more with events := events ++ more.events }

/-- Routines are put together in `do` blocks. The pure ones leave the position as it is and record
nothing. -/
instance : Monad Routine where
  pure a := fun _ ts => some ⟨.ok a, ts, []⟩
  bind := Routine.bind

/-- The current token. -/
def current : Routine Token := fun _ ts => some ⟨.ok (Ddl.current ts), ts, []⟩

/-- The token behind the current one. -/
def following : Routine Token := fun _ ts => some ⟨.ok (Ddl.current ts.tail), ts, []⟩

/-- Steps over the current token. Behind the last token the reader stays where it is. -/
def advance : Routine Unit := fun _ ts => some ⟨.ok (), ts.tail, [.advance ts ts.tail]⟩

/-- Fails on a table that is never closed. -/
def fail (e : UnterminatedTable) : Routine α := fun _ ts => some ⟨.error e, ts, []⟩

/-- At most `n` turns of a loop. If the loop is not left within them there is no run. Each turn
leaves an event behind, with where it began and ended. -/
def turns (body : σ → Routine (Turn σ ρ)) (limit : Nat) :
    (n : Nat) → σ → List Token → Option (Run ρ)
  | 0, _, _ => none
  | n + 1, s, ts =>
    match body s limit ts with
    | none => none
    | some ⟨.error e, position, events⟩ =>
      some ⟨.error e, position, events ++ [.turn ts position false]⟩
    | some ⟨.ok (.leave r), position, events⟩ =>
      some ⟨.ok r, position, events ++ [.turn ts position false]⟩
    | some ⟨.ok (.again s'), position, events⟩ =>
      (turns body limit n s' position).map fun more =>
        { more with events := events ++ .turn ts position true :: more.events }

/-- Takes turns, from a state on, until one leaves the loop. -/
def loop (body : σ → Routine (Turn σ ρ)) (s : σ) : Routine ρ := fun limit ts =>
  turns body limit limit s ts

/-! ### What a routine does -/

/-- Whether the routine comes from `ts` to `left` with this outcome. A loop may take one turn for
each token that is not the end, and one more. -/
def Runs (p : Routine α) (ts : List Token) (outcome : Except UnterminatedTable α)
    (left : List Token) : Prop :=
  ∀ limit, wordCount ts < limit →
    ∃ events, p limit ts = some ⟨outcome, left, events⟩ ∧ Leads ts events left

/-- A run leads forward. The limit of one more turn than there are words shows it, as any limit
above would. -/
theorem Runs.suffix {p : Routine α} {ts left : List Token} {outcome : Except UnterminatedTable α}
    (h : p.Runs ts outcome left) : left <:+ ts := by
  obtain ⟨_, _, hevents⟩ := h (wordCount ts + 1) (Nat.lt_succ_self _)
  exact hevents.suffix

/-- Whether what ends, with an outcome at a position, ends as a reader does: it leaves the same
tokens with the same value, or it fails as well, and then it stands at the end of the script. -/
def EndsAs (ends : Except UnterminatedTable α → List Token → Prop) :
    Except UnterminatedTable (Reading α) → Prop
  | .ok read => ends (.ok read.1) read.2
  | .error e => ∃ left, Ddl.current left = .eof ∧ ends (.error e) left

/-- Whatever is implied by an ending at a position may be put in its place, on success and on
failure alike. -/
theorem EndsAs.imp {ends ends' : Except UnterminatedTable α → List Token → Prop}
    {x : Except UnterminatedTable (Reading α)} (h : EndsAs ends x)
    (himp : ∀ outcome left, ends outcome left → ends' outcome left) : EndsAs ends' x := by
  cases x with
  | ok read => exact himp _ _ h
  | error e =>
      obtain ⟨left, hend, h⟩ := h
      exact ⟨left, hend, himp _ _ h⟩

/-- What ends as a reader does stands at the end of the script if the reader does where it yields
something. -/
theorem EndsAs.exists_end {ends : Except UnterminatedTable α → List Token → Prop}
    {x : Except UnterminatedTable (Reading α)} (h : EndsAs ends x)
    (hok : ∀ read, x = .ok read → Ddl.current read.2 = .eof) :
    ∃ left, Ddl.current left = .eof ∧ ends (x.map Prod.fst) left := by
  cases x with
  | ok read => exact ⟨read.2, hok read rfl, h⟩
  | error e => exact h

/-- Whether the routine does from `ts` on what a reader does. -/
def Follows (p : Routine α) (ts : List Token) (x : Except UnterminatedTable (Reading α)) : Prop :=
  EndsAs (p.Runs ts) x

/-- Whether the routine reads from `ts` on what a reader reads that cannot fail. -/
abbrev Reads (p : Routine α) (ts : List Token) (read : Reading α) : Prop := p.Follows ts (.ok read)

section Rules

variable {p : Routine α} {f : α → Routine β} {ts left : List Token}
  {x : Except UnterminatedTable (Reading β)}

/-- A routine that only yields a value reads nothing, and has no event to record. -/
theorem reads_pure (a : α) (ts : List Token) : (pure a : Routine α).Reads ts (a, ts) :=
  fun _ _ => ⟨[], rfl, .done ts⟩

/-- A look at the current token takes nothing: the position stays, and so does the record. -/
theorem reads_current (ts : List Token) : current.Reads ts (Ddl.current ts, ts) :=
  fun _ _ => ⟨[], rfl, .done ts⟩

/-- A look at the second token takes nothing either. -/
theorem reads_following (ts : List Token) : following.Reads ts (Ddl.current ts.tail, ts) :=
  fun _ _ => ⟨[], rfl, .done ts⟩

/-- One step over a token is the only event of its kind, from the tokens to their tail. -/
theorem reads_advance (ts : List Token) : advance.Reads ts ((), ts.tail) :=
  fun _ _ => ⟨_, rfl, (Leads.done _).advance⟩

/-- A routine that fails takes nothing. It is compared to a reader only where the script has ended,
since that is where readers fail. -/
theorem follows_fail (e : UnterminatedTable) (hend : Ddl.current ts = .eof) :
    (fail e : Routine α).Follows ts (.error e) :=
  ⟨ts, hend, fun _ _ => ⟨[], rfl, .done ts⟩⟩

/-- A run goes on with another one. -/
theorem Runs.bind {a : α} {outcome : Except UnterminatedTable β} {mid : List Token}
    (hp : p.Runs ts (.ok a) mid) (hf : (f a).Runs mid outcome left) :
    (p >>= f).Runs ts outcome left := by
  intro limit hlimit
  obtain ⟨events, hrun, hevents⟩ := hp limit hlimit
  -- Where the first run ends there are no more tokens than before, so the limit is still enough.
  have hlimit' := Nat.lt_of_le_of_lt (wordCount_le hp.suffix) hlimit
  obtain ⟨events', hrun', hevents'⟩ := hf limit hlimit'
  refine ⟨events ++ events', ?_, hevents.append hevents'⟩
  show Routine.bind p f limit ts = _
  rw [Routine.bind, hrun]
  dsimp only
  rw [hrun', Option.map_some]

/-- A run that fails does not go on. -/
theorem Runs.bind_error {e : UnterminatedTable} (hp : p.Runs ts (.error e) left) :
    (p >>= f).Runs ts (.error e) left := by
  intro limit hlimit
  obtain ⟨events, hrun, hevents⟩ := hp limit hlimit
  refine ⟨events, ?_, hevents⟩
  show Routine.bind p f limit ts = _
  rw [Routine.bind, hrun]

/-- What comes behind a reader follows what comes behind its routine. -/
theorem Reads.bind {read : Reading α} (hp : p.Reads ts read) (hf : (f read.1).Follows read.2 x) :
    (p >>= f).Follows ts x :=
  EndsAs.imp hf fun _ _ => Runs.bind hp

/-- Behind a reader that may fail comes something that cannot. -/
theorem Follows.map {y : Except UnterminatedTable (Reading α)} {g : Reading α → Reading β}
    (hp : p.Follows ts y) (hf : ∀ read, (f read.1).Reads read.2 (g read)) :
    (p >>= f).Follows ts (y.map g) := by
  cases y with
  | ok read => exact Reads.bind hp (hf read)
  | error e =>
      obtain ⟨left, hend, hp⟩ := hp
      exact ⟨left, hend, hp.bind_error⟩

/-- A look at the current token. -/
theorem Follows.look {f : Token → Routine β} (h : (f (Ddl.current ts)).Follows ts x) :
    (current >>= f).Follows ts x :=
  (reads_current ts).bind h

/-- A look at the token behind the current one. -/
theorem Follows.lookBehind {f : Token → Routine β} (h : (f (Ddl.current ts.tail)).Follows ts x) :
    (following >>= f).Follows ts x :=
  (reads_following ts).bind h

/-- A step over the current token. -/
theorem Follows.step {f : Unit → Routine β} (h : (f ()).Follows ts.tail x) :
    (advance >>= f).Follows ts x :=
  (reads_advance ts).bind h

/-- The first of two routines, where the condition holds. -/
theorem Follows.pos {c : Prop} [Decidable c] {q q' : Routine β} (hc : c) (h : q.Follows ts x) :
    (if c then q else q').Follows ts x := by
  rwa [if_pos hc]

/-- The second of two routines, where the condition does not hold. -/
theorem Follows.neg {c : Prop} [Decidable c] {q q' : Routine β} (hc : ¬ c) (h : q'.Follows ts x) :
    (if c then q else q').Follows ts x := by
  rwa [if_neg hc]

end Rules

/-! ### Loops -/

section Loops

variable {body : σ → Routine (Turn σ ρ)} {f : σ → List Token → Except UnterminatedTable (Reading ρ)}

/-- Whether the loop comes from `ts` to `left` with this outcome, again with one turn for each token
that is not the end, and one more. -/
def Loops (body : σ → Routine (Turn σ ρ)) (s : σ) (ts : List Token)
    (outcome : Except UnterminatedTable ρ) (left : List Token) : Prop :=
  ∀ limit n, wordCount ts < limit → wordCount ts < n →
    ∃ events, turns body limit n s ts = some ⟨outcome, left, events⟩ ∧ Leads ts events left

variable {s s' : σ} {ts mid left : List Token} {outcome : Except UnterminatedTable ρ}

/-- A loop is allowed as many turns as the limit says, which are enough if they are more than there
are words. -/
theorem Loops.runs (h : Loops body s ts outcome left) : (loop body s).Runs ts outcome left :=
  fun limit hlimit => h limit limit hlimit hlimit

/-- A turn that leaves the loop, or fails, is the last one. What becomes of the outcome is given by
a hypothesis, so that one lemma does for both. -/
theorem Runs.loops_last {last : Except UnterminatedTable (Turn σ ρ)}
    (h : (body s).Runs ts last left)
    (hlast : ∀ limit n events, body s limit ts = some ⟨last, left, events⟩ →
      turns body limit (n + 1) s ts = some ⟨outcome, left, events ++ [.turn ts left false]⟩) :
    Loops body s ts outcome left := by
  intro limit n hlimit hn
  obtain ⟨n, rfl⟩ := Nat.exists_eq_succ_of_ne_zero (Nat.ne_of_gt (Nat.zero_lt_of_lt hn))
  obtain ⟨events, hrun, hevents⟩ := h limit hlimit
  have hturn : (Event.turn ts left false).Progresses :=
    ⟨h.suffix, fun hgoes => absurd hgoes Bool.false_ne_true⟩
  exact ⟨_, hlast limit n events hrun, hevents.append (.turn hturn (.done left))⟩

/-- A turn that leaves the loop ends it with its own result. -/
theorem Runs.loops_leave {r : ρ} (h : (body s).Runs ts (.ok (.leave r)) left) :
    Loops body s ts (.ok r) left :=
  h.loops_last fun limit n events hrun => by rw [turns, hrun]

/-- A turn that fails ends the loop as well, and the loop fails with it. -/
theorem Runs.loops_error {e : UnterminatedTable} (h : (body s).Runs ts (.error e) left) :
    Loops body s ts (.error e) left :=
  h.loops_last fun limit n events hrun => by rw [turns, hrun]

/-- A turn that takes a token comes before the others. -/
theorem Runs.loops_again (h : (body s).Runs ts (.ok (.again s')) mid) (hmid : Consumes ts mid)
    (hloops : Loops body s' mid outcome left) : Loops body s ts outcome left := by
  intro limit n hlimit hn
  obtain ⟨n, rfl⟩ := Nat.exists_eq_succ_of_ne_zero (Nat.ne_of_gt (Nat.zero_lt_of_lt hn))
  obtain ⟨events, hrun, hevents⟩ := h limit hlimit
  -- The turn has taken a token, so that one turn less is enough for the rest.
  obtain ⟨events', hrun', hevents'⟩ := hloops limit n (Nat.lt_trans hmid.wordCount_lt hlimit)
    (Nat.lt_of_lt_of_le hmid.wordCount_lt (Nat.le_of_lt_succ hn))
  refine ⟨_, by rw [turns, hrun]; dsimp only; rw [hrun', Option.map_some], ?_⟩
  exact hevents.append (.turn ⟨hmid.suffix, fun _ => hmid⟩ hevents')

/-- What one turn of a loop does, beside a reader `f`: it leaves with what the reader yields, or it
takes a token and leaves the rest of the reading to the turns behind it, or it fails as the reader
does. -/
inductive Takes (body : σ → Routine (Turn σ ρ))
    (f : σ → List Token → Except UnterminatedTable (Reading ρ)) (s : σ) (ts : List Token) : Prop
  | leave (r : ρ) (left : List Token) (hrun : (body s).Reads ts (.leave r, left))
      (hf : f s ts = .ok (r, left))
  | again (s' : σ) (mid : List Token) (hrun : (body s).Reads ts (.again s', mid))
      (hmid : Consumes ts mid) (hf : f s ts = f s' mid)
  | fail (e : UnterminatedTable) (hrun : (body s).Follows ts (.error e)) (hf : f s ts = .error e)

/-- A loop does what a reader does if each of its turns does. By induction on the tokens that are
left: a turn that is not the last one takes one of them. -/
theorem endsAs_loops (h : ∀ s ts, Takes body f s ts) (s : σ) (ts : List Token) :
    EndsAs (Loops body s ts) (f s ts) := by
  cases h s ts with
  | leave r left hrun hf =>
      rw [hf]
      exact Runs.loops_leave hrun
  | again s' mid hrun hmid hf =>
      rw [hf]
      exact (endsAs_loops h _ _).imp fun _ _ => Runs.loops_again hrun hmid
  | fail e hrun hf =>
      obtain ⟨left, hend, hrun⟩ := hrun
      rw [hf]
      exact ⟨left, hend, hrun.loops_error⟩
termination_by wordCount ts
decreasing_by exact hmid.wordCount_lt

/-- **A loop follows a reader if each of its turns does.** Only one turn has to be looked at, from
any state at any position; that the turns come to an end, and in time, is by induction on the words
that are left. -/
theorem follows_loop (h : ∀ s ts, Takes body f s ts) (s : σ) (ts : List Token) :
    (loop body s).Follows ts (f s ts) :=
  (endsAs_loops h s ts).imp fun _ _ => Loops.runs

/-- The same beside a reader that cannot fail. -/
theorem reads_loop (g : σ → List Token → Reading ρ)
    (h : ∀ s ts, Takes body (fun s ts => .ok (g s ts)) s ts) (s : σ) (ts : List Token) :
    (loop body s).Reads ts (g s ts) :=
  follows_loop h s ts

end Loops

end Routine

end EntityDiagram.Ddl
