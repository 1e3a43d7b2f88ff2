import EntityDiagram.Proofs.Excerpt.Enclosure
import EntityDiagram.Proofs.Text.Locality
import EntityDiagram.Proofs.Text.Replacement

/-!
# `EntityDiagram.Proofs.Excerpt.Progress`: a scan, head by head

Every head of a table takes characters, and so does every body. So `scanFrom` never runs out of the
fuel it starts with, and `scanAt`, the scan from a place on with fuel enough, satisfies equations
that do not speak of fuel: `scanAt_of_none`, `scanAt_of_open` and `scanAt_of_closed`, one for each
thing that can become of the next head.

`carries_tableHead` says that a head does not reach past a semicolon, a quote or the like.

With `scanAt` a scan can be followed head by head, as the three equations leave no bound to be
carried through an induction. `scanAt_congr` says that a scan depends on the text only through what
the search for the next head finds, which is how two scans that start at different places are
compared.

A head is searched for by a pattern, and that it has characters is seen from its parts: the word
`CREATE` is one of them (`consuming_tableHead`).
-/

set_option autoImplicit false

namespace EntityDiagram.Excerpt

open Text (isSpace isWordChar Pattern Place Span)
open Text.Pattern
open Sql (Nesting)

/-! ### Heads and groups take characters -/

/-- A head of a table has characters. -/
theorem consuming_tableHead : Consuming tableHead :=
  .bind_right .boundary fun _ => .bind_right (.word _) fun _ => .bind_right .spaces1 fun _ =>
    .bind_right (.optional ((Forward.word _).bind fun _ => .spaces1)) fun _ =>
    .bind_right (.word _) fun _ => .bind_right .spaces1 fun _ =>
    .bind_right (.optional ((Forward.word _).bind fun _ => Forward.spaces1.bind fun _ =>
      (Forward.word _).bind fun _ => Forward.spaces1.bind fun _ => (Forward.word _).bind fun _ =>
        .spaces1)) fun _ =>
    .bind_right (.span (.some1 _)) fun _ => .bind_right .spaces fun _ =>
    .char_bind _ fun _ => .pure _

/-- What a search finds ends behind the place where it began. -/
theorem length_stop_lt {here : Place} {head : Found Span} (h : tableHead.search here = some head) :
    head.stop.rest.length < here.rest.length := by
  obtain ⟨hstart, hmem⟩ := searchFrom_spec h
  exact Nat.lt_of_lt_of_le (consuming_tableHead _ _ hmem) hstart.length_le

/-- What a group leaves is shorter. -/
theorem length_tail_lt {n : Nesting} {s body tail : List Char}
    (h : closeGroup n s = some (body, tail)) : tail.length < s.length := by
  rw [eq_of_closeGroup h, List.length_append, List.length_cons]
  omega

/-! ### Scans without fuel -/

/-- The scan of the text from a place on. -/
def scanAt (here : Place) : Scan := scanFrom (here.rest.length + 1) here

/-- With fuel enough, more fuel changes nothing. -/
theorem scanFrom_eq_scanAt {fuel : Nat} {here : Place} (h : here.rest.length < fuel) :
    scanFrom fuel here = scanAt here := by
  -- On the fuel: each round leaves less text.
  have key (n : Nat) : ∀ fuel fuel' (here : Place), here.rest.length < n → here.rest.length < fuel →
      here.rest.length < fuel' → scanFrom fuel here = scanFrom fuel' here := by
    induction n with
    | zero => exact fun _ _ _ h => absurd h (Nat.not_lt_zero _)
    | succ n ih =>
        intro fuel fuel' here hn hfuel hfuel'
        obtain ⟨fuel, rfl⟩ := Nat.exists_eq_succ_of_ne_zero (Nat.ne_of_gt (Nat.zero_lt_of_lt hfuel))
        obtain ⟨fuel', rfl⟩ :=
          Nat.exists_eq_succ_of_ne_zero (Nat.ne_of_gt (Nat.zero_lt_of_lt hfuel'))
        rw [scanFrom, scanFrom]
        cases hsearch : tableHead.search here with
        | none => rfl
        | some head =>
            have hstop := length_stop_lt hsearch
            dsimp only
            cases hgroup : closeGroup {} head.stop.rest with
            | none =>
                dsimp only
                rw [ih fuel fuel' head.stop (by omega) (by omega) (by omega)]
            | some cut =>
                obtain ⟨body, tail⟩ := cut
                have htail := length_tail_lt hgroup
                dsimp only
                rw [ih fuel fuel' ⟨some ')', tail⟩ (by dsimp only; omega) (by dsimp only; omega)
                  (by dsimp only; omega)]
  exact key fuel fuel _ here h h (Nat.lt_succ_self _)

/-- The tables of a script are those that a scan from its start finds. -/
theorem scan_eq_scanAt (sql : String) :
    scan sql = scanAt (.start (stripComments sql.toList)) := rfl

/-- A scan depends on where it finds the next head. -/
theorem scanAt_congr {here there : Place}
    (h : tableHead.search here = tableHead.search there) : scanAt here = scanAt there := by
  have hle : here.rest.length < here.rest.length + there.rest.length + 1 := by omega
  have hle' : there.rest.length < here.rest.length + there.rest.length + 1 := by omega
  rw [← scanFrom_eq_scanAt hle, ← scanFrom_eq_scanAt hle', scanFrom, scanFrom, h]

variable {here : Place} {head : Found Span}

/-- Without another head there is nothing more to find. -/
theorem scanAt_of_none (h : tableHead.search here = none) : scanAt here = {} := by
  rw [scanAt, scanFrom, h]

/-- A head that is never closed is reported, and the scan goes on behind it. Only the head is
stepped over, so that a table inside of the open body is still found. -/
theorem scanAt_of_open (h : tableHead.search here = some head)
    (hopen : closeGroup {} head.stop.rest = none) :
    scanAt here = { scanAt head.stop with
      unterminated := Sql.objectName head.value.text :: (scanAt head.stop).unterminated } := by
  rw [scanAt, scanFrom, h]
  dsimp only
  rw [hopen]
  dsimp only
  rw [scanFrom_eq_scanAt (length_stop_lt h)]

/-- A head that is closed makes a table, and the scan goes on behind its body. The body itself is
not searched. -/
theorem scanAt_of_closed (h : tableHead.search here = some head) {body tail : List Char}
    (hclosed : closeGroup {} head.stop.rest = some (body, tail)) :
    scanAt here = { scanAt ⟨some ')', tail⟩ with
      tables :=
        { qualifiedName := head.value.text
          body := String.ofList body
          comment := commentIn tail } :: (scanAt ⟨some ')', tail⟩).tables } := by
  have hle := (length_tail_lt hclosed).trans (length_stop_lt h)
  rw [scanAt, scanFrom, h]
  dsimp only
  rw [hclosed]
  dsimp only
  have hrest : scanFrom here.rest.length ⟨some ')', tail⟩ = scanAt ⟨some ')', tail⟩ :=
    scanFrom_eq_scanAt hle
  rw [hrest]

/-! ### Where a head ends -/

/-- A head does not reach past a character that cannot stand in one. So a search before such a
character is not affected by what follows it. -/
theorem carries_tableHead {w : List Char}
    (hw : ∀ c ∈ w.head?, isWordChar c = false ∧ isSpace c = false ∧
      c ∉ ['`', '"', '[', ']', '$', '.', '(']) :
    Carries w (Span.extend w) tableHead tableHead := by
  have hword : ∀ c ∈ w.head?, isWordChar c = false := fun c hc => (hw c hc).1
  have hspace : ∀ c ∈ w.head?, isSpace c = false := fun c hc => (hw c hc).2.1
  have hname : ∀ c ∈ w.head?, (c == '`' || c == '"' || c == '[' || c == ']' || isWordChar c ||
      c == '$' || c == '.') = false := by
    intro c hc
    have hnot := (hw c hc).2.2
    simp only [List.mem_cons, List.not_mem_nil, or_false, not_or] at hnot
    simp [hnot, hword c hc]
  have hparen : ∀ c ∈ w.head?, (c == '(') = false := by
    intro c hc
    have hnot := (hw c hc).2.2
    simp only [List.mem_cons, List.not_mem_nil, or_false, not_or] at hnot
    simp [hnot]
  -- Along the pattern, since none of its parts reads the character.
  refine (Carries.boundary hword).bind fun _ => ?_
  refine (Carries.word (by decide) hword).bind fun _ => (Carries.spaces1 hspace).bind fun _ => ?_
  refine (Carries.optional ((Carries.word (by decide) hword).bind fun _ =>
    Carries.spaces1 hspace)).bind fun _ => ?_
  refine (Carries.word (by decide) hword).bind fun _ => (Carries.spaces1 hspace).bind fun _ => ?_
  refine (Carries.optional ((Carries.word (by decide) hword).bind fun _ =>
    (Carries.spaces1 hspace).bind fun _ => (Carries.word (by decide) hword).bind fun _ =>
    (Carries.spaces1 hspace).bind fun _ => (Carries.word (by decide) hword).bind fun _ =>
    Carries.spaces1 hspace)).bind fun _ => ?_
  refine (Carries.span (Carries.some1 hname)).bind fun name => ?_
  refine (Carries.spaces hspace).bind fun _ => (Carries.char hparen).bind fun _ => ?_
  exact Carries.pure _ name

end EntityDiagram.Excerpt
