import EntityDiagram.Proofs.Ddl.Token.Tidying
import EntityDiagram.Proofs.Sql.ClientScript

/-!
# `EntityDiagram.Proofs.Ddl.Preprocessing`: what preprocessing does to statements

`Sql.withoutClientCommands` works on raw text and knows neither quotes nor statements. A script is
taken here as a list of pieces: statements, each with its semicolon, and any other text between
them, such as triggers and `DELIMITER` lines. Two things decide whether a statement is still read
as the same tokens:

* The deletions leave enough of every piece, which `Spared` says: a statement is still read as its
  tokens, and other text still ends where a round of the lexer ends.
* No run of semicolons or of blank lines stands in its quotes, `Statement.Quiet`, since tidying
  shortens runs in literals and quoted names too.

`withoutClientCommands_spared` says that both are enough for all statements to occur, in order, and
that the second is also necessary where a script consists of statements.

`Spared` relates a script to what the deletions leave of it, so it has to be shown for a script
before the theorem says anything about it. It holds wherever nothing but complete commands and white
space stands between the statements, and no statement can be taken for a command
(`exists_spared_piecesOf`). Then the second condition alone decides (`occurInOrder_piecesOf`). It
does not hold of every script: `not_occurInOrder_exampleDelimiter` is a table that loses the line of
a column, since the line passes for a command.

* `occurInOrder_of_spared`, `tokens_eq_iff_of_spared`: the two passes that tidy, on a script whose
  statements are spared. Both are inductions over the pieces, with some characters at most still to
  be dropped in front of the next one.
* `toList_withoutClientCommands`: what the deletions leave, tidied, is the result.
-/

set_option autoImplicit false

namespace EntityDiagram.Ddl

open Token (Round Reads tokens tokensRead)
open Sql (withoutClientCommands)
open Sql.ClientCommand (Thinned runs tidy remaining Filler Unmistaken partsOf spacedParts)
open Sql.ClientCommand.Filler (lineBreak textOf)

/-! ### Statements and scripts -/

/-- A statement up to its semicolon, with the rounds in which the lexer reads it. -/
structure Statement where
  text : List Char
  rounds : List Round
  reads : Reads (text ++ [';']) rounds [';']
  semicolonFree : .semicolon ∉ tokensRead rounds

namespace Statement

/-- The tokens of the statement. -/
def tokens (s : Statement) : List Token := tokensRead s.rounds

/-- Whether no run stands in quotes. -/
def Quiet (s : Statement) : Prop := ∀ r ∈ s.rounds, r.Quiet

/-- The rounds of a statement are looked through one by one. -/
instance (s : Statement) : Decidable s.Quiet :=
  inferInstanceAs (Decidable (∀ r ∈ s.rounds, r.Quiet))

/-- A statement that the lexer reads in `n` rounds. -/
def ofText (n : Nat) (text : List Char)
    (hleft : (Token.advance n (text ++ [';'])).2 = [';'])
    (hfree : .semicolon ∉ tokensRead (Token.advance n (text ++ [';'])).1) : Statement :=
  ⟨text, _, Token.reads_of_advance hleft, hfree⟩

/-- The lexer reads the statement in the same way whatever follows its semicolon. -/
theorem reads_append (s : Statement) (more : List Char) :
    Reads (s.text ++ ';' :: more) s.rounds (';' :: more) := by
  have h := s.reads.append (by simp) more
  rwa [List.append_assoc] at h

/-- The statement comes first among the tokens, with its semicolon. -/
theorem tokens_append (s : Statement) (more : List Char) :
    Token.tokens (s.text ++ ';' :: more) = s.tokens ++ .semicolon :: Token.tokens more := by
  rw [(s.reads_append more).tokens_eq, Token.tokens_of_step (Token.step_symbol rfl more)]
  rfl

/-- A statement in a shortened text. Its semicolon may be missing if it has no tokens. What is
dropped from the text is white space and semicolons in runs, so the tokens keep their number and can
only change within quotes. -/
theorem thinned (s : Statement) {x more s' : List Char}
    (h : Thinned runs x (s.text ++ ';' :: more) s') :
    ∃ ts y left', Thinned runs y more left' ∧ ts.length = s.tokens.length ∧
      (ts = s.tokens ↔ s.Quiet) ∧ (Token.tokens s' = ts ++ .semicolon :: Token.tokens left' ∨
        s.tokens = [] ∧ Token.tokens s' = ts ++ Token.tokens left') := by
  obtain ⟨y, rounds', left, hreads, hleft, hfollows⟩ := (s.reads_append more).thinned h
  -- The semicolon is kept, or it is dropped because another one stands right before the statement.
  obtain ⟨hlength, heq, hsemicolon⟩ := hfollows s.semicolonFree
  cases hleft with
  | @keep _ z _ left' hstart hz hleft =>
      refine ⟨tokensRead rounds', z, left', hleft, hlength, heq, .inl ?_⟩
      rw [hreads.tokens_eq, Token.tokens_of_step (Token.step_symbol rfl left')]
      rfl
  | @drop _ _ z _ _ hdrop hleft =>
      refine ⟨tokensRead rounds', z, left, hleft, hlength, heq, .inr ⟨?_, hreads.tokens_eq⟩⟩
      obtain ⟨hnil, -⟩ := hsemicolon List.mem_cons_self
      rw [tokens, hnil]
      rfl

end Statement

/-- A piece of a script. -/
inductive Piece where
  /-- A statement with its semicolon. -/
  | statement (s : Statement)
  /-- Any other text. -/
  | other (text : List Char)

/-- The text of a piece. -/
def Piece.text : Piece → List Char
  | .statement s => s.text ++ [';']
  | .other text => text

/-- The statement that a piece is. -/
def Piece.statement? : Piece → Option Statement
  | .statement s => some s
  | .other _ => none

/-- The text of a script. -/
def scriptOf (ps : List Piece) : List Char := (ps.map Piece.text).flatten

/-- The statements of a script, in order. -/
def statementsOf (ps : List Piece) : List Statement := ps.filterMap Piece.statement?

/-- The second script is the first after deletions that leave the tokens of its statements. -/
inductive Spared : List Piece → List Piece → Prop where
  | nil : Spared [] []
  | statement {s s' : Statement} {ps ps' : List Piece} (h : s'.tokens = s.tokens)
      (hps : Spared ps ps') : Spared (.statement s :: ps) (.statement s' :: ps')
  /-- What is left of other text ends where a round of the lexer ends. -/
  | other {text text' : List Char} {rounds : List Round} {ps ps' : List Piece}
      (h : Reads (text' ++ scriptOf ps') rounds (scriptOf ps')) (hps : Spared ps ps') :
      Spared (.other text :: ps) (.other text' :: ps')

/-- The lists occur in the last argument, one after another. -/
inductive OccurInOrder : List (List Token) → List Token → Prop where
  | nil (ts : List Token) : OccurInOrder [] ts
  | cons {part : List Token} {parts : List (List Token)} (before : List Token) {after : List Token}
      (h : OccurInOrder parts after) : OccurInOrder (part :: parts) (before ++ (part ++ after))

namespace OccurInOrder

/-- They also occur in a longer list. -/
theorem append {parts : List (List Token)} {ts : List Token} (h : OccurInOrder parts ts)
    (more : List Token) : OccurInOrder parts (more ++ ts) := by
  cases h with
  | nil => exact .nil _
  | cons before h =>
      rw [← List.append_assoc]
      exact .cons (more ++ before) h

/-- Every token of them occurs. -/
theorem mem {parts : List (List Token)} {ts : List Token} (h : OccurInOrder parts ts) :
    ∀ part ∈ parts, ∀ t ∈ part, t ∈ ts := by
  induction h with
  | nil => simp
  | cons before h ih =>
      intro part hpart t ht
      rcases List.mem_cons.1 hpart with rfl | hpart
      · exact List.mem_append_right _ (List.mem_append_left _ ht)
      · exact List.mem_append_right _ (List.mem_append_right _ (ih part hpart t ht))

end OccurInOrder

/-- A statement stands in a script with its semicolon. -/
theorem scriptOf_statement (s : Statement) (ps : List Piece) :
    scriptOf (.statement s :: ps) = s.text ++ ';' :: scriptOf ps := by
  simp [scriptOf, Piece.text]

/-- Anything else stands in a script as it is. -/
theorem scriptOf_other (text : List Char) (ps : List Piece) :
    scriptOf (.other text :: ps) = text ++ scriptOf ps := rfl

/-! ### Tidying scripts -/

/-- The statements that are spared and hold no run in quotes occur in the tidied script. Between
them there may be what was left of other pieces. -/
theorem occurInOrder_of_spared {ps ps' : List Piece} (h : Spared ps ps')
    (hquiet : ∀ s ∈ statementsOf ps', s.Quiet) {x s' : List Char}
    (hs : Thinned runs x (scriptOf ps') s') :
    OccurInOrder ((statementsOf ps).map Statement.tokens) (tokens s') := by
  -- On the pieces: the lexer stands in front of the same piece in both texts, with some characters
  -- at most still to be dropped there.
  induction h generalizing x s' with
  | nil => exact .nil _
  | @statement s t ps ps' htokens hps ih =>
      rw [scriptOf_statement] at hs
      obtain ⟨ts, y, left', hleft, -, heq, hread⟩ := t.thinned hs
      obtain rfl : ts = s.tokens := (heq.2 (hquiet t List.mem_cons_self)).trans htokens
      have hrest := ih (fun s hs => hquiet s (List.mem_cons_of_mem t hs)) hleft
      rcases hread with hread | ⟨-, hread⟩
      · rw [hread]
        exact .cons [] (hrest.append [.semicolon])
      · rw [hread]
        exact .cons [] hrest
  | @other text text' rounds ps ps' hreads hps ih =>
      rw [scriptOf_other] at hs
      obtain ⟨y, rounds', left', hreads', hleft, -⟩ := hreads.thinned hs
      rw [hreads'.tokens_eq]
      exact (ih hquiet hleft).append _

/-- A script of spared statements is read unchanged exactly when no run stands in quotes. With no
other pieces around them there is nothing else that the tokens could differ in. -/
theorem tokens_eq_iff_of_spared {ps ps' : List Piece} (h : Spared ps ps')
    (hstatements : ∀ p ∈ ps, ∃ s, p = .statement s ∧ s.tokens ≠ []) {x s' : List Char}
    (hs : Thinned runs x (scriptOf ps') s') :
    tokens s' = tokens (scriptOf ps) ↔ ∀ s ∈ statementsOf ps', s.Quiet := by
  induction h generalizing x s' with
  | nil =>
      cases hs
      exact iff_of_true rfl (by simp [statementsOf])
  | @statement s t ps ps' htokens hps ih =>
      rw [scriptOf_statement] at hs
      obtain ⟨ts, y, left', hleft, hlength, heq, hread⟩ := t.thinned hs
      rw [htokens] at hlength heq hread
      -- A statement with tokens keeps its semicolon.
      have hne : s.tokens ≠ [] := by
        obtain ⟨s, hs, hne⟩ := hstatements _ List.mem_cons_self
        cases hs
        exact hne
      have hread' := hread.resolve_right fun hnil => hne hnil.1
      have hrest := ih (fun p hp => hstatements p (List.mem_cons_of_mem _ hp)) hleft
      have hquiet : (∀ s ∈ statementsOf (.statement t :: ps'), s.Quiet) ↔
          t.Quiet ∧ ∀ s ∈ statementsOf ps', s.Quiet := List.forall_mem_cons
      rw [hread', scriptOf_statement, s.tokens_append, hquiet, ← heq, ← hrest]
      constructor
      · intro h
        -- As many tokens are read as the statement has, so the semicolons stand at the same places.
        obtain ⟨hts, hmore⟩ := List.append_inj h hlength
        exact ⟨hts, (List.cons.inj hmore).2⟩
      · rintro ⟨hts, hmore⟩
        rw [hts, hmore]
  | other =>
      obtain ⟨s, hs, -⟩ := hstatements _ List.mem_cons_self
      cases hs

/-- Preprocessing tidies what the deletions leave of a script. The deletions come first, and tidying
is the last pass. -/
theorem toList_withoutClientCommands {ps ps' : List Piece} {sql : String}
    (hsql : sql.toList = scriptOf ps)
    (hleft : remaining (ps.map Piece.text) = ps'.map Piece.text) :
    (withoutClientCommands sql).toList = tidy (scriptOf ps') := by
  rw [withoutClientCommands, String.toList_ofList, hsql, scriptOf,
    Sql.ClientCommand.remove_flatten, hleft, scriptOf]

/-- Statements are spared by deletions that leave them as they are. -/
theorem Spared.refl (ss : List Statement) :
    Spared (ss.map Piece.statement) (ss.map Piece.statement) := by
  induction ss with
  | nil => exact .nil
  | cons s ss ih => exact .statement rfl ih

/-- A script of statements alone has these and no others. -/
theorem statementsOf_map (ss : List Statement) : statementsOf (ss.map Piece.statement) = ss := by
  induction ss with
  | nil => rfl
  | cons s ss ih => exact congrArg (s :: ·) ih

/-- A script of statements that mentions neither triggers nor delimiters is read unchanged exactly
when no run stands in quotes. -/
theorem tokens_withoutClientCommands_eq_iff {ss : List Statement} {sql : String}
    (hsql : sql.toList = scriptOf (ss.map Piece.statement)) (hss : ∀ s ∈ ss, s.tokens ≠ [])
    (htrigger : (Text.Pattern.word "TRIGGER").occursIn sql.toList = false)
    (hdelimiter : (Text.Pattern.word "DELIMITER").occursIn sql.toList = false) :
    tokens (withoutClientCommands sql).toList = tokens sql.toList ↔ ∀ s ∈ ss, s.Quiet := by
  rw [hsql] at htrigger hdelimiter
  have hleft := Sql.ClientCommand.remaining_eq_self htrigger hdelimiter
  have hstatements : ∀ p ∈ ss.map Piece.statement, ∃ s, p = .statement s ∧ s.tokens ≠ [] := by
    intro p hp
    obtain ⟨s, hs, rfl⟩ := List.mem_map.1 hp
    exact ⟨s, rfl, hss s hs⟩
  rw [toList_withoutClientCommands hsql hleft, hsql,
    tokens_eq_iff_of_spared (.refl ss) hstatements (Sql.ClientCommand.thinned_tidy _),
    statementsOf_map]

/-- What preprocessing does to a script whose statements its deletions spare. If no run of
semicolons or of blank lines stands in quotes, the tokens of all statements occur in order. A script
of statements is read unchanged exactly in this case. -/
theorem withoutClientCommands_spared {ps ps' : List Piece} {sql : String}
    (hsql : sql.toList = scriptOf ps) (h : Spared ps ps')
    (hleft : remaining (ps.map Piece.text) = ps'.map Piece.text) :
    ((∀ s ∈ statementsOf ps', s.Quiet) →
        OccurInOrder ((statementsOf ps).map Statement.tokens)
          (tokens (withoutClientCommands sql).toList)) ∧
      ((∀ p ∈ ps, ∃ s, p = .statement s ∧ s.tokens ≠ []) →
        (tokens (withoutClientCommands sql).toList = tokens sql.toList ↔
          ∀ s ∈ statementsOf ps', s.Quiet)) := by
  have hthinned := Sql.ClientCommand.thinned_tidy (scriptOf ps')
  rw [toList_withoutClientCommands hsql hleft, hsql]
  exact ⟨fun hquiet => occurInOrder_of_spared h hquiet hthinned,
    fun hstatements => tokens_eq_iff_of_spared h hstatements hthinned⟩

/-! ### Complete commands -/

/-- A script of statements: what stands in front of the first one, and each statement with what
stands between it and the next one. -/
def piecesOf : List Filler → List (Statement × List Filler) → List Piece
  | is, [] => [.other (textOf is)]
  | is, (s, next) :: more => .other (textOf is) :: .statement s :: piecesOf (lineBreak :: next) more

/-- The texts of the pieces are the parts of the script. -/
theorem map_text_piecesOf (is : List Filler) (sections : List (Statement × List Filler)) :
    (piecesOf is sections).map Piece.text =
      partsOf is (sections.map fun s => (s.1.text, s.2)) := by
  induction sections generalizing is with
  | nil => rfl
  | cons s sections ih =>
      rw [piecesOf, List.map_cons, List.map_cons, ih]
      rfl

/-- **Complete commands spare the statements.** The deletions take the commands between statements
that can be taken for no command, and leave the statements as they are. -/
theorem exists_spared_piecesOf (front : List Filler) {sections : List (Statement × List Filler)}
    (h : ∀ s ∈ sections, Unmistaken s.1.text) :
    ∃ ps', Spared (piecesOf front sections) ps' ∧
      remaining ((piecesOf front sections).map Piece.text) = ps'.map Piece.text ∧
        statementsOf ps' = sections.map Prod.fst := by
  -- White space between the same statements is what the deletions leave.
  have hspaced (is : List Filler) (g : Gap) (left : List (List Char × Gap))
      (hleft : left.map Prod.fst = sections.map fun s => s.1.text) :
      ∃ ps', Spared (piecesOf is sections) ps' ∧ spacedParts g left = ps'.map Piece.text ∧
        statementsOf ps' = sections.map Prod.fst := by
    clear h
    induction sections generalizing is g left with
    | nil =>
        obtain rfl := List.map_eq_nil_iff.1 hleft
        obtain ⟨rounds, hreads⟩ := Token.exists_reads_spaces g.isSpace []
        exact ⟨[.other g.chars], .other hreads .nil, rfl, rfl⟩
    | cons s sections ih =>
        obtain ⟨⟨text, next⟩, left, rfl⟩ : ∃ next left', left = next :: left' :=
          List.exists_cons_of_ne_nil fun hnil => by simp [hnil] at hleft
        obtain ⟨htext, hleft⟩ := List.cons.inj hleft
        obtain ⟨ps', hspared, hparts, hstatements⟩ := ih (lineBreak :: s.2) next left hleft
        have hreads := Token.exists_reads_spaces g.isSpace (scriptOf (.statement s.1 :: ps'))
        obtain ⟨rounds, hreads⟩ := hreads
        refine ⟨.other g.chars :: .statement s.1 :: ps', ?_, ?_, ?_⟩
        · exact .other hreads (.statement rfl hspared)
        · rw [spacedParts, hparts, show text = s.1.text from htext]
          rfl
        · exact congrArg (s.1 :: ·) hstatements
  have hmistaken : ∀ s ∈ sections.map fun s => (s.1.text, s.2), Unmistaken s.1 :=
    List.forall_mem_map.2 h
  obtain ⟨g, left, hleft, hremaining⟩ :=
    Sql.ClientCommand.exists_remaining_partsOf front hmistaken
  rw [List.map_map] at hleft
  obtain ⟨ps', hspared, hparts, hstatements⟩ := hspaced front g left hleft
  exact ⟨ps', hspared, by rw [map_text_piecesOf, hremaining, hparts], hstatements⟩

/-- **Preprocessing takes complete commands and keeps the statements.** Whatever triggers are
dropped and created and whatever delimiters are set between them, the statements that can be taken
for no command and hold no run in quotes occur in order. -/
theorem occurInOrder_piecesOf (front : List Filler) {sections : List (Statement × List Filler)}
    {sql : String} (hsql : sql.toList = scriptOf (piecesOf front sections))
    (h : ∀ s ∈ sections, Unmistaken s.1.text) (hquiet : ∀ s ∈ sections, s.1.Quiet) :
    OccurInOrder ((statementsOf (piecesOf front sections)).map Statement.tokens)
      (tokens (withoutClientCommands sql).toList) := by
  obtain ⟨ps', hspared, hleft, hstatements⟩ := exists_spared_piecesOf front h
  rw [toList_withoutClientCommands hsql hleft]
  refine occurInOrder_of_spared hspared ?_ (Sql.ClientCommand.thinned_tidy _)
  rw [hstatements]
  exact List.forall_mem_map.2 hquiet

/-! ### Examples -/

/-- A table with a semicolon in a comment. -/
def exampleComment : Statement :=
  .ofText 15 "CREATE TABLE a (n INT COMMENT 'x;y')".toList (by decide +kernel) (by decide +kernel)

/-- A table with a quoted name. -/
def exampleName : Statement :=
  .ofText 11 "CREATE TABLE `b` (m INT)".toList (by decide +kernel) (by decide +kernel)

/-- Two tables with triggers and delimiters around them. -/
def exampleScript : List Piece := [
  .other "DROP TRIGGER IF EXISTS `log`;\n".toList,
  .statement exampleComment,
  .other ("\nDELIMITER ;;\nCREATE TRIGGER log AFTER INSERT ON a FOR EACH ROW BEGIN\n" ++
    "  DELETE FROM b;\nEND;;\nDELIMITER ;\n\n\n").toList,
  .statement exampleName,
  .other ";\n".toList]

/-- What the deletions leave of the script. -/
def exampleLeft : List Piece := [
  .other "\n".toList,
  .statement exampleComment,
  .other "\n\n".toList,
  .statement exampleName,
  .other ";\n".toList]

/-- By computation, the passes take the trigger with its body and both `DELIMITER` lines, and leave
the two statements. -/
theorem remaining_exampleScript :
    remaining (exampleScript.map Piece.text) = exampleLeft.map Piece.text := by
  -- The literals are opened by lemmas, since to decode them would take the kernel long.
  rw [exampleScript, String.toList_append]
  repeat rw [String.toList_ofList]
  decide +kernel

/-- Both statements keep their tokens, and what is left of the text around them, line breaks and a
semicolon, is read in rounds of its own. -/
theorem spared_exampleScript : Spared exampleScript exampleLeft := by
  refine .other (Token.reads_of_advance (n := 1) (by decide +kernel)) (.statement rfl ?_)
  refine .other (Token.reads_of_advance (n := 2) (by decide +kernel)) (.statement rfl ?_)
  exact .other (Token.reads_of_advance (n := 2) (by decide +kernel)) .nil

/-- Both tables of the script are kept. The first one has a semicolon in a comment, and a trigger is
created between them. -/
theorem withoutClientCommands_exampleScript :
    Spared exampleScript exampleLeft ∧
      remaining (exampleScript.map Piece.text) = exampleLeft.map Piece.text ∧
      OccurInOrder [exampleComment.tokens, exampleName.tokens]
        (tokens (withoutClientCommands (String.ofList (scriptOf exampleScript))).toList) := by
  refine ⟨spared_exampleScript, remaining_exampleScript, ?_⟩
  have hspared := withoutClientCommands_spared (String.toList_ofList (l := scriptOf exampleScript))
    spared_exampleScript remaining_exampleScript
  exact hspared.1 (by decide +kernel)

/-- A table whose only column is named like a client command, on a line of its own. -/
def exampleDelimiter : Statement :=
  .ofText 15 "CREATE TABLE t (\n  delimiter INT\n)".toList (by decide +kernel) (by decide +kernel)

/-- The table loses its column: the line is taken for a command that sets the delimiter. -/
theorem not_occurInOrder_exampleDelimiter :
    ¬ OccurInOrder [exampleDelimiter.tokens]
      (tokens (withoutClientCommands "CREATE TABLE t (\n  delimiter INT\n);").toList) := by
  intro h
  have hread : (withoutClientCommands "CREATE TABLE t (\n  delimiter INT\n);").toList =
      "CREATE TABLE t (\n\n);".toList := by decide +kernel
  have hmem := h.mem _ List.mem_cons_self (.name "delimiter") (by decide +kernel)
  have hrounds : (Token.advance 11 "CREATE TABLE t (\n\n);".toList).2 = [] := by decide +kernel
  rw [hread, (Token.reads_of_advance hrounds).tokens_eq, Token.tokens_nil] at hmem
  exact absurd hmem (by decide +kernel)

end EntityDiagram.Ddl
