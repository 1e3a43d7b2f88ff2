import EntityDiagram.Proofs.Ddl.Locality

/-!
# `EntityDiagram.Proofs.Ddl.Boundary`: where statements end

A statement ends in front of a semicolon or of the end of the script, or behind a semicolon. It ends
nowhere else, so in front of any other token a script is either finished with its last statement, or
that statement takes the token too: `Settles`.

A reader of statements is put together like the readers inside them, from local ones and from one
that settles at the end (`Settles.bind`), by the first token (`Settles.head`), and by the semicolon
that it may take (`Settles.dropSemicolon`). The recursive ones that settle at the end do so by
induction on the script, token by token (`SettlesOn`). `settles_statement` is the result for all
statements.
-/

set_option autoImplicit false

namespace EntityDiagram.Ddl

variable {α β : Type}

/-! ### Readers of statements -/

/-- Whether no statement goes on with the first of the tokens. -/
def AtEnd (ts : List Token) : Prop := ∀ t ∈ ts.head?, endsStatement t = true

/-- Behind the last token there is nothing that a statement could go on with. -/
theorem atEnd_nil : AtEnd [] := by
  intro t ht
  cases ht

/-- A semicolon and the marker of the end are all that statements end in front of, and the tokens
behind them play no part. -/
theorem atEnd_cons {t : Token} (ht : endsStatement t = true) (ts : List Token) :
    AtEnd (t :: ts) := by
  intro u hu
  cases hu
  exact ht

/-- Whether a reader ends where a statement does. Then a token that does not end statements tells
whether the statement before it is finished: the reader stops right before the token and has read
the same whatever comes instead, or it takes the token too. -/
structure Settles (f : List Token → Except UnterminatedTable (Reading α)) : Prop where
  suffix : ∀ {ts read}, f ts = .ok read → read.2 <:+ ts
  ends : ∀ {ts read}, f ts = .ok read →
    AtEnd read.2 ∨ ∃ used, ts = used ++ .semicolon :: read.2
  same : ∀ {front rest read}, f (front ++ rest) = .ok read → ¬ AtEnd rest →
    read.2.length < rest.length ∨
      ∃ left, read.2 = left ++ rest ∧ ∀ rest', f (front ++ rest') = .ok (read.1, left ++ rest')

/-- What is made of a result comes from a result. -/
theorem map_eq_ok {ε : Type} {e : Except ε α} {g : α → β} {y : β} (h : e.map g = .ok y) :
    ∃ x, e = .ok x ∧ g x = y := by
  cases e with
  | error => cases h
  | ok x => exact ⟨x, rfl, Except.ok.inj h⟩

namespace Settles

/-- A reader that ends where a statement does takes a token that does not end one. It cannot have
stopped in front of that token, which is why something has been taken. -/
theorem length_lt {f : List Token → Except UnterminatedTable (Reading α)}
    (hsuffix : ∀ {ts read}, f ts = .ok read → read.2 <:+ ts)
    (hends : ∀ {ts read}, f ts = .ok read →
      AtEnd read.2 ∨ ∃ used, ts = used ++ .semicolon :: read.2)
    {rest : List Token} {read : Reading α} (h : f rest = .ok read) (hrest : ¬ AtEnd rest) :
    read.2.length < rest.length := by
  refine Nat.lt_of_le_of_ne (hsuffix h).length_le fun hlength => ?_
  have heq : read.2 = rest := (hsuffix h).eq_of_length hlength
  rcases hends h with hend | ⟨used, hused⟩
  · exact hrest (heq ▸ hend)
  · have hlength' := congrArg List.length hused
    simp only [List.length_append, List.length_cons] at hlength'
    omega

/-- What a local reader has read is put to use by one that ends where a statement does. -/
theorem bind {f : List Token → Reading α}
    {g : α → List Token → Except UnterminatedTable (Reading β)} (hf : Local f)
    (hg : ∀ x, Settles (g x)) : Settles fun ts => g (f ts).1 (f ts).2 where
  suffix h := ((hg _).suffix h).trans (hf.suffix _)
  ends {ts read} h := by
    refine ((hg _).ends h).imp_right fun ⟨used, hused⟩ => ?_
    obtain ⟨before, hbefore⟩ := hf.suffix ts
    exact ⟨before ++ used, by rw [← hbefore, hused, List.append_assoc]⟩
  same {front rest read} h hrest := by
    rcases hf.cases front rest with hsuffix | ⟨left, -, hleft, hread⟩
    · left
      by_cases hlength : (f (front ++ rest)).2.length < rest.length
      · exact Nat.lt_of_le_of_lt ((hg _).suffix h).length_le hlength
      · have heq : (f (front ++ rest)).2 = rest :=
          hsuffix.eq_of_length (Nat.le_antisymm hsuffix.length_le (Nat.le_of_not_lt hlength))
        rw [heq] at h
        exact length_lt (hg _).suffix (hg _).ends h hrest
    · rw [hleft] at h
      refine ((hg _).same h hrest).imp_right fun ⟨more, hmore, hrest'⟩ =>
        ⟨more, hmore, fun rest' => ?_⟩
      rw [hread]
      exact hrest' rest'

/-- A statement goes on to its end after some tokens have been stepped over. -/
theorem after {d : List Token → List Token} {f : List Token → Except UnterminatedTable (Reading α)}
    (hf : Settles f) (hd : Skips d) : Settles fun ts => f (d ts) :=
  bind hd fun _ => hf

/-- A reader that goes by the first token, which it takes or leaves to the next reader. The two
kinds of readers are those that go on behind the token and those that give up at it. -/
theorem head {f : List Token → Except UnterminatedTable (Reading α)}
    (hnil : ∀ read, f [] = .ok read → read.2 = [])
    (hcons : ∀ t, (∃ g, Settles g ∧ ∀ ts, f (t :: ts) = g ts) ∨
      ∃ g, Settles g ∧ ∀ ts, f (t :: ts) = g (t :: ts)) : Settles f := by
  have hsuffix : ∀ {ts read}, f ts = .ok read → read.2 <:+ ts := by
    intro ts read h
    cases ts with
    | nil => exact ⟨[], hnil read h⟩
    | cons t ts =>
        rcases hcons t with ⟨g, hg, hf⟩ | ⟨g, hg, hf⟩
        · exact (hg.suffix (hf ts ▸ h)).trans (List.suffix_cons _ _)
        · exact hg.suffix (hf ts ▸ h)
  have hends : ∀ {ts read}, f ts = .ok read →
      AtEnd read.2 ∨ ∃ used, ts = used ++ .semicolon :: read.2 := by
    intro ts read h
    cases ts with
    | nil => exact .inl ((hnil read h).symm ▸ atEnd_nil)
    | cons t ts =>
        rcases hcons t with ⟨g, hg, hf⟩ | ⟨g, hg, hf⟩
        · refine (hg.ends (hf ts ▸ h)).imp_right fun ⟨used, hused⟩ => ⟨t :: used, ?_⟩
          rw [hused, List.cons_append]
        · exact hg.ends (hf ts ▸ h)
  refine ⟨hsuffix, hends, fun {front rest read} h hrest => ?_⟩
  -- A first token in the front is there whatever follows, and so is the reader it leads to.
  cases front with
  | nil => exact .inl (length_lt hsuffix hends h hrest)
  | cons t front =>
      rcases hcons t with ⟨g, hg, hf⟩ | ⟨g, hg, hf⟩
      · rw [List.cons_append, hf] at h
        refine (hg.same h hrest).imp_right
          fun ⟨left, hleft, hread⟩ => ⟨left, hleft, fun rest' => ?_⟩
        rw [List.cons_append, hf]
        exact hread rest'
      · rw [List.cons_append, hf, ← List.cons_append] at h
        refine (hg.same h hrest).imp_right
          fun ⟨left, hleft, hread⟩ => ⟨left, hleft, fun rest' => ?_⟩
        rw [List.cons_append, hf]
        exact hread rest'

/-- A reader that ends in front of a statement's end may take the semicolon there. -/
theorem dropSemicolon {f : List Token → Except UnterminatedTable (Reading α)} (hf : Settles f)
    (hend : ∀ {ts read}, f ts = .ok read → AtEnd read.2) :
    Settles fun ts => (f ts).map fun read => (read.1, dropToken .semicolon read.2) where
  suffix {ts read} h := by
    obtain ⟨read, hread, rfl⟩ := map_eq_ok h
    exact (dropToken_suffix _ _).trans (hf.suffix hread)
  ends {ts read} h := by
    obtain ⟨⟨x, left⟩, hread, rfl⟩ := map_eq_ok h
    obtain ⟨used, hused⟩ := hf.suffix hread
    cases left with
    | nil => exact .inl atEnd_nil
    | cons t left =>
        by_cases ht : t = .semicolon
        · subst ht
          exact .inr ⟨used, by simpa [dropToken] using hused.symm⟩
        · left
          simpa [dropToken, ht] using hend hread
  same {front rest read} h hrest := by
    obtain ⟨⟨x, left⟩, hread, rfl⟩ := map_eq_ok h
    rcases hf.same hread hrest with hlength | ⟨more, rfl, hsame⟩
    · exact .inl (Nat.lt_of_le_of_lt (dropToken_suffix _ _).length_le hlength)
    · right
      -- The reader has stopped at a token of the script, which is the semicolon or stays.
      cases more with
      | nil => exact absurd (hend hread) hrest
      | cons t more =>
          by_cases ht : t = .semicolon
          · exact ⟨more, by simp [dropToken, ht], fun rest' => by
              rw [hsame]; simp [Except.map, dropToken, ht]⟩
          · exact ⟨t :: more, by simp [dropToken, ht], fun rest' => by
              rw [hsame]; simp [Except.map, dropToken, ht]⟩

end Settles

/-! ### Readers up to the end of a statement -/

/-- Tokens at the end of a statement are fewer than tokens that are not. -/
theorem length_lt_of_atEnd {left ts : List Token} (hsuffix : left <:+ ts) (hleft : AtEnd left)
    (hts : ¬ AtEnd ts) : left.length < ts.length := by
  refine Nat.lt_of_le_of_ne hsuffix.length_le fun hlength => ?_
  exact hts (hsuffix.eq_of_length hlength ▸ hleft)

/-- Whether a reader stops in a script, and does so whatever follows, or takes a token behind the
script. -/
def SettlesOn (f : List Token → Reading α) (front rest : List Token) : Prop :=
  (f (front ++ rest)).2.length < rest.length ∨
    ∃ left, (f (front ++ rest)).2 = left ++ rest ∧
      ∀ rest', f (front ++ rest') = ((f (front ++ rest)).1, left ++ rest')

/-- A reader that never fails and settles on every script. -/
theorem Settles.of_settlesOn {f : List Token → Reading α} (hsuffix : ∀ ts, (f ts).2 <:+ ts)
    (hends : ∀ ts, AtEnd (f ts).2)
    (h : ∀ front rest, ¬ AtEnd rest → SettlesOn f front rest) : Settles fun ts => .ok (f ts) where
  suffix h := by cases h; exact hsuffix _
  ends h := by cases h; exact .inl (hends _)
  same {front rest read} hread hrest := by
    cases hread
    rcases h front rest hrest with hlength | ⟨left, hleft, hsame⟩
    · exact .inl hlength
    · exact .inr ⟨left, hleft, fun rest' => by rw [hsame]⟩

namespace SettlesOn

variable {front rest : List Token}

/-- Nothing of the script is left. -/
theorem nil {f : List Token → Reading α} (hsuffix : ∀ ts, (f ts).2 <:+ ts)
    (hends : ∀ ts, AtEnd (f ts).2) (hrest : ¬ AtEnd rest) : SettlesOn f [] rest :=
  .inl (length_lt_of_atEnd (hsuffix rest) (hends rest) hrest)

/-- The reader stops at a token of the script. -/
theorem stop {t : Token} {f : List Token → Reading α} {x : α}
    (h : ∀ ts, f (t :: ts) = (x, t :: ts)) : SettlesOn f (t :: front) rest := by
  refine .inr ⟨t :: front, ?_, fun rest' => ?_⟩
  · simp only [List.cons_append, h]
  · simp only [List.cons_append, h]

/-- The reader takes a token of the script. -/
theorem cons {t : Token} {f g : List Token → Reading α} (h : ∀ ts, f (t :: ts) = g ts)
    (hg : SettlesOn g front rest) : SettlesOn f (t :: front) rest := by
  unfold SettlesOn
  simp only [List.cons_append, h]
  exact hg

/-- A reader settles in the same way when what it has read is put to use. -/
theorem map {f : List Token → Reading α} (hf : SettlesOn f front rest) (g : α → β) :
    SettlesOn (fun ts => (g (f ts).1, (f ts).2)) front rest := by
  rcases hf with hlength | ⟨left, hleft, hsame⟩
  · exact .inl hlength
  · exact .inr ⟨left, hleft, fun rest' => by simp only [hsame rest']⟩

/-- What a local reader has read is put to use up to the end of the statement. -/
theorem bind {f : List Token → Reading α} {g : α → List Token → Reading β} (hf : Local f)
    (hsuffix : ∀ x ts, (g x ts).2 <:+ ts) (hends : ∀ x ts, AtEnd (g x ts).2)
    (hrest : ¬ AtEnd rest) (hg : ∀ x left, left.length ≤ front.length → SettlesOn (g x) left rest) :
    SettlesOn (fun ts => g (f ts).1 (f ts).2) front rest := by
  unfold SettlesOn
  dsimp only
  rcases hf.cases front rest with hend | ⟨left, -, hleft, hread⟩
  · exact .inl (length_lt_of_atEnd ((hsuffix _ _).trans hend) (hends _ _) hrest)
  · rw [hleft]
    rcases hg (f (front ++ rest)).1 left (hf.length_left_le hleft) with
      hlength | ⟨more, hmore, hsame⟩
    · exact .inl hlength
    · exact .inr ⟨more, hmore, fun rest' => by rw [hread]; exact hsame rest'⟩

end SettlesOn

/-! ### Statements that are stepped over -/

/-- What is stepped over until a statement ends leaves its end in front. -/
theorem atEnd_skipUntil (ts : List Token) : AtEnd (skipUntil endsStatement ts) := by
  induction ts with
  | nil => exact atEnd_nil
  | cons t ts ih =>
      by_cases h : endsStatement t = true
      · have hstop : skipUntil endsStatement (t :: ts) = t :: ts := by simp [skipUntil, h]
        rw [hstop]
        exact atEnd_cons h ts
      · have hskip : skipUntil endsStatement (t :: ts) = skipUntil endsStatement ts := by
          simp [skipUntil, h]
        rw [hskip]
        exact ih

/-- The tokens up to the end of a statement. What is skipped at the end of a statement is given back
as well, since some readers keep it. -/
theorem settlesOn_upToEnd (g : List Token → α) (front : List Token) {rest : List Token}
    (hrest : ¬ AtEnd rest) :
    SettlesOn (fun ts => (g (ts.takeWhile fun t => !endsStatement t), skipUntil endsStatement ts))
      front rest := by
  induction front generalizing g with
  | nil => exact .nil (skipUntil_suffix _) atEnd_skipUntil hrest
  | cons t front ih =>
      by_cases ht : endsStatement t = true
      · exact .stop (x := g []) fun ts => by simp [skipUntil, ht]
      · exact .cons (fun ts => by simp [skipUntil, ht]) (ih fun ts => g (t :: ts))

/-- A reader that takes all tokens up to the end of the statement, and makes of them what it likes,
settles: none of them ends a statement, and the one behind them does. -/
theorem settles_upToEnd (g : List Token → α) : Settles fun ts =>
    .ok (g (ts.takeWhile fun t => !endsStatement t), skipUntil endsStatement ts) :=
  .of_settlesOn (skipUntil_suffix _) atEnd_skipUntil fun front _ => settlesOn_upToEnd g front

/-- A statement that is stepped over takes its semicolon along. -/
theorem settles_skipStatement (x : α) : Settles fun ts => .ok (x, skipStatement ts) :=
  (settles_upToEnd fun _ => x).dropSemicolon fun h => by
    cases h
    exact atEnd_skipUntil _

/-- A statement that goes on with a qualified name, or else is stepped over. -/
def byName (x : α) (f : List String → List Token → Except UnterminatedTable (Reading α))
    (ts : List Token) : Except UnterminatedTable (Reading α) :=
  match qualifiedName? ts with
  | some (parts, rest) => f parts rest
  | none => .ok (x, skipStatement ts)

/-- A statement that needs a name is decided by its first token: behind a name it goes on as `f`,
and otherwise it is stepped over as a whole. -/
theorem settles_byName (x : α)
    {f : List String → List Token → Except UnterminatedTable (Reading α)}
    (hf : ∀ parts, Settles (f parts)) : Settles (byName x f) := by
  refine .head (fun read h => by cases h; rfl) fun t => ?_
  cases t with
  | name s => exact .inl ⟨_, .bind local_dottedParts fun parts => hf (s :: parts), fun _ => rfl⟩
  | _ => exact .inr ⟨_, settles_skipStatement x, fun _ => rfl⟩

/-! ### Tables -/

/-- The options of a table are read up to the end of the statement, so that they may take tokens of
a statement that was meant to be the next one. -/
theorem atEnd_tableOptions (comment : Option String) (ts : List Token) :
    AtEnd (tableOptions comment ts).2 := by
  fun_induction tableOptions comment ts with
  | case1 => exact atEnd_nil
  | case2 comment t ts ht => exact atEnd_cons ht ts
  | case3 _ _ _ _ _ _ ih => exact ih
  | case4 _ _ _ _ _ _ ih => exact ih
  | case5 _ _ _ _ _ ih => exact ih

/-- At the end of a statement there are no more options, and the comment is the last one that was
read. -/
theorem tableOptions_of_ends {t : Token} (ht : endsStatement t = true) (comment : Option String)
    (ts : List Token) : tableOptions comment (t :: ts) = (comment, t :: ts) := by
  rw [tableOptions.eq_def]
  exact if_pos ht

/-- The text behind the word `COMMENT` is the comment of the table, and a later one takes its
place. -/
theorem tableOptions_text {t : Token} (ht : ¬ endsStatement t = true)
    (hword : t.isWord "COMMENT" = true) (comment : Option String) (s : String) (ts : List Token) :
    tableOptions comment (t :: .text s :: ts) = tableOptions (some s) ts := by
  rw [tableOptions, if_neg ht, if_pos hword]

/-- An option is stepped over token by token, unless it is a comment. -/
theorem tableOptions_skip {t : Token} (ht : ¬ endsStatement t = true) (comment : Option String)
    {ts : List Token} (h : t.isWord "COMMENT" = true → ∀ s rest, ts ≠ .text s :: rest) :
    tableOptions comment (t :: ts) = tableOptions comment ts := by
  rw [tableOptions.eq_def]
  dsimp only
  rw [if_neg ht]
  split
  · rename_i hword
    split
    · exact absurd rfl (h hword _ _)
    · rfl
  · rfl

/-- The options settle, by induction on the tokens of the script. The word `COMMENT` may be the last
of them: then the text it takes is among the tokens that follow, and with them the reader has left
the script. -/
theorem settlesOn_tableOptions (comment : Option String) (front : List Token) {rest : List Token}
    (hrest : ¬ AtEnd rest) : SettlesOn (tableOptions comment) front rest := by
  induction comment, front using tableOptions.induct with
  | case1 comment => exact .nil (tableOptions_suffix comment) (atEnd_tableOptions comment) hrest
  | case2 comment t ts ht => exact .stop fun _ => tableOptions_of_ends ht _ _
  | case3 comment t ht hword s ts ih =>
      exact .cons (g := fun ts => tableOptions comment (t :: ts)) (fun _ => rfl)
        (.cons (tableOptions_text ht hword comment s) ih)
  | case4 comment t ht hword ts htext ih =>
      cases ts with
      | nil =>
          -- A text that follows `COMMENT` is taken even if it is the next token of the script.
          have hsuffix : (tableOptions comment (t :: rest)).2 <:+ rest := by
            cases rest with
            | nil => exact absurd atEnd_nil hrest
            | cons u rest =>
                cases u with
                | text s =>
                    rw [tableOptions_text ht hword]
                    exact (tableOptions_suffix _ _).trans (List.suffix_cons _ _)
                | _ =>
                    rw [tableOptions_skip ht _ (by simp)]
                    exact tableOptions_suffix _ _
          exact .inl (length_lt_of_atEnd hsuffix (atEnd_tableOptions _ _) hrest)
      | cons u ts =>
          have hskip (rest : List Token) :
              tableOptions comment (t :: u :: rest) = tableOptions comment (u :: rest) :=
            tableOptions_skip ht comment fun _ s more heq =>
              htext s ts (by rw [(List.cons.inj heq).1])
          exact .cons (g := fun ts => tableOptions comment (t :: ts)) (fun _ => rfl)
            (.cons (g := fun ts => tableOptions comment (u :: ts)) hskip ih)
  | case5 comment t ts ht hword ih =>
      exact .cons (fun _ => tableOptions_skip ht comment fun h => absurd h hword) ih

/-- What `createTable` reads behind the parenthesis that opens a table. -/
def tableDefinition (parts : List String) (ts : List Token) :
    Except UnterminatedTable (Reading (List Step)) :=
  (tableBody (lastPart parts) ts).map fun body =>
    let comment := tableOptions none body.2
    ([.addTable (Sql.quoteParts parts) { body.1 with comment := comment.1 }], comment.2)

/-- What `createTable` reads behind the name of a table. Anything but a parenthesis there means that
the table has no columns, which is only warned about. -/
def namedTable (parts : List String) : List Token → Except UnterminatedTable (Reading (List Step))
  | .openParen :: inside => tableDefinition parts inside
  | ts =>
    .ok ([.warn ("Table " ++ lastPart parts ++ " has no column definitions, skipped")],
      skipStatement ts)

/-- A table definition settles. Its body is read the same whatever follows once it is closed in the
script, and if it is not, the parenthesis that closes it is behind the script and the definition
takes it. -/
theorem settles_tableDefinition (parts : List String) : Settles (tableDefinition parts) where
  suffix h := by
    obtain ⟨body, hbody, rfl⟩ := map_eq_ok h
    exact (tableOptions_suffix _ _).trans (tableBody_suffix hbody)
  ends h := by
    obtain ⟨body, hbody, rfl⟩ := map_eq_ok h
    exact .inl (atEnd_tableOptions _ _)
  same {front rest read} h hrest := by
    obtain ⟨body, hbody, rfl⟩ := map_eq_ok h
    obtain ⟨elements, helements, rfl⟩ := map_eq_ok hbody
    dsimp only at h ⊢
    rcases TableReading.closes_elements helements with ⟨inside, hinside⟩ | ⟨left, hleft, hread⟩
    · -- The parenthesis that closes the body is among the tokens that follow.
      left
      have hlength := (tableOptions_suffix none elements.2).length_le
      rw [hinside, List.length_append, List.length_cons]
      omega
    · rw [hleft]
      rcases settlesOn_tableOptions none left hrest with hlength | ⟨more, hmore, hsame⟩
      · exact .inl hlength
      · refine .inr ⟨more, hmore, fun rest' => ?_⟩
        simp only [tableDefinition, tableBody, hread, Except.map, hsame rest']

/-- Behind its name a table has a body or none, which the first token tells. One without a body is
stepped over with a warning. -/
theorem settles_namedTable (parts : List String) : Settles (namedTable parts) := by
  refine .head (fun read h => by cases h; rfl) fun t => ?_
  cases t with
  | openParen => exact .inl ⟨_, settles_tableDefinition parts, fun _ => rfl⟩
  | _ => exact .inr ⟨_, settles_skipStatement _, fun _ => rfl⟩

/-- A table definition goes by the name first, then by the token behind it. -/
theorem createTable_eq (ts : List Token) :
    createTable ts = byName [] namedTable (skipIfNotExists ts) := by
  unfold createTable byName
  cases qualifiedName? (skipIfNotExists ts) with
  | none => rfl
  | some read =>
      obtain ⟨parts, rest⟩ := read
      cases rest with
      | nil => rfl
      | cons t rest => cases t <;> rfl

/-- A table definition starts with the words `IF NOT EXISTS`, if they are there, and a name. -/
theorem settles_createTable : Settles createTable := by
  rw [funext createTable_eq]
  exact (settles_byName [] settles_namedTable).after skips_skipIfNotExists

/-! ### Indexes and views -/

/-- The name of an index may be missing, which the keyword `ON` in its place tells. -/
theorem local_indexName : Local indexName := by
  refine .head rfl fun t => ?_
  cases t with
  | name s =>
      exact .inl ⟨_, local_dottedParts.map fun parts => some (lastPart (s :: parts)), fun _ => rfl⟩
  | keyword k => cases k <;> exact .inr ⟨_, .pure none, fun _ => rfl⟩
  | _ => exact .inr ⟨_, .pure none, fun _ => rfl⟩

/-- The step that `createIndex` makes. -/
def indexStep (unique : Bool) (name : Option String) (parts columns : List String) : Step :=
  .addIndex (Sql.quoteParts parts)
    { name, columns, unique, kind := some (if unique then "UNIQUE" else "INDEX") }

/-- What `createIndex` reads behind the name of an index. A statement without `ON` and a table name
is skipped. -/
def indexTarget (unique : Bool) (name : Option String) : List Token → Reading (List Step)
  | .keyword .on :: rest =>
    match qualifiedName? (dropWord "ONLY" rest) with
    | some (parts, left) =>
      let columns := columnNames (skipUsing left)
      ([indexStep unique name parts columns.1], skipStatement columns.2)
    | none => ([], skipStatement (dropWord "ONLY" rest))
  | left => ([], skipStatement left)

/-- An index is read up to the end of its columns, and its statement is stepped over from there on.
Where `ON` or the name of the table is missing there is no index, and the statement is stepped over
too. -/
theorem settles_indexTarget (unique : Bool) (name : Option String) :
    Settles fun ts => .ok (indexTarget unique name ts) := by
  have hcolumns (parts : List String) : Settles fun ts =>
      .ok ([indexStep unique name parts (columnNames (skipUsing ts)).1],
        skipStatement (columnNames (skipUsing ts)).2) :=
    .bind (local_columnNames.after skips_skipUsing) fun columns =>
      settles_skipStatement [indexStep unique name parts columns]
  -- Only `ON` opens the way to a table name. At any other token the statement is skipped.
  refine .head (fun read h => by cases h; rfl) fun t => ?_
  cases t with
  | keyword k =>
      cases k with
      | on =>
          refine .inl ⟨_, (settles_byName [] hcolumns).after (skips_dropWord "ONLY"), fun ts => ?_⟩
          simp only [indexTarget, byName]
          cases qualifiedName? (dropWord "ONLY" ts) <;> rfl
      | _ => exact .inr ⟨_, settles_skipStatement _, fun _ => rfl⟩
  | _ => exact .inr ⟨_, settles_skipStatement _, fun _ => rfl⟩

/-- An index definition is its name and, behind it, what it is on. -/
theorem settles_createIndex (unique : Bool) : Settles fun ts => .ok (createIndex unique ts) :=
  have hname : Local fun ts => indexName (skipIfNotExists (dropWord "CONCURRENTLY" ts)) :=
    (local_indexName.after skips_skipIfNotExists).after (skips_dropWord _)
  .bind hname (settles_indexTarget unique)

/-- The step that `createView` makes. -/
def viewStep (parts : List String) (body : List Token) : Step :=
  let definition :=
    if body.isEmpty then none else some (Text.joinTexts " " (body.map (·.source)))
  .addView { name := lastPart parts, definition }

/-- What `createView` reads behind the name of a view. -/
def viewQuery (parts : List String) (ts : List Token) : Reading (List Step) :=
  let query := dropWord "AS" (skipUntil endsViewHead ts)
  ([viewStep parts (query.takeWhile fun t => !endsStatement t)], skipUntil endsStatement query)

/-- The query of a view is all that stands behind `AS` in its statement. Like a table definition, it
leaves the semicolon behind it. -/
theorem settles_viewQuery (parts : List String) : Settles fun ts => .ok (viewQuery parts ts) :=
  ((settles_upToEnd fun body => [viewStep parts body]).after (skips_dropWord "AS")).after
    (skips_skipUntil endsViewHead)

/-- A view definition starts like that of a table, and is stepped over where no name follows. -/
theorem settles_createView : Settles fun ts => .ok (createView ts) := by
  have heq (ts : List Token) : .ok (createView ts) =
      byName [] (fun parts ts => .ok (viewQuery parts ts)) (skipIfNotExists ts) := by
    unfold createView byName
    cases qualifiedName? (skipIfNotExists ts) <;> rfl
  rw [funext heq]
  exact (settles_byName [] settles_viewQuery).after skips_skipIfNotExists

/-! ### Alterations -/

/-- A name for what is added follows the word `CONSTRAINT`, and there is none without it. -/
theorem local_constraintName : Local constraintName := by
  refine .head rfl fun t => ?_
  cases t with
  | keyword k =>
      cases k with
      | constraint => exact .inl ⟨_, local_takeName, fun _ => rfl⟩
      | _ => exact .inr ⟨_, .pure none, fun _ => rfl⟩
  | _ => exact .inr ⟨_, .pure none, fun _ => rfl⟩

/-- What `addition` reads behind the name of a constraint. The keyword tells the kind of the key. -/
def additionTarget (parts : List String) (name : Option String) :
    List Token → Reading (List Step)
  | .keyword .foreign :: rest =>
    let key := foreignKey (lastPart parts) name rest
    (key.1.toList.map .addForeignKey, key.2)
  | .keyword .primary :: rest =>
    let columns := columnNames (skipUsing (dropKeyword .key rest))
    ([.setPrimaryKey (Sql.quoteParts parts) { name, columns := columns.1 }], columns.2)
  | .keyword .unique :: rest =>
    let index := indexDefinition name true "UNIQUE" (dropIndexWord rest)
    ([.addIndex (Sql.quoteParts parts) index.1], index.2)
  | .keyword .index :: rest | .keyword .key :: rest =>
    let index := indexDefinition name false "INDEX" rest
    ([.addIndex (Sql.quoteParts parts) index.1], index.2)
  | left => ([], left)

/-- What is added to a table is told by one keyword. All four kinds are read by the local readers of
table bodies, and of anything else nothing is taken. -/
theorem local_additionTarget (parts : List String) (name : Option String) :
    Local (additionTarget parts name) := by
  refine .head rfl fun t => ?_
  -- Each kind of key is told by its first keyword, and a reader that is local already takes over.
  cases t with
  | keyword k =>
      cases k with
      | foreign =>
          exact .inl ⟨_, (local_foreignKey (lastPart parts) name).map fun key =>
            key.toList.map Step.addForeignKey, fun _ => rfl⟩
      | primary =>
          have hcolumns : Local fun ts => columnNames (skipUsing (dropKeyword .key ts)) :=
            (local_columnNames.after skips_skipUsing).after (skips_dropKeyword .key)
          exact .inl ⟨_, hcolumns.map fun columns =>
            [Step.setPrimaryKey (Sql.quoteParts parts) { name, columns }], fun _ => rfl⟩
      | unique =>
          exact .inl ⟨_, ((local_indexDefinition name true "UNIQUE").after skips_dropIndexWord).map
            fun index => [Step.addIndex (Sql.quoteParts parts) index], fun _ => rfl⟩
      | index | key =>
          exact .inl ⟨_, (local_indexDefinition name false "INDEX").map
            fun index => [Step.addIndex (Sql.quoteParts parts) index], fun _ => rfl⟩
      | _ => exact .inr ⟨_, .pure [], fun _ => rfl⟩
  | _ => exact .inr ⟨_, .pure [], fun _ => rfl⟩

/-- What one `ADD` adds is read locally, up to the end of the key or index. -/
theorem local_addition (parts : List String) : Local (addition parts) :=
  local_constraintName.bind (local_additionTarget parts)

/-- The operations of a statement are read up to its end. -/
theorem atEnd_operations (parts : List String) (ts : List Token) :
    AtEnd (operations parts ts).2 := by
  fun_induction operations parts ts with
  | case1 => exact atEnd_nil
  | case2 t rest ht => exact atEnd_cons ht rest
  | case3 t rest _ _ ih => exact ih
  | case4 t rest _ _ _ added more ih => exact ih
  | case5 t rest _ _ _ ih => exact ih

/-- The operations of a statement settle, by induction on the tokens of the script: each of them
is read by a local reader, and the others are read from what it leaves. -/
theorem settlesOn_operations (parts : List String) (front : List Token) {rest : List Token}
    (hrest : ¬ AtEnd rest) : SettlesOn (operations parts) front rest := by
  match front with
  | [] => exact .nil (operations_suffix parts) (atEnd_operations parts) hrest
  | t :: front =>
      by_cases hends : endsStatement t = true
      · exact .stop fun ts => by rw [operations, if_pos hends]
      · by_cases hcomma : (t == .comma) = true
        · exact .cons (fun ts => by rw [operations, if_neg hends, if_pos hcomma])
            (settlesOn_operations parts front hrest)
        · by_cases hadd : (t == .keyword .add) = true
          · have h (ts : List Token) : operations parts (t :: ts) =
                ((addition parts ts).1 ++
                  (operations parts (skipOutside endsOperation 0 (addition parts ts).2)).1,
                  (operations parts (skipOutside endsOperation 0 (addition parts ts).2)).2) := by
              rw [operations, if_neg hends, if_neg hcomma, if_pos hadd]
            -- One key is read locally, and what is left of its operation is stepped over.
            have hadded := (local_addition parts).andSkip (skips_skipOutside endsOperation 0)
            exact .cons h (.bind
              (g := fun added ts => (added ++ (operations parts ts).1, (operations parts ts).2))
              hadded (fun _ => operations_suffix parts) (fun _ => atEnd_operations parts) hrest
              fun added left hlength => (settlesOn_operations parts left hrest).map (added ++ ·))
          · have h (ts : List Token) : operations parts (t :: ts) =
                operations parts (skipOperationAfter t ts) := by
              rw [operations, if_neg hends, if_neg hcomma, if_neg hadd]
            have hskip : Skips (skipOperationAfter t) := skips_skipOutside _ _
            exact .cons h (.bind (g := fun _ => operations parts) hskip
              (fun _ => operations_suffix parts) (fun _ => atEnd_operations parts) hrest
              fun _ left hlength => settlesOn_operations parts left hrest)
termination_by front.length
decreasing_by
  · exact Nat.lt_succ_self _
  · exact Nat.lt_succ_of_le hlength
  · exact Nat.lt_succ_of_le hlength

/-- The operations on a table settle for every table. -/
theorem settles_operations (parts : List String) : Settles fun ts => .ok (operations parts ts) :=
  .of_settlesOn (operations_suffix parts) (atEnd_operations parts)
    fun front _ => settlesOn_operations parts front

/-- An alteration of a table settles, and an alteration of anything else is stepped over. -/
theorem settles_alter : Settles fun ts => .ok (alter ts) := by
  -- The operations stop before the semicolon or at the end, which is why it can be dropped after
  -- them.
  have hnamed (parts : List String) : Settles fun ts => .ok
      ((operations parts ts).1, dropToken .semicolon (operations parts ts).2) :=
    (settles_operations parts).dropSemicolon fun h => by
      cases h
      exact atEnd_operations _ _
  have htable := ((settles_byName [] hnamed).after (skips_dropWord "ONLY")).after skips_skipIfExists
  refine .head (fun read h => by cases h; rfl) fun t => ?_
  cases t with
  | keyword k =>
      cases k with
      | table =>
          refine .inl ⟨_, htable, fun ts => ?_⟩
          simp only [alter, byName]
          cases qualifiedName? (dropWord "ONLY" (skipIfExists ts)) <;> rfl
      | _ => exact .inr ⟨_, settles_skipStatement _, fun _ => rfl⟩
  | _ => exact .inr ⟨_, settles_skipStatement _, fun _ => rfl⟩

/-! ### Statements -/

/-- Modifiers are stepped over one by one. Whether a name belongs to a definer is told by the
modifiers before it, so that this is generalized in the induction. -/
theorem skips_skipModifiers (inDefiner : Bool) : Skips (skipModifiers inDefiner) := by
  refine ⟨skipModifiers_suffix inDefiner, fun front rest rest' => ?_⟩
  induction front generalizing inDefiner with
  | nil => exact .inl (skipModifiers_suffix inDefiner rest)
  | cons t front ih =>
      cases t with
      | name w =>
          simp only [List.cons_append, skipModifiers]
          split
          · exact ih _
          · split
            · exact ih _
            · exact .of_append () (.name w :: front) rest rest'
      | _ => exact .of_append () (_ :: front) rest rest'

/-- What `create` reads behind the modifiers. A statement that creates something else is skipped. -/
def createKind : List Token → Except UnterminatedTable (Reading (List Step))
  | .keyword .table :: rest => createTable rest
  | .keyword .unique :: .keyword .index :: rest => .ok (createIndex true rest)
  | .keyword .unique :: rest => .ok ([], skipStatement rest)
  | .keyword .index :: rest => .ok (createIndex false rest)
  | .keyword .view :: rest => .ok (createView rest)
  | rest => .ok ([], skipStatement rest)

/-- What is created is told by the first keyword, and for a unique index by the second. Every kind
of object settles on its own. -/
theorem settles_createKind : Settles createKind := by
  refine .head (fun read h => by cases h; rfl) fun t => ?_
  cases t with
  | keyword k =>
      cases k with
      | table => exact .inl ⟨_, settles_createTable, fun _ => rfl⟩
      | index => exact .inl ⟨_, settles_createIndex false, fun _ => rfl⟩
      | view => exact .inl ⟨_, settles_createView, fun _ => rfl⟩
      | unique =>
          -- `UNIQUE` is the one keyword after which another one decides.
          have hunique : Settles fun ts => createKind (.keyword .unique :: ts) := by
            refine .head (fun read h => by cases h; rfl) fun u => ?_
            cases u with
            | keyword k =>
                cases k with
                | index => exact .inl ⟨_, settles_createIndex true, fun _ => rfl⟩
                | _ => exact .inr ⟨_, settles_skipStatement _, fun _ => rfl⟩
            | _ => exact .inr ⟨_, settles_skipStatement _, fun _ => rfl⟩
          exact .inl ⟨_, hunique, fun _ => rfl⟩
      | _ => exact .inr ⟨_, settles_skipStatement _, fun _ => rfl⟩
  | _ => exact .inr ⟨_, settles_skipStatement _, fun _ => rfl⟩

/-- A statement that creates an object settles behind its modifiers. -/
theorem settles_create : Settles create :=
  settles_createKind.after (skips_skipModifiers false)

/-- **A statement ends at its semicolon or at the end of the script**, or else it takes whatever
follows. An empty statement is its semicolon. -/
theorem settles_statement {t : Token} (ht : t ≠ .semicolon) : Settles (statement t) := by
  cases t with
  | keyword k =>
      cases k with
      | create => exact settles_create
      | alter => exact settles_alter
      | _ => exact settles_skipStatement _
  | semicolon => exact absurd rfl ht
  | _ => exact settles_skipStatement _

end EntityDiagram.Ddl
