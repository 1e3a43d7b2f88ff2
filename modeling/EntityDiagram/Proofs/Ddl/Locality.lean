import EntityDiagram.Ddl.Script

/-!
# `EntityDiagram.Proofs.Ddl.Locality`: readers look no further than they read

A reader may look at the first token that it leaves, and at none behind it. So if it leaves a token
of the script that it was started on, it reads the same whatever script follows that one: `Local`.
Readers that are put together from local ones are local (`Local.bind`), and so are those that go by
the first token (`Local.head`).

* `local_columnNames`, `local_foreignKey`, `local_columnDefinition`: the readers inside statements.
* `closes_elements`: a table body that is closed in a script is read the same whatever follows, even
  if nothing is left behind it.

The relation `Same` says it for two runs at once, and `Local` for a reader. A reader that is
recursive in the tokens is shown to be local by induction on the tokens before the end, either along
its own recursion or, where it calls other readers on the way, by the number of tokens that these
leave (`Local.same_bind`). The look at the first token that is left is the reason for the asymmetry:
if nothing is left before the end, that token belongs to what follows.

`EntityDiagram.Proofs.Ddl.Boundary` is the next step, from parts of statements to statements, and
`EntityDiagram.Proofs.Ddl.Continuation` the one after that, to whole scripts.
-/

set_option autoImplicit false

namespace EntityDiagram.Ddl

variable {α β : Type}

/-! ### Local readers -/

/-- Two runs of a reader, on scripts that end in `rest` and in `rest'` and are the same before:
either the first run reads on to `rest`, or both have read the same and leave the same tokens,
one at least, before these ends. -/
def Same (rest rest' : List Token) (read read' : Reading α) : Prop :=
  read.2 <:+ rest ∨ ∃ left, left ≠ [] ∧ read.2 = left ++ rest ∧ read' = (read.1, left ++ rest')

/-- Readers that have read the same are so also where they leave nothing before the ends. -/
theorem Same.of_append (x : α) (left rest rest' : List Token) :
    Same rest rest' (x, left ++ rest) (x, left ++ rest') := by
  by_cases h : left = []
  · subst h
    exact .inl (List.suffix_refl _)
  · exact .inr ⟨left, h, rfl, rfl⟩

/-- What readers have read may be put to use. -/
theorem Same.map {rest rest' : List Token} {read read' : Reading α}
    (h : Same rest rest' read read') (g : α → β) :
    Same rest rest' (g read.1, read.2) (g read'.1, read'.2) := by
  rcases h with h | ⟨left, hne, hleft, hread⟩
  · exact .inl h
  · exact .inr ⟨left, hne, hleft, by rw [hread]⟩

/-- Whether a reader looks at no token behind the first one that it leaves. -/
structure Local (f : List Token → Reading α) : Prop where
  suffix : ∀ ts, (f ts).2 <:+ ts
  same : ∀ front rest rest', Same rest rest' (f (front ++ rest)) (f (front ++ rest'))

/-- Whether the part of a reader that steps over tokens is local. -/
abbrev Skips (d : List Token → List Token) : Prop := Local fun ts => ((), d ts)

namespace Local

/-- A reader leaves no more tokens before the end of a script than there were. -/
theorem length_left_le {f : List Token → Reading α} (hf : Local f) {front rest left : List Token}
    (h : (f (front ++ rest)).2 = left ++ rest) : left.length ≤ front.length := by
  have hlength := (hf.suffix (front ++ rest)).length_le
  rw [h, List.length_append, List.length_append] at hlength
  omega

/-- Either a reader reads on to the end of a script, or it reads the same whatever the end is. -/
theorem cases {f : List Token → Reading α} (hf : Local f) (front rest : List Token) :
    (f (front ++ rest)).2 <:+ rest ∨ ∃ left, left ≠ [] ∧ (f (front ++ rest)).2 = left ++ rest ∧
      ∀ rest', f (front ++ rest') = ((f (front ++ rest)).1, left ++ rest') := by
  by_cases h : (f (front ++ rest)).2 <:+ rest
  · exact .inl h
  · obtain ⟨left, hne, hleft, -⟩ := (hf.same front rest rest).resolve_left h
    refine .inr ⟨left, hne, hleft, fun rest' => ?_⟩
    obtain ⟨left', -, hleft', hread⟩ := (hf.same front rest rest').resolve_left h
    rw [hread, List.append_cancel_right (hleft.symm.trans hleft')]

/-- What comes from nowhere is read without a look. -/
theorem pure (x : α) : Local fun ts => (x, ts) :=
  ⟨fun _ => List.suffix_refl _, fun front rest rest' => .of_append x front rest rest'⟩

/-- What a local reader has read may be put to use on the tokens that it leaves. Only these matter
then, and there are no more of them than before: a recursive reader is local by this. -/
theorem same_bind {f : List Token → Reading α} {g : α → List Token → Reading β} (hf : Local f)
    (hsuffix : ∀ x ts, (g x ts).2 <:+ ts) {front rest rest' : List Token}
    (hg : ∀ x left, left.length ≤ front.length →
      Same rest rest' (g x (left ++ rest)) (g x (left ++ rest'))) :
    Same rest rest' (g (f (front ++ rest)).1 (f (front ++ rest)).2)
      (g (f (front ++ rest')).1 (f (front ++ rest')).2) := by
  rcases hf.same front rest rest' with hend | ⟨left, -, hleft, hread⟩
  · exact .inl ((hsuffix _ _).trans hend)
  · rw [hread, hleft]
    exact hg _ left (hf.length_left_le hleft)

/-- Two local readers, one after the other, are local. The second may depend on what the first has
read, since that is the same in front of either end whenever anything is left before it. -/
theorem bind {f : List Token → Reading α} {g : α → List Token → Reading β} (hf : Local f)
    (hg : ∀ x, Local (g x)) : Local fun ts => g (f ts).1 (f ts).2 where
  suffix ts := ((hg _).suffix _).trans (hf.suffix ts)
  same _ rest rest' :=
    hf.same_bind (fun x => (hg x).suffix) fun x left _ => (hg x).same left rest rest'

/-- A local reader stays local when what it has read is put to use without a further look at the
tokens. -/
theorem map {f : List Token → Reading α} (hf : Local f) (g : α → β) :
    Local fun ts => (g (f ts).1, (f ts).2) :=
  hf.bind fun x => .pure (g x)

/-- A reader that goes on after some tokens have been stepped over. -/
theorem after {d : List Token → List Token} {f : List Token → Reading α} (hf : Local f)
    (hd : Skips d) : Local fun ts => f (d ts) :=
  hd.bind fun _ => hf

/-- A reader behind which some tokens are stepped over. -/
theorem andSkip {f : List Token → Reading α} {d : List Token → List Token} (hf : Local f)
    (hd : Skips d) : Local fun ts => ((f ts).1, d (f ts).2) :=
  hf.bind fun x => hd.map fun _ => x

/-- A reader that goes by the first token, which it takes or leaves to the next reader. -/
theorem head {f : List Token → Reading α} (hnil : (f []).2 = [])
    (hcons : ∀ t, (∃ g, Local g ∧ ∀ ts, f (t :: ts) = g ts) ∨
      ∃ g, Local g ∧ ∀ ts, f (t :: ts) = g (t :: ts)) : Local f := by
  have hsuffix : ∀ ts, (f ts).2 <:+ ts := by
    intro ts
    cases ts with
    | nil => exact ⟨[], hnil⟩
    | cons t ts =>
        rcases hcons t with ⟨g, hg, hf⟩ | ⟨g, hg, hf⟩
        · rw [hf]
          exact (hg.suffix ts).trans (List.suffix_cons _ _)
        · rw [hf]
          exact hg.suffix _
  refine ⟨hsuffix, fun front rest rest' => ?_⟩
  cases front with
  | nil => exact .inl (hsuffix rest)
  | cons t front =>
      rw [List.cons_append, List.cons_append]
      rcases hcons t with ⟨g, hg, hf⟩ | ⟨g, hg, hf⟩
      · rw [hf, hf]
        exact hg.same front rest rest'
      · rw [hf, hf]
        exact hg.same (t :: front) rest rest'

end Local

/-! ### Single tokens -/

/-- Only the first token is compared. It is taken if it is `t`, and left in front of the others if
it is not; in an empty script there is nothing to compare. -/
theorem skips_dropToken (t : Token) : Skips (dropToken t) := by
  refine .head rfl fun u => ?_
  by_cases h : u = t
  · exact .inl ⟨_, .pure (), fun ts => by simp [dropToken, h]⟩
  · exact .inr ⟨_, .pure (), fun ts => by simp [dropToken, h]⟩

/-- A keyword is a token, so that it is dropped like any other one. -/
theorem skips_dropKeyword (k : Keyword) : Skips (dropKeyword k) := skips_dropToken _

/-- A word is compared by its spelling alone, in any case of letters, and the comparison looks at
the first token only. -/
theorem skips_dropWord (w : String) : Skips (dropWord w) := by
  refine .head rfl fun u => ?_
  by_cases h : u.isWord w = true
  · exact .inl ⟨_, .pure (), fun ts => by simp [dropWord, h]⟩
  · exact .inr ⟨_, .pure (), fun ts => by simp [dropWord, h]⟩

/-- A name in front is stepped over, and a token of any other kind stays. -/
theorem skips_dropName : Skips dropName := by
  refine .head rfl fun t => ?_
  cases t with
  | name s => exact .inl ⟨_, .pure (), fun _ => rfl⟩
  | _ => exact .inr ⟨_, .pure (), fun _ => rfl⟩

/-- A name in front is taken, and a token of any other kind is left for the next reader. -/
theorem local_takeName : Local takeName := by
  refine .head rfl fun t => ?_
  cases t with
  | name s => exact .inl ⟨_, .pure (some s), fun _ => rfl⟩
  | _ => exact .inr ⟨_, .pure none, fun _ => rfl⟩

/-- The words `IF NOT EXISTS` are up to three tokens, each of which is dropped only where it stands.
The last two are looked for behind `IF` alone. -/
theorem skips_skipIfNotExists : Skips skipIfNotExists := by
  refine .head rfl fun t => ?_
  have hexists := (skips_dropKeyword .exists).after (skips_dropKeyword .not)
  cases t with
  | keyword k =>
      cases k with
      | ifWord => exact .inl ⟨_, hexists, fun _ => rfl⟩
      | _ => exact .inr ⟨_, .pure (), fun _ => rfl⟩
  | _ => exact .inr ⟨_, .pure (), fun _ => rfl⟩

/-- Behind `IF`, the word `EXISTS` is dropped where it stands. -/
theorem skips_skipIfExists : Skips skipIfExists := by
  refine .head rfl fun t => ?_
  cases t with
  | keyword k =>
      cases k with
      | ifWord => exact .inl ⟨_, skips_dropKeyword .exists, fun _ => rfl⟩
      | _ => exact .inr ⟨_, .pure (), fun _ => rfl⟩
  | _ => exact .inr ⟨_, .pure (), fun _ => rfl⟩

/-- Whatever the first token is, it is taken without a look at the second. -/
theorem skips_tail : Skips List.tail :=
  .head rfl fun _ => .inl ⟨_, .pure (), fun _ => rfl⟩

/-- Behind `USING` one more token is taken, the method of an index, whatever it is. -/
theorem skips_skipUsing : Skips skipUsing := by
  refine .head rfl fun u => ?_
  by_cases h : u.isWord "USING" = true
  · exact .inl ⟨_, skips_tail, fun ts => by simp [skipUsing, h]⟩
  · exact .inr ⟨_, .pure (), fun ts => by simp [skipUsing, h]⟩

/-- Tokens are stepped over up to the first one that satisfies `p`, and that one is left. The
induction is on the tokens before the end of the script: if none of them satisfies `p`, the reader
has arrived at the end. -/
theorem skips_skipUntil (p : Token → Bool) : Skips (skipUntil p) := by
  refine ⟨skipUntil_suffix p, fun front rest rest' => ?_⟩
  induction front with
  | nil => exact .inl (skipUntil_suffix p rest)
  | cons t front ih =>
      by_cases h : p t = true
      · have hstop (ts : List Token) : skipUntil p (t :: ts) = t :: ts := by simp [skipUntil, h]
        rw [List.cons_append, List.cons_append, hstop, hstop]
        exact .of_append () (t :: front) rest rest'
      · have hskip (ts : List Token) : skipUntil p (t :: ts) = skipUntil p ts := by
          simp [skipUntil, h]
        rw [List.cons_append, List.cons_append, hskip, hskip]
        exact ih

/-! ### Groups, names and column lists -/

/-- Parentheses are counted, from `depth` open ones on, until the last of them is closed. The count
is made of the tokens that have been taken, so that it is generalized in the induction. -/
theorem skips_afterGroup (depth : Nat) : Skips (afterGroup depth) := by
  refine ⟨afterGroup_suffix depth, fun front rest rest' => ?_⟩
  induction front generalizing depth with
  | nil => exact .inl (afterGroup_suffix depth rest)
  | cons t front ih =>
      cases depth with
      | zero => exact .of_append () (t :: front) rest rest'
      | succ depth =>
          cases t with
          | eof => exact .of_append () (.eof :: front) rest rest'
          | _ => exact ih _

/-- A group in parentheses is stepped over up to the parenthesis that closes it, and any other token
alone. One token is taken in either case. -/
theorem skips_skipGroup : Skips skipGroup := by
  refine .head rfl fun t => ?_
  by_cases h : t = .openParen
  · exact .inl ⟨_, skips_afterGroup 1, fun ts => by simp [skipGroup, h]⟩
  · exact .inl ⟨_, .pure (), fun ts => by simp [skipGroup, h]⟩

/-- The tokens of a group are read up to the parenthesis that closes it, or up to the marker of the
end, which stays. The depth is generalized, since each parenthesis changes it. -/
theorem local_groupFrom (depth : Nat) : Local (groupFrom depth) := by
  refine ⟨groupFrom_suffix depth, fun front rest rest' => ?_⟩
  induction front generalizing depth with
  | nil => exact .inl (groupFrom_suffix depth rest)
  | cons t front ih =>
      cases t with
      | eof => cases depth <;> exact .of_append [] (.eof :: front) rest rest'
      | closeParen =>
          cases depth with
          | zero => exact .of_append [] front rest rest'
          | succ depth => exact (ih depth).map (.closeParen :: ·)
      | openParen => cases depth <;> exact (ih _).map (.openParen :: ·)
      | _ => cases depth <;> exact (ih _).map (_ :: ·)

/-- Tokens are stepped over up to the first one outside all parentheses that `stops` accepts. Inside
parentheses only the marker of the end stops the reader. -/
theorem skips_skipOutside (stops : Token → Bool) (depth : Nat) :
    Skips (skipOutside stops depth) := by
  refine ⟨skipOutside_suffix stops depth, fun front rest rest' => ?_⟩
  induction front generalizing depth with
  | nil => exact .inl (skipOutside_suffix stops depth rest)
  | cons t front ih =>
      have hstay := Same.of_append () (t :: front) rest rest'
      cases depth with
      | zero =>
          simp only [List.cons_append, skipOutside]
          split
          · exact hstay
          · cases t with
            | eof => exact hstay
            | _ => exact ih _
      | succ depth =>
          cases t with
          | eof => exact hstay
          | _ => exact ih _

/-- A dot is stepped over, whatever follows it. -/
theorem dottedParts_dot_suffix (ts : List Token) : (dottedParts (.dot :: ts)).2 <:+ ts := by
  unfold dottedParts
  split
  · rename_i heq
    obtain ⟨-, rfl⟩ := List.cons.inj heq
    exact (dottedParts_suffix _).trans (List.suffix_cons _ _)
  · rename_i heq
    obtain ⟨-, rfl⟩ := List.cons.inj heq
    exact dottedParts_suffix _
  · rename_i hdot
    exact absurd rfl (hdot ts)

/-- The further parts of a qualified name end in front of the first token that is no dot. A dot
takes the name behind it along, and where no name follows the dot is taken alone, so that a dot as
the last token of a script reads on to what follows. -/
theorem local_dottedParts : Local dottedParts := by
  refine ⟨dottedParts_suffix, fun front rest rest' => ?_⟩
  induction front using dottedParts.induct with
  | case1 s front ih => exact ih.map (s :: ·)
  | case2 front hname ih =>
      cases front with
      -- The name behind a dot may be the first token that follows the script.
      | nil => exact .inl (dottedParts_dot_suffix rest)
      | cons t front =>
          cases t with
          | name s => exact absurd rfl (hname s front)
          | _ => exact ih
  | case3 front hdotName hdot =>
      cases front with
      | nil => exact .inl (dottedParts_suffix rest)
      | cons t front =>
          cases t with
          | dot => exact absurd rfl (hdot front)
          | _ => exact .of_append [] (_ :: front) rest rest'

/-- The names of a list are read up to its closing parenthesis. Whether a name is expected and how
deep the tokens are nested is told by the tokens before, and both are generalized in the
induction. -/
theorem local_listedNames (expecting : Bool) (depth : Nat) :
    Local (listedNames expecting depth) := by
  refine ⟨listedNames_suffix expecting depth, fun front rest rest' => ?_⟩
  induction front generalizing expecting depth with
  | nil => exact .inl (listedNames_suffix expecting depth rest)
  | cons t front ih =>
      cases t with
      | eof => cases depth <;> exact .of_append [] (.eof :: front) rest rest'
      | closeParen =>
          cases depth with
          | zero => exact .of_append [] front rest rest'
          | succ depth => exact ih expecting depth
      | name s =>
          cases depth with
          | zero =>
              cases expecting with
              | true => exact (ih false 0).map (s :: ·)
              | false => exact ih _ _
          | succ depth => exact ih _ _
      | _ => cases depth <;> exact ih _ _

/-- Whether there is a list of columns is told by the parenthesis that would open it. -/
theorem local_columnNames : Local columnNames := by
  refine .head rfl fun t => ?_
  cases t with
  | openParen => exact .inl ⟨_, local_listedNames true 0, fun _ => rfl⟩
  | _ => exact .inr ⟨_, .pure [], fun _ => rfl⟩

/-! ### Foreign keys -/

/-- A reader of one token, whatever it is. -/
theorem local_next (g : Token → α) : Local fun ts => (g (current ts), ts.tail) :=
  .head rfl fun t => .inl ⟨_, .pure (g t), fun _ => rfl⟩

/-- An action is one token, or two behind `SET` and `NO`. Either way it takes a fixed number of
tokens once the first of them is known. -/
theorem local_action : Local action := by
  refine .head (by decide) fun t => ?_
  by_cases hset : t.isWord "SET" = true
  · exact .inl ⟨_, local_next fun u => "SET_" ++ Text.upperText u.source,
      fun ts => by simp [action, current, upperSource, hset]⟩
  · by_cases hno : t.isWord "NO" = true
    · exact .inl ⟨_, local_next fun _ => "NO_ACTION",
        fun ts => by simp [action, current, hset, hno]⟩
    · exact .inl ⟨_, .pure (Text.upperText t.source),
        fun ts => by simp [action, current, upperSource, hset, hno]⟩

/-- An event is one token, and its action is read behind it. A token that is no event is left where
it is, and no action is read. -/
theorem local_eventAction : Local eventAction := by
  refine .head rfl fun t => ?_
  cases hevent : event? [t] with
  | some event =>
      have h (ts : List Token) : event? (t :: ts) = some event := hevent
      exact .inl ⟨_, local_action.map fun a => some (event, a),
        fun ts => by simp [eventAction, h]⟩
  | none =>
      have h (ts : List Token) : event? (t :: ts) = none := hevent
      exact .inr ⟨_, .pure none, fun ts => by simp [eventAction, h]⟩

/-- The actions of a foreign key end where no `ON` follows. -/
theorem withActions_cons {t : Token} (ht : t ≠ .keyword .on) (key : ForeignKey) (ts : List Token) :
    withActions key (t :: ts) = (key, t :: ts) := by
  unfold withActions
  split
  · rename_i heq
    exact absurd (List.cons.inj heq).1 ht
  · rfl

/-- The actions of a foreign key are read the same, by induction on the tokens before the ends. -/
theorem same_withActions (key : ForeignKey) (front rest rest' : List Token) :
    Same rest rest' (withActions key (front ++ rest)) (withActions key (front ++ rest')) := by
  match front with
  | [] => exact .inl (withActions_suffix key rest)
  | t :: front =>
      rw [List.cons_append, List.cons_append]
      by_cases hon : t = .keyword .on
      · rw [hon, withActions, withActions]
        rcases local_eventAction.same front rest rest' with h | ⟨left, -, hleft, hread⟩
        · left
          split
          · exact (withActions_suffix _ _).trans h
          · exact h
        · have hlength := local_eventAction.length_left_le hleft
          rw [hread, hleft]
          dsimp only
          split
          · rename_i event action _
            exact same_withActions (setAction key event action) left rest rest'
          · exact .of_append key left rest rest'
      · rw [withActions_cons hon, withActions_cons hon]
        exact .of_append key (t :: front) rest rest'
termination_by front.length
decreasing_by exact Nat.lt_succ_of_le hlength

/-- The actions of a foreign key end in front of the first token that is not `ON`. -/
theorem local_withActions (key : ForeignKey) : Local (withActions key) :=
  ⟨withActions_suffix key, same_withActions key⟩

/-- A table and columns after its name: what `reference?` reads behind the name `s`. -/
theorem local_reference (s : String) :
    Local fun ts => ((lastPart (s :: (dottedParts ts).1), (columnNames (dottedParts ts).2).1),
      (columnNames (dottedParts ts).2).2) :=
  local_dottedParts.bind fun parts => local_columnNames.map fun columns =>
    (lastPart (s :: parts), columns)

/-- What `foreignKey` reads behind the columns. Without `REFERENCES` there is no foreign key, and
nothing more is read. -/
def foreignTarget (table : String) (name : Option String) (columns : List String) :
    List Token → Reading (Option ForeignKey)
  | .keyword .references :: rest =>
    match reference? rest with
    | some ((toTable, toColumns), left) =>
      let key : ForeignKey :=
        { name, fromTable := table, fromColumns := columns, toTable, toColumns }
      let read := withActions key left
      (some read.1, read.2)
    | none => (none, rest)
  | left => (none, left)

/-- The keyword `REFERENCES` decides whether there is a reference, and the token behind it whether
it has a name. Without a name the keyword is gone all the same, and there is no foreign key. -/
theorem local_foreignTarget (table : String) (name : Option String) (columns : List String) :
    Local (foreignTarget table name columns) := by
  have htarget : Local fun ts => foreignTarget table name columns (.keyword .references :: ts) := by
    refine .head rfl fun t => ?_
    cases t with
    | name s =>
        let key (r : String × List String) : ForeignKey :=
          { name, fromTable := table, fromColumns := columns, toTable := r.1, toColumns := r.2 }
        exact .inl ⟨_, (local_reference s).bind fun r => (local_withActions (key r)).map some,
          fun _ => rfl⟩
    | _ => exact .inr ⟨_, .pure none, fun _ => rfl⟩
  refine .head rfl fun t => ?_
  cases t with
  | keyword k =>
      cases k with
      | references => exact .inl ⟨_, htarget, fun _ => rfl⟩
      | _ => exact .inr ⟨_, .pure none, fun _ => rfl⟩
  | _ => exact .inr ⟨_, .pure none, fun _ => rfl⟩

/-- A foreign key is read up to its last action: its columns, then the reference, both by local
readers. -/
theorem local_foreignKey (table : String) (name : Option String) :
    Local (foreignKey table name) :=
  have hcolumns : Local fun ts => columnNames (dropName (dropKeyword .key ts)) :=
    (local_columnNames.after skips_dropName).after (skips_dropKeyword .key)
  hcolumns.bind (local_foreignTarget table name)

/-! ### Columns -/

/-- A value in parentheses ends at the parenthesis that closes it. Its text is made of the tokens of
the group. -/
theorem local_parenthesized : Local parenthesized :=
  (local_groupFrom 0).map fun group => String.ofList (['('] ++ groupText group ++ [')'])

/-- A type ends at every token that is neither a name nor an opening parenthesis. -/
theorem typeFrom_cons {t : Token} (hparen : t ≠ .openParen) (hname : ∀ w, t ≠ .name w)
    (read : List Char) (ts : List Token) : typeFrom read (t :: ts) = (read, t :: ts) := by
  unfold typeFrom
  split
  · rename_i heq
    exact absurd (List.cons.inj heq).1 hparen
  · rename_i heq
    exact absurd (List.cons.inj heq).1 (hname _)
  · rfl

/-- A type is read the same, by induction on the tokens before the ends. -/
theorem same_typeFrom (read : List Char) (front rest rest' : List Token) :
    Same rest rest' (typeFrom read (front ++ rest)) (typeFrom read (front ++ rest')) := by
  match front with
  | [] => exact .inl (typeFrom_suffix read rest)
  | t :: front =>
      rw [List.cons_append, List.cons_append]
      -- A parenthesis or a further word of the type is followed by another round. Everything else
      -- ends the type where it stands.
      cases t with
      | openParen =>
          rw [typeFrom, typeFrom]
          split
          · exact .of_append read (.openParen :: front) rest rest'
          · exact (local_groupFrom 0).same_bind
              (g := fun group => typeFrom (read ++ ['('] ++ sources group ++ [')']))
              (fun _ => typeFrom_suffix _) fun _ left hlength => same_typeFrom _ left rest rest'
      | name w =>
          rw [typeFrom, typeFrom]
          split
          · exact same_typeFrom _ front rest rest'
          · exact .of_append read (.name w :: front) rest rest'
      | _ =>
          rw [typeFrom_cons (by simp) (by simp), typeFrom_cons (by simp) (by simp)]
          exact .of_append read (_ :: front) rest rest'
termination_by front.length
decreasing_by
  · exact Nat.lt_succ_self _
  · exact Nat.lt_succ_of_le hlength

/-- The words and arguments of a type are read up to the first token that does not continue it. -/
theorem local_typeFrom (read : List Char) : Local (typeFrom read) :=
  ⟨typeFrom_suffix read, same_typeFrom read⟩

/-- A declared type starts with a name. Where no name stands, nothing is taken and the type is
empty. -/
theorem local_declaredType : Local declaredType := by
  refine .head rfl fun t => ?_
  cases t with
  | name w => exact .inl ⟨_, local_typeFrom w.toList, fun _ => rfl⟩
  | _ => exact .inr ⟨_, .pure [], fun _ => rfl⟩

/-- A default value is told by its first token. A name is told apart from a call by the token behind
it, which is left where it opens no group. -/
theorem local_defaultValue : Local defaultValue := by
  refine .head rfl fun t => ?_
  cases t with
  | text s => exact .inl ⟨_, .pure s, fun _ => rfl⟩
  | number n => exact .inl ⟨_, .pure n, fun _ => rfl⟩
  | openParen => exact .inl ⟨_, local_parenthesized, fun _ => rfl⟩
  | keyword k =>
      cases k with
      | null => exact .inl ⟨_, .pure "NULL", fun _ => rfl⟩
      | _ => exact .inr ⟨_, .pure "", fun _ => rfl⟩
  | name s =>
      -- A name may be the name of a function, whose arguments then belong to the value.
      have hcall : Local fun ts => defaultValue (.name s :: ts) := by
        refine .head rfl fun u => ?_
        cases u with
        | openParen => exact .inl ⟨_, local_parenthesized.map (s ++ ·), fun _ => rfl⟩
        | _ => exact .inr ⟨_, .pure s, fun _ => rfl⟩
      exact .inl ⟨_, hcall, fun _ => rfl⟩
  | _ => exact .inr ⟨_, .pure "", fun _ => rfl⟩

namespace ColumnReading

/-- Behind `REFERENCES` in a column definition stand the name of a table and its columns; no actions
are read with them. -/
theorem local_reference (table : String) (r : ColumnReading) : Local (r.reference table) := by
  refine .head rfl fun t => ?_
  cases t with
  | name s =>
      let key (target : String × List String) : ForeignKey :=
        { fromTable := table, fromColumns := [r.column.name], toTable := target.1
          toColumns := target.2 }
      exact .inl ⟨_, (Ddl.local_reference s).map fun target =>
        { r with foreignKey := some (key target) }, fun _ => rfl⟩
  | _ => exact .inr ⟨_, .pure r, fun _ => rfl⟩

/-- What `onEvent` makes of the action that it reads. -/
def withAction (r : ColumnReading) : Option (KeyEvent × String) → ColumnReading
  | some (event, action) => { r with foreignKey := r.foreignKey.map (setAction · event action) }
  | none => r

/-- The action behind `ON` is read whether or not the column has a reference that it could
change. -/
theorem local_onEvent (r : ColumnReading) : Local r.onEvent := by
  have h (ts : List Token) :
      r.onEvent ts = (r.withAction (eventAction ts).1, (eventAction ts).2) := by
    unfold onEvent withAction
    dsimp only
    cases (eventAction ts).1 <;> rfl
  rw [funext h]
  exact local_eventAction.map r.withAction

/-- A word among the options of a column stands alone, except for `COMMENT`, which takes the text
behind it. -/
theorem local_word (r : ColumnReading) (w : String) : Local (r.word w) := by
  unfold word
  split
  · exact .pure _
  · exact .pure _
  · exact .pure _
  · refine .head rfl fun t => ?_
    cases t with
    | text s => exact .inl ⟨_, .pure _, fun _ => rfl⟩
    | _ => exact .inr ⟨_, .pure r, fun _ => rfl⟩
  · exact .pure r

/-- Every option of a column is read by a reader of its own, which its first token chooses: none of
them looks further than the one token behind what it takes. -/
theorem local_option (table : String) (r : ColumnReading) (t : Token) :
    Local (r.option table t) := by
  -- Only `NOT` looks at a second token. The other options leave what follows to a reader that is
  -- local already.
  cases t with
  | keyword k =>
      cases k with
      | not =>
          refine .head rfl fun u => ?_
          cases u with
          | keyword k =>
              cases k with
              | null => exact .inl ⟨_, .pure _, fun _ => rfl⟩
              | _ => exact .inr ⟨_, .pure r, fun _ => rfl⟩
          | _ => exact .inr ⟨_, .pure r, fun _ => rfl⟩
      | primary => exact (skips_dropKeyword .key).map fun _ => r.mapColumn Column.asKey
      | unique => exact (skips_dropKeyword .key).map fun _ => r.withUnique
      | default =>
          exact local_defaultValue.map fun value =>
            r.mapColumn fun c => { c with defaultValue := some value }
      | references => exact r.local_reference table
      | on => exact r.local_onEvent
      | constraint => exact skips_dropName.map fun _ => r
      | check => exact skips_skipGroup.map fun _ => r
      | null => exact .pure _
      | _ => exact .pure r
  | openParen => exact (skips_afterGroup 1).map fun _ => r
  | name w => exact r.local_word w
  | _ => exact .pure r

/-- The options of a column are read the same, by induction on the tokens before the ends. -/
theorem same_options (table : String) (r : ColumnReading) (front rest rest' : List Token) :
    Same rest rest' (r.options table (front ++ rest)) (r.options table (front ++ rest')) := by
  match front with
  | [] => exact .inl (r.options_suffix table rest)
  | t :: front =>
      rw [List.cons_append, List.cons_append, options, options]
      split
      · exact .of_append r (t :: front) rest rest'
      · exact (r.local_option table t).same_bind (options_suffix table) fun r left hlength =>
          same_options table r left rest rest'
termination_by front.length
decreasing_by exact Nat.lt_succ_of_le hlength

/-- The options of a column end in front of the comma or parenthesis behind its definition. Each
option is local, and the rest of them are read from what it leaves. -/
theorem local_options (table : String) (r : ColumnReading) : Local (r.options table) :=
  ⟨r.options_suffix table, r.same_options table⟩

end ColumnReading

/-- A column definition is the type of the column and, behind it, its options. -/
theorem local_columnDefinition (table name : String) : Local (columnDefinition table name) :=
  local_declaredType.bind fun type =>
    ColumnReading.local_options table { column := columnOfType name (Sql.ColumnType.ofText type) }

/-! ### Table bodies -/

/-- What is left of an element is stepped over up to the comma or parenthesis that ends it. -/
theorem skips_skipElement : Skips skipElement := skips_skipOutside endsElement 0

/-- An index may have a name of its own in front of its columns. The token `USING` is told apart
from a name by its spelling. -/
theorem local_indexDefinition (constraint : Option String) (unique : Bool) (kind : String) :
    Local (indexDefinition constraint unique kind) := by
  have hnamed (name : Option String) : Local fun ts =>
      (({ name, columns := (columnNames (skipUsing ts)).1, unique, kind := some kind } : Index),
        (columnNames (skipUsing ts)).2) :=
    (local_columnNames.after skips_skipUsing).map fun columns =>
      ({ name, columns, unique, kind := some kind } : Index)
  refine .head rfl fun t => ?_
  cases t with
  | name n =>
      by_cases h : Text.eqIgnoreCase n "USING" = true
      · exact .inr ⟨_, hnamed constraint, fun ts => by simp [indexDefinition, h]⟩
      · exact .inl ⟨_, hnamed (some n), fun ts => by simp [indexDefinition, h]⟩
  | _ => exact .inr ⟨_, hnamed constraint, fun _ => rfl⟩

/-- One of the words `KEY` and `INDEX` is dropped, and any other token stays. -/
theorem skips_dropIndexWord : Skips dropIndexWord := by
  refine .head rfl fun t => ?_
  cases t with
  | keyword k =>
      cases k with
      | key | index => exact .inl ⟨_, .pure (), fun _ => rfl⟩
      | _ => exact .inr ⟨_, .pure (), fun _ => rfl⟩
  | _ => exact .inr ⟨_, .pure (), fun _ => rfl⟩

namespace TableReading

/-- A constraint may have a name, and whether it is stepped over is told by the token behind the
name, which is left in front of the constraint in case it is read. -/
theorem local_constraintName (r : TableReading) : Local r.constraintName := by
  -- What is read behind the name.
  have hkind (name : Option String) : Local fun ts =>
      if opensNamedConstraint (current ts) then
        ({ r with constraint := if name.isSome then name else r.constraint }, ts)
      else (({ r with constraint := none } : TableReading), skipElement ts) := by
    refine .head rfl fun t => ?_
    by_cases h : opensNamedConstraint t = true
    · exact .inr ⟨_, .pure _, fun ts => if_pos h⟩
    · exact .inr ⟨_, skips_skipElement.map fun _ => _, fun ts => if_neg h⟩
  exact local_takeName.bind hkind

/-- A primary key is read up to the end of its columns, and the rest of its element is stepped
over. -/
theorem local_primaryClause (r : TableReading) : Local r.primaryClause := by
  have hcolumns : Local fun ts => columnNames (skipUsing (dropKeyword .key ts)) :=
    (local_columnNames.after skips_skipUsing).after (skips_dropKeyword .key)
  exact (hcolumns.map fun columns =>
    { r with primaryKey := some { name := r.constraint, columns }, constraint := none }).andSkip
      skips_skipElement

/-- A foreign key is read up to its last action, and the rest of its element is stepped over. -/
theorem local_foreignClause (table : String) (r : TableReading) : Local (r.foreignClause table) :=
  ((local_foreignKey table r.constraint).map fun key =>
    { r with foreignKeys := r.foreignKeys ++ key.toList, constraint := none }).andSkip
      skips_skipElement

/-- An index is read up to the end of its columns, and the rest of its element is stepped over. -/
theorem local_indexClause (unique : Bool) (kind : String) (r : TableReading) :
    Local (r.indexClause unique kind) :=
  ((local_indexDefinition r.constraint unique kind).map fun index =>
    { r with indexes := r.indexes ++ [index], constraint := none }).andSkip skips_skipElement

/-- A full-text or spatial index is read like any other one behind the word `KEY` or `INDEX`, which
it may lack. -/
theorem local_specialIndexClause (w : String) (r : TableReading) :
    Local (r.specialIndexClause w) :=
  (((local_indexDefinition none false (Text.upperText w)).after skips_dropIndexWord).map
    fun index => { r with indexes := r.indexes ++ [index] }).andSkip skips_skipElement

/-- A column definition leaves the comma or parenthesis behind it for the table body. -/
theorem local_columnClause (table w : String) (r : TableReading) :
    Local (r.columnClause table w) :=
  (local_columnDefinition table w).map fun c =>
    { r with
      columns := r.columns ++ [c.column]
      indexes := r.indexes ++ c.indexes
      foreignKeys := r.foreignKeys ++ c.foreignKey.toList }

/-- An element that starts with a name is a constraint, a special index or a column. Which of them
it is depends on the name and on one token behind it, and no more is looked at before it is
decided. -/
theorem local_nameClause (table w : String) (r : TableReading) :
    Local (r.nameClause table w) := by
  refine .head (List.suffix_nil.1 (nameClause_suffix table w r [])) fun t => ?_
  -- What a name stands for is told by the token behind it alone.
  have hother (ts : List Token) :
      opensOtherConstraint w (t :: ts) = opensOtherConstraint w [t] := rfl
  have hspecial (ts : List Token) : opensSpecialIndex w (t :: ts) = opensSpecialIndex w [t] := rfl
  by_cases h : opensOtherConstraint w [t] = true
  · exact .inr ⟨_, skips_skipElement.map fun _ => r, fun ts => by simp [nameClause, hother, h]⟩
  · by_cases h' : opensSpecialIndex w [t] = true
    · exact .inr ⟨_, r.local_specialIndexClause w,
        fun ts => by simp [nameClause, hother, hspecial, h, h']⟩
    · exact .inr ⟨_, r.local_columnClause table w,
        fun ts => by simp [nameClause, hother, hspecial, h, h']⟩

/-- Every element of a table body is local, whatever its first token is. This is what makes the run
over the whole body local, as far as it stays inside the script. -/
theorem local_element (table : String) (r : TableReading) (t : Token) :
    Local (r.element table t) := by
  -- Everything that opens no clause is skipped up to the next comma or closing parenthesis.
  have hrest : Local fun ts => (r, skipElementAfter t ts) :=
    (skips_skipOutside endsElement _).map fun _ => r
  cases t with
  | comma => exact .pure _
  | name w => exact r.local_nameClause table w
  | keyword k =>
      cases k with
      | constraint => exact r.local_constraintName
      | primary => exact r.local_primaryClause
      | foreign => exact r.local_foreignClause table
      | unique => exact (r.local_indexClause true "UNIQUE").after skips_dropIndexWord
      | index | key => exact r.local_indexClause false "INDEX"
      | _ => exact hrest
  | _ => exact hrest

/-- A table body ends at a closing parenthesis. -/
theorem elements_eq_append {table : String} {r : TableReading} {ts : List Token}
    {read : Reading TableReading} (h : elements table r ts = .ok read) :
    ∃ inside, ts = inside ++ .closeParen :: read.2 := by
  fun_induction elements table r ts with
  | case1 => cases h
  | case2 r t rest hclose =>
      cases h
      exact ⟨[], by rw [beq_iff_eq.1 hclose]; rfl⟩
  | case3 => cases h
  | case4 r t rest _ _ step ih =>
      obtain ⟨inside, hinside⟩ := ih h
      obtain ⟨used, hused⟩ := element_suffix table r t rest
      exact ⟨t :: (used ++ inside), by rw [← hused, hinside]; simp⟩

/-- A table body that is closed in a script is read the same, whatever follows. If it is not, the
script that follows has to close it. -/
theorem closes_elements {table : String} {r : TableReading} {front rest : List Token}
    {read : Reading TableReading} (h : elements table r (front ++ rest) = .ok read) :
    (∃ inside, rest = inside ++ .closeParen :: read.2) ∨
      ∃ left, read.2 = left ++ rest ∧
        ∀ rest', elements table r (front ++ rest') = .ok (read.1, left ++ rest') := by
  match front with
  | [] => exact .inl (elements_eq_append h)
  | t :: front =>
      rw [List.cons_append, elements] at h
      split at h
      · rename_i hclose
        cases h
        exact .inr ⟨front, rfl, fun rest' => by rw [List.cons_append, elements, if_pos hclose]⟩
      · rename_i hclose
        split at h
        · cases h
        · rename_i heof
          -- An element that reads on to what follows leaves the end of the body to it.
          rcases (r.local_element table t).cases front rest with
            ⟨used, hused⟩ | ⟨left, -, hleft, hread⟩
          · obtain ⟨inside, hinside⟩ := elements_eq_append h
            exact .inl ⟨used ++ inside, by rw [← hused, hinside]; simp⟩
          · have hlength := (r.local_element table t).length_left_le hleft
            dsimp only at h
            rw [hleft] at h
            rcases closes_elements h with hinside | ⟨more, hmore, hrest⟩
            · exact .inl hinside
            · refine .inr ⟨more, hmore, fun rest' => ?_⟩
              rw [List.cons_append, elements, if_neg hclose, if_neg heof, hread]
              exact hrest rest'
termination_by front.length
decreasing_by exact Nat.lt_succ_of_le hlength

end TableReading

end EntityDiagram.Ddl
