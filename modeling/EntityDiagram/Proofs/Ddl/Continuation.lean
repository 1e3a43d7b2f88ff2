import EntityDiagram.Proofs.Ddl.Boundary
import EntityDiagram.Proofs.Ddl.Statement
import EntityDiagram.Proofs.Schema.Assembly

/-!
# `EntityDiagram.Proofs.Ddl.Continuation`: scripts that go on

The tokens of a script may be followed by those of another one, and its last statement may take
them. A statement that takes them adds the same tables as without them: which table it defines is
settled before its options, and the name of the table stands in the script, unless the parenthesis
behind it is among the tokens that follow (`Blocks` rules that out).

* `addedNames_statement`: the tables of one statement do not depend on what follows.
* `statements_append`: in front of another statement, a script either adds nothing more or is
  finished with a semicolon, and then it is read the same whatever follows.
* `AddsTables.congr_end`: a script adds the same tables in front of any two ends that add none.
-/

set_option autoImplicit false

namespace EntityDiagram.Ddl

/-- The names of the tables that the steps add. -/
def addedNames (steps : List Step) : List String := (addedTables steps).map (·.name)

/-- Names are added in the order of the steps. -/
theorem addedNames_append (steps more : List Step) :
    addedNames (steps ++ more) = addedNames steps ++ addedNames more := by
  rw [addedNames, addedTables_append, List.map_append]
  rfl

/-! ### Statements that add no table -/

/-- An index is added to a table that exists, if to any, and so adds none. -/
theorem addedNames_createIndex (unique : Bool) (ts : List Token) :
    addedNames (createIndex unique ts).1 = [] := by
  unfold createIndex
  dsimp only
  split
  · split <;> rfl
  · rfl

/-- A view is no table, even where its query defines its columns. -/
theorem addedNames_createView (ts : List Token) : addedNames (createView ts).1 = [] := by
  unfold createView
  split <;> rfl

/-- Keys and indexes that are added to a table add none. -/
theorem addedNames_addition (parts : List String) (ts : List Token) :
    addedNames (addition parts ts).1 = [] := by
  unfold addition
  dsimp only
  split
  · rename_i rest _
    cases (foreignKey (lastPart parts) (constraintName ts).1 rest).1 <;> rfl
  · rfl
  · rfl
  · rfl
  · rfl
  · rfl

/-- None of the operations on a table adds one, by induction on the tokens they are read from. -/
theorem addedNames_operations (parts : List String) (ts : List Token) :
    addedNames (operations parts ts).1 = [] := by
  fun_induction operations parts ts with
  | case1 => rfl
  | case2 => rfl
  | case3 _ _ _ _ ih => exact ih
  | case4 t rest _ _ _ added more ih =>
      rw [addedNames_append, addedNames_addition, ih]
      rfl
  | case5 _ _ _ _ _ ih => exact ih

/-- No alteration adds a table, whatever it is an alteration of. -/
theorem addedNames_alter (ts : List Token) : addedNames (alter ts).1 = [] := by
  unfold alter
  split
  · dsimp only
    split
    · exact addedNames_operations _ _
    · rfl
  · rfl

/-! ### The table of a statement -/

/-- The name of the table that a statement defines after `CREATE`, if it defines one, and the tokens
behind it. -/
def tableHead (ts : List Token) : Reading (Option (List String)) :=
  match skipModifiers false ts with
  | .keyword .table :: rest =>
    match qualifiedName? (skipIfNotExists rest) with
    | some (parts, left) => (some parts, left)
    | none => (none, skipIfNotExists rest)
  | left => (none, left)

/-- Whether a statement defines a table after `CREATE`: its name, and the tokens behind the
parenthesis that opens it. -/
def Opens (ts : List Token) (parts : List String) (inside : List Token) : Prop :=
  tableHead ts = (some parts, .openParen :: inside)

/-- The head of a table definition is local: the modifiers, the keyword and the name in turn. So a
head that ends inside a script is the same whatever follows. -/
theorem local_tableHead : Local tableHead := by
  -- The name is the last thing read, and before it come the modifiers, `TABLE` and `IF NOT EXISTS`,
  -- none of which looks further than its own words.
  have hname : Local fun ts =>
      match qualifiedName? ts with
      | some (parts, left) => (some parts, left)
      | none => (none, ts) := by
    refine .head rfl fun t => ?_
    cases t with
    | name s => exact .inl ⟨_, local_dottedParts.map fun parts => some (s :: parts), fun _ => rfl⟩
    | _ => exact .inr ⟨_, .pure none, fun _ => rfl⟩
  have hkind : Local fun ts =>
      match ts with
      | .keyword .table :: rest =>
        match qualifiedName? (skipIfNotExists rest) with
        | some (parts, left) => (some parts, left)
        | none => (none, skipIfNotExists rest)
      | left => (none, left) := by
    refine .head rfl fun t => ?_
    cases t with
    | keyword k =>
        cases k with
        | table => exact .inl ⟨_, hname.after skips_skipIfNotExists, fun _ => rfl⟩
        | _ => exact .inr ⟨_, .pure none, fun _ => rfl⟩
    | _ => exact .inr ⟨_, .pure none, fun _ => rfl⟩
  exact hkind.after (skips_skipModifiers false)

/-- A statement that opens a table defines it. -/
theorem create_of_opens {ts inside : List Token} {parts : List String}
    (h : Opens ts parts inside) : create ts = tableDefinition parts inside := by
  unfold Opens tableHead at h
  unfold create
  split at h
  · rename_i rest hrest
    rw [hrest]
    show createTable rest = _
    -- The head and the statement look for the name at the same place, so the same case decides
    -- both.
    rw [createTable_eq, byName]
    cases hname : qualifiedName? (skipIfNotExists rest) with
    | none =>
        rw [hname] at h
        cases h
    | some read =>
        obtain ⟨name, left⟩ := read
        rw [hname] at h
        cases h
        rfl
  · cases h

/-- A statement that opens no table is read in any case, and adds none. -/
theorem create_of_not_opens {ts : List Token} (h : ∀ parts inside, ¬ Opens ts parts inside) :
    ∃ read, create ts = .ok read ∧ addedNames read.1 = [] := by
  unfold Opens tableHead at h
  unfold create
  split
  · rename_i rest hrest
    rw [hrest] at h
    dsimp only at h
    rw [createTable_eq, byName]
    cases hname : qualifiedName? (skipIfNotExists rest) with
    | none => exact ⟨_, rfl, rfl⟩
    | some read =>
        obtain ⟨parts, left⟩ := read
        rw [hname] at h
        dsimp only
        unfold namedTable
        split
        · rename_i inside
          -- A name with a parenthesis behind it is what the hypothesis rules out.
          exact absurd rfl (h parts inside)
        · exact ⟨_, rfl, rfl⟩
  · exact ⟨_, rfl, addedNames_createIndex true _⟩
  · exact ⟨_, rfl, rfl⟩
  · exact ⟨_, rfl, addedNames_createIndex false _⟩
  · exact ⟨_, rfl, addedNames_createView _⟩
  · exact ⟨_, rfl, rfl⟩

/-! ### No other statement comes before the table -/

/-- Whether the tokens lead to others without a word `CREATE` between. -/
def LeadsTo (ts left : List Token) : Prop :=
  ∃ used, ts = used ++ left ∧ Token.keyword .create ∉ used

namespace LeadsTo

/-- Nothing stands between tokens and themselves. -/
theorem refl (ts : List Token) : LeadsTo ts ts := ⟨[], rfl, by simp⟩

/-- A token that is not `CREATE` may be put in front. -/
theorem cons {t : Token} (ht : t ≠ .keyword .create) {ts left : List Token}
    (h : LeadsTo ts left) : LeadsTo (t :: ts) left := by
  obtain ⟨used, rfl, hused⟩ := h
  exact ⟨t :: used, rfl, by simp [hused, Ne.symm ht]⟩

/-- The tokens on a way from one place to another and on to a third are those of both parts. -/
theorem trans {ts mid left : List Token} (h : LeadsTo ts mid) (h' : LeadsTo mid left) :
    LeadsTo ts left := by
  obtain ⟨used, rfl, hused⟩ := h
  obtain ⟨more, rfl, hmore⟩ := h'
  exact ⟨used ++ more, by simp, by simp [hused, hmore]⟩

/-- A keyword that is stepped over is not `CREATE`, unless that is the one to step over. -/
theorem dropKeyword {k : Keyword} (hk : k ≠ .create) (ts : List Token) :
    LeadsTo ts (dropKeyword k ts) := by
  cases ts with
  | nil => exact refl []
  | cons t ts =>
      by_cases ht : t = .keyword k
      · have h : Ddl.dropKeyword k (t :: ts) = ts := by simp [Ddl.dropKeyword, dropToken, ht]
        rw [h, ht]
        exact (refl ts).cons (by simpa using hk)
      · have h : Ddl.dropKeyword k (t :: ts) = t :: ts := by
          simp [Ddl.dropKeyword, dropToken, ht]
        rw [h]
        exact refl _

/-- The words `IF NOT EXISTS` are none of them `CREATE`. -/
theorem skipIfNotExists (ts : List Token) : LeadsTo ts (skipIfNotExists ts) := by
  unfold Ddl.skipIfNotExists
  split
  · exact ((dropKeyword (by decide) _).trans (dropKeyword (by decide) _)).cons (by decide)
  · exact refl _

/-- The parts of a qualified name are names and dots. -/
theorem dottedParts (ts : List Token) : LeadsTo ts (dottedParts ts).2 := by
  fun_induction Ddl.dottedParts ts with
  | case1 s ts read ih => exact (ih.cons (by simp)).cons (by simp)
  | case2 ts _ ih => exact ih.cons (by simp)
  | case3 => exact refl _

/-- A qualified name is no keyword in any of its parts, so that `CREATE` cannot stand in it. -/
theorem qualifiedName? {ts : List Token} {read : Reading (List String)}
    (h : qualifiedName? ts = some read) : LeadsTo ts read.2 := by
  unfold Ddl.qualifiedName? at h
  split at h
  · cases h
    exact (dottedParts _).cons (by simp)
  · cases h

/-- Modifiers are names, and so are the parts of a definer. -/
theorem skipModifiers (inDefiner : Bool) (ts : List Token) :
    LeadsTo ts (skipModifiers inDefiner ts) := by
  induction ts generalizing inDefiner with
  | nil => exact refl []
  | cons t ts ih =>
      cases t with
      | name w =>
          simp only [Ddl.skipModifiers]
          split
          · exact (ih _).cons (by simp)
          · split
            · exact (ih _).cons (by simp)
            · exact refl _
      | _ => exact refl _

end LeadsTo

/-- No word `CREATE` stands before the parenthesis that opens a table. -/
theorem Opens.leadsTo {ts inside : List Token} {parts : List String} (h : Opens ts parts inside) :
    LeadsTo ts (.openParen :: inside) := by
  unfold Opens tableHead at h
  have hkind := LeadsTo.skipModifiers false ts
  split at h
  · rename_i rest hrest
    rw [hrest] at hkind
    split at h
    · rename_i hname
      cases h
      exact hkind.trans (((LeadsTo.skipIfNotExists rest).trans
        (.qualifiedName? hname)).cons (by simp))
    · cases h
  · cases h

/-- Whether no table can be opened in the tokens by a statement before them. -/
def Blocks (ts : List Token) : Prop := ∀ inside, ¬ LeadsTo ts (.openParen :: inside)

/-- Tokens without a parenthesis open no table. -/
theorem blocks_of_not_mem {ts : List Token} (h : .openParen ∉ ts) : Blocks ts := by
  rintro inside ⟨used, rfl, -⟩
  exact h (by simp)

/-- A table is opened by the tokens of a statement, and not by what blocks behind them. -/
theorem Opens.of_append {front rest inside : List Token} {parts : List String}
    (h : Opens (front ++ rest) parts inside) (hrest : Blocks rest) :
    ∃ left, inside = left ++ rest ∧ ∀ rest', Opens (front ++ rest') parts (left ++ rest') := by
  rcases local_tableHead.cases front rest with ⟨used, hused⟩ | ⟨left, hne, hleft, hread⟩
  · rw [h] at hused
    obtain ⟨before, hbefore, hcreate⟩ := h.leadsTo
    -- What leads through the end of the script leads through its last part.
    have happend : before ++ .openParen :: inside = (front ++ used) ++ .openParen :: inside := by
      rw [← hbefore, List.append_assoc]
      exact congrArg (front ++ ·) hused.symm
    have hsplit : before = front ++ used := List.append_cancel_right happend
    refine absurd ⟨used, hused.symm, ?_⟩ (hrest inside)
    rw [hsplit] at hcreate
    exact fun hmem => hcreate (List.mem_append_right _ hmem)
  · rw [h] at hleft hread
    obtain ⟨t, left, rfl⟩ := List.exists_cons_of_ne_nil hne
    obtain ⟨rfl, rfl⟩ := List.cons.inj hleft
    exact ⟨left, rfl, fun rest' => hread rest'⟩

/-- A table has the name that its statement gives it, whether or not its body declares a key. -/
theorem TableReading.name_toTable (r : TableReading) (name : String) :
    (r.toTable name).name = name := by
  rw [toTable]
  cases r.key? <;> rfl

/-- A table definition adds the table of its name. -/
theorem addedNames_tableDefinition {parts : List String} {ts : List Token}
    {read : Reading (List Step)} (h : tableDefinition parts ts = .ok read) :
    addedNames read.1 = [lastPart parts] := by
  obtain ⟨body, hbody, rfl⟩ := map_eq_ok h
  obtain ⟨elements, _, rfl⟩ := map_eq_ok hbody
  show [(elements.1.toTable (lastPart parts)).name] = _
  rw [TableReading.name_toTable]

/-- A table definition that is closed in a script is read whatever follows. The closing parenthesis
must lie within the front part, since the rest holds none. -/
theorem tableDefinition_append {parts : List String} {front rest : List Token}
    {read : Reading (List Step)} (h : tableDefinition parts (front ++ rest) = .ok read)
    (hrest : .closeParen ∉ rest) (rest' : List Token) :
    ∃ read', tableDefinition parts (front ++ rest') = .ok read' := by
  obtain ⟨body, hbody, rfl⟩ := map_eq_ok h
  obtain ⟨elements, helements, rfl⟩ := map_eq_ok hbody
  rcases TableReading.closes_elements helements with ⟨inside, hinside⟩ | ⟨left, -, hread⟩
  · exact absurd (by rw [hinside]; simp) hrest
  · exact ⟨_, by rw [tableDefinition, tableBody, hread]; rfl⟩

/-- What a statement after `CREATE` adds does not depend on what blocks behind it. The steps
themselves may differ, for instance in a comment on the table, but the tables that are added do
not. -/
theorem addedNames_create {front rest rest' : List Token} {read : Reading (List Step)}
    (h : create (front ++ rest) = .ok read) (hclose : .closeParen ∉ rest) (hrest : Blocks rest)
    (hrest' : Blocks rest') :
    ∃ read', create (front ++ rest') = .ok read' ∧ addedNames read'.1 = addedNames read.1 := by
  -- Either a table opens within the front part, whatever comes after it, or no table opens at all,
  -- and then no name is added by either text.
  by_cases hopens : ∃ parts inside, Opens (front ++ rest) parts inside
  · obtain ⟨parts, inside, hopens⟩ := hopens
    obtain ⟨left, rfl, hopens'⟩ := hopens.of_append hrest
    rw [create_of_opens hopens] at h
    obtain ⟨read', hread'⟩ := tableDefinition_append h hclose rest'
    refine ⟨read', by rw [create_of_opens (hopens' rest'), hread'], ?_⟩
    rw [addedNames_tableDefinition hread', addedNames_tableDefinition h]
  · have hnot : ∀ parts inside, ¬ Opens (front ++ rest') parts inside := by
      intro parts inside hopens'
      obtain ⟨left, -, hback⟩ := hopens'.of_append hrest'
      exact hopens ⟨parts, left ++ rest, hback rest⟩
    obtain ⟨read', hread', hnames'⟩ := create_of_not_opens hnot
    obtain ⟨read'', hread'', hnames⟩ := create_of_not_opens
      fun parts inside ho => hopens ⟨parts, inside, ho⟩
    rw [h] at hread''
    cases hread''
    exact ⟨read', hread', hnames'.trans hnames.symm⟩

/-- What a statement adds does not depend on what blocks behind it. This is what joining texts
needs: only the names of the tables are compared. -/
theorem addedNames_statement {t : Token} {front rest rest' : List Token}
    {read : Reading (List Step)} (h : statement t (front ++ rest) = .ok read)
    (hclose : .closeParen ∉ rest) (hrest : Blocks rest) (hrest' : Blocks rest') :
    ∃ read', statement t (front ++ rest') = .ok read' ∧
      addedNames read'.1 = addedNames read.1 := by
  cases t with
  | keyword k =>
      cases k with
      | create => exact addedNames_create h hclose hrest hrest'
      | alter =>
          cases h
          exact ⟨_, rfl, by rw [addedNames_alter, addedNames_alter]⟩
      | _ => cases h; exact ⟨_, rfl, rfl⟩
  | _ => cases h; exact ⟨_, rfl, rfl⟩

/-! ### Scripts -/

/-- The first statement of a script that is read, and the statements behind it. It takes a script
that is read apart, where `statements_cons` puts it together. -/
theorem statements_cons_eq_ok {t : Token} (ht : t ≠ .eof) {ts : List Token} {steps : List Step}
    (h : statements (t :: ts) = .ok steps) :
    ∃ read more, statement t ts = .ok read ∧ statements read.2 = .ok more ∧
      steps = read.1 ++ more := by
  cases hread : statement t ts with
  | error e =>
      rw [statements, if_neg (by simpa using ht)] at h
      split at h
      · cases h
      · rename_i hok
        rw [hread] at hok
        cases hok
  | ok read =>
      rw [statements_cons ht hread] at h
      obtain ⟨more, hmore, rfl⟩ := map_eq_ok h
      exact ⟨read, more, rfl, hmore, rfl⟩

/-- Whether the tokens are read as a script that adds tables of these names. -/
def AddsTables (ts : List Token) (names : List String) : Prop :=
  ∃ steps, statements ts = .ok steps ∧ addedNames steps = names

/-- A statement in front of a script adds its tables before those of the script. -/
theorem AddsTables.cons {t : Token} (ht : t ≠ .eof) {ts left : List Token} {steps : List Step}
    {names : List String} (hread : statement t ts = .ok (steps, left))
    (h : AddsTables left names) : AddsTables (t :: ts) (addedNames steps ++ names) := by
  obtain ⟨more, hmore, rfl⟩ := h
  refine ⟨steps ++ more, ?_, addedNames_append _ _⟩
  rw [statements_cons ht hread, hmore]
  rfl

/-- The tokens that may follow a script: another statement, and no semicolon. -/
structure Follows (rest : List Token) : Prop where
  starts : ¬ AtEnd rest
  semicolon : .semicolon ∉ rest
  blocks : Blocks rest

/-- A statement that takes a token behind its script takes all that follows, up to a semicolon.
There is no semicolon in what follows, so this is the end of the text. -/
theorem Follows.statements_left {t : Token} (ht : t ≠ .semicolon) {front rest : List Token}
    {read : Reading (List Step)} (hrest : Follows rest)
    (h : statement t (front ++ rest) = .ok read) (hlength : read.2.length < rest.length) :
    statements read.2 = .ok [] := by
  have hsuffix : read.2 <:+ rest :=
    List.suffix_of_suffix_length_le (statement_suffix h) (List.suffix_append front rest)
      (Nat.le_of_lt hlength)
  -- A statement that runs into the rest cannot have ended at a semicolon there, as there is none,
  -- so it has ended with the text.
  have hend : AtEnd read.2 := by
    refine ((settles_statement ht).ends h).resolve_right fun ⟨used, hused⟩ => ?_
    have hsemicolon : .semicolon :: read.2 <:+ rest :=
      List.suffix_of_suffix_length_le ⟨used, hused.symm⟩ (List.suffix_append front rest) hlength
    exact hrest.semicolon (hsemicolon.subset List.mem_cons_self)
  cases hread : read.2 with
  | nil => rw [statements]
  | cons u left =>
      rw [hread] at hend hsuffix
      have hends : endsStatement u = true := hend u rfl
      have hsemicolon : u ≠ .semicolon := by
        rintro rfl
        exact hrest.semicolon (hsuffix.subset List.mem_cons_self)
      have heof : (u == .eof) = true := by
        simpa [endsStatement, hsemicolon] using hends
      rw [statements, if_pos heof]

/-- So the script ends with such a statement. -/
theorem Follows.addsTables {t : Token} (ht : t ≠ .eof) (hsemicolon : t ≠ .semicolon)
    {front rest : List Token} {read : Reading (List Step)} (hrest : Follows rest)
    (h : statement t (front ++ rest) = .ok read) (hlength : read.2.length < rest.length) :
    AddsTables (t :: (front ++ rest)) (addedNames read.1) := by
  have hnil : AddsTables read.2 [] := ⟨[], hrest.statements_left hsemicolon h hlength, rfl⟩
  have hcons := hnil.cons ht h
  rwa [List.append_nil] at hcons

/-- What a statement leaves of a script in front of other tokens is an end of the script. -/
theorem suffix_of_left {t : Token} {front rest left : List Token} {read : Reading (List Step)}
    (h : statement t (front ++ rest) = .ok read) (hleft : read.2 = left ++ rest) :
    left <:+ front := by
  obtain ⟨used, hused⟩ := statement_suffix h
  rw [hleft, ← List.append_assoc] at hused
  exact ⟨used, List.append_cancel_right hused⟩

/-- A script whose first statement stops in it ends in a semicolon if what the statement leaves of
it does, or if nothing is left. -/
theorem Follows.getLast?_front {t : Token} (ht : t ≠ .semicolon) {front rest left : List Token}
    {read : Reading (List Step)} (hrest : Follows rest)
    (h : statement t (front ++ rest) = .ok read) (hleft : read.2 = left ++ rest)
    (hlast : ∀ u ∈ left.getLast?, u = .semicolon) :
    ∀ u ∈ (t :: front).getLast?, u = .semicolon := by
  intro u hu
  cases left with
  | nil =>
      -- It stops right at the end of the script, so it has taken its semicolon.
      rcases (settles_statement ht).ends h with hend | ⟨used, hused⟩
      · rw [hleft, List.nil_append] at hend
        exact absurd hend hrest.starts
      · rw [hleft, List.nil_append, List.append_cons] at hused
        obtain rfl := List.append_cancel_right hused
        rw [← List.cons_append, List.getLast?_concat] at hu
        exact (Option.some.inj hu).symm
  | cons v left =>
      obtain ⟨used, rfl⟩ := suffix_of_left h hleft
      exact hlast u (by simpa [List.getLast?_cons, List.getLast?_append] using hu)

/-- Semicolons make no steps. -/
theorem statements_semicolons {ts : List Token} (h : ∀ t ∈ ts, t = .semicolon) :
    statements (ts ++ [.eof]) = .ok [] := by
  induction ts with
  | nil => rw [List.nil_append, statements, if_pos (by decide)]
  | cons t ts ih =>
      rw [h t List.mem_cons_self, List.cons_append, statements_semicolon]
      exact ih fun u hu => h u (List.mem_cons_of_mem _ hu)

/-- If a statement takes a token behind its script, then there is nothing behind it in the script
by itself. -/
theorem statements_behind_eq_nil {t : Token} (ht : t ≠ .semicolon) {front rest : List Token}
    (heof : .eof ∉ front) {read read' : Reading (List Step)} {more : List Step}
    (h : statement t (front ++ [.eof]) = .ok read) (h' : statement t (front ++ rest) = .ok read')
    (hlength : read'.2.length < rest.length) (hmore : statements read.2 = .ok more) :
    more = [] := by
  rcases List.suffix_concat_iff.1 (statement_suffix h) with hnil | ⟨left, hleft, before, rfl⟩
  · rw [hnil, statements] at hmore
    exact (Except.ok.inj hmore).symm
  · by_cases hsemicolons : ∀ u ∈ left, u = .semicolon
    · rw [hleft, statements_semicolons hsemicolons] at hmore
      exact (Except.ok.inj hmore).symm
    · -- Else there is a statement behind, and this one stops in front of it whatever follows.
      obtain ⟨u, hu, hne⟩ : ∃ u ∈ left, u ≠ .semicolon := by simpa using hsemicolons
      have hueof : u ≠ .eof := fun heq => heof (heq ▸ List.mem_append_right _ hu)
      obtain ⟨skipped, after, rfl⟩ := List.append_of_mem hu
      have hfront (ts : List Token) : before ++ (skipped ++ u :: after) ++ ts =
          (before ++ skipped) ++ (u :: (after ++ ts)) := by simp
      rw [hfront] at h h'
      have hstarts : ¬ AtEnd (u :: (after ++ [.eof])) := fun hend => by
        simpa [endsStatement, hne, hueof] using hend u rfl
      rcases (settles_statement ht).same h hstarts with hlt | ⟨left, -, hsame⟩
      · simp only [hleft, List.append_assoc, List.length_append, List.length_cons] at hlt
        omega
      · rw [hsame] at h'
        cases h'
        simp only [List.length_append, List.length_cons] at hlength
        omega

/-- **A script either adds nothing more in front of another statement, or it is finished**: it ends
in a semicolon, unless it is empty, and whatever follows is read as if it stood alone. -/
theorem statements_append {front rest : List Token} {steps : List Step} (heof : .eof ∉ front)
    (h : statements (front ++ [.eof]) = .ok steps) (hrest : Follows rest) :
    AddsTables (front ++ rest) (addedNames steps) ∨
      (∀ t ∈ front.getLast?, t = .semicolon) ∧
        ∀ more, statements (front ++ more) = (statements more).map (steps ++ ·) := by
  match front with
  | [] =>
      rw [List.nil_append, statements, if_pos (by decide)] at h
      cases h
      refine .inr ⟨by simp, fun more => ?_⟩
      rw [List.nil_append]
      cases statements more <;> rfl
  | t :: front =>
      obtain ⟨ht, heof'⟩ := not_or.1 (List.mem_cons.not.1 heof)
      by_cases hsemicolon : t = .semicolon
      · subst hsemicolon
        simp only [AddsTables, List.cons_append, statements_semicolon] at h ⊢
        rcases statements_append heof' h hrest with hsame | ⟨hlast, happend⟩
        · exact .inl hsame
        · refine .inr ⟨fun u hu => ?_, happend⟩
          cases front with
          | nil => exact (Option.some.inj hu).symm
          | cons v front => exact hlast u hu
      · simp only [List.cons_append] at h ⊢
        obtain ⟨read, more, hread, hmore, rfl⟩ := statements_cons_eq_ok (Ne.symm ht) h
        obtain ⟨read', hread', hnames⟩ :=
          addedNames_statement hread (by simp) (blocks_of_not_mem (by simp)) hrest.blocks
        rcases (settles_statement hsemicolon).same hread' hrest.starts with
          hlength | ⟨left, hleft, hsame⟩
        · -- The statement takes what follows, and all of it.
          obtain rfl := statements_behind_eq_nil hsemicolon heof' hread hread' hlength hmore
          rw [List.append_nil, ← hnames]
          exact .inl (hrest.addsTables (Ne.symm ht) hsemicolon hread' hlength)
        · -- The statement stops in the script, and the part behind it decides.
          rw [hsame [.eof]] at hread
          cases hread
          have hsuffix : left <:+ front := suffix_of_left hread' hleft
          have hlength : left.length ≤ front.length := hsuffix.length_le
          rcases statements_append (fun hmem => heof' (hsuffix.subset hmem)) hmore hrest with
            hadds | ⟨hlast, happend⟩
          · rw [addedNames_append]
            exact .inl (.cons (Ne.symm ht) (hsame rest) hadds)
          · refine .inr ⟨hrest.getLast?_front hsemicolon hread' hleft hlast, fun more => ?_⟩
            rw [statements_cons (Ne.symm ht) (hsame more), happend]
            cases statements more <;> simp [Except.map]
termination_by front.length

/-- A script adds the same tables in front of different tokens that make no statement with a table
of their own. -/
theorem AddsTables.congr_end {front rest rest' : List Token} {names : List String}
    (h : AddsTables (front ++ rest) names) (heof : .eof ∉ front) (hrest : Follows rest)
    (hrest' : Follows rest') (hclose : .closeParen ∉ rest) (hend : statements rest = .ok [])
    (hend' : statements rest' = .ok []) : AddsTables (front ++ rest') names := by
  match front with
  | [] =>
      obtain ⟨steps, h, rfl⟩ := h
      rw [List.nil_append, hend] at h
      cases h
      exact ⟨[], hend', rfl⟩
  | t :: front =>
      obtain ⟨steps, h, rfl⟩ := h
      obtain ⟨ht, heof'⟩ := not_or.1 (List.mem_cons.not.1 heof)
      rw [List.cons_append] at h ⊢
      by_cases hsemicolon : t = .semicolon
      · subst hsemicolon
        rw [AddsTables, statements_semicolon]
        rw [statements_semicolon] at h
        exact congr_end ⟨steps, h, rfl⟩ heof' hrest hrest' hclose hend hend'
      · obtain ⟨read, more, hread, hmore, rfl⟩ := statements_cons_eq_ok (Ne.symm ht) h
        rcases (settles_statement hsemicolon).same hread hrest.starts with
          hlength | ⟨left, hleft, hsame⟩
        · obtain ⟨read', hread', hnames⟩ :=
            addedNames_statement hread hclose hrest.blocks hrest'.blocks
          have hlength' : read'.2.length < rest'.length := by
            refine ((settles_statement hsemicolon).same hread' hrest'.starts).resolve_right ?_
            rintro ⟨left, -, hsame⟩
            -- A statement that stops in the script stops there in front of the other tokens too.
            rw [hsame rest] at hread
            cases hread
            simp only [List.length_append] at hlength
            omega
          rw [hrest.statements_left hsemicolon hread hlength] at hmore
          cases hmore
          rw [List.append_nil, ← hnames]
          exact hrest'.addsTables (Ne.symm ht) hsemicolon hread' hlength'
        · have hsuffix : left <:+ front := suffix_of_left hread hleft
          have hlength : left.length ≤ front.length := hsuffix.length_le
          rw [hleft] at hmore
          rw [addedNames_append]
          exact .cons (Ne.symm ht) (hsame rest') (congr_end ⟨more, hmore, rfl⟩
            (fun hmem => heof' (hsuffix.subset hmem)) hrest hrest' hclose hend hend')
termination_by front.length

end EntityDiagram.Ddl
