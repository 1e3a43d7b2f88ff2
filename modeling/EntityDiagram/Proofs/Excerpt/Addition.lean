import EntityDiagram.Excerpt.Script
import EntityDiagram.Proofs.Excerpt.ColumnFront

/-!
# `EntityDiagram.Proofs.Excerpt.Addition`: keys that a text adds to tables

The additions of a text are found one behind the other, and none of them reaches past a semicolon.

* `additionsAt_append_semicolon`: additions are found statement by statement.
* `exists_additionsAt`: a literal in which nothing starts an addition changes none.
* `additionsAt_of_notMem`: a text without parentheses adds nothing.

An addition is found by a pattern that starts at the word `ALTER` and takes what is added up to the
next semicolon. So the search can be cut at semicolons (`carries_addClause`): to the left of one it
does the same whatever stands to the right. What is added is a key, and a key has its columns in
parentheses; in a text without any the pattern may match, but nothing comes of it. These are the
ways in which other statements of a script are shown to add nothing.
-/

set_option autoImplicit false

namespace EntityDiagram.Excerpt

open Text (isSpace isWordChar Pattern Place Span doubleQuotes)
open Text.Pattern

/-! ### Leads -/

/-- An addition to a table up to what is added. -/
def addLead : Pattern Span := do
  boundary; word "ALTER"; spaces1; word "TABLE"; spaces1
  let _ ← optional (do word "ONLY"; spaces1)
  let table ← qualifiedName
  spaces1; word "ADD"; spaces1
  return table

/-- An addition starts with its lead. -/
theorem addClause_eq : addClause = addLead >>= fun table => do
    let clause ← span (some1 (· != ';'))
    return (table, clause) := by
  simp only [addLead, bind_bind, pure_bind]
  rfl

/-- No lead of an addition reaches past a quote or a semicolon. -/
theorem carries_addLead {d : Char} (hd : d ∈ ['\'', ';']) (t : List Char) :
    Carries (d :: t) (Span.extend (d :: t)) addLead addLead := by
  -- Neither a quote nor a semicolon is a character that any part of the pattern would go on with.
  have hhead {p : Char → Bool} (hp : ['\'', ';'].all (!p ·) = true) :
      ∀ c ∈ (d :: t).head?, p c = false := by
    intro c hc
    obtain rfl := Option.some.inj hc
    simpa using List.all_eq_true.1 hp d hd
  have hword : ∀ c ∈ (d :: t).head?, isWordChar c = false := hhead (by decide)
  have hspace : ∀ c ∈ (d :: t).head?, isSpace c = false := hhead (by decide)
  refine (Carries.boundary hword).bind fun _ => (Carries.word (by decide) hword).bind fun _ => ?_
  refine (Carries.spaces1 hspace).bind fun _ => (Carries.word (by decide) hword).bind fun _ => ?_
  refine (Carries.spaces1 hspace).bind fun _ => ?_
  refine (Carries.optional ((Carries.word (by decide) hword).bind fun _ =>
    Carries.spaces1 hspace)).bind fun _ => ?_
  refine (Carries.span (Carries.some1 (hhead (by decide)))).bind fun table => ?_
  refine (Carries.spaces1 hspace).bind fun _ => (Carries.word (by decide) hword).bind fun _ => ?_
  exact (Carries.spaces1 hspace).bind fun _ => Carries.pure _ table

/-- No addition reaches past a semicolon. -/
theorem carries_addClause (t : List Char) :
    Carries (';' :: t) (Prod.map (Span.extend (';' :: t)) (Span.extend (';' :: t)))
      addClause addClause := by
  rw [addClause_eq]
  refine (carries_addLead (by decide) t).bind fun table => ?_
  refine (Carries.span (Carries.some1 ?_)).bind fun clause => Carries.pure _ (table, clause)
  intro c hc
  obtain rfl := Option.some.inj hc
  decide

/-- A lead goes forward. -/
theorem forward_addLead : Forward addLead :=
  Forward.boundary.bind fun _ => (Forward.word _).bind fun _ => Forward.spaces1.bind fun _ =>
    (Forward.word _).bind fun _ => Forward.spaces1.bind fun _ =>
    (Forward.optional ((Forward.word _).bind fun _ => .spaces1)).bind fun _ =>
    (Forward.some1 _).span.bind fun _ => Forward.spaces1.bind fun _ =>
    (Forward.word _).bind fun _ => Forward.spaces1.bind fun _ => .pure _

/-- So does the addition. -/
theorem forward_addClause : Forward addClause := by
  rw [addClause_eq]
  exact forward_addLead.bind fun _ => (Forward.some1 _).span.bind fun _ => .pure _

/-- An addition takes characters. -/
theorem consuming_addClause : Consuming addClause := by
  rw [addClause_eq]
  exact .bind_right forward_addLead fun table => (Consuming.some1 fun c => c != ';').span.bind_left
    fun _ => .pure _

/-- What is added stands behind the start of the addition. -/
theorem mem_of_mem_clause {here : Place} {m : (Span × Span) × Place} (hm : m ∈ addClause here) :
    ∀ c ∈ m.1.2.chars, c ∈ here.rest := by
  rw [addClause_eq] at hm
  obtain ⟨lead, hlead, hm⟩ := List.mem_flatMap.1 hm
  obtain ⟨clause, hclause, hm⟩ := List.mem_flatMap.1 hm
  obtain ⟨n, -, rfl⟩ := List.mem_map.1 hclause
  obtain rfl := List.mem_singleton.1 hm
  exact fun c hc => (forward_addLead _ _ hlead).mem (List.mem_of_mem_take hc)

/-- An addition starts with `ALTER`. -/
theorem keyed_addClause : Keyed ["ALTER"] addClause :=
  Keyed.of_word (by decide) (by decide) (StartsSpace.spaces1_bind _).endsWord

/-- None starts at what is no character of a word. -/
theorem fails_addClause {d : Char} (hd : isWordChar d = false) (before : Option Char)
    (t : List Char) : Fails addClause ⟨before, d :: t⟩ :=
  keyed_addClause.fails_of_head (by
    rintro c ⟨⟩
    exact hd) before

/-- An addition is read alike whatever stands behind it. -/
theorem addition_extend (w : List Char) (table clause : Span) :
    addition (table.extend w) (clause.extend w) = addition table clause := by
  simp [addition, nameOf, Span.text]

/-- What the additions from a place on declare. -/
def additionsAt (here : Place) : List Step :=
  (matchesAt addClause here).filterMap fun found => addition found.value.1 found.value.2

/-- The additions of a script. -/
theorem additions_eq (sql : String) :
    additions sql = additionsAt (.start (stripComments sql.toList)) :=
  rfl

/-- They depend on where the first one is found. -/
theorem additionsAt_congr {before before' : Option Char} {s s' : List Char}
    (h : searchFrom addClause before s = searchFrom addClause before' s') :
    additionsAt ⟨before, s⟩ = additionsAt ⟨before', s'⟩ := by
  have hsearch : addClause.search ⟨before, s⟩ = addClause.search ⟨before', s'⟩ := h
  rw [additionsAt, additionsAt, matchesAt_congr consuming_addClause hsearch]

/-- Those in front of a semicolon come before those behind it. -/
theorem additionsAt_append_semicolon (s t : List Char) :
    additionsAt (.start (s ++ ';' :: t)) =
      additionsAt (.start s) ++ additionsAt ⟨some ';', t⟩ := by
  have hsplit := (carries_addClause t).matchesAt_extend_cons consuming_addClause
    (fun before => fails_addClause (by decide) before t) (.start s)
  have hfront : ((matchesAt addClause (.start s)).map (·.extend (';' :: t) (Prod.map
      (Span.extend (';' :: t)) (Span.extend (';' :: t))))).filterMap (fun found =>
        addition found.value.1 found.value.2) = additionsAt (.start s) := by
    rw [List.filterMap_map]
    exact List.filterMap_congr fun found _ => addition_extend _ _ _
  rw [additionsAt, show Place.start (s ++ ';' :: t) = Place.extend (';' :: t) (.start s) from rfl,
    hsplit, List.filterMap_append, hfront]
  rfl

/-! ### Additions and literals -/

/-- The text from the last semicolon on. Without a semicolon it is the whole text. -/
def lastStatement : List Char → List Char
  | [] => []
  | c :: s => if ';' ∈ s then lastStatement s else c :: s

/-- Without a semicolon, that is the whole text. -/
theorem lastStatement_of_notMem {s : List Char} (h : ';' ∉ s) : lastStatement s = s := by
  cases s with
  | nil => rfl
  | cons c s => exact if_neg fun hs => h (List.mem_cons_of_mem c hs)

/-- With one, there is a text in front. -/
theorem exists_lastStatement {s : List Char} (h : ';' ∈ s) :
    ∃ u v, s = u ++ ';' :: v ∧ lastStatement s = ';' :: v := by
  induction s with
  | nil => cases h
  | cons c s ih =>
      by_cases hs : ';' ∈ s
      · obtain ⟨u, v, rfl, hlast⟩ := ih hs
        exact ⟨c :: u, v, rfl, (if_pos hs).trans hlast⟩
      · obtain rfl : ';' = c := (List.mem_cons.1 h).resolve_right hs
        exact ⟨[], s, rfl, if_neg hs⟩

/-- Where nothing starts an addition, a search steps over a text and a literal behind it. The lead
of the pattern can match neither in the text nor in the literal, and cannot reach from one into the
other. -/
theorem searchFrom_addClause_quoted {before : Option Char} {s c : List Char}
    (hs : searchFrom addLead before s = none) (hc : addLead.occursIn (Sql.quoted c) = false)
    (t : List Char) :
    searchFrom addClause before (s ++ (Sql.quoted c ++ t)) =
      searchFrom addClause (some '\'') t := by
  have hquote (before : Option Char) (t : List Char) :
      searchFrom addClause before ('\'' :: t) = searchFrom addClause (some '\'') t :=
    searchFrom_of_fails (fails_addClause (by decide) before t)
  have hlead (s t : List Char) (before : Option Char) (h : searchFrom addLead before s = none) :
      searchFrom addClause before (s ++ '\'' :: t) = searchFrom addClause (some '\'') t := by
    have hstep := (carries_addLead (by decide : '\'' ∈ ['\'', ';']) t).searchFrom_bind_of_none
      (fun table => do
        let clause ← span (some1 (· != ';'))
        return (table, clause)) h
    rw [← addClause_eq] at hstep
    exact hstep.trans (hquote _ t)
  -- A lead on the inside of the literal would be one in the literal.
  have hinside : searchFrom addLead (some '\'') (doubleQuotes '\'' c) = none := by
    cases hfound : searchFrom addLead (some '\'') (doubleQuotes '\'' c) with
    | none => rfl
    | some found =>
        have hsome :=
          (carries_addLead (by decide : '\'' ∈ ['\'', ';']) []).searchFrom_of_some hfound
        have hstep : searchFrom addLead none (Sql.quoted c) =
            searchFrom addLead (some '\'') (doubleQuotes '\'' c ++ ['\'']) :=
          searchFrom_of_fails (Fails.boundary_word (by decide) (by decide) _ (by
            rintro d ⟨⟩
            decide) none)
        rw [occursIn, search, Place.start, hstep, hsome] at hc
        cases hc
  rw [quoted_append, hlead _ _ _ hs, hlead _ _ _ hinside]

/-- A literal in which nothing starts an addition changes none, if nothing starts one in front of it
behind the last semicolon. -/
theorem exists_additionsAt {front : List Char} (h : addLead.occursIn (lastStatement front) = false)
    (back : List Char) : ∃ steps, ∀ c, addLead.occursIn (Sql.quoted c) = false →
      additionsAt (.start (front ++ (Sql.quoted c ++ back))) = steps := by
  rw [occursIn, Option.isSome_eq_false_iff, Option.isNone_iff_eq_none] at h
  -- What stands before the last semicolon is read by itself, so only the statement that the literal
  -- stands in matters.
  by_cases hmem : ';' ∈ front
  · obtain ⟨u, v, rfl, hlast⟩ := exists_lastStatement hmem
    have hstatement : searchFrom addLead (some ';') v = none := by
      rw [hlast] at h
      refine Eq.trans (searchFrom_of_fails ?_).symm h
      exact Fails.boundary_word (by decide) (by decide) _ (by
        rintro d ⟨⟩
        decide) none
    refine ⟨additionsAt (.start u) ++ additionsAt ⟨some '\'', back⟩, fun c hc => ?_⟩
    rw [List.append_assoc, List.cons_append, additionsAt_append_semicolon,
      additionsAt_congr (searchFrom_addClause_quoted hstatement hc back)]
  · rw [lastStatement_of_notMem hmem] at h
    exact ⟨additionsAt ⟨some '\'', back⟩, fun c hc =>
      additionsAt_congr (searchFrom_addClause_quoted h hc back)⟩

/-! ### Texts without parentheses -/

/-- What is added in a text without parentheses is no key. -/
theorem addition_of_notMem (table : Span) {clause : Span} (h : '(' ∉ clause.chars) :
    addition table clause = none := by
  have htrim : '(' ∉ Text.trim clause.chars := fun hmem => h (Text.mem_of_mem_trim hmem)
  rw [addition, foreignKey?_of_notMem htrim, primaryKey?_of_notMem htrim]
  rfl

/-- So the text adds nothing. -/
theorem additionsAt_of_notMem {here : Place} (h : '(' ∉ here.rest) : additionsAt here = [] := by
  rw [additionsAt, List.filterMap_eq_nil_iff]
  intro found hfound
  obtain ⟨hstart, hmem⟩ := mem_matchesUpTo forward_addClause hfound
  exact addition_of_notMem _ fun hparen => h (hstart.mem (mem_of_mem_clause hmem _ hparen))

end EntityDiagram.Excerpt
