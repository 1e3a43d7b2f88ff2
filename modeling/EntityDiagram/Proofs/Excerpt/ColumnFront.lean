import EntityDiagram.Proofs.Excerpt.Clause
import EntityDiagram.Proofs.Excerpt.ValueOption
import EntityDiagram.Proofs.Schema.ColumnEdit

/-!
# `EntityDiagram.Proofs.Excerpt.ColumnFront`: a column up to a literal

A part of a table that declares a column is told from other parts by its first word, cut into a name
and a definition, and the definition into a type and options. All of this is decided in front of a
literal among the options, and does not depend on what the literal holds or on what follows it.

* `primaryKey?_of_fails`, `foreignKey?_of_fails`, `index?_of_fails`: what starts with none of the
  words of a constraint is no key and no index.
* `find?_columnClause_of_first`: a column is cut behind its name.
* `cutType?_append_quote`: a type is cut off in the same way, if the options close what they open. A
  type ends in front of them then: its arguments would go on to the next closing parenthesis, be it
  in a literal.
* `exists_column?`: a definition is read as the column that it would be without the literal, with
  the text of the literal as its value.
-/

set_option autoImplicit false

namespace EntityDiagram.Excerpt

open Text (isSpace isWordChar Pattern Place Span)
open Text.Pattern
open Sql (Nesting)

variable {α : Type} {s : List Char}

/-! ### What a column is not -/

/-- The words that start a constraint. -/
def constraintWords : List String :=
  ["CONSTRAINT", "CHECK", "EXCLUDE", "PERIOD", "FOREIGN", "PRIMARY", "UNIQUE", "FULLTEXT",
    "SPATIAL", "KEY", "INDEX"]

/-- They are plain words. -/
theorem constraintWords_plain : ∀ w ∈ constraintWords,
    w.toList.all Text.startsPlain = true ∧ w.toList ≠ [] := by decide

/-- What spells one of them ends with a character of a word. -/
theorem exists_after_of_spells {w : String} (hw : w ∈ constraintWords) {u : List Char}
    (hu : Spells w.toList u) : ∃ c ∈ after none u, isWordChar c = true := by
  obtain ⟨hplain, hword⟩ := constraintWords_plain w hw
  have hne : u ≠ [] := by
    rintro rfl
    exact hword (List.forall₂_nil_right_iff.1 hu)
  exact ⟨u.getLast hne, by rw [after, List.getLast?_eq_some_getLast hne]; rfl,
    hu.isWordChar hplain _ (List.getLast_mem hne)⟩

/-- A text starts a constraint if it starts with one of the words and the word ends. -/
theorem constraintWord_ne_nil {w : String} (hw : w ∈ constraintWords) {n : Unit × Place}
    (hn : n ∈ word w (.start s)) {q : Pattern α} (hq : EndsWord q) {m : α × Place}
    (hm : m ∈ q n.2) : constraintWord (.start s) ≠ [] := by
  obtain ⟨u, v, rfl, hu, rfl⟩ := mem_anyCase hn
  have hlast := exists_after_of_spells hw hu
  have hend : First boundary ⟨after none u, v⟩ () ⟨after none u, v⟩ :=
    First.boundary_end hlast (hq _ v hlast m hm)
  have hread : ((), ⟨after none u, v⟩) ∈ oneOf (constraintWords.map word) (.start (u ++ v)) :=
    List.mem_flatMap.2 ⟨word w, List.mem_map_of_mem hw, hn⟩
  exact List.ne_nil_of_mem (List.mem_flatMap.2 ⟨((), _), List.mem_singleton_self _,
    List.mem_flatMap.2 ⟨_, hread, List.mem_of_mem_head? hend⟩⟩)

/-- A text passes for a constraint exactly if the run of word characters that it starts with spells
one of the words. -/
theorem occursIn_constraintWord_iff {s : List Char} : constraintWord.occursIn s = true ↔
    ∃ w ∈ constraintWords, Spells w.toList (s.takeWhile isWordChar) := by
  have hanchored : Anchored constraintWord := Anchored.textStart_bind _
  constructor
  · intro h
    by_contra hnone
    have hfails : Fails constraintWord (.start s) := by
      refine Fails.bind_right (rfl : textStart _ = [((), _)]) (Fails.bind fun m hm => ?_)
      obtain ⟨p, hp, hm⟩ := List.mem_flatMap.1 hm
      obtain ⟨w, hw, rfl⟩ := List.mem_map.1 hp
      obtain ⟨u, v, rfl, hu, rfl⟩ := mem_anyCase hm
      refine List.eq_nil_iff_forall_not_mem.2 fun n hn => hnone ⟨w, hw, ?_⟩
      -- The word ends where the run of word characters does, so it is all of the run.
      have hend := EndsWord.boundary _ v (exists_after_of_spells hw hu) n hn
      rwa [(takeWhile_dropWhile_run (hu.isWordChar (constraintWords_plain w hw).1) hend).1]
    rw [occursIn, hanchored.search_eq_none hfails] at h
    cases h
  · rintro ⟨w, hw, hspells⟩
    by_contra hnot
    have hfails := fails_of_occursIn (Bool.not_eq_true _ ▸ hnot)
    have hread := First.word_of_spells hspells none (s.dropWhile isWordChar)
    rw [List.takeWhile_append_dropWhile] at hread
    have hend : First boundary ⟨after none (s.takeWhile isWordChar), s.dropWhile isWordChar⟩ () _ :=
      First.boundary_end (exists_after_of_spells hw hspells) (head?_dropWhile_word s)
    exact constraintWord_ne_nil hw (List.mem_of_mem_head? hread) EndsWord.boundary
      (List.mem_of_mem_head? hend) hfails

/-- None of the words goes on in a literal. -/
theorem carries_constraintWord (t : List Char) :
    Carries ('\'' :: t) id constraintWord constraintWord := by
  have hword : ∀ c ∈ ('\'' :: t).head?, isWordChar c = false := by
    intro c hc
    obtain rfl := Option.some.inj hc
    decide
  exact Carries.textStart.bind fun _ => (Carries.oneOf_words (by decide) hword).bind fun _ =>
    Carries.boundary hword

/-- A clause that may start with the name of a constraint fails with what it goes on with. -/
theorem fails_constraintName_bind_of (h : Fails constraintWord (.start s))
    {f : Option Span → Pattern α} (hf : Fails (f none) (.start s)) :
    Fails (constraintName >>= f) (.start s) := by
  refine Fails.bind fun m hm => ?_
  obtain ⟨n, hn, hm⟩ := List.mem_flatMap.1 hm
  obtain rfl := List.mem_singleton.1 hn
  rcases mem_optional hm with rfl | ⟨n, hn, rfl⟩
  · exact hf
  · obtain ⟨k, hk, hn⟩ := List.mem_flatMap.1 hn
    exact absurd h (constraintWord_ne_nil (by decide) hk (StartsSpace.spaces1_bind _).endsWord hn)

/-- What starts with none of the words fails at each of them. -/
theorem fails_word_bind (h : Fails constraintWord (.start s)) {w : String}
    (hw : w ∈ constraintWords) {f : Unit → Pattern α} (hf : EndsWord (f ())) :
    Fails (word w >>= f) (.start s) :=
  Fails.bind fun _ hm => List.eq_nil_iff_forall_not_mem.2 fun _ hn =>
    absurd h (constraintWord_ne_nil hw hm hf hn)

/-- A list in parentheses ends the word in front of it. -/
theorem endsWord_listInside : EndsWord listInside :=
  EndsWord.char_bind (fun c hc => by rw [beq_iff_eq.1 hc]; decide) _

/-- Nor does anything go on behind one of them. -/
theorem fails_behind_words (h : Fails constraintWord (.start s)) (ws : List String)
    (hws : ∀ w ∈ ws, w ∈ constraintWords) {q : Pattern α} (hq : EndsWord q) :
    ∀ m ∈ oneOf (ws.map word) (.start s), Fails q m.2 := by
  intro m hm
  obtain ⟨p, hp, hm⟩ := List.mem_flatMap.1 hm
  obtain ⟨w, hw, rfl⟩ := List.mem_map.1 hp
  exact List.eq_nil_iff_forall_not_mem.2 fun n hn =>
    absurd h (constraintWord_ne_nil (hws w hw) hm hq hn)

/-- A list in parentheses starts with one. -/
theorem meets_listInside : Meets '(' listInside := Meets.char.bind_left _

/-- The parts of a clause in front of a list go forward. -/
theorem forward_plainName : Forward plainName :=
  ((Forward.optional (.char _)).bind fun _ => (Forward.some1 _).bind fun _ =>
    (Forward.optional (.char _)).bind fun _ => .pure _).span

/-- So does the name of a constraint. -/
theorem forward_constraintName : Forward constraintName :=
  Forward.textStart.bind fun _ => Forward.optional ((Forward.word _).bind fun _ =>
    Forward.spaces1.bind fun _ => forward_plainName.bind fun _ => Forward.spaces1.bind
      fun _ => .pure _)

/-- And the method of an index. -/
theorem forward_usingMethod : Forward usingMethod :=
  (Forward.optional ((Forward.word _).bind fun _ => Forward.spaces1.bind fun _ =>
    (Forward.some1 _).bind fun _ => .spaces)).bind fun _ => .pure _

/-- A text that starts no constraint declares no primary key. -/
theorem primaryKey?_of_fails (h : Fails constraintWord (.start s)) : primaryKey? s = none := by
  have hclause : primaryKeyClause.find? s = none :=
    (anchored_constraintName_bind _).find?_eq_none (fails_constraintName_bind_of h
      (fails_word_bind h (by decide) (StartsSpace.spaces1_bind _).endsWord))
  rw [primaryKey?, hclause]
  rfl

/-- Nor a foreign key. -/
theorem foreignKey?_of_fails (h : Fails constraintWord (.start s)) (table : String) :
    foreignKey? table s = none := by
  have hclause : foreignKeyClause.find? s = none :=
    (anchored_constraintName_bind _).find?_eq_none (fails_constraintName_bind_of h
      (fails_word_bind h (by decide) (StartsSpace.spaces1_bind _).endsWord))
  rw [foreignKey?, hclause]
  rfl

/-- Nor an index. -/
theorem index?_of_fails (h : Fails constraintWord (.start s)) : index? s = none := by
  have hunique : uniqueClause.find? s = none :=
    (anchored_constraintName_bind _).find?_eq_none (fails_constraintName_bind_of h
      (fails_word_bind h (by decide) (EndsWord.spaces_bind (endsWord_listInside.bind _))))
  -- There are two ways into the clause, with a word for the kind of index before the keyword or
  -- without one.
  have hindex : indexClause.find? s = none := by
    refine (anchored_constraintName_bind _).find?_eq_none (fails_constraintName_bind_of h
      (Fails.optional_bind (Fails.bind_assoc (Fails.bind fun m hm => ?_))
        (Fails.bind fun m hm => ?_)))
    · obtain ⟨n, hn, rfl⟩ := List.mem_map.1 hm
      exact fails_behind_words h ["UNIQUE", "FULLTEXT", "SPATIAL"] (by decide)
        ((StartsSpace.spaces1_bind _).endsWord.bind _) n hn
    · exact fails_behind_words h ["KEY", "INDEX"] (by decide)
        (EndsWord.boundary.bind _) m hm
  rw [index?, hindex]
  dsimp only
  rw [hunique]
  rfl

/-- Without a parenthesis, a text declares no primary key. -/
theorem primaryKey?_of_notMem (h : '(' ∉ s) : primaryKey? s = none := by
  have hmeets : Meets '(' primaryKeyClause :=
    Meets.bind_right forward_constraintName fun _ => Meets.bind_right (.word _) fun _ =>
      Meets.bind_right .spaces1 fun _ => Meets.bind_right (.word _) fun _ =>
      Meets.bind_right .spaces fun _ => Meets.bind_right forward_usingMethod fun _ =>
      meets_listInside.bind_left _
  rw [primaryKey?, hmeets.find?_eq_none h]
  rfl

/-- Nor a foreign key. -/
theorem foreignKey?_of_notMem (h : '(' ∉ s) (table : String) : foreignKey? table s = none := by
  have hmeets : Meets '(' foreignKeyClause :=
    Meets.bind_right forward_constraintName fun _ => Meets.bind_right (.word _) fun _ =>
      Meets.bind_right .spaces1 fun _ => Meets.bind_right (.word _) fun _ =>
      Meets.bind_right .spaces fun _ =>
      Meets.bind_right (Forward.optional (forward_plainName.bind fun _ => .spaces)) fun _ =>
      meets_listInside.bind_left _
  rw [foreignKey?, hmeets.find?_eq_none h]
  rfl

/-- Nor an index. -/
theorem index?_of_notMem (h : '(' ∉ s) : index? s = none := by
  -- A list of columns opens with a parenthesis. All that stands before it in the pattern only moves
  -- forward.
  have hwords (ws : List String) : Forward (oneOf (ws.map word)) := Forward.oneOf fun p hp => by
    obtain ⟨w, -, rfl⟩ := List.mem_map.1 hp
    exact Forward.word w
  have hindex : Meets '(' indexClause :=
    Meets.bind_right forward_constraintName fun _ =>
      Meets.bind_right (Forward.optional ((hwords ["UNIQUE", "FULLTEXT", "SPATIAL"]).span.bind
        fun _ => Forward.spaces1.bind fun _ => .pure _)) fun _ =>
      Meets.bind_right (hwords ["KEY", "INDEX"]) fun _ => Meets.bind_right .boundary fun _ =>
      Meets.bind_right .spaces fun _ => Meets.bind_right (.optional forward_plainName) fun _ =>
      Meets.bind_right .spaces fun _ => Meets.bind_right forward_usingMethod fun _ =>
      meets_listInside.bind_left _
  have hunique : Meets '(' uniqueClause :=
    Meets.bind_right forward_constraintName fun _ => Meets.bind_right (.word _) fun _ =>
      Meets.bind_right .spaces fun _ => meets_listInside.bind_left _
  rw [index?, hindex.find?_eq_none h]
  dsimp only
  rw [hunique.find?_eq_none h]
  rfl

/-! ### Names -/

/-- The name of a column, with white space behind it. -/
def columnHead : Pattern Span := do textStart; let name ← plainName; spaces1; return name

/-- What no name of a column goes on with. -/
theorem carries_plainName (t : List Char) :
    Carries ('\'' :: t) (Span.extend ('\'' :: t)) plainName plainName := by
  have hhead {p : Char → Bool} (hp : p '\'' = false) : ∀ c ∈ ('\'' :: t).head?, p c = false := by
    intro c hc
    obtain rfl := Option.some.inj hc
    exact hp
  exact Carries.span ((Carries.optional (Carries.char (hhead (by decide)))).bind fun _ =>
    (Carries.some1 (hhead (by decide))).bind fun _ =>
    (Carries.optional (Carries.char (hhead (by decide)))).bind fun _ => Carries.pure id ())

/-- The name of a column ends in front of a literal. -/
theorem carries_columnHead (t : List Char) :
    Carries ('\'' :: t) (Span.extend ('\'' :: t)) columnHead columnHead := by
  refine Carries.textStart.bind fun _ => (carries_plainName t).bind fun name => ?_
  refine (Carries.spaces1 fun c hc => ?_).bind fun _ => Carries.pure _ name
  obtain rfl := Option.some.inj hc
  decide

/-- A column is cut behind its name. -/
theorem find?_columnClause_of_first {name : Span} {there : Place}
    (h : First columnHead (.start s) name there) (hne : there.rest ≠ []) :
    ∃ rest, columnClause.find? s = some (name, rest) ∧ rest.chars = there.rest := by
  obtain ⟨before, r⟩ := there
  -- What is left is not empty, and the last part of the pattern takes all of it.
  have hall : First (some1 fun _ => true) ⟨before, r ++ []⟩ () ⟨after before r, []⟩ :=
    First.some1 hne (by simp) (by simp) before
  rw [List.append_nil] at hall
  have heq : columnClause = columnHead >>= fun name => do
      let rest ← span (some1 fun _ => true)
      textEnd
      return (name, rest) := by
    simp only [columnHead, bind_bind, pure_bind]
    rfl
  refine ⟨⟨⟨before, r⟩, ⟨after before r, []⟩⟩, ?_, by simp [Span.chars]⟩
  have hend : First (do textEnd; return (name, (⟨⟨before, r⟩, ⟨after before r, []⟩⟩ : Span)))
      ⟨after before r, []⟩ (name, ⟨⟨before, r⟩, ⟨after before r, []⟩⟩) ⟨after before r, []⟩ :=
    (First.textEnd _).bind (First.pure _ _)
  rw [heq]
  exact find?_of_first (h.bind (hall.span.bind hend))

/-! ### Types -/

/-- The parenthesis in front of the arguments of a type. -/
def argumentsOpen : Pattern Unit := do spaces; char (· == '(')

/-- The arguments of a type. -/
def arguments : Pattern Unit := do argumentsOpen; many (· != ')'); char (· == ')')

/-- The brackets behind a type. -/
def brackets : Pattern Unit := repeated (exactly ['[', ']'])

/-- The first word of a type. -/
def typeWord : Pattern Unit := do
  textStart
  char fun c => Text.isAsciiLetter c || c == '_'
  many isWordChar

/-- The further words of a type. -/
def continuationWords : List String :=
  ["PRECISION", "VARYING", "UNSIGNED", "SIGNED", "ZEROFILL", "WITH", "WITHOUT", "LOCAL", "TIME",
    "ZONE"]

/-- A further word of a type. -/
def continuationWord : Pattern Unit := do
  textStart; spaces1
  oneOf (continuationWords.map word)
  boundary

/-- What may follow a word of a type. -/
theorem typeArguments_eq : typeArguments = optional arguments >>= fun _ => brackets := by
  simp only [arguments, argumentsOpen, bind_bind]
  rfl

/-- A type starts with a word. -/
theorem typeHead_eq : typeHead = typeWord >>= fun _ => typeArguments := by
  simp only [typeWord, bind_bind]
  rfl

/-- It goes on with further words. -/
theorem typeContinuation_eq :
    typeContinuation = continuationWord >>= fun _ => typeArguments := by
  simp only [continuationWord, bind_bind]
  rfl

variable {before : Option Char}

/-- None of the characters of a class that the quote does not belong to. -/
theorem head?_quote {p : Char → Bool} (hp : p '\'' = false) (t : List Char) :
    ∀ c ∈ ('\'' :: t).head?, p c = false := by
  intro c hc
  obtain rfl := Option.some.inj hc
  exact hp

/-- The word of a type ends in front of a literal. -/
theorem carries_typeWord (t : List Char) : Carries ('\'' :: t) id typeWord typeWord :=
  Carries.textStart.bind fun _ => (Carries.char (head?_quote (by decide) t)).bind fun _ =>
    Carries.many (head?_quote (by decide) t)

/-- So does each further word. -/
theorem carries_continuationWord (t : List Char) :
    Carries ('\'' :: t) id continuationWord continuationWord :=
  Carries.textStart.bind fun _ => (Carries.spaces1 (head?_quote (by decide) t)).bind fun _ =>
    (Carries.oneOf_words (by decide) (head?_quote (by decide) t)).bind fun _ =>
      Carries.boundary (head?_quote (by decide) t)

/-- The parenthesis in front of arguments is not looked for behind a literal. -/
theorem carries_argumentsOpen (t : List Char) :
    Carries ('\'' :: t) id argumentsOpen argumentsOpen :=
  (Carries.spaces (head?_quote (by decide) t)).bind fun _ =>
    Carries.char (head?_quote (by decide) t)

/-- And so do brackets. -/
theorem carries_brackets (t : List Char) : Carries ('\'' :: t) id brackets brackets :=
  Carries.repeated (Carries.exactly fun c hc => by
    obtain rfl := Option.some.inj hc
    decide) (Consuming.char_bind _ fun _ => Forward.exactly _)

/-- Arguments end at the next closing parenthesis. -/
theorem first_arguments {g inner : List Char} (hg : ∀ c ∈ g, isSpace c = true)
    (hinner : ')' ∉ inner) (t : List Char) :
    First arguments ⟨before, g ++ '(' :: (inner ++ ')' :: t)⟩ () ⟨some ')', t⟩ := by
  have hhead : ∀ c ∈ ('(' :: (inner ++ ')' :: t)).head?, isSpace c = false := by
    intro c hc
    obtain rfl := Option.some.inj hc
    decide
  have hrun : ∀ c ∈ inner, (c != ')') = true := by
    intro c hc
    rw [bne_iff_ne]
    rintro rfl
    exact hinner hc
  -- The parenthesis that opens is behind the space, and the one that closes is the first one after
  -- it.
  have hparen : First argumentsOpen ⟨before, g ++ '(' :: (inner ++ ')' :: t)⟩ ()
      ⟨some '(', inner ++ ')' :: t⟩ :=
    (First.spaces hg hhead _).bind (First.of_singleton (char_of (by decide) _ _))
  refine hparen.bind ((First.many hrun (by simp) _).bind ?_)
  exact First.of_singleton (char_of (by decide) _ _)

/-- Without a closing parenthesis there are no arguments. -/
theorem fails_arguments (h : ')' ∉ s) : Fails arguments ⟨before, s⟩ := by
  have hmeets : Meets ')' arguments := Meets.bind_right
    (Forward.spaces.bind fun _ => Forward.char _) fun _ =>
      Meets.bind_right (Forward.many _) fun _ => Meets.char
  exact List.eq_nil_iff_forall_not_mem.2 fun m hm => h (hmeets _ m hm)

/-- Nor are there without an open one behind white space. -/
theorem fails_argumentsOpen {g r : List Char} (hg : ∀ c ∈ g, isSpace c = true)
    (hr : ∀ c ∈ r.head?, isSpace c = false) (hopen : r.head? ≠ some '(') :
    Fails argumentsOpen ⟨before, g ++ r⟩ := by
  refine (Takes.many fun _ h => h).fails_bind hg hr (fun _ _ c _ hc => ?_) fun _ => ?_
  · refine Fails.char fun d hd => ?_
    obtain rfl := Option.some.inj hd
    rw [beq_eq_false_iff_ne]
    rintro rfl
    exact absurd hc (by decide)
  · refine Fails.char fun c hc => ?_
    rw [beq_eq_false_iff_ne]
    rintro rfl
    exact hopen hc

/-- White space and an open parenthesis start no brackets. -/
theorem fails_exactly_brackets {g : List Char} (hg : ∀ c ∈ g, isSpace c = true) (r : List Char) :
    Fails (exactly ['[', ']']) ⟨before, g ++ '(' :: r⟩ := by
  refine Fails.bind_left (Fails.char fun c hc => ?_)
  rw [beq_eq_false_iff_ne]
  rintro rfl
  cases g with
  | nil => cases hc
  | cons d g =>
      obtain rfl := Option.some.inj hc
      exact absurd (hg '[' (by simp)) (by decide)

/-- Behind the word of a type, its arguments are read in front of a literal as they are read without
it, if they are closed in the text. Otherwise the text goes on with an open parenthesis. -/
theorem exists_first_typeArguments (here : Place) : ∃ there, First typeArguments here () there ∧
    ((∀ t, First typeArguments (here.extend ('\'' :: t)) () (there.extend ('\'' :: t))) ∨
      ∃ g r, there.rest = g ++ '(' :: r ∧ (∀ c ∈ g, isSpace c = true) ∧ ')' ∉ r) := by
  have hbrackets (here : Place) : ∃ there, First brackets here () there ∧
      ∀ t, First brackets (here.extend ('\'' :: t)) () (there.extend ('\'' :: t)) := by
    obtain ⟨there, hthere⟩ := First.exists_repeated (exactly ['[', ']']) here
    exact ⟨there, hthere, fun t => (carries_brackets t).first hthere⟩
  obtain ⟨before, s⟩ := here
  obtain ⟨g, r, rfl, hg, hr⟩ := Text.exists_spaces_append s
  rw [typeArguments_eq]
  -- Only the parenthesis that closes the arguments could stand behind the text.
  by_cases hopen : r.head? = some '('
  · obtain ⟨r, rfl⟩ := List.head?_eq_some_iff.1 hopen
    by_cases hclose : ')' ∈ r
    · obtain ⟨inner, u, rfl, hinner⟩ := List.eq_append_cons_of_mem hclose
      obtain ⟨there, hthere, hquote⟩ := hbrackets ⟨some ')', u⟩
      refine ⟨there, (First.optional (first_arguments hg hinner u)).bind hthere, .inl fun t => ?_⟩
      have hread : First arguments ⟨before, g ++ '(' :: (inner ++ ')' :: (u ++ '\'' :: t))⟩ ()
          ⟨some ')', u ++ '\'' :: t⟩ := first_arguments hg hinner _
      have happend : g ++ '(' :: (inner ++ ')' :: u) ++ '\'' :: t =
          g ++ '(' :: (inner ++ ')' :: (u ++ '\'' :: t)) := by simp
      rw [Place.extend, happend]
      exact (First.optional hread).bind (hquote t)
    · have hnotMem : ')' ∉ g ++ '(' :: r := by
        intro hmem
        rcases List.mem_append.1 hmem with hmem | hmem
        · exact absurd (hg _ hmem) (by decide)
        · exact hclose (List.mem_of_ne_of_mem (by decide) hmem)
      exact ⟨⟨before, g ++ '(' :: r⟩, (First.optional_none (fails_arguments hnotMem)).bind
        (First.repeated_none (fails_exactly_brackets hg r)), .inr ⟨g, r, rfl, hg, hclose⟩⟩
  · have hfails : Fails argumentsOpen ⟨before, g ++ r⟩ := fails_argumentsOpen hg hr hopen
    obtain ⟨there, hthere, hquote⟩ := hbrackets ⟨before, g ++ r⟩
    exact ⟨there, (First.optional_none hfails.bind_left).bind hthere, .inl fun t =>
      (First.optional_none ((carries_argumentsOpen t).fails hfails).bind_left).bind (hquote t)⟩

/-- What an open parenthesis starts is not closed without a closing one. -/
theorem foldl_step_open_ne {g r : List Char} (hg : ∀ c ∈ g, isSpace c = true) (hr : ')' ∉ r) :
    (g ++ '(' :: r).foldl Nesting.step {} ≠ {} := by
  intro hclosed
  have hinert : Inert g := Inert.of_plain fun c hc => .inr (hg c hc)
  rw [List.foldl_append, (hinert.staysOpen 0).foldl_eq, List.foldl_cons] at hclosed
  have hle := depth_le_foldl_step hr (Nesting.step ⟨0, none⟩ '(')
  rw [hclosed] at hle
  exact absurd hle (by decide)

/-- No further word of a type starts with a parenthesis. -/
theorem fails_continuationWord {g : List Char} (hg : ∀ c ∈ g, isSpace c = true) (r : List Char) :
    Fails continuationWord (.start (g ++ '(' :: r)) := by
  have hparen : ∀ c ∈ ('(' :: r).head?, isSpace c = false := by
    intro c hc
    obtain rfl := Option.some.inj hc
    decide
  refine Fails.bind_right (rfl : textStart _ = [((), _)]) ?_
  refine (Takes.some1 fun _ h => h).fails_bind hg hparen (fun _ _ c t hc => ?_) fun _ => ?_
  · exact Fails.bind_left (Fails.oneOf_words_of_head (by decide) (by simpa using hc) _)
  · exact Fails.bind_left (Fails.oneOf_words (v := ['(']) (by decide) _ r)

/-- A further word of a type takes characters. -/
theorem consuming_typeContinuation : Consuming typeContinuation := by
  have hwords : Forward (oneOf (continuationWords.map word)) := Forward.oneOf fun p hp => by
    obtain ⟨w, -, rfl⟩ := List.mem_map.1 hp
    exact .word w
  have hopen : Forward argumentsOpen := Forward.spaces.bind fun _ => .char _
  have harguments : Forward typeArguments := by
    rw [typeArguments_eq]
    exact (Forward.optional (hopen.bind fun _ => (Forward.many _).bind fun _ => .char _)).bind
      fun _ => .repeated (.exactly _)
  exact .bind_right .textStart fun _ => (Consuming.some1 _).bind_left fun _ =>
    hwords.bind fun _ => Forward.boundary.bind fun _ => harguments

/-- Without a further word, a type does not go on. -/
theorem typeContinuation_fails_of_word (h : Fails continuationWord (.start s)) :
    Fails typeContinuation (.start s) := by
  rw [typeContinuation_eq]
  exact h.bind_left

/-- A type ends where no further word follows. -/
theorem afterType_of_fails (h : Fails typeContinuation (.start s)) (fuel : Nat) :
    afterType fuel s = s := by
  cases fuel with
  | zero => rfl
  | succ fuel =>
      rw [afterType, matchAt?, show typeContinuation (.start s) = [] from h]
      rfl

/-- It goes on behind one that does. -/
theorem afterType_of_first {there : Place} (h : First typeContinuation (.start s) () there)
    (fuel : Nat) : afterType (fuel + 1) s = afterType fuel there.rest := by
  rw [afterType, matchAt?, show (typeContinuation (.start s)).head? = _ from h]

/-- Further words of a type are cut off in front of a literal as they are cut off without it. A
literal is no word of a type, and the parentheses before it are closed. -/
theorem afterType_append_quote {fuel fuel' : Nat} (t : List Char)
    (hfuel : s.length ≤ fuel) (hfuel' : (s ++ '\'' :: t).length ≤ fuel')
    (hclosed : (afterType fuel s).foldl Nesting.step {} = {}) :
    afterType fuel' (s ++ '\'' :: t) = afterType fuel s ++ '\'' :: t := by
  induction fuel generalizing s fuel' with
  | zero =>
      obtain rfl := List.length_eq_zero_iff.1 (Nat.le_zero.1 hfuel)
      have hnone : Fails continuationWord (.start []) := rfl
      have hquote : Fails continuationWord (.start ('\'' :: t)) :=
        (carries_continuationWord t).fails hnone
      exact afterType_of_fails (typeContinuation_fails_of_word hquote) fuel'
  | succ fuel ih =>
      cases hword : (continuationWord (.start s)).head? with
      | none =>
          have hnone : Fails continuationWord (.start s) := List.head?_eq_none_iff.1 hword
          have hquote : Fails continuationWord (.start (s ++ '\'' :: t)) :=
            (carries_continuationWord t).fails hnone
          rw [afterType_of_fails (typeContinuation_fails_of_word hnone),
            afterType_of_fails (typeContinuation_fails_of_word hquote)]
      | some m =>
          have hfirst : First continuationWord (.start s) () m.2 := hword
          obtain ⟨there, harguments, hquote⟩ := exists_first_typeArguments m.2
          have hcontinuation : First typeContinuation (.start s) () there := by
            rw [typeContinuation_eq]
            exact hfirst.bind harguments
          have hlt : there.rest.length < s.length :=
            consuming_typeContinuation _ _ (List.mem_of_mem_head? hcontinuation)
          rw [afterType_of_first hcontinuation] at hclosed ⊢
          rcases hquote with hquote | ⟨g, r, hrest, hg, hr⟩
          · have hcontinuation' :
                First typeContinuation (.start (s ++ '\'' :: t)) () (there.extend ('\'' :: t)) := by
              rw [typeContinuation_eq]
              exact ((carries_continuationWord t).first hfirst).bind (hquote t)
            rw [List.length_append] at hfuel'
            obtain ⟨fuel', rfl⟩ := Nat.exists_eq_succ_of_ne_zero (n := fuel') (by omega)
            rw [afterType_of_first hcontinuation']
            refine ih (by omega) ?_ hclosed
            rw [List.length_append]
            omega
          · -- The options would start with the parenthesis that is not closed.
            rw [hrest, afterType_of_fails
              (typeContinuation_fails_of_word (fails_continuationWord hg r))] at hclosed
            exact absurd hclosed (foldl_step_open_ne hg hr)

/-- A type is cut off in front of a literal as it is cut off without it. -/
theorem cutType?_append_quote {declared options : List Char}
    (h : cutType? s = some (declared, options)) (hclosed : options.foldl Nesting.step {} = {})
    (t : List Char) : cutType? (s ++ '\'' :: t) = some (declared, options ++ '\'' :: t) := by
  obtain ⟨m, hm, heq⟩ := Option.map_eq_some_iff.1 h
  obtain ⟨rfl, hrest⟩ := Prod.mk.inj heq
  have hhead : First typeHead (.start s) () m.2 := hm
  cases hword : (typeWord (.start s)).head? with
  | none =>
      have hfails : Fails typeHead (.start s) := by
        rw [typeHead_eq]
        exact Fails.bind_left (List.head?_eq_none_iff.1 hword)
      rw [First, hfails] at hhead
      cases hhead
  | some n =>
      have hfirst : First typeWord (.start s) () n.2 := hword
      obtain ⟨there, harguments, hquote⟩ := exists_first_typeArguments n.2
      have hthere : First typeHead (.start s) () there := by
        rw [typeHead_eq]
        exact hfirst.bind harguments
      obtain rfl : there = m.2 := congrArg Prod.snd (Option.some.inj (hthere.symm.trans hhead))
      rcases hquote with hquote | ⟨g, r, hr, hg, hopen⟩
      · have hhead' : First typeHead (.start (s ++ '\'' :: t)) () (m.2.extend ('\'' :: t)) := by
          rw [typeHead_eq]
          exact ((carries_typeWord t).first hfirst).bind (hquote t)
        have hoptions : afterType (m.2.rest ++ '\'' :: t).length (m.2.rest ++ '\'' :: t) =
            options ++ '\'' :: t := by
          rw [← hrest] at hclosed ⊢
          exact afterType_append_quote t (Nat.le_refl _) (Nat.le_refl _) hclosed
        rw [cutType?, matchAt?, show (typeHead _).head? = _ from hhead', Option.map_some]
        dsimp only [Place.extend]
        rw [hoptions, hrest, List.length_append, List.length_append, Nat.add_sub_add_right,
          List.take_append_of_le_length (Nat.sub_le _ _)]
      · -- The options would start with the parenthesis that is not closed.
        rw [hr, afterType_of_fails
          (typeContinuation_fails_of_word (fails_continuationWord hg r))] at hrest
        rw [← hrest] at hclosed
        exact absurd hclosed (foldl_step_open_ne hg hopen)

/-! ### Columns -/

variable {o : ValueOption} {table name : String}

/-- Options that are the same without their literals, and have the same value of one option, are
read alike up to the value of the other. -/
theorem column?_congr {definition definition' declared options options' : List Char} {v : String}
    (hcut : cutType? definition = some (declared, options))
    (hcut' : cutType? definition' = some (declared, options'))
    (hbare : blankLiterals options' = blankLiterals options)
    (hown : (o.clause.find? options').map (fun value => o.read value.chars) = some v)
    (hother : (o.other.clause.find? options').map (·.chars) =
      (o.other.clause.find? options).map (·.chars)) :
    column? table name definition' =
      (column? table name definition).map fun r => { r with column := o.set v r.column } := by
  have hread := congrArg (Option.map o.other.read) hother
  rw [Option.map_map, Option.map_map] at hread
  rw [column?, column?, hcut, hcut', Option.map_some, Option.map_some, Option.map_some]
  dsimp only
  -- All but the two values is read with the literals left out.
  rw [hbare]
  cases o with
  | default =>
      rw [ValueOption.clause_default] at hown
      rw [ValueOption.other, ValueOption.clause_comment] at hread
      simp only [ValueOption.read] at hown
      rw [hown, show (commentClause.find? options').map (fun inside => String.ofList
        (Text.undoubleQuotes '\'' inside.chars)) = _ from hread]
      rfl
  | comment =>
      rw [ValueOption.clause_comment] at hown
      rw [ValueOption.other, ValueOption.clause_default] at hread
      simp only [ValueOption.read] at hown
      rw [hown, show (defaultClause.find? options').map (fun value => String.ofList
        (Sql.unquoted value.chars)) = _ from hread]
      rfl

/-- A definition is read as the column that it would be without the literal, with the text of the
literal as its value. -/
theorem exists_column? {definition declared options q : List Char}
    (hcut : cutType? definition = some (declared, options)) (h : o.Awaits options)
    (hq : q.head? ≠ some '\'') (table name : String) :
    ∃ reading : ColumnReading, reading.column.name = name ∧ ∀ c, o.other.Overlooks options c →
      column? table name (definition ++ (Sql.quoted c ++ q)) =
        some { reading with column := o.set (String.ofList c) reading.column } := by
  have hcutQuoted (c : List Char) : cutType? (definition ++ (Sql.quoted c ++ q)) =
      some (declared, options ++ (Sql.quoted c ++ q)) := by
    rw [quoted_append]
    exact cutType?_append_quote hcut h.closed _
  have hlast : ∀ l ∈ options.getLast?, l ≠ '\'' := by
    intro l hl
    obtain ⟨l', hl', hspace⟩ := h.exists_getLast?
    obtain rfl := Option.mem_unique hl' hl
    rintro rfl
    exact absurd hspace (by decide)
  obtain ⟨bare, hbare⟩ := exists_blankLiterals h.even hlast hq
  obtain ⟨chars, hchars⟩ := h.exists_find?_clause_other q
  -- The empty literal says nothing about any option.
  have hempty : o.other.Overlooks options [] := .inr (by cases o <;> rfl)
  have hread (c : List Char) (hc : o.other.Overlooks options c) :
      column? table name (definition ++ (Sql.quoted c ++ q)) =
        (column? table name (definition ++ (Sql.quoted [] ++ q))).map fun r =>
          { r with column := o.set (String.ofList c) r.column } :=
    column?_congr (hcutQuoted []) (hcutQuoted c) ((hbare c).trans (hbare []).symm)
      (h.find?_clause_own hq c) ((hchars c hc).trans (hchars [] hempty).symm)
  obtain ⟨reading, hreading⟩ : ∃ reading, column? table name
      (definition ++ (Sql.quoted [] ++ q)) = some reading := by
    rw [column?, hcutQuoted []]
    exact ⟨_, rfl⟩
  refine ⟨reading, ?_, fun c hc => ?_⟩
  · rw [column?, hcutQuoted []] at hreading
    obtain rfl := Option.some.inj hreading
    rfl
  · rw [hread c hc, hreading]
    rfl

/-! ### Parts -/

/-- A part that starts no constraint is read as a column. The clauses for keys are tried first, and
the hypothesis on the first word excludes all of them. -/
theorem addPart_column {t : Table} {key : Option PrimaryKey} {name : Span} {rest : Span}
    {reading : ColumnReading} (hword : Fails constraintWord (.start s))
    (hclause : columnClause.find? s = some (name, rest))
    (hcolumn : column? t.name (nameOf name) (Text.trim rest.chars) = some reading) :
    addPart (t, key) s =
      ({ t with
          columns := t.columns ++ [reading.column]
          indexes := t.indexes ++ reading.index.toList
          foreignKeys := t.foreignKeys ++ reading.foreignKey.toList }, key) := by
  -- A part that begins with no constraint word is none of the other kinds, so the column clause is
  -- reached.
  have hnot : constraintWord.occursIn s = false := by
    have hanchored : Anchored constraintWord := Anchored.textStart_bind _
    rw [occursIn, hanchored.search_eq_none hword]
    rfl
  rw [addPart, primaryKey?_of_fails hword, foreignKey?_of_fails hword, index?_of_fails hword, hnot,
    if_neg Bool.false_ne_true, hclause, Option.bind_some]
  dsimp only
  rw [hcolumn]

/-- A part leaves the name of the table, and adds its column behind those that are there. -/
theorem addPart_grows (read : Table × Option PrimaryKey) (part : List Char) :
    (addPart read part).1.name = read.1.name ∧
      read.1.columns <+: (addPart read part).1.columns := by
  obtain ⟨t, key⟩ := read
  rw [addPart]
  -- Only a column adds to the columns, and it adds at the end. The other kinds leave them alone.
  cases primaryKey? part with
  | some => exact ⟨rfl, List.prefix_refl _⟩
  | none =>
  cases foreignKey? t.name part with
  | some => exact ⟨rfl, List.prefix_refl _⟩
  | none =>
  cases index? part with
  | some => exact ⟨rfl, List.prefix_refl _⟩
  | none =>
      dsimp only
      split
      · exact ⟨rfl, List.prefix_refl _⟩
      · split
        · exact ⟨rfl, List.prefix_append _ _⟩
        · exact ⟨rfl, List.prefix_refl _⟩

/-- So do several parts. -/
theorem foldl_addPart_grows (read : Table × Option PrimaryKey) (parts : List (List Char)) :
    (parts.foldl addPart read).1.name = read.1.name ∧
      read.1.columns <+: (parts.foldl addPart read).1.columns := by
  induction parts generalizing read with
  | nil => exact ⟨rfl, List.prefix_refl _⟩
  | cons part parts ih =>
      obtain ⟨hname, hcolumns⟩ := addPart_grows read part
      obtain ⟨hnames, hmore⟩ := ih (addPart read part)
      exact ⟨hnames.trans hname, hcolumns.trans hmore⟩

/-- What a part adds to a table does not depend on the columns that are there. The parts that come
later may then be read before or after an edit. -/
theorem addPart_modifyColumn (f : Column → Column) {t : Table} {j : Nat}
    (hj : j < t.columns.length) (key : Option PrimaryKey) (part : List Char) :
    addPart (t.modifyColumn j f, key) part =
      ((addPart (t, key) part).1.modifyColumn j f, (addPart (t, key) part).2) := by
  have hname : (t.modifyColumn j f).name = t.name := rfl
  rw [addPart, addPart, hname]
  cases primaryKey? part with
  | some => rfl
  | none =>
  cases foreignKey? t.name part with
  | some => rfl
  | none =>
  cases index? part with
  | some => rfl
  | none =>
      dsimp only
      split
      · rfl
      · split
        · -- A new column comes behind the changed one, whose position stays as it is.
          simp only [Table.modifyColumn, modify_append_of_lt f hj]
        · rfl

/-- Nor does what several parts add. It goes by induction on the parts, with the count of columns
never getting smaller. -/
theorem foldl_addPart_modifyColumn (f : Column → Column) {t : Table} {j : Nat}
    (hj : j < t.columns.length) (key : Option PrimaryKey) (parts : List (List Char)) :
    parts.foldl addPart (t.modifyColumn j f, key) =
      ((parts.foldl addPart (t, key)).1.modifyColumn j f, (parts.foldl addPart (t, key)).2) := by
  induction parts generalizing t key with
  | nil => rfl
  | cons part parts ih =>
      have hle := (addPart_grows (t, key) part).2.length_le
      rw [List.foldl_cons, addPart_modifyColumn f hj, ih (Nat.lt_of_lt_of_le hj hle),
        List.foldl_cons]

end EntityDiagram.Excerpt
