import EntityDiagram.Proofs.Text.Space
import EntityDiagram.Sql.ColumnType
import Mathlib.Data.List.TakeWhile

/-!
# `EntityDiagram.Proofs.Sql.ColumnType`: declared types in their plain form

`ColumnType.ofText` takes apart whatever a script declares. In the plain form, an upper-case word
with at most two numbers, nothing is lost: `ofText_declared` says that the type is the text itself
and its arguments are the numbers. On the way, `number?_digits` reads back the decimal digits of
every number of 32 bits. White space before the parenthesis and around the arguments makes no
difference, whatever the arguments are: `ofText_arguments`.

The text is taken apart at its first opening parenthesis, and what stands behind is split at commas
and read as numbers. In the plain form there is one parenthesis, and nothing that could be taken for
another word of the type, so that each step is a computation on a text of known shape; only the
digits need an induction, on the number. What `ofText` makes of any text at all is the subject of
`EntityDiagram.Proofs.Sql.NormalType`.
-/

set_option autoImplicit false

namespace EntityDiagram.Sql

open Text (isPlainWord isAsciiDigit isSpace splitWhere)

/-! ### Numbers -/

/-- The decimal digits of a number. There are no leading zeros, and zero itself has one digit. -/
def digits (n : UInt32) : List Char := Nat.toDigits 10 n.toNat

/-- A number has a digit. -/
theorem digits_ne_nil (n : UInt32) : digits n ≠ [] := Nat.toDigits_ne_nil

/-- The digits of a number are digits. -/
theorem isAsciiDigit_of_mem_digits {n : UInt32} {c : Char} (h : c ∈ digits n) :
    isAsciiDigit c = true :=
  Nat.isDigit_of_mem_toDigits (by decide) (by decide) h

/-- A digit may stand in a plain word. -/
theorem isPlain_of_isAsciiDigit {c : Char} (h : isAsciiDigit c = true) :
    Text.isPlain c = true := by
  simp [Text.isPlain, h]

/-- Digits are read from the left, as long as the value stays below the bound. The bound is checked
at every digit, so the value of each front has to be below it; these grow with the digits. -/
theorem digitsValue?_eq {ds : List Char} (hds : ∀ c ∈ ds, isAsciiDigit c = true) (value : Nat)
    (hlt : Nat.ofDigitChars 10 ds value < UInt32.size) :
    digitsValue? value ds = some (Nat.ofDigitChars 10 ds value) := by
  induction ds generalizing value with
  | nil => rfl
  | cons c ds ih =>
      rw [Nat.ofDigitChars_cons] at hlt ⊢
      -- The value only grows, so no prefix reaches the bound before the whole does.
      have hgrow : 10 * value + (c.toNat - '0'.toNat) < UInt32.size := by
        rw [Nat.ofDigitChars_eq_ofDigitChars_zero] at hlt
        have hpos : 1 ≤ 10 ^ ds.length := Nat.one_le_pow _ _ (by decide)
        have hle := Nat.mul_le_mul_right (10 * value + (c.toNat - '0'.toNat)) hpos
        omega
      rw [digitsValue?, if_pos (hds c (by simp)), if_pos hgrow,
        ih (fun d hd => hds d (by simp [hd])) _ hlt]

/-- Without a sign, the whole text is digits. -/
theorem number?_of_head_ne {s : List Char} (h : s.head? ≠ some '+') :
    number? s = if s.isEmpty then none else (digitsValue? 0 s).map Nat.toUInt32 := by
  unfold number?
  split
  · simp at h
  · rfl

/-- Reading the digits of a number gives the number. The number fits by its type. -/
theorem number?_digits (n : UInt32) : number? (digits n) = some n := by
  -- The digits have the value of the number, which is below the bound for numbers of 32 bits.
  have hvalue : digitsValue? 0 (digits n) = some n.toNat := by
    have hof : Nat.ofDigitChars 10 (digits n) 0 = n.toNat := Nat.ofDigitChars_ten_toDigits
    rw [digitsValue?_eq (fun c hc => isAsciiDigit_of_mem_digits hc) 0 (hof ▸ n.toNat_lt), hof]
  have hplus : (digits n).head? ≠ some '+' := by
    intro h
    have : isAsciiDigit '+' = true := isAsciiDigit_of_mem_digits (List.mem_of_mem_head? h)
    exact absurd this (by decide)
  rw [number?_of_head_ne hplus, if_neg (by simpa using digits_ne_nil n), hvalue]
  simp

/-! ### Types -/

/-- The arguments of a type in its plain form. -/
inductive TypeArguments where
  | none
  | length (n : UInt32)
  | precision (p s : UInt32)
deriving DecidableEq, Repr

namespace TypeArguments

/-- The numbers between the parentheses. There are two of them at most. -/
def parts : TypeArguments → List (List Char)
  | .none => []
  | .length n => [digits n]
  | .precision p s => [digits p, digits s]

/-- The arguments as they are written after the word, without white space. -/
def chars : TypeArguments → List Char
  | .none => []
  | .length n => '(' :: digits n ++ [')']
  | .precision p s => '(' :: (digits p ++ ',' :: digits s) ++ [')']

/-- The type of a word with these arguments. This is what the type should be read as, said without a
reader. -/
def columnType (a : TypeArguments) (word : List Char) : ColumnType :=
  let dataType := String.ofList (word ++ a.chars)
  let baseType := String.ofList word
  match a with
  | .none => { dataType, baseType }
  | .length n => { dataType, baseType, length := some n }
  | .precision p s => { dataType, baseType, precision := some p, scale := some s }

end TypeArguments

namespace ColumnType

/-- The base of a plain word is the word. It is in upper case already, and it is no word that says
something about the sign. -/
theorem baseOf_plain {word : List Char} (hword : isPlainWord word = true)
    (hsign : signWords.contains (String.ofList word) = false) : baseOf word = word := by
  have hplain := Text.forall_isPlain hword
  have hne : word ≠ [] := by
    rintro rfl
    simp [isPlainWord] at hword
  rw [baseOf, Text.words_eq_singleton hne fun c hc => (Text.isPlain_facts (hplain c hc)).1,
    List.map_singleton, Text.upper_plain hplain, List.filter_cons_of_pos (by simpa using hsign)]
  simp [Text.joinWith]

/-- A comma, a space and a parenthesis are no digits. -/
theorem ne_of_mem_digits {n : UInt32} {c d : Char} (hc : c ∈ digits n)
    (hd : isAsciiDigit d = false) : c ≠ d := by
  rintro rfl
  rw [isAsciiDigit_of_mem_digits hc] at hd
  exact Bool.noConfusion hd

/-- Digits are an argument as they are. -/
theorem filter_trim_digits (n : UInt32) (more : List (List Char)) :
    (((digits n :: more).map Text.trim).filter (!·.isEmpty)) =
      digits n :: ((more.map Text.trim).filter (!·.isEmpty)) := by
  have hspace : ∀ c ∈ digits n, isSpace c = false := fun c hc =>
    (Text.isPlain_facts (isPlain_of_isAsciiDigit (isAsciiDigit_of_mem_digits hc))).1
  rw [List.map_cons, Text.trim_eq_self hspace,
    List.filter_cons_of_pos (by simpa using digits_ne_nil n)]

/-- There is no comma in the digits of a number. -/
theorem isComma_of_mem_digits {n : UInt32} : ∀ c ∈ digits n, (c == ',') = false := by
  intro c hc
  rw [beq_eq_false_iff_ne]
  exact ne_of_mem_digits hc (by decide)

/-- Nothing between the parentheses is no argument. -/
theorem argumentsOf_nil : argumentsOf [] = [] := by
  simp [argumentsOf, splitWhere, Text.trim, Text.trimStart, Text.trimEnd, Text.dropEndWhile]

/-- The digits of a number are one argument. -/
theorem argumentsOf_digits (n : UInt32) : argumentsOf (digits n) = [digits n] := by
  rw [argumentsOf, Text.splitWhere_eq_singleton isComma_of_mem_digits, filter_trim_digits]
  rfl

/-- Two numbers with a comma between them are two arguments. -/
theorem argumentsOf_digits_digits (p s : UInt32) :
    argumentsOf (digits p ++ ',' :: digits s) = [digits p, digits s] := by
  rw [argumentsOf, Text.splitWhere_append isComma_of_mem_digits ',' (by decide),
    Text.splitWhere_eq_singleton isComma_of_mem_digits, filter_trim_digits, filter_trim_digits]
  rfl

/-- What precedes the arguments of a type, and what stands between their parentheses. The first
parenthesis that opens and the first one behind it that closes are found, and they are the only
ones. -/
theorem takeWhile_dropWhile_parens {word inner : List Char} (hword : ∀ c ∈ word, c ≠ '(')
    (hinner : ∀ c ∈ inner, c ≠ ')') :
    (word ++ '(' :: inner ++ [')']).takeWhile (· != '(') = word ∧
      (((word ++ '(' :: inner ++ [')']).dropWhile (· != '(')).drop 1).takeWhile (· != ')') =
        inner := by
  rw [List.append_assoc, List.cons_append,
    List.takeWhile_append_of_pos (by simpa using hword),
    List.dropWhile_append_of_pos (by simpa using hword)]
  constructor
  · simp
  · rw [List.dropWhile_cons_of_neg (by simp), List.drop_one, List.tail_cons,
      List.takeWhile_append_of_pos (by simpa using hinner)]
    simp

/-- There is no white space in arguments. So nothing is trimmed off a type in its plain form. -/
theorem isSpace_of_mem_chars {a : TypeArguments} : ∀ c ∈ a.chars, isSpace c = false := by
  -- Apart from digits there are only parentheses and a comma.
  have hdigits {n : UInt32} {c : Char} (hc : c ∈ digits n) : isSpace c = false :=
    (Text.isPlain_facts (isPlain_of_isAsciiDigit (isAsciiDigit_of_mem_digits hc))).1
  intro c hc
  cases a with
  | none => simp [TypeArguments.chars] at hc
  | length n =>
      simp only [TypeArguments.chars, List.cons_append, List.mem_cons, List.mem_append,
        List.not_mem_nil, or_false] at hc
      rcases hc with rfl | hc | rfl
      · decide
      · exact hdigits hc
      · decide
  | precision p s =>
      simp only [TypeArguments.chars, List.cons_append, List.mem_cons, List.mem_append,
        List.append_assoc, List.not_mem_nil, or_false] at hc
      rcases hc with rfl | hc | rfl | hc | rfl
      · decide
      · exact hdigits hc
      · decide
      · exact hdigits hc
      · decide

/-- A type in its plain form is read as it is written. This covers the three forms that numbers can
give to it. -/
theorem ofText_declared {word : List Char} (hword : isPlainWord word = true)
    (hsign : signWords.contains (String.ofList word) = false) (a : TypeArguments) :
    ofText (word ++ a.chars) = a.columnType word := by
  have hplain := Text.forall_isPlain hword
  -- Nothing is trimmed, and the base ends at the first parenthesis.
  have hspace : ∀ c ∈ word ++ a.chars, isSpace c = false := by
    intro c hc
    rcases List.mem_append.1 hc with hc | hc
    · exact (Text.isPlain_facts (hplain c hc)).1
    · exact isSpace_of_mem_chars c hc
  have hopen : ∀ c ∈ word, c ≠ '(' := by
    rintro c hc rfl
    exact absurd (hplain _ hc) (by decide)
  have hclose (n : UInt32) : ∀ c ∈ digits n, c ≠ ')' :=
    fun c hc => ne_of_mem_digits hc (by decide)
  rw [ofText, Text.trim_eq_self hspace]
  -- One case for each form: nothing, a length, or a precision and a scale.
  cases a with
  | none =>
      have hopen' : ∀ c ∈ word, (c != '(') = true := by simpa using hopen
      rw [TypeArguments.chars, List.append_nil, List.takeWhile_eq_self_iff.2 hopen',
        List.dropWhile_eq_nil_iff.2 hopen', baseOf_plain hword hsign]
      simp [ofParts, argumentsOf_nil, TypeArguments.columnType, TypeArguments.chars]
  | length n =>
      obtain ⟨hbase, hinner⟩ := takeWhile_dropWhile_parens hopen (hclose n)
      rw [TypeArguments.chars, ← List.append_assoc]
      rw [hbase, hinner, baseOf_plain hword hsign, argumentsOf_digits]
      simp [ofParts, number?_digits, Text.joinWith, TypeArguments.columnType, TypeArguments.chars]
  | precision p s =>
      have hclose' : ∀ c ∈ digits p ++ ',' :: digits s, c ≠ ')' := by
        intro c hc
        rcases List.mem_append.1 hc with hc | hc
        · exact hclose p c hc
        · rcases List.mem_cons.1 hc with rfl | hc
          · decide
          · exact hclose s c hc
      obtain ⟨hbase, hinner⟩ := takeWhile_dropWhile_parens hopen hclose'
      rw [TypeArguments.chars, ← List.append_assoc]
      rw [hbase, hinner, baseOf_plain hword hsign, argumentsOf_digits_digits]
      simp [ofParts, number?_digits, Text.joinWith, TypeArguments.columnType, TypeArguments.chars]

/-! ### White space in types -/

/-- White space behind a word is no part of the base. -/
theorem baseOf_append_spaces {word g : List Char} (hword : isPlainWord word = true)
    (hg : ∀ c ∈ g, isSpace c = true) : baseOf (word ++ g) = baseOf word := by
  have hne : word ≠ [] := by
    rintro rfl
    simp [isPlainWord] at hword
  have hspace : ∀ c ∈ word, isSpace c = false :=
    fun c hc => (Text.isPlain_facts (Text.forall_isPlain hword c hc)).1
  rw [baseOf, baseOf, Text.words_append_spaces hne hspace hg,
    Text.words_eq_singleton hne hspace]

/-- Arguments with white space around them are read without it. They may be any plain words, and
need not be numbers. -/
theorem argumentsOf_padded {ds xs : List (List Char)} (hne : ds ≠ [])
    (hds : ∀ d ∈ ds, d ≠ [] ∧ ∀ c ∈ d, Text.isPlain c = true)
    (hxs : List.Forall₂ Text.Padded ds xs) : argumentsOf (Text.joinWith [','] xs) = ds := by
  have hxne : xs ≠ [] := by
    rintro rfl
    cases hxs
    exact hne rfl
  have hcomma : ∀ x ∈ xs, ',' ∉ x := by
    intro x hx hmem
    obtain ⟨d, hd, hpad⟩ := Text.exists_rel_of_mem hxs hx
    rcases hpad.mem hmem with hmem | hspace
    · exact absurd ((hds d hd).2 _ hmem) (by decide)
    · exact absurd hspace (by decide)
  rw [argumentsOf, Text.splitWhere_joinWith hxne hcomma]
  -- They have been cut at the commas, and now each of them is trimmed.
  clear hne hxne hcomma
  induction hxs with
  | nil => rfl
  | @cons d x ds xs hpad _ ih =>
      obtain ⟨hd, hplain⟩ := hds d (by simp)
      rw [List.map_cons, hpad.trim_eq fun c hc => (Text.isPlain_facts (hplain c hc)).1,
        List.filter_cons_of_pos (by simpa using hd), ih fun e he => hds e (by simp [he])]

/-- No parenthesis closes between plain arguments. -/
theorem closeParen_notMem_arguments {ds xs : List (List Char)}
    (hds : ∀ d ∈ ds, d ≠ [] ∧ ∀ c ∈ d, Text.isPlain c = true)
    (hxs : List.Forall₂ Text.Padded ds xs) : ')' ∉ Text.joinWith [','] xs := by
  intro hmem
  rcases Text.mem_joinWith hmem with hc | ⟨x, hx, hc⟩
  · simp at hc
  · obtain ⟨d, hd, hpad⟩ := Text.exists_rel_of_mem hxs hx
    rcases hpad.mem hc with hc | hspace
    · exact absurd ((hds d hd).2 _ hc) (by decide)
    · exact absurd hspace (by decide)

/-- A type is read from its word and its arguments, whatever white space is between them. There may
be white space in front of the parenthesis as well, but none behind the one that closes. -/
theorem ofText_arguments {word g : List Char} (hword : isPlainWord word = true)
    (hsign : signWords.contains (String.ofList word) = false) (hg : ∀ c ∈ g, isSpace c = true)
    {ds xs : List (List Char)} (hne : ds ≠ [])
    (hds : ∀ d ∈ ds, d ≠ [] ∧ ∀ c ∈ d, Text.isPlain c = true)
    (hxs : List.Forall₂ Text.Padded ds xs) :
    ofText (word ++ g ++ '(' :: Text.joinWith [','] xs ++ [')']) = ofParts word ds := by
  have hplain := Text.forall_isPlain hword
  -- The text starts with the word and ends with the parenthesis, so nothing is trimmed.
  have htrim : Text.trim (word ++ g ++ '(' :: Text.joinWith [','] xs ++ [')']) =
      word ++ g ++ '(' :: Text.joinWith [','] xs ++ [')'] := by
    cases word with
    | nil => simp [isPlainWord] at hword
    | cons c rest =>
        have hc : isSpace c = false := (Text.isPlain_facts (hplain c (by simp))).1
        have hends := Text.trim_of_ends hc (by decide : isSpace ')' = false)
          (rest ++ g ++ '(' :: Text.joinWith [','] xs)
        simpa using hends
  have hopen : ∀ c ∈ word ++ g, c ≠ '(' := by
    rintro c hc rfl
    rcases List.mem_append.1 hc with hc | hc
    · exact absurd (hplain _ hc) (by decide)
    · exact absurd (hg _ hc) (by decide)
  have hclose : ∀ c ∈ Text.joinWith [','] xs, c ≠ ')' := by
    rintro c hc rfl
    exact closeParen_notMem_arguments hds hxs hc
  obtain ⟨hbase, hinner⟩ := takeWhile_dropWhile_parens hopen hclose
  rw [ofText, htrim, hbase, hinner, argumentsOf_padded hne hds hxs, baseOf_append_spaces hword hg,
    baseOf_plain hword hsign]

/-- A type without arguments is its word. -/
theorem ofText_word {word : List Char} (hword : isPlainWord word = true)
    (hsign : signWords.contains (String.ofList word) = false) :
    ofText word = ofParts word [] := by
  have hread := ofText_declared hword hsign .none
  rw [TypeArguments.chars, List.append_nil] at hread
  rw [hread]
  simp [ofParts, TypeArguments.columnType, TypeArguments.chars]

end ColumnType

end EntityDiagram.Sql
