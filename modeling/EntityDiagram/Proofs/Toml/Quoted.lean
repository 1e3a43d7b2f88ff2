import EntityDiagram.Proofs.Toml.Scan
import EntityDiagram.Toml.Printer
import EntityDiagram.Toml.Quoted

/-!
# `EntityDiagram.Proofs.Toml.Quoted`: strings are read as they were written

A string is written in one of four ways: basic or literal, on one line or over many, as its
characters allow (`Quoting.of`). Whichever it is, `quoted_quoted` reads the string back.

* `escaped_cases`: how a character is written in a basic string. It is read part by part on one line
  (`basicPart_escaped`) and over many (`exists_part_escaped`).
* `LongText`: the text of a string over many lines as a sequence of parts with quotes between them.
  It is what is written between three quotes (`longText_escapedLong`, `longText_self`), and it is
  read as it says (`LongText.long_eq`).

The choice among the four ways is made by the writer, and the reader finds out which it was by
counting quotes at the front: one or three, of one of two kinds. For strings over many lines both
have to mind quotes inside the text, of which two may stand next to each other and three may not.
That is what `LongText` keeps apart: quotes in a part are counted where the part ends.
-/

set_option autoImplicit false

namespace EntityDiagram.Toml

open Scan

/-! ### Characters -/

/-- The code of a control character is written in four digits. -/
theorem ofDigits?_hexDigit : ∀ n < 128,
    ofDigits? 16 ['0', '0', hexDigit (n / 16), hexDigit (n % 16)] = some n := by
  decide +kernel

/-- A character is read from the digits of its code. -/
theorem codePoint_hexDigit {c : Char} (h : c.toNat < 128) (rest : List Char) :
    codePoint 4 ('0' :: '0' :: hexDigit (c.toNat / 16) :: hexDigit (c.toNat % 16) :: rest) =
      some (c, rest) := by
  have hdigits : ((List.replicate 4 ()).mapM fun _ => next : Scan (List Char))
      ('0' :: '0' :: hexDigit (c.toNat / 16) :: hexDigit (c.toNat % 16) :: rest) =
      some (['0', '0', hexDigit (c.toNat / 16), hexDigit (c.toNat % 16)], rest) := rfl
  rw [codePoint, bind_eq hdigits, ofDigits?_hexDigit c.toNat h]
  have hvalid : c.toNat.isValidChar := c.valid
  dsimp only
  rw [bind_eq (require_eq (decide_eq_true hvalid) rest), Char.ofNat_toNat]
  rfl

/-- A character that is neither a control character nor a line feed may stand on a line. -/
theorem isPlain_of_isControl {c : Char} (h : isControl c = false) (hnewline : c ≠ '\n') :
    isPlain c = true := by
  by_cases htab : c = '\t'
  · rw [htab]
    rfl
  · simp [isControl, htab, hnewline] at h
    simp [isPlain, htab, h]

/-- How a character is written in a basic string: as it is, or by an escape. The two cases are what
the reader tells apart at the first character. -/
theorem escaped_cases (c : Char) :
    (escaped c = [c] ∧ isPlain c = true ∧ c ≠ '"' ∧ c ≠ '\\') ∨
      ∃ mark more, escaped c = '\\' :: mark :: more ∧ isInk mark = true ∧
        ∀ rest, escape (mark :: (more ++ rest)) = some (c, rest) := by
  unfold escaped
  split
  · exact .inr ⟨'b', [], rfl, by decide, fun _ => rfl⟩
  · exact .inr ⟨'t', [], rfl, by decide, fun _ => rfl⟩
  · exact .inr ⟨'n', [], rfl, by decide, fun _ => rfl⟩
  · exact .inr ⟨'f', [], rfl, by decide, fun _ => rfl⟩
  · exact .inr ⟨'r', [], rfl, by decide, fun _ => rfl⟩
  · exact .inr ⟨'"', [], rfl, by decide, fun _ => rfl⟩
  · exact .inr ⟨'\\', [], rfl, by decide, fun _ => rfl⟩
  · rename_i htab hnewline _ _ hquote hslash
    -- The control characters that have no letter are written by their codes.
    by_cases hcontrol : isControl c = true
    · rw [if_pos hcontrol]
      refine .inr ⟨'u', _, rfl, by decide, fun rest => ?_⟩
      have hlt : c.toNat < 128 := by
        simp [isControl] at hcontrol
        rcases hcontrol.2 with h | h
        · have hspace : c.toNat < 32 := h
          omega
        · omega
      exact codePoint_hexDigit hlt rest
    · rw [if_neg hcontrol]
      exact .inl ⟨rfl, isPlain_of_isControl (by simpa using hcontrol) hnewline, hquote, hslash⟩

/-! ### Strings on one line -/

/-- A plain character stands for itself. -/
theorem plain_cons {c : Char} (h : isPlain c = true) (rest : List Char) :
    plain (c :: rest) = some (c, rest) := by
  rw [plain, bind_eq (next_cons c rest), bind_eq (require_eq h rest)]
  rfl

/-- A character of a basic string on one line is read back. -/
theorem basicPart_escaped (c : Char) (rest : List Char) :
    basicPart (escaped c ++ rest) = some (some c, rest) := by
  rcases escaped_cases c with ⟨htext, hplain, hquote, hslash⟩ | ⟨mark, more, htext, _, hescape⟩
  · -- A character that stands for itself is neither the backslash nor the closing mark.
    have hround : basicPart (c :: rest) = (some <$> plain) (c :: rest) := by
      rw [basicPart, bind_eq (peek_eq _), List.head?_cons]
      refine congrFun ?_ (c :: rest)
      split <;> simp_all
    rw [htext, List.singleton_append, hround]
    show (plain >>= fun c => pure (some c)) _ = _
    rw [bind_eq (plain_cons hplain rest)]
    rfl
  · rw [htext, basicPart, bind_eq (peek_eq _)]
    show (next >>= fun _ => escape >>= fun c => pure (some c))
      ('\\' :: (mark :: (more ++ rest))) = _
    rw [bind_eq (next_cons _ _), bind_eq (hescape rest)]
    rfl

/-- A character of a literal string on one line is read as it is. -/
theorem literalPart_cons {c : Char} (h : isPlain c = true) (hquote : c ≠ '\'')
    (rest : List Char) : literalPart (c :: rest) = some (some c, rest) := by
  have hne : (some c == some '\'') = false := by simpa using hquote
  rw [literalPart, bind_eq (peek_eq _), List.head?_cons, hne]
  show (plain >>= fun c => pure (some c)) _ = _
  rw [bind_eq (plain_cons h rest)]
  rfl

/-- A basic string on one line is read, with its escapes. -/
theorem short_basic (s rest : List Char) :
    short ('"' :: (s.flatMap escaped ++ '"' :: rest)) = some (String.ofList s, rest) := by
  have hrounds : Rounds basicPart (s.flatMap escaped ++ '"' :: rest) s ('"' :: rest) := by
    have hne (c : Char) : escaped c ≠ [] := by
      rcases escaped_cases c with ⟨htext, _⟩ | ⟨_, _, htext, _⟩ <;> simp [htext]
    have hdone : basicPart ('"' :: rest) = some (none, '"' :: rest) := rfl
    have hall := rounds_flatMap escaped id s (fun c _ => ⟨hne c, basicPart_escaped c⟩) hdone
    rwa [List.map_id] at hall
  rw [short, bind_eq (literal_cons (c := '"') rfl _)]
  show (many basicPart >>= _) _ = _
  rw [bind_eq hrounds.many_eq, bind_eq (expect_cons (c := '"') rfl rest)]
  rfl

/-- A literal string on one line is read. -/
theorem short_literal {s : List Char} (h : ∀ c ∈ s, isPlain c = true ∧ c ≠ '\'')
    (rest : List Char) : short ('\'' :: (s ++ '\'' :: rest)) = some (String.ofList s, rest) := by
  have hrounds : Rounds literalPart (s ++ '\'' :: rest) s ('\'' :: rest) := by
    have hdone : literalPart ('\'' :: rest) = some (none, '\'' :: rest) := rfl
    have hall := rounds_flatMap (fun c => [c]) id s
      (fun c hc => ⟨by simp, literalPart_cons (h c hc).1 (h c hc).2⟩) hdone
    rwa [List.map_id, List.flatMap_singleton'] at hall
  rw [short, bind_eq (literal_of_head (c := '"') rfl (by simp))]
  show (expect "'" >>= _) _ = _
  rw [bind_eq (expect_cons (c := '\'') rfl _), bind_eq hrounds.many_eq,
    bind_eq (expect_cons (c := '\'') rfl rest)]
  rfl

/-! ### Strings over many lines -/

/-- The text of a string over many lines, and what it says: parts that do not start with a quote,
at most two quotes in front of each of them and at the end. -/
inductive LongText (quote : Char) : List Char → List Char → Prop where
  | quotes {count : Nat} (hcount : count ≤ 2) :
      LongText quote (List.replicate count quote) (List.replicate count quote)
  | part {count : Nat} {c : Char} (part content : List Char) {text s : List Char}
      (hcount : count ≤ 2) (hne : c ≠ quote)
      (hread : ∀ rest, longPart quote (c :: part ++ rest) = some (some content, rest))
      (hmore : LongText quote text s) :
      LongText quote (List.replicate count quote ++ (c :: part ++ text))
        (List.replicate count quote ++ (content ++ s))

/-- Quotes are taken up to something else. -/
theorem takeQuotes_append {quote : Char} {rest : List Char} (hrest : rest.head? ≠ some quote)
    (count : Nat) : Scan.takeWhile (· == quote) (List.replicate count quote ++ rest) =
      some (List.replicate count quote, rest) := by
  refine Scan.takeWhile_append (fun c hc => by simp [List.eq_of_mem_replicate hc]) ?_
  intro c hc
  rw [beq_eq_false_iff_ne]
  rintro rfl
  exact hrest hc

/-- The quotes in front of another character are counted one by one. -/
theorem takeWhile_quotes {quote : Char} {rest : List Char} (hrest : rest.head? ≠ some quote)
    (count : Nat) : (List.replicate count quote ++ rest).takeWhile (· == quote) =
      List.replicate count quote :=
  congrArg Prod.fst (Option.some.inj (takeQuotes_append hrest count))

/-- One or two quotes that do not close the string are a part of it. A third one would close it. -/
theorem longPart_quotes {quote : Char} {count : Nat} {rest : List Char} (hpos : 0 < count)
    (hcount : count ≤ 2) (hrest : rest.head? ≠ some quote) :
    longPart quote (List.replicate count quote ++ rest) =
      some (some (List.replicate count quote), rest) := by
  rw [longPart, get_bind, takeWhile_quotes hrest, List.length_replicate, if_neg (by omega),
    if_pos (by simp; omega), bind_eq (takeQuotes_append hrest count)]
  rfl

/-- Three quotes close the string. There may be up to two more, which belong to the string. -/
theorem longPart_closing {quote : Char} {count : Nat} {rest : List Char} (hcount : 3 ≤ count)
    (hrest : rest.head? ≠ some quote) :
    longPart quote (List.replicate count quote ++ rest) =
      some (none, List.replicate count quote ++ rest) := by
  rw [longPart, get_bind, takeWhile_quotes hrest, List.length_replicate, if_pos hcount]
  rfl

/-- A part that starts with no quote is taken as if there were none. The two kinds of strings differ
in whether a backslash is an escape. -/
theorem longPart_cons {quote c : Char} (hne : c ≠ quote) (rest : List Char) :
    longPart quote (c :: rest) = (do
      if ← newline then return some ['\n']
      else if quote == '"' && (← peek) == some '\\' then
        let _ ← next
        if (← attempt foldedLines).isSome then return some [] else return some [← escape]
      else return some [← plain] : Scan (Option (List Char))) (c :: rest) := by
  have hnone : (c :: rest).takeWhile (· == quote) = [] := by simp [hne]
  rw [longPart, get_bind, hnone, if_neg (by simp), if_neg (by simp)]

/-- A line end inside a string over many lines is one of its characters. -/
theorem longPart_newline {quote : Char} (hne : '\n' ≠ quote) (rest : List Char) :
    longPart quote ('\n' :: rest) = some (some ['\n'], rest) := by
  rw [longPart_cons hne, bind_eq (newline_cons rest)]
  rfl

/-- A plain character ends no line, so that it may stand in a string on one line. -/
theorem ne_newline_of_isPlain {c : Char} (h : isPlain c = true) : c ≠ '\n' ∧ c ≠ '\x0d' := by
  constructor <;> rintro rfl <;> revert h <;> decide

/-- A plain character is a part of its own, if it is not the slash of an escape. -/
theorem longPart_plain {quote c : Char} (hne : c ≠ quote) (h : isPlain c = true)
    (hslash : quote = '"' → c ≠ '\\') (rest : List Char) :
    longPart quote (c :: rest) = some (some [c], rest) := by
  obtain ⟨hn, hr⟩ := ne_newline_of_isPlain h
  rw [longPart_cons hne, bind_eq (newline_of_head (by simpa using hn) (by simpa using hr))]
  have hslash' : (quote == '"' && some c == some '\\') = false := by
    by_cases hquote : quote = '"'
    · simp [hslash hquote]
    · simp [hquote]
  rw [if_neg (by simp), bind_eq (peek_eq _), List.head?_cons, hslash', if_neg (by simp),
    bind_eq (plain_cons h rest)]
  rfl

/-- A slash in front of something visible folds no lines. -/
theorem foldedLines_of_ink {mark : Char} (h : isInk mark = true) (rest : List Char) :
    attempt foldedLines (mark :: rest) = some (none, mark :: rest) := by
  have hink : ∀ c ∈ (mark :: rest).head?, isInk c = true := by simpa using h
  have hfails : foldedLines (mark :: rest) = none := by
    rw [foldedLines, bind_eq (blanks_eq (isBlank_of_ink hink)),
      bind_eq (newline_of_head (head?_ne_of_ink hink (by decide))
        (head?_ne_of_ink hink (by decide)))]
    rfl
  rw [attempt, hfails]

/-- An escape is a part. -/
theorem longPart_escape {mark c : Char} (more : List Char) (h : isInk mark = true)
    (hescape : ∀ rest, escape (mark :: (more ++ rest)) = some (c, rest)) (rest : List Char) :
    longPart '"' ('\\' :: mark :: (more ++ rest)) = some (some [c], rest) := by
  rw [longPart_cons (by decide), bind_eq (newline_of_head (by simp) (by simp)),
    if_neg (by simp), bind_eq (peek_eq _), List.head?_cons, if_pos (by simp),
    bind_eq (next_cons _ _), bind_eq (foldedLines_of_ink h _), if_neg (by simp),
    bind_eq (hescape rest)]
  rfl

/-! ### What is written is such a text -/

/-- A character that is written in a basic string is a part of a string over many lines. -/
theorem exists_part_escaped {c : Char} (hquote : c ≠ '"') :
    ∃ d part, escaped c = d :: part ∧ d ≠ '"' ∧
      ∀ rest, longPart '"' (d :: part ++ rest) = some (some [c], rest) := by
  rcases escaped_cases c with ⟨htext, hplain, _, hslash⟩ | ⟨mark, more, htext, hink, hescape⟩
  · exact ⟨c, [], htext, hquote, longPart_plain hquote hplain fun _ => hslash⟩
  · exact ⟨'\\', mark :: more, htext, by decide, longPart_escape more hink hescape⟩

/-- Behind a run of quotes, of which the third one is escaped. -/
theorem longText_escapedLong_of_run (s : List Char) {run : Nat} (hrun : run ≤ 2) :
    LongText '"' (List.replicate run '"' ++ escapedLong run s) (List.replicate run '"' ++ s) := by
  -- On the text. A quote makes the run in front of the rest longer, or it is escaped and ends it.
  induction s generalizing run with
  | nil =>
      rw [escapedLong, List.append_nil]
      exact .quotes hrun
  | cons c s ih =>
      by_cases hquote : c = '"'
      · subst hquote
        by_cases htwo : run = 2
        · have hread : ∀ rest, longPart '"' ('\\' :: ['"'] ++ rest) = some (some ['"'], rest) :=
            longPart_escape [] (by decide) fun _ => rfl
          have hmore := ih (Nat.zero_le 2)
          rw [escapedLong, if_pos (by simpa using htwo)]
          exact .part _ _ hrun (by decide) hread hmore
        · have hmore := ih (show run + 1 ≤ 2 by omega)
          rw [escapedLong, if_neg (by simpa using htwo)]
          rwa [List.replicate_succ', List.append_assoc, List.append_assoc] at hmore
      · have hmore := ih (Nat.zero_le 2)
        by_cases hnewline : c = '\n'
        · subst hnewline
          rw [escapedLong]
          exact .part [] _ hrun (by decide) (longPart_newline (by decide)) hmore
        · obtain ⟨d, part, htext, hd, hread⟩ := exists_part_escaped hquote
          rw [escapedLong, htext]
          · exact .part _ _ hrun hd hread hmore
          · exact hquote
          · exact hnewline

/-- What is written between three double quotes. -/
theorem longText_escapedLong (s : List Char) : LongText '"' (escapedLong 0 s) s := by
  simpa using longText_escapedLong_of_run s (Nat.zero_le 2)

/-- Behind a run of quotes, if no run is too long. -/
theorem longText_self_of_run {s : List Char} (hplain : ∀ c ∈ s, isControl c = false) {run : Nat}
    (hruns : longestRun '\'' run s ≤ 2) :
    LongText '\'' (List.replicate run '\'' ++ s) (List.replicate run '\'' ++ s) := by
  induction s generalizing run with
  | nil =>
      rw [List.append_nil]
      exact .quotes hruns
  | cons c s ih =>
      obtain ⟨hc, hs⟩ := List.forall_mem_cons.1 hplain
      -- A quote lengthens the run, and any other character ends it.
      by_cases hquote : c = '\''
      · subst hquote
        rw [longestRun, if_pos (by simp)] at hruns
        have hmore := ih hs hruns
        rwa [List.replicate_succ', List.append_assoc] at hmore
      · rw [longestRun, if_neg (by simpa using hquote)] at hruns
        have hmore := ih hs (show longestRun '\'' 0 s ≤ 2 by omega)
        refine .part [] [c] (by omega) hquote ?_ hmore
        by_cases hnewline : c = '\n'
        · subst hnewline
          exact longPart_newline (by decide)
        · exact longPart_plain hquote (isPlain_of_isControl hc hnewline) (by simp)

/-- What is written between three single quotes. -/
theorem longText_self {s : List Char} (hplain : ∀ c ∈ s, isControl c = false)
    (hruns : longestRun '\'' 0 s ≤ 2) : LongText '\'' s s := by
  simpa using longText_self_of_run hplain hruns

/-! ### Reading strings over many lines -/

/-- The parts of the text are the rounds of the scan. The quotes at the end of the string stay with
the three that close it. -/
theorem LongText.rounds {quote : Char} {text s : List Char} (h : LongText quote text s)
    {rest : List Char} (hrest : rest.head? ≠ some quote) :
    ∃ parts count, count ≤ 2 ∧
      Rounds (longPart quote) (text ++ (List.replicate 3 quote ++ rest)) parts
        (List.replicate (count + 3) quote ++ rest) ∧
      parts.flatten ++ List.replicate count quote = s := by
  induction h with
  | @quotes count hcount =>
      -- The quotes at the end run on into those that close the string.
      refine ⟨[], count, hcount, ?_, by simp⟩
      rw [← List.append_assoc, List.replicate_append_replicate]
      exact .done (longPart_closing (by omega) hrest)
  | @part count c part content text s hcount hne hread hmore ih =>
      obtain ⟨parts, closing, hclosing, hrounds, hsays⟩ := ih
      have hpart : Rounds (longPart quote)
          (c :: part ++ (text ++ (List.replicate 3 quote ++ rest))) (content :: parts)
          (List.replicate (closing + 3) quote ++ rest) := by
        refine .more (hread _) ?_ hrounds
        simp only [List.length_append, List.length_cons]
        omega
      -- Quotes in front of the part are a round of their own, if there are any.
      rcases Nat.eq_zero_or_pos count with rfl | hpos
      · refine ⟨content :: parts, closing, hclosing, ?_, ?_⟩
        · simpa using hpart
        · simp [← hsays]
      · refine ⟨List.replicate count quote :: content :: parts, closing, hclosing, ?_, ?_⟩
        · simp only [List.append_assoc]
          refine .more (longPart_quotes hpos hcount (by simpa using hne)) ?_ hpart
          simp only [List.length_append, List.length_replicate]
          omega
        · simp [← hsays]

/-- A string over many lines is read, after a line end that does not count if there is one. The
quotes that close it must not be followed by another one. -/
theorem LongText.long_eq {quote : Char} {text s start : List Char} (h : LongText quote text s)
    (hstart : start = ['\n'] ∨ start = [] ∧
      ∀ c ∈ (text ++ [quote]).head?, c ≠ '\n' ∧ c ≠ '\x0d')
    {rest : List Char} (hrest : rest.head? ≠ some quote) :
    long quote (start ++ (text ++ (List.replicate 3 quote ++ rest))) =
      some (String.ofList s, rest) := by
  obtain ⟨parts, count, hcount, hrounds, hsays⟩ := h.rounds hrest
  -- A line break right behind the opening marks is not part of the text, so it is skipped if there
  -- is one.
  have hopening : ∃ opened, newline (start ++ (text ++ (List.replicate 3 quote ++ rest))) =
      some (opened, text ++ (List.replicate 3 quote ++ rest)) := by
    rcases hstart with rfl | ⟨rfl, hhead⟩
    · exact ⟨true, newline_cons _⟩
    · have hsame : (text ++ (List.replicate 3 quote ++ rest)).head? = (text ++ [quote]).head? := by
        cases text <;> rfl
      refine ⟨false, newline_of_head ?_ ?_⟩
      · rw [List.nil_append, hsame]
        exact fun hn => (hhead _ hn).1 rfl
      · rw [List.nil_append, hsame]
        exact fun hr => (hhead _ hr).2 rfl
  obtain ⟨opened, hnewline⟩ := hopening
  rw [long, bind_eq hnewline, bind_eq hrounds.many_eq, bind_eq (takeQuotes_append hrest _),
    bind_eq (require_eq (by simp; omega) rest), List.drop_replicate]
  rw [Nat.add_sub_cancel, hsays]
  rfl

/-! ### The way a string is written -/

/-- The run that is going on is not longer than the longest one. -/
theorem le_longestRun (quote : Char) (s : List Char) (run : Nat) :
    run ≤ longestRun quote run s := by
  induction s generalizing run with
  | nil => exact Nat.le_refl run
  | cons c s ih =>
      rw [longestRun]
      split
      · exact Nat.le_of_succ_le (ih (run + 1))
      · exact Nat.le_max_left _ _

/-- Without a run of quotes there is no quote. -/
theorem notMem_of_longestRun {quote : Char} {s : List Char} {run : Nat}
    (h : longestRun quote run s = 0) : quote ∉ s := by
  induction s generalizing run with
  | nil => simp
  | cons c s ih =>
      rw [longestRun] at h
      split at h
      · have hle := le_longestRun quote s (run + 1)
        omega
      · rename_i hne
        rw [List.mem_cons, not_or]
        refine ⟨?_, ih (show longestRun quote 0 s = 0 by omega)⟩
        rintro rfl
        exact hne (by simp)

/-- A string that is written literally on one line has only plain characters and no single quote. -/
theorem Quoting.of_eq_literal {s : List Char} (h : Quoting.of s = .literal) :
    ∀ c ∈ s, isPlain c = true ∧ c ≠ '\'' := by
  rw [Quoting.of] at h
  split at h
  · cases h
  split at h
  · rename_i hliteral
    simp only [Bool.and_eq_true, Bool.not_eq_true', beq_iff_eq] at hliteral
    -- Each condition of this way of quoting excludes one sort of characters.
    obtain ⟨⟨hcontrol, hsingles⟩, hnewline⟩ := hliteral
    intro c hc
    refine ⟨isPlain_of_isControl ?_ ?_, ?_⟩
    · simpa using List.any_eq_false.1 hcontrol c hc
    · rintro rfl
      simp [hc] at hnewline
    · rintro rfl
      exact notMem_of_longestRun hsingles hc
  · split at h
    · cases h
    split at h
    · cases h
    · split at h <;> cases h

/-- A string that is written literally over many lines has no control characters, and at most two
single quotes side by side. -/
theorem Quoting.of_eq_longLiteral {s : List Char} (h : Quoting.of s = .longLiteral) :
    (∀ c ∈ s, isControl c = false) ∧ longestRun '\'' 0 s ≤ 2 := by
  rw [Quoting.of] at h
  split at h
  · cases h
  split at h
  · cases h
  split at h
  · cases h
  split at h
  · rename_i hlong
    simp only [Bool.and_eq_true, Bool.not_eq_true', decide_eq_true_eq] at hlong
    exact ⟨fun c hc => by simpa using List.any_eq_false.1 hlong.1 c hc, hlong.2⟩
  · split at h <;> cases h

/-- Three quotes are not at the front of a string on one line. So the reader looks for a string over
many lines first. -/
theorem literal_three {quote : Char} {lead : String} (hlead : lead.toList = [quote, quote, quote])
    {text rest : List Char} (htext : ∀ c ∈ text.head?, c ≠ quote)
    (hrest : rest.head? ≠ some quote) :
    literal lead (quote :: (text ++ quote :: rest)) =
      some (false, quote :: (text ++ quote :: rest)) := by
  -- Three marks in a row would need the text or the rest to begin with one.
  have hnone : Text.dropLead? [quote, quote, quote] (quote :: (text ++ quote :: rest)) = none := by
    cases text with
    | nil =>
        cases rest with
        | nil => simp [Text.dropLead?]
        | cons c rest =>
            have hne : quote ≠ c := by
              rintro rfl
              exact hrest rfl
            simp [Text.dropLead?, hne]
    | cons c text =>
        have hne : quote ≠ c := (htext c rfl).symm
        simp [Text.dropLead?, hne]
  rw [literal_eq, hlead, hnone]

/-- No line end is at the front of a string over many lines that holds none. -/
theorem head?_escapedLong {s : List Char} (h : '\n' ∉ s) :
    ∀ c ∈ (escapedLong 0 s).head?, c ≠ '\n' ∧ c ≠ '\x0d' := by
  cases s with
  | nil => simp [escapedLong]
  | cons c s =>
      by_cases hquote : c = '"'
      · subst hquote
        simp [escapedLong]
      · rw [escapedLong]
        · -- A character is written as itself or behind a backslash, and neither begins with a line
          -- break.
          rcases escaped_cases c with ⟨htext, hplain, _⟩ | ⟨mark, more, htext, _⟩
          · rw [htext]
            simpa using ne_newline_of_isPlain hplain
          · rw [htext]
            simp
        · exact hquote
        · rintro rfl
          exact h List.mem_cons_self

/-- A string between three quotes each is read. A line end at its front does not count; there is
one if the string holds another. -/
theorem quoted_long {quote : Char} (hquote : quote = '"' ∨ quote = '\'')
    {text s rest : List Char} (h : LongText quote text s)
    (hhead : '\n' ∉ s → ∀ c ∈ text.head?, c ≠ '\n' ∧ c ≠ '\x0d')
    (hrest : rest.head? ≠ some quote) :
    Scan.quoted (quote :: quote :: quote :: ((if s.contains '\n' then ['\n'] else []) ++
        (text ++ (quote :: quote :: quote :: rest)))) =
      some (String.ofList s, rest) := by
  -- One line end behind the opening quotes is skipped, so the text must not start with its own.
  have hstart : (if s.contains '\n' then ['\n'] else []) = ['\n'] ∨
      (if s.contains '\n' then ['\n'] else []) = [] ∧
        ∀ c ∈ (text ++ [quote]).head?, c ≠ '\n' ∧ c ≠ '\x0d' := by
    by_cases hnewline : '\n' ∈ s
    · simp [hnewline]
    · refine .inr ⟨by simp [hnewline], ?_⟩
      cases text with
      | nil => rcases hquote with rfl | rfl <;> simp
      | cons c text => exact hhead hnewline
  have hlong := h.long_eq hstart hrest
  rcases hquote with rfl | rfl
  · have hopening (more : List Char) :
        literal "\"\"\"" ('"' :: '"' :: '"' :: more) = some (true, more) := by
      simpa using literal_append "\"\"\"" more
    rw [Scan.quoted, bind_eq (hopening _), if_pos rfl]
    exact hlong
  · have hopening (more : List Char) :
        literal "'''" ('\'' :: '\'' :: '\'' :: more) = some (true, more) := by
      simpa using literal_append "'''" more
    rw [Scan.quoted, bind_eq (literal_of_head (c := '"') rfl (by simp)), if_neg (by simp),
      bind_eq (hopening _), if_pos rfl]
    exact hlong

/-- A string is read as it was written, in whatever way that was. -/
theorem quoted_quoted (s : String) {rest : List Char} (hdouble : rest.head? ≠ some '"')
    (hsingle : rest.head? ≠ some '\'') :
    Scan.quoted ((Toml.quoted s).toList ++ rest) = some (s, rest) := by
  have hs : String.ofList s.toList = s := String.ofList_toList
  have hstart : (if s.toList.contains '\n' then "\n" else "").toList =
      if s.toList.contains '\n' then ['\n'] else [] := by
    split <;> rfl
  rw [Toml.quoted]
  -- The way of quoting is chosen by what the string holds, and that makes it readable.
  cases hway : Quoting.of s.toList with
  | basic =>
      have htext : ∀ c ∈ (s.toList.flatMap escaped).head?, c ≠ '"' := by
        cases s.toList with
        | nil => simp
        | cons c s =>
            rcases escaped_cases c with ⟨htext, _, hquote, _⟩ | ⟨mark, more, htext, _⟩
            · simpa [htext] using hquote
            · simp [htext]
      have hread : Scan.quoted ('"' :: (s.toList.flatMap escaped ++ '"' :: rest)) =
          some (String.ofList s.toList, rest) := by
        rw [Scan.quoted, bind_eq (literal_three rfl htext hdouble), if_neg (by simp),
          bind_eq (literal_of_head (c := '\'') rfl (by simp)), if_neg (by simp), short_basic]
      simpa [hs] using hread
  | literal =>
      have hplain := Quoting.of_eq_literal hway
      have hread : Scan.quoted ('\'' :: (s.toList ++ '\'' :: rest)) =
          some (String.ofList s.toList, rest) := by
        rw [Scan.quoted, bind_eq (literal_of_head (c := '"') rfl (by simp)), if_neg (by simp),
          bind_eq (literal_three rfl (fun c hc => (hplain c (List.mem_of_mem_head? hc)).2) hsingle),
          if_neg (by simp), short_literal hplain]
      simpa [hs] using hread
  | longBasic =>
      have hread := quoted_long (.inl rfl) (longText_escapedLong s.toList) head?_escapedLong hdouble
      rw [hs, ← hstart] at hread
      simpa using hread
  | longLiteral =>
      obtain ⟨hcontrol, hruns⟩ := Quoting.of_eq_longLiteral hway
      have hread := quoted_long (.inr rfl) (longText_self hcontrol hruns) (by
        intro hnewline c hc
        refine ⟨fun hn => hnewline (hn ▸ List.mem_of_mem_head? hc), fun hr => ?_⟩
        have hfalse := hcontrol c (List.mem_of_mem_head? hc)
        rw [hr] at hfalse
        exact absurd hfalse (by decide)) hsingle
      rw [hs, ← hstart] at hread
      simpa using hread

end EntityDiagram.Toml
