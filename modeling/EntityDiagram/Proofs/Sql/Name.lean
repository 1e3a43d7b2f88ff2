import EntityDiagram.Proofs.Text.Space
import EntityDiagram.Sql.Name

/-!
# `EntityDiagram.Proofs.Sql.Name`: quoted names are read back

A name in quotes that holds no quotation mark itself is one segment, whatever dots and white space
it holds: `segments_quoted`. So it is the name of an object, without a schema. `quoteParts` writes
such a name in double quotes and scripts write it in backticks.

Names with dots between them, quoted or not, are the segments of a name: `segments_joinWith`. So the
last one is the name of the object and the one before it the schema. The same holds of the parts
that `quoteParts` puts together, whatever white space they hold: `objectName_quoteParts` and
`schemaPart_quoteParts`.

The scan that finds segments keeps one bit of state, whether it is inside quotes, and the mark that
opened them. A quoted segment without a mark in it takes the scan from outside to outside, so that
the segments of a name can be put together one by one; the induction is on the list of segments.
What may stand in a segment is said by `IsChunk`: the scan takes the text into one segment as a
whole, whatever follows it.
-/

set_option autoImplicit false

namespace EntityDiagram.Sql

/-- The marks in which a name may stand: a name that starts with one ends with the same one.
Brackets are not among them: they open with one mark and close with another. -/
def isNameQuote (c : Char) : Bool := c == '`' || c == '"'

/-- Such a mark is no white space, and it is taken off the ends of a name. -/
theorem isNameQuote_facts {mark : Char} (h : isNameQuote mark = true) :
    Text.isSpace mark = false ∧ isQuoteMark mark = true := by
  rcases Bool.or_eq_true_iff.1 h with hm | hm <;> rw [beq_iff_eq.1 hm] <;> decide

/-- Whether the text goes into one segment of a name as a whole, whatever follows it. No dot of it
is one that separates segments, and it opens no quotes that it does not close. -/
def IsChunk (s : List Char) : Prop :=
  ∀ t, segmentsFrom none (s ++ t) = s.foldr extendFirst (segmentsFrom none t)

/-- A text goes in front of the first segment. It is put there character by character. -/
theorem foldr_extendFirst (s first : List Char) (more : List (List Char)) :
    s.foldr extendFirst (first :: more) = (s ++ first) :: more := by
  induction s with
  | nil => rfl
  | cons c s ih => rw [List.foldr_cons, ih]; rfl

/-- A chunk alone is one segment. -/
theorem IsChunk.segmentsFrom_eq {s : List Char} (h : IsChunk s) : segmentsFrom none s = [s] := by
  have hend := h []
  rwa [List.append_nil, segmentsFrom, foldr_extendFirst, List.append_nil] at hend

/-- A text without quotation marks and dots is a chunk. -/
theorem isChunk_of_notMem {s : List Char} (h : ∀ c ∈ s, c ∉ ['`', '"', '[', '.']) : IsChunk s := by
  intro t
  induction s with
  | nil => rfl
  | cons c s ih =>
      have hc := h c (by simp)
      simp only [List.mem_cons, List.not_mem_nil, or_false, not_or] at hc
      rw [List.cons_append, segmentsFrom]
      simp only [hc, beq_iff_eq, or_self, if_false, Bool.or_eq_true]
      rw [ih fun d hd => h d (by simp [hd])]
      rfl

/-- A quoted name is a chunk. Dots and white space in the name are hidden by the marks. -/
theorem isChunk_quoted {mark : Char} (hmark : isNameQuote mark = true) {name : List Char}
    (h : mark ∉ name) : IsChunk (mark :: (name ++ [mark])) := by
  intro t
  -- Inside the marks everything goes into the segment, up to the mark that closes.
  have hinside : segmentsFrom (some mark) (name ++ ([mark] ++ t)) =
      (name ++ [mark]).foldr extendFirst (segmentsFrom none t) := by
    induction name with
    | nil => simp [segmentsFrom]
    | cons c name ih =>
        rw [List.mem_cons, not_or] at h
        have hc : (c == mark) = false := by simpa using Ne.symm h.1
        rw [List.cons_append, segmentsFrom]
        simp only [hc, Bool.false_eq_true, if_false]
        rw [ih h.2]
        rfl
  have hopen (s : List Char) : segmentsFrom none (mark :: s) =
      extendFirst mark (segmentsFrom (some mark) s) := if_pos hmark
  rw [List.cons_append, List.append_assoc, hopen, hinside]
  rfl

/-- A quoted name is one segment. -/
theorem segments_quoted {mark : Char} (hmark : isNameQuote mark = true) {name : List Char}
    (h : mark ∉ name) : segments (mark :: (name ++ [mark])) = [mark :: (name ++ [mark])] := by
  have hspace := (isNameQuote_facts hmark).1
  rw [segments, Text.trim_of_ends hspace hspace, (isChunk_quoted hmark h).segmentsFrom_eq]

/-- Where no quotation mark stands, none is taken off. -/
theorem dropWhile_isQuoteMark {s : List Char} (h : ∀ c ∈ s, isQuoteMark c = false) :
    s.dropWhile isQuoteMark = s := by
  cases s with
  | nil => rfl
  | cons c s => rw [List.dropWhile_cons_of_neg (by simp [h c (by simp)])]

/-- A name in which no quotation mark stands loses the marks around it and nothing else. Marks are
taken off as long as there are any, so the name must have none at its ends. -/
theorem bareName_quoted {mark : Char} (hmark : isNameQuote mark = true) {name : List Char}
    (h : ∀ c ∈ name, isQuoteMark c = false) : bareName (mark :: (name ++ [mark])) = name := by
  obtain ⟨hspace, hquote⟩ := isNameQuote_facts hmark
  -- Behind the first mark the name comes, or, if it is empty, the second mark.
  have hfront : (mark :: (name ++ [mark])).dropWhile isQuoteMark =
      if name = [] then [] else name ++ [mark] := by
    rw [List.dropWhile_cons_of_pos hquote]
    cases name with
    | nil => simp [hquote]
    | cons c name =>
        rw [if_neg (by simp), List.cons_append,
          List.dropWhile_cons_of_neg (by simp [h c (by simp)])]
  rw [bareName, Text.trim_of_ends hspace hspace, stripQuoteMarks, hfront]
  by_cases hname : name = []
  · rw [if_pos hname, hname]
    rfl
  · rw [if_neg hname, Text.dropEndWhile, List.reverse_append, List.reverse_singleton,
      List.singleton_append, List.dropWhile_cons_of_pos hquote,
      dropWhile_isQuoteMark (fun c hc => h c (List.mem_reverse.1 hc)), List.reverse_reverse]

/-- A name without white space and quotation marks loses nothing. -/
theorem bareName_unquoted {name : List Char}
    (h : ∀ c ∈ name, Text.isSpace c = false ∧ isQuoteMark c = false) : bareName name = name := by
  rw [bareName, Text.trim_eq_self fun c hc => (h c hc).1, stripQuoteMarks,
    dropWhile_isQuoteMark fun c hc => (h c hc).2, Text.dropEndWhile,
    dropWhile_isQuoteMark fun c hc => (h c (List.mem_reverse.1 hc)).2, List.reverse_reverse]

/-- Nothing is taken off a text that neither starts nor ends with a quotation mark. What stands
between its ends is not looked at. -/
theorem stripQuoteMarks_of_ends {c d : Char} (hc : isQuoteMark c = false)
    (hd : isQuoteMark d = false) (s : List Char) :
    stripQuoteMarks (c :: (s ++ [d])) = c :: (s ++ [d]) := by
  have hreverse : (c :: (s ++ [d])).reverse = d :: (c :: s).reverse := by simp
  rw [stripQuoteMarks, List.dropWhile_cons_of_neg (by simp [hc]), Text.dropEndWhile, hreverse,
    List.dropWhile_cons_of_neg (by simp [hd]), ← hreverse, List.reverse_reverse]

/-- Nothing is added to an identifier. -/
theorem mem_of_mem_bareName {s : List Char} {c : Char} (h : c ∈ bareName s) : c ∈ s := by
  have hend {p : Char → Bool} {t : List Char} (hc : c ∈ Text.dropEndWhile p t) : c ∈ t :=
    List.mem_reverse.1 ((List.dropWhile_sublist p).mem (List.mem_reverse.1 hc))
  exact Text.mem_of_mem_trim ((List.dropWhile_sublist _).mem (hend h))

/-- A name without quotation marks does not hold the mark it stands in. Both kinds of marks are
quotation marks. -/
theorem notMem_of_isQuoteMark {mark : Char} (hmark : isNameQuote mark = true) {name : List Char}
    (h : ∀ c ∈ name, isQuoteMark c = false) : mark ∉ name := by
  intro hmem
  have hnot := h mark hmem
  rw [(isNameQuote_facts hmark).2] at hnot
  cases hnot

/-- A quoted name is the name of its object. The same name without marks gives the same object, by
`objectName_unquoted`, if it has neither dots nor white space. -/
theorem objectName_quoted {mark : Char} (hmark : isNameQuote mark = true) {name : List Char}
    (h : ∀ c ∈ name, isQuoteMark c = false) :
    objectName (String.ofList (mark :: (name ++ [mark]))) = String.ofList name := by
  rw [objectName, String.toList_ofList, segments_quoted hmark (notMem_of_isQuoteMark hmark h)]
  exact congrArg String.ofList (bareName_quoted hmark h)

/-- An unquoted name without white space and dots is the name of its object. -/
theorem objectName_unquoted {name : List Char}
    (h : ∀ c ∈ name, Text.isSpace c = false ∧ isQuoteMark c = false ∧ c ≠ '.') :
    objectName (String.ofList name) = String.ofList name := by
  have hchunk : IsChunk name := isChunk_of_notMem fun c hc hmem => by
    obtain ⟨-, hquote, hdot⟩ := h c hc
    simp only [List.mem_cons, List.not_mem_nil, or_false] at hmem
    rcases hmem with rfl | rfl | rfl | rfl
    · exact absurd hquote (by decide)
    · exact absurd hquote (by decide)
    · exact absurd hquote (by decide)
    · exact hdot rfl
  rw [objectName, String.toList_ofList, segments, Text.trim_eq_self fun c hc => (h c hc).1,
    hchunk.segmentsFrom_eq]
  exact congrArg String.ofList (bareName_unquoted fun c hc => ⟨(h c hc).1, (h c hc).2.1⟩)

/-- A quoted name has no schema part. -/
theorem schemaPart_quoted {mark : Char} (hmark : isNameQuote mark = true) {name : List Char}
    (h : mark ∉ name) : schemaPart (String.ofList (mark :: (name ++ [mark]))) = none := by
  rw [schemaPart, String.toList_ofList, segments_quoted hmark h]
  rfl

/-- Parts are written in double quotes with dots between them. A mark in a part is not doubled,
which is why lemmas about the result exclude marks. -/
theorem toList_quoteParts (parts : List String) : (quoteParts parts).toList =
    Text.joinWith ['.'] (parts.map fun part => '"' :: (part.toList ++ ['"'])) := by
  rw [quoteParts, Text.toList_joinTexts, List.map_map]
  refine congrArg (Text.joinWith ['.']) (List.map_congr_left fun part _ => ?_)
  simp

/-- A single part is written in double quotes. -/
theorem quoteParts_singleton (name : String) :
    quoteParts [name] = String.ofList ('"' :: (name.toList ++ ['"'])) := by
  rw [← String.toList_inj, String.toList_ofList, toList_quoteParts, List.map_singleton,
    Text.joinWith_singleton]

/-! ### Names with dots -/

/-- Chunks with dots between them are the segments of a name. A dot between two of them ends the
first one. -/
theorem segmentsFrom_joinWith {xs : List (List Char)} (hne : xs ≠ []) (h : ∀ x ∈ xs, IsChunk x) :
    segmentsFrom none (Text.joinWith ['.'] xs) = xs := by
  induction xs with
  | nil => exact absurd rfl hne
  | cons x xs ih =>
      have hx := h x (by simp)
      cases xs with
      | nil => rw [Text.joinWith_singleton, hx.segmentsFrom_eq]
      | cons next more =>
          have hdot (s : List Char) : segmentsFrom none ('.' :: s) = [] :: segmentsFrom none s :=
            rfl
          rw [Text.joinWith_cons_cons, hx, List.singleton_append, hdot,
            ih (by simp) fun y hy => h y (by simp [hy]), foldr_extendFirst, List.append_nil]

section Joined

variable {α : Type} {as : List α} {chunk : α → List Char} {text : α → String} {name : List Char}

section Segments

variable (hsegments : segments name = as.map chunk)
  (hbare : ∀ a ∈ as, bareName (chunk a) = (text a).toList)
include hsegments hbare

/-- The last segment is that of the object. How the name is spelled does not matter, as long as it
has these segments and each of them is the bare name that goes with it. -/
theorem objectName_of_segments (hne : as ≠ []) :
    objectName (String.ofList name) = (as.map text).getLast?.getD "" := by
  rw [objectName, String.toList_ofList, hsegments, List.getLast?_map, List.getLast?_map,
    List.getLast?_eq_some_getLast hne]
  exact (congrArg String.ofList (hbare _ (List.getLast_mem hne))).trans String.ofList_toList

/-- The segment in front of it is the schema. -/
theorem schemaPart_of_segments :
    schemaPart (String.ofList name) = (as.map text).reverse[1]? := by
  rw [schemaPart, String.toList_ofList, hsegments, ← List.map_reverse, ← List.map_reverse]
  match hreverse : as.reverse with
  | [] => rfl
  | [_] => rfl
  | _ :: a :: _ =>
      have ha : a ∈ as := by rw [← List.mem_reverse, hreverse]; simp
      exact congrArg some ((congrArg String.ofList (hbare a ha)).trans String.ofList_toList)

end Segments

variable (hne : as ≠ []) (hchunk : ∀ a ∈ as, IsChunk (chunk a))
include hne hchunk

/-- The segments of a name that is written with dots and has no white space at its ends. The name as
a whole is trimmed before it is cut, so that white space at its ends would be lost. -/
theorem segments_joinWith_of_trim (htrim : Text.trim (Text.joinWith ['.'] (as.map chunk)) =
      Text.joinWith ['.'] (as.map chunk)) :
    segments (Text.joinWith ['.'] (as.map chunk)) = as.map chunk := by
  rw [segments, htrim, segmentsFrom_joinWith (by simpa using hne)]
  intro x hx
  obtain ⟨a, ha, rfl⟩ := List.mem_map.1 hx
  exact hchunk a ha

variable (hspace : ∀ a ∈ as, ∀ c ∈ chunk a, Text.isSpace c = false)
include hspace

/-- The segments of a name that is written with dots. No segment holds white space, so there is none
at the ends. -/
theorem segments_joinWith : segments (Text.joinWith ['.'] (as.map chunk)) = as.map chunk := by
  refine segments_joinWith_of_trim hne hchunk (Text.trim_eq_self fun c hc => ?_)
  rcases Text.mem_joinWith hc with hdot | ⟨x, hx, hc⟩
  · obtain rfl := List.mem_singleton.1 hdot
    decide
  · obtain ⟨a, ha, rfl⟩ := List.mem_map.1 hx
    exact hspace a ha c hc

variable (hbare : ∀ a ∈ as, bareName (chunk a) = (text a).toList)
include hbare

/-- The last name is that of the object. -/
theorem objectName_joinWith : objectName (String.ofList (Text.joinWith ['.'] (as.map chunk))) =
    (as.map text).getLast?.getD "" :=
  objectName_of_segments (segments_joinWith hne hchunk hspace) hbare hne

/-- The name in front of it is the schema. -/
theorem schemaPart_joinWith : schemaPart (String.ofList (Text.joinWith ['.'] (as.map chunk))) =
    (as.map text).reverse[1]? :=
  schemaPart_of_segments (segments_joinWith hne hchunk hspace) hbare

end Joined

/-! ### Names that are quoted again

`quoteParts` puts every part in double quotes, so that a part may hold dots and white space, and may
be empty. Unlike for names without white space, nothing is trimmed off the name as a whole because
a quotation mark stands at each of its ends. -/

/-- A name in double quotes starts and ends with one. So it is neither empty nor trimmed at its
ends. -/
theorem exists_quoteParts {parts : List String} (hne : parts ≠ []) :
    ∃ inside, (quoteParts parts).toList = '"' :: (inside ++ ['"']) := by
  rw [toList_quoteParts]
  induction parts with
  | nil => exact absurd rfl hne
  | cons part parts ih =>
      cases parts with
      | nil => exact ⟨part.toList, by rw [List.map_singleton, Text.joinWith_singleton]⟩
      | cons next more =>
          obtain ⟨inside, hinside⟩ := ih (by simp)
          refine ⟨part.toList ++ ['"', '.', '"'] ++ inside, ?_⟩
          rw [List.map_cons] at hinside ⊢
          rw [List.map_cons, Text.joinWith_cons_cons, hinside]
          simp

section Requoted

variable {parts : List String} (hne : parts ≠ [])
include hne

/-- The segments of a name in double quotes are its parts in double quotes. Only double quotes are
excluded here, as any other mark in a part is hidden by them. -/
theorem segments_quoteParts (h : ∀ part ∈ parts, '"' ∉ part.toList) :
    segments (quoteParts parts).toList = parts.map fun part => '"' :: (part.toList ++ ['"']) := by
  have hspace : Text.isSpace '"' = false := by decide
  have htrim : Text.trim (quoteParts parts).toList = (quoteParts parts).toList := by
    obtain ⟨inside, hinside⟩ := exists_quoteParts hne
    rw [hinside, Text.trim_of_ends hspace hspace]
  rw [toList_quoteParts] at htrim ⊢
  exact segments_joinWith_of_trim hne (fun part hpart => isChunk_quoted (by decide) (h part hpart))
    htrim

variable (h : ∀ part ∈ parts, ∀ c ∈ part.toList, isQuoteMark c = false)
include h

/-- The last part is the name of the object. Here all quotation marks are excluded, since those at
the ends of a part would be taken off with the ones around it. -/
theorem objectName_quoteParts : objectName (quoteParts parts) = parts.getLast hne := by
  have hmark : ∀ part ∈ parts, '"' ∉ part.toList := fun part hpart =>
    notMem_of_isQuoteMark (by decide) (h part hpart)
  have hname : objectName (String.ofList (quoteParts parts).toList) =
      (parts.map id).getLast?.getD "" :=
    objectName_of_segments (segments_quoteParts hne hmark)
      (fun part hpart => bareName_quoted (by decide) (h part hpart)) hne
  rwa [String.ofList_toList, List.map_id, List.getLast?_eq_some_getLast hne] at hname

/-- The part in front of it is the schema. A single part has no schema, and of three or more only
the last but one counts. -/
theorem schemaPart_quoteParts : schemaPart (quoteParts parts) = parts.reverse[1]? := by
  have hmark : ∀ part ∈ parts, '"' ∉ part.toList := fun part hpart =>
    notMem_of_isQuoteMark (by decide) (h part hpart)
  have hschema : schemaPart (String.ofList (quoteParts parts).toList) =
      (parts.map id).reverse[1]? :=
    schemaPart_of_segments (segments_quoteParts hne hmark)
      fun part hpart => bareName_quoted (by decide) (h part hpart)
  rwa [String.ofList_toList, List.map_id] at hschema

end Requoted

end EntityDiagram.Sql
