import EntityDiagram.Proofs.Sql.ColumnType
import EntityDiagram.Proofs.Text.Casing
import EntityDiagram.Schema.Basic

/-!
# `EntityDiagram.Proofs.Sql.NormalType`: read types are in normal form

Whatever text declares a type, `ColumnType.ofText` reads it: parentheses may be missing or stay
open, arguments may be empty, and any words may stand before and behind them. What it makes of the
text is put together from words and arguments of a kind (`IsBaseWord`, `IsArgument`) on which the
reading changes nothing: `exists_ofText_eq` and `ofText_dataType_ofParts`. So the text of the type
is read as the type itself, and a column of the type shows this text: `ofText_dataType_ofText`.

The reading of a text has many cases, and a second reading would square them. The two predicates cut
that short: a base word is a word that the reader leaves as it is, and an argument is one that it
gives back in the same place, whether it was a number or not. `exists_ofText_eq` says that every
type that is read is made of such parts, and `ofText_dataType_ofParts` reads such parts back, with
no other text in sight.

Length, precision and scale are among the fields: a type with one number has a length, and one with
two has a precision and a scale, in the first reading as in the second.
-/

set_option autoImplicit false

namespace EntityDiagram

/-- The column with this type. -/
def Column.withType (c : Column) (t : Sql.ColumnType) : Column :=
  { c with dataType := t.dataType, baseType := t.baseType, length := t.length
           precision := t.precision, scale := t.scale }

namespace Sql.ColumnType

open Text (trim words splitWhere joinWith isSpace)

/-! ### Bases -/

/-- A word of the base of a type, as `baseOf` leaves it. These are the conditions under which it is
left alone when it is read again. -/
structure IsBaseWord (w : List Char) : Prop where
  ne_nil : w ≠ []
  isSpace : ∀ c ∈ w, isSpace c = false
  open_notMem : '(' ∉ w
  upper : Text.upper w = w
  sign_notMem : String.ofList w ∉ signWords

/-- Before a parenthesis, the base of a type is made of such words. Putting a word into upper case
makes neither white space nor a parenthesis, and does so once and for all. -/
theorem exists_baseOf_eq {s : List Char} (hs : '(' ∉ s) :
    ∃ ws, baseOf s = joinWith [' '] ws ∧ ∀ w ∈ ws, IsBaseWord w := by
  -- The words of the base are those of the text, in upper case and without the words for the sign.
  refine ⟨_, rfl, fun w hw => ?_⟩
  obtain ⟨hw, hsign⟩ := List.mem_filter.1 hw
  obtain ⟨v, hv, rfl⟩ := List.mem_map.1 hw
  obtain ⟨hne, hchars⟩ := Text.mem_words hv
  refine ⟨?_, fun d hd => ?_, fun hopen => ?_, Text.upper_upper v, by simpa using hsign⟩
  · cases v with
    | nil => exact absurd rfl hne
    | cons c v =>
        rw [Text.upper, List.flatMap_cons]
        simp [Text.upperChar_ne_nil c]
  · obtain ⟨c, hc, hd⟩ := List.mem_flatMap.1 hd
    exact (Text.mem_upperChar hd).2.1 (hchars c hc).2
  · obtain ⟨c, hc, hd⟩ := List.mem_flatMap.1 hopen
    refine (Text.mem_upperChar hd).2.2 ?_ rfl
    rintro rfl
    exact hs (hchars _ hc).1

variable {ws : List (List Char)}

/-- The base of such words is the words. They are found again as words, and each of them stays as it
is. -/
theorem baseOf_joinWith (h : ∀ w ∈ ws, IsBaseWord w) :
    baseOf (joinWith [' '] ws) = joinWith [' '] ws := by
  have hupper : ws.map Text.upper = ws :=
    (List.map_congr_left fun w hw => (h w hw).upper).trans (List.map_id ws)
  rw [baseOf, Text.words_joinWith fun w hw => ⟨(h w hw).ne_nil, (h w hw).isSpace⟩, hupper,
    List.filter_eq_self.2 fun w hw => by simpa using (h w hw).sign_notMem]

/-- There is no parenthesis before the arguments. -/
theorem open_notMem_joinWith (h : ∀ w ∈ ws, IsBaseWord w) : '(' ∉ joinWith [' '] ws := by
  intro hmem
  rcases Text.mem_joinWith hmem with hspace | ⟨w, hw, hopen⟩
  · simp at hspace
  · exact (h w hw).open_notMem hopen

/-- A base does not start with white space. The empty base has no first character. -/
theorem isSpace_head?_joinWith (h : ∀ w ∈ ws, IsBaseWord w) :
    ∀ c ∈ (joinWith [' '] ws).head?, isSpace c = false := by
  cases ws with
  | nil => simp [joinWith]
  | cons w ws =>
      have hw := h w (by simp)
      obtain ⟨d, w, rfl⟩ := List.exists_cons_of_ne_nil hw.ne_nil
      intro c hc
      have hcd : d = c := by
        cases ws <;> simpa [joinWith] using hc
      exact hw.isSpace c (by simp [hcd])

/-- Nor does it end with white space. -/
theorem isSpace_getLast?_joinWith (h : ∀ w ∈ ws, IsBaseWord w) :
    ∀ c ∈ (joinWith [' '] ws).getLast?, isSpace c = false := by
  induction ws with
  | nil => simp [joinWith]
  | cons w ws ih =>
      obtain ⟨hw, hws⟩ := List.forall_mem_cons.1 h
      cases ws with
      | nil =>
          rw [Text.joinWith_singleton]
          exact fun c hc => hw.isSpace c (List.mem_of_getLast? hc)
      | cons next more =>
          intro c hc
          refine ih hws c ?_
          -- There is a word behind the blank, so the last character is one of its own.
          have hne : joinWith [' '] (next :: more) ≠ [] := by
            have hnext := (hws next (by simp)).ne_nil
            cases more <;> simp [joinWith, hnext]
          rw [Text.joinWith_cons_cons, List.getLast?_append, List.getLast?_append,
            List.getLast?_eq_some_getLast hne] at hc
          rw [List.getLast?_eq_some_getLast hne]
          exact hc

/-! ### Arguments -/

/-- An argument of a type, as `argumentsOf` leaves it. An argument may hold white space inside, and
parentheses that open. -/
structure IsArgument (a : List Char) : Prop where
  ne_nil : a ≠ []
  trim_eq : trim a = a
  comma_notMem : ',' ∉ a
  close_notMem : ')' ∉ a

/-- Up to a closing parenthesis, what is taken for the arguments are such. Blank ones are left out,
and commas are where they were cut. -/
theorem isArgument_of_mem {inner a : List Char} (hinner : ')' ∉ inner)
    (ha : a ∈ argumentsOf inner) : IsArgument a := by
  obtain ⟨ha, hne⟩ := List.mem_filter.1 ha
  obtain ⟨piece, hpiece, rfl⟩ := List.mem_map.1 ha
  have hchars := Text.mem_of_mem_splitWhere hpiece
  refine ⟨by simpa using hne, Text.trim_trim piece, fun hcomma => ?_, fun hclose => ?_⟩
  · have hsep := (hchars _ (Text.mem_of_mem_trim hcomma)).2
    simp at hsep
  · exact hinner (hchars _ (Text.mem_of_mem_trim hclose)).1

variable {as : List (List Char)}

/-- The arguments among joined arguments are these. No argument is blank, so none is left out. -/
theorem argumentsOf_joinWith (h : ∀ a ∈ as, IsArgument a) :
    argumentsOf (joinWith [','] as) = as := by
  by_cases hne : as = []
  · subst hne
    exact argumentsOf_nil
  · have htrim : as.map trim = as :=
      (List.map_congr_left fun a ha => (h a ha).trim_eq).trans (List.map_id as)
    rw [argumentsOf, Text.splitWhere_joinWith hne fun a ha => (h a ha).comma_notMem, htrim,
      List.filter_eq_self.2 fun a ha => by simpa using (h a ha).ne_nil]

/-! ### Types -/

/-- The text of a type without arguments is its base. -/
theorem toList_dataType_ofParts_nil (base : List Char) :
    (ofParts base []).dataType.toList = base := by
  simp [ofParts]

/-- The text of a type with arguments is the base with the arguments in parentheses. There is no
white space in front of the parenthesis. -/
theorem toList_dataType_ofParts (base : List Char) (hne : as ≠ []) :
    (ofParts base as).dataType.toList = base ++ '(' :: joinWith [','] as ++ [')'] := by
  rw [ofParts, if_neg (by simpa using hne)]
  split <;> simp

/-- A type is read from its text as it was put together from its parts. Its two ends are found again
by the first parenthesis that opens and the first one that closes. -/
theorem ofText_dataType_ofParts (hws : ∀ w ∈ ws, IsBaseWord w) (has : ∀ a ∈ as, IsArgument a) :
    ofText (ofParts (joinWith [' '] ws) as).dataType.toList = ofParts (joinWith [' '] ws) as := by
  have hfirst := isSpace_head?_joinWith hws
  have hopen : ∀ c ∈ joinWith [' '] ws, c ≠ '(' := by
    rintro c hc rfl
    exact open_notMem_joinWith hws hc
  by_cases hne : as = []
  · subst hne
    have hopen' : ∀ c ∈ joinWith [' '] ws, (c != '(') = true := by simpa using hopen
    rw [toList_dataType_ofParts_nil, ofText,
      Text.trim_eq_self_of_ends hfirst (isSpace_getLast?_joinWith hws),
      List.takeWhile_eq_self_iff.2 hopen', List.dropWhile_eq_nil_iff.2 hopen',
      baseOf_joinWith hws]
    exact congrArg _ argumentsOf_nil
  · have hclose : ∀ c ∈ joinWith [','] as, c ≠ ')' := by
      rintro c hc rfl
      rcases Text.mem_joinWith hc with hcomma | ⟨a, ha, hclose⟩
      · simp at hcomma
      · exact (has a ha).close_notMem hclose
    -- No white space stands at either end of the text.
    have htrim : trim (joinWith [' '] ws ++ '(' :: joinWith [','] as ++ [')']) =
        joinWith [' '] ws ++ '(' :: joinWith [','] as ++ [')'] := by
      refine Text.trim_eq_self_of_ends (fun c hc => ?_) fun c hc => ?_
      · cases hbase : joinWith [' '] ws with
        | nil =>
            rw [hbase] at hc
            obtain rfl : '(' = c := Option.some.inj hc
            decide
        | cons d base =>
            rw [hbase] at hc hfirst
            exact hfirst c hc
      · rw [List.getLast?_concat] at hc
        obtain rfl : ')' = c := Option.some.inj hc
        decide
    obtain ⟨hbase, hinner⟩ := takeWhile_dropWhile_parens hopen hclose
    rw [toList_dataType_ofParts _ hne, ofText, htrim, hbase, hinner, baseOf_joinWith hws,
      argumentsOf_joinWith has]

/-- What a column shows of such a type is the text of the type. A column adds its parameters to the
type only where the text does not show them yet. -/
theorem fullType_withType_ofParts {base : List Char} (hbase : '(' ∉ base) (c : Column) :
    (c.withType (ofParts base as)).fullType = (ofParts base as).dataType := by
  by_cases hne : as = []
  · subst hne
    rw [Column.fullType]
    simp [Column.withType, ofParts, hbase]
  · have hcontains : (ofParts base as).dataType.toList.contains '(' = true := by
      rw [toList_dataType_ofParts base hne]
      simp
    rw [Column.fullType]
    exact if_pos hcontains

/-- What is declared is read as a type in its parts, which are in normal form. Whatever is missing
or too much in the text is gone by then. -/
theorem exists_ofText_eq (declared : List Char) : ∃ ws as,
    ofText declared = ofParts (joinWith [' '] ws) as ∧ (∀ w ∈ ws, IsBaseWord w) ∧
      ∀ a ∈ as, IsArgument a := by
  obtain ⟨ws, hws, hword⟩ := exists_baseOf_eq (s := (trim declared).takeWhile (· != '('))
    fun hmem => by simpa using List.mem_takeWhile_imp hmem
  refine ⟨ws, _, congrArg₂ ofParts hws rfl, hword, fun a ha => isArgument_of_mem ?_ ha⟩
  exact fun hmem => by simpa using List.mem_takeWhile_imp hmem

/-- **A type that was read is in normal form**: whatever text declares it, its own text is read as
the same type with the same parameters, and this text is what a column of the type shows. -/
theorem ofText_dataType_ofText (declared : List Char) :
    ofText (ofText declared).dataType.toList = ofText declared ∧
      ∀ c : Column, (c.withType (ofText declared)).fullType = (ofText declared).dataType := by
  obtain ⟨ws, as, heq, hws, has⟩ := exists_ofText_eq declared
  rw [heq]
  exact ⟨ofText_dataType_ofParts hws has, fullType_withType_ofParts (open_notMem_joinWith hws)⟩

-- Neither the comma too many nor the missing parenthesis nor the sign is left in the normal form.
example : ofText "Decimal unsigned ( 10,, 2".toList =
    { dataType := "DECIMAL(10,2)", baseType := "DECIMAL", precision := some 10
      scale := some 2 } := by decide +kernel

end Sql.ColumnType

end EntityDiagram
