import EntityDiagram.Proofs.Toml.Quoted
import EntityDiagram.Toml.Document
import EntityDiagram.Toml.Format

/-!
# `EntityDiagram.Proofs.Toml.Value`: values are read as they were written

The values of which settings consist are texts, truth values and arrays of texts (`IsSimple`).
`IsSimple.value_eq` reads such a value back from the text that is written for it. An array of more
than one item is written with an item on each line, so it is read in rounds: each takes an item,
the comma behind it and the line end with the blanks in front of the next item.

The two inductions are over the items of such an array: one over its text, and one over the rounds,
`rounds_itemsText`, in which the text in front of a round always starts with an item (`itemsText`).
The white space between items belongs to the round before, not to the one behind. An array of one
item is the exception, as it is written on one line and without a comma.

Records and numbers are values too, but no setting is one, so that they are not needed here: a
section is read line by line in `EntityDiagram.Proofs.Toml.Document`.
-/

set_option autoImplicit false

namespace EntityDiagram.Toml

open Scan

/-! ### How values are written -/

/-- A text is written in quotes, in whichever way its characters allow. -/
theorem valueText_text (s : String) : valueText (.text s) = Toml.quoted s := rfl

/-- The two truth values are written as words. -/
theorem toList_valueText_bool (b : Bool) : (valueText (.bool b)).toList =
    if b then ['t', 'r', 'u', 'e'] else ['f', 'a', 'l', 's', 'e'] := by
  cases b <;> exact String.toList_ofList

/-- An empty array is written as two brackets. -/
theorem toList_valueText_nil : (valueText (.array [])).toList = ['[', ']'] :=
  String.toList_ofList

/-- An array of one item stays on its line. -/
theorem toList_valueText_singleton (v : Toml) :
    (valueText (.array [v])).toList = '[' :: ((valueText v).toList ++ [']']) := by
  rw [show valueText (.array [v]) = "[" ++ valueText v ++ "]" from rfl]
  simp

/-- An array of two or more items is written with a line for each of them. -/
theorem toList_valueText_cons_cons (v w : Toml) (items : List Toml) :
    (valueText (.array (v :: w :: items))).toList =
      '[' :: '\n' :: ((itemLines (v :: w :: items)).toList ++ [']']) := by
  rw [show valueText (.array (v :: w :: items)) =
    "[\n" ++ itemLines (v :: w :: items) ++ "]" from rfl]
  simp

/-- No items take no lines. -/
theorem toList_itemLines_nil : (itemLines []).toList = [] := String.toList_ofList

/-- The line of an item is indented, and ends in a comma even if it is the last one. The reader
accepts the comma there. -/
theorem toList_itemLines_cons (v : Toml) (items : List Toml) :
    (itemLines (v :: items)).toList =
      [' ', ' ', ' ', ' '] ++
        ((valueText v).toList ++ ',' :: '\n' :: (itemLines items).toList) := by
  rw [show itemLines (v :: items) = "    " ++ valueText v ++ ",\n" ++ itemLines items from rfl]
  simp

/-- An array starts with a bracket. -/
theorem exists_valueText_array (items : List Toml) :
    ∃ more, (valueText (.array items)).toList = '[' :: more := by
  match items with
  | [] => exact ⟨_, toList_valueText_nil⟩
  | [v] => exact ⟨_, toList_valueText_singleton v⟩
  | v :: w :: items => exact ⟨_, toList_valueText_cons_cons v w items⟩

/-! ### Texts -/

/-- A string starts with a quote. -/
theorem quoted_eq_cons (s : String) :
    ∃ quote more, (Toml.quoted s).toList = quote :: more ∧ (quote = '"' ∨ quote = '\'') := by
  have hhead : (Toml.quoted s).toList.head? = some '"' ∨
      (Toml.quoted s).toList.head? = some '\'' := by
    rw [Toml.quoted]
    cases Quoting.of s.toList <;> simp
  rcases hhead with hhead | hhead
  · obtain ⟨more, htext⟩ := List.head?_eq_some_iff.1 hhead
    exact ⟨'"', more, htext, .inl rfl⟩
  · obtain ⟨more, htext⟩ := List.head?_eq_some_iff.1 hhead
    exact ⟨'\'', more, htext, .inr rfl⟩

/-- No blank, line end or comment is in front of a string. -/
theorem isInk_head?_quoted (s : String) (rest : List Char) :
    ∀ c ∈ ((Toml.quoted s).toList ++ rest).head?, isInk c = true := by
  obtain ⟨quote, more, htext, hquote⟩ := quoted_eq_cons s
  rw [htext, List.cons_append]
  refine forall_head?_cons ?_ _
  rcases hquote with rfl | rfl <;> decide

/-- A text is read at every depth. -/
theorem value_text (depth : Nat) (s : String) {rest : List Char} (hdouble : rest.head? ≠ some '"')
    (hsingle : rest.head? ≠ some '\'') :
    value depth ((Toml.quoted s).toList ++ rest) = some (.text s, rest) := by
  have hquoted := quoted_quoted s hdouble hsingle
  obtain ⟨quote, more, htext, hquote⟩ := quoted_eq_cons s
  rw [htext] at hquoted ⊢
  have hscalar : scalar (quote :: more ++ rest) = some (.text s, rest) := by
    rw [scalar, bind_eq (peek_eq _)]
    rcases hquote with rfl | rfl
    · show (Scan.quoted >>= fun s => pure (Toml.text s)) _ = _
      rw [bind_eq hquoted]
      rfl
    · show (Scan.quoted >>= fun s => pure (Toml.text s)) _ = _
      rw [bind_eq hquoted]
      rfl
  cases depth with
  | zero => exact hscalar
  | succ depth =>
      -- A text opens with a quote, so it is neither an array nor an inline table.
      have hbracket : (quote :: more ++ rest).head? ≠ some '[' ∧
          (quote :: more ++ rest).head? ≠ some '\x7b' := by
        rcases hquote with rfl | rfl <;> simp
      rw [value, bind_eq (literal_of_head (c := '[') rfl hbracket.1), if_neg (by simp),
        bind_eq (literal_of_head (c := '\x7b') rfl hbracket.2), if_neg (by simp), hscalar]

/-- One round of `arrayItems`. -/
def itemRound (item : Scan Toml) : Scan (Option Toml) := do
  if (← peek) == some ']' then return none
  else
    let v ← item
    gap
    if ← literal "," then gap else require ((← peek) == some ']')
    return some v

/-- The rounds end in front of the bracket, which is left for the array. -/
theorem itemRound_closing (item : Scan Toml) (rest : List Char) :
    itemRound item (']' :: rest) = some (none, ']' :: rest) := by
  rw [itemRound, bind_eq (peek_eq _)]
  rfl

/-- An array is read by its rounds, behind the white space after its opening bracket. -/
theorem arrayItems_eq {item : Scan Toml} {s s' rest : List Char} {items : List Toml}
    (hgap : gap s = some ((), s')) (hrounds : Rounds (itemRound item) s' items (']' :: rest)) :
    arrayItems item s = some (.array items, rest) := by
  show (gap >>= fun _ => many (itemRound item) >>= fun items => expect "]" >>= fun _ =>
    pure (Toml.array items)) s = _
  rw [bind_eq hgap, bind_eq hrounds.many_eq, bind_eq (expect_cons (c := ']') rfl rest)]
  rfl

/-- Items of an array, each on its line, from the first one on. The first item has been indented
already. -/
def itemsText (rest : List Char) : List String → List Char
  | [] => ']' :: rest
  | s :: items =>
    (Toml.quoted s).toList ++ ',' :: '\n' ::
      ((itemLines (items.map .text)).toList ++ ']' :: rest)

/-- What stands in front of an item, the line end and the indentation, is taken before its round
starts, so that each round starts at the item itself. -/
theorem gap_itemLines (items : List String) (rest : List Char) :
    gap ('\n' :: ((itemLines (items.map .text)).toList ++ ']' :: rest)) =
      some ((), itemsText rest items) := by
  cases items with
  | nil => exact gap_newline [] (by simp) (forall_head?_cons (by decide) rest)
  | cons s items =>
      have hink : ∀ c ∈ (itemsText rest (s :: items)).head?, isInk c = true :=
        isInk_head?_quoted s _
      have hgap := gap_newline [' ', ' ', ' ', ' '] (List.all_eq_true.1 rfl) hink
      rw [List.map_cons, toList_itemLines_cons, valueText_text]
      simpa [itemsText] using hgap

/-- A round reads its text and then looks for the comma. The character behind the text is known, so
that it is no part of the text and no white space. -/
theorem itemRound_text (depth : Nat) (s : String) {c : Char} (hc : c = ',' ∨ c = ']')
    (rest : List Char) :
    itemRound (value depth) ((Toml.quoted s).toList ++ c :: rest) = (do
      if ← literal "," then gap else require ((← peek) == some ']')
      return some (.text s) : Scan (Option Toml)) (c :: rest) := by
  have hpeek : (((Toml.quoted s).toList ++ c :: rest).head? == some ']') = false := by
    obtain ⟨quote, more, htext, hquote⟩ := quoted_eq_cons s
    rw [htext]
    rcases hquote with rfl | rfl <;> simp
  have hink : isInk c = true := by rcases hc with rfl | rfl <;> decide
  have hvalue : value depth ((Toml.quoted s).toList ++ c :: rest) = some (.text s, c :: rest) := by
    rcases hc with rfl | rfl <;> exact value_text depth s (by simp) (by simp)
  rw [itemRound, bind_eq (peek_eq _), hpeek, if_neg (by simp), bind_eq hvalue,
    bind_eq (gap_eq (forall_head?_cons hink rest))]

/-- An item is taken with the comma that follows it. -/
theorem itemRound_comma (depth : Nat) (s : String) (items : List String) (rest : List Char) :
    itemRound (value depth) (itemsText rest (s :: items)) =
      some (some (.text s), itemsText rest items) := by
  rw [itemsText, itemRound_text depth s (.inl rfl), bind_eq (literal_cons (c := ',') rfl _)]
  show (gap >>= _) _ = _
  rw [bind_eq (gap_itemLines items rest)]
  rfl

/-- The last item is taken if no comma follows it. -/
theorem itemRound_last (depth : Nat) (s : String) (rest : List Char) :
    itemRound (value depth) ((Toml.quoted s).toList ++ ']' :: rest) =
      some (some (.text s), ']' :: rest) := by
  rw [itemRound_text depth s (.inr rfl), bind_eq (literal_of_head (c := ',') rfl (by simp))]
  rfl

/-- The text from the first item on is no longer than the lines of the items. -/
theorem length_itemsText_le (items : List String) (rest : List Char) :
    (itemsText rest items).length ≤
      ((itemLines (items.map .text)).toList ++ ']' :: rest).length := by
  cases items with
  | nil => simp [itemsText, toList_itemLines_nil]
  | cons s items =>
      rw [List.map_cons, toList_itemLines_cons, valueText_text, itemsText]
      simp only [List.length_append, List.length_cons, List.length_nil]
      omega

/-- The items of an array are read in a round each, by induction on them. A round is shorter than
the text because it takes the comma at least. -/
theorem rounds_itemsText (depth : Nat) (items : List String) (rest : List Char) :
    Rounds (itemRound (value depth)) (itemsText rest items) (items.map .text) (']' :: rest) := by
  induction items with
  | nil => exact .done (itemRound_closing _ rest)
  | cons s items ih =>
      refine .more (itemRound_comma depth s items rest) ?_ ih
      have hle := length_itemsText_le items rest
      simp only [itemsText, List.length_append, List.length_cons] at hle ⊢
      omega

/-- An array of texts is read. -/
theorem value_texts (depth : Nat) (items : List String) (rest : List Char) :
    value (depth + 1) ((valueText (.array (items.map .text))).toList ++ rest) =
      some (.array (items.map .text), rest) := by
  have hopening {more : List Char} (h : arrayItems (value depth) more =
      some (.array (items.map .text), rest)) :
      value (depth + 1) ('[' :: more) = some (.array (items.map .text), rest) := by
    rw [value, bind_eq (literal_cons (c := '[') rfl _), if_pos rfl, h]
  -- Only an array that does not stay on its line has commas.
  match items with
  | [] =>
      have hgap : gap (']' :: rest) = some ((), ']' :: rest) :=
        gap_eq (forall_head?_cons (by decide) rest)
      have hclosing := arrayItems_eq hgap (.done (itemRound_closing (value depth) rest))
      rw [List.map_nil, toList_valueText_nil]
      exact hopening hclosing
  | [s] =>
      obtain ⟨quote, more, htext, -⟩ := quoted_eq_cons s
      have hlt : (']' :: rest).length < ((Toml.quoted s).toList ++ ']' :: rest).length := by
        rw [htext]
        simp only [List.length_append, List.length_cons]
        omega
      have hitems := arrayItems_eq (gap_eq (isInk_head?_quoted s _))
        (.more (itemRound_last depth s rest) hlt (.done (itemRound_closing _ rest)))
      rw [List.map_singleton, toList_valueText_singleton, valueText_text]
      simpa using hopening hitems
  | s :: t :: items =>
      have hitems := arrayItems_eq (gap_itemLines (s :: t :: items) rest)
        (rounds_itemsText depth (s :: t :: items) rest)
      have hread := hopening hitems
      rw [List.map_cons, List.map_cons, toList_valueText_cons_cons]
      simpa using hread

/-- A truth value is read. -/
theorem value_bool (depth : Nat) (b : Bool) (rest : List Char) :
    value (depth + 1) ((valueText (.bool b)).toList ++ rest) = some (.bool b, rest) := by
  have htrue (more : List Char) : expect "true" ('t' :: 'r' :: 'u' :: 'e' :: more) =
      some ((), more) := by
    simpa using expect_append "true" more
  have hfalse (more : List Char) : expect "false" ('f' :: 'a' :: 'l' :: 's' :: 'e' :: more) =
      some ((), more) := by
    simpa using expect_append "false" more
  -- The other values that start without a quote are arrays and tables.
  have hbracket : ((valueText (.bool b)).toList ++ rest).head? ≠ some '[' ∧
      ((valueText (.bool b)).toList ++ rest).head? ≠ some '\x7b' := by
    rw [toList_valueText_bool]
    cases b <;> simp
  rw [value, bind_eq (literal_of_head (c := '[') rfl hbracket.1), if_neg (by simp),
    bind_eq (literal_of_head (c := '\x7b') rfl hbracket.2), if_neg (by simp), scalar,
    bind_eq (peek_eq _), toList_valueText_bool]
  cases b with
  | true =>
      show (expect "true" >>= fun _ => pure (Toml.bool true)) ('t' :: 'r' :: 'u' :: 'e' :: rest) = _
      rw [bind_eq (htrue rest)]
      rfl
  | false =>
      show (expect "false" >>= fun _ => pure (Toml.bool false))
        ('f' :: 'a' :: 'l' :: 's' :: 'e' :: rest) = _
      rw [bind_eq (hfalse rest)]
      rfl

/-- A simple value is read up to the end of its line. -/
theorem IsSimple.value_eq {v : Toml} (h : IsSimple v) (depth : Nat) (rest : List Char) :
    value (depth + 1) ((valueText v).toList ++ '\n' :: rest) = some (v, '\n' :: rest) := by
  cases h with
  | text s =>
      rw [valueText_text]
      exact value_text (depth + 1) s (by simp) (by simp)
  | bool b => exact value_bool depth b _
  | texts items => exact value_texts depth items _

end EntityDiagram.Toml
