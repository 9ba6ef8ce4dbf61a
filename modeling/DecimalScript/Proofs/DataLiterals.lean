import DecimalScript.Proofs.Data
import DecimalScript.Proofs.PlainNotation
import DecimalScript.Proofs.RoundTrip

/-!
# Literals of data

All data can be written as a literal: numbers in plain notation, with an operator for the sign,
strings quoted, and arrays and dictionaries around the literals of what they hold. The text of data
is the listing of this literal.

- `Heap.literal`: the literal of data.
- `Heap.literal_eq_of_alike`: data of one shape have one literal.
- `Display.nested_eq_text`: the text of data inside a container is the listing of its literal.
- `Heap.spelled_literal`: the numbers of the literal read back.
-/

namespace DecimalScript

/-! ### Literals -/

/-- The literal of a number: plain notation, and an operator for the sign. -/
def Decimal.literal (d : Decimal) : Expr :=
  let magnitude : Expr := .number .nowhere d.abs.writtenOut d.abs.plain
  if d.negative then .unary .nowhere .negate magnitude else magnitude

/-- The literal of data of at most a depth. -/
def Heap.literal (heap : Heap) : (depth : Nat) → Value → Expr
  | _ + 1, .number d => d.literal
  | _ + 1, .string s => .string .nowhere s
  | _ + 1, .boolean b => .boolean .nowhere b
  | depth + 1, .array ref => .array .nowhere ((heap.array ref).toList.map (heap.literal depth))
  | depth + 1, .dictionary ref =>
    .dictionary .nowhere ((heap.dictionary ref).entries.map fun entry =>
      .mk (heap.literal depth entry.1) (heap.literal depth entry.2))
  | _, _ => .boolean .nowhere false

/-- Writing a number out keeps its sign, that of zero included. -/
theorem Decimal.negative_writtenOut (d : Decimal) : d.writtenOut.negative = d.negative := by
  unfold writtenOut
  split <;> rfl

theorem Decimal.abs_writtenOut (d : Decimal) : d.writtenOut.abs = d.abs.writtenOut := by
  unfold writtenOut abs
  dsimp only
  split <;> rfl

/-- A number that is written out is written out as it is. -/
theorem Decimal.writtenOut_writtenOut (d : Decimal) : d.writtenOut.writtenOut = d.writtenOut := by
  by_cases h : d.exponent < 0
  · have hd : d.writtenOut = d := if_pos h
    rw [hd, hd]
  · have hd : d.writtenOut = ⟨d.negative, d.coefficient * 10 ^ d.exponent.toNat, 0⟩ := if_neg h
    rw [hd]
    simp [writtenOut]

/-- A number and its written form have one literal. -/
theorem Decimal.literal_writtenOut (d : Decimal) : d.writtenOut.literal = d.literal := by
  unfold literal
  rw [negative_writtenOut, abs_writtenOut, writtenOut_writtenOut, plain_writtenOut]

/-- Data of one shape have one literal, if their numbers differ at most in being written out. -/
theorem Heap.literal_eq_of_alike {heap heap' : Heap} : ∀ {n : Nat} {v w : Value},
    Alike (fun d d' => d' = d.writtenOut) heap heap' n v w → heap'.literal n w = heap.literal n v
  | 0, _, _, h => h.elim
  | n + 1, _, _, h => by
    cases h with
    | number d d' hd =>
      subst hd
      exact d.literal_writtenOut
    | string s => rfl
    | boolean b => rfl
    | array ref ref' hheld =>
      exact congrArg (Expr.array .nowhere)
        (map_eq_map_of_forall₂ hheld fun _ _ => literal_eq_of_alike)
    | dictionary ref ref' hheld =>
      refine congrArg (Expr.dictionary .nowhere) (map_eq_map_of_forall₂ hheld fun _ _ hentry => ?_)
      rw [literal_eq_of_alike hentry.1, literal_eq_of_alike hentry.2]

/-! ### Their text -/

namespace Listing

theorem text_cons (piece : Piece) (pieces : List Piece) :
    text (piece :: pieces) = piece.text ++ text pieces :=
  String.join_cons

/-- The text of pieces in a row is the row of their texts. -/
theorem text_append (pieces more : List Piece) :
    text (pieces ++ more) = text pieces ++ text more := by
  unfold text
  rw [List.map_append, String.join_append]

theorem text_singleton (piece : Piece) : text [piece] = piece.text := by
  rw [text_cons]
  exact String.append_empty

/-- Pieces between two others. -/
theorem text_between (first last : Piece) (pieces : List Piece) :
    text (first :: pieces ++ [last]) = first.text ++ text pieces ++ last.text := by
  rw [List.cons_append, text_cons, text_append, text_singleton, String.append_assoc]

/-- Items between commas are joined by a comma and a blank, as the display joins them. -/
theorem text_commaSeparated :
    ∀ items : List (List Piece), text (commaSeparated items) = ", ".intercalate (items.map text)
  | [] => rfl
  | [item] => String.intercalate_singleton.symm
  | item :: next :: items => by
    have hrest := text_commaSeparated (next :: items)
    rw [List.map_cons] at hrest
    have hcomma (later : String) :
        (mark .comma).text ++ (Piece.blank.text ++ later) = ", " ++ later :=
      String.append_assoc.symm
    rw [commaSeparated, text_append, text_cons, text_cons, hrest, hcomma, List.map_cons,
      List.map_cons, String.intercalate_cons_cons, String.append_assoc]
    exact List.cons_ne_nil _ _

theorem ofExprs_eq_map (level : Nat) (es : List Expr) :
    ofExprs level es = es.map (ofExpr level) := by
  induction es with
  | nil => rfl
  | cons e es ih => exact congrArg (ofExpr level e :: ·) ih

theorem ofEntries_eq_map (level : Nat) (es : List Entry) :
    ofEntries level es = es.map (ofEntry level) := by
  induction es with
  | nil => rfl
  | cons e es ih => exact congrArg (ofEntry level e :: ·) ih

/-- The literal of a number is printed like the number is displayed. -/
theorem text_literal (level : Nat) (d : Decimal) : text (ofExpr level d.literal) = d.plain := by
  rw [d.plain_eq_abs]
  unfold Decimal.literal Decimal.signText
  cases d.negative <;> rfl

/-- An array literal is printed like an array is displayed. -/
theorem text_array (level : Nat) (span : Span) (es : List Expr) :
    text (ofExpr level (.array span es)) =
      Display.bracketed (es.map fun e => text (ofExpr level e)) := by
  rw [ofExpr, text_between, text_commaSeparated, ofExprs_eq_map, List.map_map]
  rfl

theorem text_entry (level : Nat) (entry : Entry) :
    text (ofEntry level entry) =
      text (ofExpr level entry.key) ++ ": " ++ text (ofExpr level entry.value) := by
  cases entry with
  | mk key value =>
    rw [ofEntry, text_append, text_cons, text_cons, String.append_assoc]
    exact congrArg _ String.append_assoc.symm

/-- A dictionary literal is printed like a dictionary is displayed. -/
theorem text_dictionary (level : Nat) (span : Span) (es : List Entry) :
    text (ofExpr level (.dictionary span es)) =
      Display.braced (es.map fun e => (text (ofExpr level e.key), text (ofExpr level e.value))) := by
  have htexts : (ofEntries level es).map text = es.map fun e =>
      text (ofExpr level e.key) ++ ": " ++ text (ofExpr level e.value) := by
    rw [ofEntries_eq_map, List.map_map]
    exact List.map_congr_left fun e _ => text_entry level e
  rw [ofExpr, text_between, text_commaSeparated, htexts, Display.braced, List.map_map]
  rfl

end Listing

namespace Display

/-- Inside a container only strings are shown in another way, between quotes. -/
theorem nested_of_ne_string (inner : Value → String) {v : Value} (hkind : v.kind ≠ .string) :
    nested inner v = inner v := by
  cases v with
  | string s => exact absurd rfl hkind
  | _ => rfl

/-- An array beside the path shows its elements in order. -/
theorem within_array {heap : Heap} {depth : Nat} {path : List ContainerRef} {ref : ArrayRef}
    (hpath : path.contains (.array ref) = false) :
    within heap (depth + 1) path (.array ref) =
      bracketed ((heap.array ref).toList.map (nested (within heap depth (.array ref :: path)))) := by
  rw [within, hpath]
  rfl

/-- A dictionary beside the path shows its entries in order. -/
theorem within_dictionary {heap : Heap} {depth : Nat} {path : List ContainerRef}
    {ref : DictionaryRef} (hpath : path.contains (.dictionary ref) = false) :
    within heap (depth + 1) path (.dictionary ref) =
      braced ((heap.dictionary ref).entries.map fun entry =>
        (nested (within heap depth (.dictionary ref :: path)) entry.1,
          nested (within heap depth (.dictionary ref :: path)) entry.2)) := by
  rw [within, hpath]
  rfl

/-- The text of data inside a container is the listing of its literal. -/
theorem nested_eq_text {heap : Heap} (level : Nat) :
    ∀ {n : Nat} {v : Value} {depth : Nat} {path : List ContainerRef},
      heap.IsData n v → Inside heap depth path v →
      nested (within heap depth path) v = Listing.text (Listing.ofExpr level (heap.literal n v))
  | 0, _, _, _, hdata, _ => hdata.elim
  | n + 1, _, depth, path, hdata, hinside => by
    -- `cases` takes the data apart, and `Inside.enter` asks for it whole.
    have hwhole := hdata
    cases hdata with
    | number d hsign =>
      have hplain : nested (within heap depth path) (.number d) = d.plain := by cases depth <;> rfl
      exact hplain.trans (Listing.text_literal level d).symm
    | string s => exact (Listing.text_singleton (.token (.string s) (Escape.quote s))).symm
    | boolean b =>
      have hword : nested (within heap depth path) (.boolean b) = if b then "true" else "false" := by
        cases depth <;> rfl
      rw [hword]
      cases b <;> rfl
    | array ref hhas hheld =>
      obtain ⟨below, rfl, hpath, hdeeper⟩ := hinside.enter (c := .array ref) hwhole
      rw [nested_of_ne_string _ Kind.noConfusion, within_array hpath, Heap.literal,
        Listing.text_array, List.map_map]
      exact congrArg bracketed
        (List.map_congr_left fun v hv => nested_eq_text level (hheld v hv) (hdeeper v hv))
    | dictionary ref hhas hdistinct hheld =>
      obtain ⟨below, rfl, hpath, hdeeper⟩ := hinside.enter (c := .dictionary ref) hwhole
      rw [nested_of_ne_string _ Kind.noConfusion, within_dictionary hpath, Heap.literal,
        Listing.text_dictionary, List.map_map]
      refine congrArg braced (List.map_congr_left fun entry hentry => ?_)
      obtain ⟨hkey, hvalue⟩ := Heap.mem_held hentry
      exact Prod.ext (nested_eq_text level (hheld entry hentry).1 (hdeeper _ hkey))
        (nested_eq_text level (hheld entry hentry).2 (hdeeper _ hvalue))

end Display

/-! ### Their spelling -/

/-- The digits of a number are a spelling that reads back. -/
theorem Decimal.spelled_literal (d : Decimal) : d.literal.Spelled := by
  unfold literal
  cases d.negative <;> exact d.reads_plain_abs

/-- The numbers of the literal of data read back. -/
theorem Heap.spelled_literal {heap : Heap} :
    ∀ {n : Nat} {v : Value}, heap.IsData n v → (heap.literal n v).Spelled
  | 0, _, hdata => hdata.elim
  | n + 1, _, hdata => by
    cases hdata with
    | number d hsign => exact d.spelled_literal
    | string s => trivial
    | boolean b => trivial
    | array ref hhas hheld =>
      refine spelledExprs_of_items fun e he => ?_
      obtain ⟨v, hv, rfl⟩ := List.mem_map.mp he
      exact spelled_literal (hheld v hv)
    | dictionary ref hhas hdistinct hheld =>
      refine spelledEntries_of_items fun e he => ?_
      obtain ⟨entry, hentry, rfl⟩ := List.mem_map.mp he
      obtain ⟨hkey, hvalue⟩ := hheld entry hentry
      exact ⟨spelled_literal hkey, spelled_literal hvalue, trivial⟩

end DecimalScript
