import DecimalScript.Proofs.LiteralEvaluation
import DecimalScript.Proofs.Pieces
import DecimalScript.Proofs.Placement

/-!
# Displayed data reads back

A script that assigns the text of data to a variable is the listing of a program that assigns their
literal. So it is read as this program, places apart, and what it makes are data of the same shape
with the same text.

- `Heap.write_of_alike`: data of one shape have one text.
- `Session.run_assignLiteral`: what the program makes.
- `displayed_data_reads_back`: both together, for the text.
-/

namespace DecimalScript

open Eval

/-! ### Texts of data -/

namespace Heap

variable {heap heap' : Heap} {maxDigits n : Nat} {v w : Value} {text : String}

theorem write_eq_ok : heap.write maxDigits v = .ok text ↔
    Display.writableWithin maxDigits heap (heap.containerCount + 1) [] v = true ∧
      heap.display v = text := by
  unfold write
  by_cases h : Display.writableWithin maxDigits heap (heap.containerCount + 1) [] v = true
  · rw [if_pos h, Except.ok.injEq, and_iff_right h]
  · rw [if_neg h]
    exact iff_of_false nofun fun hok => h hok.1

/-- The text of data that are no string is the listing of their literal. -/
theorem display_eq_text (level : Nat) (hdata : heap.IsData n v) (hkind : v.kind ≠ .string) :
    heap.display v = Listing.text (Listing.ofExpr level (heap.literal n v)) :=
  (Display.nested_of_ne_string _ hkind).symm.trans
    (Display.nested_eq_text level hdata (.top heap v))

theorem Alike.kind_eq {number : Decimal → Decimal → Prop}
    (h : Alike number heap heap' n v w) : w.kind = v.kind := by
  cases n with
  | zero => exact h.elim
  | succ n => cases h <;> rfl

/-- Data of one shape have one text, if their numbers differ at most in being written out. -/
theorem write_of_alike (halike : Alike (fun d d' => d' = d.writtenOut) heap heap' n v w)
    (hdata : heap.IsData n v) (hdata' : heap'.IsData n w) (hkind : v.kind ≠ .string)
    (htext : heap.write maxDigits v = .ok text) : heap'.write maxDigits w = .ok text := by
  obtain ⟨hwritable, hdisplay⟩ := write_eq_ok.mp htext
  refine write_eq_ok.mpr ⟨?_, ?_⟩
  · refine Display.writable_of_alike ?_ halike hdata hdata' (.top heap v) (.top heap' w) hwritable
    rintro d _ rfl hd
    exact Decimal.isWritable_writtenOut hd
  · rw [display_eq_text 0 hdata' (halike.kind_eq ▸ hkind), literal_eq_of_alike halike,
      ← display_eq_text 0 hdata hkind, hdisplay]

end Heap

/-! ### Assigning a literal -/

/-- The program that assigns the literal of data to a variable. -/
def Program.assignLiteral (name : String) (heap : Heap) (depth : Nat) (v : Value) : Program :=
  ⟨.nowhere, [.assignVariable .nowhere .nowhere name (heap.literal depth v)]⟩

/-- An assignment of a literal is listed as one line. -/
theorem Program.listing_assignLiteral (name : String) (heap : Heap) (depth : Nat) (v : Value) :
    (assignLiteral name heap depth v).listing =
      name ++ " = " ++ Listing.text (Listing.ofExpr 0 (heap.literal depth v)) ++ ";" := by
  have hpieces : (assignLiteral name heap depth v).pieces =
      [Listing.name name, .blank, Listing.mark .assign, .blank] ++
        Listing.ofExpr 0 (heap.literal depth v) ++ [Listing.mark .semicolon] :=
    List.append_nil _
  have hassigned : Listing.text [Listing.name name, .blank, Listing.mark .assign, .blank] =
      name ++ " = " := by
    rw [Listing.text_cons]
    rfl
  rw [listing, hpieces, Listing.text_append, Listing.text_append, hassigned, Listing.text_singleton]
  rfl

/-- Only functions are made in another way when they are assigned, and data is none. -/
theorem Step.assignedValue_literal {heap : Heap} {n : Nat} {v : Value} (hdata : heap.IsData n v)
    (limits : Limits) (eval : Expr → Eval Value) (name : String) :
    assignedValue limits eval name (heap.literal n v) = eval (heap.literal n v) := by
  cases n with
  | zero => exact hdata.elim
  | succ n =>
    cases hdata with
    | number d hsign =>
      rw [Heap.literal, Decimal.literal]
      split <;> rfl
    | _ => rfl

/-- What a run of the program makes. -/
theorem Session.run_assignLiteral (limits : Limits) {source : Heap} {depth budget : Nat} {v : Value}
    (hbudget : depth < budget) (hdata : source.IsData depth v) (name text : String) (m : Machine) :
    ∃ w later, run limits (budget + 1) (.assignLiteral name source depth v) text m =
        .done (some w) later ∧ Rereads source depth v m.heap later.heap w := by
  obtain ⟨w, heap, hrun, -, hw⟩ := builds_literal limits hbudget hdata m.heap m.resetFrames rfl
  let later := { m.resetFrames with heap := heap }.assign m.root.table name (some w)
  have hstmt : execStmt limits (budget + 1)
      (.assignVariable .nowhere .nowhere name (source.literal depth v)) m.resetFrames =
        .done (some w) later := by
    show (Step.assignedValue limits (evalExpr limits budget) name (source.literal depth v) >>=
      fun v => Step.assignVariable name v >>= fun _ => pure (some v)) m.resetFrames = _
    rw [Step.assignedValue_literal hdata, bind_done hrun]
    rfl
  have hprogram : evaluateProgram limits (budget + 1) (.assignLiteral name source depth v)
      m.resetFrames = .done (some w) later := by
    -- Nothing is about to return, so the list goes on to its end.
    show Eval.sequence _ none [_] m.resetFrames = _
    rw [sequence_cons, hstmt]
    rfl
  refine ⟨w, later.resetFrames, ?_, hw⟩
  unfold run
  rw [hprogram]
  rfl

/-! ### Reading back -/

theorem Outcome.Agree.exists_done {value : Option Value} {k : Machine} {y : Outcome (Option Value)}
    (h : (Outcome.done value k).Agree y) : ∃ k', y = .done value k' ∧ k.Agree k' := by
  cases h with
  | done _ hmachine htext => exact ⟨_, rfl, hmachine⟩

theorem Machine.Agree.grows {m m' : Machine} (h : m.Agree m') : m.heap.Grows m'.heap where
  has {c} hc := by
    cases c with
    | array ref => exact (congrArg (ref.index < ·.size) h.arrays).mpr hc
    | dictionary ref => exact (congrArg (ref.index < ·.size) h.dictionaries).mpr hc
  array _ := by
    unfold Heap.array
    rw [h.arrays]
  dictionary _ := by
    unfold Heap.dictionary
    rw [h.dictionaries]

/-- **Displayed data reads back as itself.** Let a value be data and no string: a number or a
boolean, or an array or a dictionary of data in which no container holds itself. On every machine
and under all limits, a run of `x = D;`, where `D` is the text of the value, does not fail and ends
within every budget that is larger than the depth of the value by two. It gives data of the same
shape: of the same kinds, with arrays of the same length and order, dictionaries with the same order
of entries, equal strings and booleans, and numbers of equal value. Their text is `D` again. -/
theorem displayed_data_reads_back {source : Heap} {depth : Nat} {v : Value}
    (hdata : source.IsData depth v) (hkind : v.kind ≠ .string) {maxDigits : Nat} {text : String}
    (htext : source.write maxDigits v = .ok text) (limits : Limits) {budget : Nat}
    (hbudget : depth + 2 ≤ budget) (file : Option String) (m : Machine) :
    ∃ w later, Session.runSource limits budget ("x = " ++ text ++ ";") file m =
        .done (some w) later ∧
      Heap.Alike (fun d d' => d'.toRat = d.toRat) source later.heap depth v w ∧
      later.heap.write maxDigits w = .ok text := by
  obtain ⟨budget, rfl⟩ : ∃ b, budget = b + 1 := ⟨budget - 1, by omega⟩
  let program := Program.assignLiteral "x" source depth v
  have hlisting : program.listing = "x = " ++ text ++ ";" := by
    obtain ⟨-, hdisplay⟩ := Heap.write_eq_ok.mp htext
    rw [Program.listing_assignLiteral, ← Heap.display_eq_text 0 hdata hkind, hdisplay]
    rfl
  have hspelled : SpelledStmts program.statements := by
    have hname : Lexer.Reads (.name "x") ['x'] :=
      Lexer.reads_name (by decide) (by decide) nofun (fun _ h => by simpa [Lexer.ends] using h)
        (by decide)
    exact ⟨⟨hname, Heap.spelled_literal hdata⟩, trivial⟩
  -- The text is read as the program with the literal, at other places.
  obtain ⟨again, hparse, hbare⟩ := Program.parse_listing_of_spelled hspelled file true
  rw [hlisting] at hparse
  have hbelow : depth < budget := Nat.lt_of_succ_le (Nat.le_of_succ_le_succ hbudget)
  obtain ⟨w, bareLater, hrun, hw⟩ := Session.run_assignLiteral limits hbelow hdata "x" "" m
  have hagree := Session.agree_run limits (budget + 1) hbare "" ("x = " ++ text ++ ";") (.refl m)
  rw [hrun] at hagree
  obtain ⟨later, hlater, hmachine⟩ := hagree.exists_done
  refine ⟨w, later, (congrFun (Session.runSource_of_parse hparse) m).trans hlater, ?_, ?_⟩
  · exact (hw.alike.mono Rereads.toRat_eq).grows hmachine.grows hw.data
  · rw [hmachine.write_eq]
    exact Heap.write_of_alike hw.alike hdata hw.data hkind htext

/-- An array with a negative number, a string with a quote, and a dictionary whose keys are a
boolean and an array; its first value has a positive exponent. -/
theorem displayed_data_reads_back_nested :
    let source : Heap :=
      { arrays := #[#[.number ⟨true, 150, -2⟩, .string "it's", .dictionary ⟨0⟩], #[]]
        dictionaries := #[⟨[(.boolean true, .number ⟨false, 1, 3⟩), (.array ⟨1⟩, .string "")]⟩] }
    let text := "[-1.50, 'it\\'s', \x7btrue: 1000, []: ''\x7d]"
    let start := Session.start { loadBuiltins := false } .standard
    source.IsData 3 (.array ⟨0⟩) ∧ (Value.array ⟨0⟩).kind ≠ .string ∧
      source.write 10 (.array ⟨0⟩) = .ok text ∧
      ∃ w later, Session.runSource {} 5 ("x = " ++ text ++ ";") none start =
          .done (some w) later ∧
        Heap.Alike (fun d d' => d'.toRat = d.toRat) source later.heap 3 (.array ⟨0⟩) w ∧
        later.heap.write 10 w = .ok text := by
  intro source text start
  have hdata : source.IsData 3 (.array ⟨0⟩) := by decide +kernel
  have hkind : (Value.array ⟨0⟩).kind ≠ .string := Kind.noConfusion
  have htext : source.write 10 (.array ⟨0⟩) = .ok text := by decide +kernel
  exact ⟨hdata, hkind, htext, displayed_data_reads_back hdata hkind htext {} (by decide) none start⟩

end DecimalScript
