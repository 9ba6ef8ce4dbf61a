import DecimalScript.Proofs.GlobalNames
import DecimalScript.Proofs.ParsedPlaces
import DecimalScript.Proofs.Placement

/-!
# The line that a failure quotes

A session runs texts one after the other on one machine, and the functions that one text makes are
called by later ones. A run that fails does so at an expression, which stands in the text that is
run or, if the code of an older function fails, in an earlier one. The quoted line is always taken
from the text that is run. So it is the line of the expression if that stands there; otherwise it
may be any line, or none.

That the expression stands in one of the texts is seen by moving all other places away. Neither the
programs nor the functions that they make have any of those, so that a run beside the moved one is
the run itself, and the place at which it fails is one that was not moved.

- `Relocation.sparing`, `Outcome.Paired.stays`: what a run is that is beside itself.
- `Session.Input.stays_run`, `Session.stays_after`: the functions of a session stay, text by text.
- `failures_quote_the_text_that_is_run`: where a run fails, and which line it quotes.
-/

namespace DecimalScript

/-- The failure at the end, if there is one. -/
def Outcome.failure? {α : Type} : Outcome α → Option Failure
  | failed failure _ => some failure
  | done _ _ | exhausted _ => none

@[simp] theorem Outcome.failure?_mapMachine {α : Type} (f : Machine → Machine) (o : Outcome α) :
    (o.mapMachine f).failure? = o.failure? := by
  cases o <;> rfl

@[simp] theorem Outcome.failure?_mapFailure {α : Type} (f : Failure → Failure) (o : Outcome α) :
    (o.mapFailure f).failure? = o.failure?.map f := by
  cases o <;> rfl

/-! ### Places that are not moved -/

namespace Relocation

/-- Expressions go to another file, unless they are at one of the places. -/
def sparing (places : List Span) : Relocation where
  expr := fun span =>
    if span ∈ places then span else { span with file := if span.file = none then some "" else none }
  other := fun span => span

theorem sparing_expr_eq_self_iff {places : List Span} {span : Span} :
    (sparing places).expr span = span ↔ span ∈ places := by
  constructor
  · intro h
    by_contra hmem
    have hmoved : (sparing places).expr span =
        { span with file := if span.file = none then some "" else none } := if_neg hmem
    have hfile : (if span.file = none then some "" else none) = span.file :=
      congrArg Span.file (hmoved.symm.trans h)
    -- A file name becomes none, and none becomes one.
    split at hfile
    · rename_i hnone
      rw [hnone] at hfile
      cases hfile
    · rename_i hsome
      exact hsome hfile.symm
  · exact fun hmem => if_pos hmem

end Relocation

section Staying

variable {α : Type} {r : Relocation}

/-- Functions that are not made by a script have no places. -/
theorem Heap.relocate_of_native {heap : Heap} (h : ∀ f, Function.user f ∉ heap.functions) :
    heap.relocate r = heap := by
  have hfunctions : heap.functions.map (Function.relocate r) = heap.functions := by
    refine (Array.map_congr_left fun f hf => ?_).trans heap.functions.map_id
    cases f with
    | native f => rfl
    | user f => exact absurd hf (h f)
  unfold Heap.relocate
  rw [hfunctions]

/-- What ends beside itself ends with functions that stay, and fails at a place that stays. -/
theorem Outcome.Paired.stays {x o : Outcome α} (h : x.Paired (.moving r) o) (ho : o = x) :
    x.machine.heap.relocate r = x.machine.heap ∧
      ∀ failure, x.failure? = some failure →
        failure.sourceLine = none ∧ r.expr failure.span = failure.span := by
  cases h with
  | done a k log hlogs =>
    refine ⟨congrArg Machine.heap (Outcome.done.inj ho).2, fun failure h => ?_⟩
    cases h
  | failed fault span k log hfault hlogs =>
    obtain ⟨hfailure, hk⟩ := Outcome.failed.inj ho
    refine ⟨congrArg Machine.heap hk, fun failure h => ?_⟩
    obtain rfl := Option.some.inj h
    exact ⟨rfl, congrArg Failure.span hfailure⟩
  | exhausted k log hlogs =>
    refine ⟨congrArg Machine.heap (Outcome.exhausted.inj ho), fun failure h => ?_⟩
    cases h
  | escaped failure k o hescape => exact hescape.elim
  | outlasted houtlasts k o => exact houtlasts.elim

/-- A program whose expressions stay, on a machine whose functions stay, is beside itself. -/
theorem Session.paired_evaluateProgram_self (limits : Limits) (budget : Nat) {program : Program}
    {m : Machine} (hother : ∀ span, r.other span = span)
    (hprogram : ∀ span ∈ placesStmts program.statements, r.expr span = span)
    (hm : m.heap.relocate r = m.heap) :
    (Session.evaluateProgram limits budget program m).Paired (.moving r)
      (Session.evaluateProgram limits budget program m) := by
  have hbodies :=
    (Pairing.moving_sound r limits).bodies (.same budget) none program.statements m m.log trivial
  have hstatements : relocateStmts (Pairing.moving r).relocation program.statements =
      program.statements := relocateStmts_eq_self hother program.statements hprogram
  have hbeside : m.beside (Pairing.moving r).relocation m.log = m :=
    congrArg (fun heap => { m with heap }) hm
  rw [hstatements, hbeside] at hbodies
  exact hbodies

end Staying

/-! ### The texts of a session -/

namespace Session

/-- A text that a session runs, and its budget. -/
structure Input where
  source : String
  file : Option String := none
  budget : Nat

/-- Runs the text. -/
def Input.run (limits : Limits) (input : Input) : Eval (Option Value) :=
  runSource limits input.budget input.source input.file

/-- The places of the expressions in the text, if it can be read. -/
def Input.places (input : Input) : List Span :=
  match Program.parse input.source input.file with
  | .ok program => placesStmts program.statements
  | .error _ => []

/-- The machine behind some texts, run one after the other. -/
def after (limits : Limits) (start : Machine) (inputs : List Input) : Machine :=
  inputs.foldl (fun m input => (input.run limits m).machine) start

namespace Input

/-- The places of a text are those of its program. -/
theorem places_of_parse {input : Input} {program : Program}
    (h : Program.parse input.source input.file = .ok program) :
    input.places = placesStmts program.statements := by
  unfold places
  rw [h]

/-- An expression of a text stands in its file, on one of its lines. -/
theorem file_and_line_of_place {input : Input} {span : Span} (h : span ∈ input.places) :
    span.file = input.file ∧
      ∃ line, Text.lineAt? (Text.rows input.source) span.start.line = some line := by
  unfold places at h
  split at h
  · next program hparse =>
    obtain ⟨hfile, -, hline⟩ := Program.place_stands_in_text hparse h
    exact ⟨hfile, hline⟩
  · cases h

variable {limits : Limits} {input : Input} {places : List Span} {m : Machine}

/-- A run of a text keeps functions where they are, and quotes a line of its own where it fails. -/
theorem stays_run {program : Program}
    (hparse : Program.parse input.source input.file = .ok program)
    (hplaces : input.places ⊆ places)
    (hm : m.heap.relocate (.sparing places) = m.heap) :
    (input.run limits m).machine.heap.relocate (.sparing places) =
        (input.run limits m).machine.heap ∧
      ∀ failure, (input.run limits m).failure? = some failure →
        failure.span ∈ places ∧
          failure.sourceLine = Text.lineAt? (Text.rows input.source) failure.span.start.line := by
  -- A relocation that spares exactly the program's places is the identity on the program. A run
  -- paired with itself through it can only report a place that the relocation spares.
  have hprogram : ∀ span ∈ placesStmts program.statements,
      (Relocation.sparing places).expr span = span := by
    rw [← places_of_parse hparse]
    exact fun span hspan => Relocation.sparing_expr_eq_self_iff.mpr (hplaces hspan)
  obtain ⟨hheap, hfailure⟩ :=
    (paired_evaluateProgram_self limits input.budget (m := m.resetFrames) (fun _ => rfl) hprogram
      hm).stays rfl
  have hrun : input.run limits m =
      ((evaluateProgram limits input.budget program m.resetFrames).mapFailure
        (·.quoting (Text.rows input.source))).mapMachine Machine.resetFrames :=
    congrFun (runSource_of_parse hparse) m
  rw [hrun, Outcome.machine_mapMachine, Outcome.machine_mapFailure, Outcome.failure?_mapMachine,
    Outcome.failure?_mapFailure]
  refine ⟨hheap, fun quoted hquoted => ?_⟩
  obtain ⟨failure, hfails, rfl⟩ := Option.map_eq_some_iff.mp hquoted
  obtain ⟨hnone, hstays⟩ := hfailure failure hfails
  rw [Failure.span_quoting]
  constructor
  · exact Relocation.sparing_expr_eq_self_iff.mp hstays
  · unfold Failure.quoting
    rw [hnone]

/-- Whether or not a text can be read, functions stay where they are. -/
theorem stays_machine (hplaces : input.places ⊆ places)
    (hm : m.heap.relocate (.sparing places) = m.heap) :
    (input.run limits m).machine.heap.relocate (.sparing places) =
      (input.run limits m).machine.heap := by
  cases hparse : Program.parse input.source input.file with
  | ok program => exact (stays_run hparse hplaces hm).1
  | error failure =>
    have hrun : input.run limits m = .failed failure m := by
      unfold run runSource
      rw [hparse]
    rw [hrun]
    exact hm

end Input

/-- All functions that texts have made are at places of these texts. -/
theorem stays_after {limits : Limits} {places : List Span} (inputs : List Input) {m : Machine}
    (hplaces : ∀ input ∈ inputs, input.places ⊆ places)
    (hm : m.heap.relocate (.sparing places) = m.heap) :
    (after limits m inputs).heap.relocate (.sparing places) = (after limits m inputs).heap := by
  induction inputs generalizing m with
  | nil => exact hm
  | cons input inputs ih =>
    obtain ⟨hinput, hinputs⟩ := List.forall_mem_cons.mp hplaces
    exact ih hinputs (Input.stays_machine hinput hm)

end Session

/-- **A failure quotes a line of the text that is run.** However a session has gone on, a run of a
text that can be read and fails does so at an expression of one of the texts of the session, on a
line that there is. The line that is quoted is the one with its number in the text that is run, if
there is any. So it is the right one if no earlier text has an expression at that place: then the
expression is one of the text that is run. -/
theorem failures_quote_the_text_that_is_run (config : Config) (registry : Registry)
    (arrays : Array (Array Value)) (dictionaries : Array Dictionary) (limits : Limits)
    (earlier : List Session.Input) (last : Session.Input) {program : Program} {failure : Failure}
    (hparse : Program.parse last.source last.file = .ok program)
    (hfails : (last.run limits (Session.after limits
      (Session.start config registry { arrays, dictionaries }) earlier)).failure? = some failure) :
    (∃ input ∈ earlier ++ [last], failure.span ∈ input.places ∧ failure.span.file = input.file ∧
      ∃ line, Text.lineAt? (Text.rows input.source) failure.span.start.line = some line) ∧
    failure.sourceLine = Text.lineAt? (Text.rows last.source) failure.span.start.line ∧
    ((∀ input ∈ earlier, failure.span ∉ input.places) →
      failure.span ∈ last.places ∧ failure.sourceLine ≠ none) := by
  -- A closure keeps the places of the text that made it, so a failure may point into any input so
  -- far, while the quoted line always comes from the last one.
  let places := (earlier ++ [last]).flatMap Session.Input.places
  have hplaces : ∀ input ∈ earlier ++ [last], input.places ⊆ places :=
    fun input hinput span hspan => List.mem_flatMap.mpr ⟨input, hinput, hspan⟩
  have hstart := Heap.relocate_of_native (r := .sparing places)
    (Session.blank_start config registry arrays dictionaries).2
  have hearlier : ∀ input ∈ earlier, input.places ⊆ places :=
    fun input hinput => hplaces input (List.mem_append_left _ hinput)
  obtain ⟨hspan, hline⟩ := (Session.Input.stays_run hparse
    (hplaces last (List.mem_append_right _ List.mem_cons_self))
    (Session.stays_after earlier hearlier hstart)).2 failure hfails
  obtain ⟨input, hinput, hplace⟩ := List.mem_flatMap.mp hspan
  refine ⟨⟨input, hinput, hplace, Session.Input.file_and_line_of_place hplace⟩, hline, ?_⟩
  intro helsewhere
  have hlast : failure.span ∈ last.places := by
    rcases List.mem_append.mp hinput with hmem | hmem
    · exact absurd hplace (helsewhere input hmem)
    · rwa [List.mem_singleton.mp hmem] at hplace
  obtain ⟨-, line, hquoted⟩ := Session.Input.file_and_line_of_place hlast
  refine ⟨hlast, ?_⟩
  rw [hline, hquoted]
  exact nofun

/-- A second line that adds what is not set quotes itself, though it calls a function of an earlier
text before. -/
theorem failures_quote_the_text_that_is_run_behind_call :
    let earlier : Session.Input := ⟨"f = function(x) { return x; };", none, 9⟩
    let last : Session.Input := ⟨"a = f(1);\nb = a + c;", none, 9⟩
    let start := Session.start { loadBuiltins := false } .standard
    ∃ program failure, Program.parse last.source last.file = .ok program ∧
      (last.run {} (Session.after {} start [earlier])).failure? = some failure ∧
      failure.span ∉ earlier.places ∧ failure.span ∈ last.places ∧
      failure.sourceLine = some "b = a + c;" := by
  intro earlier last start
  let span : Span := ⟨none, ⟨2, 9, 18⟩, ⟨2, 10, 19⟩⟩
  let failure : Failure :=
    { Failure.ofRuntime (.unsetVariable "c") span with sourceLine := some "b = a + c;" }
  have hfails : (last.run {} (Session.after {} start [earlier])).failure? = some failure := by
    decide +kernel
  have helsewhere : failure.span ∉ earlier.places := by decide +kernel
  have hreads : (Program.parse last.source last.file).isOk = true := by decide +kernel
  cases hparse : Program.parse last.source last.file with
  | error refusal =>
    rw [hparse] at hreads
    cases hreads
  | ok program =>
    obtain ⟨-, hline, hlast⟩ := failures_quote_the_text_that_is_run { loadBuiltins := false }
      .standard #[] #[] {} [earlier] last hparse hfails
    have hplace := (hlast (List.forall_mem_singleton.mpr helsewhere)).1
    have hrow : Text.lineAt? (Text.rows last.source) span.start.line = some "b = a + c;" := by
      decide +kernel
    exact ⟨program, failure, rfl, hfails, helsewhere, hplace, hline.trans hrow⟩

/-- The body of a function fails that an earlier text has made: the expression stands in that text
only, but what is quoted is the line of the call. -/
theorem failing_function_quotes_its_call :
    let earlier : Session.Input := ⟨"f = function() { return y; };", none, 9⟩
    let last : Session.Input := ⟨"f();", none, 9⟩
    let start := Session.start { loadBuiltins := false } .standard
    ∃ failure, (last.run {} (Session.after {} start [earlier])).failure? = some failure ∧
      failure.span ∈ earlier.places ∧ failure.span ∉ last.places ∧
      Text.lineAt? (Text.rows earlier.source) failure.span.start.line = some earlier.source ∧
      failure.sourceLine = some last.source := by
  intro earlier last start
  let span : Span := ⟨none, ⟨1, 25, 24⟩, ⟨1, 26, 25⟩⟩
  refine ⟨{ Failure.ofRuntime (.unsetVariable "y") span with sourceLine := some last.source }, ?_⟩
  decide +kernel

end DecimalScript
