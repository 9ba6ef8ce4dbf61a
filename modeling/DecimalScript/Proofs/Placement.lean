import DecimalScript.Proofs.Pairing
import DecimalScript.Proofs.RoundTrip
import DecimalScript.Proofs.SessionCourse

/-!
# What a program does does not depend on where it stands

Two programs that differ in their places alone do the same: they give the same value, with the same
text, print the same, leave the same variables and containers, and fail for the same reason.
Functions carry their code into cells and containers, so that the machines of both are compared up
to the places in that code. Each program is paired with its bare form, which is one and the same.

A listing is read back as the program that was listed, up to places. So what a text does is what its
listing does.

- `Machine.Agree`, `Outcome.Agree`: equal up to the places in functions, with equal texts.
- `Pairing.placement`: a run beside the run of the bare program.
- `running_does_not_depend_on_places`: two programs with one bare form.

The log is left out of the comparison, since it has places in it; so are the span and the source
line of a failure.
-/

namespace DecimalScript

open Eval

variable {α : Type}

/-- Two machines that differ at most in the places of their functions, and in their logs. -/
structure Machine.Agree (m m' : Machine) : Prop where
  env : m'.env = m.env
  arrays : m'.heap.arrays = m.heap.arrays
  dictionaries : m'.heap.dictionaries = m.heap.dictionaries
  functions : m'.heap.functions.map (Function.relocate .nowhere) =
    m.heap.functions.map (Function.relocate .nowhere)
  root : m'.root = m.root
  calls : m'.calls = m.calls
  output : m'.output = m.output

/-- Two outcomes that differ at most in places and in what is logged: the same value with the same
text, or a failure for the same reason, or both out of budget. -/
inductive Outcome.Agree : Outcome (Option Value) → Outcome (Option Value) → Prop
  | done (value : Option Value) {k k' : Machine} (hmachine : k.Agree k')
    (htext : ∀ maxDigits v, k'.heap.write maxDigits v = k.heap.write maxDigits v) :
    Agree (.done value k) (.done value k')
  | failed {failure failure' : Failure} {k k' : Machine} (hmachine : k.Agree k')
    (hfault : failure'.fault = failure.fault) : Agree (.failed failure k) (.failed failure' k')
  | exhausted {k k' : Machine} (hmachine : k.Agree k') : Agree (.exhausted k) (.exhausted k')

namespace Machine.Agree

variable {m m' : Machine}

theorem refl (m : Machine) : m.Agree m :=
  ⟨rfl, rfl, rfl, rfl, rfl, rfl, rfl⟩

/-- Machines agree if they are the same beside one that has no places. -/
theorem of_beside {log log' : Array LogEvent}
    (h : m'.beside .nowhere log' = m.beside .nowhere log) : m.Agree m' where
  env := congrArg (·.env) h
  arrays := congrArg (·.heap.arrays) h
  dictionaries := congrArg (·.heap.dictionaries) h
  functions := congrArg (·.heap.functions) h
  root := congrArg (·.root) h
  calls := congrArg (·.calls) h
  output := congrArg (·.output) h

/-- Machines that agree have the same heap, places of functions apart. -/
theorem heap_eq (h : m.Agree m') : m'.heap.relocate .nowhere = m.heap.relocate .nowhere := by
  unfold Heap.relocate
  rw [h.functions, h.arrays, h.dictionaries]

theorem beside (h : m.Agree m') (log : Array LogEvent) :
    m'.beside .nowhere log = m.beside .nowhere log := by
  unfold Machine.beside
  rw [h.env, h.heap_eq, h.root, h.calls, h.output]

/-- Values have the same texts. -/
theorem write_eq (h : m.Agree m') : m'.heap.write = m.heap.write := by
  rw [← m'.heap.write_relocate (r := .nowhere), h.heap_eq, Heap.write_relocate]

theorem resetFrames (h : m.Agree m') : m.resetFrames.Agree m'.resetFrames where
  env := h.env
  arrays := h.arrays
  dictionaries := h.dictionaries
  functions := h.functions
  root := congrArg (fun root : Frame => { root with pending := none }) h.root
  calls := rfl
  output := h.output

end Machine.Agree

/-- Code beside the same code at other places: nothing may differ but places and logs. -/
def Pairing.moving (r : Relocation) : Pairing where
  relocation := r
  logs := fun _ _ _ => True
  fault := fun _ => True
  escape := fun _ _ => False

/-- Moving places changes nothing else. -/
theorem Pairing.moving_sound (r : Relocation) (limits : Limits) :
    (Pairing.moving r).Sound limits limits where
  capture := rfl
  maxCallDepth := Nat.le_refl _
  maxDigits := rfl
  fault := fun _ _ => trivial
  record := fun _ _ _ => trivial
  captureAnalysis := fun _ _ _ => trivial
  enter := fun _ _ _ _ => trivial
  leave := fun _ _ => trivial
  refuse := fun _ _ _ _ _ => .inr ⟨rfl, trivial, trivial⟩
  arithmetic := fun _ _ _ => .inl rfl

/-- A program beside its bare form: nothing may differ but places and logs. -/
def Pairing.placement : Pairing where
  relocation := .nowhere
  logs := fun _ _ _ => True
  fault := fun _ => True
  escape := fun _ _ => False

theorem Pairing.placement_sound (limits : Limits) : Pairing.placement.Sound limits limits :=
  Pairing.moving_sound .nowhere limits

namespace Outcome

/-- An outcome beside that of the bare program is of the same form. -/
theorem Paired.placement_cases {x o : Outcome α} (h : x.Paired .placement o) :
    (∃ value k log, x = .done value k ∧ o = .done value (k.beside .nowhere log)) ∨
    (∃ failure failure' k log, x = .failed failure k ∧
      o = .failed failure' (k.beside .nowhere log) ∧ failure'.fault = failure.fault) ∨
    ∃ k log, x = .exhausted k ∧ o = .exhausted (k.beside .nowhere log) := by
  cases h with
  | done value k log hlogs => exact .inl ⟨value, k, log, rfl, rfl⟩
  | failed fault span k log hfault hlogs => exact .inr (.inl ⟨_, _, k, log, rfl, rfl, rfl⟩)
  | exhausted k log hlogs => exact .inr (.inr ⟨k, log, rfl, rfl⟩)
  | escaped failure k o hescape => exact hescape.elim
  | outlasted houtlasts k o => exact houtlasts.elim

/-- Two outcomes beside the same one agree. -/
theorem agree_of_paired {x y o : Outcome (Option Value)} (hx : x.Paired .placement o)
    (hy : y.Paired .placement o) : x.Agree y := by
  -- The form of `o` is that of both, which leaves the three cases of equal forms.
  rcases hx.placement_cases with ⟨value, k, log, rfl, ho⟩ |
    ⟨failure, bare, k, log, rfl, ho, hfault⟩ | ⟨k, log, rfl, ho⟩
  · rcases hy.placement_cases with ⟨value', k', log', rfl, ho'⟩ |
      ⟨_, _, _, _, -, ho', -⟩ | ⟨_, _, -, ho'⟩
    · obtain ⟨rfl, hbeside⟩ := Outcome.done.inj (ho'.symm.trans ho)
      have hmachine := Machine.Agree.of_beside hbeside
      exact .done value' hmachine fun _ => congrFun (congrFun hmachine.write_eq _)
    · cases ho.symm.trans ho'
    · cases ho.symm.trans ho'
  · rcases hy.placement_cases with ⟨_, _, _, -, ho'⟩ |
      ⟨failure', bare', k', log', rfl, ho', hfault'⟩ | ⟨_, _, -, ho'⟩
    · cases ho.symm.trans ho'
    · obtain ⟨rfl, hbeside⟩ := Outcome.failed.inj (ho'.symm.trans ho)
      exact .failed (.of_beside hbeside) (hfault'.symm.trans hfault)
    · cases ho.symm.trans ho'
  · rcases hy.placement_cases with ⟨_, _, _, -, ho'⟩ |
      ⟨_, _, _, _, -, ho', -⟩ | ⟨k', log', rfl, ho'⟩
    · cases ho.symm.trans ho'
    · cases ho.symm.trans ho'
    · exact .exhausted (.of_beside (Outcome.exhausted.inj (ho'.symm.trans ho)))

/-- What a run makes of an outcome, the line of a failure and the frames, keeps agreement. -/
theorem Agree.resettingFrames {x y : Outcome (Option Value)} (h : x.Agree y)
    (lines lines' : List String) :
    Agree ((x.mapFailure (·.quoting lines)).mapMachine Machine.resetFrames)
      ((y.mapFailure (·.quoting lines')).mapMachine Machine.resetFrames) := by
  cases h with
  | done value hmachine htext => exact .done value hmachine.resetFrames htext
  | failed hmachine hfault =>
    refine .failed hmachine.resetFrames ?_
    rw [Failure.fault_quoting, Failure.fault_quoting, hfault]
  | exhausted hmachine => exact .exhausted hmachine.resetFrames

end Outcome

/-- Programs that differ in their places alone, on machines that agree, end in agreement. -/
theorem Session.agree_evaluateProgram (limits : Limits) (budget : Nat) {p p' : Program}
    (h : p'.bare = p.bare) {m m' : Machine} (hm : m.Agree m') :
    (Session.evaluateProgram limits budget p m).Agree
      (Session.evaluateProgram limits budget p' m') := by
  have hpaired : ∀ (q : Program) (k : Machine),
      (Session.evaluateProgram limits budget q k).Paired .placement
        (Session.evaluateProgram limits budget q.bare (k.beside .nowhere #[])) := by
    intro q k
    have hbodies := (Pairing.placement_sound limits).bodies (.same budget) none q.statements
      k #[] trivial
    have hbare : relocateStmts Pairing.placement.relocation q.statements = q.bare.statements :=
      relocateStmts_nowhere q.statements
    rw [hbare] at hbodies
    exact hbodies
  -- The bare programs are the same, and so are the machines beside `m` and `m'`.
  have hright := hpaired p' m'
  rw [h, hm.beside] at hright
  exact Outcome.agree_of_paired (hpaired p m) hright

/-- Programs that are the same apart from places run alike. -/
theorem Session.agree_run (limits : Limits) (budget : Nat) {p p' : Program}
    (h : p'.bare = p.bare) (source source' : String) {m m' : Machine} (hm : m.Agree m') :
    (Session.run limits budget p source m).Agree (Session.run limits budget p' source' m') :=
  (Session.agree_evaluateProgram limits budget h hm.resetFrames).resettingFrames _ _

/-- **Formatting preserves meaning.** Under all limits and within every budget, on all machines that
differ at most in the places of their functions:

- runs of two programs that differ in their places alone give the same value with the same text or
  fail for the same reason, with the same output, variables and containers;
- what a run of a text does that can be read, a run of its listing does. -/
theorem running_does_not_depend_on_places (limits : Limits) (budget : Nat) {m m' : Machine}
    (hm : m.Agree m') :
    (∀ {p p' : Program}, p'.bare = p.bare → ∀ source source',
      (Session.run limits budget p source m).Agree (Session.run limits budget p' source' m')) ∧
    ∀ {source : String} {file : Option String} {p : Program},
      Program.parse source file = .ok p → ∀ file',
        (Session.runSource limits budget source file m).Agree
          (Session.runSource limits budget p.listing file' m') := by
  refine ⟨fun h source source' => Session.agree_run limits budget h source source' hm, ?_⟩
  intro source file p hparse file'
  obtain ⟨again, hagain, hbare⟩ :=
    Program.parse_listing_of_spelled (Program.spelled_of_parse hparse) file' true
  rw [Session.runSource_of_parse hparse, Session.runSource_of_parse hagain]
  exact Session.agree_run limits budget hbare source p.listing hm

/-- A text with more blanks than needed and its listing fail for the same reason, at other places;
so do two programs that call what is not set. -/
theorem running_does_not_depend_on_places_or_blanks :
    let start := Session.start { loadBuiltins := false } .standard
    let call (span : Span) : Program := ⟨span, [.call span span (.name span "f") []]⟩
    let here : Span := ⟨none, .start, .start⟩
    let there : Span := ⟨some "script", .start, .start⟩
    start.Agree start ∧ (call there).bare = (call here).bare ∧
      (Session.run {} 9 (call here) "" start).Agree (Session.run {} 9 (call there) "f()" start) ∧
      ∃ p, Program.parse "a  =( b );" none = .ok p ∧ p.listing = "a = b;" ∧
        (Session.runSource {} 9 "a  =( b );" none start).Agree
          (Session.runSource {} 9 "a = b;" none start) := by
  intro start call here there
  have hbare : (call there).bare = (call here).bare := rfl
  obtain ⟨hprograms, htexts⟩ := running_does_not_depend_on_places {} 9 (.refl start)
  refine ⟨.refl start, hbare, hprograms hbare "" "f()", ?_⟩
  have hlisting : (Program.parse "a  =( b );" none).toOption.map Program.listing =
      some "a = b;" := by
    decide +kernel
  cases h : Program.parse "a  =( b );" none with
  | error failure =>
    rw [h] at hlisting
    cases hlisting
  | ok p =>
    rw [h] at hlisting
    have hspelled : p.listing = "a = b;" := Option.some.inj hlisting
    exact ⟨p, rfl, hspelled, hspelled ▸ htexts h none⟩

end DecimalScript
