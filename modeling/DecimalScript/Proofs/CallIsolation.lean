import DecimalScript.Proofs.SoundSituations

/-!
# Calls are isolated

A call gets a table of its own, filled from the closure of the function, and works with that one. So
much of the rest of the machine stays as it is that calls of one function cannot see each other's
variables.

`Situation.stack` pairs the tables of the calls in progress with the functions that run. Transitions
push to it, pop from it or leave it alone (`Transition.stack_cases`), and what is pushed is new;
hence `Course.evolves`: as long as a call is not left, no table is touched that was there before,
except for its own and the global one.

Cells have a home, the table of the call that was active when they were made. `Situation.Homes` says
that the table of a call binds nothing but cells of the closure, global cells and cells at home
there; two calls of one function have no others in common than those of the closure and global ones.

- `Situation.stack`, `Transition.stack_cases`: the tables of the calls in progress, and what a
  transition does to them.
- `Course.evolves`: what a course leaves alone that does not leave a call.
- `Situation.Homes`, `Homes.course`: where cells come from, along every course.
- `callIsolation`, `callsApart`: one call and the rest of the machine, and two calls of one
  function.
- `calls_are_isolated`: both of these, wherever a session gets to.
-/

namespace DecimalScript

open Eval
open Machine (globalTable)

/-- The tables of the calls in progress with the functions that run, the active call first. -/
def Situation.stack (c : Situation) : List (TableRef × UserFunction) :=
  List.zipWith (fun frame a => (frame.table, a.function)) c.machine.calls c.calls

/-- The stack is read off the frames. -/
theorem Situation.stack_congr {m later : Machine} (h : later.frames = m.frames)
    (calls : List Activation) : stack ⟨later, calls⟩ = stack ⟨m, calls⟩ := by
  unfold stack
  rw [(List.append_inj' h rfl).1]

/-- What a frame says or returns does not matter to the stack. -/
theorem Situation.stack_modifyFrame (m : Machine) (calls : List Activation) (g : Frame → Frame)
    (hg : ∀ frame, (g frame).table = frame.table) :
    stack ⟨m.modifyFrame g, calls⟩ = stack ⟨m, calls⟩ := by
  obtain ⟨env, heap, root, frames, output, log⟩ := m
  cases frames with
  | nil => rfl
  | cons frame frames =>
    cases calls with
    | nil => rfl
    | cons a calls =>
      show ((g frame).table, a.function) :: _ = (frame.table, a.function) :: _
      rw [hg]

namespace Situation.Sound

variable {c : Situation} {t : TableRef} {f : UserFunction} {rest : List (TableRef × UserFunction)}

/-- The active call is on top of the stack. -/
theorem stack_eq_cons {m : Machine} {a : Activation} {calls : List Activation}
    (h : Sound ⟨m, a :: calls⟩) :
    stack ⟨m, a :: calls⟩ = (m.frame.table, a.function) :: stack ⟨m.leave, calls⟩ := by
  obtain ⟨frames, hcalls, -, -⟩ := h.active
  unfold stack
  show List.zipWith _ m.calls _ = _ :: List.zipWith _ m.calls.tail _
  rw [hcalls]
  rfl

/-- The innermost call is on the stack with the table of the machine's frame. -/
theorem active_mem_stack {m : Machine} {a : Activation} {calls : List Activation}
    (h : Sound ⟨m, a :: calls⟩) : (m.frame.table, a.function) ∈ stack ⟨m, a :: calls⟩ := by
  rw [h.stack_eq_cons]
  exact List.mem_cons_self

theorem length_stack (h : c.Sound) : c.stack.length = c.calls.length := by
  rw [stack, List.length_zipWith, h.frames.length_eq, Nat.min_self]

theorem frame_table_of_nil (h : c.Sound) (hstack : c.stack = []) :
    c.machine.frame.table = globalTable := by
  have hcalls : c.calls = [] := by
    rw [← List.length_eq_zero_iff, ← h.length_stack, hstack]
    rfl
  obtain ⟨m, calls⟩ := c
  cases hcalls
  exact h.frame_table_eq

theorem frame_table_of_cons (h : c.Sound) (hstack : c.stack = (t, f) :: rest) :
    c.machine.frame.table = t := by
  obtain ⟨m, calls⟩ := c
  cases calls with
  | nil =>
    have hlength := h.length_stack
    rw [hstack] at hlength
    cases hlength
  | cons a calls =>
    rw [h.stack_eq_cons] at hstack
    exact congrArg Prod.fst (List.cons.inj hstack).1

theorem mem_stack (h : c.Sound) (hmem : (t, f) ∈ c.stack) :
    t ≠ globalTable ∧ t.index < c.machine.env.tables.size ∧
      Function.user f ∈ c.machine.heap.functions := by
  have hframes := h.frames
  have hrunning := h.running
  obtain ⟨⟨env, heap, root, frames, output, log⟩, calls⟩ := c
  unfold stack at hmem
  dsimp only at hframes hrunning hmem ⊢
  clear h
  induction hframes with
  | nil => cases hmem
  | cons hframe _ ih =>
    rcases List.mem_cons.mp hmem with heq | hmem
    · cases heq
      exact ⟨hframe.table_ne, hframe.table_lt, hrunning _ List.mem_cons_self⟩
    · exact ih hmem fun a ha => hrunning a (List.mem_cons_of_mem _ ha)

end Situation.Sound

namespace Transition

variable {limits : Limits} {script : Code} {c c' : Situation}

/-- **What a transition does to the calls in progress**: it leaves them alone, or calls a function
with a new table that binds what the closure binds, or ends a call. -/
theorem stack_cases (h : Transition limits script c c') (hc : c.Sound) :
    c'.stack = c.stack ∨
      (∃ f, Function.user f ∈ c.machine.heap.functions ∧
        c'.stack = (⟨c.machine.env.tables.size⟩, f) :: c.stack ∧
        ∀ n, c'.machine.env.ownCell? ⟨c.machine.env.tables.size⟩ n =
          c.machine.env.ownCell? f.closure n) ∨
      ∃ entry, c.stack = entry :: c'.stack := by
  cases h with
  | record | data | refuse | assign | hostAssign => exact .inl rfl
  | bindParameter m calls f p ps value =>
    exact .inl ((hc.bindParameter value).stack_eq_cons.trans hc.stack_eq_cons.symm)
  | makeFunction m calls name span l hl =>
    exact .inl (Situation.stack_congr (frames_makeFunction _ _ _ _ _ m) calls)
  | enter m calls f label arguments hf hdepth =>
    exact .inr (.inl ⟨f, hf, rfl, hc.ownCell?_prepared hf label arguments⟩)
  | leave m a calls => exact .inr (.inr ⟨_, hc.stack_eq_cons⟩)
  | declareGlobal m calls name hsettled hname =>
    have hdeclared := Situation.stack_congr (frames_declareGlobal m name) calls
    exact .inl (hdeclared.trans (Situation.stack_modifyFrame m calls _ fun _ => rfl))
  | signal m calls value hsettled =>
    exact .inl (Situation.stack_modifyFrame m calls _ fun _ => rfl)

/-- Functions stay. -/
theorem functions (h : Transition limits script c c') (hc : c.Sound) {f : UserFunction}
    (hf : Function.user f ∈ c.machine.heap.functions) :
    Function.user f ∈ c'.machine.heap.functions := by
  cases h with
  | record | data | refuse | assign | hostAssign | bindParameter | enter | leave => exact hf
  | makeFunction m calls name span l hl =>
    rw [(makes_makeFunction hc.env limits name span l).functions]
    exact Array.mem_push_of_mem _ hf
  | declareGlobal m calls name hsettled hname =>
    rw [heap_declareGlobal]
    exact hf
  | signal m calls value hsettled =>
    rw [heap_modifyFrame]
    exact hf

end Transition

/-! ### While a call is not left -/

namespace Course

variable {limits : Limits} {script : Code} {depth : Nat} {c c' : Situation}

/-- A closure is never changed. -/
theorem closure_kept (h : Course limits script depth c c') (hc : c.Sound) {f : UserFunction}
    (hf : Function.user f ∈ c.machine.heap.functions) :
    Function.user f ∈ c'.machine.heap.functions ∧
      c'.machine.env.table f.closure = c.machine.env.table f.closure := by
  refine (h.invariant (P := fun c' => c'.Sound ∧ Function.user f ∈ c'.machine.heap.functions ∧
    c'.machine.env.table f.closure = c.machine.env.table f.closure) ?_ ⟨hc, hf, rfl⟩).2
  rintro d d' - hstep ⟨hd, hf, hkept⟩
  have hclosure := hd.functions f hf
  refine ⟨hstep.sound hd, hstep.functions hd hf, ?_⟩
  rw [(hstep.evolves hd).kept f.closure hclosure.closure_ne hclosure.closure_lt
    (hd.closure_ne_frame_table hf), hkept]

/-- A cell once bound in the global table stays bound there. -/
theorem global_kept (h : Course limits script depth c c') (hc : c.Sound) {n : String} {x : CellRef}
    (hx : c.machine.env.ownCell? globalTable n = some x) :
    c'.machine.env.ownCell? globalTable n = some x := by
  refine (h.invariant (P := fun c' => c'.Sound ∧
    c'.machine.env.ownCell? globalTable n = some x) ?_ ⟨hc, hx⟩).2
  rintro d d' - hstep ⟨hd, hx⟩
  exact ⟨hstep.sound hd, (hstep.evolves hd).global n x hx⟩

/-- The calls on top of those that are not left have new tables. -/
theorem stack_evolves (h : Course limits script c.calls.length c c') (hc : c.Sound) :
    c.machine.env.Evolves (· = c.machine.frame.table) c'.machine.env ∧
      (c.calls.length ≤ c'.calls.length → ∃ above, c'.stack = above ++ c.stack ∧
        ∀ entry ∈ above, c.machine.env.tables.size ≤ entry.1.index) := by
  refine (h.invariant (P := fun c' => c'.Sound ∧
    c.machine.env.Evolves (· = c.machine.frame.table) c'.machine.env ∧
      (c.calls.length ≤ c'.calls.length → ∃ above, c'.stack = above ++ c.stack ∧
        ∀ entry ∈ above, c.machine.env.tables.size ≤ entry.1.index)) ?_
    ⟨hc, .refl _ _, fun _ => ⟨[], rfl, fun _ h => (List.not_mem_nil h).elim⟩⟩).2
  rintro d d' hdepth hstep ⟨hd, hevolves, habove⟩
  obtain ⟨above, hstack, hnew⟩ := habove hdepth
  have hd' := hstep.sound hd
  refine ⟨hd', hevolves.trans (hstep.evolves hd) ?_, fun hdepth' => ?_⟩
  · -- The active frame is the one of the beginning, or has a new table.
    rintro t ht rfl
    cases above with
    | nil =>
      cases hc' : c.stack with
      | nil => rw [hd.frame_table_of_nil (hstack.trans hc'), hc.frame_table_of_nil hc']
      | cons entry rest =>
        rw [hd.frame_table_of_cons (hstack.trans hc'), hc.frame_table_of_cons hc']
    | cons entry above =>
      rw [hd.frame_table_of_cons hstack] at ht
      exact absurd ht (Nat.not_lt_of_le (hnew entry List.mem_cons_self))
  · rcases hstep.stack_cases hd with heq | ⟨f, -, heq, -⟩ | ⟨entry, heq⟩
    · exact ⟨above, heq.trans hstack, hnew⟩
    · refine ⟨(⟨d.machine.env.tables.size⟩, f) :: above, by rw [heq, hstack]; rfl, fun e he => ?_⟩
      rcases List.mem_cons.mp he with rfl | he
      · exact hevolves.tables
      · exact hnew e he
    · -- A call that ends is not one of those at the beginning.
      cases above with
      | nil =>
        have hlength := congrArg List.length (heq.symm.trans hstack)
        rw [List.nil_append, hc.length_stack, List.length_cons, hd'.length_stack] at hlength
        omega
      | cons first above =>
        obtain ⟨-, htail⟩ := List.cons.inj (hstack.symm.trans heq)
        exact ⟨above, htail.symm, fun e he => hnew e (List.mem_cons_of_mem _ he)⟩

/-- **While a call is not left**, it changes its own table and the global one, and no other table
that was there before. -/
theorem evolves (h : Course limits script c.calls.length c c') (hc : c.Sound) :
    c.machine.env.Evolves (· = c.machine.frame.table) c'.machine.env :=
  (h.stack_evolves hc).1

/-- Further calls run with new tables. -/
theorem active_new (h : Course limits script c.calls.length c c') (hc : c.Sound)
    (hdepth : c.calls.length < c'.calls.length) :
    c.machine.env.tables.size ≤ c'.machine.frame.table.index := by
  have hc' := h.sound hc
  obtain ⟨above, hstack, hnew⟩ := (h.stack_evolves hc).2 (Nat.le_of_lt hdepth)
  cases above with
  | nil =>
    have hlength := congrArg List.length hstack
    rw [List.nil_append, hc'.length_stack, hc.length_stack] at hlength
    omega
  | cons entry above =>
    rw [hc'.frame_table_of_cons hstack]
    exact hnew entry List.mem_cons_self

end Course

/-! ### While parameters are bound -/

namespace Transition

variable {limits : Limits} {script : Code} {c c' : Situation}

/-- What a transition does to a call that is not left: nothing, or the call itself binds a
parameter. -/
theorem calls_above (h : Transition limits script c c') {above calls : List Activation}
    {f : UserFunction} {ps : List Parameter} (hcalls : c.calls = above ++ ⟨f, ps⟩ :: calls)
    (hdepth : calls.length + 1 ≤ c'.calls.length) :
    (∃ above', c'.calls = above' ++ ⟨f, ps⟩ :: calls) ∨
      above = [] ∧ ∃ p qs, ps = p :: qs ∧ c'.calls = ⟨f, qs⟩ :: calls := by
  cases h with
  | record | data | makeFunction | refuse | assign | declareGlobal | signal | hostAssign =>
    exact .inl ⟨above, hcalls⟩
  | enter m calls g => exact .inl ⟨⟨g, g.parameters⟩ :: above, congrArg (List.cons _) hcalls⟩
  | leave m a rest =>
    cases above with
    | nil =>
      cases hcalls
      exact absurd hdepth (Nat.not_succ_le_self _)
    | cons b above => exact .inl ⟨above, (List.cons.inj hcalls).2⟩
  | bindParameter m rest g p qs =>
    cases above with
    | nil =>
      cases hcalls
      exact .inr ⟨rfl, p, qs, rfl, rfl⟩
    | cons b above =>
      exact .inl ⟨⟨g, qs⟩ :: above, congrArg (List.cons _) (List.cons.inj hcalls).2⟩

/-- Before the body of a function runs, its table changes only when a parameter is bound. -/
theorem evolves_of_unbound (h : Transition limits script c c') (hc : c.Sound) {f : UserFunction}
    {p : Parameter} {ps : List Parameter} {calls : List Activation}
    (hcalls : c.calls = ⟨f, p :: ps⟩ :: calls) (hbound : c'.calls ≠ ⟨f, ps⟩ :: calls) :
    c.machine.env.Evolves (fun _ => False) c'.machine.env := by
  have hsettled : ∀ {rest}, rest = ⟨f, p :: ps⟩ :: calls → ¬Settled rest := by
    rintro _ rfl hsettled
    cases hsettled
  cases h with
  | record | data | leave => exact .refl _ _
  | makeFunction m calls name span l hl =>
    exact (makes_makeFunction hc.env limits name span l).evolves
  | refuse m calls g label arguments hg => exact hc.evolves_prepared g label arguments
  | enter m calls g label arguments hg hdepth => exact hc.evolves_prepared g label arguments
  | bindParameter m rest g q qs value =>
    cases hcalls
    exact absurd rfl hbound
  | assign m rest name value h => exact absurd h (hsettled hcalls)
  | declareGlobal m rest name h hname => exact absurd h (hsettled hcalls)
  | signal m rest value h => exact absurd h (hsettled hcalls)
  | hostAssign m name value => cases hcalls

end Transition

namespace Course

variable {limits : Limits} {script : Code} {m later : Machine} {f : UserFunction} {p : Parameter}
  {ps : List Parameter} {calls : List Activation} {c : Situation}

/-- While a call is not left, nothing changes until its next parameter is bound; and what is bound
stays bound. -/
theorem unbound_or_bound (h : Course limits script (calls.length + 1) ⟨m, ⟨f, p :: ps⟩ :: calls⟩ c)
    (hc : Situation.Sound ⟨m, ⟨f, p :: ps⟩ :: calls⟩) (hdepth : calls.length + 1 ≤ c.calls.length) :
    ∃ above rest, c.calls = above ++ ⟨f, rest⟩ :: calls ∧
      (rest = p :: ps ∧ m.env.Evolves (fun _ => False) c.machine.env ∨ rest.length ≤ ps.length) := by
  -- The calls above and the parameters still unbound are carried along the course.
  induction h with
  | refl => exact ⟨[], p :: ps, rfl, .inl ⟨rfl, .refl _ _⟩⟩
  | @tail d c hcourse hlast ih =>
    obtain ⟨hdepth', hstep⟩ := hlast
    have hd : d.Sound := Course.sound hcourse hc
    obtain ⟨above, rest, hcalls, hrest⟩ := ih hdepth'
    rcases hstep.calls_above hcalls hdepth with ⟨above', hcalls'⟩ | ⟨rfl, q, qs, rfl, hcalls'⟩
    · refine ⟨above', rest, hcalls', hrest.imp_left ?_⟩
      rintro ⟨rfl, hevolves⟩
      refine ⟨rfl, ?_⟩
      cases above with
      | nil =>
        refine hevolves.trans (hstep.evolves_of_unbound hd hcalls fun heq => ?_) fun _ _ => id
        have hlength := congrArg List.length (heq.symm.trans hcalls')
        simp only [List.length_append, List.length_cons] at hlength
        obtain rfl : above' = [] := List.length_eq_zero_iff.mp (by omega)
        cases heq.symm.trans hcalls'
      | cons a above =>
        -- Further calls work with tables of their own.
        refine hevolves.trans (hstep.evolves hd) fun t ht hactive => ?_
        have hnew := Course.active_new (c := ⟨m, ⟨f, p :: ps⟩ :: calls⟩) hcourse hc (by
          rw [hcalls]
          simp only [List.length_append, List.length_cons]
          omega)
        exact Nat.not_le_of_lt ht (hactive ▸ hnew)
    · refine ⟨[], qs, hcalls', .inr ?_⟩
      rcases hrest with ⟨heq, -⟩ | hle
      · cases heq
        exact Nat.le_refl _
      · exact Nat.le_of_succ_le hle

/-- Evaluating a default changes no table that was there before, not even the one of the call. -/
theorem evolves_of_unbound (hc : Situation.Sound ⟨m, ⟨f, p :: ps⟩ :: calls⟩)
    (h : Course limits script (calls.length + 1) ⟨m, ⟨f, p :: ps⟩ :: calls⟩
      ⟨later, ⟨f, p :: ps⟩ :: calls⟩) :
    m.env.Evolves (fun _ => False) later.env := by
  obtain ⟨above, rest, hcalls, hrest⟩ := h.unbound_or_bound hc (Nat.le_refl _)
  have hlength := congrArg List.length hcalls
  simp only [List.length_append, List.length_cons] at hlength
  obtain rfl : above = [] := List.length_eq_zero_iff.mp (by omega)
  cases hcalls
  rcases hrest with ⟨-, hevolves⟩ | hle
  · exact hevolves
  · exact absurd hle (Nat.not_succ_le_self _)

end Course

/-- A table binds what a closure binds, but names of their own to new cells. -/
structure Env.Overrides (base : Env) (closure : TableRef) (names : List String) (env : Env)
    (t : TableRef) : Prop where
  fresh : ∀ n ∈ names, ∃ x, env.ownCell? t n = some x ∧ base.cells.size ≤ x.index
  others : ∀ n, n ∉ names → env.ownCell? t n = base.ownCell? closure n

namespace Env.Overrides

variable {base env later : Env} {closure t : TableRef} {names : List String}

theorem evolves (h : base.Overrides closure names env t) (hne : t ≠ globalTable)
    (ht : t.index < env.tables.size) (hevolves : env.Evolves (fun _ => False) later) :
    base.Overrides closure names later t where
  fresh := fun n hn => by
    rw [hevolves.ownCell?_eq hne ht id]
    exact h.fresh n hn
  others := fun n hn => by
    rw [hevolves.ownCell?_eq hne ht id]
    exact h.others n hn

theorem define (h : base.Overrides closure names env t) (ht : t.index < env.tables.size)
    (hsize : base.cells.size ≤ env.cells.size) (name : String) (value : Option Value) :
    base.Overrides closure (name :: names) (env.define t name value).2 t where
  fresh := fun n hn => by
    rw [ownCell?_define ht]
    split
    · exact ⟨_, rfl, hsize⟩
    · rename_i hname
      refine h.fresh n ((List.mem_cons.mp hn).resolve_left fun heq => hname ⟨rfl, heq⟩)
  others := fun n hn => by
    rw [List.mem_cons, not_or] at hn
    rw [ownCell?_define ht, if_neg fun hname => hn.1 hname.2]
    exact h.others n hn.2

end Env.Overrides

/-- What is sound is not left. -/
theorem closed_sound (limits : Limits) (script : Code) : Closed limits script Situation.Sound :=
  fun hc hstep => hstep.sound hc

/-- A call while its parameters are bound: those whose names have been bound override the bindings
of the closure, and the others are still to be bound. -/
structure Binding (base : Env) (f : UserFunction) (calls : List Activation) (table : TableRef)
    (names : List String) (ps : List Parameter) (m : Machine) : Prop where
  sound : Situation.Sound ⟨m, ⟨f, ps⟩ :: calls⟩
  active : m.frame.table = table
  size : base.cells.size ≤ m.env.cells.size
  overrides : base.Overrides f.closure names m.env table

namespace Binding

variable {base : Env} {f : UserFunction} {calls : List Activation} {table : TableRef}
  {names : List String} {p : Parameter} {ps : List Parameter} {m later : Machine} {limits : Limits}

theorem frame_sound (h : Binding base f calls table names ps m) :
    m.frame.Sound m.env ⟨f, ps⟩ := by
  obtain ⟨_, _, hframe, _⟩ := h.sound.active
  exact hframe

theorem bind (h : Binding base f calls table names (p :: ps) m) (value : Option Value) :
    Binding base f calls table (p.name :: names) ps (m.define table p.name value) := by
  have hlt := h.frame_sound.table_lt
  have hevolves := Env.evolves_define hlt p.name value fun hglobal =>
    absurd hglobal h.frame_sound.table_ne
  obtain ⟨hsound, rfl, hsize, hoverrides⟩ := h
  exact ⟨hsound.bindParameter value, rfl, Nat.le_trans hsize hevolves.size,
    hoverrides.define hlt hsize p.name value⟩

/-- The default of a parameter leaves all tables alone, and the frames. -/
theorem default (h : Binding base f calls table names (p :: ps) m) (script : Code) (budget : Nat)
    (hcode : ∀ l ∈ Literals.inDefault p.default, f.code.literal l) {value : Option Value}
    (hdone : Step.defaultValue (evalExpr limits budget) p m = .done value later) :
    Binding base f calls table names (p :: ps) later := by
  have hkept := (stable_continues limits).defaultValue (framesKept_evalExpr limits budget) p m
  let never : Machine → Option Failure := fun _ => none
  have hnever : ∀ c : Situation, c.Sound → never c.machine = none := fun _ _ => rfl
  obtain ⟨heval, -⟩ := evaluation_follows (closed_sound limits script) hnever budget
  have hcourse : Course limits script (calls.length + 1) ⟨m, ⟨f, p :: ps⟩ :: calls⟩
      ⟨(Step.defaultValue (evalExpr limits budget) p m).machine, ⟨f, p :: ps⟩ :: calls⟩ := by
    obtain ⟨span, name, default⟩ := p
    have hfollows : Follows limits script Situation.Sound
        (⟨f, .mk span name default :: ps⟩ :: calls)
        (Step.defaultValue (evalExpr limits budget) (.mk span name default))
        (Step.defaultValue (Breakpoint.evalExpr never limits budget) (.mk span name default)) :=
      follows_defaultValue (closed_sound limits script) heval span name default hcode
    exact (hfollows m h.sound).2
  rw [hdone] at hkept hcourse
  have hevolves := Course.evolves_of_unbound h.sound hcourse
  have hframe := h.frame_sound
  have hactive := h.active
  exact
    { sound := hcourse.sound h.sound
      active := (congrArg Frame.table (Machine.frame_eq_of_frames hkept)).trans hactive
      size := Nat.le_trans h.size hevolves.size
      overrides := h.overrides.evolves (hactive ▸ hframe.table_ne) (hactive ▸ hframe.table_lt)
        hevolves }

end Binding

/-- Binding parameters overrides the bindings of the closure, one name after the other. -/
theorem binding_bindParameters {limits : Limits} (script : Code) (budget : Nat) {base : Env}
    {f : UserFunction} {calls : List Activation} {table : TableRef} :
    ∀ (ps : List Parameter) (args : List Value) (names : List String) (m : Machine),
      Binding base f calls table names ps m →
      (∀ l ∈ Literals.inParameters ps, f.code.literal l) →
      ∀ later, Step.bindParameters (evalExpr limits budget) table ps args m = .done () later →
        Binding base f calls table ((ps.map (·.name)).reverse ++ names) [] later
  | [], _, _, m, h, _, later, hdone => by
    cases hdone
    exact h
  | .mk span name default :: ps, a :: as, names, m, h, hcode, later, hdone => by
    have hrest := binding_bindParameters script budget ps as _ _ (h.bind (some a))
      (List.forall_mem_append.mp hcode).2 later hdone
    rw [List.map_cons, List.reverse_cons, List.append_assoc]
    exact hrest
  | .mk span name default :: ps, [], names, m, h, hcode, later, hdone => by
    obtain ⟨hdefault, hcode⟩ := List.forall_mem_append.mp hcode
    unfold Step.bindParameters at hdone
    rw [bind_apply] at hdone
    cases hvalue : Step.defaultValue (evalExpr limits budget) (.mk span name default) m with
    | done value mid =>
      rw [hvalue] at hdone
      have hrest := binding_bindParameters script budget ps [] _ _
        ((h.default script budget hdefault hvalue).bind value) hcode later hdone
      rw [List.map_cons, List.reverse_cons, List.append_assoc]
      exact hrest
    | failed failure mid =>
      rw [hvalue] at hdone
      cases hdone
    | exhausted mid =>
      rw [hvalue] at hdone
      cases hdone

/-! ### Homes of cells -/

/-- The tables of calls bind cells of their closures, global cells, and cells at home there. -/
def Situation.Homes (c : Situation) (home : CellRef → TableRef) : Prop :=
  ∀ t f, (t, f) ∈ c.stack → ∀ n x, c.machine.env.ownCell? t n = some x →
    c.machine.env.ownCell? f.closure n = some x ∨
      c.machine.env.ownCell? globalTable n = some x ∨ home x = t

namespace Situation.Homes

variable {limits : Limits} {script : Code} {depth : Nat} {c c' : Situation}
  {home : CellRef → TableRef}

/-- New cells are at home in the active table. -/
theorem step (h : c.Homes home) (hc : c.Sound) (hstep : Transition limits script c c') :
    c'.Homes fun x =>
      if x.index < c.machine.env.cells.size then home x else c.machine.frame.table := by
  intro t f hmem n x hx
  have hevolves := hstep.evolves hc
  have hold : (t, f) ∈ c.stack → c'.machine.env.ownCell? f.closure n = some x ∨
      c'.machine.env.ownCell? globalTable n = some x ∨
        (if x.index < c.machine.env.cells.size then home x else c.machine.frame.table) = t := by
    intro hmem
    obtain ⟨hne, hlt, hf⟩ := hc.mem_stack hmem
    have hclosure := hevolves.ownCell?_eq (hc.functions f hf).closure_ne
      (hc.functions f hf).closure_lt (hc.closure_ne_frame_table hf) n
    rcases hevolves.bound t n x hlt hx with hbefore | hglobal | hnew
    · rw [if_pos (hc.env.cell_lt hbefore), hclosure]
      exact (h t f hmem n x hbefore).imp_right fun hx => hx.imp_left (hevolves.global n x)
    · exact .inr (.inl hglobal)
    · -- A table that binds a new cell is the active one.
      refine .inr (.inr ?_)
      rw [if_neg (Nat.not_lt_of_le hnew)]
      refine Classical.byContradiction fun hactive => ?_
      rw [hevolves.ownCell?_eq hne hlt (Ne.symm hactive)] at hx
      exact Nat.not_lt_of_le hnew (hc.env.cell_lt hx)
  -- A call that begins binds what its closure binds; the other calls were in progress before.
  rcases hstep.stack_cases hc with heq | ⟨g, hg, heq, hcopied⟩ | ⟨entry, heq⟩
  · exact hold (heq ▸ hmem)
  · rw [heq] at hmem
    rcases List.mem_cons.mp hmem with heq | hmem
    · cases heq
      rw [hcopied] at hx
      refine .inl ?_
      rw [hevolves.ownCell?_eq (hc.functions f hg).closure_ne (hc.functions f hg).closure_lt
        (hc.closure_ne_frame_table hg)]
      exact hx
    · exact hold hmem
  · exact hold (heq ▸ List.mem_cons_of_mem _ hmem)

/-- Cells do not move. -/
theorem course (h : c.Homes home) (hc : c.Sound) (hcourse : Course limits script depth c c') :
    ∃ home', c'.Homes home' ∧ ∀ x, x.index < c.machine.env.cells.size → home' x = home x := by
  refine (hcourse.invariant (P := fun c' => c'.Sound ∧
    c.machine.env.cells.size ≤ c'.machine.env.cells.size ∧
      ∃ home', c'.Homes home' ∧ ∀ x, x.index < c.machine.env.cells.size → home' x = home x) ?_
    ⟨hc, Nat.le_refl _, home, h, fun _ _ => rfl⟩).2.2
  rintro d d' - hstep ⟨hd, hsize, home', hhome, hsame⟩
  refine ⟨hstep.sound hd, Nat.le_trans hsize (hstep.evolves hd).size, _, hhome.step hd hstep, ?_⟩
  intro x hx
  rw [if_pos (Nat.lt_of_lt_of_le hx hsize)]
  exact hsame x hx

end Situation.Homes

/-- Without calls in progress, any cell may be at home anywhere. -/
theorem Session.exists_homes {config : Config} {registry : Registry} {arrays : Array (Array Value)}
    {dictionaries : Array Dictionary} {limits : Limits} {script : Code} {c : Situation}
    (h : c.Reachable limits script (Session.start config registry { arrays, dictionaries })) :
    ∃ home, c.Homes home := by
  have hstart : Situation.Homes ⟨Session.start config registry { arrays, dictionaries }, []⟩
      fun _ => globalTable := fun t f hmem => by
    have hnil := (sound_start config registry arrays dictionaries).calls_eq_nil
    rw [Situation.stack, hnil] at hmem
    cases hmem
  obtain ⟨home, hhome, -⟩ := hstart.course (sound_start config registry arrays dictionaries) h
  exact ⟨home, hhome⟩

/-! ### Isolation -/

section Isolation

variable {limits : Limits} {script : Code} {m : Machine} {calls : List Activation} {f : UserFunction}

/-- A run of a function ends with the machine that the body leaves, without its frame. -/
theorem machine_runCall (eval : Expr → Eval Value) (run : List Stmt → Eval (Option Value))
    (f : UserFunction) (label : String) (args : List Value) (m : Machine) :
    (Step.runCall eval run f ⟨m.env.tables.size⟩ label args
        (m.prepared f label args.length)).machine =
      ((do
          Step.bindParameters eval ⟨m.env.tables.size⟩ f.parameters args
          run f.body.statements : Eval (Option Value))
        (m.called f label args.length)).machine.leave :=
  Outcome.machine_mapMachine _ _

/-- **A call leaves the tables alone**: however it ends, every table that was there before has the
same bindings afterwards, except that the global one may have more. -/
theorem evolves_callUser (script : Code) (budget : Nat) (hc : Situation.Sound ⟨m, calls⟩)
    (hf : Function.user f ∈ m.heap.functions) (label : String) (args : List Value) (span : Span) :
    m.env.Evolves (fun _ => False)
      (Step.callUser limits (evalExpr limits budget) (sequence (execStmt limits budget) none) f label
        args span m).machine.env := by
  have hprepared := hc.evolves_prepared f label args.length
  rw [callUser_apply]
  split
  · exact .refl _ _
  · split
    · exact hprepared
    · let never : Machine → Option Failure := fun _ => none
      have hnever : ∀ c : Situation, c.Sound → never c.machine = none := fun _ _ => rfl
      have hR : Closed limits script Situation.Sound := closed_sound limits script
      obtain ⟨heval, hexec⟩ := evaluation_follows hR hnever budget
      have hrun : BodiesFollow limits script Situation.Sound (sequence (execStmt limits budget) none)
          (sequence (Breakpoint.execStmt never limits budget) none) :=
        fun _ ss hsettled hcode => follows_sequence hR hexec hsettled ss none hcode
      have hcalled := hc.called hf label args.length
      obtain ⟨-, rest, hcourse⟩ := follows_body (m := m.called f label args.length) hR heval
        (framesKept_evalExpr limits budget) hrun f args hcalled
      rw [machine_runCall]
      refine hprepared.trans (Course.evolves hcourse hcalled) ?_
      rintro t ht rfl
      exact Nat.lt_irrefl _ ht

/-- What a call of a function cannot do to the rest, and the rest not to it. -/
structure CallIsolation (limits : Limits) (script : Code) (budget : Nat) (m : Machine)
    (calls : List Activation) (f : UserFunction) (label : String) (args : List Value) : Prop where
  /-- However the call ends, all tables but the global one are as before. -/
  kept : ∀ span t, t ≠ globalTable → t.index < m.env.tables.size →
    (Step.callUser limits (evalExpr limits budget) (sequence (execStmt limits budget) none) f label
      args span m).machine.env.table t = m.env.table t
  /-- When the body starts, the table of the call binds what the closure binds, overridden by a new
  cell for every name of a parameter. -/
  parameters : ∀ later, Step.bindParameters (evalExpr limits budget) ⟨m.env.tables.size⟩ f.parameters
      args (m.called f label args.length) = .done () later →
    m.env.Overrides f.closure (f.parameters.map (·.name)) later.env ⟨m.env.tables.size⟩ ∧
      ∀ n n' x, later.env.ownCell? ⟨m.env.tables.size⟩ n = some x →
        later.env.ownCell? ⟨m.env.tables.size⟩ n' = some x → n = n'
  /-- Until the call ends, its table binds cells of the closure, global cells, and new ones. -/
  bound : ∀ c, Course limits script (calls.length + 1)
      ⟨m.called f label args.length, ⟨f, f.parameters⟩ :: calls⟩ c →
    ∀ n x, c.machine.env.ownCell? ⟨m.env.tables.size⟩ n = some x →
      m.env.ownCell? f.closure n = some x ∨ c.machine.env.ownCell? globalTable n = some x ∨
        m.env.cells.size ≤ x.index
  /-- A name that the table does not bind yet is assigned to through a cell that no table binds. -/
  assigned : ∀ c, Course limits script (calls.length + 1)
      ⟨m.called f label args.length, ⟨f, f.parameters⟩ :: calls⟩ c →
    ∀ name value, c.machine.env.ownCell? c.machine.frame.table name = none →
      (c.machine.assign c.machine.frame.table name value).env.ownCell? c.machine.frame.table name =
          some ⟨c.machine.env.cells.size⟩ ∧
        ∀ t n, c.machine.env.ownCell? t n ≠ some ⟨c.machine.env.cells.size⟩

/-- Calls of a sound situation are isolated; soundness is all that is used of reachability. -/
theorem callIsolation (script : Code) (budget : Nat) (hc : Situation.Sound ⟨m, calls⟩)
    (hf : Function.user f ∈ m.heap.functions) (label : String) (args : List Value) :
    CallIsolation limits script budget m calls f label args := by
  have hcalled := hc.called hf label args.length
  have hcopied := hc.ownCell?_prepared hf label args.length
  exact
    { kept := fun span t hne ht =>
        (evolves_callUser script budget hc hf label args span).kept t hne ht id
      parameters := fun later hdone => by
        have hstart : Binding m.env f calls ⟨m.env.tables.size⟩ [] f.parameters
            (m.called f label args.length) :=
          ⟨hcalled, rfl, Nat.le_refl _, fun n hn => (List.not_mem_nil hn).elim,
            fun n _ => hcopied n⟩
        have hend := binding_bindParameters script budget f.parameters args [] _ hstart
          (fun l hl => List.mem_append_left _ hl) later hdone
        have hnames : ∀ n, n ∈ (f.parameters.map (·.name)).reverse ++ [] ↔
            n ∈ f.parameters.map (·.name) := fun n => by
          rw [List.append_nil, List.mem_reverse]
        refine ⟨⟨fun n hn => hend.overrides.fresh n ((hnames n).mpr hn),
          fun n hn => hend.overrides.others n (mt (hnames n).mp hn)⟩, fun n n' x hx hx' => ?_⟩
        exact hend.sound.env.name_unique hx hx'
      bound := fun c hcourse n x hx => by
        have hevolves := Course.evolves hcourse hcalled
        have hlt := hcalled.frame_table_lt
        refine (hevolves.bound _ n x hlt hx).imp_left fun hold => ?_
        rw [← hcopied]
        exact hold
      assigned := fun c hcourse name value hname => by
        have hsound : c.Sound := Course.sound hcourse hcalled
        refine ⟨?_, fun t n hx => Nat.lt_irrefl _ (hsound.env.cell_lt hx)⟩
        show (c.machine.env.set _ name value).2.ownCell? _ name = _
        rw [Env.ownCell?_set hsound.frame_table_lt, if_pos ⟨rfl, rfl, hname⟩] }

/-- A new closure binds cells of the active table, and global cells. -/
theorem ownCell?_functionOf (hc : m.env.Sound) (name : Option String) (span : Span) (l : Literal)
    {n : String} {x : CellRef}
    (hx : (Step.makeFunction limits name span l.parameters l.body m).machine.env.ownCell?
      (m.functionOf name l).closure n = some x) :
    m.env.ownCell? m.frame.table n = some x ∨
      (Step.makeFunction limits name span l.parameters l.body m).machine.env.ownCell? globalTable n =
        some x := by
  have hmakes := makes_makeFunction hc limits name span l
  by_cases hglobal : n ∈ m.frame.globalNames
  · obtain ⟨y, hy, hroot⟩ := hmakes.shares n hglobal
    rw [hx] at hy
    cases hy
    exact .inr hroot
  · by_cases hcaptures : m.Captures limits.capture l n
    · exact .inl ((hmakes.captured n hglobal hcaptures).symm.trans hx)
    · rw [hmakes.dropped n hglobal hcaptures] at hx
      cases hx

end Isolation

/-- Functions that are made in different calls of one function have no cell in common but those of
the closure of that function and global ones. -/
def Situation.CallsApart (limits : Limits) (script : Code) (c : Situation) : Prop :=
  ∀ a rest, c.calls = a :: rest → ∀ name span l, a.function.code.literal l →
    ∀ c' a' rest', Course limits script 0
        ⟨(Step.makeFunction limits name span l.parameters l.body c.machine).machine, c.calls⟩ c' →
      c'.calls = a' :: rest' → a'.function = a.function →
      c'.machine.frame.table ≠ c.machine.frame.table →
      ∀ name' span' l' n n' x,
        (Step.makeFunction limits name span l.parameters l.body c.machine).machine.env.ownCell?
          (c.machine.functionOf name l).closure n = some x →
        (Step.makeFunction limits name' span' l'.parameters l'.body c'.machine).machine.env.ownCell?
          (c'.machine.functionOf name' l').closure n' = some x →
        c'.machine.env.ownCell? a.function.closure n' = some x ∨
          (Step.makeFunction limits name' span' l'.parameters l'.body
            c'.machine).machine.env.ownCell? globalTable n' = some x

/-- Calls are apart if every cell that is not shared has a home. -/
theorem callsApart {limits : Limits} {script : Code} {c : Situation} {home : CellRef → TableRef}
    (hc : c.Sound) (hhome : c.Homes home) : c.CallsApart limits script := by
  obtain ⟨m, calls⟩ := c
  rintro a rest rfl name span l hl ⟨m', calls'⟩ a' rest' hcourse rfl hfunction hne name' span' l' n n'
    x hx hx'
  have hmake : Course limits script 0 ⟨m, a :: rest⟩
      ⟨(Step.makeFunction limits name span l.parameters l.body m).machine, a :: rest⟩ :=
    .single (Nat.zero_le _) (.makeFunction m (a :: rest) name span l hl)
  have hwhole := hmake.trans hcourse
  have hc' := hwhole.sound hc
  obtain ⟨home', hhome', hsame⟩ := hhome.course hc hwhole
  have hclosure := hwhole.closure_kept hc (hc.running a List.mem_cons_self)
  have hroot : ∀ {n}, m'.env.ownCell? globalTable n = some x → _ :=
    (makes_makeFunction hc'.env limits name' span' l').evolves.global _ x
  -- What the second closure takes from its table is at home there, or else in the closure of the
  -- function or global.
  refine (ownCell?_functionOf hc'.env name' span' l' hx').elim (fun hown => ?_) .inr
  rcases hhome' _ _ hc'.active_mem_stack n' x hown with hcaptured | hglobal | hthere
  · exact .inl (hfunction ▸ hcaptured)
  · exact .inr (hroot hglobal)
  -- So is what the first closure took from its table, and there the cell cannot be at home.
  · rcases ownCell?_functionOf hc.env name span l hx with hold | hglobal
    · rcases hhome _ _ hc.active_mem_stack n x hold with hcaptured | hglobal | hhere
      · have hkept : m'.env.ownCell? a.function.closure n = some x := by
          rw [Env.ownCell?, hclosure.2]
          exact hcaptured
        obtain rfl := hc'.env.name_unique hkept hown
        exact .inl hkept
      · have hkept := hwhole.global_kept hc hglobal
        obtain rfl := hc'.env.name_unique hkept hown
        exact .inr (hroot hkept)
      · rw [← hthere, hsame x (hc.env.cell_lt hold), hhere] at hne
        exact absurd rfl hne
    · have hkept := hcourse.global_kept (hmake.sound hc) hglobal
      obtain rfl := hc'.env.name_unique hkept hown
      exact .inr (hroot hkept)

/-- How calls of functions of the script are isolated in a situation. -/
structure Situation.CallsIsolated (limits : Limits) (script : Code) (budget : Nat) (c : Situation) :
    Prop where
  calls : ∀ f, Function.user f ∈ c.machine.heap.functions → ∀ label args,
    CallIsolation limits script budget c.machine c.calls f label args
  apart : c.CallsApart limits script

/-- **Calls are isolated.** From every state of a session on, for every call of a function of the
script: however it ends, all tables but the global one are as before; its own table starts with the
bindings of the closure, overridden by new cells for the parameters, and takes in nothing but global
and new cells; and functions made in two calls of one function share no other cells than those of
its closure and global ones. -/
theorem calls_are_isolated (config : Config) (registry : Registry) (arrays : Array (Array Value))
    (dictionaries : Array Dictionary) (budget : Nat) {limits : Limits} {script : Code} {k : Machine}
    (hk : Session.Reaches limits script (Session.start config registry { arrays, dictionaries }) k) :
    Session.Throughout limits script (Session.start config registry { arrays, dictionaries }) k
      (Situation.CallsIsolated limits script budget) := by
  refine hk.throughout fun c hc => ?_
  have hsound := Session.sound_of_reachable hc
  obtain ⟨home, hhome⟩ := Session.exists_homes hc
  exact ⟨fun f hf label args => callIsolation script budget hsound hf label args,
    callsApart hsound hhome⟩

/-- In a call of a function with a parameter, when its body starts. -/
theorem calls_are_isolated_in_body :
    let span : Span := ⟨none, .start, .start⟩
    let l : Literal :=
      ⟨[.mk span "x" none], .mk span [.assignVariable span span "y" (.name span "x")]⟩
    let start := Session.start { loadBuiltins := false } .standard
    let m := ((Session.Request.evaluateStmt
      (.assignVariable span span "f" (.function span l.parameters l.body))).perform {} 1
        start).machine
    let f := start.functionOf (some "f") l
    let k := (m.called f "f" 1).define ⟨m.env.tables.size⟩ "x" (some (.boolean true))
    Session.Reaches {} .any start k ∧
      Session.Throughout {} .any start k (Situation.CallsIsolated {} .any 9) := by
  intro span l start m f k
  have hm : Session.Idle {} .any start m :=
    .request .start (.evaluateStmt _) (Session.Request.within_any _) 1
  have hk : Session.Reaches {} .any start k :=
    hm.reaches_body ⟨0⟩ [.boolean true] (f := f) rfl (by decide) (by decide) (fun _ => rfl) rfl
  exact ⟨hk, calls_are_isolated { loadBuiltins := false } .standard #[] #[] 9 hk⟩

end DecimalScript
