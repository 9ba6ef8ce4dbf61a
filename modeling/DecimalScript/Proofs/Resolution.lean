import DecimalScript.Proofs.ExactCaptures
import DecimalScript.Proofs.GlobalNames

/-!
# Which cells names mean

In the table of a frame a name means its own cell or else the global one. `GlobalsResolved` says
when that is the global cell for the names that count as global: for all of them at top level, and
in a call for those that the function does not hide; a name that it does hide means the global cell
from when a declaration runs until the call ends.

`ClosureSees` says what that makes of function literals. A name that is not global for the frame
means the same cell in the closure as around the literal. A global name means the global cell in the
closure, whatever it means around the literal; the two differ only where the function that runs
hides the name. -/

namespace DecimalScript

open Machine (globalTable)

/-! ### What a call goes on sharing -/

/-- As long as a call is not left, its table goes on sharing what it shares once its parameters are
bound: an assignment goes through the shared cell, and a declaration shares one more. -/
theorem Transition.shares_kept {limits : Limits} {script : Code} {c c' : Situation}
    (h : Transition limits script c c') (hc : c.Sound) {t : TableRef} (hne : t ≠ globalTable)
    (ht : t.index < c.machine.env.tables.size) {n : String} (hn : c.machine.env.Shares t n)
    (hsettled : t = c.machine.frame.table → Settled c.calls) : c'.machine.env.Shares t n := by
  -- Tables other than the active one do not change at all.
  by_cases hactive : t = c.machine.frame.table
  · subst hactive
    have hsettled := hsettled rfl
    have hevolves : (c.machine.env.Evolves (fun _ => False) c'.machine.env) →
        c'.machine.env.Shares c.machine.frame.table n := fun hevolves =>
      (hevolves.shares_iff hc.env hne ht id).mpr hn
    cases h with
    | record | data | leave => exact hn
    | makeFunction m calls name span l hl =>
      exact hevolves (makes_makeFunction hc.env limits name span l).evolves
    | refuse m calls f label arguments hf => exact hevolves (hc.evolves_prepared f label arguments)
    | enter m calls f label arguments hf hdepth =>
      exact hevolves (hc.evolves_prepared f label arguments)
    | bindParameter m calls f p ps value => cases hsettled
    | assign m calls name value _ => exact (hc.env.shares_set ht hne name _).mpr hn
    | declareGlobal m calls name _ hname =>
      cases calls with
      | nil =>
        dsimp only
        rw [hc.env_declareGlobal_bottom]
        exact hn
      | cons a rest => exact ((hc.imports_declareGlobal name).shares_iff hc.env).mpr (.inr hn)
    | signal m calls value _ =>
      dsimp only
      rw [env_modifyFrame]
      exact hn
    | hostAssign m name value => exact absurd hc.frame_table_eq hne
  · exact ((h.evolves hc).shares_iff hc.env hne ht hactive).mpr hn

/-- A call that runs its body, below further calls, still does. -/
theorem Course.shares_kept {limits : Limits} {script : Code} {m : Machine} {f : UserFunction}
    {rest : List Activation} {c' : Situation} (hc : Situation.Sound ⟨m, ⟨f, []⟩ :: rest⟩)
    (h : Course limits script (rest.length + 1) ⟨m, ⟨f, []⟩ :: rest⟩ c') {n : String}
    (hn : m.env.Shares m.frame.table n) : c'.machine.env.Shares m.frame.table n := by
  obtain ⟨_, _, hframe, _⟩ := hc.active
  have hinvariant : ∀ {d}, Course limits script (rest.length + 1) ⟨m, ⟨f, []⟩ :: rest⟩ d →
      d.machine.env.Shares m.frame.table n ∧ (rest.length + 1 ≤ d.calls.length →
        ∃ above, d.calls = above ++ ⟨f, []⟩ :: rest) := by
    intro d h
    induction h with
    | refl => exact ⟨hn, fun _ => ⟨[], rfl⟩⟩
    | @tail d e hcourse hlast ih =>
      obtain ⟨hdepth, hstep⟩ := hlast
      have hd : d.Sound := Course.sound hcourse hc
      obtain ⟨hshares, habove⟩ := ih
      obtain ⟨above, hcalls⟩ := habove hdepth
      have hevolves := Course.evolves (c := ⟨m, ⟨f, []⟩ :: rest⟩) hcourse hc
      have hlt := Nat.lt_of_lt_of_le hframe.table_lt hevolves.tables
      refine ⟨hstep.shares_kept hd hframe.table_ne hlt hshares fun hactive => ?_, fun hdepth' => ?_⟩
      · -- Further calls run with other tables.
        cases above with
        | nil => rw [hcalls]; rfl
        | cons a above =>
          have hnew := Course.active_new (c := ⟨m, ⟨f, []⟩ :: rest⟩) hcourse hc (by
            rw [hcalls]
            simp only [List.length_append, List.length_cons]
            omega)
          rw [← hactive] at hnew
          exact absurd hframe.table_lt (Nat.not_lt_of_le hnew)
      · rcases hstep.calls_above hcalls hdepth' with hkept | ⟨-, p, qs, hbound, -⟩
        · exact hkept
        · cases hbound
  exact (hinvariant h).1

/-! ### A name that is declared late -/

namespace LateDeclaration

def span : Span := ⟨none, .start, .start⟩

/-- The literal `function() { return a; }`. -/
def getter : Literal :=
  ⟨[], .mk span [.ret span (.name span "a")]⟩

/-- The literal `function() { a = 2; g = function() { return a; }; global a; }`. -/
def setter : Literal :=
  ⟨[], .mk span
    [.assignVariable span span "a" (.number span (.ofNat 2) "2"),
      .assignVariable span span "g" (.function span getter.parameters getter.body),
      .declareGlobal span ["a"]]⟩

def start : Machine :=
  Session.start { loadBuiltins := false } .standard

/-- After the assignment of the second literal to `f` at top level. -/
def defined : Machine :=
  ((Session.Request.evaluateStmt
    (.assignVariable span span "f" (.function span setter.parameters setter.body))).perform {} 1
      start).machine

/-- In the call `f()`, when the body starts. -/
def started : Machine :=
  defined.called (start.functionOf (some "f") setter) "f" 0

/-- In the call `f()`, after `a = 2`. -/
def assigned : Machine :=
  started.assign started.frame.table "a" (some (.ofDecimal (.ofNat 2)))

theorem mem_globalNames : "a" ∈ assigned.frame.globalNames :=
  Capture.mem_globals_ofFunction.mpr (.inr rfl)

/-- The assignment makes a cell, after that of `f`. -/
theorem cell?_table : assigned.env.cell? assigned.frame.table "a" = some ⟨1⟩ := by
  decide +kernel

theorem ownCell?_globalTable : assigned.env.ownCell? globalTable "a" = none := by
  decide +kernel

theorem reaches : Session.Reaches {} .any start assigned := by
  have hm : Session.Idle {} .any start defined :=
    .request .start (.evaluateStmt _) (Session.Request.within_any _) 1
  have hne : started ≠ assigned := fun heq => by
    have hsize : started.env.cells.size ≠ assigned.env.cells.size := by decide +kernel
    exact hsize (congrArg (·.env.cells.size) heq)
  exact hm.reaches_second ⟨0⟩ [] (f := start.functionOf (some "f") setter) rfl (by decide)
    (by decide) (fun _ => rfl) rfl rfl hne rfl

end LateDeclaration

/-! ### Global names in frames -/

/-- Which names that are global for a frame mean the global cell. -/
structure Situation.GlobalsResolved (limits : Limits) (script : Code) (c : Situation) : Prop where
  /-- At top level all names mean the global cell. -/
  bottom : ∀ n, c.machine.env.cell? c.machine.root.table n = c.machine.env.ownCell? globalTable n
  /-- In a call all global names do, except for parameters of the function and names that it
  declares itself. -/
  frames : ∀ frame a, (frame, a) ∈ c.machine.calls.zip c.calls → ∀ n ∈ frame.globalNames,
    ¬a.function.Hides n → c.machine.env.cell? frame.table n = c.machine.env.ownCell? globalTable n
  /-- A name that the running function declares means the global cell as soon as that is done. -/
  declared : ∀ a rest, c.calls = a :: rest → ∀ n,
    (Step.declareGlobal c.machine n).env.Shares c.machine.frame.table n
  /-- A name that shares the global cell when the parameters have been bound does so until the call
  ends. -/
  kept : ∀ a rest, c.calls = a :: rest → a.unbound = [] → ∀ n,
    c.machine.env.Shares c.machine.frame.table n →
      ∀ c', Course limits script (rest.length + 1) c c' →
        c'.machine.env.cell? c.machine.frame.table n = c'.machine.env.ownCell? globalTable n

/-- **Global names mean the global cell, unless the function hides them.** From every state of a
session on: at top level always; in a call for all names that are global for the frame but
parameters and those that the function declares itself, and for these from when a declaration has
run until the call ends. -/
theorem global_names_resolve_unless_hidden (config : Config) (registry : Registry)
    (arrays : Array (Array Value)) (dictionaries : Array Dictionary) {limits : Limits} {script : Code}
    {k : Machine}
    (hk : Session.Reaches limits script (Session.start config registry { arrays, dictionaries }) k) :
    Session.Throughout limits script (Session.start config registry { arrays, dictionaries }) k
      (Situation.GlobalsResolved limits script) := by
  refine hk.throughout fun c hc => ?_
  have hsound := Session.sound_of_reachable hc
  -- The claims are about a frame together with its activation, so the two lists are read in step.
  have hframe : ∀ frame a, (frame, a) ∈ c.machine.calls.zip c.calls →
      frame.Sound c.machine.env a := fun frame a hmem =>
    (List.forall₂_iff_zip.mp hsound.frames).2 hmem
  exact
    { bottom := fun n => by
        have hlt : globalTable.index < c.machine.env.tables.size := hsound.env.nonempty
        rw [hsound.root, hsound.env.cell?_eq hlt, Option.or_self]
      frames := fun frame a hmem n hn hhides =>
        (((hframe frame a hmem).shares n hn).resolve_right hhides).cell?_eq
      declared := fun a rest hcalls n => by
        obtain ⟨m, calls⟩ := c
        cases hcalls
        exact (hsound.imports_declareGlobal n).shares n (List.mem_singleton.mpr rfl)
      kept := fun a rest hcalls hunbound n hn c' hcourse => by
        obtain ⟨m, calls⟩ := c
        cases hcalls
        obtain ⟨f, unbound⟩ := a
        cases hunbound
        exact (Course.shares_kept hsound hcourse hn).cell?_eq }

open LateDeclaration in
/-- In a call whose function declares a name later on. -/
theorem global_names_resolve_before_declaration :
    Session.Reaches {} .any start assigned ∧
      Session.Throughout {} .any start assigned (Situation.GlobalsResolved {} .any) :=
  ⟨reaches, global_names_resolve_unless_hidden { loadBuiltins := false } .standard #[] #[] reaches⟩

open LateDeclaration in
/-- Before its declaration runs, a global name can mean a cell of the call. -/
theorem late_declaration_leaves_name_local :
    Session.Reaches {} .any start assigned ∧ assigned.frame ∈ assigned.calls ∧
      "a" ∈ assigned.frame.globalNames ∧
      assigned.env.cell? assigned.frame.table "a" ≠ assigned.env.ownCell? globalTable "a" := by
  refine ⟨reaches, List.mem_cons_self, mem_globalNames, ?_⟩
  rw [cell?_table, ownCell?_globalTable]
  exact Option.some_ne_none _

/-! ### Names in closures -/

/-- Which cells the names of a literal mean in the closure, compared with the table around it. -/
structure Situation.ClosureSees (limits : Limits) (c : Situation) (name : Option String)
    (span : Span) (l : Literal) : Prop where
  /-- A free name that is not declared in the literal, and not global around it, means the same
  cell. -/
  same : ∀ n x, Free.inFunction n l.parameters l.body = true →
    DeclaresWithin.inFunction n l.parameters l.body = false → n ∉ c.machine.frame.globalNames →
    c.machine.env.cell? c.machine.frame.table n = some x →
      (Step.makeFunction limits name span l.parameters l.body c.machine).machine.env.cell?
        (c.machine.functionOf name l).closure n = some x
  /-- A name that is global around the literal means the global cell. -/
  global : ∀ n ∈ c.machine.frame.globalNames,
    (Step.makeFunction limits name span l.parameters l.body c.machine).machine.env.Shares
      (c.machine.functionOf name l).closure n
  /-- That is the same cell if and only if it means the global cell around the literal, too. -/
  globalSame : ∀ n ∈ c.machine.frame.globalNames, ∀ x,
    c.machine.env.cell? c.machine.frame.table n = some x →
      ((Step.makeFunction limits name span l.parameters l.body c.machine).machine.env.cell?
        (c.machine.functionOf name l).closure n = some x ↔
          c.machine.env.ownCell? globalTable n = some x)
  /-- It is another cell only where the function that runs hides the name. -/
  hidden : ∀ n ∈ c.machine.frame.globalNames, ∀ x,
    c.machine.env.cell? c.machine.frame.table n = some x →
      c.machine.env.ownCell? globalTable n ≠ some x →
        ∃ a rest, c.calls = a :: rest ∧ a.function.Hides n

section Closures

variable {m : Machine} {calls : List Activation} {l : Literal} {n : String} {x : CellRef}

/-- A name that is bound in the table of a call, free in a literal, declared nowhere in it and not
global around it, is captured. -/
theorem Machine.captures_of_free (hlocal : m.env.isGlobal m.frame.table = false)
    (mode : CaptureMode) (hfree : Free.inFunction n l.parameters l.body = true)
    (hundeclared : DeclaresWithin.inFunction n l.parameters l.body = false)
    (hglobal : n ∉ m.frame.globalNames) (hx : m.env.ownCell? m.frame.table n = some x) :
    m.Captures mode l n := by
  refine ⟨hlocal, fun _ => ?_⟩
  rw [literalScope_of_local hlocal, Capture.mem_upvalues_ofFunction_iff hundeclared]
  exact ⟨⟨Env.mem_names_of_ownCell? hx, hglobal⟩, hfree⟩

/-- A cell that a name means is its own in the table, or the global one. -/
theorem Situation.Sound.frame_cell?_eq_some (hc : Situation.Sound ⟨m, calls⟩)
    (hx : m.env.cell? m.frame.table n = some x) :
    m.env.ownCell? m.frame.table n = some x ∨
      m.env.ownCell? m.frame.table n = none ∧ m.env.ownCell? globalTable n = some x := by
  rw [hc.env.cell?_eq hc.frame_table_lt] at hx
  exact Option.or_eq_some_iff.mp hx

/-- A free name that the literal does not declare, and that is not global around it, means the same
cell in the closure. -/
theorem Situation.Sound.cell?_closure_of_free (hc : Situation.Sound ⟨m, calls⟩) {later : Machine}
    {mode : CaptureMode} {name : Option String} (hmakes : m.Makes later mode name l)
    (hfree : Free.inFunction n l.parameters l.body = true)
    (hundeclared : DeclaresWithin.inFunction n l.parameters l.body = false)
    (hn : n ∉ m.frame.globalNames) (hx : m.env.cell? m.frame.table n = some x) :
    later.env.cell? (m.functionOf name l).closure n = some x := by
  rw [hmakes.sound.cell?_eq (t := (m.functionOf name l).closure) hmakes.exists_closure,
    Option.or_eq_some_iff]
  rcases hc.frame_cell?_eq_some hx with hown | ⟨hown, hroot⟩
  · cases hlocal : m.env.isGlobal m.frame.table with
    | true =>
      -- Around the literal there is the global table only, and nothing is captured.
      have hdropped := hmakes.dropped n hn fun hcaptures => by
        rw [hcaptures.1] at hlocal
        cases hlocal
      rw [(hc.env.isGlobal_iff hc.frame_table_lt).mp hlocal] at hown
      exact .inr ⟨hdropped, hmakes.evolves.global n x hown⟩
    | false =>
      have hcaptures := Machine.captures_of_free hlocal mode hfree hundeclared hn hown
      exact .inl ((hmakes.captured n hn hcaptures).trans hown)
  · -- What the table does not bind, the closure does not bind either.
    have hnone : later.env.ownCell? (m.functionOf name l).closure n = none := by
      by_cases hcaptures : m.Captures mode l n
      · exact (hmakes.captured n hn hcaptures).trans hown
      · exact hmakes.dropped n hn hcaptures
    exact .inr ⟨hnone, hmakes.evolves.global n x hroot⟩

/-- A name that is global around the literal means the global cell in the closure, and that is the
one that the name means around the literal only if it is the global one there, too. -/
theorem Situation.Sound.cell?_closure_of_global (hc : Situation.Sound ⟨m, calls⟩) {later : Machine}
    {mode : CaptureMode} {name : Option String} (hmakes : m.Makes later mode name l)
    (hn : n ∈ m.frame.globalNames) (hx : m.env.cell? m.frame.table n = some x) :
    later.env.cell? (m.functionOf name l).closure n = some x ↔
      m.env.ownCell? globalTable n = some x := by
  rw [(hmakes.shares n hn).cell?_eq]
  refine ⟨fun hlater => ?_, hmakes.evolves.global n x⟩
  refine (hmakes.evolves.globalNew n x hlater).resolve_right (Nat.not_le_of_lt ?_)
  -- The cell is that of a table before the literal was evaluated, so it is not a new one.
  rcases hc.frame_cell?_eq_some hx with hown | ⟨-, hroot⟩
  · exact hc.env.cell_lt hown
  · exact hc.env.cell_lt hroot

/-- A global name means another cell than the global one only where the running function hides it.
-/
theorem Situation.Sound.hides_of_cell?_ne (hc : Situation.Sound ⟨m, calls⟩)
    (hn : n ∈ m.frame.globalNames) (hx : m.env.cell? m.frame.table n = some x)
    (hne : m.env.ownCell? globalTable n ≠ some x) :
    ∃ a rest, calls = a :: rest ∧ a.function.Hides n := by
  cases calls with
  | nil =>
    have hlt : globalTable.index < m.env.tables.size := hc.env.nonempty
    rw [hc.frame_table_eq, hc.env.cell?_eq hlt, Option.or_self] at hx
    exact absurd hx hne
  | cons a rest =>
    obtain ⟨_, _, hframe, _⟩ := hc.active
    refine ⟨a, rest, rfl, (hframe.shares n hn).resolve_left fun hshares => hne ?_⟩
    rw [← hshares.cell?_eq]
    exact hx

/-- A closure of a sound situation shares the cells of what it captures. -/
theorem Situation.Sound.closureSees (hc : Situation.Sound ⟨m, calls⟩) (limits : Limits)
    (name : Option String) (span : Span) (l : Literal) :
    ClosureSees limits ⟨m, calls⟩ name span l := by
  have hmakes : m.Makes _ limits.capture name l := makes_makeFunction hc.env limits name span l
  exact
    { same := fun n x hfree hundeclared hn hx =>
        hc.cell?_closure_of_free hmakes hfree hundeclared hn hx
      global := hmakes.shares
      globalSame := fun n hn x hx => hc.cell?_closure_of_global hmakes hn hx
      hidden := fun n hn x hx hne => hc.hides_of_cell?_ne hn hx hne }

end Closures

/-- **A closure sees the variables around its literal, unless they are hidden from it.** From every
state of a session on, for every function literal evaluated in the active frame: a free name that
the literal does not declare and that is not global for the frame means the same cell in the closure
as around it; a name that is global for the frame means the global cell in the closure, which is
another one than around it only if the function that runs hides the name. -/
theorem closures_see_what_is_not_hidden (config : Config) (registry : Registry)
    (arrays : Array (Array Value)) (dictionaries : Array Dictionary) {limits : Limits} {script : Code}
    {k : Machine}
    (hk : Session.Reaches limits script (Session.start config registry { arrays, dictionaries }) k) :
    Session.Throughout limits script (Session.start config registry { arrays, dictionaries }) k
      fun c => ∀ name span l, c.ClosureSees limits name span l :=
  hk.throughout fun _ hc => (Session.sound_of_reachable hc).closureSees limits

open LateDeclaration in
/-- Around a literal in a call whose function declares a name later on. -/
theorem closures_see_before_declaration :
    Session.Reaches {} .any start assigned ∧
      Session.Throughout {} .any start assigned fun c =>
        ∀ name span l, c.ClosureSees {} name span l :=
  ⟨reaches, closures_see_what_is_not_hidden { loadBuiltins := false } .standard #[] #[] reaches⟩

open LateDeclaration in
/-- A closure does not see the cell of a variable that is declared global later on. -/
theorem late_declaration_hides_variable :
    Session.Reaches {} .any start assigned ∧
      Free.inFunction "a" getter.parameters getter.body = true ∧
      DeclaresWithin.inFunction "a" getter.parameters getter.body = false ∧
      assigned.env.cell? assigned.frame.table "a" = some ⟨1⟩ ∧
      (Step.makeFunction {} (some "g") span getter.parameters getter.body
          assigned).machine.env.cell? (assigned.functionOf (some "g") getter).closure "a" ≠
        some ⟨1⟩ := by
  refine ⟨reaches, by decide +kernel, by decide +kernel, cell?_table, ?_⟩
  decide +kernel

end DecimalScript
