import DecimalScript.Proofs.CorrespondingLists
import DecimalScript.Proofs.SessionCourse
import DecimalScript.Proofs.TableUpdates

/-!
# What holds in every situation

Tables reach global variables in two ways. A name that a table does not bind itself falls back on
the global table when it is read, and a name whose global cell is shared with the table is written
there, too. The invariant `Situation.Sound` says which names are shared, of the closures of
functions and of the tables of calls in progress: no others than those that count as global for the
function or the frame, and of these all but the ones that are parameters or that the function itself
declares.

It is kept by every transition (`Transition.sound`), and holds at the start of a session, so it
holds in every situation that is reachable from there (`Session.sound_of_reachable`). How the tables
move in a single transition is `Transition.evolves`: the table of the active frame may change, and
the global one may grow. -/

namespace DecimalScript

open Machine (globalTable)

/-! ### Making functions -/

namespace Machine

/-- The function that a literal becomes in the active frame. -/
def functionOf (m : Machine) (name : Option String) (l : Literal) : UserFunction where
  name := name
  parameters := l.parameters
  body := l.body
  closure := ⟨m.env.tables.size⟩
  globalNames := (Step.literalScope m l.parameters l.body).globals

/-- A literal takes the cell of a name from the table of the active frame. -/
def Captures (m : Machine) (mode : CaptureMode) (l : Literal) (n : String) : Prop :=
  m.env.isGlobal m.frame.table = false ∧
    (mode = .used → n ∈ (Step.literalScope m l.parameters l.body).upvalues)

/-- What making a function leaves behind: the new closure shares what is global in the active frame,
and beyond that binds what the literal captures. -/
structure Makes (m later : Machine) (mode : CaptureMode) (name : Option String) (l : Literal) :
    Prop where
  functions : later.heap.functions = m.heap.functions.push (.user (m.functionOf name l))
  frames : later.frames = m.frames
  sound : later.env.Sound
  evolves : m.env.Evolves (fun _ => False) later.env
  exists_closure : m.env.tables.size < later.env.tables.size
  shares : ∀ n ∈ m.frame.globalNames, later.env.Shares (m.functionOf name l).closure n
  captured : ∀ n, n ∉ m.frame.globalNames → m.Captures mode l n →
    later.env.ownCell? (m.functionOf name l).closure n = m.env.ownCell? m.frame.table n
  dropped : ∀ n, n ∉ m.frame.globalNames → ¬m.Captures mode l n →
    later.env.ownCell? (m.functionOf name l).closure n = none

end Machine

/-- A captured table is a new one with bindings of the table around it. -/
theorem exists_capture (env : Env) (t : TableRef) (upvalues : Names) (mode : CaptureMode) :
    ∃ bindings, Step.capture env t upvalues mode = env.addTable ⟨some globalTable, bindings⟩ ∧
      (∀ n, env.isGlobal t = false → (mode = .used → n ∈ upvalues) →
        Bindings.cell? bindings n = env.ownCell? t n) ∧
      ∀ n, ¬(env.isGlobal t = false ∧ (mode = .used → n ∈ upvalues)) →
        Bindings.cell? bindings n = none := by
  -- Both modes start from the inherited bindings, of which the top level has none; only `used`
  -- filters them.
  cases mode with
  | used =>
    refine ⟨_, rfl, fun n hlocal hn => ?_, fun n hnot => ?_⟩
    · rw [Bindings.cell?_filter, if_pos (hn rfl), Env.cell?_inherited, hlocal]
      rfl
    · rw [Bindings.cell?_filter, Env.cell?_inherited]
      by_cases hn : n ∈ upvalues
      · have hglobal : env.isGlobal t = true := by
          refine Bool.of_not_eq_false fun hlocal => hnot ⟨hlocal, fun _ => hn⟩
        rw [if_pos hn, if_pos hglobal]
      · exact if_neg hn
  | everything =>
    refine ⟨_, rfl, fun n hlocal _ => ?_, fun n hnot => ?_⟩
    · rw [Env.cell?_inherited, hlocal]
      rfl
    · have hglobal : env.isGlobal t = true := by
        refine Bool.of_not_eq_false fun hlocal => hnot ⟨hlocal, fun h => by cases h⟩
      rw [Env.cell?_inherited, if_pos hglobal]

/-- Importing global names changes the environment alone. -/
theorem importGlobals_eq (t : TableRef) :
    ∀ (names : List String) (m : Machine),
      names.foldl (fun m n => m.importGlobal t n) m =
        { m with env := names.foldl (fun env n => (env.importGlobal t n).2) m.env }
  | [], _ => rfl
  | name :: names, m => importGlobals_eq t names (m.importGlobal t name)

/-- A function is made with the table of what it captures, and put into the heap. -/
theorem makeFunction_machine (limits : Limits) (name : Option String) (span : Span) (l : Literal)
    (m : Machine) :
    (Step.makeFunction limits name span l.parameters l.body m).machine =
      let scope := Step.literalScope m l.parameters l.body
      let captured := Step.capture m.env m.frame.table scope.upvalues limits.capture
      { m with
        env := m.frame.globalNames.foldl (fun env n => (env.importGlobal captured.1 n).2) captured.2
        heap := (m.heap.addFunction (.user { m.functionOf name l with closure := captured.1 })).2
        log := (m.log.push (.captureAnalysis span scope)).push
          (.closureMade name scope.upvalues scope.globals) } := by
  unfold Step.makeFunction Step.closeFunction
  simp only [importGlobals_eq]
  rfl

/-- The cells of the new closure, however much it captures. -/
theorem makes_makeFunction {m : Machine} (henv : m.env.Sound) (limits : Limits)
    (name : Option String) (span : Span) (l : Literal) :
    m.Makes (Step.makeFunction limits name span l.parameters l.body m).machine limits.capture
      name l := by
  obtain ⟨bindings, hcapture, hcaptured, hdropped⟩ := exists_capture m.env m.frame.table
    (Step.literalScope m l.parameters l.body).upvalues limits.capture
  have hbindings : ∀ n x, Bindings.cell? bindings n = some x →
      m.env.ownCell? m.frame.table n = some x := by
    intro n x hx
    by_cases hn : m.Captures limits.capture l n
    · rw [← hcaptured n hn.1 hn.2]
      exact hx
    · rw [hdropped n hn] at hx
      cases hx
  -- The closure starts with what it captures; then the global names of the frame are imported.
  let closure : TableRef := ⟨m.env.tables.size⟩
  let env := (m.env.addTable ⟨some globalTable, bindings⟩).2
  have hnew : closure ≠ globalTable := henv.ne_globalTable_of_le (Nat.le_refl _)
  have hin : closure.index < env.tables.size := by
    show m.env.tables.size < env.tables.size
    rw [Env.tables_size_addTable]
    exact Nat.lt_succ_self _
  have hclosure : ∀ n, env.ownCell? closure n = Bindings.cell? bindings n := fun n => by
    rw [Env.ownCell?_addTable]
    exact if_pos rfl
  have himports := Env.imports_importGlobals hnew m.frame.globalNames (henv.addTable hbindings) hin
  have hmachine := makeFunction_machine limits name span l m
  dsimp only at hmachine
  rw [hcapture] at hmachine
  rw [hmachine]
  exact
    { functions := rfl
      frames := rfl
      sound := himports.sound
      evolves := (Env.evolves_addTable _ henv.nonempty _).trans himports.evolves
        fun t ht heq => Nat.lt_irrefl _ (heq ▸ ht)
      exists_closure := Nat.lt_of_lt_of_le hin himports.evolves.tables
      shares := himports.shares
      captured := fun n hn hcaptures => by
        exact (himports.others n hn).trans
          ((hclosure n).trans (hcaptured n hcaptures.1 hcaptures.2))
      dropped := fun n hn hcaptures => by
        exact (himports.others n hn).trans ((hclosure n).trans (hdropped n hcaptures)) }

/-! ### The invariant -/

/-- Names that frames of a function may bind to cells of their own, although they count as global:
its parameters, and what it declares itself. -/
def UserFunction.Hides (f : UserFunction) (n : String) : Prop :=
  (∃ p ∈ f.parameters, p.name = n) ∨ Declares.inBlock n f.body = true

/-- The closure of a function shares the names that are global for the function, except for those
that the function declares itself, and no others. -/
structure UserFunction.Sound (env : Env) (f : UserFunction) : Prop where
  closure_ne : f.closure ≠ globalTable
  closure_lt : f.closure.index < env.tables.size
  declared : ∀ n, Declares.inBlock n f.body = true → n ∈ f.globalNames
  shares : ∀ n ∈ f.globalNames, env.Shares f.closure n ∨ Declares.inBlock n f.body = true
  clean : ∀ n, env.Shares f.closure n → n ∈ f.globalNames

/-- The table of a frame shares the names that are global for the frame, except for those that its
function may hide, and no others. -/
structure Frame.Sound (env : Env) (frame : Frame) (a : Activation) : Prop where
  table_ne : frame.table ≠ globalTable
  table_lt : frame.table.index < env.tables.size
  unbound : ∀ p ∈ a.unbound, p ∈ a.function.parameters
  globals : ∀ n ∈ frame.globalNames, n ∈ a.function.globalNames
  shares : ∀ n ∈ frame.globalNames, env.Shares frame.table n ∨ a.function.Hides n
  clean : ∀ n, env.Shares frame.table n → n ∈ frame.globalNames

/-- The bottom frame runs against the global table; functions and frames have tables of their own.
-/
structure Situation.Sound (c : Situation) : Prop where
  env : c.machine.env.Sound
  root : c.machine.root.table = globalTable
  functions : ∀ f, Function.user f ∈ c.machine.heap.functions → f.Sound c.machine.env
  running : ∀ a ∈ c.calls, Function.user a.function ∈ c.machine.heap.functions
  frames : List.Forall₂ (Frame.Sound c.machine.env) c.machine.calls c.calls
  distinct : (c.machine.calls.map (·.table)).Nodup
  apart : ∀ frame ∈ c.machine.calls, ∀ f, Function.user f ∈ c.machine.heap.functions →
    frame.table ≠ f.closure

section Keeping

variable {env later : Env} {free : TableRef → Prop} {f : UserFunction} {frame : Frame}
  {a : Activation}

theorem UserFunction.Sound.evolves (h : f.Sound env) (henv : env.Sound)
    (hevolves : env.Evolves free later) (hfree : ¬free f.closure) : f.Sound later := by
  have hshares : ∀ n, later.Shares f.closure n ↔ env.Shares f.closure n := fun n =>
    hevolves.shares_iff henv h.closure_ne h.closure_lt hfree
  exact
    { h with
      closure_lt := Nat.lt_of_lt_of_le h.closure_lt hevolves.tables
      shares := fun n hn => (h.shares n hn).imp_left (hshares n).mpr
      clean := fun n hn => h.clean n ((hshares n).mp hn) }

theorem Frame.Sound.evolves (h : frame.Sound env a) (henv : env.Sound)
    (hevolves : env.Evolves free later) (hfree : ¬free frame.table) : frame.Sound later a := by
  have hshares : ∀ n, later.Shares frame.table n ↔ env.Shares frame.table n := fun n =>
    hevolves.shares_iff henv h.table_ne h.table_lt hfree
  exact
    { h with
      table_lt := Nat.lt_of_lt_of_le h.table_lt hevolves.tables
      shares := fun n hn => (h.shares n hn).imp_left (hshares n).mpr
      clean := fun n hn => h.clean n ((hshares n).mp hn) }

end Keeping

theorem Machine.modifyFrame_of_nil {m : Machine} (h : m.calls = []) (g : Frame → Frame) :
    m.modifyFrame g = { m with root := g m.root } := by
  rw [modifyFrame, h]

theorem Machine.modifyFrame_of_cons {m : Machine} {frame : Frame} {frames : List Frame}
    (h : m.calls = frame :: frames) (g : Frame → Frame) :
    m.modifyFrame g = { m with calls := g frame :: frames } := by
  rw [modifyFrame, h]

namespace Situation.Sound

variable {m later : Machine} {a a' : Activation} {calls : List Activation} {f : UserFunction}

/-- The active frame of a call. -/
theorem active (h : Sound ⟨m, a :: calls⟩) :
    ∃ frames, m.calls = m.frame :: frames ∧ m.frame.Sound m.env a ∧
      List.Forall₂ (Frame.Sound m.env) frames calls := by
  have hframes := h.frames
  rcases m with ⟨env, heap, root, _ | ⟨frame, frames⟩, output, log⟩
  · cases hframes
  · cases hframes with
    | cons hframe hrest => exact ⟨frames, rfl, hframe, hrest⟩

/-- Outside calls there is the bottom frame only. -/
theorem calls_eq_nil (h : Sound ⟨m, []⟩) : m.calls = [] :=
  List.forall₂_nil_right_iff.mp h.frames

theorem frame_table_eq (h : Sound ⟨m, []⟩) : m.frame.table = globalTable := by
  unfold Machine.frame
  rw [h.calls_eq_nil]
  exact h.root

theorem frame_table_lt (h : Sound ⟨m, calls⟩) : m.frame.table.index < m.env.tables.size := by
  cases calls with
  | nil =>
    rw [h.frame_table_eq]
    exact h.env.nonempty
  | cons a calls =>
    obtain ⟨_, _, hframe, _⟩ := h.active
    exact hframe.table_lt

theorem table_lt (h : Sound ⟨m, calls⟩) {frame : Frame} (hmem : frame ∈ m.calls) :
    frame.table.index < m.env.tables.size := by
  obtain ⟨a, -, hframe⟩ := exists_of_forall₂ h.frames hmem
  exact hframe.table_lt

/-- No function has the table of the active frame as its closure. -/
theorem closure_ne_frame_table (h : Sound ⟨m, calls⟩) (hf : Function.user f ∈ m.heap.functions) :
    f.closure ≠ m.frame.table := by
  cases calls with
  | nil =>
    rw [h.frame_table_eq]
    exact (h.functions f hf).closure_ne
  | cons a calls =>
    obtain ⟨frames, hcalls, -, -⟩ := h.active
    refine (h.apart m.frame ?_ f hf).symm
    rw [hcalls]
    exact List.mem_cons_self

/-- The functions stay sound while the table of the active frame changes. -/
theorem functions_evolve (h : Sound ⟨m, calls⟩) {env : Env}
    (hevolves : m.env.Evolves (· = m.frame.table) env) (hf : Function.user f ∈ m.heap.functions) :
    f.Sound env :=
  (h.functions f hf).evolves h.env hevolves (h.closure_ne_frame_table hf)

/-- A change of the active frame and of its table, in a call. -/
theorem of_active (h : Sound ⟨m, a :: calls⟩) (henv : later.env.Sound)
    (hevolves : m.env.Evolves (· = m.frame.table) later.env)
    (hfunctions : later.heap.functions = m.heap.functions) (hroot : later.root = m.root)
    (hcalls : later.calls = later.frame :: m.calls.tail)
    (htable : later.frame.table = m.frame.table) (hfunction : a'.function = a.function)
    (hframe : later.frame.Sound later.env a') : Sound ⟨later, a' :: calls⟩ := by
  obtain ⟨frames, hactive, -, hwaiting⟩ := h.active
  have htail : m.calls.tail = frames := by rw [hactive]; rfl
  have htables : later.calls.map (·.table) = m.calls.map (·.table) := by
    rw [hcalls, htail, hactive, List.map_cons, List.map_cons, htable]
  -- The frames below have other tables than the active one, and those do not change.
  have hdistinct := h.distinct
  dsimp only at hdistinct
  rw [hactive, List.map_cons, List.nodup_cons] at hdistinct
  have hothers : ∀ frame ∈ frames, ¬frame.table = m.frame.table := fun frame hmem heq =>
    hdistinct.1 (heq ▸ List.mem_map_of_mem hmem)
  exact
    { env := henv
      root := hroot ▸ h.root
      functions := fun f hf => h.functions_evolve hevolves (hfunctions ▸ hf)
      running := fun b hb => by
        show Function.user b.function ∈ later.heap.functions
        rw [hfunctions]
        rcases List.mem_cons.mp hb with rfl | hb
        · rw [hfunction]
          exact h.running a List.mem_cons_self
        · exact h.running b (List.mem_cons_of_mem _ hb)
      frames := by
        show List.Forall₂ _ later.calls _
        rw [hcalls, htail]
        refine .cons hframe (((List.forall₂_and_left _ _).mpr ⟨hothers, hwaiting⟩).imp ?_)
        exact fun frame b hb => hb.2.evolves h.env hevolves hb.1
      distinct := by
        show (later.calls.map _).Nodup
        rw [htables]
        exact h.distinct
      apart := fun frame hmem f hf => by
        have htable : frame.table ∈ m.calls.map (·.table) := htables ▸ List.mem_map_of_mem hmem
        obtain ⟨old, hold, heq⟩ := List.mem_map.mp htable
        rw [← heq]
        exact h.apart old hold f (hfunctions ▸ hf) }

/-- A change of the bottom frame and of the global table, outside calls. -/
theorem of_bottom (h : Sound ⟨m, []⟩) (henv : later.env.Sound)
    (hevolves : m.env.Evolves (· = m.frame.table) later.env)
    (hfunctions : later.heap.functions = m.heap.functions)
    (hroot : later.root.table = m.root.table) (hcalls : later.calls = m.calls) :
    Sound ⟨later, []⟩ where
  env := henv
  root := hroot.trans h.root
  functions := fun f hf => h.functions_evolve hevolves (hfunctions ▸ hf)
  running := fun _ hb => (List.not_mem_nil hb).elim
  frames := by
    show List.Forall₂ _ later.calls []
    rw [hcalls, h.calls_eq_nil]
    exact .nil
  distinct := by
    show (later.calls.map _).Nodup
    rw [hcalls]
    exact h.distinct
  apart := fun frame hmem f hf => h.apart frame (hcalls ▸ hmem) f (hfunctions ▸ hf)

/-- Growth that leaves all frames and tables alone; new functions come with closures of their own.
-/
theorem of_growth (h : Sound ⟨m, calls⟩) (henv : later.env.Sound)
    (hevolves : m.env.Evolves (fun _ => False) later.env) (hframes : later.frames = m.frames)
    (hold : ∀ f, Function.user f ∈ m.heap.functions → Function.user f ∈ later.heap.functions)
    (hnew : ∀ f, Function.user f ∈ later.heap.functions → Function.user f ∈ m.heap.functions ∨
      f.Sound later.env ∧ m.env.tables.size ≤ f.closure.index) : Sound ⟨later, calls⟩ := by
  obtain ⟨hcalls, hroot⟩ := List.append_inj' hframes rfl
  -- No old table changes, so what a frame knew of its environment still holds.
  have hkeep : ∀ (frame : Frame) a, frame.Sound m.env a → frame.Sound later.env a :=
    fun frame a hframe => hframe.evolves h.env hevolves id
  exact
    { env := henv
      root := List.singleton_inj.mp hroot ▸ h.root
      functions := fun f hf => by
        rcases hnew f hf with hf | hf
        · exact (h.functions f hf).evolves h.env hevolves id
        · exact hf.1
      running := fun a ha => hold _ (h.running a ha)
      frames := by
        show List.Forall₂ _ later.calls calls
        rw [hcalls]
        exact h.frames.imp hkeep
      distinct := by
        show (later.calls.map _).Nodup
        rw [hcalls]
        exact h.distinct
      apart := fun frame hmem f hf heq => by
        rw [show later.calls = m.calls from hcalls] at hmem
        rcases hnew f hf with hf | hf
        · exact h.apart frame hmem f hf heq
        -- A new closure has a table of its own, above that of every frame.
        · exact Nat.not_lt_of_le (heq ▸ hf.2) (h.table_lt hmem) }

/-- What a table of a call shares is global for the active frame. -/
theorem mem_globalNames_of_shares (h : Sound ⟨m, calls⟩)
    (hlocal : m.env.isGlobal m.frame.table = false) {n : String}
    (hn : m.env.Shares m.frame.table n) : n ∈ m.frame.globalNames := by
  cases calls with
  | nil =>
    rw [h.frame_table_eq, Env.isGlobal, h.env.global] at hlocal
    cases hlocal
  | cons a calls =>
    obtain ⟨_, _, hframe, _⟩ := h.active
    exact hframe.clean n hn

/-- A function that is made is sound: its closure has cells of what it captures only. -/
theorem functionOf (h : Sound ⟨m, calls⟩) {mode : CaptureMode} {name : Option String} {l : Literal}
    (hmakes : m.Makes later mode name l) : (m.functionOf name l).Sound later.env where
  closure_ne := h.env.ne_globalTable_of_le (Nat.le_refl _)
  closure_lt := hmakes.exists_closure
  declared := fun n hn => Capture.mem_globals_ofFunction.mpr (.inr hn)
  shares := fun n hn => (Capture.mem_globals_ofFunction.mp hn).imp_left (hmakes.shares n)
  clean := fun n hn => by
    refine Capture.mem_globals_ofFunction.mpr (.inl (Classical.byContradiction fun hnot => hnot ?_))
    obtain ⟨x, hx, hglobal⟩ := hn
    by_cases hcaptures : m.Captures mode l n
    · -- The cell comes from the table around the literal, which shared it already.
      rw [hmakes.captured n hnot hcaptures] at hx
      have hold := (hmakes.evolves.globalNew n x hglobal).resolve_right
        (Nat.not_le_of_lt (h.env.cell_lt hx))
      exact h.mem_globalNames_of_shares hcaptures.1 ⟨x, hx, hold⟩
    · rw [hmakes.dropped n hnot hcaptures] at hx
      cases hx

theorem makeFunction (h : Sound ⟨m, calls⟩) (limits : Limits) (name : Option String) (span : Span)
    (l : Literal) :
    Sound ⟨(Step.makeFunction limits name span l.parameters l.body m).machine, calls⟩ := by
  have hmakes := makes_makeFunction h.env limits name span l
  refine h.of_growth hmakes.sound hmakes.evolves hmakes.frames (fun f hf => ?_) fun f hf => ?_
  · rw [hmakes.functions]
    exact Array.mem_push_of_mem _ hf
  · rw [hmakes.functions] at hf
    refine (Array.mem_push.mp hf).imp_right fun heq => ?_
    cases heq
    exact ⟨h.functionOf hmakes, Nat.le_refl _⟩

/-! ### Calls -/

/-- The table for a call binds what the closure binds. -/
theorem ownCell?_prepared (h : Sound ⟨m, calls⟩) (hf : Function.user f ∈ m.heap.functions)
    (label : String) (arguments : Nat) (n : String) :
    (m.prepared f label arguments).env.ownCell? ⟨m.env.tables.size⟩ n =
      m.env.ownCell? f.closure n := by
  have hf := h.functions f hf
  have hlocal : m.env.isGlobal f.closure = false :=
    h.env.isGlobal_eq_false hf.closure_lt hf.closure_ne
  show ((m.env.addTable _).2).ownCell? _ n = _
  rw [Env.ownCell?_addTable, if_pos rfl]
  show Bindings.cell? (m.env.inherited f.closure) n = _
  rw [Env.cell?_inherited, hlocal]
  rfl

theorem sound_env_prepared (h : Sound ⟨m, calls⟩) (f : UserFunction) (label : String)
    (arguments : Nat) : (m.prepared f label arguments).env.Sound := by
  have hbindings : ∀ n x, Bindings.cell? (m.env.inherited f.closure) n = some x →
      m.env.ownCell? f.closure n = some x := by
    intro n x hx
    rw [Env.cell?_inherited] at hx
    split at hx
    · cases hx
    · exact hx
  exact h.env.addTable hbindings

/-- The table of a call is new, so no other one changes. -/
theorem evolves_prepared (h : Sound ⟨m, calls⟩) (f : UserFunction) (label : String)
    (arguments : Nat) :
    m.env.Evolves (fun _ => False) (m.prepared f label arguments).env :=
  Env.evolves_addTable _ h.env.nonempty _

/-- A call that is prepared is no step of the calls that are active. -/
theorem prepared (h : Sound ⟨m, calls⟩) (f : UserFunction) (label : String) (arguments : Nat) :
    Sound ⟨m.prepared f label arguments, calls⟩ :=
  h.of_growth (h.sound_env_prepared f label arguments) (h.evolves_prepared f label arguments) rfl
    (fun _ hf => hf) fun _ hf => .inl hf

/-- The table for a call shares what the closure shares. -/
theorem shares_prepared (h : Sound ⟨m, calls⟩) (hf : Function.user f ∈ m.heap.functions)
    (label : String) (arguments : Nat) (n : String) :
    (m.prepared f label arguments).env.Shares ⟨m.env.tables.size⟩ n ↔ m.env.Shares f.closure n := by
  have hclosure := h.functions f hf
  have hevolves := h.evolves_prepared f label arguments
  rw [← hevolves.shares_iff h.env hclosure.closure_ne hclosure.closure_lt id]
  unfold Env.Shares
  rw [h.ownCell?_prepared hf,
    hevolves.ownCell?_eq hclosure.closure_ne hclosure.closure_lt id]

/-- The frame of a call starts with what the closure shares. -/
theorem called (h : Sound ⟨m, calls⟩) (hf : Function.user f ∈ m.heap.functions) (label : String)
    (arguments : Nat) : Sound ⟨m.called f label arguments, ⟨f, f.parameters⟩ :: calls⟩ := by
  have hprepared := h.prepared f label arguments
  have hclosure := h.functions f hf
  have hframe : Frame.Sound (m.prepared f label arguments).env
      { table := ⟨m.env.tables.size⟩, globalNames := f.globalNames, label := some label }
      ⟨f, f.parameters⟩ :=
    { table_ne := h.env.ne_globalTable_of_le (Nat.le_refl _)
      table_lt := by
        show m.env.tables.size < (m.env.addTable _).2.tables.size
        rw [Env.tables_size_addTable]
        exact Nat.lt_succ_self _
      unbound := fun _ hp => hp
      globals := fun _ hn => hn
      -- The call's bindings are those of the closure, so what it shares is what the closure shares.
      shares := fun n hn =>
        (hclosure.shares n hn).imp (h.shares_prepared hf label arguments n).mpr .inr
      clean := fun n hn => hclosure.clean n ((h.shares_prepared hf label arguments n).mp hn) }
  -- The table of the call did not exist before it.
  have hnew : ∀ frame ∈ m.calls, (⟨m.env.tables.size⟩ : TableRef) ≠ frame.table := by
    intro frame hmem heq
    exact Nat.lt_irrefl _ (heq ▸ h.table_lt hmem)
  exact
    { hprepared with
      running := fun a ha => by
        rcases List.mem_cons.mp ha with rfl | ha
        · exact hf
        · exact hprepared.running a ha
      frames := .cons hframe hprepared.frames
      distinct := List.nodup_cons.mpr ⟨fun hmem => by
        obtain ⟨frame, hmem, heq⟩ := List.mem_map.mp hmem
        exact hnew frame hmem heq.symm, hprepared.distinct⟩
      apart := fun frame hmem g hg => by
        rcases List.mem_cons.mp hmem with rfl | hmem
        · intro heq
          exact Nat.lt_irrefl _ (heq ▸ (h.functions g hg).closure_lt)
        · exact hprepared.apart frame hmem g hg }

theorem leave (h : Sound ⟨m, a :: calls⟩) : Sound ⟨m.leave, calls⟩ := by
  obtain ⟨frames, hcalls, -, hwaiting⟩ := h.active
  have hdistinct := h.distinct
  have htail : m.calls.tail = frames := by rw [hcalls]; rfl
  dsimp only at hdistinct
  rw [hcalls, List.map_cons, List.nodup_cons] at hdistinct
  exact
    { h with
      running := fun b hb => h.running b (List.mem_cons_of_mem _ hb)
      frames := by
        show List.Forall₂ _ m.calls.tail calls
        rw [htail]
        exact hwaiting
      distinct := by
        show (m.calls.tail.map _).Nodup
        rw [htail]
        exact hdistinct.2
      apart := fun frame hmem => h.apart frame (List.mem_of_mem_tail hmem) }

/-- A parameter hides its name: the table binds it to a cell of its own. -/
theorem bindParameter {p : Parameter} {ps : List Parameter} (h : Sound ⟨m, ⟨f, p :: ps⟩ :: calls⟩)
    (value : Option Value) : Sound ⟨m.define m.frame.table p.name value, ⟨f, ps⟩ :: calls⟩ := by
  obtain ⟨frames, hcalls, hframe, -⟩ := h.active
  -- Defining the parameter gives its name a cell of its own, so the name is shared no longer.
  have hshares : ∀ n, (m.env.define m.frame.table p.name value).2.Shares m.frame.table n ↔
      n ≠ p.name ∧ m.env.Shares m.frame.table n := fun n =>
    h.env.shares_define hframe.table_lt hframe.table_ne p.name value
  refine h.of_active (h.env.define hframe.table_lt p.name value)
    (Env.evolves_define hframe.table_lt p.name value fun hglobal => absurd hglobal hframe.table_ne)
    rfl rfl (by rw [hcalls]; exact hcalls) rfl rfl ?_
  exact
    { table_ne := hframe.table_ne
      table_lt := by
        show _ < (m.env.define _ _ _).2.tables.size
        rw [Env.tables_size_define]
        exact hframe.table_lt
      unbound := fun q hq => hframe.unbound q (List.mem_cons_of_mem _ hq)
      globals := hframe.globals
      shares := fun n hn => by
        by_cases hp : n = p.name
        -- This name is hidden by the parameter itself; any other is shared as it was.
        · exact .inr (.inl ⟨p, hframe.unbound p List.mem_cons_self, hp.symm⟩)
        · exact (hframe.shares n hn).imp_left fun hold => (hshares n).mpr ⟨hp, hold⟩
      clean := fun n hn => hframe.clean n ((hshares n).mp hn).2 }

/-! ### Assignments and declarations -/

theorem assign (h : Sound ⟨m, calls⟩) (name : String) (value : Option Value) :
    Sound ⟨m.assign m.frame.table name value, calls⟩ := by
  have hevolves := Env.evolves_set h.frame_table_lt name value
  have hsound := h.env.set h.frame_table_lt name value
  cases calls with
  | nil => exact h.of_bottom hsound hevolves rfl rfl rfl
  | cons a calls =>
    obtain ⟨frames, hcalls, hframe, -⟩ := h.active
    have hshares : ∀ n, (m.env.set m.frame.table name value).2.Shares m.frame.table n ↔
        m.env.Shares m.frame.table n := fun n =>
      h.env.shares_set hframe.table_lt hframe.table_ne name value
    refine h.of_active hsound hevolves rfl rfl (by rw [hcalls]; exact hcalls) rfl rfl ?_
    exact
      { hframe with
        table_lt := Nat.lt_of_lt_of_le hframe.table_lt hevolves.tables
        shares := fun n hn => (hframe.shares n hn).imp_left (hshares n).mpr
        clean := fun n hn => hframe.clean n ((hshares n).mp hn) }

/-- The active frame of a call says or returns something new, and the tables may change with it. -/
theorem modifyFrame (h : Sound ⟨m, calls⟩) (g : Frame → Frame)
    (htable : (g m.frame).table = m.frame.table)
    (hevolves : m.env.Evolves (· = m.frame.table) later.env) (henv : later.env.Sound)
    (hfunctions : later.heap.functions = m.heap.functions)
    (hframes : later.frames = (m.modifyFrame g).frames)
    (hframe : ∀ a rest, calls = a :: rest → m.frame.Sound m.env a →
      (g m.frame).Sound later.env a) : Sound ⟨later, calls⟩ := by
  have hactive : later.frame = g m.frame := by
    rw [Machine.frame_eq_of_frames hframes, Machine.frame_modifyFrame]
  obtain ⟨hcalls, hroot⟩ := List.append_inj' hframes rfl
  have hroot := List.singleton_inj.mp hroot
  -- At the bottom the frame is the root, whose table has to stay the global one; in a call it is
  -- the frame of the activation.
  cases calls with
  | nil =>
    have hnone := h.calls_eq_nil
    have hframe : m.frame = m.root := by rw [Machine.frame, hnone]; rfl
    rw [Machine.modifyFrame_of_nil hnone] at hcalls hroot
    exact h.of_bottom henv hevolves hfunctions (by rw [hroot, ← hframe]; exact htable) hcalls
  | cons a rest =>
    obtain ⟨frames, hsome, hold, -⟩ := h.active
    rw [Machine.modifyFrame_of_cons hsome] at hcalls hroot
    refine h.of_active henv hevolves hfunctions hroot ?_ (by rw [hactive]; exact htable) rfl ?_
    · rw [hactive, hsome]
      exact hcalls
    · rw [hactive]
      exact hframe a rest rfl hold

end Situation.Sound

theorem env_modifyFrame (m : Machine) (g : Frame → Frame) : (m.modifyFrame g).env = m.env := by
  rcases m with ⟨env, heap, root, calls, output, log⟩
  cases calls <;> rfl

theorem heap_modifyFrame (m : Machine) (g : Frame → Frame) : (m.modifyFrame g).heap = m.heap := by
  rcases m with ⟨env, heap, root, calls, output, log⟩
  cases calls <;> rfl

/-- A declaration imports a global cell, unless the table is the global one. -/
theorem env_declareGlobal (m : Machine) (name : String) :
    (Step.declareGlobal m name).env =
      if m.env.isGlobal m.frame.table then m.env
      else (m.env.importGlobal m.frame.table name).2 := by
  unfold Step.declareGlobal
  dsimp only
  rw [Machine.frame_modifyFrame, env_modifyFrame]
  split
  · exact env_modifyFrame m _
  · show ((m.modifyFrame _).env.importGlobal _ _).2 = _
    rw [env_modifyFrame]

theorem heap_declareGlobal (m : Machine) (name : String) :
    (Step.declareGlobal m name).heap = m.heap := by
  unfold Step.declareGlobal
  dsimp only
  split <;> exact heap_modifyFrame m _

namespace Situation.Sound

variable {m : Machine} {a : Activation} {calls : List Activation} {name : String}

/-- In a call, declaring a name imports it into the table of the frame. -/
theorem imports_declareGlobal (h : Sound ⟨m, a :: calls⟩) (name : String) :
    Env.Imports m.frame.table [name] m.env (Step.declareGlobal m name).env := by
  obtain ⟨frames, -, hframe, -⟩ := h.active
  rw [env_declareGlobal, h.env.isGlobal_eq_false hframe.table_lt hframe.table_ne]
  exact h.env.importGlobal hframe.table_lt hframe.table_ne name

/-- Outside calls, declaring a name changes no table. -/
theorem env_declareGlobal_bottom (h : Sound ⟨m, []⟩) (name : String) :
    (Step.declareGlobal m name).env = m.env := by
  rw [env_declareGlobal, h.frame_table_eq, Env.isGlobal, h.env.global]
  rfl

/-- A declaration changes the table of its own frame only. -/
theorem evolves_declareGlobal (h : Sound ⟨m, calls⟩) (name : String) :
    m.env.Evolves (· = m.frame.table) (Step.declareGlobal m name).env := by
  cases calls with
  | nil =>
    rw [h.env_declareGlobal_bottom]
    exact .refl _ m.env
  | cons a calls => exact (h.imports_declareGlobal name).evolves

/-- A declaration keeps a situation sound, if the active function declares the name. -/
theorem declareGlobal (h : Sound ⟨m, calls⟩)
    (hname : ∀ a rest, calls = a :: rest → Declares.inBlock name a.function.body = true) :
    Sound ⟨Step.declareGlobal m name, calls⟩ := by
  refine h.modifyFrame (fun frame => { frame with globalNames := frame.globalNames.add name }) rfl
    (h.evolves_declareGlobal name) ?_ (by rw [heap_declareGlobal]) (frames_declareGlobal m name) ?_
  -- At the bottom the declaration changes no table. In a call it imports the global cell.
  · cases calls with
    | nil =>
      rw [h.env_declareGlobal_bottom]
      exact h.env
    | cons a calls => exact (h.imports_declareGlobal name).sound
  · rintro a rest rfl hframe
    have himports := h.imports_declareGlobal name
    have hdeclared := hname a rest rfl
    exact
      { hframe with
        table_lt := Nat.lt_of_lt_of_le hframe.table_lt himports.evolves.tables
        globals := fun n hn => by
          rcases Names.mem_add.mp hn with rfl | hn
          · exact (h.functions _ (h.running a List.mem_cons_self)).declared _ hdeclared
          · exact hframe.globals n hn
        shares := fun n hn => by
          rcases Names.mem_add.mp hn with rfl | hn
          · exact .inr (.inr hdeclared)
          · exact (hframe.shares n hn).imp_left fun hold =>
              (himports.shares_iff h.env).mpr (.inr hold)
        clean := fun n hn => by
          refine Names.mem_add.mpr (((himports.shares_iff h.env).mp hn).imp ?_ (hframe.clean n))
          exact List.mem_singleton.mp }

theorem signal (h : Sound ⟨m, calls⟩) (value : Option Value) :
    Sound ⟨m.modifyFrame ({ · with pending := value }), calls⟩ :=
  h.modifyFrame _ rfl (by rw [env_modifyFrame]; exact .refl _ _) (by rw [env_modifyFrame]; exact h.env)
    (by rw [heap_modifyFrame]) rfl fun _ _ _ hframe => by
      rw [env_modifyFrame]
      exact { hframe with }

end Situation.Sound

/-! ### Transitions -/

namespace Transition

variable {limits : Limits} {script : Code} {c c' : Situation}

/-- **What a transition does to the tables**: only the table of the active frame and the global one
may change, and the global one only grows. -/
theorem evolves (h : Transition limits script c c') (hc : c.Sound) :
    c.machine.env.Evolves (· = c.machine.frame.table) c'.machine.env := by
  -- Only the steps that bind a name touch a table, and each of them touches the active one or a
  -- table that did not exist before.
  cases h with
  | record | data | leave => exact .refl _ _
  | makeFunction m calls name span l hl =>
    exact (makes_makeFunction hc.env limits name span l).evolves.mono fun _ _ => False.elim
  | refuse m calls f label arguments hf =>
    exact (hc.evolves_prepared f label arguments).mono fun _ _ => False.elim
  | enter m calls f label arguments hf hdepth =>
    exact (hc.evolves_prepared f label arguments).mono fun _ _ => False.elim
  | bindParameter m calls f p ps value =>
    obtain ⟨_, _, hframe, _⟩ := hc.active
    exact Env.evolves_define hframe.table_lt p.name value fun hglobal => absurd hglobal hframe.table_ne
  | assign m calls name value hsettled => exact Env.evolves_set hc.frame_table_lt name _
  | declareGlobal m calls name hsettled hname => exact hc.evolves_declareGlobal name
  | signal m calls value hsettled =>
    show m.env.Evolves _ (m.modifyFrame _).env
    rw [env_modifyFrame]
    exact .refl _ _
  | hostAssign m name value =>
    have hevolves := Env.evolves_set hc.frame_table_lt name value
    rw [hc.frame_table_eq] at hevolves
    show m.env.Evolves (· = m.frame.table) _
    rw [hc.frame_table_eq]
    exact hevolves

/-- **Transitions keep the invariant.** -/
theorem sound (h : Transition limits script c c') (hc : c.Sound) : c'.Sound := by
  -- Each step has its preservation lemma above; only the binding from outside goes to the active
  -- table through the global one.
  cases h with
  | record => exact { hc with }
  | data => exact { hc with }
  | makeFunction m calls name span l hl => exact hc.makeFunction limits name span l
  | refuse m calls f label arguments hf => exact hc.prepared f label arguments
  | enter m calls f label arguments hf hdepth => exact hc.called hf label arguments
  | bindParameter m calls f p ps value => exact hc.bindParameter value
  | leave m a calls => exact hc.leave
  | assign m calls name value hsettled => exact hc.assign name _
  | declareGlobal m calls name hsettled hname =>
    refine hc.declareGlobal ?_
    rintro a rest rfl
    exact hname
  | signal m calls value hsettled => exact hc.signal value
  | hostAssign m name value =>
    have hassign := hc.assign name value
    rw [hc.frame_table_eq] at hassign
    exact hassign

end Transition

theorem Course.sound {limits : Limits} {script : Code} {depth : Nat} {c c' : Situation}
    (h : Course limits script depth c c') (hc : c.Sound) : c'.Sound :=
  h.invariant (fun _ hstep hc => hstep.sound hc) hc

/-! ### The start of a session -/

namespace Situation

theorem sound_empty (arrays : Array (Array Value)) (dictionaries : Array Dictionary) :
    Sound ⟨.empty { arrays, dictionaries }, []⟩ := by
  exact
    { env := Env.sound_addGlobal rfl
      root := rfl
      functions := fun f hf => by cases Array.not_mem_empty _ hf
      running := fun _ ha => (List.not_mem_nil ha).elim
      frames := .nil
      distinct := .nil
      apart := fun _ hframe => (List.not_mem_nil hframe).elim }

theorem sound_bindNative {m : Machine} (h : Sound ⟨m, []⟩) (f : NativeFunction) :
    Sound ⟨m.bindNative f, []⟩ := by
  have hheap : Sound ⟨{ m with heap := (m.heap.addFunction (.native f)).2 }, []⟩ := by
    refine h.of_growth h.env (.refl _ _) rfl (fun g hg => Array.mem_push_of_mem _ hg) fun g hg => ?_
    refine .inl ((Array.mem_push.mp hg).resolve_right fun heq => ?_)
    cases heq
  have hassign := hheap.assign f.name (some (m.heap.addFunction (.native f)).1)
  rw [hheap.frame_table_eq] at hassign
  exact hassign

end Situation

namespace Session

/-- At the start of a session no function of a script exists, and the one table is the global one.
-/
theorem sound_start (config : Config) (registry : Registry) (arrays : Array (Array Value))
    (dictionaries : Array Dictionary) :
    Situation.Sound ⟨start config registry { arrays, dictionaries }, []⟩ := by
  have hbind : ∀ (fs : List NativeFunction) (m : Machine), Situation.Sound ⟨m, []⟩ →
      Situation.Sound ⟨fs.foldl Machine.bindNative m, []⟩ := by
    intro fs
    induction fs with
    | nil => exact fun _ hm => hm
    | cons f fs ih => exact fun m hm => ih _ (Situation.sound_bindNative hm f)
  unfold start
  split
  · exact hbind registry.functions _ (Situation.sound_empty arrays dictionaries)
  · exact Situation.sound_empty arrays dictionaries

variable {config : Config} {registry : Registry} {arrays : Array (Array Value)}
  {dictionaries : Array Dictionary} {limits : Limits} {script : Code} {k : Machine} {c : Situation}

/-- **Every situation of a session is sound.** -/
theorem sound_of_reachable
    (h : c.Reachable limits script (start config registry { arrays, dictionaries })) : c.Sound :=
  Course.sound h (sound_start config registry arrays dictionaries)

/-- From a state of a session on: the calls in progress there can be told so that something holds of
the state with them, and of whatever transitions make of it. -/
def Throughout (limits : Limits) (script : Code) (start k : Machine) (P : Situation → Prop) : Prop :=
  ∃ calls, Situation.Reachable limits script start ⟨k, calls⟩ ∧
    ∀ c, Course limits script 0 ⟨k, calls⟩ c → P c

/-- What holds in every reachable situation holds from every state of a session on. -/
theorem Reaches.throughout {P : Situation → Prop}
    (hk : Reaches limits script (start config registry { arrays, dictionaries }) k)
    (h : ∀ c, c.Reachable limits script (start config registry { arrays, dictionaries }) → P c) :
    Throughout limits script (start config registry { arrays, dictionaries }) k P := by
  obtain ⟨calls, hcalls⟩ := hk.situation (sound_start config registry arrays dictionaries).calls_eq_nil
  exact ⟨calls, hcalls, fun c hcourse => h c (hcalls.course hcourse)⟩

end Session

end DecimalScript
