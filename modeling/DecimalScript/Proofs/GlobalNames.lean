import DecimalScript.Proofs.CallIsolation

/-!
# Which functions reach global variables

A call can write to a global variable only through its own table, and only where that shares the
global cell. By the invariant of sound situations it shares no cells but those of names that are
global for its function. `DeclaredFor` says where that comes from: the function declares the name
itself, or it was made by a function for which the name was declared, or at top level after the name
had been declared there (`declaredFor_of_mem`, by induction on the course to the situation).

Where no code declares anything, no name is ever global for a function, so that nothing done in a
call is noticed by the global table (`sameGlobals_course`).

- `DeclaredFor`, `declaredFor_of_mem`: why a name is global for a function.
- `sameGlobals_course`: without declarations, calls leave the global variables alone.
- `globals_are_reached_through_declarations`: frames, closures and assignments, wherever a session
  gets to.
-/

namespace DecimalScript

open Machine (globalTable)

/-! ### Declarations behind global names -/

/-- A name is declared global for a function: in the function, around it, or at top level before it
was made. -/
inductive DeclaredFor (limits : Limits) (script : Code) (start : Machine) (n : String) :
    UserFunction → Prop
  | inside {f : UserFunction} (h : Declares.inBlock n f.body = true) :
    DeclaredFor limits script start n f
  | around {m : Machine} {a : Activation} {rest : List Activation} (name : Option String)
    {l : Literal} (hc : Situation.Reachable limits script start ⟨m, a :: rest⟩)
    (hl : a.function.code.literal l) (h : DeclaredFor limits script start n a.function) :
    DeclaredFor limits script start n (m.functionOf name l)
  | before {m₀ m : Machine} (name : Option String) {l : Literal}
    (hc : Situation.Reachable limits script start ⟨m₀, []⟩) (hn : script.declares n)
    (h : Course limits script 0 ⟨Step.declareGlobal m₀ n, []⟩ ⟨m, []⟩) (hl : script.literal l) :
    DeclaredFor limits script start n (m.functionOf name l)

namespace Transition

variable {limits : Limits} {script : Code} {c c' : Situation}

/-- The global names of the bottom frame are those that have been declared at top level. -/
theorem mem_root_globalNames (h : Transition limits script c c') (hc : c.Sound) {n : String}
    (hn : n ∈ c'.machine.root.globalNames) :
    n ∈ c.machine.root.globalNames ∨
      ∃ m, c = ⟨m, []⟩ ∧ c' = ⟨Step.declareGlobal m n, []⟩ ∧ script.declares n := by
  have hframes : ∀ {m later : Machine}, later.frames = m.frames → later.root = m.root := fun h =>
    List.singleton_inj.mp (List.append_inj' h rfl).2
  cases h with
  | record | data | refuse | enter | bindParameter | leave | assign | hostAssign => exact .inl hn
  | makeFunction m calls name span l hl =>
    rw [hframes (frames_makeFunction limits name span l.parameters l.body m)] at hn
    exact .inl hn
  | declareGlobal m calls name hsettled hname =>
    rw [hframes (frames_declareGlobal m name)] at hn
    cases calls with
    | nil =>
      rw [Machine.modifyFrame_of_nil hc.calls_eq_nil] at hn
      refine (Names.mem_add.mp hn).symm.imp_right ?_
      rintro rfl
      exact ⟨m, rfl, rfl, hname⟩
    | cons a rest =>
      obtain ⟨frames, hcalls, -, -⟩ := hc.active
      rw [Machine.modifyFrame_of_cons hcalls] at hn
      exact .inl hn
  | signal m calls value hsettled =>
    refine .inl ?_
    cases calls with
    | nil =>
      rw [Machine.modifyFrame_of_nil hc.calls_eq_nil] at hn
      exact hn
    | cons a rest =>
      obtain ⟨frames, hcalls, -, -⟩ := hc.active
      rw [Machine.modifyFrame_of_cons hcalls] at hn
      exact hn

/-- New functions come from literals of the code that runs. -/
theorem mem_functions (h : Transition limits script c c') (hc : c.Sound) {f : UserFunction}
    (hf : Function.user f ∈ c'.machine.heap.functions) :
    Function.user f ∈ c.machine.heap.functions ∨
      ∃ name l, (script.active c.calls).literal l ∧ f = c.machine.functionOf name l := by
  cases h with
  | record | data | refuse | assign | hostAssign | bindParameter | enter | leave => exact .inl hf
  | makeFunction m calls name span l hl =>
    rw [(makes_makeFunction hc.env limits name span l).functions] at hf
    refine (Array.mem_push.mp hf).imp_right fun heq => ?_
    cases heq
    exact ⟨name, l, hl, rfl⟩
  | declareGlobal m calls name hsettled hname =>
    rw [heap_declareGlobal] at hf
    exact .inl hf
  | signal m calls value hsettled =>
    rw [heap_modifyFrame] at hf
    exact .inl hf

end Transition

namespace Session

variable {config : Config} {registry : Registry} {arrays : Array (Array Value)}
  {dictionaries : Array Dictionary} {limits : Limits} {script : Code} {c : Situation}

/-- At the start of a session nothing is declared and no function has been made. -/
theorem blank_start (config : Config) (registry : Registry) (arrays : Array (Array Value))
    (dictionaries : Array Dictionary) :
    (start config registry { arrays, dictionaries }).root.globalNames = [] ∧
      ∀ f, Function.user f ∉ (start config registry { arrays, dictionaries }).heap.functions := by
  have hempty : (Machine.empty { arrays, dictionaries }).root.globalNames = [] ∧
      ∀ f, Function.user f ∉ (Machine.empty { arrays, dictionaries }).heap.functions :=
    ⟨rfl, fun f => Array.not_mem_empty _⟩
  -- Binding a builtin adds a native function and a global cell, and nothing else.
  have hbind : ∀ (gs : List NativeFunction) (m : Machine),
      m.root.globalNames = [] ∧ (∀ f, Function.user f ∉ m.heap.functions) →
      (gs.foldl Machine.bindNative m).root.globalNames = [] ∧
        ∀ f, Function.user f ∉ (gs.foldl Machine.bindNative m).heap.functions := by
    intro gs
    induction gs with
    | nil => exact fun _ hm => hm
    | cons g gs ih =>
      refine fun m hm => ih _ ⟨hm.1, fun f hf => ?_⟩
      rcases Array.mem_push.mp hf with hf | hf
      · exact hm.2 f hf
      · cases hf
  unfold start
  split
  · exact hbind registry.functions _ hempty
  · exact hempty

/-- Behind every global name of the bottom frame is a declaration at top level. -/
theorem exists_declaration
    (h : c.Reachable limits script (start config registry { arrays, dictionaries })) {n : String}
    (hn : n ∈ c.machine.root.globalNames) :
    script.declares n ∧ ∃ m₀, Situation.Reachable limits script
        (start config registry { arrays, dictionaries }) ⟨m₀, []⟩ ∧
      Course limits script 0 ⟨Step.declareGlobal m₀ n, []⟩ c := by
  induction h with
  | refl =>
    rw [(blank_start config registry arrays dictionaries).1] at hn
    cases hn
  | @tail d c hcourse hlast ih =>
    obtain ⟨-, hstep⟩ := hlast
    rcases hstep.mem_root_globalNames (sound_of_reachable hcourse) hn with hold | hnew
    · obtain ⟨hdeclares, m₀, hm₀, hlater⟩ := ih hold
      exact ⟨hdeclares, m₀, hm₀, hlater.trans (.single (Nat.zero_le _) hstep)⟩
    · obtain ⟨m, rfl, rfl, hdeclares⟩ := hnew
      exact ⟨hdeclares, m, hcourse, .refl _⟩

/-- **Behind every global name of a function is a declaration.** -/
theorem declaredFor_of_mem
    (h : c.Reachable limits script (start config registry { arrays, dictionaries }))
    {f : UserFunction} (hf : Function.user f ∈ c.machine.heap.functions) {n : String}
    (hn : n ∈ f.globalNames) :
    DeclaredFor limits script (start config registry { arrays, dictionaries }) n f := by
  -- Along the course: a function that is new got its global names from the frame that made it, and
  -- that has them from its function or, at top level, from declarations.
  induction h generalizing f n with
  | refl => exact absurd hf ((blank_start config registry arrays dictionaries).2 f)
  | @tail d c hcourse hlast ih =>
    obtain ⟨-, hstep⟩ := hlast
    have hd := sound_of_reachable hcourse
    rcases hstep.mem_functions hd hf with hold | ⟨name, l, hl, rfl⟩
    · exact ih hold hn
    · rcases Capture.mem_globals_ofFunction.mp hn with hframe | hinside
      · obtain ⟨m, calls⟩ := d
        cases calls with
        | nil =>
          rw [Machine.frame, hd.calls_eq_nil] at hframe
          obtain ⟨hdeclares, m₀, hm₀, hlater⟩ := exists_declaration hcourse hframe
          exact .before name hm₀ hdeclares hlater hl
        | cons a rest =>
          obtain ⟨_, _, hactive, _⟩ := hd.active
          have hrunning := hd.running a List.mem_cons_self
          exact .around name hcourse hl (ih hrunning (hactive.globals n hframe))
      · exact .inside hinside

end Session

/-! ### Code without declarations -/

/-- Code declares no name, not even in function literals. -/
structure Code.Undeclaring (code : Code) : Prop where
  declares : ∀ n, ¬code.declares n
  literals : ∀ l, code.literal l → ∀ n, DeclaresWithin.inFunction n l.parameters l.body = false

/-- A program without declarations. -/
theorem Program.undeclaring {program : Program}
    (h : ∀ n, DeclaresWithin.inStmts n program.statements = false) : program.code.Undeclaring where
  declares := fun n hn => by
    have hwithin := DeclaresWithin.declares_inStmts hn
    rw [h n] at hwithin
    cases hwithin
  literals := fun l hl n => DeclaresWithin.literals_inStmts n program.statements (h n) l hl

/-- A function literal without declarations. -/
theorem UserFunction.undeclaring {f : UserFunction}
    (h : ∀ n, DeclaresWithin.inFunction n f.parameters f.body = false) : f.code.Undeclaring where
  declares := fun n hn => by
    have hbody := (Bool.or_eq_false_iff.mp (h n)).2
    rw [DeclaresWithin.declares_inBlock hn] at hbody
    cases hbody
  literals := fun l hl n => by
    obtain ⟨hparameters, hbody⟩ := Bool.or_eq_false_iff.mp (h n)
    rcases List.mem_append.mp hl with hl | hl
    · exact DeclaresWithin.literals_inParameters n f.parameters hparameters l hl
    · exact DeclaresWithin.literals_inBlock n f.body hbody l hl

/-- Nothing is global for the bottom frame or for any function. -/
structure Situation.Undeclared (c : Situation) : Prop where
  root : ∀ n, n ∉ c.machine.root.globalNames
  functions : ∀ f, Function.user f ∈ c.machine.heap.functions →
    f.code.Undeclaring ∧ ∀ n, n ∉ f.globalNames

namespace Situation.Undeclared

variable {limits : Limits} {script : Code} {c c' : Situation} {depth : Nat}

theorem active (h : c.Undeclared) (hc : c.Sound) (hscript : script.Undeclaring) :
    (script.active c.calls).Undeclaring ∧ ∀ n, n ∉ c.machine.frame.globalNames := by
  obtain ⟨m, calls⟩ := c
  cases calls with
  | nil =>
    refine ⟨hscript, fun n hn => h.root n ?_⟩
    rw [Machine.frame, hc.calls_eq_nil] at hn
    exact hn
  | cons a rest =>
    obtain ⟨_, _, hframe, _⟩ := hc.active
    obtain ⟨hcode, hglobals⟩ := h.functions a.function (hc.running a List.mem_cons_self)
    exact ⟨hcode, fun n hn => hglobals n (hframe.globals n hn)⟩

theorem step (h : c.Undeclared) (hc : c.Sound) (hscript : script.Undeclaring)
    (hstep : Transition limits script c c') : c'.Undeclared where
  root := fun n hn => by
    rcases hstep.mem_root_globalNames hc hn with hold | ⟨m, -, -, hdeclares⟩
    · exact h.root n hold
    · exact hscript.declares n hdeclares
  functions := fun f hf => by
    rcases hstep.mem_functions hc hf with hold | ⟨name, l, hl, rfl⟩
    · exact h.functions f hold
    · obtain ⟨hcode, hglobals⟩ := h.active hc hscript
      have hcode := UserFunction.undeclaring (f := c.machine.functionOf name l) (hcode.literals l hl)
      refine ⟨hcode, fun n hn => ?_⟩
      rcases Capture.mem_globals_ofFunction.mp hn with hframe | hinside
      · exact hglobals n hframe
      · exact hcode.declares n hinside

/-- In a call, no transition changes a global variable. -/
theorem sameGlobals_step (h : c.Undeclared) (hc : c.Sound) (hscript : script.Undeclaring)
    (hcalls : c.calls ≠ []) (hstep : Transition limits script c c') :
    Env.SameGlobals c.machine.env c'.machine.env := by
  have hc' := hstep.sound hc
  obtain ⟨hcode, hglobals⟩ := h.active hc hscript
  cases hstep with
  | record | data | leave => exact .refl _
  | makeFunction m calls name span l hl =>
    have hmachine := makeFunction_machine limits name span l m
    have hnone : m.frame.globalNames = [] := List.eq_nil_iff_forall_not_mem.mpr hglobals
    obtain ⟨bindings, hcapture, -⟩ := exists_capture m.env m.frame.table
      (Step.literalScope m l.parameters l.body).upvalues limits.capture
    dsimp only at hmachine
    rw [hnone, hcapture] at hmachine
    have henv := congrArg Machine.env hmachine
    have hsound := hc'.env
    dsimp only at hsound ⊢
    rw [henv] at hsound ⊢
    exact hc.env.sameGlobals_addTable hsound
  | refuse m calls f label arguments hf => exact hc.env.sameGlobals_addTable hc'.env
  | enter m calls f label arguments hf hdepth => exact hc.env.sameGlobals_addTable hc'.env
  | bindParameter m calls f p ps value =>
    obtain ⟨_, _, hframe, _⟩ := hc.active
    exact hc.env.sameGlobals_define hframe.table_lt hframe.table_ne p.name value
  | assign m calls name value hsettled =>
    obtain ⟨a, rest, rfl⟩ := List.exists_cons_of_ne_nil hcalls
    obtain ⟨_, _, hframe, _⟩ := hc.active
    -- A changed value means a shared cell, and that its name is global for the frame.
    refine fun n => ⟨(hc.env.set_globals hframe.table_lt hframe.table_ne name _).1, ?_⟩
    refine Classical.byContradiction fun hchange => hglobals n ?_
    exact hframe.clean n
      ((hc.env.set_globals hframe.table_lt hframe.table_ne name _).2 hchange).2
  | declareGlobal m calls name hsettled hname => exact absurd hname (hcode.declares name)
  | signal m calls value hsettled =>
    show Env.SameGlobals m.env (m.modifyFrame _).env
    rw [env_modifyFrame]
    exact .refl _
  | hostAssign m name value => exact absurd rfl hcalls

/-- **Without declarations, no global variable changes** until the last call ends. -/
theorem sameGlobals_course (h : c.Undeclared) (hc : c.Sound) (hscript : script.Undeclaring)
    (hcourse : Course limits script 1 c c') : Env.SameGlobals c.machine.env c'.machine.env := by
  refine (hcourse.invariant (P := fun c' => c'.Sound ∧ c'.Undeclared ∧
    Env.SameGlobals c.machine.env c'.machine.env) ?_ ⟨hc, h, .refl _⟩).2.2
  rintro d d' hdepth hstep ⟨hd, hundeclared, hsame⟩
  have hcalls : d.calls ≠ [] := List.ne_nil_of_length_pos hdepth
  exact ⟨hstep.sound hd, hundeclared.step hd hscript hstep,
    hsame.trans (hundeclared.sameGlobals_step hd hscript hcalls hstep)⟩

end Situation.Undeclared

/-- A script without declarations never has a global name in a frame. -/
theorem Session.undeclared_of_reachable {config : Config} {registry : Registry}
    {arrays : Array (Array Value)} {dictionaries : Array Dictionary} {limits : Limits} {script : Code}
    {c : Situation} (hscript : script.Undeclaring)
    (h : c.Reachable limits script (Session.start config registry { arrays, dictionaries })) :
    c.Undeclared := by
  obtain ⟨hroot, hfunctions⟩ := blank_start config registry arrays dictionaries
  have hstart : Situation.Undeclared ⟨Session.start config registry { arrays, dictionaries }, []⟩ :=
    { root := fun n hn => by
        rw [hroot] at hn
        cases hn
      functions := fun f hf => absurd hf (hfunctions f) }
  refine (Course.invariant (P := fun c => c.Sound ∧ c.Undeclared) ?_ h
    ⟨sound_start config registry arrays dictionaries, hstart⟩).2
  rintro d d' - hstep ⟨hd, hundeclared⟩
  exact ⟨hstep.sound hd, hundeclared.step hd hscript hstep⟩

/-! ### Access to global variables -/

/-- How global variables are guarded in a situation of a session. -/
structure Situation.GlobalsGuarded (limits : Limits) (script : Code) (start : Machine)
    (c : Situation) : Prop where
  /-- The table of a frame binds global cells only to names that are global for the frame. -/
  frames : ∀ frame ∈ c.machine.calls, ∀ n n' x, c.machine.env.ownCell? frame.table n' = some x →
    c.machine.env.ownCell? globalTable n = some x → n' = n ∧ n ∈ frame.globalNames
  /-- A closure binds global cells only to names that are global for the function. -/
  closures : ∀ f, Function.user f ∈ c.machine.heap.functions → ∀ n n' x,
    c.machine.env.ownCell? f.closure n' = some x → c.machine.env.ownCell? globalTable n = some x →
      n' = n ∧ n ∈ f.globalNames
  /-- A global variable keeps its cell. -/
  bound : ∀ c', Course limits script 0 c c' → ∀ n x,
    c.machine.env.ownCell? globalTable n = some x → c'.machine.env.ownCell? globalTable n = some x
  /-- An assignment in a call that makes or changes a global variable is to one of this name, and
  the name is declared for the function that runs. -/
  assigned : ∀ a rest, c.calls = a :: rest → ∀ name value n,
    (c.machine.assign c.machine.frame.table name value).env.ownCell? globalTable n ≠
        c.machine.env.ownCell? globalTable n ∨
      (c.machine.assign c.machine.frame.table name value).env.get? globalTable n ≠
        c.machine.env.get? globalTable n →
    n = name ∧ DeclaredFor limits script start n a.function
  /-- Without declarations, global variables and their values stay the same as long as calls are in
  progress. -/
  undeclared : script.Undeclaring → ∀ c', Course limits script 1 c c' →
    Env.SameGlobals c.machine.env c'.machine.env

/-- **Functions reach global variables only through declarations.** From every state of a session
on, the tables of calls and closures share no global cells but those of names that are global for
them; global variables keep their cells; an assignment in a call makes or changes a global variable
only if its name is declared in the function, around it, or at top level before the function was
made; and where no code declares anything, calls leave all global variables as they are. -/
theorem globals_are_reached_through_declarations (config : Config) (registry : Registry)
    (arrays : Array (Array Value)) (dictionaries : Array Dictionary) {limits : Limits} {script : Code}
    {k : Machine}
    (hk : Session.Reaches limits script (Session.start config registry { arrays, dictionaries }) k) :
    Session.Throughout limits script (Session.start config registry { arrays, dictionaries }) k
      (Situation.GlobalsGuarded limits script
        (Session.start config registry { arrays, dictionaries })) := by
  refine hk.throughout fun c hc => ?_
  have hsound := Session.sound_of_reachable hc
  -- The global table gives every name a cell of its own, so a cell reached through another table is
  -- the cell of that very name.
  have hclean : ∀ t (names : Names),
      (∀ n, c.machine.env.Shares t n → n ∈ names) → ∀ n n' x,
      c.machine.env.ownCell? t n' = some x → c.machine.env.ownCell? globalTable n = some x →
        n' = n ∧ n ∈ names := by
    intro t names hnames n n' x hx hglobal
    obtain rfl := hsound.env.name_unique hx hglobal
    exact ⟨rfl, hnames n' ⟨x, hx, hglobal⟩⟩
  exact
    { frames := fun frame hframe => by
        obtain ⟨a, -, hold⟩ := exists_of_forall₂ hsound.frames hframe
        exact hclean frame.table frame.globalNames hold.clean
      closures := fun f hf => hclean f.closure f.globalNames (hsound.functions f hf).clean
      bound := fun c' hcourse n x hx => hcourse.global_kept hsound hx
      assigned := fun a rest hcalls name value n hchange => by
        obtain ⟨m, calls⟩ := c
        cases hcalls
        obtain ⟨_, _, hframe, _⟩ := hsound.active
        obtain ⟨hown, hvalue⟩ :=
          hsound.env.set_globals (n := n) hframe.table_lt hframe.table_ne name value
        obtain ⟨hname, hshares⟩ := hvalue (hchange.resolve_left fun hne => hne hown)
        -- A running body that shares the global cell has it through a declaration in its own text.
        refine ⟨hname, Session.declaredFor_of_mem hc (hsound.running a List.mem_cons_self) ?_⟩
        exact hframe.globals n (hframe.clean n hshares)
      undeclared := fun hscript c' hcourse =>
        (Session.undeclared_of_reachable hscript hc).sameGlobals_course hsound hscript hcourse }

/-- In a call of a function that declares a name, when its body starts. -/
theorem globals_are_reached_through_declarations_in_body :
    let span : Span := ⟨none, .start, .start⟩
    let l : Literal :=
      ⟨[], .mk span [.declareGlobal span ["a"], .assignVariable span span "a" (.boolean span true)]⟩
    let start := Session.start { loadBuiltins := false } .standard
    let m := ((Session.Request.evaluateStmt
      (.assignVariable span span "f" (.function span l.parameters l.body))).perform {} 1
        start).machine
    let f := start.functionOf (some "f") l
    let k := m.called f "f" 0
    Session.Reaches {} .any start k ∧
      Session.Throughout {} .any start k (Situation.GlobalsGuarded {} .any start) := by
  intro span l start m f k
  have hm : Session.Idle {} .any start m :=
    .request .start (.evaluateStmt _) (Session.Request.within_any _) 1
  have hk : Session.Reaches {} .any start k :=
    hm.reaches_body ⟨0⟩ [] (f := f) rfl (by decide) (by decide) (fun _ => rfl) rfl
  exact ⟨hk, globals_are_reached_through_declarations { loadBuiltins := false } .standard #[] #[] hk⟩

end DecimalScript
