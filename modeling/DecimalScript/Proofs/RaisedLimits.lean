import DecimalScript.Machine.Session
import DecimalScript.Proofs.DecimalOrder
import DecimalScript.Proofs.Pairing

/-!
# Raised limits

The depth of calls and the exponents of powers are limited. A limit that a run does not hit has no
part in what the run does: under larger limits it does exactly the same. Where a limit is looked at,
a run either fails for it, or finds what it would find under any larger one; between two such
moments both runs are paired, with equal machines.

The limit on the depth of calls also reaches the host, which raises its own recursion limit when a
session is created, and refuses the session if it cannot raise it far enough. Larger limits need
more of the host, so that a session that is created under them is created under smaller ones, too,
and starts with the same machine. What the host nests while it runs a script is bounded by the step
budget; so a host with a higher recursion limit is one with a larger budget.

- `Outcome.HitsLimit`: a run fails with the fault that reports a limit.
- `Session.create_of_le`, `Session.create_eq_error_iff`: which sessions the host takes.
- `Session.run_of_le`: a run under larger limits and within a larger budget.
- `raising_limits_changes_no_other_run`: both.
-/

namespace DecimalScript

open Eval

/-- The faults that report a limit. -/
def RuntimeFault.IsLimit (limits : Limits) : RuntimeFault → Prop
  | callDepth limit => limit = limits.maxCallDepth
  | arithmetic (.exponentOutOfRange _ limit) => limit = limits.maxExponent
  | _ => False

namespace Outcome

variable {α : Type}

/-- A run that has hit a limit fails with a fault that reports it. Whether the host can put this
fault into words does not matter; a run that breaks off for what the host cannot hold has hit no
limit. -/
def HitsLimit (limits : Limits) : Outcome α → Prop
  | failed failure _ => ∃ fault : RuntimeFault, fault.IsLimit limits ∧
      failure.fault = .runtime fault
  | done _ _ | exhausted _ => False

/-- A run that comes to its end within its budget. -/
def Ends : Outcome α → Prop
  | done _ _ | failed _ _ => True
  | exhausted _ => False

/-- What a run makes of an outcome does not hide a limit that was hit. -/
theorem HitsLimit.resettingFrames {limits : Limits} {o : Outcome α} (h : o.HitsLimit limits)
    (lines : List String) :
    ((o.mapFailure (·.quoting lines)).mapMachine Machine.resetFrames).HitsLimit limits := by
  cases o with
  | failed failure k =>
    obtain ⟨fault, hfault, hreported⟩ := h
    exact ⟨fault, hfault, (failure.fault_quoting lines).trans hreported⟩
  | done | exhausted => exact h.elim

/-- Nor does it hide that a run does not come to its end. -/
theorem Ends.of_resettingFrames {o : Outcome α} {lines : List String}
    (h : ((o.mapFailure (·.quoting lines)).mapMachine Machine.resetFrames).Ends) : o.Ends := by
  cases o with
  | done | failed => trivial
  | exhausted => exact h.elim

end Outcome

/-! ### What the host takes -/

namespace Host

variable {host lower : Host} {depth depth' : Nat}

theorem neededRecursion_mono (h : depth ≤ depth') :
    neededRecursion depth ≤ neededRecursion depth' :=
  Nat.add_le_add_right (Nat.mul_le_mul_right callsPerCall h) 1000

/-- A recursion limit is refused if it has to be raised beyond what the host can set. -/
theorem raised_eq_error_iff {fault : HostFault} :
    host.raised depth = .error fault ↔
      host.recursionLimit < neededRecursion depth ∧ maxRecursionLimit < neededRecursion depth ∧
        fault = .recursionLimit (neededRecursion depth) := by
  unfold raised
  dsimp only
  split
  · exact iff_of_false nofun fun h => by omega
  · split
    · exact iff_of_false nofun fun h => by omega
    · rw [Except.error.injEq, eq_comm]
      exact ⟨fun h => ⟨by omega, by omega, h⟩, fun h => h.2.2⟩

/-- The recursion limit is the larger one of what it was and what is needed, and nothing else
changes. -/
theorem raised_eq_ok (h : host.raised depth = .ok lower) :
    lower = { host with recursionLimit := max host.recursionLimit (neededRecursion depth) } := by
  unfold raised at h
  dsimp only at h
  split at h
  · rename_i henough
    rw [max_eq_left henough]
    exact (Except.ok.inj h).symm
  · rename_i hless
    rw [max_eq_right (Nat.le_of_not_le hless)]
    split at h
    · exact (Except.ok.inj h).symm
    · cases h

/-- A host that takes a depth takes every smaller one, with a recursion limit that is no higher. -/
theorem raised_of_le (hle : depth ≤ depth') {higher : Host} (h : host.raised depth' = .ok higher) :
    ∃ lower, host.raised depth = .ok lower ∧ lower.recursionLimit ≤ higher.recursionLimit := by
  have hneeded := neededRecursion_mono hle
  cases hraised : host.raised depth with
  | error fault =>
    obtain ⟨hless, hbeyond, -⟩ := raised_eq_error_iff.mp hraised
    have hrefused : host.raised depth' = .error (.recursionLimit (neededRecursion depth')) :=
      raised_eq_error_iff.mpr ⟨by omega, by omega, rfl⟩
    cases hrefused.symm.trans h
  | ok lower =>
    refine ⟨lower, rfl, ?_⟩
    rw [raised_eq_ok hraised, raised_eq_ok h]
    exact max_le_max_left _ hneeded

end Host

namespace Session

variable {config config' : Config} {host higher : Host} {registry : Registry} {heap : Heap}
  {start : Machine}

theorem create_eq_ok_iff : create host config registry heap = .ok (higher, start) ↔
    host.raised config.maxCallDepth = .ok higher ∧ Session.start config registry heap = start := by
  unfold create
  cases host.raised config.maxCallDepth with
  | error fault => exact iff_of_false nofun fun h => nomatch h.1
  | ok raised =>
    show Except.ok (raised, _) = Except.ok (higher, start) ↔ _
    rw [Except.ok.injEq, Prod.mk.injEq, Except.ok.injEq]

/-- A session is refused exactly if the recursion limit that its calls need is neither there nor one
that the host can set. -/
theorem create_eq_error_iff : (∃ fault, create host config registry heap = .error fault) ↔
    host.recursionLimit < Host.neededRecursion config.maxCallDepth ∧
      Host.maxRecursionLimit < Host.neededRecursion config.maxCallDepth := by
  unfold create
  constructor
  · rintro ⟨fault, h⟩
    cases hraised : host.raised config.maxCallDepth with
    | ok raised =>
      rw [hraised] at h
      cases h
    | error fault =>
      obtain ⟨hless, hbeyond, -⟩ := Host.raised_eq_error_iff.mp hraised
      exact ⟨hless, hbeyond⟩
  · rintro ⟨hless, hbeyond⟩
    rw [Host.raised_eq_error_iff.mpr ⟨hless, hbeyond, rfl⟩]
    exact ⟨_, rfl⟩

/-- What the host takes under larger limits it takes under smaller ones, and sessions start alike.
-/
theorem create_of_le (hdepth : config.maxCallDepth ≤ config'.maxCallDepth)
    (hbuiltins : config'.loadBuiltins = config.loadBuiltins)
    (h : create host config' registry heap = .ok (higher, start)) :
    ∃ lower, create host config registry heap = .ok (lower, start) ∧
      lower.recursionLimit ≤ higher.recursionLimit := by
  obtain ⟨hraised, hstart⟩ := create_eq_ok_iff.mp h
  obtain ⟨lower, hlower, hle⟩ := Host.raised_of_le hdepth hraised
  refine ⟨lower, create_eq_ok_iff.mpr ⟨hlower, ?_⟩, hle⟩
  rw [← hstart]
  unfold Session.start
  rw [hbuiltins]

end Session

/-! ### Exponents -/

/-- An exponent is in range or out of it for the same reason under a larger limit, unless it is too
large. -/
theorem Decimal.powerIndex_of_le {limit limit' : Int} (h : limit ≤ limit') (x : Decimal) :
    x.powerIndex limit' = x.powerIndex limit ∨
      x.powerIndex limit = .error (.exponentOutOfRange x limit) := by
  unfold powerIndex
  by_cases hintegral : (!x.isIntegral) = true
  · exact .inl (by rw [if_pos hintegral, if_pos hintegral])
  rw [if_neg hintegral, if_neg hintegral]
  by_cases hnegative : x.cmp (ofNat 0) = .lt
  · exact .inl (by rw [if_pos hnegative, if_pos hnegative])
  rw [if_neg hnegative, if_neg hnegative]
  by_cases hlarge : x.cmp (ofSigned limit 0) = .gt
  · exact .inr (if_pos hlarge)
  -- What is not above the smaller limit is not above the larger one, as numbers are.
  · have hrat : ∀ n : Int, (ofSigned n 0).toRat = n := fun n => by
      rw [toRat_ofSigned, zpow_zero, mul_one]
    have hbelow : x.toRat ≤ limit' := by
      rw [cmp_eq_compare_toRat, compare_gt_iff_gt, hrat, not_lt] at hlarge
      exact hlarge.trans (Int.cast_le.mpr h)
    have hbelow' : ¬x.cmp (ofSigned limit' 0) = .gt := by
      rw [cmp_eq_compare_toRat, compare_gt_iff_gt, hrat, not_lt]
      exact hbelow
    exact .inl (by rw [if_neg hlarge, if_neg hbelow'])

/-- Arithmetic has the same result under larger limits, unless an exponent is out of range. -/
theorem arithmetic_of_le {limits limits' : Limits} (h : limits.maxExponent ≤ limits'.maxExponent)
    (hdigits : limits'.maxDigits = limits.maxDigits) (op : ArithmeticOp) (x y : Decimal) :
    Step.arithmetic limits' op x y = Step.arithmetic limits op x y ∨
      Step.arithmetic limits op x y =
        .error (.arithmetic (.exponentOutOfRange y limits.maxExponent)) := by
  cases op with
  | power =>
    have hle : (limits.maxExponent : Int) ≤ limits'.maxExponent := Int.ofNat_le.mpr h
    unfold Step.arithmetic Step.operandExcess? Step.exact Decimal.power
    rw [hdigits]
    rcases y.powerIndex_of_le hle with hsame | hout
    · exact .inl (by rw [hsame])
    · exact .inr (by rw [hout]; rfl)
  | add | subtract | multiply | divide | remainder =>
    refine .inl ?_
    unfold Step.arithmetic Step.operandExcess?
    rw [hdigits]
    rfl

/-! ### Runs -/

/-- A run beside the same run under larger limits, up to where it hits a limit or, if the other one
may outlast it, to the end of its budget. -/
def Pairing.raised (limits : Limits) (outlasts : Prop) : Pairing where
  relocation := .stay
  logs := fun _ log log' => log' = log
  fault := fun _ => True
  escape := fun failure _ => ∃ fault : RuntimeFault, fault.IsLimit limits ∧
    failure.fault = .runtime fault
  outlasts := outlasts

/-- Under higher limits every step does the same, as long as no limit is hit. -/
theorem Pairing.raised_sound {limits limits' : Limits} (hcapture : limits'.capture = limits.capture)
    (hdepth : limits.maxCallDepth ≤ limits'.maxCallDepth)
    (hexponent : limits.maxExponent ≤ limits'.maxExponent)
    (hdigits : limits'.maxDigits = limits.maxDigits) (outlasts : Prop) :
    (Pairing.raised limits outlasts).Sound limits limits' where
  capture := hcapture
  maxCallDepth := hdepth
  maxDigits := hdigits
  fault := fun _ _ => trivial
  record := fun _ _ hlogs => hlogs ▸ rfl
  captureAnalysis := fun _ _ hlogs => hlogs ▸ rfl
  enter := fun _ _ _ hlogs => hlogs ▸ rfl
  leave := fun _ hlogs => hlogs
  refuse := fun _ _ _ _ _ => .inl ⟨.callDepth limits.maxCallDepth, rfl, rfl⟩
  arithmetic := fun op x y => by
    rcases arithmetic_of_le hexponent hdigits op x y with hsame | hout
    · exact .inl hsame
    · exact .inr ⟨_, hout, fun span l =>
        ⟨.arithmetic (.exponentOutOfRange y limits.maxExponent), rfl, rfl⟩⟩

theorem Machine.beside_stay (m : Machine) : m.beside .stay m.log = m := by
  unfold beside
  rw [Heap.relocate_stay]

/-- Beside an evaluation that hits no limit, and ends if it may be outlasted, is the same one. -/
theorem Eval.Paired.eq_of_raised {α : Type} {limits : Limits} {outlasts : Prop} {x y : Eval α}
    (h : Eval.Paired (.raised limits outlasts) x y) (m : Machine)
    (hlimit : ¬(x m).HitsLimit limits) (hends : outlasts → (x m).Ends) : y m = x m := by
  have hend := h m m.log rfl
  have hstart : m.beside (Pairing.raised limits outlasts).relocation m.log = m := m.beside_stay
  rw [hstart] at hend
  generalize x m = o, y m = o' at hend hlimit hends
  cases hend with
  | done a k log hlogs =>
    obtain rfl : log = k.log := hlogs
    exact congrArg (Outcome.done a) k.beside_stay
  | failed fault span k log hfault hlogs =>
    obtain rfl : log = k.log := hlogs
    exact congrArg (Outcome.failed _) k.beside_stay
  | exhausted k log hlogs =>
    obtain rfl : log = k.log := hlogs
    exact congrArg Outcome.exhausted k.beside_stay
  | escaped failure k o' hescape => exact absurd hescape hlimit
  | outlasted houtlasts k o' => exact (hends houtlasts).elim

/-- A run that hits no limit is the same under larger limits, within the same budget and, if it
ends, within every larger one. -/
theorem Session.run_of_le {limits limits' : Limits} (hcapture : limits'.capture = limits.capture)
    (hdepth : limits.maxCallDepth ≤ limits'.maxCallDepth)
    (hexponent : limits.maxExponent ≤ limits'.maxExponent)
    (hdigits : limits'.maxDigits = limits.maxDigits) {budget budget' : Nat}
    (hbudget : budget ≤ budget') (program : Program) (source : String) (m : Machine)
    (hlimit : ¬(run limits budget program source m).HitsLimit limits)
    (hends : budget' = budget ∨ (run limits budget program source m).Ends) :
    run limits' budget' program source m = run limits budget program source m := by
  -- Under one and the same budget a run that exhausts it may be compared as well; only a larger
  -- budget asks for a run that ends.
  let P := Pairing.raised limits (budget' ≠ budget)
  have hsound : P.Sound limits limits' :=
    Pairing.raised_sound hcapture hdepth hexponent hdigits _
  have hbudgets : P.Budgets budget budget' := by
    by_cases hsame : budget' = budget
    · exact .inl hsame
    · exact .inr ⟨hsame, hbudget⟩
  have hprogram : Eval.Paired P (evaluateProgram limits budget program)
      (evaluateProgram limits' budget' program) := by
    have hbodies := hsound.bodies hbudgets none program.statements
    have hstay : relocateStmts P.relocation program.statements = program.statements :=
      relocateStmts_stay program.statements
    rw [hstay] at hbodies
    exact hbodies
  have hevaluated : evaluateProgram limits' budget' program m.resetFrames =
      evaluateProgram limits budget program m.resetFrames := by
    refine hprogram.eq_of_raised m.resetFrames (fun h => hlimit (h.resettingFrames _)) ?_
    intro hlarger
    exact (hends.resolve_left hlarger).of_resettingFrames
  unfold run
  dsimp only
  rw [hevaluated]

/-- **Raising the limits changes no run that does not hit them.** Of two configurations that differ
in the limits alone, wherever a session can be created under the larger ones, one can be created
under the smaller ones, with the same machine and a recursion limit of the host that is no higher.
From any machine, a run that does not fail for a limit of the first one has the same outcome under
the second: the same value or failure, and the same machine. That holds within every budget, and of
a run that ends also if the second one has the larger budget. -/
theorem raising_limits_changes_no_other_run {config config' : Config}
    (hdepth : config.maxCallDepth ≤ config'.maxCallDepth)
    (hexponent : config.maxExponent ≤ config'.maxExponent)
    (hbuiltins : config'.loadBuiltins = config.loadBuiltins) (host : Host) (registry : Registry)
    (heap : Heap) (program : Program) (source : String) :
    (∀ higher start, Session.create host config' registry heap = .ok (higher, start) →
      ∃ lower, Session.create host config registry heap = .ok (lower, start) ∧
        lower.recursionLimit ≤ higher.recursionLimit) ∧
    ∀ (m : Machine) (budget budget' : Nat), budget ≤ budget' →
      let outcome := Session.run (config.limits host) budget program source m
      ¬outcome.HitsLimit (config.limits host) → (budget' = budget ∨ outcome.Ends) →
        Session.run (config'.limits host) budget' program source m = outcome := by
  refine ⟨fun higher start h => Session.create_of_le hdepth hbuiltins h, ?_⟩
  intro m budget budget' hbudget outcome hlimit hends
  have hcapture : (config'.limits host).capture = (config.limits host).capture := rfl
  exact Session.run_of_le hcapture hdepth hexponent rfl hbudget program source m hlimit hends

/-- A call and a power that are just allowed, on a host whose recursion limit has to be raised for
the larger depth only. -/
theorem raising_limits_changes_no_other_run_at_limits :
    let span : Span := ⟨none, .start, .start⟩
    let number (n : Nat) (text : String) : Expr := .number span (.ofNat n) text
    let power : Expr := .binary span (.arithmetic .power) (number 2 "2") (number 3 "3")
    let f : Expr := .function span [] (.mk span [.ret span power])
    let program : Program :=
      ⟨span, [.assignVariable span span "f" f, .call span span (.name span "f") []]⟩
    let config : Config := { maxExponent := 3, maxCallDepth := 1, loadBuiltins := false }
    let config' : Config := { loadBuiltins := false }
    let host : Host := { recursionLimit := 1030 }
    let start := Session.start config .standard
    let outcome := Session.run (config.limits host) 9 program "" start
    (∃ later, outcome = .done (some (.ofDecimal (.ofNat 8))) later) ∧
      ¬outcome.HitsLimit (config.limits host) ∧
      Session.create host config' .standard = .ok ({ host with recursionLimit := 7000 }, start) ∧
      (∃ lower, Session.create host config .standard = .ok (lower, start) ∧
        lower.recursionLimit ≤ 7000) ∧
      Session.run (config'.limits host) 9 program "" start = outcome ∧
      Session.run (config'.limits host) 100 program "" start = outcome := by
  intro span number power f program config config' host start outcome
  have hdone : ∃ later, outcome = .done (some (.ofDecimal (.ofNat 8))) later := ⟨_, rfl⟩
  have hlimit : ¬outcome.HitsLimit (config.limits host) := by
    obtain ⟨later, hlater⟩ := hdone
    rw [hlater]
    exact fun h => h
  have hends : outcome.Ends := by
    obtain ⟨later, hlater⟩ := hdone
    rw [hlater]
    trivial
  have hdepth : config.maxCallDepth ≤ config'.maxCallDepth := by decide
  have hexponent : config.maxExponent ≤ config'.maxExponent := by decide
  have hneeded : Host.neededRecursion 200 = 7000 := rfl
  have hraised : host.raised 200 = .ok { host with recursionLimit := 7000 } := by
    unfold Host.raised
    rw [hneeded]
    exact (if_neg (by decide)).trans (if_pos (by decide))
  have hcreated : Session.create host config' .standard =
      .ok ({ host with recursionLimit := 7000 }, start) :=
    Session.create_eq_ok_iff.mpr ⟨hraised, rfl⟩
  obtain ⟨hsessions, hruns⟩ :=
    raising_limits_changes_no_other_run hdepth hexponent rfl host .standard {} program ""
  exact ⟨hdone, hlimit, hcreated, hsessions _ _ hcreated,
    hruns start 9 9 (Nat.le_refl 9) hlimit (.inl rfl),
    hruns start 9 100 (by decide) hlimit (.inr hends)⟩

end DecimalScript
