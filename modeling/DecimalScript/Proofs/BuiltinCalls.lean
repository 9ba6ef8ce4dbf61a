import DecimalScript.Proofs.BuiltinEffects
import DecimalScript.Proofs.DictionaryHistory
import DecimalScript.Proofs.Powers

/-!
# Calls of built-in functions

A call of a built-in function comes to its effect (`NativeFunction.run_eq_effect`), so one that
fails leaves no trace but its log entry. `append` and `remove` change the container that they are
given and no other one; every reference to the container sees the change, since references are all
that variables and other containers hold.

- `Value.toIndex_eq_ok_iff`: which values designate an element.
- `Heap.Designates`: what a key designates in a container.
- `Machine.ChangesOnly`: a call has given one container new contents, and that is all.
- `builtin_calls_change_one_container_or_nothing`: failures, additions and removals.
-/

namespace DecimalScript

open Eval

/-! ### Indices -/

theorem Decimal.toRat_ofNat (n : Nat) : (Decimal.ofNat n).toRat = n := by
  simp [toRat, ofNat, signed]

/-- **A value designates an element by its identity**: it is the number of the index, whatever its
scale. -/
theorem Value.toIndex_eq_ok_iff {key : Value} {length i : Nat} :
    key.toIndex length = .ok i ↔ key.identity = .number i ∧ i < length := by
  cases key with
  | number d =>
    have hindex : (number d).toIndex length =
        if !d.isIntegral then .error (.fractionalIndex d)
        else if d.cmp (.ofNat 0) = .lt ∨ d.cmp (.ofNat length) ≠ .lt then
          .error (.indexOutOfRange d length)
        else .ok d.toInt.toNat := rfl
    -- Keys are compared as decimals, and the claim is about the numbers that they stand for.
    have hout : (d.cmp (.ofNat 0) = .lt ∨ d.cmp (.ofNat length) ≠ .lt) ↔
        d.toRat < 0 ∨ length ≤ d.toRat := by
      rw [Decimal.cmp_eq_compare_toRat, Decimal.cmp_eq_compare_toRat, Decimal.toRat_ofNat,
        Decimal.toRat_ofNat, compare_lt_iff_lt, Ne, compare_lt_iff_lt, not_lt, Nat.cast_zero]
    rw [hindex, identity, Identity.number.injEq]
    by_cases hintegral : d.isIntegral = true
    · rw [← Decimal.toInt_eq hintegral] at hout ⊢
      have hbounds : ((d.toInt : ℚ) < 0 ∨ (length : ℚ) ≤ d.toInt) ↔
          d.toInt < 0 ∨ (length : ℤ) ≤ d.toInt := by
        exact_mod_cast Iff.rfl
      have hvalue : (d.toInt : ℚ) = i ↔ d.toInt = i := by
        exact_mod_cast Iff.rfl
      rw [hbounds] at hout
      rw [hvalue, hintegral, if_neg (by decide)]
      by_cases hrange : d.toInt < 0 ∨ (length : ℤ) ≤ d.toInt
      · rw [if_pos (hout.mpr hrange)]
        exact iff_of_false (fun h => by cases h) (by omega)
      · rw [if_neg (mt hout.mp hrange), Except.ok.injEq]
        omega
    -- A number with places is no index, whether or not it is in the range.
    · have hnot : d.toRat ≠ i := fun h =>
        hintegral ((Decimal.isIntegral_iff d).mpr ⟨i, by exact_mod_cast h⟩)
      rw [if_pos (by simpa using hintegral)]
      exact iff_of_false (fun h => by cases h) fun h => hnot h.1
  | _ => exact iff_of_false (fun h => by cases h) fun h => by cases h.1

namespace Heap

/-! ### Contents of containers -/

/-- The elements of an array, or the entries of a dictionary. -/
def contents (heap : Heap) : ContainerRef → List Value ⊕ List (Value × Value)
  | .array ref => .inl (heap.array ref).toList
  | .dictionary ref => .inr (heap.dictionary ref).entries

/-- A key designates something in a value: an element of an array, by its index, or an entry of a
dictionary. -/
def Designates (heap : Heap) (key : Value) : Value → Prop
  | .array ref => ∃ i < (heap.array ref).size, key.identity = .number (i : ℕ)
  | .dictionary ref => ∃ entry ∈ (heap.dictionary ref).entries, entry.1.identity = key.identity
  | _ => False

variable {heap : Heap}

theorem contents_modifyArray_of_ne {ref : ArrayRef} {other : ContainerRef} (h : other ≠ .array ref)
    (f : Array Value → Array Value) :
    (heap.modifyArray ref f).contents other = heap.contents other := by
  cases other with
  | array ref' =>
    have hne : ref.index ≠ ref'.index := fun heq => h (congrArg _ (congrArg ArrayRef.mk heq.symm))
    exact congrArg (fun elements => Sum.inl (Array.toList elements)) (getD_modify_of_ne hne f #[])
  | dictionary ref' => rfl

/-- A change to a dictionary shows in no other container. -/
theorem contents_modifyDictionary_of_ne {ref : DictionaryRef} {other : ContainerRef}
    (h : other ≠ .dictionary ref) (f : Dictionary → Dictionary) :
    (heap.modifyDictionary ref f).contents other = heap.contents other := by
  cases other with
  | array ref' => rfl
  | dictionary ref' =>
    have hne : ref.index ≠ ref'.index := fun heq => h (congrArg _ (congrArg DictionaryRef.mk heq.symm))
    exact congrArg (fun d => Sum.inr (Dictionary.entries d)) (getD_modify_of_ne hne f {})

/-- What is not the default is there. -/
theorem lt_size_of_getD_ne {α : Type} {xs : Array α} {i : Nat} {d : α} (h : xs.getD i d ≠ d) :
    i < xs.size := by
  by_contra hle
  rw [Array.getD_eq_getD_getElem?, Array.getElem?_eq_none (Nat.not_lt.mp hle)] at h
  exact h rfl

/-- A container in which something is designated is there. -/
theorem Designates.has_array {key : Value} {ref : ArrayRef}
    (h : heap.Designates key (.array ref)) : heap.Has (.array ref) := by
  obtain ⟨i, hi, -⟩ := h
  refine lt_size_of_getD_ne (d := #[]) fun hempty => ?_
  rw [array, hempty] at hi
  exact absurd hi (Nat.not_lt_zero i)

theorem Designates.has_dictionary {key : Value} {ref : DictionaryRef}
    (h : heap.Designates key (.dictionary ref)) : heap.Has (.dictionary ref) := by
  obtain ⟨entry, hentry, -⟩ := h
  refine lt_size_of_getD_ne (d := {}) fun hempty => ?_
  rw [dictionary, hempty] at hentry
  exact absurd hentry List.not_mem_nil

end Heap

namespace Machine

/-! ### What a call changes -/

/-- A call that is logged as an event has given a container new contents. Everything else is as it
was: the other containers, the functions, the variables, the frames and the output. -/
structure ChangesOnly (m : Machine) (event : LogEvent) (c : ContainerRef)
    (contents : List Value ⊕ List (Value × Value)) (later : Machine) : Prop where
  rest : later = { m.record event with heap := later.heap }
  functions : later.heap.functions = m.heap.functions
  has : ∀ other, later.heap.Has other ↔ m.heap.Has other
  changed : later.heap.contents c = contents
  kept : ∀ other, other ≠ c → later.heap.contents other = m.heap.contents other

/-- A call has removed what a key designates: the element at an index or the entry of a key. What
was in front of it and behind it stays in order. -/
inductive Removes (m : Machine) (event : LogEvent) (key : Value) : Value → Value → Machine → Prop
  | element {ref : ArrayRef} {before after : List Value} {x : Value} {later : Machine}
    (hcontents : m.heap.contents (.array ref) = .inl (before ++ x :: after))
    (hkey : key.identity = .number before.length)
    (hchange : m.ChangesOnly event (.array ref) (.inl (before ++ after)) later) :
    Removes m event key (.array ref) x later
  | entry {ref : DictionaryRef} {before after : List (Value × Value)} {first old : Value}
    {later : Machine}
    (hcontents : m.heap.contents (.dictionary ref) = .inr (before ++ (first, old) :: after))
    (hkey : first.identity = key.identity)
    (hchange : m.ChangesOnly event (.dictionary ref) (.inr (before ++ after)) later) :
    Removes m event key (.dictionary ref) old later

variable {m : Machine} {event : LogEvent}

/-- A function of the elements of an array changes nothing but that array. -/
theorem changesOnly_modifyArray {ref : ArrayRef} (h : m.heap.Has (.array ref))
    (f : Array Value → Array Value) :
    m.ChangesOnly event (.array ref) (.inl (f (m.heap.array ref)).toList)
      { m.record event with heap := m.heap.modifyArray ref f } where
  rest := rfl
  functions := rfl
  has other := by
    cases other with
    | array ref' =>
      show ref'.index < (m.heap.arrays.modify ref.index f).size ↔ _
      rw [Array.size_modify]
      rfl
    | dictionary ref' => rfl
  changed := congrArg (fun elements => Sum.inl (Array.toList elements)) (Heap.array_modifyArray h f)
  kept _ hne := Heap.contents_modifyArray_of_ne hne f

theorem changesOnly_modifyDictionary {ref : DictionaryRef} (h : m.heap.Has (.dictionary ref))
    (f : Dictionary → Dictionary) :
    m.ChangesOnly event (.dictionary ref) (.inr (f (m.heap.dictionary ref)).entries)
      { m.record event with heap := m.heap.modifyDictionary ref f } where
  rest := rfl
  functions := rfl
  has other := by
    cases other with
    | array ref' => rfl
    | dictionary ref' =>
      show ref'.index < (m.heap.dictionaries.modify ref.index f).size ↔ _
      rw [Array.size_modify]
      rfl
  changed := congrArg (fun d => Sum.inr (Dictionary.entries d))
    (Heap.dictionary_modifyDictionary h f)
  kept _ hne := Heap.contents_modifyDictionary_of_ne hne f

end Machine

namespace Step

/-! ### Calls -/

variable {maxDigits : Nat} {f : NativeFunction} {label : String} {args : List Value} {span : Span}
  {m : Machine} {container key : Value}

/-- A call has an effect, or it fails and leaves its log entry. -/
theorem callNative_cases (maxDigits : Nat) (f : NativeFunction) (label : String)
    (args : List Value) (span : Span) (m : Machine) :
    (∃ value later, callNative maxDigits f label args span m = .done value later) ∨
      ∃ failure, callNative maxDigits f label args span m =
        .failed failure (m.record (.nativeCall label args.length)) := by
  cases heffect : f.effect maxDigits m.heap args with
  | error fault => exact .inr ⟨_, callNative_error heffect⟩
  | ok effect => exact .inl ⟨_, _, callNative_ok heffect⟩

theorem callNative_argumentCount {arity : Nat} (harity : f.arity = some arity)
    (hargs : args.length ≠ arity) :
    callNative maxDigits f label args span m =
      .failed (.ofRuntime (.argumentCount f.name arity args.length) span)
        (m.record (.nativeCall label args.length)) := by
  refine callNative_error ?_
  unfold NativeFunction.effect
  rw [harity]
  exact if_neg hargs

theorem effect_append (hf : Registry.standard.find? "append" = some f) (heap : Heap) (ref : ArrayRef)
    (value : Value) : f.effect maxDigits heap [.array ref, value] = .ok (.append ref value) := by
  obtain rfl := Option.some.inj hf
  rfl

/-- An array that is appended to has the value behind its elements. -/
theorem callNative_append (hf : Registry.standard.find? "append" = some f) {ref : ArrayRef}
    (value : Value) (href : m.heap.Has (.array ref)) :
    ∃ later, callNative maxDigits f label [.array ref, value] span m = .done (some (.array ref)) later ∧
      m.ChangesOnly (.nativeCall label 2) (.array ref) (.inl ((m.heap.array ref).toList ++ [value]))
        later := by
  refine ⟨_, callNative_ok (effect_append hf _ ref value), ?_⟩
  rw [Machine.perform_silent rfl, ← Array.toList_push]
  exact Machine.changesOnly_modifyArray href (·.push value)

/-- A key that designates something is removed together with it, and what it designated is the
result. -/
theorem callNative_remove (hf : Registry.standard.find? "remove" = some f)
    (h : m.heap.Designates key container) :
    ∃ old later, callNative maxDigits f label [container, key] span m = .done (some old) later ∧
      m.Removes (.nativeCall label 2) key container old later := by
  cases container with
  | array ref =>
    have href := h.has_array
    obtain ⟨i, hi, hkey⟩ := h
    have heffect : f.effect maxDigits m.heap [.array ref, key] = .ok (.removeIndex ref i) := by
      obtain rfl := Option.some.inj hf
      show (key.toIndex (m.heap.array ref).size >>= fun index =>
        pure (Effect.removeIndex ref index)) = _
      rw [Value.toIndex_eq_ok_iff.mpr ⟨hkey, hi⟩]
      rfl
    -- The element is cut out of the list between what is in front of it and what is behind.
    have hlength : ((m.heap.array ref).toList.take i).length = i :=
      List.length_take_of_le (Nat.le_of_lt hi)
    have hcontents : m.heap.contents (.array ref) = .inl ((m.heap.array ref).toList.take i ++
        (m.heap.array ref)[i] :: (m.heap.array ref).toList.drop (i + 1)) := by
      rw [← Array.getElem_toList, ← List.drop_eq_getElem_cons, List.take_append_drop]
      rfl
    refine ⟨(m.heap.array ref)[i], _, (callNative_ok heffect).trans
      (congrArg (Outcome.done · _) (Array.getElem?_eq_getElem hi)),
      .element hcontents (hlength.symm ▸ hkey) ?_⟩
    rw [Machine.perform_silent rfl, ← List.eraseIdx_eq_take_drop_succ,
      ← Array.toList_eraseIdxIfInBounds]
    exact Machine.changesOnly_modifyArray href (·.eraseIdxIfInBounds i)
  | dictionary ref =>
    have href := h.has_dictionary
    have herase := Dictionary.entries_erase (m.heap.dictionary ref) key
    -- The key designates an entry, so the dictionary finds one.
    cases hfound : (m.heap.dictionary ref).get? key with
    | none =>
      obtain ⟨entry, hentry, hkey⟩ := h
      exact absurd hkey (Dictionary.get?_eq_none_iff.mp hfound entry hentry)
    | some old =>
      rw [hfound] at herase
      obtain ⟨before, first, after, hentries, hfirst, hlater⟩ := herase
      refine ⟨old, _, (callNative_ok (effect_remove_of_present hf hfound)).trans
        (congrArg (Outcome.done · _) hfound), .entry (congrArg Sum.inr hentries) hfirst ?_⟩
      rw [Machine.perform_silent rfl, ← hlater]
      exact Machine.changesOnly_modifyDictionary href (·.erase key)
  | _ => cases h

/-- A call that has an effect did not fail. -/
theorem effect_ne_error_of_done {result : Option Value} {later : Machine}
    (h : callNative maxDigits f label args span m = .done result later) (fault : RuntimeFault) :
    f.effect maxDigits m.heap args ≠ .error fault := by
  intro hfault
  cases (callNative_error hfault).symm.trans h

/-- Values are added to arrays only. -/
theorem isArray_of_append_done (hf : Registry.standard.find? "append" = some f) {value : Value}
    {result : Option Value} {later : Machine}
    (h : callNative maxDigits f label [container, value] span m = .done result later) :
    ∃ ref, container = .array ref := by
  have hfine := effect_ne_error_of_done h
  obtain rfl := Option.some.inj hf
  cases container with
  | array ref => exact ⟨ref, rfl⟩
  | _ => exact absurd rfl (hfine _)

/-- Only what is designated is removed. -/
theorem designates_of_remove_done (hf : Registry.standard.find? "remove" = some f)
    {result : Option Value} {later : Machine}
    (h : callNative maxDigits f label [container, key] span m = .done result later) :
    m.heap.Designates key container := by
  -- The call did not fail, so what it does is not refused either.
  have hfine := effect_ne_error_of_done h
  cases container with
  | array ref =>
    obtain rfl := Option.some.inj hf
    cases hindex : key.toIndex (m.heap.array ref).size with
    | ok i =>
      obtain ⟨hkey, hi⟩ := Value.toIndex_eq_ok_iff.mp hindex
      exact ⟨i, hi, hkey⟩
    | error fault =>
      refine absurd ?_ (hfine fault)
      show (key.toIndex (m.heap.array ref).size >>= fun index =>
        pure (Effect.removeIndex ref index)) = .error fault
      rw [hindex]
      rfl
  | dictionary ref =>
    by_contra hnone
    have hfound : (m.heap.dictionary ref).get? key = none :=
      Dictionary.get?_eq_none_iff.mpr fun entry hentry hkey => hnone ⟨entry, hentry, hkey⟩
    obtain ⟨fault, hfault, -⟩ := effect_remove_of_absent hf hfound
    exact hfine fault hfault
  | _ =>
    obtain rfl := Option.some.inj hf
    exact absurd rfl (hfine _)

/-- A built-in function is called by its registered name, unless the callee was a variable. -/
theorem callValue_native {limits : Limits} {eval : Expr → Eval Value}
    {run : List Stmt → Eval (Option Value)} {ref : FunctionRef}
    (hcallee : m.heap.function? ref = some (.native f)) (args : List Value) (span : Span)
    (name : Option String) :
    callValue limits eval run (.function ref) args span name m =
      callNative limits.maxDigits f (labelOf name (some f.name)) args span m := by
  simp only [callValue, bind_apply, Eval.machine, hcallee]

end Step

/-- **Calls of built-in functions change one container or nothing.** A call that fails leaves
nothing but its log entry: containers, output, variables and frames are as they were. With a number
of arguments other than its arity a function fails with E404, whatever the arguments are.

`append` succeeds with an array and fails with anything else; it adds the value at the end of the
array and gives the array. `remove` succeeds if the key designates something in the container: an
index by the number that it is, at any scale, from zero up to the length, or the key of an entry. It
takes away what is designated, gives it, and keeps the order of the rest. Neither of them changes
anything but the contents of this container, which every reference to it then has. -/
theorem builtin_calls_change_one_container_or_nothing {limits : Limits} {eval : Expr → Eval Value}
    {run : List Stmt → Eval (Option Value)} {m : Machine} {callee : FunctionRef} {f : NativeFunction}
    (hcallee : m.heap.function? callee = some (.native f)) (args : List Value) (span : Span)
    (name : Option String) :
    let event : LogEvent := .nativeCall (Step.labelOf name (some f.name)) args.length
    let call := Step.callValue limits eval run (.function callee) args span name m
    (∀ failure later, call = .failed failure later → later = m.record event) ∧
    (∀ arity, f.arity = some arity → args.length ≠ arity → ∃ failure,
      call = .failed failure (m.record event) ∧
      failure.fault = .runtime (.argumentCount f.name arity args.length) ∧
      failure.fault.code = "E404") ∧
    (Registry.standard.find? "append" = some f → ∀ container value, args = [container, value] →
      ((∃ result later, call = .done result later) ↔ ∃ ref, container = .array ref) ∧
      ∀ ref, container = .array ref → m.heap.Has (.array ref) → ∃ later,
        call = .done (some container) later ∧
        m.ChangesOnly event (.array ref) (.inl ((m.heap.array ref).toList ++ [value])) later) ∧
    (Registry.standard.find? "remove" = some f → ∀ container key, args = [container, key] →
      ((∃ result later, call = .done result later) ↔ m.heap.Designates key container) ∧
      ∀ result later, call = .done result later → ∃ old, result = some old ∧
        m.Removes event key container old later) := by
  intro event call
  have hcall : call =
      Step.callNative limits.maxDigits f (Step.labelOf name (some f.name)) args span m :=
    Step.callValue_native hcallee args span name
  -- From here on only the call of the function itself matters.
  clear_value call
  subst hcall
  refine ⟨?_, ?_, ?_, ?_⟩
  · intro failure later hfailed
    rcases Step.callNative_cases limits.maxDigits f (Step.labelOf name (some f.name)) args span m with
      ⟨value, done, hdone⟩ | ⟨failure', hfailed'⟩
    · cases hdone.symm.trans hfailed
    · exact (Outcome.failed.inj (hfailed'.symm.trans hfailed)).2.symm
  · intro arity harity hargs
    exact ⟨_, Step.callNative_argumentCount harity hargs, rfl, rfl⟩
  · rintro hf container value rfl
    refine ⟨⟨?_, ?_⟩, ?_⟩
    · rintro ⟨result, later, hdone⟩
      exact Step.isArray_of_append_done hf hdone
    · rintro ⟨ref, rfl⟩
      exact ⟨_, _, Step.callNative_ok (Step.effect_append hf _ ref value)⟩
    · rintro ref rfl href
      exact Step.callNative_append hf value href
  · rintro hf container key rfl
    refine ⟨⟨?_, ?_⟩, ?_⟩
    · rintro ⟨result, later, hdone⟩
      exact Step.designates_of_remove_done hf hdone
    · intro hdesignates
      obtain ⟨old, later, hdone, -⟩ := Step.callNative_remove hf hdesignates
      exact ⟨_, later, hdone⟩
    · intro result later hdone
      obtain ⟨old, later', hdone', hremoves⟩ :=
        Step.callNative_remove hf (Step.designates_of_remove_done hf hdone)
      obtain ⟨rfl, rfl⟩ := Outcome.done.inj (hdone'.symm.trans hdone)
      exact ⟨old, rfl, hremoves⟩

/-- An array that contains itself is added to itself; its second element is removed under an index
with a decimal place; minus one is no index, and one argument is too few. -/
theorem builtin_calls_change_one_container_or_nothing_in_cycle :
    let append : NativeFunction := ⟨"append", .append, some 2, "Append to an array in place."⟩
    let remove : NativeFunction :=
      ⟨"remove", .remove, some 2, "Remove an array index or dictionary key."⟩
    let cycle : Value := .array ⟨0⟩
    let m : Machine := .empty
      { arrays := #[#[cycle, .string "x"]], functions := #[.native append, .native remove] }
    let span : Span := ⟨none, .start, .start⟩
    let call (callee : FunctionRef) (args : List Value) :=
      Step.callValue {} (evalExpr {} 1) (fun _ => pure none) (.function callee) args span none m
    let one : Value := .number ⟨false, 10, -1⟩
    let minusOne : Value := .number ⟨true, 1, 0⟩
    (∃ later, call ⟨0⟩ [cycle, cycle] = .done (some cycle) later ∧
      m.ChangesOnly (.nativeCall "append" 2) (.array ⟨0⟩) (.inl [cycle, .string "x", cycle]) later) ∧
      m.Removes (.nativeCall "remove" 2) one cycle (.string "x") (call ⟨1⟩ [cycle, one]).machine ∧
      (call ⟨1⟩ [cycle, minusOne]).machine = m.record (.nativeCall "remove" 2) ∧
      ∃ failure, call ⟨1⟩ [cycle] = .failed failure (m.record (.nativeCall "remove" 1)) ∧
        failure.fault.code = "E404" := by
  intro append remove cycle m span call one minusOne
  have happend : m.heap.function? ⟨0⟩ = some (.native append) := rfl
  have hremove : m.heap.function? ⟨1⟩ = some (.native remove) := rfl
  have hcalls (args : List Value) := @builtin_calls_change_one_container_or_nothing {} (evalExpr {} 1)
    (fun _ => pure none) m ⟨1⟩ remove hremove args span none
  refine ⟨?_, ?_, ?_, ?_⟩
  · exact ((builtin_calls_change_one_container_or_nothing happend [cycle, cycle] span none).2.2.1
      rfl cycle cycle rfl).2 ⟨0⟩ rfl (by decide)
  -- The second element has the index one, however the number is written.
  · have hdone : ∃ later, call ⟨1⟩ [cycle, one] = .done (some (.string "x")) later := by
      dsimp only [call, m, cycle, one, span, append, remove]
      exact ⟨_, rfl⟩
    obtain ⟨later, hdone⟩ := hdone
    obtain ⟨old, hold, hremoves⟩ := ((hcalls [cycle, one]).2.2.2 rfl cycle one rfl).2 _ _ hdone
    cases hold
    rwa [hdone]
  · have hfailed : ∃ failure, call ⟨1⟩ [cycle, minusOne] =
        .failed failure (call ⟨1⟩ [cycle, minusOne]).machine := ⟨_, rfl⟩
    obtain ⟨failure, hfailed⟩ := hfailed
    exact (hcalls [cycle, minusOne]).1 failure _ hfailed
  · obtain ⟨failure, hfailed, -, hcode⟩ := (hcalls [cycle]).2.1 2 rfl (by decide)
    exact ⟨failure, hfailed, hcode⟩

end DecimalScript
