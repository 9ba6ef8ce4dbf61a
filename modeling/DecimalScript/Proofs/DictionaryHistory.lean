import DecimalScript.Builtin.Registry
import DecimalScript.Machine.Step
import DecimalScript.Proofs.BackEdges
import DecimalScript.Proofs.BuiltinEffects
import DecimalScript.Proofs.DictionaryMap
import DecimalScript.Proofs.HeapGrowth

/-!
# The life of a dictionary

A literal makes a dictionary, assignments to its elements store into it, and `remove` takes keys out
of it. Whatever a script does in between, the dictionary is what this history makes of an empty one,
and so lookups, loops, built-in functions and the text of the dictionary show one map in order of
insertion.

- `DictionaryHistory`: what a script has done to a dictionary, up to some machine.
- `DictionaryHistory.dictionary_eq`: the dictionary is what its history makes.
- `Rounds`: the rounds of a loop, each with the item that it is for and the machine that it starts on.
- `Machine.HoldsMap`: what a script can observe of it, and what the next operation does to it.
- `dictionary_is_ordered_map`: both, after every history.
-/

namespace DecimalScript

open Eval DictionaryEvent

/-! ### Calls of built-in functions -/

namespace Step

variable {maxDigits : Nat} {f : NativeFunction} {args : List Value} {label : String} {span : Span}
  {m : Machine}

/-- A call is logged, and then it comes to its effect. -/
theorem callNative_apply (maxDigits : Nat) (f : NativeFunction) (label : String) (args : List Value)
    (span : Span) (m : Machine) :
    callNative maxDigits f label args span m =
      Effect.outcome span (m.record (.nativeCall label args.length))
        (f.effect maxDigits m.heap args) :=
  f.run_eq_effect maxDigits args span (m.record (.nativeCall label args.length))

/-- A call of a built-in function that has an effect. -/
theorem callNative_ok {effect : Effect} (h : f.effect maxDigits m.heap args = .ok effect) :
    callNative maxDigits f label args span m =
      .done (effect.value m.heap) ((m.record (.nativeCall label args.length)).perform effect) := by
  rw [callNative_apply, h]
  rfl

/-- A call of a built-in function that fails leaves nothing but its log entry. -/
theorem callNative_error {fault : RuntimeFault} (h : f.effect maxDigits m.heap args = .error fault) :
    callNative maxDigits f label args span m =
      .failed (.ofRuntime fault span) (m.record (.nativeCall label args.length)) := by
  rw [callNative_apply, h]
  rfl

end Step

/-! ### What a script does to a dictionary -/

/-- `DictionaryHistory ref history m`: the dictionary `ref` has been made by a literal, `history` is
what has happened to it up to now, and the machine is `m`. -/
inductive DictionaryHistory (ref : DictionaryRef) : List DictionaryEvent → Machine → Prop
  /-- A literal stores its entries one after the other. -/
  | literal {limits : Limits} {eval : Expr → Eval Value} {run : List Stmt → Eval (Option Value)}
    {span : Span} {es : List Entry} {entries : List (Value × Value)} {m middle later : Machine}
    (hentries : Step.entries eval es m = .done entries middle)
    (hliteral : Step.expr limits eval run (.dictionary span es) m = .done (.dictionary ref) later) :
    DictionaryHistory ref (entries.map fun entry => .stored entry.1 entry.2) later
  /-- An assignment stores a value under a key. -/
  | store {history : List DictionaryEvent} {m later : Machine} (hm : DictionaryHistory ref history m)
    (key value : Value) (targetSpan keySpan : Span)
    (hstore : Step.storeElement (.dictionary ref) key value targetSpan keySpan m =
      .done () later) :
    DictionaryHistory ref (history ++ [.stored key value]) later
  /-- A call of `remove` removes a key. -/
  | remove {history : List DictionaryEvent} {m later : Machine}
    (hm : DictionaryHistory ref history m) {f : NativeFunction}
    (hf : Registry.standard.find? "remove" = some f) (key : Value) (label : String) (span : Span)
    {maxDigits : Nat} {value : Option Value}
    (hremove : Step.callNative maxDigits f label [.dictionary ref, key] span m =
      .done value later) :
    DictionaryHistory ref (history ++ [.removed key]) later
  /-- Anything else that a script does leaves this dictionary as it is. -/
  | other {history : List DictionaryEvent} {m later : Machine} (hm : DictionaryHistory ref history m)
    (hsize : m.heap.dictionaries.size ≤ later.heap.dictionaries.size)
    (hsame : later.heap.dictionary ref = m.heap.dictionary ref) :
    DictionaryHistory ref history later

section Absence

variable {maxDigits : Nat} {f : NativeFunction} {heap : Heap} {ref : DictionaryRef} {key : Value}
  {targetSpan keySpan : Span}

theorem element_of_present {value : Value} (h : (heap.dictionary ref).get? key = some value)
    (m : Machine) :
    Step.element maxDigits heap (.dictionary ref) key targetSpan keySpan m = .done value m := by
  unfold Step.element
  dsimp only
  rw [h]
  rfl

theorem element_of_absent (h : (heap.dictionary ref).get? key = none) (m : Machine) :
    ∃ fault,
      Step.element maxDigits heap (.dictionary ref) key targetSpan keySpan m =
        .failed (.ofRuntime fault keySpan) m ∧
      ∀ text, heap.write maxDigits key = .ok text → fault = .missingKey text := by
  unfold Step.element
  dsimp only
  rw [h]
  cases heap.write maxDigits key with
  | error fault => exact ⟨fault, rfl, fun _ htext => nomatch htext⟩
  | ok text => exact ⟨.missingKey text, rfl, fun _ htext => congrArg _ (Except.ok.inj htext)⟩

/-- What `remove` does to a dictionary depends on whether the key is there. -/
theorem effect_remove (hf : Registry.standard.find? "remove" = some f) :
    f.effect maxDigits heap [.dictionary ref, key] =
      match (heap.dictionary ref).get? key with
      | some _ => .ok (.removeKey ref key)
      | none => heap.write maxDigits key >>= fun text => .error (.missingKey text) := by
  obtain rfl := Option.some.inj hf
  rfl

theorem effect_remove_of_present (hf : Registry.standard.find? "remove" = some f) {old : Value}
    (h : (heap.dictionary ref).get? key = some old) :
    f.effect maxDigits heap [.dictionary ref, key] = .ok (.removeKey ref key) := by
  rw [effect_remove hf, h]

/-- A key that is not held cannot be removed; it is reported as a lookup would. -/
theorem effect_remove_of_absent (hf : Registry.standard.find? "remove" = some f)
    (h : (heap.dictionary ref).get? key = none) :
    ∃ fault, f.effect maxDigits heap [.dictionary ref, key] = .error fault ∧
      ∀ text, heap.write maxDigits key = .ok text → fault = .missingKey text := by
  rw [effect_remove hf, h]
  cases heap.write maxDigits key with
  | error fault => exact ⟨fault, rfl, fun _ htext => nomatch htext⟩
  | ok text => exact ⟨.missingKey text, rfl, fun _ htext => congrArg _ (Except.ok.inj htext)⟩

end Absence

namespace DictionaryHistory

variable {ref : DictionaryRef} {history : List DictionaryEvent} {m : Machine}

/-- **A dictionary is what its history makes of an empty one.** -/
theorem dictionary_eq (h : DictionaryHistory ref history m) :
    ref.index < m.heap.dictionaries.size ∧ m.heap.dictionary ref = run history := by
  -- Each constructor of the history is one primitive effect on the heap, and the reference
  -- semantics folds the same effect, so the two agree after every event.
  induction h with
  | @literal limits eval exec span es entries m middle later hentries hliteral =>
    have hnew : Outcome.done (Value.dictionary ⟨middle.heap.dictionaries.size⟩)
        { middle with heap := (middle.heap.addDictionary (.ofList entries)).2 } =
          .done (.dictionary ref) later :=
      (bind_done hentries _).symm.trans hliteral
    obtain ⟨href, rfl⟩ := Outcome.done.inj hnew
    obtain rfl := Value.dictionary.inj href
    refine ⟨middle.heap.has_addDictionary _, ?_⟩
    rw [run_stored]
    exact middle.heap.dictionary_addDictionary _
  | @store history m later hm key value targetSpan keySpan hstore ih =>
    obtain ⟨hlt, heq⟩ := ih
    obtain ⟨-, rfl⟩ := Outcome.done.inj hstore
    refine ⟨Heap.has_modifyDictionary hlt _, ?_⟩
    rw [run_append_singleton, ← heq]
    exact Heap.dictionary_modifyDictionary hlt _
  | @remove history m later hm f hf key label span maxDigits value hremove ih =>
    obtain ⟨hlt, heq⟩ := ih
    -- Only a removal that came back belongs to the history: an absent key makes the call fail.
    cases hfound : (m.heap.dictionary ref).get? key with
    | none =>
      obtain ⟨fault, heffect, -⟩ := @effect_remove_of_absent maxDigits _ _ _ _ hf hfound
      cases (Step.callNative_error heffect).symm.trans hremove
    | some old =>
      have hdone := (Step.callNative_ok (effect_remove_of_present hf hfound)).symm.trans hremove
      obtain ⟨-, rfl⟩ := Outcome.done.inj hdone
      refine ⟨Heap.has_modifyDictionary hlt _, ?_⟩
      rw [run_append_singleton, ← heq]
      exact Heap.dictionary_modifyDictionary hlt _
  | other hm hsize hsame ih => exact ⟨Nat.lt_of_lt_of_le ih.1 hsize, hsame.trans ih.2⟩

end DictionaryHistory

/-! ### Rounds of a loop -/

/-- The rounds of a loop over items. `Rounds body m last items seen o`: on the machine `m`, with
`items` still to come and `last` from the round before, the loop comes to `o`, and its rounds are
for `seen`. -/
inductive Rounds {α : Type} (body : α → Eval (Option Value)) :
    Machine → Option Value → (items seen : List α) → Outcome (Option Value) → Prop
  /-- Every item has had its round. -/
  | finished (m : Machine) (last : Option Value) : Rounds body m last [] [] (.done last m)
  /-- A round is over, and the next one starts on the machine that it has left. -/
  | next {m later : Machine} {last result : Option Value} {a : α} {items seen : List α}
    {o : Outcome (Option Value)} (hround : body a m = .done result later)
    (hgoes : later.frame.pending = none) (hrest : Rounds body later result items seen o) :
    Rounds body m last (a :: items) (a :: seen) o
  /-- A round makes the frame return. -/
  | returns {m later : Machine} {last result : Option Value} {a : α} {items : List α} {value : Value}
    (hround : body a m = .done result later) (hreturns : later.frame.pending = some value) :
    Rounds body m last (a :: items) [a] (.done result later)
  /-- A round fails or does not end. -/
  | breaks {m : Machine} {last : Option Value} {a : α} {items : List α}
    (hbreaks : ∀ result later, body a m ≠ .done result later) :
    Rounds body m last (a :: items) [a] (body a m)

namespace Rounds

variable {α : Type} {body : α → Eval (Option Value)} {m : Machine} {last : Option Value}
  {items seen : List α} {o : Outcome (Option Value)}

/-- A loop runs in rounds: by induction on the items that are still to come. -/
theorem ofForEach (body : α → Eval (Option Value)) : ∀ items last m,
    ∃ seen, Rounds body m last items seen (forEach body last items m)
  | [], last, m => ⟨[], .finished m last⟩
  | a :: items, last, m => by
    -- A round ends the loop when it fails, when its budget runs out, or when it leaves a signal
    -- pending; only otherwise the loop goes on, from the machine the round left.
    cases hround : body a m with
    | failed failure later =>
      refine ⟨[a], ?_⟩
      rw [forEach, bind_failed hround, ← hround]
      exact .breaks fun _ _ h => by cases hround.symm.trans h
    | exhausted later =>
      refine ⟨[a], ?_⟩
      rw [forEach, bind_exhausted hround, ← hround]
      exact .breaks fun _ _ h => by cases hround.symm.trans h
    | done result later =>
      have hpending : pending later = .done later.frame.pending later := rfl
      rw [forEach, bind_done hround, bind_done hpending]
      cases hgoes : later.frame.pending with
      | some value => exact ⟨[a], .returns hround hgoes⟩
      | none =>
        obtain ⟨seen, hrest⟩ := ofForEach body items result later
        exact ⟨a :: seen, .next hround hgoes hrest⟩

/-- Rounds are for the first items, in their order. -/
theorem isPrefix (h : Rounds body m last items seen o) : seen <+: items := by
  induction h with
  | finished => exact List.prefix_rfl
  | next _ _ _ ih => exact (List.prefix_cons_inj _).mpr ih
  | returns | breaks => exact ⟨_, rfl⟩

/-- A loop that ends and does not return has had a round for every item. -/
theorem seen_eq (h : Rounds body m last items seen o) {result : Option Value} {later : Machine}
    (hdone : o = .done result later) (hgoes : later.frame.pending = none) : seen = items := by
  induction h with
  | finished => rfl
  | next _ _ _ ih => rw [ih hdone]
  | returns _ hreturns =>
    obtain ⟨-, rfl⟩ := Outcome.done.inj hdone
    cases hgoes.symm.trans hreturns
  | breaks hbreaks => exact absurd hdone (hbreaks _ _)

end Rounds

/-- The machine at the start of a round: the variables of the loop have the key and the value of an
entry. -/
def Machine.atEntry (m : Machine) (key value : String) (entry : Value × Value) : Machine :=
  (m.assign m.frame.table key (some entry.1)).assign m.frame.table value (some entry.2)

/-! ### What a script observes -/

/-- After a history, the dictionary is one map for all that a script can do with it. -/
structure Machine.HoldsMap (m : Machine) (ref : DictionaryRef) (history : List DictionaryEvent) :
    Prop where
  /-- No two keys are the same. -/
  distinct : ((m.heap.dictionary ref).keys.map Value.identity).Nodup
  /-- A lookup gives what was stored last, unless the key has been removed since. A lookup without
  success changes nothing. -/
  lookup : ∀ maxDigits key targetSpan keySpan,
    match lastStored? history key with
    | some value =>
      Step.element maxDigits m.heap (.dictionary ref) key targetSpan keySpan m = .done value m
    | none => ∃ fault,
      Step.element maxDigits m.heap (.dictionary ref) key targetSpan keySpan m =
        .failed (.ofRuntime fault keySpan) m ∧
      ∀ text, m.heap.write maxDigits key = .ok text → fault = .missingKey text
  /-- A store keeps the first key and its place if there is one, and else appends an entry. -/
  store : ∀ key value targetSpan keySpan, ∃ later,
    Step.storeElement (.dictionary ref) key value targetSpan keySpan m = .done () later ∧
    match lastStored? history key with
    | some old => ∃ before first after,
      (m.heap.dictionary ref).entries = before ++ (first, old) :: after ∧
      first.identity = key.identity ∧
      (later.heap.dictionary ref).entries = before ++ (first, value) :: after
    | none =>
      (later.heap.dictionary ref).entries = (m.heap.dictionary ref).entries ++ [(key, value)]
  /-- A removal gives the value and takes the entry away; without success it leaves no more than its
  log entry. -/
  remove : ∀ f, Registry.standard.find? "remove" = some f → ∀ maxDigits key label span,
    match lastStored? history key with
    | some old => ∃ later before first after,
      Step.callNative maxDigits f label [.dictionary ref, key] span m = .done (some old) later ∧
      (m.heap.dictionary ref).entries = before ++ (first, old) :: after ∧
      first.identity = key.identity ∧
      (later.heap.dictionary ref).entries = before ++ after
    | none => ∃ fault,
      Step.callNative maxDigits f label [.dictionary ref, key] span m =
        .failed (.ofRuntime fault span) (m.record (.nativeCall label 2)) ∧
      ∀ text, m.heap.write maxDigits key = .ok text → fault = .missingKey text
  /-- The length is the number of entries. -/
  len : ∀ f, Registry.standard.find? "len" = some f → ∀ maxDigits label span,
    Step.callNative maxDigits f label [.dictionary ref] span m =
      .done (some (.ofDecimal (.ofNat (m.heap.dictionary ref).entries.length)))
        (m.record (.nativeCall label 1))
  /-- The keys come in the order of the entries, in a new array. -/
  keys : ∀ f, Registry.standard.find? "keys" = some f → ∀ maxDigits label span,
    ∃ array later,
    Step.callNative maxDigits f label [.dictionary ref] span m = .done (some (.array array)) later ∧
    (later.heap.array array).toList = (m.heap.dictionary ref).entries.map (·.1) ∧
    later.heap.dictionaries = m.heap.dictionaries
  /-- So do the values. -/
  values : ∀ f, Registry.standard.find? "values" = some f → ∀ maxDigits label span,
    ∃ array later,
    Step.callNative maxDigits f label [.dictionary ref] span m = .done (some (.array array)) later ∧
    (later.heap.array array).toList = (m.heap.dictionary ref).entries.map (·.2) ∧
    later.heap.dictionaries = m.heap.dictionaries
  /-- The rounds of a loop are for the entries at its start, one after the other and in their order,
  whatever its body does to the dictionary: for all of them, unless a round fails, does not end or
  makes the frame return. -/
  each : ∀ exec span key value body, ∃ seen,
    let outcome := Step.each exec (.dictionary ref) span (some key) value body m
    Rounds (fun entry k => Step.block exec body (k.atEntry key value entry)) m none
      (m.heap.dictionary ref).entries seen outcome ∧
    seen <+: (m.heap.dictionary ref).entries ∧
    ∀ result later, outcome = .done result later → later.frame.pending = none →
      seen = (m.heap.dictionary ref).entries
  /-- The text of the dictionary shows the entries in their order, the key of each in front of its
  value. Keys and values are shown as they are inside the dictionary, and by their own texts unless
  there is a cycle. -/
  display :
    let shown := Display.within m.heap m.heap.containerCount [.dictionary ref]
    m.heap.display (.dictionary ref) =
      Display.braced ((m.heap.dictionary ref).entries.map fun entry =>
        (Display.nested shown entry.1, Display.nested shown entry.2)) ∧
    ∀ v ∈ m.heap.held (.dictionary ref), Display.Shows m.heap [.dictionary ref] v (shown v) ∧
      (m.heap.Acyclic (.dictionary ref) → shown v = m.heap.display v)

/-- A built-in function that gives an array puts it behind the others. -/
theorem Step.callNative_newArray {maxDigits : Nat} {f : NativeFunction} {args : List Value}
    {label : String} {span : Span} {m : Machine} {elements : List Value}
    (h : f.effect maxDigits m.heap args = .ok (.newArray elements)) :
    ∃ array later, callNative maxDigits f label args span m = .done (some (.array array)) later ∧
      (later.heap.array array).toList = elements ∧
      later.heap.dictionaries = m.heap.dictionaries := by
  refine ⟨_, _, callNative_ok h, ?_, rfl⟩
  show ((m.heap.addArray elements.toArray).2.array ⟨m.heap.arrays.size⟩).toList = elements
  rw [Heap.array_addArray]

/-- What a dictionary holds is shown inside it; without a cycle the way there does not matter. -/
theorem Display.shows_held {heap : Heap} {c : ContainerRef} (hc : heap.Has c) {v : Value}
    (hv : v ∈ heap.held c) :
    Shows heap [c] v (within heap heap.containerCount [c] v) ∧
      (heap.Acyclic c.value → within heap heap.containerCount [c] v = heap.display v) := by
  have hdepth : (heap.beside [c]).card < heap.containerCount :=
    Nat.lt_of_lt_of_le (Heap.card_beside_cons_lt hc List.not_mem_nil) (heap.card_beside_le [])
  have hshows := shows_within hdepth (v := v)
  refine ⟨hshows, fun hacyclic => ?_⟩
  have hrenders : heap.Renders v (within heap heap.containerCount [c] v) := by
    refine Heap.renders_of_shows hshows ?_ ?_
    · intro d hreach
      exact hacyclic d (Heap.reaches_value_iff.mpr (.inr ⟨v, hv, hreach⟩))
    · intro d hd hreach
      obtain rfl := List.mem_singleton.mp hd
      exact hacyclic d (Heap.reaches_value_iff.mpr (.inl rfl))
        (Heap.holds_itself_iff.mpr ⟨v, hv, hreach⟩)
  exact (Heap.renders_iff.mp hrenders).2

/-- **A dictionary is a map in order of insertion.** Two values are the same key exactly if they
have one identity: numbers by what they stand for, strings and booleans by content, containers and
functions by where they are in the heap, and never two values of different kinds. After every
history of a dictionary, whatever else the script has done, the dictionary is for lookups, stores,
removals, loops, `keys`, `values`, `len` and its text the map that `Machine.HoldsMap` says. -/
theorem dictionary_is_ordered_map {ref : DictionaryRef} {history : List DictionaryEvent}
    {m : Machine} (h : DictionaryHistory ref history m) :
    (∀ a b : Value, a.same b = true ↔ a.identity = b.identity) ∧ m.HoldsMap ref history := by
  refine ⟨Value.same_iff, ?_⟩
  obtain ⟨hlt, heq⟩ := h.dictionary_eq
  -- Everything below is about the history's own dictionary: what the calls do to the heap is
  -- already in `dictionary_eq`.
  obtain ⟨hdistinct, hget⟩ := run_sound history
  rw [← heq] at hdistinct hget
  exact {
    distinct := by
      rwa [Dictionary.keys, List.map_map]
    lookup := fun maxDigits key targetSpan keySpan => by
      rw [← hget]
      cases hfound : (m.heap.dictionary ref).get? key with
      | some value => exact element_of_present hfound m
      | none => exact element_of_absent hfound m
    store := fun key value targetSpan keySpan => by
      refine ⟨_, rfl, ?_⟩
      rw [← hget, Heap.dictionary_modifyDictionary hlt]
      exact Dictionary.entries_insert _ key value
    remove := fun f hf maxDigits key label span => by
      rw [← hget]
      have herase := Dictionary.entries_erase (m.heap.dictionary ref) key
      cases hfound : (m.heap.dictionary ref).get? key with
      | none =>
        obtain ⟨fault, heffect, htext⟩ := effect_remove_of_absent hf hfound
        exact ⟨fault, Step.callNative_error heffect, htext⟩
      | some old =>
        rw [hfound] at herase
        obtain ⟨before, first, after, hentries, hfirst, hlater⟩ := herase
        let later := (m.record (.nativeCall label 2)).perform (.removeKey ref key)
        have hcall : Step.callNative maxDigits f label [.dictionary ref, key] span m =
            .done (some old) later :=
          (Step.callNative_ok (effect_remove_of_present hf hfound)).trans
            (congrArg (Outcome.done · later) hfound)
        refine ⟨later, before, first, after, hcall, hentries, hfirst, ?_⟩
        rw [← hlater]
        exact congrArg Dictionary.entries (Heap.dictionary_modifyDictionary hlt _)
    len := fun f hf maxDigits label span => by
      obtain rfl := Option.some.inj hf
      exact (@Step.callNative_ok maxDigits _ [.dictionary ref] label span m (.giveNumber _) rfl).trans
        (congrArg (Outcome.done _) (Machine.perform_give _ _))
    keys := fun f hf maxDigits label span => by
      obtain rfl := Option.some.inj hf
      exact Step.callNative_newArray rfl
    values := fun f hf maxDigits label span => by
      obtain rfl := Option.some.inj hf
      exact Step.callNative_newArray rfl
    each := fun exec span key value body => by
      obtain ⟨seen, hrounds⟩ := Rounds.ofForEach
        (fun entry k => Step.block exec body (k.atEntry key value entry))
        (m.heap.dictionary ref).entries none m
      exact ⟨seen, hrounds, hrounds.isPrefix, fun _ _ => hrounds.seen_eq⟩
    display := ⟨rfl, fun v hv => Display.shows_held (c := .dictionary ref) hlt hv⟩ }

/-- A literal with two spellings of one number, a key that is removed, and the same key again. -/
theorem dictionary_is_ordered_map_of_literal :
    let span : Span := ⟨none, .start, .start⟩
    let entry (coefficient : Nat) (exponent : Int) (value : String) : Entry :=
      .mk (.number span ⟨false, coefficient, exponent⟩ "") (.string span value)
    let es := [entry 10 (-1) "first", .mk (.string span "1") (.string span "text"),
      entry 1 0 "again"]
    let one (coefficient : Nat) (exponent : Int) : Value := .number ⟨false, coefficient, exponent⟩
    let made := (Step.expr {} (evalExpr {} 3) (fun _ => pure none) (.dictionary span es)
      (.empty {})).machine
    let remove : NativeFunction :=
      ⟨"remove", .remove, some 2, "Remove an array index or dictionary key."⟩
    let removed :=
      (Step.callNative 9 remove "remove" [.dictionary ⟨0⟩, one 100 (-2)] span made).machine
    let later := (Step.storeElement (.dictionary ⟨0⟩) (one 1 0) (.string "last") span span
      removed).machine
    let history : List DictionaryEvent :=
      [.stored (one 10 (-1)) (.string "first"), .stored (.string "1") (.string "text"),
        .stored (one 1 0) (.string "again"), .removed (one 100 (-2)),
        .stored (one 1 0) (.string "last")]
    DictionaryHistory ⟨0⟩ history later ∧ later.HoldsMap ⟨0⟩ history ∧
      (made.heap.dictionary ⟨0⟩).entries =
        [(one 10 (-1), .string "again"), (.string "1", .string "text")] ∧
      (later.heap.dictionary ⟨0⟩).entries =
        [(.string "1", .string "text"), (one 1 0, .string "last")] := by
  intro span entry es one made remove removed later history
  have hentries : Step.entries (evalExpr {} 3) es (.empty {}) =
      .done [(one 10 (-1), .string "first"), (.string "1", .string "text"),
        (one 1 0, .string "again")] (.empty {}) := rfl
  have hliteral : Step.expr {} (evalExpr {} 3) (fun _ => pure none) (.dictionary span es)
      (.empty {}) = .done (.dictionary ⟨0⟩) made := rfl
  have hmade : DictionaryHistory ⟨0⟩ _ made := .literal hentries hliteral
  have hcall : Step.callNative 9 remove "remove" [.dictionary ⟨0⟩, one 100 (-2)] span made =
      .done (some (.string "again")) removed := rfl
  have hremoved : DictionaryHistory ⟨0⟩ _ removed :=
    .remove hmade rfl (one 100 (-2)) "remove" span hcall
  have hlater : DictionaryHistory ⟨0⟩ history later :=
    .store hremoved (one 1 0) (.string "last") span span rfl
  exact ⟨hlater, (dictionary_is_ordered_map hlater).2, rfl, rfl⟩

end DecimalScript
