import DecimalScript.Proofs.CorrespondingLists
import DecimalScript.Proofs.DictionaryMap
import DecimalScript.Proofs.HeapGrowth
import Mathlib.Data.List.Perm.Subperm
import Mathlib.Logic.Relation

/-!
# Data

Data are values built from numbers, strings, booleans, arrays and dictionaries. No container of data
holds itself, directly or through others. So the text of data shows every container in full: the
marks for containers inside their own text do not occur, and the bound on the depth is not reached.

- `Heap.IsData`: data of at most some depth. `Heap.exists_isData_iff` says it without a depth: there
  is nothing but data to be reached, and no container is reached from itself.
- `Heap.Alike`: data of one shape.
- `Display.Inside`: where the text of data is asked for. `Inside.enter` goes one container deeper.
-/

namespace DecimalScript

namespace Heap

/-- The values that a container holds. -/
def held (heap : Heap) : ContainerRef → List Value
  | .array ref => (heap.array ref).toList
  | .dictionary ref => (heap.dictionary ref).entries.flatMap fun entry => [entry.1, entry.2]

theorem mem_held {heap : Heap} {ref : DictionaryRef} {entry : Value × Value}
    (h : entry ∈ (heap.dictionary ref).entries) :
    entry.1 ∈ heap.held (.dictionary ref) ∧ entry.2 ∈ heap.held (.dictionary ref) :=
  ⟨List.mem_flatMap.mpr ⟨entry, h, List.mem_cons_self⟩,
    List.mem_flatMap.mpr ⟨entry, h, List.mem_pair.mpr (.inr rfl)⟩⟩

/-! ### Data -/

/-- What data are, given what containers of data hold: numbers without the sign of a zero, strings,
booleans, arrays, and dictionaries with no key twice. -/
inductive DataOver (heap : Heap) (inner : Value → Prop) : Value → Prop
  | number (d : Decimal) (hsign : d.withoutZeroSign = d) : DataOver heap inner (.number d)
  | string (s : String) : DataOver heap inner (.string s)
  | boolean (b : Bool) : DataOver heap inner (.boolean b)
  | array (ref : ArrayRef) (hhas : heap.Has (.array ref))
    (hheld : ∀ v ∈ (heap.array ref).toList, inner v) : DataOver heap inner (.array ref)
  | dictionary (ref : DictionaryRef) (hhas : heap.Has (.dictionary ref))
    (hdistinct : Dictionary.Distinct (heap.dictionary ref).entries)
    (hheld : ∀ entry ∈ (heap.dictionary ref).entries, inner entry.1 ∧ inner entry.2) :
    DataOver heap inner (.dictionary ref)

/-- The value is data of at most a depth. What holds nothing has depth one. -/
def IsData (heap : Heap) : (depth : Nat) → Value → Prop
  | 0, _ => False
  | depth + 1, v => heap.DataOver (heap.IsData depth) v

instance (entries : List (Value × Value)) : Decidable (Dictionary.Distinct entries) :=
  inferInstanceAs (Decidable (List.Nodup _))

instance DataOver.decidable (heap : Heap) (inner : Value → Prop) [DecidablePred inner] :
    DecidablePred (heap.DataOver inner)
  | .number d => decidable_of_iff (d.withoutZeroSign = d) ⟨.number d, fun | .number _ h => h⟩
  | .string s => .isTrue (.string s)
  | .boolean b => .isTrue (.boolean b)
  | .array ref =>
    decidable_of_iff (heap.Has (.array ref) ∧ ∀ v ∈ (heap.array ref).toList, inner v)
      ⟨fun h => .array ref h.1 h.2, fun | .array _ hhas hheld => ⟨hhas, hheld⟩⟩
  | .dictionary ref =>
    decidable_of_iff (heap.Has (.dictionary ref) ∧
        Dictionary.Distinct (heap.dictionary ref).entries ∧
        ∀ entry ∈ (heap.dictionary ref).entries, inner entry.1 ∧ inner entry.2)
      ⟨fun h => .dictionary ref h.1 h.2.1 h.2.2,
        fun | .dictionary _ hhas hdistinct hheld => ⟨hhas, hdistinct, hheld⟩⟩
  | .function _ => .isFalse nofun

instance IsData.decidable (heap : Heap) : ∀ depth, DecidablePred (heap.IsData depth)
  | 0 => fun _ => .isFalse id
  | depth + 1 =>
    have := IsData.decidable heap depth
    DataOver.decidable heap (heap.IsData depth)

/-- How data in two heaps are of one shape, given how the values in their containers are: of the
same kind, with the same length and order, the same strings and booleans, and numbers that
correspond. -/
inductive AlikeOver (number : Decimal → Decimal → Prop) (heap heap' : Heap)
    (inner : Value → Value → Prop) : Value → Value → Prop
  | number (d d' : Decimal) (hnumber : number d d') :
    AlikeOver number heap heap' inner (.number d) (.number d')
  | string (s : String) : AlikeOver number heap heap' inner (.string s) (.string s)
  | boolean (b : Bool) : AlikeOver number heap heap' inner (.boolean b) (.boolean b)
  | array (ref ref' : ArrayRef)
    (hheld : List.Forall₂ inner (heap.array ref).toList (heap'.array ref').toList) :
    AlikeOver number heap heap' inner (.array ref) (.array ref')
  | dictionary (ref ref' : DictionaryRef)
    (hheld : List.Forall₂ (fun entry entry' => inner entry.1 entry'.1 ∧ inner entry.2 entry'.2)
      (heap.dictionary ref).entries (heap'.dictionary ref').entries) :
    AlikeOver number heap heap' inner (.dictionary ref) (.dictionary ref')

/-- Two values are data of one shape and of at most a depth. -/
def Alike (number : Decimal → Decimal → Prop) (heap heap' : Heap) :
    (depth : Nat) → Value → Value → Prop
  | 0, _, _ => False
  | depth + 1, v, w => AlikeOver number heap heap' (Alike number heap heap' depth) v w

variable {heap heap' : Heap}

/-- A container that is data holds data of less depth. -/
theorem IsData.held {depth : Nat} {c : ContainerRef} (h : heap.IsData depth c.value) :
    ∃ k, depth = k + 1 ∧ heap.Has c ∧ ∀ v ∈ heap.held c, heap.IsData k v := by
  cases depth with
  | zero => exact h.elim
  | succ k =>
    cases c with
    | array ref =>
      cases h with
      | array _ hhas hheld => exact ⟨k, rfl, hhas, hheld⟩
    | dictionary ref =>
      cases h with
      | dictionary _ hhas hdistinct hheld =>
        refine ⟨k, rfl, hhas, fun v hv => ?_⟩
        obtain ⟨entry, hentry, hv⟩ := List.mem_flatMap.mp hv
        rcases List.mem_pair.mp hv with rfl | rfl
        · exact (hheld entry hentry).1
        · exact (hheld entry hentry).2

/-- Where more numbers correspond, more data are alike. -/
theorem Alike.mono {number number' : Decimal → Decimal → Prop}
    (hnumber : ∀ d d', number d d' → number' d d') :
    ∀ {depth : Nat} {v w : Value}, Alike number heap heap' depth v w →
      Alike number' heap heap' depth v w
  | 0, _, _, h => h.elim
  | depth + 1, _, _, h => by
    cases h with
    | number d d' hd => exact .number d d' (hnumber d d' hd)
    | string s => exact .string s
    | boolean b => exact .boolean b
    | array ref ref' hheld => exact .array ref ref' (hheld.imp fun _ _ => Alike.mono hnumber)
    | dictionary ref ref' hheld =>
      exact .dictionary ref ref'
        (hheld.imp fun _ _ h => ⟨Alike.mono hnumber h.1, Alike.mono hnumber h.2⟩)

end Heap

/-! ### Paths -/

namespace ContainerRef

/-- The place of a container among all of a heap. -/
def slot (heap : Heap) : ContainerRef → Nat
  | array ref => ref.index
  | dictionary ref => heap.arrays.size + ref.index

theorem slot_lt {heap : Heap} {c : ContainerRef} (h : heap.Has c) :
    c.slot heap < heap.containerCount := by
  unfold Heap.containerCount
  cases c with
  | array ref => exact Nat.lt_add_right _ h
  | dictionary ref => exact Nat.add_lt_add_left h _

/-- Containers of a heap have slots of their own: arrays come before dictionaries. -/
theorem slot_inj {heap : Heap} {c c' : ContainerRef} (h : heap.Has c) (h' : heap.Has c')
    (hslot : c.slot heap = c'.slot heap) : c = c' := by
  cases c with
  | array ref =>
    cases c' with
    | array ref' => exact congrArg array (congrArg ArrayRef.mk hslot)
    | dictionary ref' =>
      have hlt : ref.index < heap.arrays.size := h
      exact absurd hlt (Nat.not_lt_of_le (Nat.le.intro hslot.symm))
  | dictionary ref =>
    cases c' with
    | array ref' =>
      have hlt : ref'.index < heap.arrays.size := h'
      exact absurd hlt (Nat.not_lt_of_le (Nat.le.intro hslot))
    | dictionary ref' =>
      exact congrArg dictionary (congrArg DictionaryRef.mk (Nat.add_left_cancel hslot))

end ContainerRef

/-- A path without repetitions is at most as long as the heap has containers. -/
theorem Heap.length_path_le {heap : Heap} {path : List ContainerRef} (hnodup : path.Nodup)
    (hhas : ∀ c ∈ path, heap.Has c) : path.length ≤ heap.containerCount := by
  have hslots : (path.map (·.slot heap)).Nodup :=
    hnodup.map_on fun c hc c' hc' => ContainerRef.slot_inj (hhas c hc) (hhas c' hc')
  have hsubset : path.map (·.slot heap) ⊆ List.range heap.containerCount := by
    intro slot hslot
    obtain ⟨c, hc, rfl⟩ := List.mem_map.mp hslot
    exact List.mem_range.mpr (ContainerRef.slot_lt (hhas c hc))
  have hlength := (List.subperm_of_subset hslots hsubset).length_le
  rwa [List.length_map, List.length_range] at hlength

/-! ### Cycles -/

namespace Heap

variable {heap : Heap}

/-- One container holds another, or itself. -/
def Holds (heap : Heap) (c c' : ContainerRef) : Prop :=
  c'.value ∈ heap.held c

/-- Nothing is data of less and less depth. -/
theorem not_isData_of_descent {v : Value}
    (h : ∀ k, heap.IsData k v → ∃ j < k, heap.IsData j v) (k : Nat) : ¬ heap.IsData k v := by
  induction k using Nat.strong_induction_on with
  | _ k ih =>
    intro hk
    obtain ⟨j, hj, hless⟩ := h k hk
    exact ih j hj hless

/-- What is reached from a container of data is data of less depth. -/
theorem IsData.reached {n : Nat} {c c' : ContainerRef} (h : heap.IsData n c.value)
    (hreach : Relation.TransGen heap.Holds c c') : ∃ k < n, heap.IsData k c'.value := by
  induction hreach with
  | single hholds =>
    obtain ⟨k, rfl, -, hheld⟩ := h.held
    exact ⟨k, Nat.lt_succ_self k, hheld _ hholds⟩
  | tail _ hholds ih =>
    obtain ⟨j, hj, hdata⟩ := ih
    obtain ⟨k, rfl, -, hheld⟩ := hdata.held
    exact ⟨k, Nat.lt_of_succ_lt hj, hheld _ hholds⟩

theorem DataOver.mono {inner inner' : Value → Prop} {v : Value} (h : heap.DataOver inner v)
    (hinner : ∀ w, inner w → inner' w) : heap.DataOver inner' v := by
  cases h with
  | number d hsign => exact .number d hsign
  | string s => exact .string s
  | boolean b => exact .boolean b
  | array ref hhas hheld => exact .array ref hhas fun v hv => hinner v (hheld v hv)
  | dictionary ref hhas hdistinct hheld =>
    exact .dictionary ref hhas hdistinct fun entry hentry =>
      ⟨hinner _ (hheld entry hentry).1, hinner _ (hheld entry hentry).2⟩

/-- Without cycles, a way into data gets no longer than the heap has containers. -/
theorem isData_of_path {S : Value → Prop} (hS : ∀ v, S v → heap.DataOver S v)
    (hacyclic : ∀ c : ContainerRef, S c.value → ¬ Relation.TransGen heap.Holds c c) :
    ∀ {depth : Nat} {v : Value} {path : List ContainerRef}, S v → path.Nodup →
      (∀ c ∈ path, heap.Has c) → path.length + depth = heap.containerCount + 1 →
      (∀ c ∈ path, ∀ c', v = c'.value → Relation.TransGen heap.Holds c c') → heap.IsData depth v
  | 0, _, path, _, hnodup, hhas, hlength, _ => by
    -- The way would be longer than the heap has containers.
    have hle := length_path_le hnodup hhas
    omega
  | depth + 1, v, path, hv, hnodup, hhas, hlength, hreach => by
    have hbelow : ∀ (c : ContainerRef), heap.Has c → v = c.value → ∀ w ∈ heap.held c, S w →
        heap.IsData depth w := by
      rintro c hc rfl w hw hSw
      -- The container is not on the way to it, or it would be reached from itself.
      have hnodup' : (c :: path).Nodup :=
        List.nodup_cons.mpr ⟨fun hmem => hacyclic c hv (hreach c hmem c rfl), hnodup⟩
      refine isData_of_path hS hacyclic hSw hnodup' (List.forall_mem_cons.mpr ⟨hc, hhas⟩) ?_ ?_
      · rw [List.length_cons]
        omega
      · rintro c' hc' below rfl
        rcases List.mem_cons.mp hc' with rfl | hc'
        · exact .single hw
        · exact .tail (hreach c' hc' c rfl) hw
    cases hS v hv with
    | number d hsign => exact .number d hsign
    | string s => exact .string s
    | boolean b => exact .boolean b
    | array ref hhas hheld =>
      exact .array ref hhas fun w hw => hbelow (.array ref) hhas rfl w hw (hheld w hw)
    | dictionary ref hhas hdistinct hheld =>
      refine .dictionary ref hhas hdistinct fun entry hentry => ?_
      obtain ⟨hkey, hvalue⟩ := mem_held hentry
      exact ⟨hbelow (.dictionary ref) hhas rfl _ hkey (hheld entry hentry).1,
        hbelow (.dictionary ref) hhas rfl _ hvalue (hheld entry hentry).2⟩

/-- **Data are what consists of data and has no cycle.** Their depth is at most one more than the
heap has containers. -/
theorem exists_isData_iff {v : Value} :
    (∃ depth, heap.IsData depth v) ↔ ∃ S : Value → Prop, S v ∧ (∀ w, S w → heap.DataOver S w) ∧
      ∀ c : ContainerRef, S c.value → ¬ Relation.TransGen heap.Holds c c := by
  constructor
  · rintro ⟨depth, h⟩
    refine ⟨fun w => ∃ n, heap.IsData n w, ⟨depth, h⟩, ?_, ?_⟩
    · rintro w ⟨n, hw⟩
      cases n with
      | zero => exact hw.elim
      | succ n => exact DataOver.mono hw fun u hu => ⟨n, hu⟩
    · rintro c ⟨n, hc⟩ hcycle
      exact not_isData_of_descent (fun k hk => hk.reached hcycle) n hc
  · rintro ⟨S, hv, hS, hacyclic⟩
    exact ⟨heap.containerCount + 1, isData_of_path hS hacyclic hv List.nodup_nil
      (fun _ hc => absurd hc List.not_mem_nil) (Nat.zero_add _)
      fun _ hc => absurd hc List.not_mem_nil⟩

end Heap

namespace Display

/-- The text of a value is asked for inside the containers of a path, and none of them is in the
value: as data, each is deeper than the value. -/
structure Inside (heap : Heap) (depth : Nat) (path : List ContainerRef) (v : Value) : Prop where
  nodup : path.Nodup
  has : ∀ c ∈ path, heap.Has c
  room : path.length + depth = heap.containerCount + 1
  deeper : ∀ c ∈ path, ∀ k, heap.IsData k c.value → ∃ j < k, heap.IsData j v

/-- At the top nothing is on the path, and there is depth enough for every container. -/
theorem Inside.top (heap : Heap) (v : Value) : Inside heap (heap.containerCount + 1) [] v where
  nodup := List.nodup_nil
  has := fun _ hc => absurd hc List.not_mem_nil
  room := Nat.zero_add _
  deeper := fun _ hc => absurd hc List.not_mem_nil

/-- A container that is data is not on the path to it, and there is depth left to show it. What it
holds is then shown inside it. -/
theorem Inside.enter {heap : Heap} {depth n : Nat} {path : List ContainerRef} {c : ContainerRef}
    (h : Inside heap depth path c.value) (hdata : heap.IsData n c.value) :
    ∃ below, depth = below + 1 ∧ path.contains c = false ∧
      ∀ v ∈ heap.held c, Inside heap below (c :: path) v := by
  have hnotin : c ∉ path := fun hc => Heap.not_isData_of_descent (h.deeper c hc) n hdata
  obtain ⟨-, -, hhas, -⟩ := hdata.held
  -- The path holds distinct containers of the heap, so one more still fits below the bound.
  have hlength := Heap.length_path_le h.nodup h.has
  have hroom := h.room
  obtain ⟨below, rfl⟩ : ∃ below, depth = below + 1 := ⟨depth - 1, by omega⟩
  refine ⟨below, rfl, by simpa using hnotin, fun v hv => ?_⟩
  refine ⟨List.nodup_cons.mpr ⟨hnotin, h.nodup⟩, List.forall_mem_cons.mpr ⟨hhas, h.has⟩, ?_,
    List.forall_mem_cons.mpr ⟨fun k hk => ?_, fun p hp k hk => ?_⟩⟩
  · rw [List.length_cons]
    omega
  · obtain ⟨j, rfl, -, hheld⟩ := hk.held
    exact ⟨j, Nat.lt_succ_self j, hheld v hv⟩
  -- A container further up lies two descents or more above the value, so its order drops too.
  · obtain ⟨i, hi, hc⟩ := h.deeper p hp k hk
    obtain ⟨j, rfl, -, hheld⟩ := hc.held
    exact ⟨j, Nat.lt_of_succ_lt hi, hheld v hv⟩

/-! ### Numbers that can be written -/

variable {maxDigits : Nat}

theorem writableWithin_array {heap : Heap} {depth : Nat} {path : List ContainerRef} {ref : ArrayRef}
    (hpath : path.contains (.array ref) = false) :
    writableWithin maxDigits heap (depth + 1) path (.array ref) = true ↔
      ∀ v ∈ (heap.array ref).toList,
        writableWithin maxDigits heap depth (.array ref :: path) v = true := by
  rw [writableWithin, hpath, Bool.false_or, List.all_eq_true]

theorem writableWithin_dictionary {heap : Heap} {depth : Nat} {path : List ContainerRef}
    {ref : DictionaryRef} (hpath : path.contains (.dictionary ref) = false) :
    writableWithin maxDigits heap (depth + 1) path (.dictionary ref) = true ↔
      ∀ entry ∈ (heap.dictionary ref).entries,
        writableWithin maxDigits heap depth (.dictionary ref :: path) entry.1 = true ∧
          writableWithin maxDigits heap depth (.dictionary ref :: path) entry.2 = true := by
  rw [writableWithin, hpath, Bool.false_or, List.all_eq_true]
  simp only [Bool.and_eq_true]

/-- Where the numbers of data can be written, so can those of data of the same shape. -/
theorem writable_of_alike {number : Decimal → Decimal → Prop} {heap heap' : Heap}
    (hnumber : ∀ d d', number d d' →
      d.isWritable maxDigits = true → d'.isWritable maxDigits = true) :
    ∀ {n : Nat} {v w : Value} {depth depth' : Nat} {path path' : List ContainerRef},
      Heap.Alike number heap heap' n v w → heap.IsData n v → heap'.IsData n w →
      Inside heap depth path v → Inside heap' depth' path' w →
      writableWithin maxDigits heap depth path v = true →
      writableWithin maxDigits heap' depth' path' w = true
  | 0, _, _, _, _, _, _, halike, _, _, _, _, _ => halike.elim
  | n + 1, _, _, depth, depth', _, _, halike, hdata, hdata', hv, hw, h => by
    -- The induction is on the order of the data. Both paths grow with it, and neither meets the
    -- container again, so the cut at a container met before never answers for one side alone.
    cases halike with
    | number d d' hd =>
      have hd' : d.isWritable maxDigits = true := by cases depth <;> exact h
      cases depth' <;> exact hnumber d d' hd hd'
    | string | boolean => cases depth' <;> rfl
    | array ref ref' hheld =>
      obtain ⟨below, rfl, hpath, hinside⟩ := hv.enter (c := .array ref) hdata
      obtain ⟨below', rfl, hpath', hinside'⟩ := hw.enter (c := .array ref') hdata'
      cases hdata with | array _ _ hvs =>
      cases hdata' with | array _ _ hws =>
      rw [writableWithin_array hpath] at h
      rw [writableWithin_array hpath']
      intro b hb
      obtain ⟨a, ha, hab⟩ := exists_of_forall₂_right hheld hb
      exact writable_of_alike hnumber hab (hvs a ha) (hws b hb) (hinside a ha) (hinside' b hb)
        (h a ha)
    | dictionary ref ref' hheld =>
      obtain ⟨below, rfl, hpath, hinside⟩ := hv.enter (c := .dictionary ref) hdata
      obtain ⟨below', rfl, hpath', hinside'⟩ := hw.enter (c := .dictionary ref') hdata'
      cases hdata with | dictionary _ _ _ hvs =>
      cases hdata' with | dictionary _ _ _ hws =>
      rw [writableWithin_dictionary hpath] at h
      rw [writableWithin_dictionary hpath']
      intro b hb
      obtain ⟨a, ha, hkey, hvalue⟩ := exists_of_forall₂_right hheld hb
      obtain ⟨hheldKey, hheldValue⟩ := Heap.mem_held ha
      obtain ⟨hheldKey', hheldValue'⟩ := Heap.mem_held hb
      exact ⟨writable_of_alike hnumber hkey (hvs a ha).1 (hws b hb).1 (hinside _ hheldKey)
          (hinside' _ hheldKey') (h a ha).1,
        writable_of_alike hnumber hvalue (hvs a ha).2 (hws b hb).2 (hinside _ hheldValue)
          (hinside' _ hheldValue') (h a ha).2⟩

end Display

end DecimalScript
