import DecimalScript.Value.Display

/-!
# Containers in a heap

A new container has a reference of its own, under which it is found; what was there before stays as
it was.

- `Heap.Has`: there is such a container.
- `Heap.Grows`: containers are only added.
- `Heap.grows_addArray`, `Heap.grows_addDictionary`: a new container adds one.
-/

namespace DecimalScript

/-- A container as a value. -/
def ContainerRef.value : ContainerRef → Value
  | array ref => .array ref
  | dictionary ref => .dictionary ref

namespace Heap

/-- There is such a container. -/
def Has (heap : Heap) : ContainerRef → Prop
  | .array ref => ref.index < heap.arrays.size
  | .dictionary ref => ref.index < heap.dictionaries.size

instance (heap : Heap) : DecidablePred heap.Has
  | .array ref => inferInstanceAs (Decidable (ref.index < heap.arrays.size))
  | .dictionary ref => inferInstanceAs (Decidable (ref.index < heap.dictionaries.size))

/-! ### Reading what was written -/

/-- A new array has the elements that it was made of. -/
theorem array_addArray (heap : Heap) (elements : Array Value) :
    (heap.addArray elements).2.array ⟨heap.arrays.size⟩ = elements := by
  unfold array addArray
  rw [Array.getD_eq_getD_getElem?, Array.getElem?_push_size]
  rfl

theorem dictionary_addDictionary (heap : Heap) (d : Dictionary) :
    (heap.addDictionary d).2.dictionary ⟨heap.dictionaries.size⟩ = d := by
  unfold dictionary addDictionary
  rw [Array.getD_eq_getD_getElem?, Array.getElem?_push_size]
  rfl

section Modifying

variable {α : Type} {xs : Array α} {i j : Nat}

/-- What is changed in an array is changed at its index. -/
theorem getD_modify_self (h : i < xs.size) (f : α → α) (d : α) :
    (xs.modify i f).getD i d = f (xs.getD i d) := by
  rw [Array.getD_eq_getD_getElem?, Array.getD_eq_getD_getElem?, Array.getElem?_modify, if_pos rfl,
    Array.getElem?_eq_getElem h]
  rfl

/-- What is changed in an array is left as it is at other indices. -/
theorem getD_modify_of_ne (h : i ≠ j) (f : α → α) (d : α) :
    (xs.modify i f).getD j d = xs.getD j d := by
  rw [Array.getD_eq_getD_getElem?, Array.getD_eq_getD_getElem?, Array.getElem?_modify, if_neg h]

end Modifying

theorem dictionary_modifyDictionary {heap : Heap} {ref : DictionaryRef}
    (h : ref.index < heap.dictionaries.size) (f : Dictionary → Dictionary) :
    (heap.modifyDictionary ref f).dictionary ref = f (heap.dictionary ref) :=
  getD_modify_self h f {}

/-- A change to an array is seen in it. -/
theorem array_modifyArray {heap : Heap} {ref : ArrayRef} (h : heap.Has (.array ref))
    (f : Array Value → Array Value) : (heap.modifyArray ref f).array ref = f (heap.array ref) :=
  getD_modify_self h f #[]

theorem has_addArray (heap : Heap) (elements : Array Value) :
    (heap.addArray elements).2.Has (.array ⟨heap.arrays.size⟩) := by
  show heap.arrays.size < (heap.arrays.push elements).size
  rw [Array.size_push]
  exact Nat.lt_succ_self _

theorem has_addDictionary (heap : Heap) (d : Dictionary) :
    (heap.addDictionary d).2.Has (.dictionary ⟨heap.dictionaries.size⟩) := by
  show heap.dictionaries.size < (heap.dictionaries.push d).size
  rw [Array.size_push]
  exact Nat.lt_succ_self _

theorem has_modifyDictionary {heap : Heap} {ref : DictionaryRef} (h : heap.Has (.dictionary ref))
    (f : Dictionary → Dictionary) : (heap.modifyDictionary ref f).Has (.dictionary ref) := by
  show ref.index < (heap.dictionaries.modify ref.index f).size
  rwa [Array.size_modify]

/-! ### Growing -/

/-- All containers of a heap are in the later one, as they were. -/
structure Grows (heap later : Heap) : Prop where
  has : ∀ {c}, heap.Has c → later.Has c
  array : ∀ {ref}, heap.Has (.array ref) → later.array ref = heap.array ref
  dictionary : ∀ {ref}, heap.Has (.dictionary ref) → later.dictionary ref = heap.dictionary ref

namespace Grows

theorem refl (heap : Heap) : heap.Grows heap :=
  ⟨id, fun _ => rfl, fun _ => rfl⟩

theorem trans {heap later last : Heap} (h : heap.Grows later) (h' : later.Grows last) :
    heap.Grows last where
  has hc := h'.has (h.has hc)
  array hc := (h'.array (h.has hc)).trans (h.array hc)
  dictionary hc := (h'.dictionary (h.has hc)).trans (h.dictionary hc)

end Grows

theorem getD_push {α : Type} {xs : Array α} {i : Nat} (h : i < xs.size) (x d : α) :
    (xs.push x).getD i d = xs.getD i d := by
  rw [Array.getD_eq_getD_getElem?, Array.getD_eq_getD_getElem?, Array.getElem?_push,
    if_neg (Nat.ne_of_lt h)]

theorem lt_size_push {α : Type} {xs : Array α} {i : Nat} (h : i < xs.size) (x : α) :
    i < (xs.push x).size := by
  rw [Array.size_push]
  exact Nat.lt_succ_of_lt h

/-- A new array changes no container that was there. -/
theorem grows_addArray (heap : Heap) (elements : Array Value) :
    heap.Grows (heap.addArray elements).2 where
  has {c} hc := by
    cases c with
    | array ref => exact lt_size_push hc elements
    | dictionary ref => exact hc
  array hc := getD_push hc elements _
  dictionary _ := rfl

theorem grows_addDictionary (heap : Heap) (d : Dictionary) :
    heap.Grows (heap.addDictionary d).2 where
  has {c} hc := by
    cases c with
    | array ref => exact hc
    | dictionary ref => exact lt_size_push hc d
  array _ := rfl
  dictionary hc := getD_push hc d _

end Heap

end DecimalScript
