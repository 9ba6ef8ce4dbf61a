import DecimalScript.Proofs.ValueIdentity
import DecimalScript.Value.Dictionary

/-!
# Dictionaries are maps in order of insertion

As long as no two keys are the same, a dictionary is a finite map on the identities of values, and
its entries stand in the order in which their keys came in. Storing and removing keep that.

- `Dictionary.Distinct`: no two keys are the same.
- `entries_insert`, `entries_erase`: what becomes of the entries.
- `get?_insertEntry`, `get?_eraseEntry`: what is found afterwards.
- `DictionaryEvent.run_sound`: both, for a whole history of stores and removals.
-/

namespace DecimalScript

namespace Dictionary

/-- No two entries have the same key. -/
def Distinct (entries : List (Value × Value)) : Prop :=
  (entries.map fun entry => entry.1.identity).Nodup

section Entries

variable {entries before after : List (Value × Value)} {key value first old other : Value}

/-! ### Looking up -/

theorem get?_cons (entry : Value × Value) (entries : List (Value × Value)) (key : Value) :
    get? ⟨entry :: entries⟩ key =
      if entry.1.identity = key.identity then some entry.2 else get? ⟨entries⟩ key := by
  unfold get?
  rw [List.find?_cons, Value.same_eq]
  by_cases h : entry.1.identity = key.identity
  · rw [if_pos h, decide_eq_true h]
    rfl
  · rw [if_neg h, decide_eq_false h]

theorem get?_eq_none_iff :
    get? ⟨entries⟩ key = none ↔ ∀ e ∈ entries, e.1.identity ≠ key.identity := by
  induction entries with
  | nil => exact iff_of_true rfl fun _ he => absurd he List.not_mem_nil
  | cons entry entries ih =>
    rw [get?_cons, List.forall_mem_cons, ← ih]
    by_cases h : entry.1.identity = key.identity
    · rw [if_pos h]
      exact iff_of_false (Option.some_ne_none _) fun hnone => hnone.1 h
    · rw [if_neg h]
      exact (and_iff_right h).symm

/-- What is found stands behind the first key that is the same. -/
theorem exists_split_of_get? (h : get? ⟨entries⟩ key = some old) :
    ∃ before first after, entries = before ++ (first, old) :: after ∧
      (∀ e ∈ before, e.1.identity ≠ key.identity) ∧ first.identity = key.identity := by
  induction entries with
  | nil => cases h
  | cons entry entries ih =>
    rw [get?_cons] at h
    by_cases hentry : entry.1.identity = key.identity
    · rw [if_pos hentry] at h
      obtain rfl := Option.some.inj h
      exact ⟨[], entry.1, entries, rfl, fun _ he => absurd he List.not_mem_nil, hentry⟩
    · rw [if_neg hentry] at h
      obtain ⟨before, first, after, rfl, hbefore, hfirst⟩ := ih h
      exact ⟨entry :: before, first, after, rfl, List.forall_mem_cons.mpr ⟨hentry, hbefore⟩, hfirst⟩

/-! ### Storing -/

theorem insertEntry_cons (key value : Value) (entry : Value × Value)
    (entries : List (Value × Value)) :
    insertEntry key value (entry :: entries) =
      if entry.1.identity = key.identity then (entry.1, value) :: entries
      else entry :: insertEntry key value entries := by
  rw [insertEntry]
  exact if_congr (Value.same_iff _ _) rfl rfl

theorem insertEntry_of_absent (h : ∀ e ∈ entries, e.1.identity ≠ key.identity) :
    insertEntry key value entries = entries ++ [(key, value)] := by
  induction entries with
  | nil => rfl
  | cons entry entries ih =>
    obtain ⟨hentry, hentries⟩ := List.forall_mem_cons.mp h
    rw [insertEntry_cons, if_neg hentry, ih hentries]
    rfl

/-- A key that is there keeps its place and its spelling; only the value is replaced. -/
theorem insertEntry_of_split (hbefore : ∀ e ∈ before, e.1.identity ≠ key.identity)
    (hfirst : first.identity = key.identity) :
    insertEntry key value (before ++ (first, old) :: after) =
      before ++ (first, value) :: after := by
  induction before with
  | nil => exact (insertEntry_cons _ _ _ _).trans (if_pos hfirst)
  | cons entry before ih =>
    obtain ⟨hentry, hbefore⟩ := List.forall_mem_cons.mp hbefore
    rw [List.cons_append, insertEntry_cons, if_neg hentry, ih hbefore]
    rfl

/-- What was stored is found under its key, and everything else is found as before. -/
theorem get?_insertEntry (key value other : Value) (entries : List (Value × Value)) :
    get? ⟨insertEntry key value entries⟩ other =
      if key.identity = other.identity then some value else get? ⟨entries⟩ other := by
  induction entries with
  | nil => exact get?_cons _ _ _
  | cons entry entries ih =>
    rw [insertEntry_cons, get?_cons entry]
    by_cases hentry : entry.1.identity = key.identity
    · rw [if_pos hentry, get?_cons, hentry]
      split <;> rfl
    · rw [if_neg hentry, get?_cons, ih]
      by_cases hother : entry.1.identity = other.identity
      · rw [if_pos hother, if_pos hother, if_neg (hother ▸ Ne.symm hentry)]
      · rw [if_neg hother, if_neg hother]

/-- Storing makes no second entry of a key. -/
theorem Distinct.insertEntry (h : Distinct entries) (key value : Value) :
    Distinct (insertEntry key value entries) := by
  unfold Distinct at h ⊢
  cases hfound : get? ⟨entries⟩ key with
  | none =>
    have habsent := get?_eq_none_iff.mp hfound
    rw [insertEntry_of_absent habsent, List.map_append]
    refine h.append (List.nodup_singleton _) (List.disjoint_singleton.mpr fun hkey => ?_)
    obtain ⟨e, he, hsame⟩ := List.mem_map.mp hkey
    exact habsent e he hsame
  | some old =>
    -- The keys are the ones that were there before.
    obtain ⟨before, first, after, rfl, hbefore, hfirst⟩ := exists_split_of_get? hfound
    rw [insertEntry_of_split hbefore hfirst]
    rwa [List.map_append, List.map_cons] at h ⊢

/-! ### Removing -/

/-- The entries without the first one for a key. -/
abbrev eraseEntry (key : Value) (entries : List (Value × Value)) : List (Value × Value) :=
  entries.eraseP fun entry => entry.1.same key

theorem eraseEntry_cons (key : Value) (entry : Value × Value) (entries : List (Value × Value)) :
    eraseEntry key (entry :: entries) =
      if entry.1.identity = key.identity then entries else entry :: eraseEntry key entries := by
  unfold eraseEntry
  rw [List.eraseP_cons, Value.same_eq]
  by_cases h : entry.1.identity = key.identity
  · rw [if_pos h, decide_eq_true h]
    rfl
  · rw [if_neg h, decide_eq_false h]
    rfl

theorem eraseEntry_of_absent (h : ∀ e ∈ entries, e.1.identity ≠ key.identity) :
    eraseEntry key entries = entries :=
  List.eraseP_of_forall_not fun e he => mt (Value.same_iff _ _).mp (h e he)

/-- Removing takes the first entry of a key out and leaves the order of the others. -/
theorem eraseEntry_of_split (hbefore : ∀ e ∈ before, e.1.identity ≠ key.identity)
    (hfirst : first.identity = key.identity) :
    eraseEntry key (before ++ (first, old) :: after) = before ++ after := by
  induction before with
  | nil => exact (eraseEntry_cons _ _ _).trans (if_pos hfirst)
  | cons entry before ih =>
    obtain ⟨hentry, hbefore⟩ := List.forall_mem_cons.mp hbefore
    rw [List.cons_append, eraseEntry_cons, if_neg hentry, ih hbefore]
    rfl

/-- What was removed is not found, and everything else is found as before. Without distinct keys a
later entry of the key would be found. -/
theorem get?_eraseEntry (h : Distinct entries) (key other : Value) :
    get? ⟨eraseEntry key entries⟩ other =
      if key.identity = other.identity then none else get? ⟨entries⟩ other := by
  induction entries with
  | nil => exact (ite_self none).symm
  | cons entry entries ih =>
    obtain ⟨hentry, hentries⟩ := List.nodup_cons.mp h
    rw [eraseEntry_cons, get?_cons entry]
    by_cases hkey : entry.1.identity = key.identity
    · rw [if_pos hkey, hkey]
      split
      · rename_i hother
        refine get?_eq_none_iff.mpr fun e he hsame => hentry ?_
        exact List.mem_map.mpr ⟨e, he, hsame.trans (hother.symm.trans hkey.symm)⟩
      · rfl
    · rw [if_neg hkey, get?_cons, ih hentries]
      by_cases hother : entry.1.identity = other.identity
      · rw [if_pos hother, if_pos hother, if_neg (hother ▸ Ne.symm hkey)]
      · rw [if_neg hother, if_neg hother]

theorem Distinct.eraseEntry (h : Distinct entries) (key : Value) :
    Distinct (eraseEntry key entries) :=
  h.sublist (List.eraseP_sublist.map _)

end Entries

/-! ### Dictionaries -/

/-- **What storing does to the entries.** Where a key is the same, it stays in its place with the
new value; otherwise there is a new entry at the end. -/
theorem entries_insert (d : Dictionary) (key value : Value) :
    match d.get? key with
    | some old => ∃ before first after, d.entries = before ++ (first, old) :: after ∧
        first.identity = key.identity ∧
        (d.insert key value).entries = before ++ (first, value) :: after
    | none => (d.insert key value).entries = d.entries ++ [(key, value)] := by
  cases hfound : d.get? key with
  | none => exact insertEntry_of_absent (get?_eq_none_iff.mp hfound)
  | some old =>
    obtain ⟨before, first, after, hentries, hbefore, hfirst⟩ := exists_split_of_get? hfound
    refine ⟨before, first, after, hentries, hfirst, ?_⟩
    unfold insert
    rw [hentries]
    exact insertEntry_of_split hbefore hfirst

/-- **What removing does to the entries.** The entry of the key goes, and the others stay as they
are. -/
theorem entries_erase (d : Dictionary) (key : Value) :
    match d.get? key with
    | some old => ∃ before first after, d.entries = before ++ (first, old) :: after ∧
        first.identity = key.identity ∧ (d.erase key).entries = before ++ after
    | none => d.erase key = d := by
  cases hfound : d.get? key with
  | none => exact congrArg mk (eraseEntry_of_absent (get?_eq_none_iff.mp hfound))
  | some old =>
    obtain ⟨before, first, after, hentries, hbefore, hfirst⟩ := exists_split_of_get? hfound
    refine ⟨before, first, after, hentries, hfirst, ?_⟩
    unfold erase
    rw [hentries]
    exact eraseEntry_of_split hbefore hfirst

/-- Entries with distinct keys that are stored one by one are stored in order. -/
theorem foldl_insert_of_distinct : ∀ {entries stored : List (Value × Value)},
    Distinct (stored ++ entries) →
    entries.foldl (fun d entry => insert d entry.1 entry.2) ⟨stored⟩ = ⟨stored ++ entries⟩
  | [], stored, _ => by
    rw [List.append_nil]
    rfl
  | entry :: entries, stored, h => by
    have habsent : ∀ e ∈ stored, e.1.identity ≠ entry.1.identity := by
      intro e he hsame
      unfold Distinct at h
      rw [List.map_append, List.nodup_append'] at h
      obtain ⟨-, -, hdisjoint⟩ := h
      refine hdisjoint (List.mem_map_of_mem he) ?_
      rw [hsame]
      exact List.mem_cons_self
    have hfirst : insert ⟨stored⟩ entry.1 entry.2 = ⟨stored ++ [entry]⟩ :=
      congrArg mk (insertEntry_of_absent habsent)
    rw [List.foldl_cons, hfirst, foldl_insert_of_distinct (List.append_cons _ _ _ ▸ h)]
    exact congrArg mk (List.append_cons _ _ _).symm

/-- Entries with distinct keys are all kept, in their order. -/
theorem ofList_of_distinct {entries : List (Value × Value)} (h : Distinct entries) :
    ofList entries = ⟨entries⟩ :=
  @foldl_insert_of_distinct entries [] h

end Dictionary

/-! ### Histories -/

/-- What happened to a dictionary: a value was stored under a key, or a key was removed. -/
inductive DictionaryEvent where
  | stored (key value : Value)
  | removed (key : Value)

namespace DictionaryEvent

/-- The dictionary after an event. -/
def apply (d : Dictionary) : DictionaryEvent → Dictionary
  | stored key value => d.insert key value
  | removed key => d.erase key

/-- The dictionary after a history, which starts without entries. -/
def run (history : List DictionaryEvent) : Dictionary :=
  history.foldl apply {}

theorem run_append_singleton (history : List DictionaryEvent) (event : DictionaryEvent) :
    run (history ++ [event]) = event.apply (run history) := by
  unfold run
  rw [List.foldl_append, List.foldl_cons, List.foldl_nil]

/-- What is stored under a key after an event, given what was stored before. -/
def left (key : Value) (current : Option Value) : DictionaryEvent → Option Value
  | stored k value => if k.identity = key.identity then some value else current
  | removed k => if k.identity = key.identity then none else current

/-- What was stored last under a key in a history, unless the key has been removed since. -/
def lastStored? (history : List DictionaryEvent) (key : Value) : Option Value :=
  history.foldl (left key) none

/-- One event keeps keys distinct, and changes what is found as it says. -/
theorem apply_sound {d : Dictionary} (h : Dictionary.Distinct d.entries) (event : DictionaryEvent) :
    Dictionary.Distinct (event.apply d).entries ∧
      ∀ key, (event.apply d).get? key = event.left key (d.get? key) := by
  cases event with
  | stored k value =>
    exact ⟨h.insertEntry k value, fun key => Dictionary.get?_insertEntry k value key d.entries⟩
  | removed k =>
    exact ⟨h.eraseEntry k, fun key => Dictionary.get?_eraseEntry h k key⟩

/-- After every history the keys are distinct, and under a key stands what was stored last. -/
theorem run_sound (history : List DictionaryEvent) :
    Dictionary.Distinct (run history).entries ∧
      ∀ key, (run history).get? key = lastStored? history key := by
  induction history using List.reverseRecOn with
  | nil => exact ⟨List.nodup_nil, fun _ => rfl⟩
  | append_singleton history event ih =>
    obtain ⟨hdistinct, hget⟩ := ih
    obtain ⟨hdistinct', hget'⟩ := apply_sound hdistinct event
    rw [run_append_singleton]
    refine ⟨hdistinct', fun key => ?_⟩
    unfold lastStored? at hget ⊢
    rw [hget', hget, List.foldl_append, List.foldl_cons, List.foldl_nil]

/-- A literal stores its entries one after the other. -/
theorem run_stored (entries : List (Value × Value)) :
    run (entries.map fun entry => stored entry.1 entry.2) = Dictionary.ofList entries := by
  unfold run Dictionary.ofList
  rw [List.foldl_map]
  rfl

end DictionaryEvent

end DecimalScript
