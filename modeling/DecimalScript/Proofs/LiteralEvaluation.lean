import DecimalScript.Proofs.DataLiterals
import DecimalScript.Proofs.Stability

/-!
# Evaluating the literal of data

Evaluating the literal of data makes new data of the same shape. All that happens to the machine is
that containers are put into its heap. A container that is made later is not one that was there
before, so the keys of a dictionary do not fall together when they are made anew.

- `Builds`: an evaluation ends with something, and has only added to the heap.
- `builds_all`: evaluating a list, one after the other.
- `Rereads`: new data of the same shape.
- `builds_literal`: evaluating the literal of data rereads it.
-/

namespace DecimalScript

open Eval

/-! ### Data in a heap that grows -/

section Growing

variable {heap later : Heap}

namespace Heap

/-- Data stay data when the heap grows. -/
theorem IsData.grows (hgrows : heap.Grows later) :
    ∀ {n : Nat} {v : Value}, heap.IsData n v → later.IsData n v
  | 0, _, h => h.elim
  | n + 1, _, h => by
    cases h with
    | number d hsign => exact .number d hsign
    | string s => exact .string s
    | boolean b => exact .boolean b
    | array ref hhas hheld =>
      rw [← hgrows.array hhas] at hheld
      exact .array ref (hgrows.has hhas) fun v hv => (hheld v hv).grows hgrows
    | dictionary ref hhas hdistinct hheld =>
      rw [← hgrows.dictionary hhas] at hdistinct hheld
      exact .dictionary ref (hgrows.has hhas) hdistinct fun entry hentry =>
        ⟨(hheld entry hentry).1.grows hgrows, (hheld entry hentry).2.grows hgrows⟩

/-- Data of one shape stay so when the heap of the second grows. -/
theorem Alike.grows {number : Decimal → Decimal → Prop} {source : Heap}
    (hgrows : heap.Grows later) :
    ∀ {n : Nat} {v w : Value}, Alike number source heap n v w → heap.IsData n w →
      Alike number source later n v w
  | 0, _, _, h, _ => h.elim
  | n + 1, _, _, h, hdata => by
    cases h with
    | number d d' hd => exact .number d d' hd
    | string s => exact .string s
    | boolean b => exact .boolean b
    | array ref ref' hheld =>
      cases hdata with | array _ hhas hws =>
      rw [← hgrows.array hhas] at hheld hws
      exact .array ref ref' (forall₂_of_mem hheld hws fun _ _ h hw => h.grows hgrows hw)
    | dictionary ref ref' hheld =>
      cases hdata with | dictionary _ hhas _ hws =>
      rw [← hgrows.dictionary hhas] at hheld hws
      exact .dictionary ref ref' (forall₂_of_mem hheld hws fun _ _ h hw =>
        ⟨h.1.grows hgrows hw.1, h.2.grows hgrows hw.2⟩)

end Heap

end Growing

/-! ### Evaluations that only build -/

/-- On machines with the heap, an evaluation ends with a value of which something holds, and all
that it does to the machine is to put new containers into the heap. -/
def Builds {α : Type} (heap : Heap) (x : Eval α) (P : Heap → α → Prop) : Prop :=
  ∀ m : Machine, m.heap = heap →
    ∃ (a : α) (later : Heap), x m = .done a { m with heap := later } ∧ heap.Grows later ∧ P later a

namespace Builds

variable {α β : Type} {heap : Heap} {x : Eval α} {P : Heap → α → Prop} {Q : Heap → β → Prop}

theorem pure {a : α} (h : P heap a) : Builds heap (pure a) P := by
  rintro m rfl
  exact ⟨a, m.heap, rfl, .refl _, h⟩

/-- What the first evaluation builds is still there when the second one goes on. -/
theorem bind {f : α → Eval β} (hx : Builds heap x P)
    (hf : ∀ later a, heap.Grows later → P later a → Builds later (f a) Q) :
    Builds heap (x >>= f) Q := by
  intro m hm
  obtain ⟨a, middle, hrun, hgrows, ha⟩ := hx m hm
  obtain ⟨b, later, hrun', hgrows', hb⟩ := hf middle a hgrows ha { m with heap := middle } rfl
  exact ⟨b, later, (bind_done hrun f).trans hrun', hgrows.trans hgrows', hb⟩

theorem mono {P' : Heap → α → Prop} (hx : Builds heap x P)
    (h : ∀ later a, heap.Grows later → P later a → P' later a) : Builds heap x P' := by
  intro m hm
  obtain ⟨a, later, hrun, hgrows, ha⟩ := hx m hm
  exact ⟨a, later, hrun, hgrows, h later a hgrows ha⟩

/-- A new array is new: it was none of the heap. -/
theorem newArray (heap : Heap) (elements : List Value) :
    Builds heap (newArray elements) fun later w =>
      ∃ ref, w = .array ref ∧ ¬ heap.Has (.array ref) ∧ later.Has (.array ref) ∧
        (later.array ref).toList = elements := by
  rintro m rfl
  exact ⟨_, _, rfl, m.heap.grows_addArray elements.toArray, _, rfl, Nat.lt_irrefl _,
    m.heap.has_addArray _, congrArg Array.toList (m.heap.array_addArray elements.toArray)⟩

theorem newDictionary (heap : Heap) (d : Dictionary) :
    Builds heap (newDictionary d) fun later w =>
      ∃ ref, w = .dictionary ref ∧ ¬ heap.Has (.dictionary ref) ∧ later.Has (.dictionary ref) ∧
        later.dictionary ref = d := by
  rintro m rfl
  exact ⟨_, _, rfl, m.heap.grows_addDictionary d, _, rfl, Nat.lt_irrefl _,
    m.heap.has_addDictionary d, m.heap.dictionary_addDictionary d⟩

end Builds

/-- What holds of a value that was made between two heaps goes on to hold between an earlier one and
a later one. -/
structure Lasting {α β : Type} (R : α → Heap → Heap → β → Prop) : Prop where
  earlier : ∀ {a base heap later b}, base.Grows heap → R a heap later b → R a base later b
  later : ∀ {a base heap later b}, heap.Grows later → R a base heap b → R a base later b

/-- A list makes one thing after the other. Two things with a heap between them are told apart. -/
theorem builds_all {α β : Type} {f : α → Eval β} {R : α → Heap → Heap → β → Prop}
    (Apart : β → β → Prop) (hlasting : Lasting R)
    (hapart : ∀ {a a' base heap later b b'}, R a base heap b → R a' heap later b' → Apart b b') :
    ∀ {as : List α}, (∀ a ∈ as, ∀ heap, Builds heap (f a) (R a heap)) → ∀ heap,
      Builds heap (all f as) fun later bs =>
        List.Forall₂ (fun a b => R a heap later b) as bs ∧ bs.Pairwise Apart
  | [], _, _ => .pure ⟨.nil, .nil⟩
  | a :: as, h, heap => by
    obtain ⟨hfirst, hrest⟩ := List.forall_mem_cons.mp h
    refine (hfirst heap).bind fun middle b hgrows hb => ?_
    refine (builds_all Apart hlasting hapart hrest middle).bind fun later bs hgrows' hbs => .pure ?_
    obtain ⟨hbs, hpairs⟩ := hbs
    refine ⟨.cons (hlasting.later hgrows' hb) (hbs.imp fun _ _ => hlasting.earlier hgrows),
      List.pairwise_cons.mpr ⟨fun b' hb' => ?_, hpairs⟩⟩
    obtain ⟨a', -, hb'⟩ := exists_of_forall₂_right hbs hb'
    exact hapart hb hb'

theorem all_map {α β γ : Type} (f : β → Eval γ) (g : α → β) :
    ∀ as : List α, all f (as.map g) = all (fun a => f (g a)) as
  | [] => rfl
  | a :: as => by
    rw [List.map_cons, all, all, all_map f g as]

/-! ### Numbers -/

namespace Decimal

theorem withoutZeroSign_of_not_negative {d : Decimal} (h : d.negative = false) :
    d.withoutZeroSign = d := by
  unfold withoutZeroSign
  split
  · rw [← h]
  · rfl

/-- A number without a negative zero has none when it is written out. -/
theorem withoutZeroSign_writtenOut {d : Decimal} (h : d.withoutZeroSign = d) :
    d.writtenOut.withoutZeroSign = d.writtenOut := by
  by_cases hzero : d.isZero = true
  · -- A zero that keeps to itself has no sign.
    refine withoutZeroSign_of_not_negative ?_
    rw [negative_writtenOut, ← h, withoutZeroSign, if_pos hzero]
  · refine if_neg ?_
    rw [writtenOut]
    split
    · exact hzero
    · simpa [isZero] using hzero

theorem abs_of_not_negative {d : Decimal} (h : d.negative = false) : d.abs = d := by
  unfold abs
  rw [← h]

/-- A negative number is written as the negative of its magnitude. -/
theorem negate_abs {d : Decimal} (h : d.negative = true) : d.abs.negate = d.withoutZeroSign := by
  have hsigned : { d.abs with negative := true } = d := by
    rw [← h]
    rfl
  exact congrArg withoutZeroSign hsigned

end Decimal

/-! ### Rereading -/

/-- Data of the same shape as in another heap, with their numbers written out. If they are a
container, it is new. -/
structure Rereads (source : Heap) (depth : Nat) (v : Value) (base heap : Heap) (w : Value) :
    Prop where
  alike : Heap.Alike (fun d d' => d' = d.writtenOut) source heap depth v w
  data : heap.IsData depth w
  fresh : ∀ c : ContainerRef, w = c.value → ¬ base.Has c

/-- What was reread stays so in a larger heap. -/
theorem Rereads.lasting (source : Heap) (depth : Nat) : Lasting (Rereads source depth) where
  earlier hgrows h := ⟨h.alike, h.data, fun c hc hhas => h.fresh c hc (hgrows.has hhas)⟩
  later hgrows h := ⟨h.alike.grows hgrows h.data, h.data.grows hgrows, h.fresh⟩

/-- The literal of a number is evaluated to the number, written out; two steps are enough for its
sign. -/
theorem evalExpr_literal (limits : Limits) (budget : Nat) {d : Decimal}
    (hsign : d.withoutZeroSign = d) (m : Machine) :
    evalExpr limits (budget + 2) d.literal m = .done (.number d.writtenOut) m := by
  have hwritten := Decimal.withoutZeroSign_writtenOut hsign
  have hmagnitude : d.abs.writtenOut.withoutZeroSign = d.writtenOut.abs := by
    rw [← d.abs_writtenOut]
    exact Decimal.withoutZeroSign_of_not_negative rfl
  unfold Decimal.literal
  cases hnegative : d.negative with
  | false =>
    show Outcome.done (Value.number d.abs.writtenOut.withoutZeroSign) m = _
    rw [hmagnitude, Decimal.abs_of_not_negative (d.negative_writtenOut.trans hnegative)]
  | true =>
    show Outcome.done (Value.number d.abs.writtenOut.withoutZeroSign.negate.withoutZeroSign) m = _
    rw [hmagnitude, Decimal.negate_abs (d.negative_writtenOut.trans hnegative), hwritten, hwritten]

/-! ### Containers -/

/-- Two keys are not one container. -/
def ApartKeys (entry entry' : Value × Value) : Prop :=
  ∀ c : ContainerRef, entry.1 = c.value → entry'.1 ≠ c.value

/-- A container has an identity of its own. -/
theorem Value.eq_of_identity_eq {w : Value} {c : ContainerRef}
    (h : w.identity = c.value.identity) : w = c.value := by
  cases c <;> cases w <;> cases h <;> rfl

/-- Scalars that are alike have one identity, so they are the same keys. -/
theorem Heap.Alike.identity_eq {number : Decimal → Decimal → Prop} {heap heap' : Heap} {n : Nat}
    {v w : Value} (hnumber : ∀ d d', number d d' → d'.toRat = d.toRat)
    (h : Alike number heap heap' n v w) (hscalar : ∀ c : ContainerRef, w ≠ c.value) :
    w.identity = v.identity := by
  cases n with
  | zero => exact h.elim
  | succ n =>
    cases h with
    | number d d' hd => exact congrArg Identity.number (hnumber d d' hd)
    | string s => rfl
    | boolean b => rfl
    | array ref ref' hheld => exact absurd rfl (hscalar (.array ref'))
    | dictionary ref ref' hheld => exact absurd rfl (hscalar (.dictionary ref'))

namespace Rereads

variable {source base heap later : Heap} {depth : Nat}

/-- A scalar is reread without touching the heap. -/
theorem of_scalar {v w : Value}
    (halike : Heap.Alike (fun d d' => d' = d.writtenOut) source heap depth v w)
    (hdata : heap.IsData depth w) (hscalar : ∀ c : ContainerRef, w ≠ c.value) :
    Rereads source depth v heap heap w :=
  ⟨halike, hdata, fun c hc => absurd hc (hscalar c)⟩

theorem toRat_eq (d d' : Decimal) (h : d' = d.writtenOut) : d'.toRat = d.toRat :=
  h ▸ d.toRat_writtenOut

/-- Keys that are not the same are not the same when they are reread. -/
theorem identity_ne {v v' w w' : Value} (h : Rereads source depth v base heap w)
    (h' : Rereads source depth v' base heap w') (hne : v.identity ≠ v'.identity)
    (hapart : ∀ c : ContainerRef, w = c.value → w' ≠ c.value) : w.identity ≠ w'.identity := by
  intro heq
  by_cases hw : ∃ c : ContainerRef, w = c.value
  · obtain ⟨c, rfl⟩ := hw
    exact hapart c rfl (Value.eq_of_identity_eq heq.symm)
  -- Any other key has the identity of the key that it rereads.
  · have hscalar : ∀ c : ContainerRef, w ≠ c.value := fun c hc => hw ⟨c, hc⟩
    have hscalar' : ∀ c : ContainerRef, w' ≠ c.value := by
      rintro c rfl
      exact hscalar c (Value.eq_of_identity_eq heq)
    exact hne ((h.alike.identity_eq toRat_eq hscalar).symm.trans
      (heq.trans (h'.alike.identity_eq toRat_eq hscalar')))

/-- A new array with elements that are reread rereads an array. -/
theorem array {ref ref' : ArrayRef} (hhas : heap.Has (.array ref'))
    (hnew : ¬ base.Has (.array ref'))
    (hheld : List.Forall₂ (Rereads source depth · base heap ·) (source.array ref).toList
      (heap.array ref').toList) :
    Rereads source (depth + 1) (.array ref) base heap (.array ref') where
  alike := .array ref ref' (hheld.imp fun _ _ h => h.alike)
  data := .array ref' hhas fun w hw => by
    obtain ⟨v, -, h⟩ := exists_of_forall₂_right hheld hw
    exact h.data
  fresh c hc := by
    cases c with
    | array => cases hc; exact hnew
    | dictionary => cases hc

end Rereads

/-- The key and the value of an entry are reread. -/
def RereadsEntry (source : Heap) (depth : Nat) (entry : Value × Value) (base heap : Heap)
    (entry' : Value × Value) : Prop :=
  Rereads source depth entry.1 base heap entry'.1 ∧ Rereads source depth entry.2 base heap entry'.2

namespace RereadsEntry

variable {source base heap later : Heap} {depth : Nat}

theorem lasting (source : Heap) (depth : Nat) : Lasting (RereadsEntry source depth) where
  earlier hgrows h :=
    ⟨(Rereads.lasting _ _).earlier hgrows h.1, (Rereads.lasting _ _).earlier hgrows h.2⟩
  later hgrows h := ⟨(Rereads.lasting _ _).later hgrows h.1, (Rereads.lasting _ _).later hgrows h.2⟩

/-- A container that was made later was not there before. -/
theorem apartKeys {first second entry entry' : Value × Value}
    (h : RereadsEntry source depth first base heap entry)
    (h' : RereadsEntry source depth second heap later entry') : ApartKeys entry entry' := by
  intro c hc hc'
  obtain ⟨-, -, hhas, -⟩ := (hc ▸ h.1.data : heap.IsData depth c.value).held
  exact h'.1.fresh c hc' hhas

/-- Entries with distinct keys have distinct keys when they are reread. -/
theorem distinct {entries entries' : List (Value × Value)}
    (h : List.Forall₂ (RereadsEntry source depth · base heap ·) entries entries')
    (hdistinct : Dictionary.Distinct entries) (hapart : entries'.Pairwise ApartKeys) :
    Dictionary.Distinct entries' := by
  induction h with
  | nil => exact List.nodup_nil
  | @cons entry entry' entries entries' hfirst hrest ih =>
    obtain ⟨hentry, hentries⟩ := List.nodup_cons.mp hdistinct
    obtain ⟨hentry', hentries'⟩ := List.pairwise_cons.mp hapart
    refine List.nodup_cons.mpr ⟨fun hmem => ?_, ih hentries hentries'⟩
    obtain ⟨other', hother', hsame⟩ := List.mem_map.mp hmem
    obtain ⟨other, hother, h⟩ := exists_of_forall₂_right hrest hother'
    have hne : entry.1.identity ≠ other.1.identity := fun heq =>
      hentry (List.mem_map.mpr ⟨other, hother, heq.symm⟩)
    exact hfirst.1.identity_ne h.1 hne (hentry' other' hother') hsame.symm

/-- A new dictionary with entries that are reread rereads a dictionary. -/
theorem dictionary {ref ref' : DictionaryRef} (hhas : heap.Has (.dictionary ref'))
    (hnew : ¬ base.Has (.dictionary ref'))
    (hdistinct : Dictionary.Distinct (heap.dictionary ref').entries)
    (hheld : List.Forall₂ (RereadsEntry source depth · base heap ·)
      (source.dictionary ref).entries (heap.dictionary ref').entries) :
    Rereads source (depth + 1) (.dictionary ref) base heap (.dictionary ref') where
  alike := .dictionary ref ref' (hheld.imp fun _ _ h => ⟨h.1.alike, h.2.alike⟩)
  data := .dictionary ref' hhas hdistinct fun entry' hentry' => by
    obtain ⟨entry, -, h⟩ := exists_of_forall₂_right hheld hentry'
    exact ⟨h.1.data, h.2.data⟩
  fresh c hc := by
    cases c with
    | array => cases hc
    | dictionary => cases hc; exact hnew

end RereadsEntry

/-! ### Literals -/

/-- **Evaluating the literal of data rereads it.** -/
theorem builds_literal (limits : Limits) {source : Heap} :
    ∀ {n : Nat} {v : Value} {budget : Nat}, n < budget → source.IsData n v → ∀ heap : Heap,
      Builds heap (evalExpr limits budget (source.literal n v)) (Rereads source n v heap)
  | 0, _, _, _, hdata, _ => hdata.elim
  | n + 1, _, budget, hbudget, hdata, heap => by
    obtain ⟨budget, rfl⟩ : ∃ b, budget = b + 2 := ⟨budget - 2, by omega⟩
    cases hdata with
    | number d hsign =>
      rintro m rfl
      exact ⟨_, m.heap, evalExpr_literal limits budget hsign m, .refl _,
        .of_scalar (.number d _ rfl) (.number _ (Decimal.withoutZeroSign_writtenOut hsign))
          fun c => by cases c <;> nofun⟩
    | string s =>
      exact Builds.pure (.of_scalar (.string s) (.string s) fun c => by cases c <;> nofun)
    | boolean b =>
      exact Builds.pure (.of_scalar (.boolean b) (.boolean b) fun c => by cases c <;> nofun)
    | array ref hhas hheld =>
      have hitems : ∀ v ∈ (source.array ref).toList, ∀ heap,
          Builds heap (evalExpr limits (budget + 1) (source.literal n v))
            (Rereads source n v heap) :=
        fun v hv => builds_literal limits (by omega) (hheld v hv)
      have hall := builds_all (fun _ _ => True) (Rereads.lasting source n) (fun _ _ => trivial)
        hitems heap
      show Builds heap (all (evalExpr limits (budget + 1))
        ((source.array ref).toList.map (source.literal n)) >>= newArray) _
      rw [all_map]
      refine hall.bind fun middle ws hgrows hws =>
        (Builds.newArray middle ws).mono fun later w hgrows' hw => ?_
      obtain ⟨ref', rfl, hnew, hhas', rfl⟩ := hw
      exact .array hhas' (mt hgrows.has hnew)
        (hws.1.imp fun _ _ => (Rereads.lasting source n).later hgrows')
    | dictionary ref hhas hdistinct hheld =>
      have hentries : ∀ entry ∈ (source.dictionary ref).entries, ∀ heap, Builds heap (do
          let key ← evalExpr limits (budget + 1) (source.literal n entry.1)
          let value ← evalExpr limits (budget + 1) (source.literal n entry.2)
          return (key, value)) (RereadsEntry source n entry heap) := by
        intro entry hentry heap
        obtain ⟨hkey, hvalue⟩ := hheld entry hentry
        refine (builds_literal limits (by omega) hkey heap).bind fun middle key hgrows hkey => ?_
        refine (builds_literal limits (by omega) hvalue middle).bind
          fun later value hgrows' hvalue => .pure ⟨?_, ?_⟩
        · exact (Rereads.lasting source n).later hgrows' hkey
        · exact (Rereads.lasting source n).earlier hgrows hvalue
      have hall := builds_all ApartKeys (RereadsEntry.lasting source n) RereadsEntry.apartKeys
        hentries heap
      show Builds heap (all _ ((source.dictionary ref).entries.map fun entry =>
        Entry.mk (source.literal n entry.1) (source.literal n entry.2)) >>= fun entries =>
          newDictionary (.ofList entries)) _
      rw [all_map]
      refine hall.bind fun middle entries hgrows hentries =>
        (Builds.newDictionary middle (.ofList entries)).mono fun later w hgrows' hw => ?_
      obtain ⟨hforall, hapart⟩ := hentries
      -- All entries are kept, since no two of the new keys are the same.
      have hkeys := RereadsEntry.distinct hforall hdistinct hapart
      obtain ⟨ref', rfl, hnew, hhas', hlater⟩ := hw
      rw [Dictionary.ofList_of_distinct hkeys] at hlater
      have hlater' : (later.dictionary ref').entries = entries := congrArg Dictionary.entries hlater
      refine RereadsEntry.dictionary hhas' (mt hgrows.has hnew) (hlater' ▸ hkeys) ?_
      rw [hlater']
      exact hforall.imp fun _ _ => (RereadsEntry.lasting source n).later hgrows'

end DecimalScript
