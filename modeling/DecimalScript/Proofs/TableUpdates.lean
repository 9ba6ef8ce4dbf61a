import DecimalScript.Machine.Basic
import DecimalScript.Proofs.Tables

/-!
# What updates of tables keep

Every update of an environment leaves most of it as it was. `Env.Evolves free env later` says what
all updates have in common: tables and cells stay, existing tables other than the global one and the
`free` ones keep their bindings, a cell once bound in the global table stays bound there, and what
is bound anew is either a cell that did not exist before or the global cell of the name.

`Env.Sound` is what updates rely on: there is one global table, all others fall back on it, and
whatever name a table binds a cell to is the name of the cell. So a cell is never bound to two
names. -/

namespace DecimalScript

namespace Env

open Machine (globalTable)

/-- There is one global table, on which all others fall back, and cells are bound to their names. -/
structure Sound (env : Env) : Prop where
  nonempty : 0 < env.tables.size
  global : (env.table globalTable).root = none
  locals : ∀ t, t ≠ globalTable → t.index < env.tables.size → (env.table t).root = some globalTable
  named : ∀ t n x, env.ownCell? t n = some x → ∃ cell, env.cells[x.index]? = some cell ∧ cell.name = n

/-- A table binds a name to the cell to which the global table binds it. -/
def Shares (env : Env) (t : TableRef) (n : String) : Prop :=
  ∃ x, env.ownCell? t n = some x ∧ env.ownCell? globalTable n = some x

/-- What updates keep that leave all tables alone but the global one and the free ones. -/
structure Evolves (free : TableRef → Prop) (env later : Env) : Prop where
  tables : env.tables.size ≤ later.tables.size
  size : env.cells.size ≤ later.cells.size
  cells : ∀ (i : Nat) cell, env.cells[i]? = some cell →
    ∃ cell', later.cells[i]? = some cell' ∧ cell'.name = cell.name
  kept : ∀ t, t ≠ globalTable → t.index < env.tables.size → ¬free t → later.table t = env.table t
  global : ∀ n x, env.ownCell? globalTable n = some x → later.ownCell? globalTable n = some x
  globalNew : ∀ n x, later.ownCell? globalTable n = some x →
    env.ownCell? globalTable n = some x ∨ env.cells.size ≤ x.index
  bound : ∀ t n x, t.index < env.tables.size → later.ownCell? t n = some x →
    env.ownCell? t n = some x ∨ later.ownCell? globalTable n = some x ∨ env.cells.size ≤ x.index

variable {env mid later : Env} {free free' : TableRef → Prop} {t u : TableRef} {n name : String}
  {x y : CellRef}

/-! ### Sound environments -/

namespace Sound

theorem cell_lt (h : env.Sound) (hx : env.ownCell? t n = some x) : x.index < env.cells.size := by
  obtain ⟨cell, hcell, -⟩ := h.named t n x hx
  exact (Array.getElem?_eq_some_iff.mp hcell).1

/-- A cell is bound to one name only. -/
theorem name_unique (h : env.Sound) (ht : env.ownCell? t n = some x)
    (hu : env.ownCell? u name = some x) : n = name := by
  obtain ⟨cell, hcell, hn⟩ := h.named t n x ht
  obtain ⟨cell', hcell', hname⟩ := h.named u name x hu
  rw [hcell] at hcell'
  cases hcell'
  exact hn.symm.trans hname

/-- Only the global table has no root. -/
theorem isGlobal_iff (h : env.Sound) (ht : t.index < env.tables.size) :
    env.isGlobal t = true ↔ t = globalTable := by
  constructor
  · intro hglobal
    refine Classical.byContradiction fun hne => ?_
    rw [isGlobal, h.locals t hne ht] at hglobal
    cases hglobal
  · rintro rfl
    rw [isGlobal, h.global]
    rfl

theorem isGlobal_eq_false (h : env.Sound) (ht : t.index < env.tables.size) (hne : t ≠ globalTable) :
    env.isGlobal t = false :=
  Bool.eq_false_iff.mpr fun hglobal => hne ((h.isGlobal_iff ht).mp hglobal)

/-- What a name means in a table: its own cell, or else the global one. -/
theorem cell?_eq (h : env.Sound) (ht : t.index < env.tables.size) (n : String) :
    env.cell? t n = (env.ownCell? t n).or (env.ownCell? globalTable n) := by
  unfold cell?
  cases hown : env.ownCell? t n with
  | some x => rfl
  | none =>
    by_cases hne : t = globalTable
    · subst hne
      rw [h.global, hown]
      rfl
    · rw [h.locals t hne ht]
      rfl

end Sound

/-- A shared name means the global cell. -/
theorem Shares.cell?_eq (h : env.Shares t n) : env.cell? t n = env.ownCell? globalTable n := by
  obtain ⟨x, ht, hglobal⟩ := h
  rw [cell?, ht, hglobal]

/-! ### Evolution -/

namespace Evolves

theorem refl (free : TableRef → Prop) (env : Env) : Evolves free env env where
  tables := Nat.le_refl _
  size := Nat.le_refl _
  cells := fun _ cell hcell => ⟨cell, hcell, rfl⟩
  kept := fun _ _ _ _ => rfl
  global := fun _ _ h => h
  globalNew := fun _ _ h => .inl h
  bound := fun _ _ _ _ h => .inl h

/-- New tables may be changed later. -/
theorem trans (h : Evolves free env mid) (h' : Evolves free' mid later)
    (hfree : ∀ t, t.index < env.tables.size → free' t → free t) : Evolves free env later where
  tables := Nat.le_trans h.tables h'.tables
  size := Nat.le_trans h.size h'.size
  cells := fun i cell hcell => by
    obtain ⟨cell', hcell', hname⟩ := h.cells i cell hcell
    obtain ⟨cell'', hcell'', hname'⟩ := h'.cells i cell' hcell'
    exact ⟨cell'', hcell'', hname'.trans hname⟩
  kept := fun t hne ht hnot =>
    (h'.kept t hne (Nat.lt_of_lt_of_le ht h.tables) fun hfree' => hnot (hfree t ht hfree')).trans
      (h.kept t hne ht hnot)
  global := fun n x hx => h'.global n x (h.global n x hx)
  -- A cell that is new in the second step is new altogether, as the cells only grow.
  globalNew := fun n x hx => by
    rcases h'.globalNew n x hx with hx | hx
    · exact h.globalNew n x hx
    · exact .inr (Nat.le_trans h.size hx)
  bound := fun t n x ht hx => by
    rcases h'.bound t n x (Nat.lt_of_lt_of_le ht h.tables) hx with hx | hx | hx
    · rcases h.bound t n x ht hx with hx | hx | hx
      · exact .inl hx
      · exact .inr (.inl (h'.global n x hx))
      · exact .inr (.inr hx)
    · exact .inr (.inl hx)
    · exact .inr (.inr (Nat.le_trans h.size hx))

theorem mono (h : Evolves free env later)
    (hfree : ∀ t, t.index < env.tables.size → free t → free' t) : Evolves free' env later :=
  { h with kept := fun t hne ht hnot => h.kept t hne ht fun hf => hnot (hfree t ht hf) }

/-- The names of a table that is left alone keep their cells. -/
theorem ownCell?_eq (h : Evolves free env later) (hne : t ≠ globalTable)
    (ht : t.index < env.tables.size) (hfree : ¬free t) (n : String) :
    later.ownCell? t n = env.ownCell? t n := by
  rw [ownCell?, ownCell?, h.kept t hne ht hfree]

/-- Where a binding is kept, a name is shared if it was shared before: a cell that was there is not
bound in the global table later on. -/
theorem shares_congr (h : Evolves free env later) (henv : env.Sound)
    (hn : later.ownCell? t n = env.ownCell? t n) : later.Shares t n ↔ env.Shares t n := by
  unfold Shares
  rw [hn]
  constructor
  · rintro ⟨x, hx, hglobal⟩
    refine ⟨x, hx, (h.globalNew n x hglobal).resolve_right fun hle => ?_⟩
    exact Nat.not_lt_of_le hle (henv.cell_lt hx)
  · rintro ⟨x, hx, hglobal⟩
    exact ⟨x, hx, h.global n x hglobal⟩

/-- A table that keeps its bindings shares what it shared before, and nothing else. -/
theorem shares_iff (h : Evolves free env later) (henv : env.Sound) (hne : t ≠ globalTable)
    (ht : t.index < env.tables.size) (hfree : ¬free t) : later.Shares t n ↔ env.Shares t n :=
  h.shares_congr henv (h.ownCell?_eq hne ht hfree n)

end Evolves

/-! ### Cells -/

/-- An assignment to a cell binds nothing. -/
theorem evolves_assign (free : TableRef → Prop) (env : Env) (x : CellRef) (value : Option Value) :
    Evolves free env (env.assign x value) where
  tables := Nat.le_refl _
  size := by simp [assign]
  cells := fun i cell hcell => by
    simp only [assign, Array.getElem?_modify, hcell]
    split
    · exact ⟨_, rfl, rfl⟩
    · exact ⟨_, rfl, rfl⟩
  kept := fun _ _ _ _ => rfl
  global := fun _ _ h => h
  globalNew := fun _ _ h => .inl h
  bound := fun _ _ _ _ h => .inl h

theorem Sound.assign (h : env.Sound) (x : CellRef) (value : Option Value) :
    (env.assign x value).Sound where
  nonempty := h.nonempty
  global := h.global
  locals := h.locals
  named := fun t n y hy => by
    obtain ⟨cell, hcell, hname⟩ := h.named t n y hy
    obtain ⟨cell', hcell', hname'⟩ :=
      (evolves_assign (fun _ => False) env x value).cells y.index cell hcell
    exact ⟨cell', hcell', hname'.trans hname⟩

theorem cells_addCell (env : Env) (name : String) (value : Option Value) (i : Nat) :
    (env.addCell name value).2.cells[i]? =
      if i = env.cells.size then some ⟨name, value⟩ else env.cells[i]? :=
  Array.getElem?_push

/-! ### New bindings -/

/-- A new cell in a table that does not bind the name yet or is not the global one. -/
theorem ownCell?_define (ht : t.index < env.tables.size) (name : String) (value : Option Value)
    (u : TableRef) (n : String) :
    (env.define t name value).2.ownCell? u n =
      if u = t ∧ n = name then some ⟨env.cells.size⟩ else env.ownCell? u n := by
  show ((env.addCell name value).2.bind t name ⟨env.cells.size⟩).ownCell? u n = _
  split
  · rename_i h
    obtain ⟨rfl, rfl⟩ := h
    exact ownCell?_bind_self ht
  · rename_i h
    exact ownCell?_bind_ne (Decidable.not_and_iff_or_not.mp h)

theorem table_define_ne (h : u ≠ t) (name : String) (value : Option Value) :
    (env.define t name value).2.table u = env.table u :=
  table_bind_ne h

theorem tables_size_define (env : Env) (t : TableRef) (name : String) (value : Option Value) :
    (env.define t name value).2.tables.size = env.tables.size :=
  tables_size_bind

theorem root_define (env : Env) (t u : TableRef) (name : String) (value : Option Value) :
    ((env.define t name value).2.table u).root = (env.table u).root :=
  root_bind

/-- A new binding changes its own table only. In the global one it must be new, since others may
share the cell. -/
theorem evolves_define (ht : t.index < env.tables.size) (name : String) (value : Option Value)
    (hnew : t = globalTable → env.ownCell? globalTable name = none) :
    Evolves (· = t) env (env.define t name value).2 where
  tables := Nat.le_of_eq (tables_size_define env t name value).symm
  size := by
    show env.cells.size ≤ (env.cells.push _).size
    rw [Array.size_push]
    exact Nat.le_succ _
  cells := fun i cell hcell => by
    refine ⟨cell, ?_, rfl⟩
    show (env.addCell name value).2.cells[i]? = some cell
    rw [cells_addCell, if_neg (Nat.ne_of_lt (Array.getElem?_eq_some_iff.mp hcell).1)]
    exact hcell
  kept := fun u _ _ hne => table_define_ne hne name value
  global := fun n x hx => by
    rw [ownCell?_define ht, if_neg]
    · exact hx
    -- The global table may be the one written, but then only at a name it does not have.
    · rintro ⟨hglobal, rfl⟩
      rw [hnew hglobal.symm] at hx
      cases hx
  globalNew := fun n x hx => by
    rw [ownCell?_define ht] at hx
    split at hx
    · exact .inr (Nat.le_of_eq (congrArg CellRef.index (Option.some.inj hx)))
    · exact .inl hx
  bound := fun u n x _ hx => by
    rw [ownCell?_define ht] at hx
    split at hx
    · exact .inr (.inr (Nat.le_of_eq (congrArg CellRef.index (Option.some.inj hx))))
    · exact .inl hx

theorem Sound.define (h : env.Sound) (ht : t.index < env.tables.size) (name : String)
    (value : Option Value) : (env.define t name value).2.Sound where
  nonempty := by
    rw [tables_size_define]
    exact h.nonempty
  global := by
    rw [root_define]
    exact h.global
  locals := fun u hne hu => by
    rw [root_define]
    rw [tables_size_define] at hu
    exact h.locals u hne hu
  named := fun u n x hx => by
    show ∃ cell, (env.addCell name value).2.cells[x.index]? = some cell ∧ cell.name = n
    rw [ownCell?_define ht] at hx
    rw [cells_addCell]
    split at hx
    · rename_i hun
      cases hx
      exact ⟨_, if_pos rfl, hun.2.symm⟩
    -- An old binding leads to an old cell, which the push leaves in its place.
    · obtain ⟨cell, hcell, hname⟩ := h.named u n x hx
      rw [if_neg (Nat.ne_of_lt (h.cell_lt hx))]
      exact ⟨cell, hcell, hname⟩

/-- A new binding is not shared: its cell is new, too. -/
theorem Sound.shares_define (h : env.Sound) (ht : t.index < env.tables.size) (hne : t ≠ globalTable)
    (name : String) (value : Option Value) :
    (env.define t name value).2.Shares t n ↔ n ≠ name ∧ env.Shares t n := by
  by_cases hn : n = name
  · subst hn
    refine ⟨fun hshares => ?_, fun hn => absurd rfl hn.1⟩
    obtain ⟨x, hx, hglobal⟩ := hshares
    rw [ownCell?_define ht, if_pos ⟨rfl, rfl⟩] at hx
    rw [ownCell?_define ht, if_neg fun hu => hne hu.1.symm, ← hx] at hglobal
    exact absurd (h.cell_lt hglobal) (Nat.lt_irrefl _)
  · have hevolves := evolves_define ht name value fun hglobal => absurd hglobal hne
    rw [hevolves.shares_congr h (by rw [ownCell?_define ht, if_neg fun hu => hn hu.2])]
    exact ⟨fun hshares => ⟨hn, hshares⟩, fun hshares => hshares.2⟩

/-- Sharing the global cell of a name with another table. -/
theorem evolves_share (ht : t.index < env.tables.size) (hne : t ≠ globalTable)
    (hx : env.ownCell? globalTable name = some x) : Evolves (· = t) env (env.bind t name x) where
  tables := Nat.le_of_eq tables_size_bind.symm
  size := Nat.le_refl _
  cells := fun _ cell hcell => ⟨cell, hcell, rfl⟩
  kept := fun u _ _ hu => table_bind_ne hu
  global := fun n y hy => by
    rw [ownCell?_bind_ne (.inl hne.symm)]
    exact hy
  globalNew := fun n y hy => by
    rw [ownCell?_bind_ne (.inl hne.symm)] at hy
    exact .inl hy
  bound := fun u n y _ hy => by
    -- The one new binding leads to the global cell.
    by_cases hun : u = t ∧ n = name
    · obtain ⟨rfl, rfl⟩ := hun
      rw [ownCell?_bind_self ht] at hy
      refine .inr (.inl ?_)
      rw [ownCell?_bind_ne (.inl hne.symm), hx, hy]
    · rw [ownCell?_bind_ne (Decidable.not_and_iff_or_not.mp hun)] at hy
      exact .inl hy

theorem Sound.share (h : env.Sound) (ht : t.index < env.tables.size)
    (hx : env.ownCell? globalTable name = some x) : (env.bind t name x).Sound where
  nonempty := by
    rw [tables_size_bind]
    exact h.nonempty
  global := by
    rw [root_bind]
    exact h.global
  locals := fun u hne hu => by
    rw [root_bind]
    rw [tables_size_bind] at hu
    exact h.locals u hne hu
  named := fun u n y hy => by
    by_cases hun : u = t ∧ n = name
    · obtain ⟨rfl, rfl⟩ := hun
      rw [ownCell?_bind_self ht] at hy
      cases hy
      exact h.named globalTable n x hx
    · rw [ownCell?_bind_ne (Decidable.not_and_iff_or_not.mp hun)] at hy
      exact h.named u n y hy

/-! ### Assigning to a name -/

/-- Assigning to a name changes its own table only, by a new binding if the name has none. -/
theorem evolves_set (ht : t.index < env.tables.size) (name : String) (value : Option Value) :
    Evolves (· = t) env (env.set t name value).2 := by
  unfold set
  cases hown : env.ownCell? t name with
  | some x => exact evolves_assign _ env x value
  | none => exact evolves_define ht name value fun hglobal => hglobal ▸ hown

theorem Sound.set (h : env.Sound) (ht : t.index < env.tables.size) (name : String)
    (value : Option Value) : (env.set t name value).2.Sound := by
  unfold Env.set
  cases env.ownCell? t name with
  | some x => exact h.assign x value
  | none => exact h.define ht name value

/-- Assigning binds a name that is not bound to a new cell, and binds nothing else. -/
theorem ownCell?_set (ht : t.index < env.tables.size) (name : String) (value : Option Value)
    (u : TableRef) (n : String) :
    (env.set t name value).2.ownCell? u n =
      if u = t ∧ n = name ∧ env.ownCell? t name = none then some ⟨env.cells.size⟩
      else env.ownCell? u n := by
  unfold set
  cases hown : env.ownCell? t name with
  | some x =>
    rw [if_neg fun h => by cases h.2.2]
    rfl
  | none =>
    simp only [and_true]
    exact ownCell?_define ht name value u n

/-- Assigning changes nothing about what a table shares. -/
theorem Sound.shares_set (h : env.Sound) (ht : t.index < env.tables.size) (hne : t ≠ globalTable)
    (name : String) (value : Option Value) :
    (env.set t name value).2.Shares t n ↔ env.Shares t n := by
  unfold Env.set
  cases hown : env.ownCell? t name with
  | some x => exact (evolves_assign (fun _ => False) env x value).shares_congr h rfl
  | none =>
    refine (h.shares_define ht hne name value).trans ⟨fun hshares => hshares.2, fun hshares => ?_⟩
    refine ⟨?_, hshares⟩
    rintro rfl
    obtain ⟨x, hx, -⟩ := hshares
    rw [hown] at hx
    cases hx

/-! ### Importing global names -/

/-- What importing a name into a table other than the global one does: the table shares the global
cell of the name, and the rest of its bindings is as before. -/
structure Imports (t : TableRef) (names : List String) (env later : Env) : Prop where
  sound : later.Sound
  evolves : Evolves (· = t) env later
  shares : ∀ n ∈ names, later.Shares t n
  others : ∀ n, n ∉ names → later.ownCell? t n = env.ownCell? t n

/-- A global name is imported by sharing its cell, which is made if there is none. -/
theorem Sound.importGlobal (h : env.Sound) (ht : t.index < env.tables.size) (hne : t ≠ globalTable)
    (name : String) : Imports t [name] env (env.importGlobal t name).2 := by
  have hroot := h.locals t hne ht
  -- Whether the global cell exists or has to be made first, it is then shared in the same way.
  have hshare : ∀ {mid : Env}, mid.Sound → t.index < mid.tables.size → Evolves (· = t) env mid →
      (∀ n, n ∉ [name] → mid.ownCell? t n = env.ownCell? t n) → ∀ {x},
      mid.ownCell? globalTable name = some x → Imports t [name] env (mid.bind t name x) := by
    intro mid hmid ht hevolves hothers x hx
    refine ⟨hmid.share ht hx, hevolves.trans (evolves_share ht hne hx) fun _ _ hu => hu, ?_, ?_⟩
    · intro n hn
      rw [List.mem_singleton.mp hn]
      refine ⟨x, ownCell?_bind_self ht, ?_⟩
      rw [ownCell?_bind_ne (.inl hne.symm)]
      exact hx
    · intro n hn
      rw [ownCell?_bind_ne (.inr (by simpa using hn))]
      exact hothers n hn
  cases hx : env.ownCell? globalTable name with
  | some x =>
    rw [importGlobal_bound hroot hx]
    exact hshare h ht (.refl _ env) (fun _ _ => rfl) hx
  | none =>
    rw [importGlobal_unbound hroot hx]
    have hglobal : globalTable.index < env.tables.size := h.nonempty
    refine hshare (h.define hglobal name none) ?_ ?_ ?_ ?_
    · rw [tables_size_define]
      exact ht
    · have hevolves := evolves_define hglobal name none fun _ => hx
      exact { hevolves with
        kept := fun u hu hlt _ => hevolves.kept u hu hlt hu }
    · intro n _
      rw [ownCell?_define hglobal, if_neg fun hn => hne hn.1]
    · rw [ownCell?_define hglobal, if_pos ⟨rfl, rfl⟩]
      rfl

theorem Imports.trans {names names' : List String} (h : Imports t names env mid)
    (h' : Imports t names' mid later) : Imports t (names ++ names') env later where
  sound := h'.sound
  evolves := h.evolves.trans h'.evolves fun _ _ hu => hu
  shares := fun n hn => by
    by_cases hn' : n ∈ names'
    · exact h'.shares n hn'
    · rw [h'.evolves.shares_congr h.sound (h'.others n hn')]
      exact h.shares n ((List.mem_append.mp hn).resolve_right hn')
  others := fun n hn => by
    rw [List.mem_append, not_or] at hn
    rw [h'.others n hn.2, h.others n hn.1]

theorem imports_importGlobals (hne : t ≠ globalTable) :
    ∀ (names : List String) {env : Env}, env.Sound → t.index < env.tables.size →
      Imports t names env (names.foldl (fun env name => (env.importGlobal t name).2) env)
  | [], env, h, _ => ⟨h, .refl _ env, fun _ hn => (List.not_mem_nil hn).elim, fun _ _ => rfl⟩
  | name :: names, _, h, ht => by
    have himport := h.importGlobal ht hne name
    exact himport.trans (imports_importGlobals hne names himport.sound
      (Nat.lt_of_lt_of_le ht himport.evolves.tables))

/-- What a table shares after names have been imported. -/
theorem Imports.shares_iff {names : List String} (h : Imports t names env later) (henv : env.Sound) :
    later.Shares t n ↔ n ∈ names ∨ env.Shares t n := by
  by_cases hn : n ∈ names
  · exact ⟨fun _ => .inl hn, fun _ => h.shares n hn⟩
  · rw [h.evolves.shares_congr henv (h.others n hn)]
    exact ⟨.inr, fun hshares => hshares.resolve_left hn⟩

/-! ### New tables -/

/-- A new table has the bindings that it was made of. -/
theorem ownCell?_addTable (table' : Table) (u : TableRef) (n : String) :
    (env.addTable table').2.ownCell? u n =
      if u.index = env.tables.size then Bindings.cell? table'.bindings n else env.ownCell? u n := by
  rw [ownCell?, table_addTable]
  split <;> rfl

/-- A new table changes no other one. -/
theorem evolves_addTable (free : TableRef → Prop) (hnonempty : 0 < env.tables.size)
    (table' : Table) : Evolves free env (env.addTable table').2 := by
  -- The global table is the first one, so the new one is another.
  have hglobal : ∀ n, (env.addTable table').2.ownCell? globalTable n =
      env.ownCell? globalTable n := fun n => by
    have hold : globalTable.index ≠ env.tables.size := Nat.ne_of_lt hnonempty
    rw [ownCell?_addTable, if_neg hold]
  exact
    { tables := by
        rw [tables_size_addTable]
        exact Nat.le_succ _
      size := Nat.le_refl _
      cells := fun _ cell hcell => ⟨cell, hcell, rfl⟩
      kept := fun u _ hu _ => table_addTable_old hu
      global := fun n x hx => (hglobal n).trans hx
      globalNew := fun n x hx => .inl ((hglobal n).symm.trans hx)
      bound := fun u n x hu hx => by
        rw [ownCell?_addTable, if_neg (Nat.ne_of_lt hu)] at hx
        exact .inl hx }

/-- From the global table nothing is inherited, and from another one everything. -/
theorem cell?_inherited (env : Env) (t : TableRef) (n : String) :
    Bindings.cell? (env.inherited t) n = if env.isGlobal t then none else env.ownCell? t n := by
  unfold inherited
  split <;> rfl

/-- The first table is the global one. -/
theorem sound_addGlobal (h : env.tables.size = 0) : env.addGlobal.2.Sound := by
  have htable : ∀ t, env.addGlobal.2.table t = { root := none } := by
    intro t
    show (env.addTable { root := none }).2.table t = _
    rw [table_addTable]
    split
    · rfl
    · simp [table, Array.eq_empty_of_size_eq_zero h]
  have hsize : env.addGlobal.2.tables.size = 1 := (tables_size_addTable _).trans (by rw [h])
  exact
    { nonempty := by
        rw [hsize]
        exact Nat.zero_lt_one
      global := by rw [htable]
      locals := fun t hne ht =>
        absurd (congrArg TableRef.mk (Nat.lt_one_iff.mp (hsize ▸ ht))) hne
      named := fun t n x hx => by
        rw [ownCell?, htable] at hx
        cases hx }

/-- A new table may bind what another table binds. -/
theorem Sound.addTable (h : env.Sound) {bindings : Bindings}
    (hbindings : ∀ n x, Bindings.cell? bindings n = some x → env.ownCell? t n = some x) :
    (env.addTable ⟨some globalTable, bindings⟩).2.Sound where
  nonempty := by
    rw [tables_size_addTable]
    exact Nat.succ_pos _
  global := by
    have hold : globalTable.index < env.tables.size := h.nonempty
    rw [table_addTable_old hold]
    exact h.global
  locals := fun u hne hu => by
    rw [table_addTable]
    split
    · rfl
    · rename_i hold
      rw [tables_size_addTable] at hu
      exact h.locals u hne (Nat.lt_of_le_of_ne (Nat.le_of_lt_succ hu) hold)
  named := fun u n x hx => by
    show ∃ cell, env.cells[x.index]? = some cell ∧ cell.name = n
    rw [ownCell?_addTable] at hx
    split at hx
    -- The new table's bindings are taken from an old one.
    · exact h.named t n x (hbindings n x hx)
    · exact h.named u n x hx

theorem Sound.ne_globalTable_of_le (h : env.Sound) (ht : env.tables.size ≤ t.index) :
    t ≠ globalTable := by
  rintro rfl
  exact Nat.not_lt_of_le ht h.nonempty

/-! ### Values of global variables -/

theorem valueAt?_assign_ne (env : Env) (value : Option Value) (h : y ≠ x) :
    (env.assign x value).valueAt? y = env.valueAt? y := by
  have hindex : x.index ≠ y.index := fun heq => h (by cases x; cases y; cases heq; rfl)
  rw [valueAt?, valueAt?, assign, Array.getElem?_modify, if_neg hindex]

theorem valueAt?_define (h : x.index < env.cells.size) (t : TableRef) (name : String)
    (value : Option Value) : (env.define t name value).2.valueAt? x = env.valueAt? x := by
  show ((env.addCell name value).2.cells[x.index]?).bind _ = _
  rw [cells_addCell, if_neg (Nat.ne_of_lt h)]
  rfl

/-- A global variable has the value of the cell that the global table has for it. -/
theorem Sound.get?_globalTable (h : env.Sound) (n : String) :
    env.get? globalTable n = (env.ownCell? globalTable n).bind env.valueAt? := by
  have hlt : globalTable.index < env.tables.size := h.nonempty
  rw [get?, h.cell?_eq hlt, Option.or_self]

/-- The global variables are the same, with the same values. -/
def SameGlobals (env later : Env) : Prop :=
  ∀ n, later.ownCell? globalTable n = env.ownCell? globalTable n ∧
    later.get? globalTable n = env.get? globalTable n

theorem SameGlobals.refl (env : Env) : SameGlobals env env := fun _ => ⟨rfl, rfl⟩

theorem SameGlobals.trans (h : SameGlobals env mid) (h' : SameGlobals mid later) :
    SameGlobals env later :=
  fun n => ⟨(h' n).1.trans (h n).1, (h' n).2.trans (h n).2⟩

/-- Global variables are the same if their cells and the values of these are. -/
theorem SameGlobals.of_cells (henv : env.Sound) (hlater : later.Sound)
    (hown : ∀ n, later.ownCell? globalTable n = env.ownCell? globalTable n)
    (hvalue : ∀ n x, env.ownCell? globalTable n = some x → later.valueAt? x = env.valueAt? x) :
    SameGlobals env later := by
  refine fun n => ⟨hown n, ?_⟩
  rw [hlater.get?_globalTable, henv.get?_globalTable, hown]
  cases hx : env.ownCell? globalTable n with
  | none => rfl
  | some x => exact hvalue n x hx

theorem Sound.sameGlobals_addTable (h : env.Sound) {table' : Table}
    (hsound : (env.addTable table').2.Sound) : SameGlobals env (env.addTable table').2 := by
  have hold : globalTable.index ≠ env.tables.size := Nat.ne_of_lt h.nonempty
  exact .of_cells h hsound (fun n => by rw [ownCell?_addTable, if_neg hold]) fun _ _ _ => rfl

/-- A new cell elsewhere is no change of a global variable. -/
theorem Sound.sameGlobals_define (h : env.Sound) (ht : t.index < env.tables.size)
    (hne : t ≠ globalTable) (name : String) (value : Option Value) :
    SameGlobals env (env.define t name value).2 := by
  have hown : ∀ n, (env.define t name value).2.ownCell? globalTable n =
      env.ownCell? globalTable n := fun n => by
    rw [ownCell?_define ht, if_neg fun hu => hne hu.1.symm]
  exact .of_cells h (h.define ht name value) hown fun n x hx =>
    valueAt?_define (h.cell_lt hx) t name value

/-- Assigning through another table changes a global variable only if the table shares it. -/
theorem Sound.set_globals (h : env.Sound) (ht : t.index < env.tables.size) (hne : t ≠ globalTable)
    (name : String) (value : Option Value) :
    (env.set t name value).2.ownCell? globalTable n = env.ownCell? globalTable n ∧
      ((env.set t name value).2.get? globalTable n ≠ env.get? globalTable n →
        n = name ∧ env.Shares t n) := by
  have hown : (env.set t name value).2.ownCell? globalTable n = env.ownCell? globalTable n := by
    rw [ownCell?_set ht, if_neg fun hu => hne hu.1.symm]
  refine ⟨hown, fun hchange => ?_⟩
  rw [(h.set ht name value).get?_globalTable, h.get?_globalTable, hown] at hchange
  cases hx : env.ownCell? globalTable n with
  | none =>
    rw [hx] at hchange
    exact absurd rfl hchange
  | some x =>
    rw [hx] at hchange
    unfold Env.set at hchange
    -- The one cell that gets another value is that of the name; a cell belongs to one name only.
    cases hy : env.ownCell? t name with
    | none =>
      rw [hy] at hchange
      exact absurd (valueAt?_define (h.cell_lt hx) t name value) hchange
    | some y =>
      rw [hy] at hchange
      by_cases hxy : x = y
      · subst hxy
        obtain rfl := h.name_unique hx hy
        exact ⟨rfl, x, hy, hx⟩
      · exact absurd (valueAt?_assign_ne env value hxy) hchange

end Env

end DecimalScript
