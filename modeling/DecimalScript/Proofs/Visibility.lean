import DecimalScript.Proofs.TableUpdates

/-!
# Shared cells decide what is visible

Tables share cells in any pattern: a child takes all cells of its parent, a closure some of them,
and importing a name takes the cell of the global table. What a table sees of an update made through
another one depends on that sharing alone.

- `Env.Built`: the environments that sequences of operations build, each operation on tables that
  exist by then. If one table is global and all others fall back on it, such an environment is sound
  (`Built.sound`, by induction on the sequence with one lemma for each operation).
- `Sound.rebinds_define`, `Sound.reassigns_set`, `Sound.importsOne`: what one operation on a
  sound environment does to every lookup of every name through every table.
- `shared_cells_decide_visibility`: which lookups an operation changes, and that it changes no other.

That names are equal where cells are is what makes this work for lookups by name: an update goes to
a cell, and every table that reaches that cell reaches it under the one name which it has.
-/

namespace DecimalScript

namespace Env

open Machine (globalTable)

/-! ### Sequences of operations -/

/-- An operation on tables. -/
inductive Operation where
  | addGlobal
  | addChild (root parent : TableRef)
  | addClosure (root parent : TableRef) (names : List String)
  | set (t : TableRef) (name : String) (value : Option Value)
  | define (t : TableRef) (name : String) (value : Option Value)
  | importGlobal (t : TableRef) (name : String)

namespace Operation

/-- The tables that an operation is given. -/
def given : Operation → List TableRef
  | addGlobal => []
  | addChild root parent | addClosure root parent _ => [root, parent]
  | set t _ _ | define t _ _ | importGlobal t _ => [t]

/-- The environment after an operation. -/
def perform (env : Env) : Operation → Env
  | addGlobal => env.addGlobal.2
  | addChild root parent => (env.addChild root parent).2
  | addClosure root parent names => (env.addClosure root parent names).2
  | set t name value => (env.set t name value).2
  | define t name value => (env.define t name value).2
  | importGlobal t name => (env.importGlobal t name).2

end Operation

/-- The environments that sequences of operations build, each operation on tables that exist. -/
inductive Built : Env → Prop
  | empty : Built {}
  | perform {env : Env} (h : Built env) (op : Operation)
    (hgiven : ∀ t ∈ op.given, t.index < env.tables.size) : Built (op.perform env)

/-- One table falls back on no other, and all others fall back on it. -/
structure OneGlobal (env : Env) (root : TableRef) : Prop where
  exists_root : root.index < env.tables.size
  global : (env.table root).root = none
  locals : ∀ t, t ≠ root → t.index < env.tables.size → (env.table t).root = some root

/-! ### What an operation does to lookups -/

/-- A lookup finds the same cell as before, with the same value. -/
def SameLookup (env later : Env) (u : TableRef) (m : String) : Prop :=
  later.cell? u m = env.cell? u m ∧ later.get? u m = env.get? u m

/-- A table sees the binding that another one has for a name: it is that table, or that one is the
global table and it binds the name to no cell of its own. -/
def SeesThrough (env : Env) (root t u : TableRef) (n : String) : Prop :=
  u = t ∨ t = root ∧ env.ownCell? u n = none

/-- The name gets a new cell in a table: those that see the binding find the value there, and no
other lookup changes. -/
def Rebinds (env later : Env) (root t : TableRef) (n : String) (value : Option Value) : Prop :=
  ∀ u, u.index < env.tables.size →
    (env.SeesThrough root t u n →
      later.cell? u n = some ⟨env.cells.size⟩ ∧ later.get? u n = value) ∧
    ∀ m, ¬(m = n ∧ env.SeesThrough root t u n) → env.SameLookup later u m

/-- A cell gets another value: the lookups that find the cell find the value, and no other lookup
changes. -/
def Reassigns (env later : Env) (x : CellRef) (value : Option Value) : Prop :=
  ∀ u m, u.index < env.tables.size →
    (env.cell? u m = some x → later.cell? u m = some x ∧ later.get? u m = value) ∧
    (env.cell? u m ≠ some x → env.SameLookup later u m)

/-- A table shares the global cell of a name, which is the one that there was. No other lookup finds
another value, nor another cell, except that a name without a global cell has got one, which is
unset. -/
def ImportsOne (env later : Env) (root t : TableRef) (n : String) : Prop :=
  later.cell? t n = later.cell? root n ∧ later.get? t n = env.get? root n ∧
  (∀ x, env.cell? root n = some x → later.cell? root n = some x) ∧
  ∀ u m, u.index < env.tables.size → ¬(u = t ∧ m = n) →
    later.get? u m = env.get? u m ∧
      (later.cell? u m = env.cell? u m ∨
        m = n ∧ env.cell? root n = none ∧ env.cell? u n = none ∧
          later.cell? u n = some ⟨env.cells.size⟩ ∧ later.get? u n = none)

/-- What the operations change in an environment with a global table. -/
structure DecidedBySharing (env : Env) (root : TableRef) : Prop where
  /-- Cells carry the names under which they are stored. -/
  named : ∀ t n x, env.ownCell? t n = some x →
    ∃ cell, env.cells[x.index]? = some cell ∧ cell.name = n
  /-- Setting a name with an own cell is seen wherever that cell is found. -/
  setOwn : ∀ t n value x, t.index < env.tables.size → env.ownCell? t n = some x →
    env.Reassigns (env.set t n value).2 x value
  /-- Setting a name without an own cell gives it a new one. -/
  setNew : ∀ t n value, t.index < env.tables.size → env.ownCell? t n = none →
    env.Rebinds (env.set t n value).2 root t n value
  /-- Defining a name gives it a new cell in any case. -/
  define : ∀ t n value, t.index < env.tables.size →
    env.Rebinds (env.define t n value).2 root t n value
  importGlobal : ∀ t n, t.index < env.tables.size →
    env.ImportsOne (env.importGlobal t n).2 root t n
  /-- The global table sees what is set through another table only if the other one shares the
  global cell. -/
  seenByRoot : ∀ t n value, t.index < env.tables.size → t ≠ root → ∀ m,
    ¬env.SameLookup (env.set t n value).2 root m →
      m = n ∧ ∃ x, env.ownCell? t n = some x ∧ env.ownCell? root n = some x

variable {env later : Env} {root t u : TableRef} {name n m : String} {value : Option Value}
  {x y : CellRef}

/-! ### The first table is the global one -/

theorem root_set (env : Env) (t u : TableRef) (name : String) (value : Option Value) :
    ((env.set t name value).2.table u).root = (env.table u).root := by
  unfold set
  cases env.ownCell? t name with
  | some x => rfl
  | none => exact root_define env t u name value

theorem root_importGlobal (env : Env) (t u : TableRef) (name : String) :
    ((env.importGlobal t name).2.table u).root = (env.table u).root := by
  unfold importGlobal
  dsimp only
  split
  · exact root_bind
  · exact root_bind.trans (root_define _ _ _ _ _)

theorem tables_size_set (env : Env) (t : TableRef) (name : String) (value : Option Value) :
    (env.set t name value).2.tables.size = env.tables.size := by
  unfold set
  cases env.ownCell? t name with
  | some x => rfl
  | none => exact tables_size_define env t name value

theorem tables_size_importGlobal (env : Env) (t : TableRef) (name : String) :
    (env.importGlobal t name).2.tables.size = env.tables.size := by
  unfold importGlobal
  dsimp only
  split
  · exact tables_size_bind
  · exact tables_size_bind.trans (tables_size_define _ _ _ _)

namespace Operation

/-- Operations take no table away, and what a table falls back on is settled when it is made. -/
theorem keeps_tables (op : Operation) (env : Env) :
    env.tables.size ≤ (op.perform env).tables.size ∧
      ∀ u, u.index < env.tables.size →
        ((op.perform env).table u).root = (env.table u).root := by
  have hadd : ∀ table' : Table, env.tables.size ≤ (env.addTable table').2.tables.size ∧
      ∀ u, u.index < env.tables.size →
        ((env.addTable table').2.table u).root = (env.table u).root := fun table' => by
    rw [tables_size_addTable]
    exact ⟨Nat.le_succ _, fun u hu => by rw [table_addTable_old hu]⟩
  -- Either a table is added behind the others, or one table changes its bindings and keeps its
  -- root.
  cases op with
  | addGlobal => exact hadd _
  | addChild root parent => exact hadd _
  | addClosure root parent names => exact hadd _
  | set t name value =>
    exact ⟨Nat.le_of_eq (tables_size_set env t name value).symm,
      fun u _ => root_set env t u name value⟩
  | define t name value =>
    exact ⟨Nat.le_of_eq (tables_size_define env t name value).symm,
      fun u _ => root_define env t u name value⟩
  | importGlobal t name =>
    exact ⟨Nat.le_of_eq (tables_size_importGlobal env t name).symm,
      fun u _ => root_importGlobal env t u name⟩

end Operation

/-- Where no table exists, only a global one can be made. -/
theorem Operation.eq_addGlobal {op : Operation} (hsize : env.tables.size = 0)
    (hgiven : ∀ t ∈ op.given, t.index < env.tables.size) : op = .addGlobal := by
  have hnone : op.given = [] := List.eq_nil_iff_forall_not_mem.mpr fun t ht =>
    Nat.not_lt_zero _ (hsize ▸ hgiven t ht)
  cases op with
  | addGlobal => rfl
  | _ => cases hnone

/-- The first table that is built is global. -/
theorem Built.global_first (h : Built env) (hsize : 0 < env.tables.size) :
    (env.table globalTable).root = none := by
  induction h with
  | empty => exact absurd hsize (Nat.lt_irrefl 0)
  | @perform env _ op hgiven ih =>
    by_cases hfirst : env.tables.size = 0
    · rw [Operation.eq_addGlobal hfirst hgiven]
      exact (sound_addGlobal hfirst).global
    · have hpos := Nat.pos_of_ne_zero hfirst
      rw [(op.keeps_tables env).2 globalTable hpos]
      exact ih hpos

/-- If there is one global table, it is the first. -/
theorem Built.eq_globalTable (h : Built env) (hroot : env.OneGlobal root) : root = globalTable := by
  have hsize : 0 < env.tables.size := Nat.zero_lt_of_lt hroot.exists_root
  refine Classical.byContradiction fun hne => ?_
  have hfirst := hroot.locals globalTable (Ne.symm hne) hsize
  rw [h.global_first hsize] at hfirst
  cases hfirst

/-! ### Operations keep environments sound -/

/-- A new table that takes bindings from an existing one. -/
theorem Sound.addInherited (h : env.Sound) (parent : TableRef) {bindings : Bindings}
    (hbindings : ∀ n x, Bindings.cell? bindings n = some x →
      Bindings.cell? (env.inherited parent) n = some x) :
    (env.addTable ⟨some globalTable, bindings⟩).2.Sound := by
  refine h.addTable (t := parent) fun n x hx => ?_
  have hinherited := hbindings n x hx
  rw [cell?_inherited] at hinherited
  split at hinherited
  · cases hinherited
  · exact hinherited

/-- A closure keeps an environment sound: it shares cells of its parent. -/
theorem Sound.addClosure (h : env.Sound) (parent : TableRef) (names : List String) :
    (env.addClosure globalTable parent names).2.Sound := by
  refine h.addInherited parent fun n x hx => ?_
  rw [Bindings.cell?_filter] at hx
  split at hx
  · exact hx
  · cases hx

/-- The global table to import from, for every table including the global one. -/
theorem Sound.root_getD (h : env.Sound) (ht : t.index < env.tables.size) :
    (env.table t).root.getD t = globalTable := by
  by_cases hne : t = globalTable
  · subst hne
    rw [h.global]
    rfl
  · rw [h.locals t hne ht]
    rfl

theorem Sound.importGlobal_of_bound (h : env.Sound) (ht : t.index < env.tables.size)
    (hx : env.ownCell? globalTable n = some x) : (env.importGlobal t n).2 = env.bind t n x := by
  unfold Env.importGlobal
  dsimp only
  rw [h.root_getD ht, hx]

/-- A global name that is not bound is bound to a new cell first. -/
theorem Sound.importGlobal_of_unbound (h : env.Sound) (ht : t.index < env.tables.size)
    (hx : env.ownCell? globalTable n = none) :
    (env.importGlobal t n).2 =
      (env.define globalTable n none).2.bind t n ⟨env.cells.size⟩ := by
  unfold Env.importGlobal
  dsimp only
  rw [h.root_getD ht, hx]
  rfl

theorem Sound.global_lt (h : env.Sound) : globalTable.index < env.tables.size :=
  h.nonempty

theorem Sound.ownCell?_define_root (h : env.Sound) (n : String) (value : Option Value) :
    (env.define globalTable n value).2.ownCell? globalTable n = some ⟨env.cells.size⟩ :=
  ownCell?_bind_self h.global_lt

theorem Sound.import (h : env.Sound) (ht : t.index < env.tables.size) (n : String) :
    (env.importGlobal t n).2.Sound := by
  cases hx : env.ownCell? globalTable n with
  | some x =>
    rw [h.importGlobal_of_bound ht hx]
    exact h.share ht hx
  | none =>
    rw [h.importGlobal_of_unbound ht hx]
    have ht' : t.index < (env.define globalTable n none).2.tables.size := by
      rw [tables_size_define]
      exact ht
    exact (h.define h.global_lt n none).share ht' (h.ownCell?_define_root n none)

/-- **Sequences of operations build sound environments**, if there is one global table. -/
theorem Built.sound (h : Built env) (hroot : env.OneGlobal root) : env.Sound := by
  induction h with
  | empty => exact absurd hroot.exists_root (Nat.not_lt_zero _)
  | @perform env h op hgiven ih =>
    obtain rfl := (h.perform op hgiven).eq_globalTable hroot
    obtain ⟨hsize, hkept⟩ := op.keeps_tables env
    by_cases hfirst : env.tables.size = 0
    · rw [Operation.eq_addGlobal hfirst hgiven]
      exact sound_addGlobal hfirst
    have hpos : globalTable.index < env.tables.size := Nat.pos_of_ne_zero hfirst
    have henv : env.Sound := ih
      { exists_root := hpos
        global := (hkept _ hpos).symm.trans hroot.global
        locals := fun t hne ht =>
          (hkept t ht).symm.trans (hroot.locals t hne (Nat.lt_of_lt_of_le ht hsize)) }
    -- A new table is not the first one, so it has to fall back on that.
    have hnew : ∀ table', (env.addTable table').2.OneGlobal globalTable →
        table'.root = some globalTable := fun table' hroot => by
      have hlocal := hroot.locals (env.addTable table').1
        (henv.ne_globalTable_of_le (Nat.le_refl _)) (by
          rw [tables_size_addTable]
          exact Nat.lt_succ_self _)
      rwa [table_addTable_new] at hlocal
    cases op with
    | addGlobal => cases hnew _ hroot
    | addChild root parent =>
      cases hnew _ hroot
      exact henv.addInherited parent fun _ _ hx => hx
    | addClosure root parent names =>
      cases hnew _ hroot
      exact henv.addClosure parent names
    | set t name value => exact henv.set (hgiven t (List.mem_singleton.mpr rfl)) name value
    | define t name value => exact henv.define (hgiven t (List.mem_singleton.mpr rfl)) name value
    | importGlobal t name => exact henv.import (hgiven t (List.mem_singleton.mpr rfl)) name

/-! ### Values in cells -/

theorem valueAt?_assign_self (hx : x.index < env.cells.size) (value : Option Value) :
    (env.assign x value).valueAt? x = value := by
  rw [valueAt?, assign, Array.getElem?_modify, if_pos rfl, Array.getElem?_eq_getElem hx]
  rfl

theorem valueAt?_define_new (env : Env) (t : TableRef) (n : String) (value : Option Value) :
    (env.define t n value).2.valueAt? ⟨env.cells.size⟩ = value := by
  show ((env.addCell n value).2.cells[env.cells.size]?).bind _ = _
  rw [cells_addCell, if_pos rfl]
  rfl

theorem Sound.cell?_lt (h : env.Sound) (hu : u.index < env.tables.size)
    (hx : env.cell? u m = some x) : x.index < env.cells.size := by
  rw [h.cell?_eq hu, Option.or_eq_some_iff] at hx
  rcases hx with hx | ⟨-, hx⟩ <;> exact h.cell_lt hx

/-- A lookup that finds the same cell finds the same value, if the cell has kept it. -/
theorem SameLookup.of_cell?_eq (hcell : later.cell? u m = env.cell? u m)
    (hvalue : ∀ x, env.cell? u m = some x → later.valueAt? x = env.valueAt? x) :
    env.SameLookup later u m := by
  refine ⟨hcell, ?_⟩
  unfold get?
  rw [hcell]
  cases hx : env.cell? u m with
  | none => rfl
  | some x => exact hvalue x hx

theorem get?_of_cell? (hx : env.cell? u m = some x) : env.get? u m = env.valueAt? x := by
  rw [get?, hx]
  rfl

theorem get?_of_no_cell (hx : env.cell? u m = none) : env.get? u m = none := by
  rw [get?, hx]
  rfl

/-! ### The effect of one operation -/

/-- A cell is seen to change wherever it is found. -/
theorem reassigns_assign (hx : x.index < env.cells.size) (value : Option Value) :
    env.Reassigns (env.assign x value) x value := by
  intro u m _
  refine ⟨fun hcell => ⟨hcell, ?_⟩, fun hcell => ?_⟩
  · have hlater : (env.assign x value).cell? u m = some x := hcell
    exact (get?_of_cell? hlater).trans (valueAt?_assign_self hx value)
  · refine .of_cell?_eq rfl fun y hy => valueAt?_assign_ne env value ?_
    rintro rfl
    exact hcell hy

namespace Sound

/-- What a lookup finds after a name has got a new cell in a table. -/
theorem cell?_define (h : env.Sound) (ht : t.index < env.tables.size)
    (hu : u.index < env.tables.size) (n m : String) (value : Option Value) :
    (env.SeesThrough globalTable t u n →
        (env.define t n value).2.cell? u n = some ⟨env.cells.size⟩) ∧
      (¬(m = n ∧ env.SeesThrough globalTable t u n) →
        (env.define t n value).2.cell? u m = env.cell? u m) := by
  have hu' : u.index < (env.define t n value).2.tables.size := by
    rw [tables_size_define]
    exact hu
  rw [(h.define ht n value).cell?_eq hu', (h.define ht n value).cell?_eq hu', h.cell?_eq hu]
  rw [ownCell?_define ht, ownCell?_define ht, ownCell?_define ht, ownCell?_define ht]
  constructor
  · rintro (rfl | ⟨rfl, hnone⟩)
    · rw [if_pos ⟨rfl, rfl⟩]
      rfl
    · by_cases hglobal : u = globalTable
      · rw [if_pos ⟨hglobal, rfl⟩]
        rfl
      · rw [if_neg fun heq => hglobal heq.1, if_pos ⟨rfl, rfl⟩, hnone]
        rfl
  · intro hother
    by_cases hm : m = n
    · subst hm
      have hnot : ¬env.SeesThrough globalTable t u m := fun hsees => hother ⟨rfl, hsees⟩
      have hne : u ≠ t := fun heq => hnot (.inl heq)
      rw [if_neg fun heq => hne heq.1]
      cases hown : env.ownCell? u m with
      | some y => rfl
      | none =>
        -- The table falls back on the global one, which is then not the one of the new cell.
        rw [if_neg fun heq => hnot (.inr ⟨heq.1.symm, hown⟩)]
    · rw [if_neg fun heq => hm heq.2, if_neg fun heq => hm heq.2]

/-- Defining a name binds it in one table, and the lookups that go through it see the new cell. -/
theorem rebinds_define (h : env.Sound) (ht : t.index < env.tables.size) (n : String)
    (value : Option Value) : env.Rebinds (env.define t n value).2 globalTable t n value := by
  intro u hu
  refine ⟨fun hsees => ?_, fun m hother => ?_⟩
  · have hcell := (h.cell?_define ht hu n n value).1 hsees
    exact ⟨hcell, (get?_of_cell? hcell).trans (valueAt?_define_new env t n value)⟩
  · exact .of_cell?_eq ((h.cell?_define ht hu n m value).2 hother) fun x hx =>
      valueAt?_define (h.cell?_lt hu hx) t n value

/-- Assigning to a name that a table has changes the value of its cell, which all that share it see.
-/
theorem reassigns_set (h : env.Sound) (hx : env.ownCell? t n = some x) (value : Option Value) :
    env.Reassigns (env.set t n value).2 x value := by
  unfold Env.set
  rw [hx]
  exact reassigns_assign (h.cell_lt hx) value

/-- Assigning to a name that a table does not have binds it there. -/
theorem rebinds_set (h : env.Sound) (ht : t.index < env.tables.size)
    (hx : env.ownCell? t n = none) (value : Option Value) :
    env.Rebinds (env.set t n value).2 globalTable t n value := by
  unfold Env.set
  rw [hx]
  exact h.rebinds_define ht n value

/-- Sharing a global cell that exists changes one lookup. -/
theorem cell?_share (h : env.Sound) (ht : t.index < env.tables.size)
    (hu : u.index < env.tables.size) (hx : env.ownCell? globalTable n = some x) (m : String) :
    (env.bind t n x).cell? u m = if u = t ∧ m = n then some x else env.cell? u m := by
  have hu' : u.index < (env.bind t n x).tables.size := by
    rw [tables_size_bind]
    exact hu
  -- In the global table the binding is the one that it has.
  have hglobal : (env.bind t n x).ownCell? globalTable m = env.ownCell? globalTable m := by
    by_cases hself : globalTable = t ∧ m = n
    · obtain ⟨rfl, rfl⟩ := hself
      rw [ownCell?_bind_self ht, hx]
    · exact ownCell?_bind_ne (Decidable.not_and_iff_or_not.mp hself)
  rw [(h.share ht hx).cell?_eq hu', h.cell?_eq hu, hglobal]
  split
  · rename_i hself
    obtain ⟨rfl, rfl⟩ := hself
    rw [ownCell?_bind_self ht]
    rfl
  · rename_i hother
    rw [ownCell?_bind_ne (Decidable.not_and_iff_or_not.mp hother)]

theorem cell?_globalTable (h : env.Sound) (n : String) :
    env.cell? globalTable n = env.ownCell? globalTable n := by
  rw [h.cell?_eq (t := globalTable) h.global_lt, Option.or_self]

/-- Importing a bound name makes its cell seen in the table. -/
theorem importsOne_of_bound (h : env.Sound) (ht : t.index < env.tables.size)
    (hx : env.ownCell? globalTable n = some x) : env.ImportsOne (env.bind t n x) globalTable t n := by
  have hroot : (env.bind t n x).cell? globalTable n = some x := by
    rw [h.cell?_share ht h.global_lt hx]
    split
    · rfl
    · rw [h.cell?_globalTable, hx]
  have hself : (env.bind t n x).cell? t n = some x := by
    rw [h.cell?_share ht ht hx, if_pos ⟨rfl, rfl⟩]
  refine ⟨hself.trans hroot.symm, ?_, fun y hy => ?_, fun u m hu hother => ?_⟩
  · rw [get?_of_cell? hself, get?_of_cell? ((h.cell?_globalTable n).trans hx)]
    rfl
  · rw [hroot, ← hx, ← h.cell?_globalTable, hy]
  · have hcell : (env.bind t n x).cell? u m = env.cell? u m := by
      rw [h.cell?_share ht hu hx, if_neg hother]
    exact ⟨(SameLookup.of_cell?_eq hcell fun _ _ => rfl).2, .inl hcell⟩

/-- A name without a global cell gets one first, which changes no value. -/
theorem importsOne (h : env.Sound) (ht : t.index < env.tables.size) (n : String) :
    env.ImportsOne (env.importGlobal t n).2 globalTable t n := by
  cases hx : env.ownCell? globalTable n with
  | some x =>
    rw [h.importGlobal_of_bound ht hx]
    exact h.importsOne_of_bound ht hx
  | none =>
    rw [h.importGlobal_of_unbound ht hx]
    let mid := (env.define globalTable n none).2
    have hsize : mid.tables.size = env.tables.size := tables_size_define env globalTable n none
    have hrebinds : env.Rebinds mid globalTable globalTable n none :=
      h.rebinds_define h.global_lt n none
    obtain ⟨hcell, hvalue, -, hothers⟩ := (h.define h.global_lt n none).importsOne_of_bound
      (t := t) (hsize ▸ ht) (h.ownCell?_define_root n none)
    have habsent : env.cell? globalTable n = none := (h.cell?_globalTable n).trans hx
    refine ⟨hcell, ?_, fun y hy => ?_, fun u m hu hother => ?_⟩
    · rw [hvalue, get?_of_no_cell habsent]
      exact ((hrebinds globalTable h.global_lt).1 (.inl rfl)).2
    · cases habsent.symm.trans hy
    obtain ⟨hget, hsame⟩ := hothers u m (hsize ▸ hu) hother
    -- The global cell exists by now, so that sharing it changes no other lookup.
    have hsame := hsame.resolve_right fun hnew => by
      have hbound := ((hrebinds globalTable h.global_lt).1 (.inl rfl)).1
      rw [hnew.2.1] at hbound
      cases hbound
    by_cases hsees : m = n ∧ env.SeesThrough globalTable globalTable u n
    · obtain ⟨rfl, hsees⟩ := hsees
      obtain ⟨hfound, hnone⟩ := (hrebinds u hu).1 hsees
      have hown : env.ownCell? u m = none := by
        rcases hsees with rfl | ⟨-, hown⟩
        · exact hx
        · exact hown
      have hmissing : env.cell? u m = none := by
        rw [h.cell?_eq hu, hown, hx]
        rfl
      refine ⟨?_, .inr ⟨rfl, habsent, hmissing, hsame.trans hfound, hget.trans hnone⟩⟩
      rw [hget, hnone, get?_of_no_cell hmissing]
    · obtain ⟨hcell', hget'⟩ := (hrebinds u hu).2 m hsees
      exact ⟨hget.trans hget', .inl (hsame.trans hcell')⟩

/-- A global lookup sees an assignment in another table only through a shared cell. -/
theorem shared_of_seen (h : env.Sound) (ht : t.index < env.tables.size) (hne : t ≠ globalTable)
    (hseen : ¬env.SameLookup (env.set t n value).2 globalTable m) :
    m = n ∧ ∃ x, env.ownCell? t n = some x ∧ env.ownCell? globalTable n = some x := by
  cases hx : env.ownCell? t n with
  | none =>
    refine absurd ((h.rebinds_set ht hx value globalTable h.global_lt).2 m ?_) hseen
    rintro ⟨-, heq | ⟨heq, -⟩⟩
    · exact hne heq.symm
    · exact hne heq
  | some x =>
    by_cases hfound : env.cell? globalTable m = some x
    · rw [h.cell?_globalTable] at hfound
      obtain rfl := h.name_unique hfound hx
      exact ⟨rfl, x, rfl, hfound⟩
    · exact absurd ((h.reassigns_set hx value globalTable m h.global_lt).2 hfound) hseen

end Sound

/-- **Shared cells decide what is visible.** However an environment with one global table has been
built, cells carry the names under which they are stored, and an operation changes lookups as
follows, through all tables and of all names, and no others:

- setting a name that a table binds itself changes the value wherever its cell is found;
- setting any other name, and defining a name, changes what the table finds for it, and if it is the
  global one what those find that do not bind the name themselves;
- importing a name changes what the table finds for it; a name without a global cell gets an unset
  one.

What is set through another table is seen by the global one only if both share the cell. -/
theorem shared_cells_decide_visibility {env : Env} {root : TableRef} (h : env.Built)
    (hroot : env.OneGlobal root) : env.DecidedBySharing root := by
  have henv := h.sound hroot
  obtain rfl := h.eq_globalTable hroot
  exact
    { named := henv.named
      setOwn := fun t n value x _ hx => henv.reassigns_set hx value
      setNew := fun t n value ht hx => henv.rebinds_set ht hx value
      define := fun t n value ht => henv.rebinds_define ht n value
      importGlobal := fun t n ht => henv.importsOne ht n
      seenByRoot := fun t n value ht hne m hseen => henv.shared_of_seen ht hne hseen }

/-- A global variable, a child that shares it and has a variable of its own, and a closure that
takes both from the child. -/
def closureOfChild : Env :=
  [.addGlobal, .set ⟨0⟩ "a" (some (.boolean true)), .addChild ⟨0⟩ ⟨0⟩, .importGlobal ⟨1⟩ "a",
    .define ⟨1⟩ "b" none, .addClosure ⟨0⟩ ⟨1⟩ ["a", "b"]].foldl Operation.perform {}

/-- With a cell that three tables share. -/
theorem shared_cells_decide_visibility_closure :
    Built closureOfChild ∧ closureOfChild.OneGlobal ⟨0⟩ ∧ closureOfChild.DecidedBySharing ⟨0⟩ := by
  have hglobal := Built.empty.perform .addGlobal (by decide)
  have hset := hglobal.perform (.set ⟨0⟩ "a" (some (.boolean true))) (by decide +kernel)
  have hchild := hset.perform (.addChild ⟨0⟩ ⟨0⟩) (by decide +kernel)
  have hshared := hchild.perform (.importGlobal ⟨1⟩ "a") (by decide +kernel)
  have hdefined := hshared.perform (.define ⟨1⟩ "b" none) (by decide +kernel)
  have hbuilt : Built closureOfChild :=
    hdefined.perform (.addClosure ⟨0⟩ ⟨1⟩ ["a", "b"]) (by decide +kernel)
  have hlocals : ∀ i < closureOfChild.tables.size, i ≠ 0 →
      (closureOfChild.table ⟨i⟩).root = some ⟨0⟩ := by
    decide +kernel
  have hroot : closureOfChild.OneGlobal ⟨0⟩ :=
    { exists_root := by decide +kernel
      global := by decide +kernel
      locals := fun t hne ht => hlocals t.index ht fun hzero => hne (congrArg TableRef.mk hzero) }
  exact ⟨hbuilt, hroot, shared_cells_decide_visibility hbuilt hroot⟩

end Env

end DecimalScript
