import DecimalScript.Env.Basic
import DecimalScript.Proofs.FreeNames

/-!
# Lookups after updates of tables

How the cell that a table binds a name to responds to binding a name and to adding a table: one
equation for each update, so that nothing later looks into bindings. Then two environments that hold
the same cells and agree on a lookup: the updates keep the agreement, and both sides reach it where
they bind the same name to the same cell.
-/

namespace DecimalScript

namespace Bindings

theorem cell?_bind_self (name : String) (cell : CellRef) :
    ∀ bs : Bindings, cell? (bind name cell bs) name = some cell
  | [] => by simp [bind, cell?]
  | b :: bs => by
    unfold bind
    split
    · simp [cell?]
    · rename_i h
      have hne : (name == b.1) = false := by
        rw [beq_eq_false_iff_ne]
        rintro rfl
        exact h (beq_self_eq_true _)
      rw [cell?, List.lookup_cons, hne]
      exact cell?_bind_self name cell bs

theorem cell?_bind_ne {name x : String} (cell : CellRef) (hx : x ≠ name) :
    ∀ bs : Bindings, cell? (bind name cell bs) x = cell? bs x
  | [] => by simp [bind, cell?, hx]
  | b :: bs => by
    have hxn : (x == name) = false := by simpa using hx
    unfold bind
    split
    · rename_i h
      have hxb : (x == b.1) = false := by simpa [beq_iff_eq.mp h] using hx
      rw [cell?, cell?, List.lookup_cons, List.lookup_cons, hxn, hxb]
    · rw [cell?, cell?, List.lookup_cons, List.lookup_cons]
      cases hxb : x == b.1
      · exact cell?_bind_ne cell hx bs
      · rfl

/-- Leaving names out leaves the others as they are. -/
theorem cell?_filter (names : List String) (x : String) :
    ∀ bs : Bindings, cell? (bs.filter fun b => names.contains b.1) x =
      if x ∈ names then cell? bs x else none
  | [] => by simp [cell?]
  | b :: bs => by
    have ih := cell?_filter names x bs
    -- The filter keeps or drops this binding; a dropped one is not the one looked up when `x` is
    -- among the names.
    by_cases hb : b.1 ∈ names
    · rw [List.filter_cons_of_pos (by simpa using hb), cell?, List.lookup_cons, cell?,
        List.lookup_cons]
      cases hxb : x == b.1
      · exact ih
      · have hx : x ∈ names := beq_iff_eq.mp hxb ▸ hb
        rw [if_pos hx]
    · rw [List.filter_cons_of_neg (by simpa using hb), ih]
      by_cases hx : x ∈ names
      · have hxb : (x == b.1) = false := by
          simp only [beq_eq_false_iff_ne]
          rintro rfl
          exact hb hx
        rw [if_pos hx, if_pos hx, cell?, cell?, List.lookup_cons, hxb]
      · rw [if_neg hx, if_neg hx]

/-- A name with a cell is among the names. -/
theorem mem_names_of_cell? {x : String} {cell : CellRef} :
    ∀ {bs : Bindings}, cell? bs x = some cell → x ∈ bs.map (·.1)
  | [], h => by cases h
  | b :: bs, h => by
    rw [cell?, List.lookup_cons] at h
    cases hxb : x == b.1 with
    | true => simp [beq_iff_eq.mp hxb]
    | false =>
      rw [hxb] at h
      exact List.mem_cons_of_mem _ (mem_names_of_cell? h)

end Bindings

namespace Env

variable {env env' : Env} {t u : TableRef} {name x : String} {cell : CellRef}

theorem mem_names_of_ownCell? (h : env.ownCell? t name = some cell) : name ∈ env.names t :=
  Names.mem_ofList.mpr (Bindings.mem_names_of_cell? h)

/-! ### Binding a name -/

theorem table_bind_self (h : t.index < env.tables.size) :
    (env.bind t name cell).table t =
      { env.table t with bindings := Bindings.bind name cell (env.table t).bindings } := by
  simp [table, bind, Array.getD_eq_getD_getElem?, Array.getElem_modify, h]

theorem table_bind_ne (h : u ≠ t) : (env.bind t name cell).table u = env.table u := by
  have hindex : t.index ≠ u.index := fun he => h (by cases t; cases u; cases he; rfl)
  simp [table, bind, Array.getD_eq_getD_getElem?, Array.getElem?_modify, hindex]

theorem tables_size_bind : (env.bind t name cell).tables.size = env.tables.size := by
  simp [bind]

theorem root_bind : ((env.bind t name cell).table u).root = (env.table u).root := by
  by_cases hu : u = t
  · subst hu
    by_cases h : u.index < env.tables.size
    · rw [table_bind_self h]
    · simp [table, bind, Array.getD_eq_getD_getElem?, h]
  · rw [table_bind_ne hu]

theorem ownCell?_bind_self (h : t.index < env.tables.size) :
    (env.bind t name cell).ownCell? t name = some cell := by
  rw [ownCell?, table_bind_self h]
  exact Bindings.cell?_bind_self name cell _

/-- Other names, and names of other tables, keep their cells. -/
theorem ownCell?_bind_ne (h : u ≠ t ∨ x ≠ name) :
    (env.bind t name cell).ownCell? u x = env.ownCell? u x := by
  by_cases hu : u = t
  · subst hu
    have hx := h.resolve_left (fun hne => hne rfl)
    by_cases hin : u.index < env.tables.size
    · rw [ownCell?, table_bind_self hin]
      exact Bindings.cell?_bind_ne cell hx _
    · simp [ownCell?, table, bind, Array.getD_eq_getD_getElem?, hin]
  · rw [ownCell?, table_bind_ne hu]
    rfl

/-! ### Adding a table -/

/-- A new table is behind the others. -/
theorem table_addTable (table' : Table) :
    (env.addTable table').2.table t = if t.index = env.tables.size then table' else env.table t := by
  unfold addTable table
  rw [Array.getD_eq_getD_getElem?, Array.getD_eq_getD_getElem?, Array.getElem?_push]
  split <;> rfl

theorem table_addTable_new (table' : Table) :
    (env.addTable table').2.table (env.addTable table').1 = table' := by
  rw [table_addTable]
  exact if_pos rfl

theorem table_addTable_old {table' : Table} (h : t.index < env.tables.size) :
    (env.addTable table').2.table t = env.table t := by
  rw [table_addTable]
  exact if_neg (Nat.ne_of_lt h)

theorem tables_size_addTable (table' : Table) :
    (env.addTable table').2.tables.size = env.tables.size + 1 := by
  simp [addTable]

/-! ### Importing a global name -/

/-- A global name that is bound is imported by sharing its cell. -/
theorem importGlobal_bound {r : TableRef} (hroot : (env.table t).root = some r)
    (h : env.ownCell? r name = some cell) :
    (env.importGlobal t name).2 = env.bind t name cell := by
  simp [importGlobal, hroot, h]

/-- A global name that is not bound is given a cell first, which holds nothing. -/
theorem importGlobal_unbound {r : TableRef} (hroot : (env.table t).root = some r)
    (h : env.ownCell? r name = none) :
    (env.importGlobal t name).2 =
      (env.define r name none).2.bind t name (env.define r name none).1 := by
  simp [importGlobal, hroot, h]

/-- Only the root of a table says whether it is the global one. -/
theorem isGlobal_eq_of_root (h : (env.table t).root = (env'.table t).root) :
    env.isGlobal t = env'.isGlobal t := by
  rw [isGlobal, isGlobal, h]

/-! ### Two environments that agree on lookups -/

/-- Both environments bind the name to the same cell in the table, or both do not bind it. -/
def Agree (env env' : Env) (t : TableRef) (name : String) : Prop :=
  env.ownCell? t name = env'.ownCell? t name

/-- Two environments with the same cells, in which the same tables fall back on the same global
table and the global tables agree. What the other tables bind may differ. -/
structure Twins (env env' : Env) : Prop where
  cells : env.cells = env'.cells
  size : env.tables.size = env'.tables.size
  roots : ∀ t, (env.table t).root = (env'.table t).root
  root : ∀ t r, (env.table t).root = some r → r = ⟨0⟩
  nonempty : 0 < env.tables.size
  isGlobal : ∀ t, t.index < env.tables.size → (env.isGlobal t = true ↔ t = ⟨0⟩)
  global : ∀ name, env.Agree env' ⟨0⟩ name

/-- Later environments have more tables, and agree wherever the earlier ones agreed. -/
structure Grows (env env' later later' : Env) : Prop where
  size : env.tables.size ≤ later.tables.size
  agree : ∀ t name, t.index < env.tables.size → env.Agree env' t name → later.Agree later' t name

theorem Grows.refl (env env' : Env) : Grows env env' env env' :=
  ⟨Nat.le_refl _, fun _ _ _ h => h⟩

theorem Grows.trans {e₁ e₁' e₂ e₂' e₃ e₃' : Env} (h : Grows e₁ e₁' e₂ e₂')
    (h' : Grows e₂ e₂' e₃ e₃') : Grows e₁ e₁' e₃ e₃' :=
  ⟨Nat.le_trans h.size h'.size, fun t name ht hagree =>
    h'.agree t name (Nat.lt_of_lt_of_le ht h.size) (h.agree t name ht hagree)⟩

/-- One or more updates of both sides. -/
structure Steps (env env' later later' : Env) : Prop where
  twins : Twins later later'
  grows : Grows env env' later later'

theorem Steps.trans {e₁ e₁' e₂ e₂' e₃ e₃' : Env} (h : Steps e₁ e₁' e₂ e₂')
    (h' : Steps e₂ e₂' e₃ e₃') : Steps e₁ e₁' e₃ e₃' :=
  ⟨h'.twins, h.grows.trans h'.grows⟩

namespace Twins

/-- A name that the two environments agree on has the same value in both. -/
theorem get?_eq (h : Twins env env') (hagree : env.Agree env' t name) :
    env.get? t name = env'.get? t name := by
  have hcell : env.cell? t name = env'.cell? t name := by
    unfold cell?
    rw [hagree, ← h.roots t]
    cases env'.ownCell? t name with
    | some cell => rfl
    | none =>
      cases hroot : (env.table t).root with
      | none => rfl
      | some r =>
        rw [h.root t r hroot]
        exact h.global name
  unfold get?
  rw [hcell]
  unfold valueAt?
  rw [h.cells]

/-- Binding a name to one cell on both sides makes them agree on it. -/
theorem bind (h : Twins env env') (t : TableRef) (name : String) (cell : CellRef) :
    Steps env env' (env.bind t name cell) (env'.bind t name cell) ∧
      (t.index < env.tables.size →
        (env.bind t name cell).Agree (env'.bind t name cell) t name) := by
  have hself : t.index < env.tables.size →
      (env.bind t name cell).Agree (env'.bind t name cell) t name := fun ht => by
    rw [Agree, ownCell?_bind_self ht, ownCell?_bind_self (h.size ▸ ht)]
  have hagree : ∀ u x, u.index < env.tables.size → env.Agree env' u x →
      (env.bind t name cell).Agree (env'.bind t name cell) u x := by
    intro u x hu hux
    -- Only the binding written changes, and both environments write the same cell there.
    by_cases htx : u = t ∧ x = name
    · obtain ⟨rfl, rfl⟩ := htx
      exact hself hu
    · have hne : u ≠ t ∨ x ≠ name := Decidable.not_and_iff_or_not.mp htx
      rw [Agree, ownCell?_bind_ne hne, ownCell?_bind_ne hne]
      exact hux
  refine ⟨⟨?_, Nat.le_of_eq tables_size_bind.symm, hagree⟩, hself⟩
  exact
    { cells := h.cells
      size := by rw [tables_size_bind, tables_size_bind, h.size]
      roots := fun u => by rw [root_bind, root_bind, h.roots u]
      root := fun u r hr => h.root u r (root_bind ▸ hr)
      nonempty := by rw [tables_size_bind]; exact h.nonempty
      isGlobal := fun u hu => by
        rw [Env.isGlobal, root_bind]
        exact h.isGlobal u (tables_size_bind ▸ hu)
      global := fun x => hagree ⟨0⟩ x h.nonempty (h.global x) }

/-- Environments with as many cells give new ones the same reference. -/
theorem addCell (h : Twins env env') (name : String) (value : Option Value) :
    (env.addCell name value).1 = (env'.addCell name value).1 ∧
      Steps env env' (env.addCell name value).2 (env'.addCell name value).2 := by
  have hcells := h.cells
  refine ⟨by rw [Env.addCell, Env.addCell, hcells], ⟨?_, Nat.le_refl _, fun _ _ _ hagree => hagree⟩⟩
  exact { h with cells := by rw [Env.addCell, Env.addCell, hcells] }

/-- Twins stay twins when they assign to a cell alike. -/
theorem assign (h : Twins env env') (cell : CellRef) (value : Option Value) :
    Steps env env' (env.assign cell value) (env'.assign cell value) := by
  have hcells := h.cells
  refine ⟨?_, Nat.le_refl _, fun _ _ _ hagree => hagree⟩
  exact { h with cells := by rw [Env.assign, Env.assign, hcells] }

/-- Twins stay twins when they bind a name alike, and agree on it from then on. -/
theorem define (h : Twins env env') (t : TableRef) (name : String) (value : Option Value) :
    (env.define t name value).1 = (env'.define t name value).1 ∧
      Steps env env' (env.define t name value).2 (env'.define t name value).2 ∧
      (t.index < env.tables.size →
        (env.define t name value).2.Agree (env'.define t name value).2 t name) := by
  obtain ⟨hcell, hsteps⟩ := h.addCell name value
  obtain ⟨hbind, hagree⟩ := hsteps.twins.bind t name (env.addCell name value).1
  have hright : (env'.define t name value).2 =
      (env'.addCell name value).2.bind t name (env.addCell name value).1 := by
    rw [hcell]
    rfl
  rw [hright]
  exact ⟨hcell, hsteps.trans hbind, hagree⟩

/-- Assigning to a name that both sides agree on does the same to both. -/
theorem set (h : Twins env env') (hagree : env.Agree env' t name) (value : Option Value) :
    Steps env env' (env.set t name value).2 (env'.set t name value).2 := by
  unfold Env.set
  rw [← hagree]
  cases env.ownCell? t name with
  | some cell => exact h.assign cell value
  | none => exact (h.define t name value).2.1

/-- The global tables agree, so importing a name makes both sides agree on it. -/
theorem importGlobal (h : Twins env env') (ht : t.index < env.tables.size)
    (hlocal : env.isGlobal t = false) (name : String) :
    Steps env env' (env.importGlobal t name).2 (env'.importGlobal t name).2 ∧
      (env.importGlobal t name).2.Agree (env'.importGlobal t name).2 t name := by
  obtain ⟨r, hr⟩ : ∃ r, (env.table t).root = some r := by
    rw [Env.isGlobal] at hlocal
    exact Option.isSome_iff_exists.mp (by simpa using hlocal)
  obtain rfl := h.root t r hr
  have hr' : (env'.table t).root = some ⟨0⟩ := h.roots t ▸ hr
  cases hcell : env.ownCell? ⟨0⟩ name with
  | some cell =>
    have hcell' : env'.ownCell? ⟨0⟩ name = some cell := h.global name ▸ hcell
    rw [importGlobal_bound hr hcell, importGlobal_bound hr' hcell']
    obtain ⟨hsteps, hagree⟩ := h.bind t name cell
    exact ⟨hsteps, hagree ht⟩
  | none =>
    have hcell' : env'.ownCell? ⟨0⟩ name = none := h.global name ▸ hcell
    rw [importGlobal_unbound hr hcell, importGlobal_unbound hr' hcell']
    obtain ⟨hnew, hdefine, -⟩ := h.define ⟨0⟩ name none
    obtain ⟨hsteps, hagree⟩ := hdefine.twins.bind t name (env.define ⟨0⟩ name none).1
    rw [← hnew]
    exact ⟨hdefine.trans hsteps, hagree (Nat.lt_of_lt_of_le ht hdefine.grows.size)⟩

/-- A new table on both sides; what the two new tables bind may differ. -/
theorem addTable (h : Twins env env') (bindings bindings' : Bindings) :
    (env.addTable ⟨some ⟨0⟩, bindings⟩).1 = (env'.addTable ⟨some ⟨0⟩, bindings'⟩).1 ∧
      Steps env env' (env.addTable ⟨some ⟨0⟩, bindings⟩).2
        (env'.addTable ⟨some ⟨0⟩, bindings'⟩).2 := by
  have hsize := h.size
  have hagree : ∀ t name, t.index < env.tables.size → env.Agree env' t name →
      (env.addTable ⟨some ⟨0⟩, bindings⟩).2.Agree (env'.addTable ⟨some ⟨0⟩, bindings'⟩).2 t
        name := by
    intro t name ht hagree
    rw [Agree, ownCell?, ownCell?, table_addTable_old ht, table_addTable_old (hsize ▸ ht)]
    exact hagree
  refine ⟨by rw [Env.addTable, Env.addTable, hsize], ?_, ?_, hagree⟩
  · exact
      { cells := h.cells
        size := by rw [tables_size_addTable, tables_size_addTable, hsize]
        roots := fun t => by
          rw [table_addTable, table_addTable, ← hsize]
          split
          · rfl
          · exact h.roots t
        root := fun t r hr => by
          rw [table_addTable] at hr
          split at hr
          · exact (Option.some.inj hr).symm
          · exact h.root t r hr
        nonempty := by
          rw [tables_size_addTable]
          exact Nat.succ_pos _
        isGlobal := fun t ht => by
          rw [Env.isGlobal, table_addTable]
          split
          · rename_i hnew
            constructor
            · intro hr
              cases hr
            rintro rfl
            exact absurd hnew (Nat.ne_of_lt h.nonempty)
          · rename_i hold
            rw [tables_size_addTable] at ht
            exact h.isGlobal t (Nat.lt_of_le_of_ne (Nat.le_of_lt_succ ht) hold)
        global := fun name => hagree ⟨0⟩ name h.nonempty (h.global name) }
  · rw [tables_size_addTable]
    exact Nat.le_succ _

/-- The new tables agree on a name if their bindings do. -/
theorem agree_addTable (h : Twins env env') {bindings bindings' : Bindings}
    (hcell : Bindings.cell? bindings name = Bindings.cell? bindings' name) :
    (env.addTable ⟨some ⟨0⟩, bindings⟩).2.Agree (env'.addTable ⟨some ⟨0⟩, bindings'⟩).2
      (env.addTable ⟨some ⟨0⟩, bindings⟩).1 name := by
  rw [Agree, ownCell?, ownCell?, table_addTable_new, (h.addTable bindings bindings').1,
    table_addTable_new]
  exact hcell

/-- A new table is not the global one. -/
theorem addTable_ne_global (h : Twins env env') (table' : Table) :
    (env.addTable table').1 ≠ ⟨0⟩ := by
  intro hzero
  have hindex : env.tables.size = 0 := congrArg TableRef.index hzero
  have hpos := h.nonempty
  omega

theorem addTable_index_lt (env : Env) (table' : Table) :
    (env.addTable table').1.index < (env.addTable table').2.tables.size := by
  rw [tables_size_addTable]
  exact Nat.lt_succ_self _

/-- Where two environments agree, tables pass on the same binding. -/
theorem cell?_inherited (h : Twins env env') (hagree : env.Agree env' t name) :
    Bindings.cell? (env.inherited t) name = Bindings.cell? (env'.inherited t) name := by
  unfold inherited
  rw [isGlobal_eq_of_root (h.roots t)]
  split
  · rfl
  · exact hagree

/-- A choice of names loses nothing of a name that is chosen whenever the table binds it. -/
theorem cell?_chosen (h : Twins env env') (hagree : env.Agree env' t name) {names : List String}
    (hname : env.isGlobal t = false → name ∈ env.names t → name ∈ names) :
    Bindings.cell? ((env.inherited t).filter fun b => names.contains b.1) name =
      Bindings.cell? (env'.inherited t) name := by
  rw [Bindings.cell?_filter, ← h.cell?_inherited hagree]
  by_cases hn : name ∈ names
  · rw [if_pos hn]
  · rw [if_neg hn]
    unfold inherited
    cases hglobal : env.isGlobal t with
    | true => rfl
    | false =>
      cases hcell : env.ownCell? t name with
      | none => exact hcell.symm
      | some cell => exact absurd (hname hglobal (mem_names_of_ownCell? hcell)) hn

end Twins

end Env

end DecimalScript
