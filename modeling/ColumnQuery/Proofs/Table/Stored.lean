/-
  Tables as they are stored.

  A stored table keeps its names, its columns, an index of the positions of the names and the
  number of its rows beside each other, and edits change one after the other in place
  (`StoredTable.Change`): a refusal does not undo what was changed before it. A stored table stands
  for a `Table` (`Stores`) if names and columns are those of the table and the index finds what the
  table finds. Every edit leaves a stored table that stands for what it gives on tables, with the
  same refusals (`Agrees`), and so does every way to build one (`Builds`). So a stored table that
  is reached by any operations has its three parts in step, and a refused edit has changed none of
  them (`consistent_of_reached`).
-/
import ColumnQuery.Proofs.Table.Made

namespace ColumnQuery

open Table (Edit)

/-- Names and columns beside each other, the positions of the names, and the number of rows. -/
structure StoredTable where
  names : List String
  columns : List Column
  index : Std.HashMap String Nat
  rows : Nat

namespace StoredTable

/-! ## Operations -/

/-- A change in place, which may be refused on the way. -/
abbrev Change := ExceptT TableError (StateM StoredTable) Unit

/-- What comes of a change, and the table as the change leaves it. -/
def apply (s : StoredTable) (change : Change) : Except TableError Unit × StoredTable :=
  (ExceptT.run change).run s

/-- What a table becomes, unless one of its changes is refused. -/
def build (s : StoredTable) (change : Change) : Except TableError StoredTable :=
  (s.apply change).1.map fun _ => (s.apply change).2

def withRows (n : Nat) : StoredTable := ⟨[], [], ∅, n⟩

def empty : StoredTable := withRows 0

/-- The column at the position that the index has for the name. -/
def column? (s : StoredTable) (name : String) : Option Column := s.index[name]?.bind (s.columns[·]?)

def checkLength (name : String) (c : Column) : Change := do
  let s ← get
  if !s.columns.isEmpty && c.length != s.rows then throw (.lengthMismatch name s.rows c.length)

def add (name : String) (c : Column) : Change := do
  if (← get).index.contains name then throw (.duplicateColumn name)
  checkLength name c
  if (← get).columns.isEmpty then modify fun s => { s with rows := c.length }
  modify fun s => { s with index := s.index.insert name s.columns.length }
  modify fun s => { s with names := s.names ++ [name] }
  modify fun s => { s with columns := s.columns ++ [c] }

def set (name : String) (c : Column) : Change := do
  match (← get).index[name]? with
  | some i =>
    if (← get).columns.length = 1 then modify fun s => { s with rows := c.length }
    else checkLength name c
    modify fun s => { s with columns := s.columns.set i c }
  | none => add name c

def addAll (columns : List (String × Column)) : Change := columns.forM fun e => add e.1 e.2

def ofColumns (columns : List (String × Column)) : Except TableError StoredTable :=
  empty.build (addAll columns)

def ofValues (columns : List (String × List Value)) : Except TableError StoredTable :=
  ofColumns (columns.map fun e => (e.1, Column.ofValues e.2))

/-- The table of a builder, column by column. -/
def ofBuilder (b : TableBuilder) : Except TableError StoredTable :=
  (withRows b.rows.length).build (b.schema.zipIdx.forM fun e =>
    add e.1.1 (e.1.2.encode (b.cellsAt e.2)))

/-- The columns named first in the pairs, under the names that stand second. -/
def project (s : StoredTable) (columns : List (String × String)) :
    Except TableError StoredTable :=
  (withRows s.rows).build (columns.forM fun e =>
    match s.column? e.1 with
    | some c => add e.2 c
    | none => throw (.unknownColumn e.1))

/-- Copies the listed rows of every column; none if a row lies outside. -/
def take? (s : StoredTable) (rows : List Nat) : Option StoredTable :=
  (s.columns.mapM (Column.take? · rows)).map fun columns => ⟨s.names, columns, s.index, rows.length⟩

/-- An edit in place. -/
def change : Edit → Change
  | .add name c => add name c
  | .set name c => set name c

/-! ## What a change does -/

variable {s u : StoredTable} {name : String} {c : Column}

@[simp] theorem apply_get (s : StoredTable) (f : StoredTable → Change) :
    s.apply (get >>= f) = s.apply (f s) := rfl

@[simp] theorem apply_throw (s : StoredTable) (e : TableError) :
    s.apply (throw e) = (.error e, s) := rfl

@[simp] theorem apply_pure (s : StoredTable) : s.apply (pure ()) = (.ok (), s) := rfl

@[simp] theorem apply_modify (s : StoredTable) (f : StoredTable → StoredTable) :
    s.apply (modify f) = (.ok (), f s) := rfl

/-- What follows a change is done unless the change is refused. -/
theorem apply_bind (s : StoredTable) (change : Change) (next : Unit → Change) :
    s.apply (change >>= next) =
      if (s.apply change).1 = .ok () then (s.apply change).2.apply (next ())
      else s.apply change := by
  rcases h : s.apply change with ⟨e | ⟨⟩, u⟩
  · have hrun : StateT.run (ExceptT.run change) s = (.error e, u) := h
    simp only [apply, ExceptT.run_bind, StateT.run_bind, hrun, reduceCtorEq, if_false]
    rfl
  · have hrun : StateT.run (ExceptT.run change) s = (.ok (), u) := h
    simp only [apply, ExceptT.run_bind, StateT.run_bind, hrun, if_true]
    rfl

theorem apply_checkLength (s : StoredTable) (name : String) (c : Column) :
    s.apply (checkLength name c) =
      if s.columns ≠ [] ∧ c.length ≠ s.rows then (.error (.lengthMismatch name s.rows c.length), s)
      else (.ok (), s) := by
  rw [checkLength, apply_get]
  by_cases h : s.columns ≠ [] ∧ c.length ≠ s.rows
  · have hcheck : (!s.columns.isEmpty && c.length != s.rows) = true := by simpa using h
    rw [if_pos h, if_pos hcheck, apply_throw]
  · have hcheck : ¬ (!s.columns.isEmpty && c.length != s.rows) = true := by simpa using h
    rw [if_neg h, if_neg hcheck, apply_pure]

theorem apply_add (s : StoredTable) (name : String) (c : Column) :
    s.apply (add name c) =
      if s.index.contains name then (.error (.duplicateColumn name), s)
      else if s.columns ≠ [] ∧ c.length ≠ s.rows then
        (.error (.lengthMismatch name s.rows c.length), s)
      else (.ok (), ⟨s.names ++ [name], s.columns ++ [c], s.index.insert name s.columns.length,
        if s.columns = [] then c.length else s.rows⟩) := by
  rw [add, apply_get]
  dsimp only
  split
  next => simp only [apply_bind, apply_throw, reduceCtorEq, if_false]
  simp only [apply_bind, apply_checkLength]
  split
  next => simp only [reduceCtorEq, if_false]
  simp only [if_true, apply_get, List.isEmpty_iff]
  split
  next => simp only [apply_bind, apply_modify, if_true]
  next => simp only [apply_bind, apply_modify, if_true]

theorem apply_set_none (h : s.index[name]? = none) (c : Column) :
    s.apply (set name c) = s.apply (add name c) := by
  rw [set, apply_get, h]

theorem apply_set_some {i : Nat} (h : s.index[name]? = some i) (c : Column) :
    s.apply (set name c) =
      if s.columns.length = 1 then
        (.ok (), { s with columns := s.columns.set i c, rows := c.length })
      else if s.columns ≠ [] ∧ c.length ≠ s.rows then
        (.error (.lengthMismatch name s.rows c.length), s)
      else (.ok (), { s with columns := s.columns.set i c }) := by
  rw [set, apply_get, h]
  dsimp only
  rw [apply_get]
  split
  next => simp only [apply_bind, apply_modify, if_true]
  simp only [apply_bind, apply_checkLength]
  split
  next => simp only [reduceCtorEq, if_false]
  next => simp only [apply_modify, if_true]

/-! ## Standing for a table -/

variable {t : Table}

/-- The parts are those of the table, and the index finds what the table finds. -/
structure Stores (s : StoredTable) (t : Table) : Prop where
  nodup : t.names.Nodup
  names : s.names = t.names
  columns : s.columns = t.columns.map (·.2)
  index : ∀ name, s.index[name]? = t.indexOf? name
  rows : s.rows = t.rowCount

theorem stores_withRows (n : Nat) : (withRows n).Stores (Table.withRows n) where
  nodup := List.nodup_nil
  names := rfl
  columns := rfl
  index _ := Std.HashMap.getElem?_empty
  rows := rfl

namespace Stores

theorem index_eq_some_iff (h : s.Stores t) (i : Nat) :
    s.index[name]? = some i ↔ t.names[i]? = some name := by
  rw [h.index]
  exact Table.indexOf?_eq_some_iff h.nodup name i

theorem index_eq_none_iff (h : s.Stores t) : s.index[name]? = none ↔ name ∉ t.names := by
  rw [Option.eq_none_iff_forall_ne_some, List.mem_iff_getElem?, not_exists]
  exact forall_congr' fun i => not_congr (h.index_eq_some_iff i)

theorem contains_iff (h : s.Stores t) : s.index.contains name = true ↔ name ∈ t.names := by
  rw [Std.HashMap.contains_eq_isSome_getElem?, Option.isSome_iff_ne_none, ne_eq,
    h.index_eq_none_iff, not_not]

theorem columns_eq_nil_iff (h : s.Stores t) : s.columns = [] ↔ t.names = [] := by
  rw [h.columns, List.map_eq_nil_iff]
  exact List.map_eq_nil_iff.symm

theorem length_columns (h : s.Stores t) : s.columns.length = t.columns.length := by
  rw [h.columns, List.length_map]

theorem getElem?_columns (h : s.Stores t) (i : Nat) : s.columns[i]? = t.columnAt? i := by
  rw [h.columns]
  exact List.getElem?_map

/-- A column of another length than the rows, beside other columns. -/
theorem mismatch_iff (h : s.Stores t) : s.columns ≠ [] ∧ c.length ≠ s.rows ↔
    t.names ≠ [] ∧ c.length ≠ t.rowCount := by
  rw [h.rows, ne_eq, h.columns_eq_nil_iff]

/-- The index finds a new name behind all others. -/
theorem append (h : s.Stores t) (hname : name ∉ t.names) (c : Column) (n : Nat) :
    Stores ⟨s.names ++ [name], s.columns ++ [c], s.index.insert name s.columns.length, n⟩
      ⟨t.columns ++ [(name, c)], n⟩ where
  nodup := by
    show ((t.columns ++ [(name, c)]).map (·.1)).Nodup
    rw [List.map_append, List.map_singleton, ← List.concat_eq_append]
    exact h.nodup.concat hname
  names := by
    show s.names ++ [name] = (t.columns ++ [(name, c)]).map (·.1)
    rw [h.names, List.map_append]
    rfl
  columns := by
    show s.columns ++ [c] = (t.columns ++ [(name, c)]).map (·.2)
    rw [h.columns, List.map_append]
    rfl
  index other := by
    have hindex : (Table.mk (t.columns ++ [(name, c)]) n).indexOf? other =
        (t.indexOf? other).or (if name == other then some t.columns.length else none) := by
      unfold Table.indexOf?
      rw [List.findIdx?_append, List.findIdx?_singleton]
      split <;> simp
    rw [hindex, Std.HashMap.getElem?_insert, h.length_columns, ← h.index]
    by_cases hother : name = other
    · rw [← hother, h.index_eq_none_iff.2 hname, if_pos BEq.rfl]
      rfl
    · have hbeq : ¬ (name == other) = true := mt beq_iff_eq.1 hother
      rw [if_neg hbeq, if_neg hbeq, Option.or_none]
  rows := rfl

/-- A column in the place of the one under its name. -/
theorem replace (h : s.Stores t) {i : Nat} (hi : t.names[i]? = some name) (c : Column) (n : Nat) :
    Stores { s with columns := s.columns.set i c, rows := n }
      ⟨t.columns.map fun e => if e.1 == name then (name, c) else e, n⟩ := by
  have hnames : (Table.mk (t.columns.map fun e => if e.1 == name then (name, c) else e) n).names
      = t.names := by
    show (t.columns.map fun e => if e.1 == name then (name, c) else e).map (·.1) = t.names
    rw [List.map_map]
    refine List.map_congr_left fun e _ => ?_
    by_cases he : e.1 = name
    · simp [he]
    · simp [he]
  have hplace : ∀ j e, t.columns[j]? = some e → (i = j ↔ e.1 = name) := by
    intro j e he
    have hj : t.names[j]? = some e.1 := by
      rw [Table.names_getElem?, he]
      rfl
    constructor
    · rintro rfl
      exact Option.some.inj (hj.symm.trans hi)
    · rintro rfl
      exact (List.getElem?_inj (List.getElem?_eq_some_iff.1 hi).1 h.nodup).1 (hi.trans hj.symm)
  refine ⟨hnames ▸ h.nodup, h.names.trans hnames.symm, List.ext_getElem? fun j => ?_,
    fun other => ?_, rfl⟩
  · show (s.columns.set i c)[j]? = _
    rw [List.getElem?_set', h.columns, List.getElem?_map, List.getElem?_map, List.getElem?_map]
    cases he : t.columns[j]? with
    | none => simp
    | some e =>
      simp only [hplace j e he, Option.map_some, beq_iff_eq]
      split <;> rfl
  · rw [h.index, Table.indexOf?_eq, Table.indexOf?_eq, hnames]

end Stores

/-! ## Changes of stored tables -/

/-- A change is refused as on tables, or leaves what stands for the changed table. -/
def Agrees (r : Except TableError Unit × StoredTable) (out : Except TableError Table) : Prop :=
  r.1 = out.map (fun _ => ()) ∧ ∀ u, out = .ok u → r.2.Stores u

theorem agrees_error (e : TableError) (s : StoredTable) : Agrees (.error e, s) (.error e) :=
  ⟨rfl, nofun⟩

theorem agrees_ok (h : s.Stores t) : Agrees (.ok (), s) (.ok t) := by
  refine ⟨rfl, ?_⟩
  rintro _ ⟨⟩
  exact h

/-- A change after the check of the length. -/
theorem agrees_checked (h : s.Stores t) {u : StoredTable} {v : Table} (hu : u.Stores v)
    (name : String) (c : Column) :
    Agrees (if s.columns ≠ [] ∧ c.length ≠ s.rows then
        (.error (.lengthMismatch name s.rows c.length), s) else (.ok (), u))
      ((t.checkLength name c).map fun _ => v) := by
  rw [Table.checkLength_eq, if_congr h.mismatch_iff rfl rfl, h.rows]
  split
  next => exact agrees_error _ s
  next => exact agrees_ok hu

theorem agrees_add (h : s.Stores t) (name : String) (c : Column) :
    Agrees (s.apply (add name c)) (t.add name c) := by
  rw [apply_add]
  by_cases hname : name ∈ t.names
  · rw [if_pos (h.contains_iff.2 hname), Table.add_of_mem hname]
    exact agrees_error _ s
  · have hrows : (if s.columns = [] then c.length else s.rows) =
        if t.columns.isEmpty = true then c.length else t.rowCount := by
      simp only [h.columns, List.map_eq_nil_iff, List.isEmpty_iff, h.rows]
    rw [if_neg (mt h.contains_iff.1 hname), Table.add_of_notMem hname, hrows]
    exact agrees_checked h (h.append hname c _) name c

theorem agrees_set (h : s.Stores t) (name : String) (c : Column) :
    Agrees (s.apply (set name c)) (t.set name c) := by
  by_cases hname : name ∈ t.names
  · obtain ⟨i, hi⟩ := List.mem_iff_getElem?.1 hname
    rw [apply_set_some ((h.index_eq_some_iff i).2 hi), h.length_columns]
    by_cases halone : t.names = [name]
    · rw [if_pos ((Table.length_columns_eq_one_iff hname).2 halone), Table.set_of_alone halone]
      exact agrees_ok (h.replace hi c _)
    · rw [if_neg (mt (Table.length_columns_eq_one_iff hname).1 halone),
        Table.set_of_mem hname halone, ← h.rows]
      exact agrees_checked h (h.replace hi c _) name c
  · rw [apply_set_none (h.index_eq_none_iff.2 hname), Table.set_of_notMem hname]
    exact agrees_add h name c

theorem agrees_change (h : s.Stores t) (e : Edit) : Agrees (s.apply (change e)) (e.run t) := by
  cases e with
  | add name c => exact agrees_add h name c
  | set name c => exact agrees_set h name c

theorem add_ok_or_eq (s : StoredTable) (name : String) (c : Column) :
    (s.apply (add name c)).1 = .ok () ∨ (s.apply (add name c)).2 = s := by
  rw [apply_add]
  split
  next => exact .inr rfl
  split
  next => exact .inr rfl
  next => exact .inl rfl

/-- A refused edit has changed nothing, as all checks stand before the first change. -/
theorem change_ok_or_eq (s : StoredTable) (e : Edit) :
    (s.apply (change e)).1 = .ok () ∨ (s.apply (change e)).2 = s := by
  cases e with
  | add name c => exact add_ok_or_eq s name c
  | set name c =>
    unfold change
    cases hindex : s.index[name]? with
    | none =>
      rw [apply_set_none hindex]
      exact add_ok_or_eq s name c
    | some i =>
      rw [apply_set_some hindex]
      split
      next => exact .inl rfl
      split
      next => exact .inr rfl
      next => exact .inl rfl

/-! ## Stored tables that are built -/

/-- Both are refused alike, or the one stands for the other. -/
def Builds (r : Except TableError StoredTable) (out : Except TableError Table) : Prop :=
  (∃ s t, r = .ok s ∧ out = .ok t ∧ s.Stores t) ∨ ∃ e, r = .error e ∧ out = .error e

theorem Builds.of_agrees {change : Change} {out : Except TableError Table}
    (h : Agrees (s.apply change) out) : Builds (s.build change) out := by
  unfold build
  rw [h.1]
  cases out with
  | error e => exact .inr ⟨e, rfl, rfl⟩
  | ok u => exact .inl ⟨_, u, rfl, rfl, h.2 u rfl⟩

theorem Builds.exists_stored {r : Except TableError StoredTable} {out : Except TableError Table}
    (h : Builds r out) (ht : out = .ok t) : ∃ s, r = .ok s ∧ s.Stores t := by
  rcases h with ⟨s, u, hs, hu, hsu⟩ | ⟨e, -, he⟩
  · obtain rfl := Except.ok.inj (hu.symm.trans ht)
    exact ⟨s, hs, hsu⟩
  · cases he.symm.trans ht

theorem Builds.exists_table {r : Except TableError StoredTable} {out : Except TableError Table}
    (h : Builds r out) (hs : r = .ok s) : ∃ t, out = .ok t ∧ s.Stores t := by
  rcases h with ⟨u, t, hu, ht, hut⟩ | ⟨e, he, -⟩
  · obtain rfl := Except.ok.inj (hu.symm.trans hs)
    exact ⟨t, ht, hut⟩
  · cases he.symm.trans hs

/-- Changes for all elements of a list. -/
theorem agrees_forM {α : Type} {change : α → Change} {step : Table → α → Except TableError Table}
    (hstep : ∀ {s : StoredTable} {t : Table} a, s.Stores t →
      Agrees (s.apply (change a)) (step t a)) (as : List α)
    (h : s.Stores t) : Agrees (s.apply (as.forM change)) (as.foldlM step t) := by
  induction as generalizing s t with
  | nil => exact agrees_ok h
  | cons a as ih =>
    rw [List.foldlM_cons]
    show Agrees (s.apply (change a >>= fun _ => as.forM change)) _
    obtain ⟨hout, hstores⟩ := hstep a h
    rw [apply_bind, hout]
    cases hu : step t a with
    | error e =>
      rw [hu] at hout
      exact ⟨hout, nofun⟩
    | ok u => exact ih (hstores u hu)

theorem builds_ofColumns (columns : List (String × Column)) :
    Builds (ofColumns columns) (Table.ofColumns columns) :=
  .of_agrees (agrees_forM (fun e h => agrees_add h e.1 e.2) columns (stores_withRows 0))

theorem builds_ofValues (columns : List (String × List Value)) :
    Builds (ofValues columns) (Table.ofValues columns) := builds_ofColumns _

theorem builds_ofBuilder (b : TableBuilder) : Builds (ofBuilder b) b.finish :=
  .of_agrees (agrees_forM (fun _ h => agrees_add h _ _) _ (stores_withRows _))

theorem Stores.column? (h : s.Stores t) (name : String) : s.column? name = t.column? name := by
  unfold StoredTable.column?
  rw [h.index, Table.column?_eq_bind]
  exact congrArg _ (funext h.getElem?_columns)

theorem Stores.project (h : s.Stores t) (columns : List (String × String)) :
    Builds (s.project columns) (t.project columns) := by
  refine .of_agrees (agrees_forM (fun e hout => ?_) columns (h.rows ▸ stores_withRows _))
  rw [h.column?]
  cases t.column? e.1 with
  | none => exact agrees_error _ _
  | some c => exact agrees_add hout e.2 c

/-- Rows are copied where they are copied on the table. -/
theorem Stores.take (h : s.Stores t) {rows : List Nat} {v : Table} (hv : t.take? rows = some v) :
    ∃ u, s.take? rows = some u ∧ u.Stores v := by
  have hcopies : ∀ columns : List (String × Column),
      (columns.map (·.2)).mapM (Column.take? · rows) =
        (columns.mapM fun e : String × Column => (e.2.take? rows).map (e.1, ·)).map
          (List.map (·.2)) := by
    intro columns
    induction columns with
    | nil => rfl
    | cons e columns ih =>
      rw [List.map_cons, List.mapM_cons, List.mapM_cons, ih]
      cases e.2.take? rows with
      | none => rfl
      | some c =>
        cases columns.mapM fun e : String × Column => (e.2.take? rows).map (e.1, ·) <;> rfl
  obtain ⟨hcolumns, hrows⟩ := Table.take?_eq_some hv
  have hnames := Table.names_of_take? hv
  refine ⟨⟨s.names, v.columns.map (·.2), s.index, rows.length⟩, ?_,
    ⟨hnames ▸ h.nodup, h.names.trans hnames.symm, rfl, fun name => ?_, hrows.symm⟩⟩
  · rw [StoredTable.take?, h.columns, hcopies, hcolumns]
    rfl
  · rw [h.index, Table.indexOf?_eq, Table.indexOf?_eq, hnames]

/-! ## Stored tables that are reached -/

/-- The stored tables that come of building, edits, choosing columns, and copying rows that are
    there; a refused edit leaves whatever it leaves. -/
inductive Reached : StoredTable → Prop
  | withRows (n : Nat) : Reached (withRows n)
  | ofColumns {columns : List (String × Column)} {s : StoredTable}
      (hcolumns : ∀ e ∈ columns, e.2.Built) (h : ofColumns columns = .ok s) : Reached s
  | ofValues {columns : List (String × List Value)} {s : StoredTable}
      (h : ofValues columns = .ok s) : Reached s
  | ofBuilder {b : TableBuilder} {s : StoredTable} (h : ofBuilder b = .ok s) : Reached s
  | change {s : StoredTable} (hs : Reached s) {e : Edit} (he : e.column.Built) :
      Reached (s.apply (change e)).2
  | project {s u : StoredTable} (hs : Reached s) {columns : List (String × String)}
      (h : s.project columns = .ok u) : Reached u
  | take {s u : StoredTable} (hs : Reached s) {rows : List Nat}
      (hrows : ∀ row ∈ rows, row < s.rows) (h : s.take? rows = some u) : Reached u

/-- What is left after an edit stands for what the edit makes of the table. -/
theorem Stores.step (h : s.Stores t) (e : Edit) : (s.apply (change e)).2.Stores (e.step t).1 := by
  obtain ⟨hout, hstores⟩ := agrees_change h e
  unfold Edit.step
  cases hrun : e.run t with
  | ok u => exact hstores u hrun
  | error refusal =>
    rw [hrun] at hout
    rcases change_ok_or_eq s e with hok | heq
    · cases hok.symm.trans hout
    · rw [heq]
      exact h

theorem Reached.exists_made (hs : s.Reached) : ∃ t : Table, t.Made ∧ s.Stores t := by
  induction hs with
  | withRows n => exact ⟨_, .withRows n, stores_withRows n⟩
  | ofColumns hcolumns h =>
    obtain ⟨t, ht, hst⟩ := (builds_ofColumns _).exists_table h
    exact ⟨t, .ofColumns hcolumns ht, hst⟩
  | ofValues h =>
    obtain ⟨t, ht, hst⟩ := (builds_ofValues _).exists_table h
    exact ⟨t, .ofValues ht, hst⟩
  | ofBuilder h =>
    obtain ⟨t, ht, hst⟩ := (builds_ofBuilder _).exists_table h
    exact ⟨t, .finish ht, hst⟩
  | @change _ _ e he ih =>
    obtain ⟨t, ht, hst⟩ := ih
    exact ⟨_, ht.edit he, hst.step e⟩
  | project _ h ih =>
    obtain ⟨t, ht, hst⟩ := ih
    obtain ⟨u, hu, hsu⟩ := (hst.project _).exists_table h
    exact ⟨u, ht.project hu, hsu⟩
  | @take _ _ _ rows hrows h ih =>
    obtain ⟨t, ht, hst⟩ := ih
    rw [hst.rows] at hrows
    obtain ⟨v, hv⟩ := ht.wellFormed.take? hrows
    obtain ⟨u, hu, huv⟩ := hst.take hv
    obtain rfl := Option.some.inj (hu.symm.trans h)
    exact ⟨v, ht.take hrows hv, huv⟩

/-- Distinct names, an index that gives every name its position and nothing else, and a column of
    the length of the table for every name. -/
structure Consistent (s : StoredTable) : Prop where
  names : s.names.Nodup
  index : ∀ (name : String) (i : Nat), s.index[name]? = some i ↔ s.names[i]? = some name
  columns : s.columns.length = s.names.length
  length : ∀ c ∈ s.columns, c.length = s.rows

theorem Stores.consistent (h : s.Stores t) (ht : t.WellFormed) : s.Consistent where
  names := h.names ▸ h.nodup
  index name i := by
    rw [h.names]
    exact h.index_eq_some_iff i
  columns := by rw [h.length_columns, h.names, Table.length_names]
  length c hc := by
    rw [h.columns] at hc
    obtain ⟨e, he, rfl⟩ := List.mem_map.1 hc
    rw [h.rows]
    exact ht.length_eq e he

/-- What an edit does: the column stands under its name, and all else is where it was. -/
structure Changed (e : Edit) (s u : StoredTable) : Prop where
  names : u.names = if e.name ∈ s.names then s.names else s.names ++ [e.name]
  index : ∀ other ∈ s.names, u.index[other]? = s.index[other]?
  columns : ∀ i : Nat, u.columns[i]? =
    if u.names[i]? = some e.name then some e.column else s.columns[i]?

theorem Stores.changed (h : s.Stores t) (ht : t.WellFormed) {e : Edit} (he : e.column.WellFormed)
    (hok : (s.apply (change e)).1 = .ok ()) : Changed e s (s.apply (change e)).2 := by
  obtain ⟨hout, hstores⟩ := agrees_change h e
  cases hrun : e.run t with
  | error refusal =>
    rw [hrun] at hout
    cases hok.symm.trans hout
  | ok u =>
    have hu := hstores u hrun
    have hdone := Edit.done_of_run ht he hrun
    refine ⟨?_, fun other hother => ?_, fun i => ?_⟩
    · rw [hu.names, h.names]
      exact hdone.names
    · rw [h.names] at hother
      rw [hu.index, h.index]
      exact hdone.indexOf? other hother
    · rw [hu.getElem?_columns, hu.names, h.getElem?_columns]
      exact hdone.columnAt? i

theorem Stores.refused_iff (h : s.Stores t) (e : Edit) (refusal : TableError) :
    (s.apply (change e)).1 = .error refusal ↔ e.refusal? s.names s.rows = some refusal := by
  rw [(agrees_change h e).1, h.names, h.rows, ← Edit.run_eq_error_iff]
  cases e.run t with
  | error other =>
    show Except.error other = Except.error refusal ↔ _
    rw [Except.error.injEq, Except.error.injEq]
  | ok u => exact ⟨nofun, nofun⟩

/-- However a stored table is reached, its parts are in step, and every change keeps them so or
    leaves them:
    * it stands for a table that the same operations make;
    * an edit is refused exactly as listed, and then all parts are as they were, and changes one
      column else;
    * chosen columns keep the rows;
    * rows that are there can be copied, under the same names. -/
theorem consistent_of_reached (hs : s.Reached) : s.Consistent ∧
    (∃ t : Table, t.Made ∧ s.Stores t) ∧
    (∀ e : Edit, e.column.Built →
      (∀ refusal, (s.apply (change e)).1 = .error refusal ↔
        e.refusal? s.names s.rows = some refusal) ∧
      (∀ refusal, (s.apply (change e)).1 = .error refusal → (s.apply (change e)).2 = s) ∧
      ((s.apply (change e)).1 = .ok () → Changed e s (s.apply (change e)).2)) ∧
    (∀ columns u, s.project columns = .ok u → u.rows = s.rows ∧
      columns.mapM (fun e => (s.column? e.1).map (e.2, ·)) = some (u.names.zip u.columns)) ∧
    ∀ rows : List Nat, (∀ row ∈ rows, row < s.rows) → ∃ u, s.take? rows = some u ∧
      u.names = s.names ∧ u.index = s.index ∧ u.rows = rows.length ∧
      s.columns.mapM (Column.take? · rows) = some u.columns := by
  obtain ⟨t, ht, hst⟩ := hs.exists_made
  have hwf := ht.wellFormed
  obtain ⟨-, -, hproject, htake⟩ := Table.consistent_of_made ht
  refine ⟨hst.consistent hwf, ⟨t, ht, hst⟩, fun e he => ⟨hst.refused_iff e, ?_, ?_⟩,
    fun columns u h => ?_, fun rows hrows => ?_⟩
  · intro refusal h
    rcases change_ok_or_eq s e with hok | heq
    · cases hok.symm.trans h
    · exact heq
  · exact hst.changed hwf he.wellFormed
  · obtain ⟨v, hv, huv⟩ := (hst.project columns).exists_table h
    obtain ⟨hrows, hchosen⟩ := hproject columns v hv
    have hzip : u.names.zip u.columns = v.columns := by
      rw [huv.names, huv.columns]
      exact (List.zip_of_prod rfl rfl).symm
    rw [hzip, huv.rows, hst.rows, ← hchosen]
    refine ⟨hrows, ?_⟩
    simp only [hst.column?]
  · rw [hst.rows] at hrows
    obtain ⟨v, hv, -⟩ := htake rows hrows
    obtain ⟨u, hu, -⟩ := hst.take hv
    obtain ⟨copies, hcopies, hcopy⟩ := Option.map_eq_some_iff.1 hu
    refine ⟨u, hu, ?_⟩
    rw [← hcopy]
    exact ⟨rfl, rfl, rfl, hcopies⟩

/-- A table of two columns stays as it is when a column of its name is added or one of another
    length is set. -/
theorem consistent_of_reached_pair : ∃ s,
    ofValues [("x", [.boolean true]), ("y", [.null])] = .ok s ∧ s.Consistent ∧
    s.apply (add "y" (.ofValues [.null])) = (.error (.duplicateColumn "y"), s) ∧
    s.apply (set "x" (.ofValues [])) = (.error (.lengthMismatch "x" 1 0), s) := by
  have hpair : Table.ofValues [("x", [.boolean true]), ("y", [.null])] =
      .ok ⟨[("x", .ofValues [.boolean true]), ("y", .ofValues [.null])], 1⟩ := rfl
  obtain ⟨s, hs, hst⟩ := (builds_ofValues _).exists_stored hpair
  obtain ⟨hconsistent, -, hedits, -⟩ := consistent_of_reached (.ofValues hs)
  have hrefused : ∀ (e : Edit) refusal, e.column.Built → e.refusal? ["x", "y"] 1 = some refusal →
      s.apply (change e) = (.error refusal, s) := by
    intro e refusal he h
    obtain ⟨hiff, hsame, -⟩ := hedits e he
    have herror := (hiff refusal).2 (by rw [hst.names, hst.rows]; exact h)
    exact Prod.ext herror (hsame refusal herror)
  have hbuilt : ∀ cells, (Column.ofValues cells).Built := fun cells => ⟨.values cells, [], rfl⟩
  exact ⟨s, hs, hconsistent, hrefused (.add "y" _) _ (hbuilt _) (by decide),
    hrefused (.set "x" _) _ (hbuilt _) (by decide)⟩

end StoredTable

end ColumnQuery
