/-
  Tables by the operations that made them.

  `Made` holds of the tables that come of any sequence of building, editing, choosing columns and
  copying rows that are there. Such a table is consistent (`Consistent`): its names are distinct,
  the index gives every name its position and no other, and all columns have as many cells as the
  table has rows.

  An edit is refused in the cases that `Edit.refusal?` lists, which leave the table, and otherwise
  changes one column: names keep their positions, and all other columns stay (`Edit.Done`).
-/
import ColumnQuery.Proofs.Column.Copies
import ColumnQuery.Proofs.Table

namespace ColumnQuery

/-! ## Columns -/

/-- Made of cells, then copied by rows that are there. -/
def Column.Built (c : Column) : Prop :=
  ∃ (how : Column.Making) (chain : List (List Nat)), how.column.takes? chain = some c

theorem Column.Built.wellFormed {c : Column} (h : c.Built) : c.WellFormed := by
  obtain ⟨how, chain, hc⟩ := h
  have hcopy := copyOf_of_takes? hc
  intro i hi
  rw [hcopy.length] at hi
  obtain ⟨row, hrow, horigin⟩ := hcopy.inRange.exists_origin hi
  obtain ⟨cell, hcell⟩ := how.wellFormed_column row hrow
  exact ⟨cell, by rw [hcopy.get?, horigin, Option.bind_some, hcell]⟩

namespace Table

/-! ## Edits -/

/-- A column added under a new name, or set under any. -/
inductive Edit where
  | add (name : String) (c : Column)
  | set (name : String) (c : Column)

namespace Edit

def name : Edit → String
  | add name _ | set name _ => name

def column : Edit → Column
  | add _ c | set _ c => c

def run (t : Table) : Edit → Except TableError Table
  | add name c => t.add name c
  | set name c => t.set name c

/-- The table after an edit, and why the edit was refused if it was. -/
def step (t : Table) (e : Edit) : Table × Option TableError :=
  match e.run t with
  | .ok u => (u, none)
  | .error refusal => (t, some refusal)

/-- Why an edit is refused: the name is taken, or the column is not as long as those beside it. -/
def refusal? (names : List String) (rowCount : Nat) : Edit → Option TableError
  | add name c =>
    if name ∈ names then some (.duplicateColumn name)
    else if names ≠ [] ∧ c.length ≠ rowCount then
      some (.lengthMismatch name rowCount c.length)
    else none
  | set name c =>
    if names ≠ [] ∧ names ≠ [name] ∧ c.length ≠ rowCount then
      some (.lengthMismatch name rowCount c.length)
    else none

/-- What an edit does: the column stands under its name, and all else is where it was. -/
structure Done (e : Edit) (t u : Table) : Prop where
  names : u.names = if e.name ∈ t.names then t.names else t.names ++ [e.name]
  indexOf? : ∀ other ∈ t.names, u.indexOf? other = t.indexOf? other
  columnAt? : ∀ i, u.columnAt? i =
    if u.names[i]? = some e.name then some e.column else t.columnAt? i

end Edit

/-! ## Consistency -/

variable {t u : Table} {name : String} {c : Column}

/-- Distinct names, an index that gives every name its position, and columns of one length. -/
structure Consistent (t : Table) : Prop where
  names : t.names.Nodup
  indexOf? : ∀ name i, t.indexOf? name = some i ↔ t.names[i]? = some name
  columnAt? : ∀ i, (∃ c, t.columnAt? i = some c) ↔ i < t.names.length
  column? : ∀ name, t.column? name = (t.indexOf? name).bind t.columnAt?
  length : ∀ i c, t.columnAt? i = some c → c.length = t.rowCount

theorem indexOf?_eq (t : Table) (name : String) : t.indexOf? name = t.names.idxOf? name := by
  unfold indexOf? names
  rw [List.idxOf?, List.findIdx?_map]
  rfl

theorem names_getElem? (t : Table) (i : Nat) : t.names[i]? = t.columns[i]?.map (·.1) :=
  List.getElem?_map

theorem length_names (t : Table) : t.names.length = t.columns.length := List.length_map _

/-- Where names are distinct, the index is the inverse of the list of names. -/
theorem indexOf?_eq_some_iff (hnames : t.names.Nodup) (name : String) (i : Nat) :
    t.indexOf? name = some i ↔ t.names[i]? = some name := by
  rw [indexOf?_eq, List.idxOf?_eq_some_iff]
  constructor
  · rintro ⟨hi, rfl, -⟩
    exact List.getElem?_eq_getElem hi
  · intro hname
    obtain ⟨hi, rfl⟩ := List.getElem?_eq_some_iff.1 hname
    refine ⟨hi, rfl, fun j hj hsame => ?_⟩
    have hji := (hnames.getElem_inj_iff).1 hsame
    omega

/-- A column is found by its name where it is found by its position. -/
theorem column?_eq_bind (t : Table) (name : String) :
    t.column? name = (t.indexOf? name).bind t.columnAt? := by
  unfold column? indexOf? columnAt?
  induction t.columns with
  | nil => rfl
  | cons e columns ih =>
    obtain ⟨first, c⟩ := e
    rw [List.lookup_cons, List.findIdx?_cons]
    by_cases hfirst : first = name
    · subst hfirst
      simp
    · have hbeq : (first == name) = false := beq_eq_false_iff_ne.2 hfirst
      have hbeq' : (name == first) = false := beq_eq_false_iff_ne.2 fun h => hfirst h.symm
      simp only [hbeq, hbeq', Bool.false_eq_true, if_false, ih]
      cases columns.findIdx? (·.1 == name) <;> simp

theorem WellFormed.consistent (ht : t.WellFormed) : t.Consistent where
  names := ht.nodup_names
  indexOf? := indexOf?_eq_some_iff ht.nodup_names
  columnAt? i := by
    rw [length_names]
    constructor
    · rintro ⟨c, hc⟩
      obtain ⟨e, he, -⟩ := Option.map_eq_some_iff.1 hc
      exact (List.getElem?_eq_some_iff.1 he).1
    · intro hi
      exact ⟨_, by rw [Table.columnAt?, List.getElem?_eq_getElem hi]; rfl⟩
  column? := t.column?_eq_bind
  length i c hc := by
    obtain ⟨e, he, rfl⟩ := Option.map_eq_some_iff.1 hc
    exact ht.length_eq e (List.mem_of_getElem? he)

/-! ## What edits do -/

theorem isSome_column?_iff : (t.column? name).isSome = true ↔ name ∈ t.names := by
  rw [← not_iff_not, Bool.not_eq_true, Option.isSome_eq_false_iff, Option.isNone_iff_eq_none]
  exact column?_eq_none_iff

/-- A name that is there stands alone exactly if the table has one column. -/
theorem length_columns_eq_one_iff (hname : name ∈ t.names) :
    t.columns.length = 1 ↔ t.names = [name] := by
  rw [← length_names, List.length_eq_one_iff]
  constructor
  · rintro ⟨other, hother⟩
    rw [hother, List.mem_singleton] at hname
    rw [hother, hname]
  · exact fun h => ⟨name, h⟩

theorem checkLength_eq (t : Table) (name : String) (c : Column) : t.checkLength name c =
    if t.names ≠ [] ∧ c.length ≠ t.rowCount then
      .error (.lengthMismatch name t.rowCount c.length) else .ok () := by
  have hempty : t.columns.isEmpty = true ↔ t.names = [] := by
    rw [List.isEmpty_iff]
    exact List.map_eq_nil_iff.symm
  unfold checkLength
  simp only [Bool.and_eq_true, Bool.not_eq_true', bne_iff_ne, ← Bool.not_eq_true, hempty, ne_eq]

theorem add_of_mem (hname : name ∈ t.names) (c : Column) :
    t.add name c = .error (.duplicateColumn name) := by
  unfold Table.add
  rw [if_pos (isSome_column?_iff.2 hname)]
  rfl

theorem add_of_notMem (hname : name ∉ t.names) (c : Column) :
    t.add name c = (t.checkLength name c).map fun _ =>
      ⟨t.columns ++ [(name, c)], if t.columns.isEmpty then c.length else t.rowCount⟩ := by
  unfold Table.add
  rw [if_neg (mt isSome_column?_iff.1 hname)]
  cases t.checkLength name c <;> rfl

theorem set_of_notMem (hname : name ∉ t.names) (c : Column) : t.set name c = t.add name c := by
  unfold Table.set
  rw [if_neg (mt isSome_column?_iff.1 hname)]

theorem set_of_alone (halone : t.names = [name]) (c : Column) : t.set name c =
    .ok ⟨t.columns.map fun e => if e.1 == name then (name, c) else e, c.length⟩ := by
  have hname : name ∈ t.names := halone ▸ List.mem_singleton_self name
  have hone : (t.columns.length == 1) = true :=
    beq_iff_eq.2 ((length_columns_eq_one_iff hname).2 halone)
  unfold Table.set
  rw [if_pos (isSome_column?_iff.2 hname), hone]
  rfl

theorem set_of_mem (hname : name ∈ t.names) (halone : t.names ≠ [name]) (c : Column) :
    t.set name c = (t.checkLength name c).map fun _ =>
      ⟨t.columns.map fun e => if e.1 == name then (name, c) else e, t.rowCount⟩ := by
  have hmany : (t.columns.length == 1) = false :=
    beq_eq_false_iff_ne.2 (mt (length_columns_eq_one_iff hname).1 halone)
  unfold Table.set
  rw [if_pos (isSome_column?_iff.2 hname), hmany]
  cases t.checkLength name c <;> rfl

namespace Edit

/-- An edit fails exactly as listed. -/
theorem run_eq_error_iff (t : Table) (e : Edit) (refusal : TableError) :
    e.run t = .error refusal ↔ e.refusal? t.names t.rowCount = some refusal := by
  have hcheck : ∀ {name : String} {c : Column} (u : Table),
      (t.checkLength name c).map (fun _ => u) = .error refusal ↔
        (t.names ≠ [] ∧ c.length ≠ t.rowCount) ∧
          .lengthMismatch name t.rowCount c.length = refusal := by
    intro name c u
    rw [checkLength_eq]
    split
    next h => exact ⟨fun heq => ⟨h, Except.error.inj heq⟩, fun heq => congrArg Except.error heq.2⟩
    next h => exact ⟨fun heq => (nomatch heq), fun heq => absurd heq.1 h⟩
  cases e with
  | add name c =>
    show t.add name c = _ ↔ (if _ then _ else if _ then _ else _) = _
    by_cases hname : name ∈ t.names
    · rw [if_pos hname, add_of_mem hname, Except.error.injEq, Option.some.injEq]
    · rw [if_neg hname, add_of_notMem hname, hcheck]
      simp only [Option.ite_none_right_eq_some, Option.some.injEq]
  | set name c =>
    show t.set name c = _ ↔ (if _ then _ else _) = _
    simp only [Option.ite_none_right_eq_some, Option.some.injEq]
    by_cases halone : t.names = [name]
    · rw [set_of_alone halone]
      exact ⟨fun heq => (nomatch heq), fun heq => absurd halone heq.1.2.1⟩
    · have hmismatch : t.names ≠ [] ∧ t.names ≠ [name] ∧ c.length ≠ t.rowCount ↔
          t.names ≠ [] ∧ c.length ≠ t.rowCount :=
        ⟨fun h => ⟨h.1, h.2.2⟩, fun h => ⟨h.1, halone, h.2⟩⟩
      rw [hmismatch]
      by_cases hname : name ∈ t.names
      · rw [set_of_mem hname halone, hcheck]
      · rw [set_of_notMem hname, add_of_notMem hname, hcheck]

/-- A refused edit leaves the table, and every other one is made. -/
theorem step_eq (t : Table) (e : Edit) : (e.step t).2 = e.refusal? t.names t.rowCount ∧
    (∀ refusal, e.refusal? t.names t.rowCount = some refusal → e.step t = (t, some refusal)) ∧
    (e.refusal? t.names t.rowCount = none → e.run t = .ok (e.step t).1) := by
  have hiff := run_eq_error_iff t e
  unfold step
  cases hrun : e.run t with
  | ok u =>
    have hnone : e.refusal? t.names t.rowCount = none := by
      by_contra hsome
      obtain ⟨refusal, hrefusal⟩ := Option.ne_none_iff_exists'.1 hsome
      cases hrun.symm.trans ((hiff refusal).2 hrefusal)
    exact ⟨hnone.symm, fun refusal h => (nomatch hnone.symm.trans h), fun _ => rfl⟩
  | error refusal =>
    have hsome := (hiff refusal).1 hrun
    refine ⟨hsome.symm, fun other h => ?_, fun h => (nomatch hsome.symm.trans h)⟩
    rw [Option.some.inj (hsome.symm.trans h)]

theorem run_wellFormed {e : Edit} (ht : t.WellFormed) (he : e.column.WellFormed)
    (h : e.run t = .ok u) : u.WellFormed := by
  cases e with
  | add name c => exact ht.add he h
  | set name c => exact ht.set he h

/-- An edit that is made appends its column or puts it in the place of the one under its name. -/
theorem run_eq_ok {e : Edit} (h : e.run t = .ok u) :
    (e.name ∉ t.names ∧ u.columns = t.columns ++ [(e.name, e.column)]) ∨
    (e.name ∈ t.names ∧ u.columns =
      t.columns.map fun d => if d.1 == e.name then (e.name, e.column) else d) := by
  cases e with
  | add name c =>
    obtain ⟨hname, -, rfl⟩ := add_eq_ok h
    exact .inl ⟨hname, rfl⟩
  | set name c =>
    rcases set_eq_ok h with hadd | ⟨hname, -, rfl⟩
    · obtain ⟨hname, -, rfl⟩ := add_eq_ok hadd
      exact .inl ⟨hname, rfl⟩
    · exact .inr ⟨hname, rfl⟩

theorem names_of_run {e : Edit} (h : e.run t = .ok u) :
    u.names = if e.name ∈ t.names then t.names else t.names ++ [e.name] := by
  cases e with
  | add name c => exact (names_of_add h).trans (if_neg (add_eq_ok h).1).symm
  | set name c => exact names_of_set h

theorem columnAt?_of_run {e : Edit} (h : e.run t = .ok u) (i : Nat) :
    u.columnAt? i = if u.names[i]? = some e.name then some e.column else t.columnAt? i := by
  rw [names_getElem?]
  unfold Table.columnAt?
  rcases run_eq_ok h with ⟨hname, hcolumns⟩ | ⟨hname, hcolumns⟩
  · rw [hcolumns]
    rcases Nat.lt_trichotomy i t.columns.length with hi | rfl | hi
    · have hother : t.columns[i].1 ≠ e.name := fun heq =>
        hname (heq ▸ List.mem_map_of_mem (List.getElem_mem hi))
      rw [List.getElem?_append_left hi, List.getElem?_eq_getElem hi]
      exact (if_neg fun heq => hother (Option.some.inj heq)).symm
    · rw [List.getElem?_concat_length]
      exact (if_pos rfl).symm
    · have hend : (t.columns ++ [(e.name, e.column)]).length ≤ i := by
        rw [List.length_append]
        exact hi
      rw [List.getElem?_eq_none hend, List.getElem?_eq_none (Nat.le_of_lt hi)]
      rfl
  · rw [hcolumns, List.getElem?_map]
    cases t.columns[i]? with
    | none => rfl
    | some d =>
      simp only [Option.map_some, Option.some.injEq]
      by_cases heq : d.1 = e.name
      · have hbeq : (d.1 == e.name) = true := beq_iff_eq.2 heq
        simp [hbeq]
      · have hbeq : (d.1 == e.name) = false := beq_eq_false_iff_ne.2 heq
        simp [hbeq, heq]

theorem done_of_run {e : Edit} (ht : t.WellFormed) (he : e.column.WellFormed)
    (h : e.run t = .ok u) : e.Done t u where
  names := names_of_run h
  columnAt? := columnAt?_of_run h
  indexOf? other hother := by
    obtain ⟨i, hi⟩ := List.getElem?_of_mem hother
    have hkept : u.names[i]? = some other := by
      rw [names_of_run h]
      split
      next => exact hi
      next =>
        rw [List.getElem?_append_left (List.getElem?_eq_some_iff.1 hi).1]
        exact hi
    rw [(ht.consistent.indexOf? other i).2 hi,
      ((run_wellFormed ht he h).consistent.indexOf? other i).2 hkept]

end Edit

/-! ## Chosen columns and copied rows -/

/-- Chosen columns are those under the names that stand first, under the names that stand second. -/
theorem project_eq_ok {columns : List (String × String)} (h : t.project columns = .ok u) :
    columns.mapM (fun e => (t.column? e.1).map (e.2, ·)) = some u.columns := by
  have hrun : ∀ {start : Table} (columns : List (String × String)),
      columns.foldlM (fun out e =>
        (t.column? e.1).elim (throw (TableError.unknownColumn e.1)) (out.add e.2)) start = .ok u →
      ∃ chosen, columns.mapM (fun e => (t.column? e.1).map (e.2, ·)) = some chosen ∧
        u.columns = start.columns ++ chosen := by
    intro start columns h
    induction columns generalizing start with
    | nil =>
      obtain rfl := Except.ok.inj h
      exact ⟨[], rfl, (List.append_nil _).symm⟩
    | cons e columns ih =>
      rw [List.foldlM_cons] at h
      obtain ⟨next, hnext, h⟩ := bind_eq_ok h
      cases hc : t.column? e.1 with
      | none =>
        rw [hc] at hnext
        cases hnext
      | some c =>
        rw [hc] at hnext
        obtain ⟨-, -, rfl⟩ := add_eq_ok hnext
        obtain ⟨chosen, hchosen, hu⟩ := ih h
        refine ⟨(e.2, c) :: chosen, ?_, ?_⟩
        · rw [List.mapM_cons, hc, hchosen]
          rfl
        · rw [hu, List.append_assoc]
          rfl
  have hproject : t.project columns = columns.foldlM (fun out e =>
      (t.column? e.1).elim (throw (TableError.unknownColumn e.1)) (out.add e.2))
      (withRows t.rowCount) := by
    unfold Table.project
    congr 1
    funext out e
    cases t.column? e.1 <;> rfl
  obtain ⟨chosen, hchosen, hu⟩ := hrun columns (hproject.symm.trans h)
  rw [hchosen, hu]
  rfl

theorem columnAt?_of_take? {rows : List Nat} (h : t.take? rows = some u) (i : Nat) :
    u.columnAt? i = (t.columnAt? i).bind (·.take? rows) := by
  unfold Table.columnAt?
  rw [getElem?_of_mapM (take?_eq_some h).1 i]
  cases t.columns[i]? with
  | none => rfl
  | some e =>
    simp only [Option.bind_some, Option.map_some, Option.map_map]
    cases e.2.take? rows <;> rfl

/-! ## Tables that are made -/

/-- The tables that come of building, edits, choosing columns, and copying rows that are there. A
    refused edit counts as well. -/
inductive Made : Table → Prop
  | empty : Made empty
  | withRows (n : Nat) : Made (withRows n)
  | ofColumns {columns : List (String × Column)} {t : Table}
      (hcolumns : ∀ e ∈ columns, e.2.Built) (h : Table.ofColumns columns = .ok t) : Made t
  | ofValues {columns : List (String × List Value)} {t : Table}
      (h : Table.ofValues columns = .ok t) : Made t
  | finish {b : TableBuilder} {t : Table} (h : b.finish = .ok t) : Made t
  | edit {t : Table} (ht : Made t) {e : Edit} (he : e.column.Built) : Made (e.step t).1
  | project {t u : Table} (ht : Made t) {columns : List (String × String)}
      (h : t.project columns = .ok u) : Made u
  | take {t u : Table} (ht : Made t) {rows : List Nat} (hrows : ∀ row ∈ rows, row < t.rowCount)
      (h : t.take? rows = some u) : Made u

theorem Edit.step_wellFormed {e : Edit} (ht : t.WellFormed) (he : e.column.WellFormed) :
    (e.step t).1.WellFormed := by
  unfold step
  cases hrun : e.run t with
  | ok u => exact run_wellFormed ht he hrun
  | error refusal => exact ht

theorem Made.wellFormed (ht : t.Made) : t.WellFormed := by
  induction ht with
  | empty => exact wellFormed_withRows 0
  | withRows n => exact wellFormed_withRows n
  | ofColumns hcolumns h => exact wellFormed_ofColumns (fun e he => (hcolumns e he).wellFormed) h
  | ofValues h => exact wellFormed_ofValues _ h
  | finish h => exact TableBuilder.wellFormed_finish h
  | edit _ he ih => exact Edit.step_wellFormed ih he.wellFormed
  | project _ h ih => exact (ih.project h).1
  | take _ hrows h ih => exact ih.of_take? hrows h

/-- However a table is made, it is consistent, and every change keeps it so or leaves it:
    * an edit is refused exactly as listed, which leaves the table, and changes one column else;
    * chosen columns keep the rows;
    * rows that are there can be copied, under the same names. -/
theorem consistent_of_made (ht : t.Made) : t.Consistent ∧
    (∀ e : Edit, e.column.Built →
      (e.step t).2 = e.refusal? t.names t.rowCount ∧
      (∀ refusal, e.refusal? t.names t.rowCount = some refusal → e.step t = (t, some refusal)) ∧
      (e.refusal? t.names t.rowCount = none → e.run t = .ok (e.step t).1 ∧ e.Done t (e.step t).1)) ∧
    (∀ columns u, t.project columns = .ok u → u.rowCount = t.rowCount ∧
      columns.mapM (fun e => (t.column? e.1).map (e.2, ·)) = some u.columns) ∧
    ∀ rows : List Nat, (∀ row ∈ rows, row < t.rowCount) → ∃ u, t.take? rows = some u ∧
      u.names = t.names ∧ u.rowCount = rows.length ∧
      ∀ i, u.columnAt? i = (t.columnAt? i).bind (·.take? rows) := by
  have hwf := ht.wellFormed
  refine ⟨hwf.consistent, fun e he => ?_, fun columns u h => ?_, fun rows hrows => ?_⟩
  · obtain ⟨hrefusal, hrefused, hmade⟩ := e.step_eq t
    exact ⟨hrefusal, hrefused, fun h => ⟨hmade h, Edit.done_of_run hwf he.wellFormed (hmade h)⟩⟩
  · exact ⟨(hwf.project h).2, project_eq_ok h⟩
  · obtain ⟨u, hu⟩ := hwf.take? hrows
    exact ⟨u, hu, names_of_take? hu, (take?_eq_some hu).2, columnAt?_of_take? hu⟩

end Table

end ColumnQuery
