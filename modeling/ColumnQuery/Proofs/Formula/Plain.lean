/-
  Plain formulas: those that only read cells.

  The fields of operators are plain: they refer to no results of operators, to no block
  constants and to no escaped functions, and every column that they read is a column of an input
  table. A plain formula has a value at every row of well-formed tables, and takes no notice of
  the slots.
-/
import ColumnQuery.Formula.Rows
import ColumnQuery.Proofs.Table

namespace ColumnQuery

/-- The column is a column of the input table. -/
def Column.IsOf (c : Column) (tables : List Table) (table : Nat) : Prop :=
  ∃ t, tables[table]? = some t ∧ ∃ name, t.column? name = some c

namespace Formula

mutual

/-- Reads cells of the input tables, and nothing else. -/
def Plain (tables : List Table) : Formula → Prop
  | literal _ => True
  | column t c => c.IsOf tables t
  | dictionaryEq t c _ _ => c.IsOf tables t
  | unary _ a => Plain tables a
  | binary _ l r | logical _ l r => Plain tables l ∧ Plain tables r
  | conditional t c a => Plain tables t ∧ Plain tables c ∧ Plain tables a
  | array items => PlainList tables items
  | object entries => PlainEntries tables entries
  | member o p => Plain tables o ∧ Plain tables p
  | call _ args => PlainList tables args
  | slot _ | op _ | block _ | escape _ _ _ => False

def PlainList (tables : List Table) : List Formula → Prop
  | [] => True
  | f :: fs => Plain tables f ∧ PlainList tables fs

def PlainEntries (tables : List Table) : List (String × Formula) → Prop
  | [] => True
  | (_, f) :: es => Plain tables f ∧ PlainEntries tables es

end

theorem plainList_iff {tables : List Table} {fs : List Formula} :
    PlainList tables fs ↔ ∀ f ∈ fs, f.Plain tables := by
  induction fs with
  | nil => simp [PlainList]
  | cons f fs ih => simp [PlainList, ih]

theorem plainEntries_iff {tables : List Table} {es : List (String × Formula)} :
    PlainEntries tables es ↔ ∀ e ∈ es, e.2.Plain tables := by
  induction es with
  | nil => simp [PlainEntries]
  | cons e es ih =>
    obtain ⟨k, f⟩ := e
    simp [PlainEntries, ih]

/-! ## Evaluation -/

/-- The rows of a position are rows of the tables. -/
def Within (tables : List Table) (p : Position) : Prop :=
  ∀ t table row, tables[t]? = some table → p.rowOf t = some row → row < table.rowCount

end Formula

theorem Column.exists_keyAt? {c : Column} {row : Nat} (h : row < c.length) :
    ∃ key, c.keyAt? row = some key := by
  cases c with
  | values _ | numbers _ _ => exact ⟨none, rfl⟩
  | dictionary words keys validity =>
    have hlt : row < keys.size := h
    exact ⟨_, by rw [keyAt?, Array.getElem?_eq_getElem hlt]; rfl⟩

namespace Formula

variable {tables : List Table} {env : Env}

theorem lt_length_of_isOf {c : Column} {t row : Nat}
    (htables : ∀ table ∈ tables, table.WellFormed) (hrows : Within tables env.position)
    (hc : c.IsOf tables t) (hrow : env.position.rowOf t = some row) :
    c.WellFormed ∧ row < c.length := by
  obtain ⟨table, htable, name, hname⟩ := hc
  have hwf := htables table (List.mem_of_getElem? htable)
  have hmem := Table.mem_of_column? hname
  refine ⟨hwf.columns _ hmem, ?_⟩
  rw [hwf.length_eq _ hmem]
  exact hrows t table row htable hrow

mutual

/-- A plain formula has a value, whatever the slots are. -/
theorem Plain.exists_eval (htables : ∀ table ∈ tables, table.WellFormed)
    (hrows : Within tables env.position) :
    ∀ f : Formula, f.Plain tables → ∃ v, ∀ s, evalWith env f s = some (v, s)
  | literal v, _ => ⟨v, fun _ => by rw [evalWith]⟩
  | column t c, h => by
    cases hrow : env.position.rowOf t with
    | none => exact ⟨.null, fun s => by rw [evalWith, hrow]⟩
    | some row =>
      obtain ⟨hc, hlt⟩ := lt_length_of_isOf htables hrows h hrow
      obtain ⟨v, hv⟩ := hc row hlt
      exact ⟨v, fun s => by simp only [evalWith, hrow, hv, Option.map_some]⟩
  | dictionaryEq t c key negated, h => by
    cases hrow : env.position.rowOf t with
    | none => exact ⟨_, fun s => by rw [evalWith, hrow]⟩
    | some row =>
      obtain ⟨-, hlt⟩ := lt_length_of_isOf htables hrows h hrow
      obtain ⟨stored, hstored⟩ := Column.exists_keyAt? hlt
      exact ⟨.boolean ((stored == some key) != negated), fun s => by
        simp only [evalWith, hrow, hstored, Option.map_some]⟩
  | unary o a, h => by
    obtain ⟨v, hv⟩ := Plain.exists_eval htables hrows a h
    exact ⟨o.apply v, fun s => by simp [evalWith, hv]⟩
  | binary o l r, h => by
    obtain ⟨a, ha⟩ := Plain.exists_eval htables hrows l h.1
    obtain ⟨b, hb⟩ := Plain.exists_eval htables hrows r h.2
    exact ⟨o.apply a b, fun s => by simp [evalWith, ha, hb]⟩
  | logical o l r, h => by
    obtain ⟨a, ha⟩ := Plain.exists_eval htables hrows l h.1
    obtain ⟨b, hb⟩ := Plain.exists_eval htables hrows r h.2
    refine ⟨if o.decidedBy a then a else b, fun s => ?_⟩
    simp only [evalWith, ha, hb, Option.bind_eq_bind, Option.bind_some]
    split <;> rfl
  | conditional t c a, h => by
    obtain ⟨v, hv⟩ := Plain.exists_eval htables hrows t h.1
    obtain ⟨x, hx⟩ := Plain.exists_eval htables hrows c h.2.1
    obtain ⟨y, hy⟩ := Plain.exists_eval htables hrows a h.2.2
    refine ⟨if v.truthy then x else y, fun s => ?_⟩
    simp only [evalWith, hv, hx, hy, Option.bind_eq_bind, Option.bind_some]
    split <;> rfl
  | array items, h => by
    obtain ⟨vs, hvs⟩ := PlainList.exists_eval htables hrows items h
    exact ⟨.array vs, fun s => by simp [evalWith, hvs]⟩
  | object entries, h => by
    obtain ⟨es, hes⟩ := PlainEntries.exists_eval htables hrows entries h
    exact ⟨.ofFields es, fun s => by simp [evalWith, hes]⟩
  | member o p, h => by
    obtain ⟨v, hv⟩ := Plain.exists_eval htables hrows o h.1
    obtain ⟨key, hkey⟩ := Plain.exists_eval htables hrows p h.2
    exact ⟨v.member key, fun s => by simp [evalWith, hv, hkey]⟩
  | call f args, h => by
    obtain ⟨vs, hvs⟩ := PlainList.exists_eval htables hrows args h
    exact ⟨f.apply vs, fun s => by simp [evalWith, hvs]⟩
  | slot _, h => h.elim
  | op _, h => h.elim
  | block _, h => h.elim
  | escape _ _ _, h => h.elim

theorem PlainList.exists_eval (htables : ∀ table ∈ tables, table.WellFormed)
    (hrows : Within tables env.position) :
    ∀ fs : List Formula, PlainList tables fs → ∃ vs, ∀ s, evalList env fs s = some (vs, s)
  | [], _ => ⟨[], fun _ => by rw [evalList]⟩
  | f :: fs, h => by
    obtain ⟨v, hv⟩ := Plain.exists_eval htables hrows f h.1
    obtain ⟨vs, hvs⟩ := PlainList.exists_eval htables hrows fs h.2
    exact ⟨v :: vs, fun s => by simp [evalList, hv, hvs]⟩

theorem PlainEntries.exists_eval (htables : ∀ table ∈ tables, table.WellFormed)
    (hrows : Within tables env.position) :
    ∀ es : List (String × Formula), PlainEntries tables es →
      ∃ vs, ∀ s, evalEntries env es s = some (vs, s)
  | [], _ => ⟨[], fun _ => by rw [evalEntries]⟩
  | (k, f) :: es, h => by
    obtain ⟨v, hv⟩ := Plain.exists_eval htables hrows f h.1
    obtain ⟨vs, hvs⟩ := PlainEntries.exists_eval htables hrows es h.2
    exact ⟨(k, v) :: vs, fun s => by simp [evalEntries, hv, hvs]⟩

end

end Formula

end ColumnQuery
