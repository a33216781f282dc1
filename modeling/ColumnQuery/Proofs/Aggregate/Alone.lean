/-
  An aggregate by itself.

  Aggregates over the same fields share a state, but none sees the others: after any events the
  value of each is read off the state that its keeper has alone (`valueAt_run_eq_alone`), and
  after rows have only come in it is the value computed afresh (`valueAt_addAll_eq_fresh`). That
  value, too, is read off the state of the keeper alone (`fresh_eq_alone`).
-/
import ColumnQuery.Proofs.Aggregate.Fresh

namespace ColumnQuery

namespace Aggregate

variable {N : Type} [Quantity N] {a : Aggregate}

/-- A value is read off the counts and one part. -/
theorem value_congr {s t : AggregateState Float} (h : a.keeper.Agree s t) (params : List Value) :
    a.value params s = a.value params t := by
  obtain ⟨hcount, hvalid, hpart⟩ := h
  cases a <;>
    simp_all [keeper, requires, value, numberIf, AggregateState.variance,
      AggregateState.covariance]

/-- A reducer for one aggregate alone that lets rows go. -/
def slider (a : Aggregate) : Reducer Unit := AggregateOp.reducer true ⟨a, []⟩

/-- The state of an aggregate alone after events. -/
def alone (a : Aggregate) (events : List Event) : AggregateState N :=
  a.slider.run a.slider.start events

theorem ordered_slider (a : Aggregate) : Ordered true a.slider.ops :=
  AggregateOp.ordered_reducer (Nat.zero_le _) true

theorem mem_slider (a : Aggregate) : ⟨a, []⟩ ∈ a.slider.ops := by
  obtain ⟨place, -, hplace⟩ := AggregateOp.getElem?_reducer true ⟨a, []⟩
  exact List.mem_of_getElem? hplace

end Aggregate

/-! ## Two reducers that keep up one aggregate -/

namespace Reducer

open Aggregate

section Steps

variable {F G N : Type} [Quantity N] {r : Reducer F} {q : Reducer G} {a : Aggregate}
  {s t : AggregateState N}

theorem agree_add_add {removing removing' : Bool} (hr : Ordered removing r.ops)
    (hq : Ordered removing' q.ops) (hparams : a.paramCount = 0) (har : ⟨a, []⟩ ∈ r.ops)
    (haq : ⟨a, []⟩ ∈ q.ops) (h : a.Agree s t) (row : List Value) :
    a.Agree (r.add s row) (q.add t row) := by
  cases hrow : row.all Value.isValid with
  | true =>
    have hboth := agree_absorb_own (h.recount (· + 1) (· + 1)) row
    exact (agree_add hr hparams har s hrow).trans (hboth.trans (agree_add hq hparams haq t hrow).symm)
  | false =>
    have hboth := h.recount (· + 1) id
    exact (agree_add_invalid a s hrow).trans (hboth.trans (agree_add_invalid a t hrow).symm)

/-- A row goes out of both, if they agree on the first fields as far as they are read. -/
theorem agree_remove_remove (hr : Ordered true r.ops) (hq : Ordered true q.ops)
    (hparams : a.paramCount = 0) (har : ⟨a, []⟩ ∈ r.ops) (haq : ⟨a, []⟩ ∈ q.ops)
    (h : a.Agree s t) (hvalues : arrayAgg ∈ a.dependencies true → s.values = t.values)
    (row : List Value) : a.Agree (r.remove s row) (q.remove t row) := by
  cases hrow : row.all Value.isValid with
  | false =>
    have hboth := h.recount (· - 1) id
    exact (agree_remove_invalid a s hrow).trans (hboth.trans (agree_remove_invalid a t hrow).symm)
  | true =>
    have hvacated : a.Agree (a.vacated s) (a.vacated t) :=
      (agree_vacated a s).symm.trans ((h.recount (· - 1) (· - 1)).trans (agree_vacated a t))
    have hboth := agree_release_own hvacated (fun hmem => by
      unfold vacated
      dsimp only
      rw [hvalues hmem]) row
    exact (agree_remove hr hparams har s hrow).trans
      (hboth.trans (agree_remove hq hparams haq t hrow).symm)

theorem agree_addAll {removing removing' : Bool} (hr : Ordered removing r.ops)
    (hq : Ordered removing' q.ops) (hparams : a.paramCount = 0) (har : ⟨a, []⟩ ∈ r.ops)
    (haq : ⟨a, []⟩ ∈ q.ops) (h : a.Agree s t) (rows : List (List Value)) :
    a.Agree (r.addAll s rows) (q.addAll t rows) := by
  induction rows generalizing s t with
  | nil => exact h
  | cons row rows ih => exact ih (agree_add_add hr hq hparams har haq h row)

/-- Events leave both in agreement. -/
theorem agree_run (hr : Ordered true r.ops) (hq : Ordered true q.ops) (hparams : a.paramCount = 0)
    (har : ⟨a, []⟩ ∈ r.ops) (haq : ⟨a, []⟩ ∈ q.ops) (h : a.Agree s t)
    (hvalues : arrayAgg ∈ a.dependencies true → arrayAgg.Agree s t) (events : List Event) :
    a.Agree (r.run s events) (q.run t events) := by
  induction events generalizing s t with
  | nil => exact h
  | cons e events ih =>
    cases e with
    | enter row =>
      exact ih (agree_add_add hr hq hparams har haq h row) fun hmem =>
        agree_add_add hr hq rfl (hr.dependency_mem har hmem) (hq.dependency_mem haq hmem)
          (hvalues hmem) row
    | leave row =>
      refine ih (agree_remove_remove hr hq hparams har haq h (fun hmem => (hvalues hmem).2.2) row)
        fun hmem => ?_
      exact agree_remove_remove hr hq rfl (hr.dependency_mem har hmem) (hq.dependency_mem haq hmem)
        (hvalues hmem)
        (fun hnone => by cases hnone) row

end Steps

/-- The value of an aggregate does not depend on those that it shares its state with. -/
theorem valueAt_run_eq_alone {F : Type} {r : Reducer F} (hr : Ordered true r.ops) {place : Nat}
    {op : AggregateOp} (hop : r.ops[place]? = some op) (events : List Event) :
    r.valueAt (r.run r.start events) place
      = op.aggregate.value op.params (op.aggregate.keeper.alone events) := by
  have hmem := hr.keeper_mem (List.mem_of_getElem? hop)
  have hslider := op.aggregate.keeper.mem_slider
  have hparams := op.aggregate.paramCount_keeper
  unfold valueAt
  rw [hop]
  refine Aggregate.value_congr ?_ op.params
  have hordered := op.aggregate.keeper.ordered_slider
  refine agree_run hr hordered hparams hmem hslider ?_ (fun hread => ?_) events
  · exact (agree_start hr hparams hmem).trans (agree_start hordered hparams hslider).symm
  · exact (agree_start hr rfl (hr.dependency_mem hmem hread)).trans
      (agree_start hordered rfl (hordered.dependency_mem hslider hread)).symm

end Reducer

/-- Reducers that keep up an aggregate and take the same rows in read the same value off their
    states. -/
theorem Reducer.value_addAll_eq {F G : Type} {r : Reducer F} {q : Reducer G}
    {removing removing' : Bool} (hr : Ordered removing r.ops) (hq : Ordered removing' q.ops)
    {a : Aggregate} (har : ⟨a.keeper, []⟩ ∈ r.ops) (haq : ⟨a.keeper, []⟩ ∈ q.ops)
    (params : List Value) (rows : List (List Value)) :
    a.value params (r.addAll r.start rows) = a.value params (q.addAll q.start rows) := by
  have hparams := a.paramCount_keeper
  refine Aggregate.value_congr ?_ params
  refine Reducer.agree_addAll hr hq hparams har haq ?_ rows
  exact (agree_start hr hparams har).trans (agree_start hq hparams haq).symm

/-- What a reducer gives for an aggregate after taking rows in is the value computed afresh. -/
theorem Reducer.valueAt_addAll_eq_fresh {F : Type} {r : Reducer F} {removing : Bool}
    (hr : Ordered removing r.ops) {place : Nat} {op : AggregateOp} (hop : r.ops[place]? = some op)
    (rows : List (List Value)) : r.valueAt (r.addAll r.start rows) place = op.fresh rows := by
  have hmem := List.mem_of_getElem? hop
  obtain ⟨own, -, hown⟩ := op.getElem?_reducer false
  have hordered := AggregateOp.ordered_reducer (hr.fits op hmem) false
  rw [op.fresh_eq]
  unfold valueAt
  rw [hop]
  exact value_addAll_eq hr hordered (hr.keeper_mem hmem)
    (hordered.keeper_mem (List.mem_of_getElem? hown)) op.params rows

/-- A value computed afresh is that of the aggregate alone after the rows have come in. -/
theorem AggregateOp.fresh_eq_alone {op : AggregateOp} (hfits : op.Fits)
    (rows : List (List Value)) :
    op.fresh rows = op.aggregate.value op.params (op.aggregate.keeper.alone (rows.map .enter)) := by
  obtain ⟨place, -, hplace⟩ := op.getElem?_reducer false
  have hordered := ordered_reducer hfits false
  rw [op.fresh_eq]
  unfold Aggregate.alone
  rw [Reducer.run_enter]
  exact Reducer.value_addAll_eq hordered op.aggregate.keeper.ordered_slider
    (hordered.keeper_mem (List.mem_of_getElem? hplace)) op.aggregate.keeper.mem_slider op.params rows

end ColumnQuery
