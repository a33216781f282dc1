/-
  Sliding values and values computed afresh.

  `AggregateOp.fresh` is the value of an aggregate by a reducer of its own that takes rows in and
  lets none go. For the aggregates that read only counts, held values, entries, extreme values or
  the number of distinct values (`Settled`) the state after any events reads as the state after
  taking in the rows that are held in the end, so the two values are equal
  (`valueAt_run_eq_fresh`). The counts are those of the rows held in every reducer, so they never
  stop at zero while the oldest row goes out first (`counts_remove_of_queue`).
-/
import ColumnQuery.Proofs.Aggregate.Held
import ColumnQuery.Proofs.Window.Slide

namespace ColumnQuery

/-! ## Values computed afresh -/

namespace AggregateOp

/-- A reducer for one aggregate alone, with or without the removal of rows. -/
def reducer (removing : Bool) (op : AggregateOp) : Reducer Unit :=
  Reducer.addCall removing ⟨[], [], []⟩ 0 op

/-- The value of an aggregate over rows, all taken in by a reducer of its own. -/
def fresh (op : AggregateOp) (rows : List (List Value)) : Value :=
  let r := op.reducer false
  .ofOption ((r.values (r.addAll r.start rows)).lookup 0)

theorem ordered_reducer {op : AggregateOp} (h : op.Fits) (removing : Bool) :
    Ordered removing (op.reducer removing).ops :=
  Reducer.ordered_withOps_expansion .nil h

theorem getElem?_reducer (removing : Bool) (op : AggregateOp) :
    ∃ place, (op.reducer removing).outputs = [(0, place)] ∧
      (op.reducer removing).ops[place]? = some op := by
  obtain ⟨kept, hkept, hsame⟩ := Reducer.exists_place_withOps_expansion removing [] op
  have hop : kept = op := by
    rcases Reducer.mem_of_mem_withOps _ _ (List.mem_of_getElem? hkept) with hnone | hmem
    · cases hnone
    · exact (Reducer.mem_expansion hmem).elim
        (fun hnil => (eq_of_same_of_nil (same_symm hsame) hnil).symm) id
  exact ⟨_, rfl, hkept.trans (congrArg some hop)⟩

/-- The value is read off the state of its own reducer. -/
theorem fresh_eq (op : AggregateOp) (rows : List (List Value)) :
    op.fresh rows = op.aggregate.value op.params
      ((op.reducer false).addAll (op.reducer false).start rows) := by
  obtain ⟨place, houtputs, hplace⟩ := op.getElem?_reducer false
  unfold fresh Reducer.values
  dsimp only
  rw [houtputs]
  show Value.ofOption (some ((op.reducer false).valueAt _ place)) = _
  unfold Reducer.valueAt
  rw [hplace]
  rfl

end AggregateOp

/-! ## The part that is read -/

namespace Aggregate

/-- The aggregate that keeps up what the value of an aggregate is read off. -/
def keeper (a : Aggregate) : Aggregate := a.requires.headD a

theorem paramCount_keeper (a : Aggregate) : a.keeper.paramCount = 0 := by
  cases a <;> rfl

/-- The aggregates whose value depends on the rows held alone. -/
def Settled (a : Aggregate) : Prop :=
  a ∈ [count, valid, invalid, any, arrayAgg, distinct, min, max, median, quantile, objectAgg,
    entriesAgg]

/-- Two states that hold the same rows give the same value. -/
theorem Settled.value_eq {a : Aggregate} (ha : a.Settled) {held : List (List Value)}
    {s t : AggregateState Float} (hs : a.keeper.Holds held s) (ht : a.keeper.Holds held t)
    (params : List Value) : a.value params s = a.value params t := by
  obtain ⟨hscount, hsvalid, hspart⟩ := hs
  obtain ⟨htcount, htvalid, htpart⟩ := ht
  have hcount := hscount.trans htcount.symm
  have hvalid := hsvalid.trans htvalid.symm
  unfold Settled at ha
  cases a
  case count => exact congrArg Value.ofNat hcount
  case valid => exact congrArg Value.ofNat hvalid
  case invalid => exact congrArg Value.ofNat (congrArg₂ (· - ·) hcount hvalid)
  case any => exact congrArg Value.ofOption (hspart.trans htpart.symm)
  case arrayAgg => exact congrArg Value.array (hspart.trans htpart.symm)
  case distinct => exact congrArg Value.ofNat (Tally.length_eq hspart htpart)
  case min => exact congrArg Value.ofOption (hspart.trans htpart.symm)
  case max => exact congrArg Value.ofOption (hspart.trans htpart.symm)
  case median => exact congrArg (quantileOf · 0.5) (hspart.trans htpart.symm)
  case quantile => exact congrArg (quantileOf · _) (hspart.trans htpart.symm)
  case objectAgg =>
    exact congrArg (fun es : List (Value × Value) => Value.ofFields (es.map fun e => (e.1.text, e.2)))
      (hspart.trans htpart.symm)
  case entriesAgg =>
    exact congrArg (fun es : List (Value × Value) => Value.array (es.map fun e => .array [e.1, e.2]))
      (hspart.trans htpart.symm)
  all_goals simp at ha

end Aggregate

theorem Ordered.keeper_mem {removing : Bool} {ops : List AggregateOp} (h : Ordered removing ops)
    {op : AggregateOp} (hop : op ∈ ops) : ⟨op.aggregate.keeper, []⟩ ∈ ops := by
  cases hrequires : op.aggregate.requires with
  | nil =>
    have hkeeper : op.aggregate.keeper = op.aggregate := by
      unfold Aggregate.keeper
      rw [hrequires]
      rfl
    have hparams : op.params = [] := by
      have hzero : op.aggregate.paramCount = 0 := by
        rw [← hkeeper]
        exact op.aggregate.paramCount_keeper
      have hfits := h.fits op hop
      unfold AggregateOp.Fits at hfits
      rw [hzero] at hfits
      exact List.eq_nil_of_length_eq_zero (Nat.le_zero.1 hfits)
    rw [hkeeper, ← hparams]
    exact hop
  | cons d rest =>
    have hkeeper : op.aggregate.keeper = d := by
      unfold Aggregate.keeper
      rw [hrequires]
      rfl
    rw [hkeeper]
    refine h.dependency_mem hop (List.mem_append_left _ ?_)
    rw [hrequires]
    exact List.mem_cons_self

/-! ## Runs -/

namespace Reducer

open Aggregate

variable {F N : Type} [Quantity N] {r : Reducer F} {removing : Bool} {a : Aggregate}

/-- Nothing is held at the start. -/
theorem holds_start (r : Reducer F) (a : Aggregate) :
    a.Holds [] (r.start : AggregateState N) := by
  have hempty : a.Holds [] (AggregateState.empty : AggregateState N) := by
    refine ⟨rfl, rfl, ?_⟩
    cases a <;> first | trivial | rfl | exact tally_nil
  have hkeeps : ∀ (ops : List AggregateOp) (s : AggregateState N), a.Holds [] s →
      a.Holds [] (ops.foldl (fun s op => op.aggregate.start s) s) := by
    intro ops
    induction ops with
    | nil => exact fun s hs => hs
    | cons op ops ih =>
      refine fun s hs => ih _ ?_
      dsimp only
      unfold Aggregate.start
      split
      · cases a <;> exact hs
      · exact hs
  exact hkeeps r.ops _ hempty

/-- The counts after any events are those of the rows held. -/
theorem holds_count_run (r : Reducer F) {events : List Event} {held : List (List Value)}
    (hqueue : Event.Queue [] events held) :
    count.Holds held (r.run r.start events : AggregateState N) :=
  run_keeps r (fun _ => True) count.Holds (fun _ _ row _ hs => holds_count_add r row hs)
    (fun _ _ _ _ hs => holds_count_remove r hs) hqueue (fun _ _ => trivial) (holds_start r count)

/-- The oldest row is counted when it goes out, so the counts do not stop at zero. -/
theorem counts_remove_of_queue (r : Reducer F) {events : List Event} {row : List Value}
    {held : List (List Value)} (hqueue : Event.Queue [] (events ++ [.leave row]) held) :
    let s : AggregateState N := r.run r.start events
    (r.remove s row).count + 1 = s.count ∧
    (row.all Value.isValid = true → (r.remove s row).valid + 1 = s.valid) := by
  obtain ⟨before, hbefore, hlast⟩ := hqueue.exists_between
  cases hlast with
  | leave hdone =>
    cases hdone
    obtain ⟨hcount, hvalid, -⟩ := holds_count_run (N := N) r hbefore
    obtain ⟨hless, hlessValid, -⟩ := holds_count_run (N := N) r hqueue
    rw [run_append] at hless hlessValid
    refine ⟨?_, fun hrow => ?_⟩
    · rw [hcount, List.length_cons]
      exact congrArg (· + 1) hless
    · rw [hvalid, validRows_cons_valid held hrow, List.length_cons]
      exact congrArg (· + 1) hlessValid

theorem holds_addAll (h : Ordered removing r.ops) (hparams : a.paramCount = 0)
    (ha : ⟨a, []⟩ ∈ r.ops) (rows : List (List Value)) {held : List (List Value)}
    {s : AggregateState N} (hs : a.Holds held s) : a.Holds (held ++ rows) (r.addAll s rows) := by
  induction rows generalizing held s with
  | nil =>
    rw [List.append_nil]
    exact hs
  | cons row rows ih =>
    have hrest := ih (holds_add h hparams ha hs row)
    rwa [List.append_assoc, List.singleton_append] at hrest

/-- After any events the part of an aggregate is that of the rows held in the end. Along the way
    the state keeps whatever one row in and one row out keep, given that its part is that of the
    rows held and so is what it reads. -/
theorem holds_run_keeps (h : Ordered true r.ops) (hparams : a.paramCount = 0)
    (ha : ⟨a, []⟩ ∈ r.ops) {P : List (List Value) → AggregateState N → Prop}
    (hstart : P [] r.start)
    (hadd : ∀ held s row, a.Holds held s → P held s → P (held ++ [row]) (r.add s row))
    (hremove : ∀ held s row, a.Holds (row :: held) s →
      (arrayAgg ∈ a.dependencies true → arrayAgg.Holds (row :: held) s) → P (row :: held) s →
        P held (r.remove s row))
    {events : List Event} {held : List (List Value)} (hqueue : Event.Queue [] events held)
    (hrows : a = any → ∀ e ∈ events, e.fields ≠ []) :
    a.Holds held (r.run r.start events : AggregateState N) ∧ P held (r.run r.start events) := by
  let Q (held : List (List Value)) (s : AggregateState N) : Prop :=
    a.Holds held s ∧ (arrayAgg ∈ a.dependencies true → arrayAgg.Holds held s) ∧ P held s
  -- what the aggregate reads is kept up as well
  have hread : arrayAgg ∈ a.dependencies true → ⟨arrayAgg, []⟩ ∈ r.ops := h.dependency_mem ha
  have hadd : ∀ held s row, (a = any → row ≠ []) → Q held s → Q (held ++ [row]) (r.add s row) :=
    fun held s row _ hs => ⟨holds_add h hparams ha hs.1 row,
      fun hmem => holds_add h rfl (hread hmem) (hs.2.1 hmem) row, hadd held s row hs.1 hs.2.2⟩
  have hremove : ∀ held s row, (a = any → row ≠ []) → Q (row :: held) s → Q held (r.remove s row) :=
    fun held s row hrow hs => ⟨holds_remove h hparams ha hs.1 hs.2.1 hrow,
      fun hmem => holds_remove h rfl (hread hmem) (hs.2.1 hmem) (by simp [dependencies, requires,
        requiresToRemove]) (by simp),
      hremove held s row hs.1 hs.2.1 hs.2.2⟩
  have hstart : Q [] r.start := ⟨holds_start r a, fun _ => holds_start r arrayAgg, hstart⟩
  obtain ⟨hholds, -, hkept⟩ := run_keeps r (fun row => a = any → row ≠ []) Q hadd hremove hqueue
    (fun e he hany => hrows hany e he) hstart
  exact ⟨hholds, hkept⟩

theorem holds_run (h : Ordered true r.ops) (hparams : a.paramCount = 0) (ha : ⟨a, []⟩ ∈ r.ops)
    {events : List Event} {held : List (List Value)} (hqueue : Event.Queue [] events held)
    (hrows : a = any → ∀ e ∈ events, e.fields ≠ []) :
    a.Holds held (r.run r.start events : AggregateState N) :=
  (holds_run_keeps (P := fun _ _ => True) h hparams ha trivial (fun _ _ _ _ _ => trivial)
    (fun _ _ _ _ _ _ => trivial) hqueue hrows).1

end Reducer

/-! ## Sliding values -/

/-- The value of a settled aggregate after any events is its value computed afresh from the rows
    that are held. -/
theorem Reducer.valueAt_run_eq_fresh {F : Type} {r : Reducer F} (h : Ordered true r.ops)
    {place : Nat} {op : AggregateOp} (hop : r.ops[place]? = some op)
    (ha : op.aggregate.Settled) {events : List Event} {held : List (List Value)}
    (hqueue : Event.Queue [] events held)
    (hrows : op.aggregate = .any → ∀ e ∈ events, e.fields ≠ []) :
    r.valueAt (r.run r.start events) place = op.fresh held := by
  have hmem := List.mem_of_getElem? hop
  have hkeeper := op.aggregate.paramCount_keeper
  have hslid : op.aggregate.keeper.Holds held (r.run r.start events : AggregateState Float) := by
    refine holds_run h hkeeper (h.keeper_mem hmem) hqueue fun hany => hrows ?_
    revert hany
    unfold Aggregate.keeper
    cases op.aggregate <;> simp [Aggregate.requires]
  obtain ⟨own, -, hown⟩ := op.getElem?_reducer false
  have hordered := AggregateOp.ordered_reducer (h.fits op hmem) false
  have hfresh := holds_addAll hordered hkeeper
    (hordered.keeper_mem (List.mem_of_getElem? hown)) held
    (holds_start (N := Float) (op.reducer false) op.aggregate.keeper)
  rw [op.fresh_eq]
  unfold valueAt
  rw [hop]
  exact ha.value_eq hslid hfresh op.params

/-- Two valid values are counted once if they are the same. -/
theorem AggregateOp.fresh_distinct_pair {a b : Value} (ha : a.isValid = true)
    (hb : b.isValid = true) : fresh ⟨.distinct, []⟩ [[a], [b]] =
      .ofNat (if a.same b then 1 else 2) := by
  have hfits : Fits ⟨.distinct, []⟩ := Nat.le_refl 0
  have hordered := ordered_reducer hfits false
  obtain ⟨place, -, hplace⟩ := getElem?_reducer false ⟨.distinct, []⟩
  have hheld := Reducer.holds_addAll hordered rfl (List.mem_of_getElem? hplace) [[a], [b]]
    (Reducer.holds_start (N := Float) (reducer false ⟨.distinct, []⟩) .distinct)
  have hfields : firstFields ([] ++ [[a], [b]]) = [a, b] := by
    simp [firstFields, validRows, ha, hb, Aggregate.firstField]
  have htally : Tally _ (firstFields ([] ++ [[a], [b]])) := hheld.2.2
  have htwo : Tally (countValue b (countValue a [])) [a, b] := (tally_nil.countValue a).countValue b
  rw [hfields] at htally
  rw [fresh_eq]
  refine congrArg Value.ofNat ((htally.length_eq htwo).trans ?_)
  simp only [countValue]
  split <;> rfl

end ColumnQuery
