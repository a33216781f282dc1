/-
  Streaming moments are exact.

  Rows come in at the end, and the oldest row goes out. In exact arithmetic the sum, the product,
  the moments and the co-moments that are kept up are then, after every step, those of the rows
  held (`Exact`, `exact_run`): they do not show which rows were held before. A product cannot give
  a zero back by division; it is then multiplied out from the values still held, and the aggregate
  that holds them has let go of the zero by that time. On doubles the same recurrences run, and
  every step of them rounds.
-/
import ColumnQuery.Proofs.Aggregate.Batch
import ColumnQuery.Proofs.Aggregate.Fresh

namespace ColumnQuery

/-! ## Observations -/

/-- The numbers that the first fields of the valid rows read as. -/
def numbers (held : List (List Value)) : List Rat :=
  (validRows held).map (Aggregate.quantityField · 0)

/-- The numbers that the first two fields of the valid rows read as. -/
def numberPairs (held : List (List Value)) : List (Rat × Rat) :=
  (validRows held).map fun row => (Aggregate.quantityField row 0, Aggregate.quantityField row 1)

section Held

variable (held : List (List Value)) {row : List Value}

theorem length_numbers : (numbers held).length = (validRows held).length := List.length_map _

theorem length_numberPairs : (numberPairs held).length = (validRows held).length :=
  List.length_map _

theorem numbers_append_valid (h : row.all Value.isValid = true) :
    numbers (held ++ [row]) = numbers held ++ [Aggregate.quantityField row 0] := by
  unfold numbers
  rw [validRows_append_valid held h, List.map_append]
  rfl

theorem numberPairs_append_valid (h : row.all Value.isValid = true) :
    numberPairs (held ++ [row])
      = numberPairs held ++ [(Aggregate.quantityField row 0, Aggregate.quantityField row 1)] := by
  unfold numberPairs
  rw [validRows_append_valid held h, List.map_append]
  rfl

theorem numbers_cons_valid (h : row.all Value.isValid = true) :
    numbers (row :: held) = Aggregate.quantityField row 0 :: numbers held := by
  unfold numbers
  rw [validRows_cons_valid held h, List.map_cons]

theorem numberPairs_cons_valid (h : row.all Value.isValid = true) :
    numberPairs (row :: held)
      = (Aggregate.quantityField row 0, Aggregate.quantityField row 1) :: numberPairs held := by
  unfold numberPairs
  rw [validRows_cons_valid held h, List.map_cons]

end Held

/-- The first fields of the valid rows read as the numbers listed, all of them finite. -/
def Observes (held : List (List Value)) (xs : List Rat) : Prop :=
  (validRows held).map (fun row => row[0]?.bind Value.rational?) = xs.map some

/-- The first two fields of the valid rows read as the pairs listed, all of them finite. -/
def ObservesPairs (held : List (List Value)) (ps : List (Rat × Rat)) : Prop :=
  (validRows held).map (fun row => (row[0]?.bind Value.rational?, row[1]?.bind Value.rational?))
    = ps.map fun p => (some p.1, some p.2)

instance (held : List (List Value)) (xs : List Rat) : Decidable (Observes held xs) :=
  inferInstanceAs (Decidable (_ = _))

instance (held : List (List Value)) (ps : List (Rat × Rat)) : Decidable (ObservesPairs held ps) :=
  inferInstanceAs (Decidable (_ = _))

theorem quantityField_of_rational {row : List Value} {i : Nat} {x : Rat}
    (h : row[i]?.bind Value.rational? = some x) : Aggregate.quantityField row i = x := by
  obtain ⟨v, hv, hx⟩ := Option.bind_eq_some_iff.1 h
  unfold Aggregate.quantityField
  rw [hv]
  exact congrArg (Option.getD · 0) hx

theorem numbers_of_observes {held : List (List Value)} {xs : List Rat} (h : Observes held xs) :
    numbers held = xs :=
  map_eq_of_map_eq_map (fun _ _ hx => quantityField_of_rational hx) h

theorem numberPairs_of_observes {held : List (List Value)} {ps : List (Rat × Rat)}
    (h : ObservesPairs held ps) : numberPairs held = ps := by
  refine map_eq_of_map_eq_map (fun row p hp => ?_) h
  injection hp with hx hy
  rw [quantityField_of_rational hx, quantityField_of_rational hy]

/-- The first field of a row, or null, reads as the row does, with or without a field. -/
theorem ofValue_firstField (row : List Value) :
    (Quantity.ofValue (Aggregate.firstField row) : Rat) = Aggregate.quantityField row 0 := by
  cases row with
  | nil => rfl
  | cons v row => rfl

theorem productOf_eq (values : Array Value) :
    (Aggregate.productOf values : Rat) = (values.toList.map Quantity.ofValue).prod := by
  unfold Aggregate.productOf
  rw [← Array.foldl_toList, List.prod_eq_foldl, List.foldl_map]
  rfl

namespace Aggregate

/-- In exact arithmetic, the part that an aggregate keeps up is that of the rows held. -/
def Exact (a : Aggregate) (held : List (List Value)) (s : AggregateState Rat) : Prop :=
  match a with
  | sum => s.sum = (numbers held).sum
  | product => s.product = (numbers held).prod
  | mean => s.moments = Batch.moments (numbers held)
  | covariance => s.coMoments = Batch.coMoments (numberPairs held)
  | _ => True

variable {a : Aggregate} {held : List (List Value)} {s t : AggregateState Rat} {row : List Value}

theorem Exact.of_agree (hst : a.Agree s t) (h : a.Exact held t) : a.Exact held s := by
  obtain ⟨-, -, hpart⟩ := hst
  cases a <;> first | trivial | exact hpart.trans h

/-- A valid row comes in. -/
theorem Exact.absorb (h : a.Exact held s) (hvalid : s.valid = (validRows held).length)
    (hrow : row.all Value.isValid = true) :
    a.Exact (held ++ [row])
      (a.absorb { s with count := s.count + 1, valid := s.valid + 1 } row) := by
  cases a with
  | sum =>
    show s.sum + quantityField row 0 = (numbers (held ++ [row])).sum
    rw [numbers_append_valid held hrow, List.sum_append, List.sum_singleton]
    exact congrArg (· + _) h
  | product =>
    show s.product * quantityField row 0 = (numbers (held ++ [row])).prod
    rw [numbers_append_valid held hrow, List.prod_append, List.prod_singleton]
    exact congrArg (· * _) h
  | mean =>
    show s.moments.add (s.valid + 1) (quantityField row 0) = Batch.moments _
    rw [numbers_append_valid held hrow, ← Batch.add_moments, length_numbers, ← hvalid, ← h]
  | covariance =>
    show s.coMoments.add (s.valid + 1) (quantityField row 0) (quantityField row 1) = _
    rw [numberPairs_append_valid held hrow, ← Batch.add_coMoments, length_numberPairs, ← hvalid,
      ← h]
  | _ => trivial

/-- The oldest row, a valid one, goes out. -/
theorem Exact.release (h : a.Exact (row :: held) s)
    (hvalid : s.valid = (validRows (row :: held)).length) (hrow : row.all Value.isValid = true)
    (hvalues : arrayAgg ∈ a.dependencies true → s.values.toList = firstFields (row :: held)) :
    a.Exact held (a.release (a.vacated s) row) := by
  rw [validRows_cons_valid held hrow, List.length_cons] at hvalid
  have hcount : s.valid - 1 = (validRows held).length := by omega
  cases a with
  | sum =>
    have hsum : s.sum = quantityField row 0 + (numbers held).sum := by
      rw [← List.sum_cons, ← numbers_cons_valid held hrow]
      exact h
    show s.sum - quantityField row 0 = (numbers held).sum
    rw [hsum]
    exact add_sub_cancel_left _ _
  | product =>
    have hproduct : s.product = quantityField row 0 * (numbers held).prod := by
      rw [← List.prod_cons, ← numbers_cons_valid held hrow]
      exact h
    show (if ((quantityField row 0 : Rat) == 0) = true then productOf (vacated product s).values
      else s.product / quantityField row 0) = (numbers held).prod
    split
    next =>
      -- the values that are read have let go of the zero
      have hheld : (vacated product s).values.toList = firstFields held := by
        unfold vacated
        dsimp only
        rw [if_pos (by decide), toList_dropOldest, hvalues (by decide),
          firstFields_cons_valid held hrow, List.tail_cons]
      rw [productOf_eq, hheld, firstFields, List.map_map]
      exact congrArg List.prod (List.map_congr_left fun row _ => ofValue_firstField row)
    next hzero =>
      have hne : (quantityField row 0 : Rat) ≠ 0 := by simpa using hzero
      rw [hproduct]
      exact mul_div_cancel_left₀ _ hne
  | mean =>
    have hmoments : s.moments = Batch.moments (quantityField row 0 :: numbers held) := by
      rw [← numbers_cons_valid held hrow]
      exact h
    show s.moments.remove (s.valid - 1) (quantityField row 0) = _
    rw [hmoments, hcount, ← length_numbers]
    exact Batch.remove_moments _ _
  | covariance =>
    have hmoments : s.coMoments
        = Batch.coMoments ((quantityField row 0, quantityField row 1) :: numberPairs held) := by
      rw [← numberPairs_cons_valid held hrow]
      exact h
    show s.coMoments.remove (s.valid - 1) (quantityField row 0) (quantityField row 1) = _
    rw [hmoments, hcount, ← length_numberPairs]
    exact Batch.remove_coMoments _ _
  | _ => trivial

/-- A row that is not valid is no observation. -/
theorem Exact.congr {held' : List (List Value)} (h : a.Exact held s)
    (hvalid : validRows held = validRows held') (n : Nat) :
    a.Exact held' { s with count := n } := by
  unfold Exact numbers numberPairs at *
  rw [← hvalid]
  exact h

end Aggregate

namespace Reducer

open Aggregate

variable {F : Type} {r : Reducer F} {a : Aggregate} {held : List (List Value)}
  {s : AggregateState Rat} {row : List Value}

theorem exact_start (h : Ordered true r.ops) (hparams : a.paramCount = 0)
    (ha : ⟨a, []⟩ ∈ r.ops) : a.Exact [] (r.start : AggregateState Rat) := by
  refine Exact.of_agree (agree_start h hparams ha) ?_
  cases a with
  | mean => exact Batch.moments_nil.symm
  | covariance => exact Batch.coMoments_nil.symm
  | sum | product => rfl
  | _ => trivial

theorem exact_add (h : Ordered true r.ops) (hparams : a.paramCount = 0) (ha : ⟨a, []⟩ ∈ r.ops)
    (hvalid : s.valid = (validRows held).length) (hs : a.Exact held s) (row : List Value) :
    a.Exact (held ++ [row]) (r.add s row) := by
  cases hrow : row.all Value.isValid with
  | true => exact (hs.absorb hvalid hrow).of_agree (agree_add h hparams ha s hrow)
  | false =>
    exact (hs.congr (validRows_append_invalid held hrow).symm _).of_agree
      (agree_add_invalid a s hrow)

theorem exact_remove (h : Ordered true r.ops) (hparams : a.paramCount = 0) (ha : ⟨a, []⟩ ∈ r.ops)
    (hvalid : s.valid = (validRows (row :: held)).length) (hs : a.Exact (row :: held) s)
    (hvalues : arrayAgg ∈ a.dependencies true → s.values.toList = firstFields (row :: held)) :
    a.Exact held (r.remove s row) := by
  cases hrow : row.all Value.isValid with
  | true => exact (hs.release hvalid hrow hvalues).of_agree (agree_remove h hparams ha s hrow)
  | false =>
    exact (hs.congr (validRows_cons_invalid held hrow) _).of_agree
      (agree_remove_invalid a s hrow)

/-- After any events the part of an aggregate is that of the rows held in the end. -/
theorem exact_run (h : Ordered true r.ops) (hparams : a.paramCount = 0) (hany : a ≠ any)
    (ha : ⟨a, []⟩ ∈ r.ops) {events : List Event} (hqueue : Event.Queue [] events held) :
    (r.run r.start events : AggregateState Rat).valid = (validRows held).length ∧
      a.Exact held (r.run r.start events) := by
  obtain ⟨hholds, hexact⟩ := holds_run_keeps h hparams ha (exact_start h hparams ha)
    (fun held s row hs hexact => exact_add h hparams ha hs.2.1 hexact row)
    (fun held s row hs hvalues hexact =>
      exact_remove h hparams ha hs.2.1 hexact fun hmem => (hvalues hmem).2.2)
    hqueue (absurd · hany)
  exact ⟨hholds.2.1, hexact⟩

/-- The reducer keeps up what the values of some of its calls are read off. -/
def KeepsUp (r : Reducer F) (a : Aggregate) : Prop := ∃ op ∈ r.ops, op.aggregate.keeper = a

theorem exact_of_keepsUp (h : Ordered true r.ops) (ha : r.KeepsUp a) (hany : a ≠ any)
    {events : List Event} (hqueue : Event.Queue [] events held) :
    (r.run r.start events : AggregateState Rat).valid = (validRows held).length ∧
      a.Exact held (r.run r.start events) := by
  obtain ⟨op, hop, rfl⟩ := ha
  exact exact_run h op.aggregate.paramCount_keeper hany (h.keeper_mem hop) hqueue

end Reducer

/-! ## What is read off -/

/-- A total over the number of observations, or over one less; without observations the total
    is zero. -/
theorem div_count {total : Rat} {n : Nat} (htotal : n = 0 → total = 0) (sample : Bool) :
    total / ((if sample then n - 1 else n : Nat) : Rat)
      = total / (if sample then (n : Rat) - 1 else n) := by
  cases sample with
  | false => rfl
  | true =>
    cases n with
    | zero => simp [htotal rfl]
    | succ n => simp

namespace AggregateState

variable {s : AggregateState Rat}

theorem variance_eq {xs : List Rat} (hvalid : s.valid = xs.length)
    (hs : s.moments = Batch.moments xs) (sample : Bool) :
    s.variance sample = Batch.variance sample xs := by
  have hempty : xs.length = 0 → Batch.deviation xs = 0 := by
    intro hxs
    rw [List.eq_nil_of_length_eq_zero hxs]
    rfl
  unfold variance Batch.variance
  rw [hs, hvalid, ← div_count hempty]
  rfl

theorem covariance_eq {ps : List (Rat × Rat)} (hvalid : s.valid = ps.length)
    (hs : s.coMoments = Batch.coMoments ps) (sample : Bool) :
    s.covariance sample = Batch.covariance sample ps := by
  have hempty : ps.length = 0 → Batch.coDeviation ps = 0 := by
    intro hps
    rw [List.eq_nil_of_length_eq_zero hps]
    rfl
  unfold covariance Batch.covariance
  rw [hs, hvalid, ← div_count hempty]
  rfl

end AggregateState

/-- In exact arithmetic a reducer of calls that takes rows in, and lets the oldest ones go, keeps up
    after every step the sum, the product, the mean and the deviation of the observations that it
    holds then, and of pairs the two means, the two deviations and the co-deviation. The variance
    and the covariance, of a sample and of a population, are those of the formulas over all
    observations at once. Rows with a field that is not valid are no observations. -/
theorem moments_exact {F K : Type} {sameKey : K → K → Bool}
    (hequiv : Equivalence fun k l => sameKey k l = true) {calls : List (ReducerCall F K)}
    (hfits : ∀ c ∈ calls, c.op.Fits)
    {r : Reducer F} (hr : r ∈ Reducer.build sameKey true calls) {events : List Event}
    {held : List (List Value)} (hqueue : Event.Queue [] events held) {s : AggregateState Rat}
    (hs : r.run r.start events = s) :
    (∀ i place, (i, place) ∈ r.outputs → ∃ c op, calls[i]? = some c ∧
      r.ops[place]? = some op ∧ op.same c.op = true ∧ r.KeepsUp c.op.aggregate.keeper) ∧
    (∀ xs, Observes held xs →
      (r.KeepsUp .sum → s.sum = xs.sum) ∧ (r.KeepsUp .product → s.product = xs.prod) ∧
      (r.KeepsUp .mean → s.valid = xs.length ∧
        s.moments = ⟨Batch.mean xs, Batch.deviation xs⟩ ∧
        ∀ sample, s.variance sample = Batch.variance sample xs)) ∧
    (∀ ps, ObservesPairs held ps → r.KeepsUp .covariance → s.valid = ps.length ∧
      s.coMoments = ⟨Batch.mean (ps.map (·.1)), Batch.mean (ps.map (·.2)),
        Batch.deviation (ps.map (·.1)), Batch.deviation (ps.map (·.2)), Batch.coDeviation ps⟩ ∧
      ∀ sample, s.covariance sample = Batch.covariance sample ps) ∧
    (validRows held = [] →
      (r.KeepsUp .sum → s.sum = 0) ∧ (r.KeepsUp .product → s.product = 1) ∧
      (r.KeepsUp .mean → s.moments = ⟨0, 0⟩) ∧
      (r.KeepsUp .covariance → s.coMoments = ⟨0, 0, 0, 0, 0⟩)) := by
  obtain ⟨key, -, hkeeps, -⟩ := Reducer.build_keeps hequiv hfits hr
  have hexact : ∀ a, a ≠ .any → r.KeepsUp a →
      s.valid = (validRows held).length ∧ a.Exact held s := by
    intro a hany ha
    rw [← hs]
    exact Reducer.exact_of_keepsUp hkeeps.ordered ha hany hqueue
  have hnumbers : ∀ xs, Observes held xs →
      (r.KeepsUp .sum → s.sum = xs.sum) ∧ (r.KeepsUp .product → s.product = xs.prod) ∧
      (r.KeepsUp .mean → s.valid = xs.length ∧ s.moments = Batch.moments xs) := by
    intro xs hxs
    obtain rfl := numbers_of_observes hxs
    refine ⟨fun ha => (hexact .sum nofun ha).2, fun ha => (hexact .product nofun ha).2,
      fun ha => ?_⟩
    obtain ⟨hvalid, hmoments⟩ := hexact .mean nofun ha
    exact ⟨hvalid.trans (List.length_map _).symm, hmoments⟩
  have hpairs : ∀ ps, ObservesPairs held ps → r.KeepsUp .covariance →
      s.valid = ps.length ∧ s.coMoments = Batch.coMoments ps := by
    intro ps hps ha
    obtain rfl := numberPairs_of_observes hps
    obtain ⟨hvalid, hmoments⟩ := hexact .covariance nofun ha
    exact ⟨hvalid.trans (List.length_map _).symm, hmoments⟩
  refine ⟨fun i place hplace => ?_, fun xs hxs => ?_, fun ps hps ha => ?_, fun hnone => ?_⟩
  · obtain ⟨c, op, hc, -, hop, hsame⟩ := hkeeps.outputs i place hplace
    refine ⟨c, op, hc, hop, hsame, op, List.mem_of_getElem? hop, ?_⟩
    rw [AggregateOp.aggregate_of_same hsame]
  · obtain ⟨hsum, hproduct, hmean⟩ := hnumbers xs hxs
    refine ⟨hsum, hproduct, fun ha => ?_⟩
    obtain ⟨hvalid, hmoments⟩ := hmean ha
    exact ⟨hvalid, hmoments, AggregateState.variance_eq hvalid hmoments⟩
  · obtain ⟨hvalid, hmoments⟩ := hpairs ps hps ha
    exact ⟨hvalid, hmoments, AggregateState.covariance_eq hvalid hmoments⟩
  · have hnil : Observes held [] := by rw [Observes, hnone]; rfl
    have hnil' : ObservesPairs held [] := by rw [ObservesPairs, hnone]; rfl
    obtain ⟨hsum, hproduct, hmean⟩ := hnumbers [] hnil
    exact ⟨hsum, hproduct, fun ha => (hmean ha).2.trans Batch.moments_nil,
      fun ha => (hpairs [] hnil' ha).2.trans Batch.coMoments_nil⟩

/-- Calls over numbers, the product asked for twice, and one over pairs of numbers. -/
def numericCalls : List (ReducerCall Unit Nat) :=
  [⟨⟨.product, []⟩, [()], 0⟩, ⟨⟨.variance, []⟩, [()], 0⟩, ⟨⟨.product, []⟩, [()], 0⟩,
    ⟨⟨.covarianceP, []⟩, [(), ()], 1⟩]

/-- Numbers of which the first two have gone out again, the second one a zero. -/
def numberStream : List Event :=
  [.enter [.number 2.0], .enter [.number 0.0], .enter [.number 3.0], .leave [.number 2.0],
    .leave [.number 0.0], .enter [.number 4.0]]

/-- Pairs of numbers of which the first one has gone out again. -/
def pairStream : List Event :=
  [.enter [.number 1.0, .number 2.0], .enter [.number 3.0, .number 5.0],
    .leave [.number 1.0, .number 2.0], .enter [.number 5.0, .number 11.0]]

/-- What is read off after the two streams, of which two numbers and two pairs are held. -/
theorem moments_exact_streams : ∃ (r q : Reducer Unit) (s t : AggregateState Rat),
    r ∈ Reducer.build (· == ·) true numericCalls ∧ r.run r.start numberStream = s ∧
    s.product = 12 ∧ s.moments = ⟨7 / 2, 1 / 2⟩ ∧ s.variance true = 1 / 2 ∧
    q ∈ Reducer.build (· == ·) true numericCalls ∧ q.run q.start pairStream = t ∧
    t.coMoments = ⟨4, 8, 2, 18, 6⟩ ∧ t.covariance false = 3 := by
  have hequiv : Equivalence fun k l : Nat => (k == l) = true :=
    ⟨fun _ => beq_self_eq_true _, fun h => by simpa using (beq_iff_eq.1 h).symm,
      fun h h' => by simpa using (beq_iff_eq.1 h).trans (beq_iff_eq.1 h')⟩
  have hfits : ∀ c ∈ numericCalls, c.op.Fits := by simp [numericCalls, AggregateOp.Fits]
  have hnumbers : Event.Queue [] numberStream [[.number 3.0], [.number 4.0]] :=
    .enter (.enter (.enter (.leave (.leave (.enter (.done _))))))
  have hpairs : Event.Queue [] pairStream
      [[.number 3.0, .number 5.0], [.number 5.0, .number 11.0]] :=
    .enter (.enter (.leave (.enter (.done _))))
  obtain ⟨r, hr, hproduct, hmean⟩ : ∃ r ∈ Reducer.build (· == ·) true numericCalls,
      r.KeepsUp .product ∧ r.KeepsUp .mean :=
    ⟨_, List.mem_iff_getElem?.2 ⟨0, rfl⟩, ⟨_, List.mem_iff_getElem?.2 ⟨1, rfl⟩, rfl⟩,
      ⟨_, List.mem_iff_getElem?.2 ⟨2, rfl⟩, rfl⟩⟩
  obtain ⟨q, hq, hcovariance⟩ : ∃ q ∈ Reducer.build (· == ·) true numericCalls,
      q.KeepsUp .covariance :=
    ⟨_, List.mem_iff_getElem?.2 ⟨1, rfl⟩, _, List.mem_iff_getElem?.2 ⟨0, rfl⟩, rfl⟩
  obtain ⟨-, hheld, -⟩ := moments_exact hequiv hfits hr hnumbers rfl
  obtain ⟨-, hproduct', hmean'⟩ := hheld [3, 4] (by decide +kernel)
  obtain ⟨-, hmoments, hvariance⟩ := hmean' hmean
  obtain ⟨-, -, hheld', -⟩ := moments_exact hequiv hfits hq hpairs rfl
  obtain ⟨-, hcoMoments, hcovariance'⟩ :=
    hheld' [(3, 5), (5, 11)] (by decide +kernel) hcovariance
  refine ⟨r, q, _, _, hr, rfl, (hproduct' hproduct).trans ?_, hmoments.trans ?_,
    (hvariance true).trans ?_, hq, rfl, hcoMoments.trans ?_, (hcovariance' false).trans ?_⟩
  · norm_num
  · norm_num [Batch.mean, Batch.deviation]
  · norm_num [Batch.variance, Batch.mean, Batch.deviation]
  · norm_num [Batch.mean, Batch.deviation, Batch.coDeviation]
  · norm_num [Batch.covariance, Batch.mean, Batch.coDeviation]

end ColumnQuery
