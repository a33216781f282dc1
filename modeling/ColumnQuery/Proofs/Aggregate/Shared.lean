/-
  Calls that share a reducer.

  Calls of one key are taken in by one reducer, one after the other. What they need is added as far
  as it is not kept up yet, so it is there once and behind all that it depends on, and each call
  finds an aggregate that is the same as its own (`Serves`). The value of an aggregate does not
  depend on those beside it (`valueAt_run_eq_alone`), and aggregates that are the same have the same
  values: only the share of a quantile is read at all, and which zero it is makes at most another
  zero of the result (`quantileOf_same`). So a call has the value that it has by itself, whatever
  else is called, as often and in whatever order (`build_shared`).

  Parameters beyond those that an aggregate takes would tell two aggregates apart that keep up the
  same part of the state, which then took every row in twice (`build_surplus_parameter`). Calls are
  resolved with no more parameters than that.
-/
import ColumnQuery.Proofs.Aggregate.Alone
import ColumnQuery.Proofs.Number.Same

namespace ColumnQuery

/-! ## Values of aggregates that are the same -/

/-- Values that are the same have readings that are one number. -/
theorem Value.toFloat_same {v w : Value} (h : v.same w = true) :
    Number.same v.toFloat w.toFloat = true := by
  cases v <;> cases w <;> simp only [Value.same, Bool.false_eq_true, beq_iff_eq] at h
  case number.number => exact h
  all_goals first | exact Number.same_refl _ | exact h ▸ Number.same_refl _

/-- The two zeros are the same share. -/
theorem quantileOf_same (values : List Value) {p q : Float} (h : Number.same p q = true) :
    (quantileOf values p).same (quantileOf values q) = true := by
  have hrange : (0.0 ≤ p && p ≤ 1.0) = (0.0 ≤ q && q ≤ 1.0) :=
    Number.eq_of_same (f := fun p => (0.0 ≤ p && p ≤ 1.0)) (by decide +kernel) h
  unfold quantileOf
  dsimp only
  generalize ((values.map Value.toFloat).filter fun x => !x.isNaN).mergeSort _ = sorted
  rw [hrange]
  split
  next => rfl
  next =>
    have hplace := Number.same_mul_left (Number.ofNat (sorted.length - 1)) h
    rw [Number.eq_of_same (f := Number.toNat64) (by decide +kernel) hplace]
    exact Number.same_add_left _ (Number.same_mul_right _ (Number.same_sub_right _ hplace))

/-- Aggregates that are the same have the same values. -/
theorem Aggregate.value_same (a : Aggregate) {params others : List Value}
    (h : Value.sameItems params others = true) (s : AggregateState Float) :
    (a.value params s).same (a.value others s) = true := by
  cases a
  case quantile =>
    refine quantileOf_same _ ?_
    cases params <;> cases others
    case nil.nil => exact Number.same_refl _
    case cons.cons v params w others =>
      rw [Value.sameItems, Bool.and_eq_true] at h
      exact Value.toFloat_same h.1
    all_goals cases h
  all_goals exact Value.same_refl _

namespace Reducer

variable {F K : Type} {removing : Bool}

/-! ## The state of a call -/

/-- Rows come in, and the oldest one that is held goes out, if the reducer can let it go. -/
structure Takes (removing : Bool) (events : List Event) : Prop where
  queue : ∃ held, Event.Queue [] events held
  enters : removing = false → ∃ rows : List (List Value), events = rows.map .enter

/-- The value at a place is that of its aggregate alone. -/
theorem valueAt_eq_alone {r : Reducer F} (hr : Ordered removing r.ops) {place : Nat}
    {op : AggregateOp} (hop : r.ops[place]? = some op) {events : List Event}
    (hevents : Takes removing events) : r.valueAt (r.run r.start events) place
      = op.aggregate.value op.params (op.aggregate.keeper.alone events) := by
  cases removing with
  | true => exact valueAt_run_eq_alone hr hop events
  | false =>
    obtain ⟨rows, rfl⟩ := hevents.enters rfl
    rw [run_enter, valueAt_addAll_eq_fresh hr hop,
      AggregateOp.fresh_eq_alone (hr.fits op (List.mem_of_getElem? hop))]

/-! ## Calls of one key -/

/-- What a reducer is like that serves calls: it keeps up what they need and nothing else, and has
    an output for each, under its number, at an aggregate that is the same as its own. -/
structure Serves (removing : Bool) (fields : List F) (ops : List AggregateOp) (r : Reducer F) :
    Prop where
  fields : r.fields = fields
  ordered : Ordered removing r.ops
  needed : ∀ a ∈ r.ops, ∃ op ∈ ops, a ∈ op.expansion removing
  kept : ∀ op ∈ ops, ∀ a ∈ op.expansion removing, ∃ b ∈ r.ops, b.same a = true
  length : r.outputs.length = ops.length
  places : ∀ (i : Nat) (op : AggregateOp), ops[i]? = some op → ∃ (place : Nat) (b : AggregateOp),
    r.outputs[i]? = some (i, place) ∧
    r.ops[place]? = some b ∧ b.same op = true

namespace Serves

variable {fields : List F} {ops : List AggregateOp} {r : Reducer F}

theorem nothing (removing : Bool) (fields : List F) :
    Serves removing fields [] ⟨fields, [], []⟩ where
  fields := rfl
  ordered := .nil
  needed := by simp
  kept := by simp
  length := rfl
  places := by simp

/-- One call more. -/
theorem addCall (h : Serves removing fields ops r) {op : AggregateOp} (hop : op.Fits) :
    Serves removing fields (ops ++ [op]) (r.addCall removing ops.length op) where
  fields := h.fields
  ordered := ordered_withOps_expansion h.ordered hop
  needed a ha := by
    rcases mem_of_mem_withOps _ _ ha with ha | ha
    · obtain ⟨earlier, hearlier, ha⟩ := h.needed a ha
      exact ⟨earlier, List.mem_append_left _ hearlier, ha⟩
    · exact ⟨op, by simp, ha⟩
  kept c hc a ha := by
    rcases List.mem_append.1 hc with hc | hc
    · obtain ⟨b, hb, hsame⟩ := h.kept c hc a ha
      exact ⟨b, (prefix_withOps _ _).subset hb, hsame⟩
    · obtain rfl := List.mem_singleton.1 hc
      exact exists_same_withOps _ _ ha
  length := by simp [Reducer.addCall, h.length]
  places i c hc := by
    show ∃ (place : Nat) (b : AggregateOp), (r.outputs ++ [_])[i]? = some (i, place) ∧
      (withOps r.ops (op.expansion removing))[place]? = some b ∧ b.same c = true
    by_cases hi : i < ops.length
    · rw [List.getElem?_append_left hi] at hc
      obtain ⟨place, b, hplace, hb, hsame⟩ := h.places i c hc
      refine ⟨place, b, ?_, ?_, hsame⟩
      · rw [List.getElem?_append_left (by rw [h.length]; exact hi), hplace]
      · obtain ⟨more, hmore⟩ := prefix_withOps r.ops (op.expansion removing)
        rw [← hmore, List.getElem?_append_left (List.getElem?_eq_some_iff.1 hb).1, hb]
    · obtain rfl : i = ops.length := by
        have := (List.getElem?_eq_some_iff.1 hc).1
        simp at this
        omega
      obtain rfl : op = c := by simpa using hc
      obtain ⟨b, hb, hsame⟩ := exists_place_withOps_expansion removing r.ops op
      exact ⟨_, b, by simp [← h.length], hb, hsame⟩

/-- Calls taken in one after the other. -/
theorem foldl_addCall (h : Serves removing fields ops r) (calls : List (ReducerCall F K))
    (hfits : ∀ c ∈ calls, c.op.Fits) : Serves removing fields (ops ++ calls.map (·.op))
      ((calls.zipIdx ops.length).foldl (fun r (c, i) => r.addCall removing i c.op) r) := by
  induction calls generalizing ops r with
  | nil => simpa using h
  | cons c calls ih =>
    obtain ⟨hc, hfits⟩ := List.forall_mem_cons.1 hfits
    have hrest := ih (h.addCall hc) hfits
    simpa using hrest

/-- What a call needs is kept up once. -/
theorem once (h : Serves removing fields ops r) {op a : AggregateOp} (hop : op ∈ ops)
    (ha : a ∈ op.expansion removing) : r.ops.countP (·.same a) = 1 := by
  obtain ⟨b, hb, hsame⟩ := h.kept op hop a ha
  obtain ⟨before, later, hops⟩ := List.append_of_mem hb
  have hdistinct := h.ordered.distinct
  rw [hops] at hdistinct ⊢
  obtain ⟨-, hlater, hbefore⟩ := List.pairwise_append.1 hdistinct
  have hnone : ∀ x ∈ before, ¬x.same a = true := fun x hx hxa =>
    Bool.eq_false_iff.1 (hbefore x hx b List.mem_cons_self)
      (AggregateOp.same_trans hxa (AggregateOp.same_symm hsame))
  have hnomore : ∀ x ∈ later, ¬x.same a = true := fun x hx hxa =>
    Bool.eq_false_iff.1 ((List.pairwise_cons.1 hlater).1 x hx)
      (AggregateOp.same_trans hsame (AggregateOp.same_symm hxa))
  rw [List.countP_append, List.countP_eq_zero.2 hnone,
    List.countP_cons_of_pos (p := fun x : AggregateOp => x.same a) hsame,
    List.countP_eq_zero.2 hnomore]

/-- The calls are numbered in their order. -/
theorem map_outputs (h : Serves removing fields ops r) :
    r.outputs.map (·.1) = List.range ops.length := by
  refine List.ext_getElem? fun i => ?_
  cases hop : ops[i]? with
  | none =>
    have hi := List.getElem?_eq_none_iff.1 hop
    rw [List.getElem?_eq_none (by simpa [h.length] using hi),
      List.getElem?_eq_none (by simpa using hi)]
  | some op =>
    have hi := (List.getElem?_eq_some_iff.1 hop).1
    obtain ⟨place, b, hplace, -, -⟩ := h.places i op hop
    simp [hplace, List.getElem?_range hi]

/-- The value of a call is that of its aggregate alone. -/
theorem getElem?_values (h : Serves removing fields ops r) {i : Nat} {op : AggregateOp}
    (hop : ops[i]? = some op) {events : List Event} (hevents : Takes removing events) :
    ∃ x, (r.values (r.run r.start events))[i]? = some (i, x) ∧
      x.same (op.aggregate.value op.params (op.aggregate.keeper.alone events)) = true := by
  obtain ⟨place, b, hplace, hb, hsame⟩ := h.places i op hop
  refine ⟨r.valueAt (r.run r.start events) place, ?_, ?_⟩
  · unfold values
    rw [List.getElem?_map, hplace]
    rfl
  · unfold AggregateOp.same at hsame
    rw [Bool.and_eq_true, beq_iff_eq] at hsame
    rw [valueAt_eq_alone h.ordered hb hevents, hsame.1]
    exact Aggregate.value_same _ hsame.2 _

end Serves

/-- Calls of the key of a reducer all go into it. -/
theorem foldl_place_of_key {sameKey : K → K → Bool} {key : K} {calls : List (ReducerCall F K)}
    (hkey : ∀ c ∈ calls, sameKey key c.key = true) (n : Nat) (r : Reducer F) :
    (calls.zipIdx n).foldl (fun rs (c, i) => place sameKey removing i c rs) [(key, r)]
      = [(key, (calls.zipIdx n).foldl (fun r (c, i) => r.addCall removing i c.op) r)] := by
  induction calls generalizing n r with
  | nil => rfl
  | cons c calls ih =>
    obtain ⟨hc, hkey⟩ := List.forall_mem_cons.1 hkey
    have hplace : place sameKey removing n c [(key, r)] = [(key, r.addCall removing n c.op)] := by
      unfold place
      exact if_pos hc
    rw [List.zipIdx_cons, List.foldl_cons, List.foldl_cons]
    dsimp only
    rw [hplace]
    exact ih hkey (n + 1) _

/-- Calls of one key are served by one reducer. -/
theorem exists_serves (sameKey : K → K → Bool) (removing : Bool) {c : ReducerCall F K}
    {calls : List (ReducerCall F K)} (hkey : ∀ d ∈ calls, sameKey c.key d.key = true)
    (hfits : ∀ d ∈ c :: calls, d.op.Fits) : ∃ r, build sameKey removing (c :: calls) = [r] ∧
      Serves removing c.fields ((c :: calls).map (·.op)) r := by
  obtain ⟨hc, hrest⟩ := List.forall_mem_cons.1 hfits
  refine ⟨_, ?_, ((Serves.nothing removing c.fields).addCall hc).foldl_addCall calls hrest⟩
  unfold build
  rw [List.zipIdx_cons, List.foldl_cons]
  exact congrArg (List.map (·.2)) (foldl_place_of_key hkey 1 _)

/-- Calls of one key share a reducer, which keeps up all that each of them needs, once and behind
    what it depends on, and nothing else; and the value of each is that which it has by itself,
    after the same rows have come in and the oldest of them have gone out. -/
theorem build_shared (sameKey : K → K → Bool) (removing : Bool) (calls : List (ReducerCall F K))
    (hkey : ∀ c ∈ calls, ∀ d ∈ calls, sameKey c.key d.key = true)
    (hfits : ∀ c ∈ calls, c.op.Fits) :
    (build sameKey removing calls).length = min 1 calls.length ∧
    ∀ r ∈ build sameKey removing calls,
      calls.head?.map (·.fields) = some r.fields ∧
      (∀ c ∈ calls, ∀ a ∈ c.op.expansion removing, r.ops.countP (·.same a) = 1) ∧
      (∀ a ∈ r.ops, ∃ c ∈ calls, a ∈ c.op.expansion removing) ∧
      (∀ before a later, r.ops = before ++ a :: later →
        ∀ d ∈ a.aggregate.dependencies removing, ⟨d, []⟩ ∈ before) ∧
      r.outputs.map (·.1) = List.range calls.length ∧
      ∀ (i : Nat) (c : ReducerCall F K), calls[i]? = some c →
        ∃ q, build sameKey removing [c] = [q] ∧ ∀ events, Takes removing events → ∃ x y : Value,
          (r.values (r.run r.start events))[i]? = some (i, x) ∧
          q.values (q.run q.start events) = [(0, y)] ∧ x.same y = true := by
  cases calls with
  | nil => exact ⟨rfl, fun r hr => by cases hr⟩
  | cons first calls =>
    obtain ⟨r, hbuild, hr⟩ := exists_serves sameKey removing
      (fun d hd => hkey first List.mem_cons_self d (List.mem_cons_of_mem _ hd)) hfits
    rw [hbuild]
    refine ⟨by simp, fun _ hmem => ?_⟩
    obtain rfl := List.mem_singleton.1 hmem
    refine ⟨congrArg some hr.fields.symm, fun c hc a ha => ?_, fun a ha => ?_, hr.ordered.after,
      by simpa using hr.map_outputs, fun i c hc => ?_⟩
    · exact hr.once (List.mem_map_of_mem hc) ha
    · obtain ⟨op, hop, ha⟩ := hr.needed a ha
      obtain ⟨c, hc, rfl⟩ := List.mem_map.1 hop
      exact ⟨c, hc, ha⟩
    · have hfitsOne : ∀ d ∈ [c], d.op.Fits := by simpa using hfits c (List.mem_of_getElem? hc)
      obtain ⟨q, hq, hserves⟩ := exists_serves sameKey removing (by simp) hfitsOne
      refine ⟨q, hq, fun events hevents => ?_⟩
      have hop : ((first :: calls).map (·.op))[i]? = some c.op := by rw [List.getElem?_map, hc]; rfl
      obtain ⟨x, hx, hxsame⟩ := hr.getElem?_values hop hevents
      obtain ⟨y, hy, hysame⟩ := hserves.getElem?_values (i := 0) rfl hevents
      refine ⟨x, y, hx, ?_, Value.same_trans hxsame (Value.same_symm hysame)⟩
      obtain ⟨out, hout⟩ := List.length_eq_one_iff.1 (hserves.length)
      unfold values at hy ⊢
      rw [hout] at hy ⊢
      simpa using hy

/-- Calls over one field, with an aggregate called twice and one at either zero. -/
def crowdedCalls : List (ReducerCall Unit Nat) :=
  [⟨⟨.median, []⟩, [()], 5⟩, ⟨⟨.quantile, [.number 0.0]⟩, [()], 5⟩, ⟨⟨.mode, []⟩, [()], 5⟩,
    ⟨⟨.quantile, [.number (-0.0)]⟩, [()], 5⟩, ⟨⟨.median, []⟩, [()], 5⟩]

theorem build_shared_crowded : ∃ r q : Reducer Unit,
    build (· == ·) true crowdedCalls = [r] ∧
    r.ops.countP (·.same ⟨.quantile, [.number (-0.0)]⟩) = 1 ∧
    build (· == ·) true [⟨⟨.quantile, [.number (-0.0)]⟩, [()], 5⟩] = [q] ∧
    ∀ row other : List Value, ∃ x y : Value,
      (r.values (r.run r.start [.enter row, .enter other, .leave row]))[3]? = some (3, x) ∧
      q.values (q.run q.start [.enter row, .enter other, .leave row]) = [(0, y)] ∧
      x.same y = true := by
  have hkey : ∀ c ∈ crowdedCalls, ∀ d ∈ crowdedCalls, (c.key == d.key) = true := by
    simp [crowdedCalls]
  have hfits : ∀ c ∈ crowdedCalls, c.op.Fits := by
    simp [crowdedCalls, AggregateOp.Fits, Aggregate.paramCount]
  obtain ⟨hlength, hshared⟩ := build_shared (· == ·) true crowdedCalls hkey hfits
  obtain ⟨r, hr⟩ := List.length_eq_one_iff.1 hlength
  obtain ⟨-, honce, -, -, -, hvalues⟩ := hshared r (by simp [hr])
  obtain ⟨q, hq, hsame⟩ := hvalues 3 _ rfl
  refine ⟨r, q, hr, honce _ (List.mem_of_getElem? (i := 3) rfl) _ ?_, hq, fun row other => ?_⟩
  · exact List.mem_append_right _ List.mem_cons_self
  · exact hsame _ ⟨⟨[other], .enter (.enter (.leave (.done _)))⟩, nofun⟩

/-- With a parameter that it does not take, a sum is another aggregate for a reducer, and each of
    the two adds every row to the one sum of the state. -/
theorem build_surplus_parameter : ∃ (r q : Reducer Unit) (x y : Value),
    build (· == ·) false [⟨⟨.sum, []⟩, [()], 5⟩, ⟨⟨.sum, [.number 1.0]⟩, [()], 5⟩] = [r] ∧
    build (· == ·) false [⟨⟨.sum, []⟩, [()], 5⟩] = [q] ∧
    (r.values (r.add r.start [.number 2.0]))[0]? = some (0, x) ∧
    q.values (q.add q.start [.number 2.0]) = [(0, y)] ∧ x.same y = false := by
  refine ⟨_, _, .number (0.0 + 2.0 + 2.0), .number (0.0 + 2.0), rfl, rfl, rfl, rfl, ?_⟩
  decide +kernel

end Reducer

end ColumnQuery
