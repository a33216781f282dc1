/-
  Running numbers that are not-a-number.

  Sums, products, means, deviations and co-deviations are numbers that every row changes: one
  operation takes a row in, and the opposite one gives it back (`Change`). A change spoils the
  number if its operand is not-a-number or the operation has no result. A spoiled number stays
  spoiled, whatever comes in or goes out, until it is computed anew. That happens to a product
  when a zero leaves and to means and deviations when the last valid row leaves; a sum is never
  computed anew. So a number is not-a-number exactly if some change has spoiled it since it was
  last computed anew (`isNaN_number_iff`), though the row of that change may have left.
-/
import ColumnQuery.Proofs.Aggregate.Alone
import ColumnQuery.Proofs.Number.NotANumber

namespace ColumnQuery

/-- The value is the number not-a-number. -/
def Value.isNaN : Value → Bool
  | .number x => x.isNaN
  | _ => false

/-! ## Running numbers -/

/-- The numbers that numeric aggregates are read off. -/
inductive Running where
  | sum | product | mean | deviation | comoment

namespace Running

/-- What an event does to a running number. -/
inductive Change where
  | keep
  | add (t : Float)
  | sub (t : Float)
  | mul (t : Float)
  | div (t : Float)
  /-- The number is computed anew. -/
  | anew (x : Float)

namespace Change

def apply (x : Float) : Change → Float
  | keep => x
  | add t => x + t
  | sub t => x - t
  | mul t => x * t
  | div t => x / t
  | anew y => y

def isAnew : Change → Bool
  | anew _ => true
  | _ => false

/-- The operand is not-a-number, or the operation has no result at the number. -/
def spoils (x : Float) : Change → Bool
  | keep => false
  | add t => t.isNaN || (x.isInf && t.isInf && !(x == t))
  | sub t => t.isNaN || (x.isInf && t.isInf && x == t)
  | mul t => t.isNaN || (x.isInf && t == 0.0) || (x == 0.0 && t.isInf)
  | div t => t.isNaN || (x.isInf && t.isInf) || (x == 0.0 && t == 0.0)
  | anew y => y.isNaN

/-- A number that is not-a-number stays so unless it is computed anew. -/
theorem isNaN_apply (x : Float) (c : Change) :
    (c.apply x).isNaN = (x.isNaN && !c.isAnew || c.spoils x) := by
  cases c with
  | keep => exact ((Bool.or_false _).trans (Bool.and_true _)).symm
  | add t =>
    unfold apply isAnew spoils
    rw [Number.isNaN_add, Bool.not_false, Bool.and_true, Bool.or_assoc]
  | sub t =>
    unfold apply isAnew spoils
    rw [Number.isNaN_sub, Bool.not_false, Bool.and_true, Bool.or_assoc]
  | mul t =>
    unfold apply isAnew spoils
    simp only [Number.isNaN_mul, Bool.not_false, Bool.and_true, Bool.or_assoc]
  | div t =>
    unfold apply isAnew spoils
    simp only [Number.isNaN_div, Bool.not_false, Bool.and_true, Bool.or_assoc]
  | anew y =>
    unfold apply isAnew spoils
    rw [Bool.not_true, Bool.and_false, Bool.false_or]

theorem isNaN_quotient (x t : Float) : (x / t).isNaN = (x.isNaN || (div t).spoils x) := by
  have h := isNaN_apply x (div t)
  rwa [show (div t).isAnew = false from rfl, Bool.not_false, Bool.and_true] at h

end Change

open Aggregate (firstField quantityField)

/-- The aggregate that keeps a number up. -/
def keeper : Running → Aggregate
  | sum => .sum
  | product => .product
  | mean | deviation => .mean
  | comoment => .covariance

def number (k : Running) (s : AggregateState Float) : Float :=
  match k with
  | sum => s.sum
  | product => s.product
  | mean => s.moments.mean
  | deviation => s.moments.dev
  | comoment => s.coMoments.comoment

/-- The change that a valid row makes when it comes in. -/
def changeIn (k : Running) (s : AggregateState Float) (fields : List Value) : Change :=
  let x : Float := quantityField fields 0
  let y : Float := quantityField fields 1
  let n := s.valid + 1
  match k with
  | sum => .add x
  | product => .mul x
  | mean => .add ((x - s.moments.mean) / Number.ofNat n)
  | deviation => .add ((x - s.moments.mean) * (x - (s.moments.add n x).mean))
  | comoment => .add ((x - s.coMoments.meanX) * (y - (s.coMoments.add n x y).meanY))

/-- The change that a valid row makes when it goes out. -/
def changeOut (k : Running) (s : AggregateState Float) (fields : List Value) : Change :=
  let x : Float := quantityField fields 0
  let y : Float := quantityField fields 1
  let n := s.valid - 1
  match k with
  | sum => .sub x
  | product => if x == 0.0 then .anew (Aggregate.productOf (dropOldest s.values)) else .div x
  | mean => if n = 0 then .anew 0.0 else .sub ((x - s.moments.mean) / Number.ofNat n)
  | deviation =>
    if n = 0 then .anew 0.0
    else .sub ((x - s.moments.mean) * (x - (s.moments.remove n x).mean))
  | comoment =>
    if n = 0 then .anew 0.0
    else .sub ((x - (s.coMoments.remove n x y).meanX) * (y - s.coMoments.meanY))

/-- Rows that are not valid make no change. -/
def change (k : Running) (s : AggregateState Float) : Event → Change
  | .enter fields => if fields.all Value.isValid then k.changeIn s fields else .keep
  | .leave fields => if fields.all Value.isValid then k.changeOut s fields else .keep

theorem number_congr {k : Running} {s t : AggregateState Float} (h : k.keeper.Agree s t) :
    k.number s = k.number t := by
  obtain ⟨-, -, hpart⟩ := h
  cases k with
  | sum => exact hpart
  | product => exact hpart
  | mean => exact congrArg (·.mean) hpart
  | deviation => exact congrArg (·.dev) hpart
  | comoment => exact congrArg (·.comoment) hpart

theorem paramCount_keeper (k : Running) : k.keeper.paramCount = 0 := by
  cases k <;> rfl

theorem number_absorb (k : Running) (s : AggregateState Float) (fields : List Value) :
    k.number (k.keeper.absorb { s with count := s.count + 1, valid := s.valid + 1 } fields)
      = (k.changeIn s fields).apply (k.number s) := by
  cases k <;> rfl

theorem number_release (k : Running) (s : AggregateState Float) (fields : List Value) :
    k.number (k.keeper.release (k.keeper.vacated s) fields)
      = (k.changeOut s fields).apply (k.number s) := by
  cases k with
  | sum => rfl
  | product =>
    unfold changeOut
    dsimp only
    split
    next hzero => exact if_pos hzero
    next hzero => exact if_neg hzero
  | mean =>
    show (s.moments.remove (s.valid - 1) (quantityField fields 0)).mean = _
    unfold changeOut Quantity.Moments.remove
    dsimp only
    split <;> rfl
  | deviation =>
    show (s.moments.remove (s.valid - 1) (quantityField fields 0)).dev = _
    unfold changeOut Quantity.Moments.remove
    dsimp only
    split <;> rfl
  | comoment =>
    show (s.coMoments.remove (s.valid - 1) (quantityField fields 0)
      (quantityField fields 1)).comoment = _
    unfold changeOut Quantity.CoMoments.remove
    dsimp only
    split <;> rfl

/-- An event makes its change. -/
theorem number_step {F : Type} {r : Reducer F} (h : Ordered true r.ops) (k : Running)
    (hop : ⟨k.keeper, []⟩ ∈ r.ops) (s : AggregateState Float) (e : Event) :
    k.number (r.step s e) = (k.change s e).apply (k.number s) := by
  have hparams := k.paramCount_keeper
  cases e with
  | enter fields =>
    unfold change
    dsimp only
    cases hvalid : fields.all Value.isValid with
    | true =>
      rw [if_pos rfl, ← k.number_absorb]
      exact number_congr (Reducer.agree_add h hparams hop s hvalid)
    | false =>
      rw [if_neg Bool.false_ne_true]
      exact (number_congr (Reducer.agree_add_invalid k.keeper s hvalid)).trans (by cases k <;> rfl)
  | leave fields =>
    unfold change
    dsimp only
    cases hvalid : fields.all Value.isValid with
    | true =>
      rw [if_pos rfl, ← k.number_release]
      exact number_congr (Reducer.agree_remove h hparams hop s hvalid)
    | false =>
      rw [if_neg Bool.false_ne_true]
      exact (number_congr (Reducer.agree_remove_invalid k.keeper s hvalid)).trans (by cases k <;> rfl)

/-! ## Spoiled numbers -/

/-- The state of a number alone after events. -/
def after (k : Running) (events : List Event) : AggregateState Float := k.keeper.alone events

/-- The change that an event makes after other events. -/
def changeAfter (k : Running) (events : List Event) (e : Event) : Change :=
  k.change (k.after events) e

/-- An event has spoiled the number, and it has not been computed anew since. -/
def Spoiled (k : Running) (events : List Event) : Prop :=
  ∃ before e later, events = before ++ e :: later ∧
    (k.changeAfter before e).spoils (k.number (k.after before)) = true ∧
    ∀ mid f rest, later = mid ++ f :: rest →
      (k.changeAfter (before ++ e :: mid) f).isAnew = false

theorem number_after_nil (k : Running) : (k.number (k.after [])).isNaN = false := by
  have hstart : k.number (k.after []) = k.number (k.keeper.start AggregateState.empty) :=
    number_congr (Reducer.agree_start k.keeper.ordered_slider k.paramCount_keeper
      k.keeper.mem_slider)
  rw [hstart]
  cases k <;> decide +kernel

theorem number_after_concat (k : Running) (events : List Event) (e : Event) :
    k.number (k.after (events ++ [e]))
      = (k.changeAfter events e).apply (k.number (k.after events)) := by
  unfold after Aggregate.alone
  rw [Reducer.run_append]
  exact number_step k.keeper.ordered_slider k k.keeper.mem_slider _ e

theorem spoiled_nil (k : Running) : ¬ k.Spoiled [] := by
  rintro ⟨before, e, later, h, -⟩
  exact List.append_ne_nil_of_right_ne_nil before (List.cons_ne_nil e later) h.symm

/-- One event more. -/
theorem spoiled_concat (k : Running) (events : List Event) (e : Event) :
    k.Spoiled (events ++ [e]) ↔
      (k.Spoiled events ∧ (k.changeAfter events e).isAnew = false) ∨
        (k.changeAfter events e).spoils (k.number (k.after events)) = true := by
  constructor
  · rintro ⟨before, d, later, h, hspoils, hkept⟩
    rcases List.eq_nil_or_concat' later with rfl | ⟨later, f, rfl⟩
    · obtain ⟨rfl, hlast⟩ := List.append_inj' h rfl
      obtain rfl : e = d := (List.cons.inj hlast).1
      exact .inr hspoils
    · rw [← List.cons_append, ← List.append_assoc] at h
      obtain ⟨rfl, hlast⟩ := List.append_inj' h rfl
      obtain rfl : e = f := (List.cons.inj hlast).1
      refine .inl ⟨⟨before, d, later, rfl, hspoils, fun mid f rest hlater => ?_⟩, ?_⟩
      · refine hkept mid f (rest ++ [e]) ?_
        rw [hlater]
        simp
      · exact hkept later e [] rfl
  · rintro (⟨⟨before, d, later, rfl, hspoils, hkept⟩, hlast⟩ | hspoils)
    · refine ⟨before, d, later ++ [e], by simp, hspoils, fun mid f rest h => ?_⟩
      rcases List.eq_nil_or_concat' rest with rfl | ⟨rest, g, rfl⟩
      · obtain ⟨rfl, hf⟩ := List.append_inj' h rfl
        obtain rfl : e = f := (List.cons.inj hf).1
        exact hlast
      · rw [← List.cons_append, ← List.append_assoc] at h
        obtain ⟨hlater, -⟩ := List.append_inj' h rfl
        exact hkept mid f rest hlater
    · refine ⟨events, e, [], rfl, hspoils, fun mid f rest h => ?_⟩
      exact absurd h.symm (List.append_ne_nil_of_right_ne_nil mid (List.cons_ne_nil f rest))

/-- A running number is not-a-number exactly if it is spoiled. -/
theorem isNaN_number_iff (k : Running) (events : List Event) :
    (k.number (k.after events)).isNaN = true ↔ k.Spoiled events := by
  induction events using List.reverseRecOn with
  | nil =>
    rw [k.number_after_nil]
    exact ⟨fun h => Bool.noConfusion h, fun h => (k.spoiled_nil h).elim⟩
  | append_singleton events e ih =>
    rw [k.number_after_concat, Change.isNaN_apply, k.spoiled_concat, ← ih]
    simp

/-- A spoiled sum stays spoiled. -/
theorem spoiled_sum_append {events : List Event} (h : sum.Spoiled events) (more : List Event) :
    sum.Spoiled (events ++ more) := by
  have hkept : ∀ (s : AggregateState Float) (e : Event), (sum.change s e).isAnew = false := by
    intro s e
    cases e <;> unfold change <;> dsimp only <;> split <;> rfl
  induction more using List.reverseRecOn with
  | nil => rwa [List.append_nil]
  | append_singleton more e ih =>
    rw [← List.append_assoc, sum.spoiled_concat]
    exact .inl ⟨ih, hkept _ e⟩

end Running

/-! ## Numeric aggregates -/

namespace Aggregate

/-- The running number that a numeric aggregate is read off. -/
def running? : Aggregate → Option Running
  | sum => some .sum
  | product => some .product
  | mean => some .mean
  | variance | varianceP | stdev | stdevP => some .deviation
  | covariance | covarianceP | corr => some .comoment
  | _ => none

/-- The number of valid rows that a numeric aggregate needs. -/
def leastRows : Aggregate → Nat
  | variance | stdev | covariance | corr => 2
  | _ => 1

/-- The running number is a number, but what is read off it is not: the deviation is negative
    under a root, or a quotient has no result. -/
def unreadable (a : Aggregate) (s : AggregateState Float) : Bool :=
  let sample := Number.ofNat (s.valid - 1)
  let population := Number.ofNat s.valid
  match a with
  | variance => (Running.Change.div sample).spoils s.moments.dev
  | varianceP => (Running.Change.div population).spoils s.moments.dev
  | stdev => (Running.Change.div sample).spoils s.moments.dev || s.moments.dev / sample < 0.0
  | stdevP => (Running.Change.div population).spoils s.moments.dev || s.moments.dev / population < 0.0
  | covariance => (Running.Change.div sample).spoils s.coMoments.comoment
  | covarianceP => (Running.Change.div population).spoils s.coMoments.comoment
  | corr =>
    (Running.Change.div (s.coMoments.devX * s.coMoments.devY).sqrt).spoils s.coMoments.comoment
  | _ => false

theorem isNaN_numberIf (s : AggregateState Float) (least : Nat) (x : Float) :
    (numberIf s least x).isNaN = true ↔ least ≤ s.valid ∧ x.isNaN = true := by
  unfold numberIf
  split
  next hle => exact ⟨fun h => ⟨hle, h⟩, fun h => h.2⟩
  next hnot => exact ⟨fun h => Bool.noConfusion h, fun h => absurd h.1 hnot⟩

/-- The value of a numeric aggregate is not-a-number exactly if there are enough valid rows, and
    its running number is not-a-number or unreadable. -/
theorem isNaN_value_iff {a : Aggregate} {k : Running} (ha : a.running? = some k)
    (params : List Value) (s : AggregateState Float) :
    (a.value params s).isNaN = true ↔
      a.leastRows ≤ s.valid ∧ ((k.number s).isNaN = true ∨ a.unreadable s = true) := by
  cases a <;> cases ha <;> refine (isNaN_numberIf s _ _).trans (and_congr_right fun _ => ?_)
  case sum | product | mean => exact ⟨.inl, fun h => h.resolve_right Bool.false_ne_true⟩
  case variance =>
    show (s.moments.dev / Number.ofNat (s.valid - 1)).isNaN = true ↔ _
    rw [Running.Change.isNaN_quotient, Bool.or_eq_true]
    rfl
  case varianceP =>
    show (s.moments.dev / Number.ofNat s.valid).isNaN = true ↔ _
    rw [Running.Change.isNaN_quotient, Bool.or_eq_true]
    rfl
  case stdev =>
    show (s.moments.dev / Number.ofNat (s.valid - 1)).sqrt.isNaN = true ↔ _
    rw [Number.isNaN_sqrt, Running.Change.isNaN_quotient, Bool.or_assoc, Bool.or_eq_true]
    rfl
  case stdevP =>
    show (s.moments.dev / Number.ofNat s.valid).sqrt.isNaN = true ↔ _
    rw [Number.isNaN_sqrt, Running.Change.isNaN_quotient, Bool.or_assoc, Bool.or_eq_true]
    rfl
  case covariance =>
    show (s.coMoments.comoment / Number.ofNat (s.valid - 1)).isNaN = true ↔ _
    rw [Running.Change.isNaN_quotient, Bool.or_eq_true]
    rfl
  case covarianceP =>
    show (s.coMoments.comoment / Number.ofNat s.valid).isNaN = true ↔ _
    rw [Running.Change.isNaN_quotient, Bool.or_eq_true]
    rfl
  case corr =>
    rw [Running.Change.isNaN_quotient, Bool.or_eq_true]
    rfl

/-- After events the value is not-a-number: enough valid rows are held, and the running number is
    spoiled or unreadable. -/
def IsNaNAfter (a : Aggregate) (k : Running) (events : List Event) : Prop :=
  a.leastRows ≤ (k.after events).valid ∧ (k.Spoiled events ∨ a.unreadable (k.after events) = true)

end Aggregate

theorem Running.keeper_eq {a : Aggregate} {k : Running} (ha : a.running? = some k) :
    a.keeper = k.keeper := by
  cases a <;> cases ha <;> rfl

/-- When a sliding value is not-a-number. -/
theorem Reducer.isNaN_valueAt_run_iff {F : Type} {r : Reducer F} (h : Ordered true r.ops)
    {place : Nat} {op : AggregateOp} (hop : r.ops[place]? = some op) {k : Running}
    (hk : op.aggregate.running? = some k) (events : List Event) :
    (r.valueAt (r.run r.start events) place).isNaN = true ↔ op.aggregate.IsNaNAfter k events := by
  rw [valueAt_run_eq_alone h hop, Aggregate.isNaN_value_iff hk, Running.keeper_eq hk]
  exact and_congr_right fun _ => or_congr_left (k.isNaN_number_iff events)

/-- When a value computed afresh is not-a-number. -/
theorem AggregateOp.isNaN_fresh_iff {op : AggregateOp} (hfits : op.Fits) {k : Running}
    (hk : op.aggregate.running? = some k) (rows : List (List Value)) :
    (op.fresh rows).isNaN = true ↔ op.aggregate.IsNaNAfter k (rows.map .enter) := by
  rw [fresh_eq_alone hfits, Aggregate.isNaN_value_iff hk, Running.keeper_eq hk]
  exact and_congr_right fun _ => or_congr_left (k.isNaN_number_iff _)

end ColumnQuery
