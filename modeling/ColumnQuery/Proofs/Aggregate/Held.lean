/-
  What an aggregate keeps of the rows that are held.

  Rows come in at the end, and the oldest row goes out. The part of the state that an aggregate
  keeps up is then a function of the rows held (`Holds`): it does not show which rows were held
  before. One row more and one row less keep it so; when an extreme value leaves, the least of
  the others is the one that was hidden behind it, because sorting is transitive. The numbers of
  sums and moments, and the order of distinct values, are not among these parts.
-/
import ColumnQuery.Proofs.Aggregate.Distinct
import ColumnQuery.Proofs.Aggregate.Parts
import ColumnQuery.Proofs.Value.Order
import Mathlib.Data.List.Induction

namespace ColumnQuery

/-! ## Extreme values -/

section Extremes

variable {wanted : Ordering}

theorem order_trans_of_ne_eq (hwanted : wanted ≠ .eq) {a b c : Value} (hab : a.order b = wanted)
    (hbc : b.order c = wanted) : a.order c = wanted := by
  cases wanted with
  | lt => exact Std.TransCmp.lt_trans hab hbc
  | eq => exact absurd rfl hwanted
  | gt => exact Std.TransCmp.gt_trans hab hbc

/-- What precedes a value precedes everything that does not. -/
theorem order_of_not (hwanted : wanted ≠ .eq) {a b c : Value} (hab : a.order b = wanted)
    (hcb : c.order b ≠ wanted) : a.order c = wanted := by
  have hswap : b.order c = (c.order b).swap := Std.OrientedCmp.eq_swap
  cases wanted with
  | lt =>
    refine Std.TransCmp.lt_of_lt_of_isLE hab ?_
    rw [hswap]
    cases hc : c.order b <;> first | rfl | exact absurd hc hcb
  | eq => exact absurd rfl hwanted
  | gt =>
    refine Std.TransCmp.gt_of_gt_of_isGE hab ?_
    rw [hswap]
    cases hc : c.order b <;> first | rfl | exact absurd hc hcb

/-- The better one of two values, the first one if they tie. -/
def better (wanted : Ordering) (a b : Value) : Value := if b.order a == wanted then b else a

theorem better_assoc (hwanted : wanted ≠ .eq) (a b c : Value) :
    better wanted (better wanted a b) c = better wanted a (better wanted b c) := by
  unfold better
  by_cases hba : b.order a = wanted
  · by_cases hcb : c.order b = wanted
    · have hca := order_trans_of_ne_eq hwanted hcb hba
      simp [hba, hcb, hca]
    · simp [hba, hcb]
  · by_cases hca : c.order a = wanted
    · have hcb := order_of_not hwanted hca hba
      simp [hba, hca, hcb]
    · by_cases hcb : c.order b = wanted
      · simp [hba, hca, hcb]
      · simp [hba, hca, hcb]

theorem extremeValue_append (wanted : Ordering) (vs : List Value) (v : Value) :
    extremeValue wanted (vs ++ [v])
      = some ((extremeValue wanted vs).elim v (better wanted · v)) := by
  unfold extremeValue
  rw [List.foldl_append, List.foldl_cons, List.foldl_nil]
  cases hbest : List.foldl _ none vs with
  | none => rfl
  | some b =>
    show (if v.order b == wanted then some v else some b)
      = some (if v.order b == wanted then v else b)
    exact (apply_ite some _ v b).symm

/-- Taking in one value more. -/
theorem extremeValue_push (wanted : Ordering) (vs : List Value) (v : Value) :
    extremeValue wanted ((extremeValue wanted vs).toList ++ [v])
      = extremeValue wanted (vs ++ [v]) := by
  rw [extremeValue_append, extremeValue_append]
  cases extremeValue wanted vs with
  | none => rfl
  | some b => rfl

/-- The oldest value against the extreme of the others. -/
theorem extremeValue_cons (hwanted : wanted ≠ .eq) (v : Value) (vs : List Value) :
    extremeValue wanted (v :: vs)
      = some ((extremeValue wanted vs).elim v (better wanted v ·)) := by
  induction vs using List.reverseRecOn with
  | nil => rfl
  | append_singleton vs x ih =>
    rw [← List.cons_append, extremeValue_append, extremeValue_append, ih]
    cases extremeValue wanted vs with
    | none => rfl
    | some b => exact congrArg some (better_assoc hwanted v b x)

/-- If the extreme value is not the oldest one, it stays the extreme one. -/
theorem extremeValue_of_cons (hwanted : wanted ≠ .eq) {v : Value} {vs : List Value}
    (h : sameOption (extremeValue wanted (v :: vs)) (some v) = false) :
    extremeValue wanted (v :: vs) = extremeValue wanted vs := by
  rw [extremeValue_cons hwanted] at h ⊢
  cases hbest : extremeValue wanted vs with
  | none =>
    rw [hbest] at h
    have hsame : v.same v = false := h
    rw [Value.same_refl] at hsame
    cases hsame
  | some b =>
    rw [hbest] at h
    unfold Option.elim better at h ⊢
    dsimp only at h ⊢
    split
    next => rfl
    next hnot =>
      rw [if_neg hnot] at h
      have hsame : v.same v = false := h
      rw [Value.same_refl] at hsame
      cases hsame

end Extremes

/-! ## The rows that are held -/

/-- The rows whose fields are all valid. -/
def validRows (rows : List (List Value)) : List (List Value) := rows.filter (·.all Value.isValid)

/-- The first fields of the valid rows. -/
def firstFields (rows : List (List Value)) : List Value :=
  (validRows rows).map Aggregate.firstField

theorem validRows_append_valid (rows : List (List Value)) {row : List Value}
    (h : row.all Value.isValid = true) : validRows (rows ++ [row]) = validRows rows ++ [row] := by
  unfold validRows
  rw [List.filter_append, List.filter_singleton, h]
  rfl

theorem validRows_append_invalid (rows : List (List Value)) {row : List Value}
    (h : row.all Value.isValid = false) : validRows (rows ++ [row]) = validRows rows := by
  unfold validRows
  rw [List.filter_append, List.filter_singleton, h]
  exact List.append_nil _

theorem validRows_cons_valid (rows : List (List Value)) {row : List Value}
    (h : row.all Value.isValid = true) : validRows (row :: rows) = row :: validRows rows :=
  List.filter_cons_of_pos h

theorem validRows_cons_invalid (rows : List (List Value)) {row : List Value}
    (h : row.all Value.isValid = false) : validRows (row :: rows) = validRows rows :=
  List.filter_cons_of_neg (by rw [h]; exact Bool.false_ne_true)

theorem firstFields_append_valid (rows : List (List Value)) {row : List Value}
    (h : row.all Value.isValid = true) :
    firstFields (rows ++ [row]) = firstFields rows ++ [Aggregate.firstField row] := by
  unfold firstFields
  rw [validRows_append_valid rows h, List.map_append]
  rfl

theorem firstFields_cons_valid (rows : List (List Value)) {row : List Value}
    (h : row.all Value.isValid = true) :
    firstFields (row :: rows) = Aggregate.firstField row :: firstFields rows := by
  unfold firstFields
  rw [validRows_cons_valid rows h]
  rfl

namespace Aggregate

variable {N : Type} [Quantity N]

/-- The pair of a row that makes an entry of an object. -/
def pairOf (fields : List Value) : Value × Value := (firstField fields, fields[1]?.getD .null)

/-- The counts, and the part that an aggregate keeps up, are those of the rows held. -/
def Holds (a : Aggregate) (held : List (List Value)) (s : AggregateState N) : Prop :=
  s.count = held.length ∧ s.valid = (validRows held).length ∧
    match a with
    | any => s.any = (firstFields held).head?
    | arrayAgg => s.values.toList = firstFields held
    | distinct => Tally s.distinct (firstFields held)
    | objectAgg => s.entries.toList = (validRows held).map pairOf
    | min => s.least = extremeValue .lt (firstFields held)
    | max => s.greatest = extremeValue .gt (firstFields held)
    | count | valid | invalid | arrayAggDistinct | mode | entriesAgg | sum | product | mean
    | variance | varianceP | stdev | stdevP | median | quantile | covariance | covarianceP
    | corr => True

variable {a : Aggregate} {held : List (List Value)} {s t : AggregateState N} {row : List Value}

omit [Quantity N] in
theorem Holds.of_agree (hst : a.Agree s t) (h : a.Holds held t) : a.Holds held s := by
  obtain ⟨hcount, hvalid, hpart⟩ := hst
  refine ⟨hcount.trans h.1, hvalid.trans h.2.1, ?_⟩
  have hheld := h.2.2
  cases a <;> first | trivial | (dsimp only at hpart hheld ⊢; rw [hpart]; exact hheld)

theorem toList_dropOldest {α : Type} (items : Array α) :
    (dropOldest items).toList = items.toList.tail := by
  unfold dropOldest
  rw [Array.toList_extract, List.extract_eq_take_drop, List.drop_one]
  exact List.take_of_length_le (by simp)

omit [Quantity N] in
/-- A row that is not valid only counts. -/
theorem Holds.append_invalid (h : a.Holds held s) (hrow : row.all Value.isValid = false) :
    a.Holds (held ++ [row]) { s with count := s.count + 1 } := by
  obtain ⟨hcount, hvalid, hpart⟩ := h
  unfold Holds firstFields at *
  rw [validRows_append_invalid held hrow, List.length_append]
  refine ⟨congrArg (· + 1) hcount, hvalid, ?_⟩
  cases a <;> exact hpart

omit [Quantity N] in
theorem Holds.tail_invalid (h : a.Holds (row :: held) s) (hrow : row.all Value.isValid = false) :
    a.Holds held { s with count := s.count - 1 } := by
  obtain ⟨hcount, hvalid, hpart⟩ := h
  unfold Holds firstFields at *
  rw [validRows_cons_invalid held hrow] at hvalid hpart
  refine ⟨?_, hvalid, ?_⟩
  · show s.count - 1 = held.length
    rw [hcount, List.length_cons]
    rfl
  · cases a <;> exact hpart

/-- A valid row comes in. -/
theorem Holds.absorb (h : a.Holds held s) (hrow : row.all Value.isValid = true) :
    a.Holds (held ++ [row])
      (a.absorb { s with count := s.count + 1, valid := s.valid + 1 } row) := by
  obtain ⟨hcount, hvalid, hpart⟩ := h
  have hcounts := counts_absorb a { s with count := s.count + 1, valid := s.valid + 1 } row
  refine ⟨?_, ?_, ?_⟩
  · rw [hcounts.1, List.length_append, ← hcount]
    rfl
  · rw [hcounts.2, validRows_append_valid held hrow, List.length_append, ← hvalid]
    rfl
  · cases a <;> dsimp only [Aggregate.absorb] at hpart ⊢ <;>
      try rw [firstFields_append_valid held hrow]
    case any =>
      rw [hpart, List.head?_append]
      rfl
    case arrayAgg => rw [Array.toList_push, hpart]
    case distinct => exact hpart.countValue _
    case objectAgg =>
      rw [Array.toList_push, hpart, validRows_append_valid held hrow, List.map_append]
      rfl
    case min => rw [hpart, extremeValue_push]
    case max => rw [hpart, extremeValue_push]

/-- The oldest row, a valid one, goes out. -/
theorem Holds.release (h : a.Holds (row :: held) s) (hrow : row.all Value.isValid = true)
    (hfield : a = any → row ≠ [])
    (hvalues : arrayAgg ∈ a.dependencies true → arrayAgg.Holds (row :: held) s) :
    a.Holds held (a.release (a.vacated s) row) := by
  obtain ⟨hcount, hvalid, hpart⟩ := h
  have hcounts := counts_release a (a.vacated s) row
  -- the first fields have let go of the row if they are read
  have hdropped : arrayAgg ∈ a.dependencies true →
      (a.vacated s).values.toList = firstFields held := by
    intro hmem
    have hheld : s.values.toList = firstFields (row :: held) := (hvalues hmem).2.2
    unfold vacated
    dsimp only
    rw [if_pos hmem, toList_dropOldest, hheld, firstFields_cons_valid held hrow, List.tail_cons]
  rw [List.length_cons] at hcount
  rw [validRows_cons_valid held hrow, List.length_cons] at hvalid
  refine ⟨?_, ?_, ?_⟩
  · rw [hcounts.1]
    show s.count - 1 = held.length
    omega
  · rw [hcounts.2]
    show s.valid - 1 = (validRows held).length
    omega
  · cases a <;> dsimp only [Aggregate.release] at hpart ⊢ <;>
      try rw [firstFields_cons_valid held hrow] at hpart
    case any =>
      obtain ⟨v, rest, rfl⟩ := List.exists_cons_of_ne_nil (hfield rfl)
      have hleaves : sameOption (vacated any s).any (v :: rest)[0]? = true := by
        show sameOption s.any (some v) = true
        rw [hpart]
        exact Value.same_refl v
      rw [if_pos hleaves, ← hdropped (by decide), List.head?_eq_getElem?, Array.getElem?_toList]
    case arrayAgg =>
      show (dropOldest s.values).toList = firstFields held
      rw [toList_dropOldest, hpart, List.tail_cons]
    case distinct => exact hpart.uncountValue
    case objectAgg =>
      show (dropOldest s.entries).toList = (validRows held).map pairOf
      rw [toList_dropOldest, hpart, validRows_cons_valid held hrow, List.map_cons, List.tail_cons]
    case min =>
      split
      next => exact congrArg (extremeValue .lt) (hdropped (by decide))
      next hnot =>
        have hnot : ¬ sameOption s.least (some (firstField row)) = true := hnot
        rw [hpart, Bool.not_eq_true] at hnot
        exact hpart.trans (extremeValue_of_cons (by decide) hnot)
    case max =>
      split
      next => exact congrArg (extremeValue .gt) (hdropped (by decide))
      next hnot =>
        have hnot : ¬ sameOption s.greatest (some (firstField row)) = true := hnot
        rw [hpart, Bool.not_eq_true] at hnot
        exact hpart.trans (extremeValue_of_cons (by decide) hnot)

end Aggregate

/-! ## One row in, one row out -/

namespace Reducer

open Aggregate

variable {F N : Type} [Quantity N] {r : Reducer F} {removing : Bool} {a : Aggregate}
  {held : List (List Value)} {s : AggregateState N} {row : List Value}

theorem holds_add (h : Ordered removing r.ops) (hparams : a.paramCount = 0)
    (ha : ⟨a, []⟩ ∈ r.ops) (hs : a.Holds held s) (row : List Value) :
    a.Holds (held ++ [row]) (r.add s row) := by
  cases hrow : row.all Value.isValid with
  | true => exact (hs.absorb hrow).of_agree (agree_add h hparams ha s hrow)
  | false => exact (hs.append_invalid hrow).of_agree (agree_add_invalid a s hrow)

theorem holds_remove (h : Ordered true r.ops) (hparams : a.paramCount = 0)
    (ha : ⟨a, []⟩ ∈ r.ops) (hs : a.Holds (row :: held) s)
    (hvalues : arrayAgg ∈ a.dependencies true → arrayAgg.Holds (row :: held) s)
    (hfield : a = any → row ≠ []) : a.Holds held (r.remove s row) := by
  cases hrow : row.all Value.isValid with
  | true => exact (hs.release hrow hfield hvalues).of_agree (agree_remove h hparams ha s hrow)
  | false => exact (hs.tail_invalid hrow).of_agree (agree_remove_invalid a s hrow)

/-! ### The counts -/

omit [Quantity N] in
/-- What holds of the aggregate that only counts is that the counts are those of the rows held.
    Steps of aggregates that leave the counts to the reducer keep that. -/
theorem holds_count_foldl {f : Aggregate → AggregateState N → AggregateState N}
    (hf : ∀ b s, (f b s).count = s.count ∧ (f b s).valid = s.valid) (ops : List AggregateOp)
    (hs : count.Holds held s) :
    count.Holds held (ops.foldl (fun s op => f op.aggregate s) s) := by
  induction ops generalizing s with
  | nil => exact hs
  | cons op ops ih =>
    obtain ⟨hcount, hvalid⟩ := hf op.aggregate s
    exact ih ⟨hcount.trans hs.1, hvalid.trans hs.2.1, trivial⟩

/-- A row that comes in is counted, whatever the reducer keeps up. -/
theorem holds_count_add (r : Reducer F) (row : List Value) (hs : count.Holds held s) :
    count.Holds (held ++ [row]) (r.add s row) := by
  unfold add
  dsimp only
  cases hrow : row.all Value.isValid with
  | true => exact holds_count_foldl (fun b s => counts_absorb b s row) r.ops (hs.absorb hrow)
  | false => exact hs.append_invalid hrow

/-- The oldest row counts no more once it has gone out. -/
theorem holds_count_remove (r : Reducer F) (hs : count.Holds (row :: held) s) :
    count.Holds held (r.remove s row) := by
  unfold remove
  dsimp only
  cases hrow : row.all Value.isValid with
  | true =>
    obtain ⟨hcount, hvalid, -⟩ := hs.release hrow (by simp) (by simp [dependencies, requires,
      requiresToRemove])
    exact holds_count_foldl (fun b s => counts_release b s row) r.ops ⟨hcount, hvalid, trivial⟩
  | false => exact hs.tail_invalid hrow

end Reducer

end ColumnQuery
