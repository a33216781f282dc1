/-
  Means and deviations of all numbers at once.

  The running moments are recurrences: a number comes in or goes out, and the mean, the deviation
  and the co-deviation change by it. In exact arithmetic they are the formulas over all numbers at
  once, which only the rationals can say: on doubles every step rounds. The co-deviation is the
  sum of the products less what the means make up of it (`coDeviation_eq`), and so changes by one
  pair as the recurrence has it (`coDeviation_concat`). None of the formulas sees the order of the
  numbers, so giving the oldest number back undoes taking it in as the latest one
  (`remove_moments`, `remove_coMoments`).
-/
import ColumnQuery.Aggregate.Quantity
import ColumnQuery.Proofs.Number.Rational
import Mathlib.Algebra.BigOperators.Group.List.Basic
import Mathlib.Algebra.Field.Rat
import Mathlib.Tactic.FieldSimp
import Mathlib.Tactic.LinearCombination
import Mathlib.Tactic.Ring

namespace ColumnQuery

/-! ## Exact numbers -/

/-- The exact number that a value reads as, if it reads as a finite one. -/
def Value.rational? (v : Value) : Option Rat := Number.value? v.toFloat

instance : Quantity Rat where
  ofNat n := n
  ofValue v := v.rational?.getD 0
  isZero x := x == 0

/-! ## Formulas -/

namespace Batch

def mean (xs : List Rat) : Rat := xs.sum / xs.length

/-- The sum of squared deviations from the mean. -/
def deviation (xs : List Rat) : Rat := (xs.map fun x => (x - mean xs) ^ 2).sum

/-- The sum of products of deviations from the two means. -/
def coDeviation (ps : List (Rat × Rat)) : Rat :=
  (ps.map fun p => (p.1 - mean (ps.map (·.1))) * (p.2 - mean (ps.map (·.2)))).sum

/-- The mean square deviation of a sample, or of a whole population. -/
def variance (sample : Bool) (xs : List Rat) : Rat :=
  deviation xs / (if sample then (xs.length : Rat) - 1 else xs.length)

/-- The mean product of deviations of a sample, or of a whole population. -/
def covariance (sample : Bool) (ps : List (Rat × Rat)) : Rat :=
  coDeviation ps / (if sample then (ps.length : Rat) - 1 else ps.length)

theorem length_mul_mean (xs : List Rat) : xs.length * mean xs = xs.sum := by
  unfold mean
  cases xs with
  | nil => simp
  | cons x xs =>
    have hlength : ((x :: xs).length : Rat) ≠ 0 := Nat.cast_ne_zero.2 (Nat.succ_ne_zero _)
    field_simp

theorem deviation_eq_coDeviation (xs : List Rat) :
    deviation xs = coDeviation (xs.map fun x => (x, x)) := by
  unfold deviation coDeviation
  simp [Function.comp_def, pow_two]

theorem sum_products (a b : Rat) (ps : List (Rat × Rat)) :
    (ps.map fun p => (p.1 - a) * (p.2 - b)).sum = (ps.map fun p => p.1 * p.2).sum
      - a * (ps.map (·.2)).sum - b * (ps.map (·.1)).sum + ps.length * a * b := by
  induction ps with
  | nil => simp
  | cons p ps ih =>
    simp only [List.map_cons, List.sum_cons, List.length_cons, Nat.cast_add, Nat.cast_one]
    rw [ih]
    ring

/-- The co-deviation in one pass. -/
theorem coDeviation_eq (ps : List (Rat × Rat)) :
    coDeviation ps = (ps.map fun p => p.1 * p.2).sum
      - ps.length * mean (ps.map (·.1)) * mean (ps.map (·.2)) := by
  have hfst := length_mul_mean (ps.map (·.1))
  have hsnd := length_mul_mean (ps.map (·.2))
  rw [List.length_map] at hfst hsnd
  unfold coDeviation
  rw [sum_products, ← hfst, ← hsnd]
  ring

end Batch

/-! ## The recurrences -/

namespace Quantity

/-- The mean after a number has come in, which `n` counts. -/
def meanIn (mean : Rat) (n : Nat) (x : Rat) : Rat := mean + (x - mean) / n

/-- The mean after a number has gone out, which `n` counts no more. -/
def meanOut (mean : Rat) (n : Nat) (x : Rat) : Rat := mean - (x - mean) / n

theorem meanOut_meanIn {n : Nat} (hn : n ≠ 0) (mean x : Rat) :
    meanOut (meanIn mean (n + 1) x) n x = mean := by
  have hn' : (n : Rat) ≠ 0 := Nat.cast_ne_zero.2 hn
  have hsucc : (n : Rat) + 1 ≠ 0 := Nat.cast_add_one_ne_zero n
  unfold meanOut meanIn
  rw [Nat.cast_add, Nat.cast_one]
  field_simp
  ring

namespace Moments

theorem add_eq (m : Moments Rat) (n : Nat) (x : Rat) : m.add n x =
    ⟨meanIn m.mean n x, m.dev + (x - m.mean) * (x - meanIn m.mean n x)⟩ := rfl

theorem remove_eq (m : Moments Rat) {n : Nat} (hn : n ≠ 0) (x : Rat) : m.remove n x =
    ⟨meanOut m.mean n x, m.dev - (x - m.mean) * (x - meanOut m.mean n x)⟩ := if_neg hn

/-- Giving a number back undoes taking it in. -/
theorem remove_add (m : Moments Rat) {n : Nat} (hn : n ≠ 0) (x : Rat) :
    (m.add (n + 1) x).remove n x = m := by
  rw [add_eq, remove_eq _ hn, meanOut_meanIn hn, mul_comm (x - meanIn _ _ _),
    add_sub_cancel_right]

end Moments

namespace CoMoments

theorem add_eq (m : CoMoments Rat) (n : Nat) (x y : Rat) : m.add n x y =
    ⟨meanIn m.meanX n x, meanIn m.meanY n y,
      m.devX + (x - m.meanX) * (x - meanIn m.meanX n x),
      m.devY + (y - m.meanY) * (y - meanIn m.meanY n y),
      m.comoment + (x - m.meanX) * (y - meanIn m.meanY n y)⟩ := rfl

theorem remove_eq (m : CoMoments Rat) {n : Nat} (hn : n ≠ 0) (x y : Rat) : m.remove n x y =
    ⟨meanOut m.meanX n x, meanOut m.meanY n y,
      m.devX - (x - meanOut m.meanX n x) * (x - m.meanX),
      m.devY - (y - meanOut m.meanY n y) * (y - m.meanY),
      m.comoment - (x - meanOut m.meanX n x) * (y - m.meanY)⟩ := if_neg hn

/-- Giving a pair back undoes taking it in. -/
theorem remove_add (m : CoMoments Rat) {n : Nat} (hn : n ≠ 0) (x y : Rat) :
    (m.add (n + 1) x y).remove n x y = m := by
  rw [add_eq, remove_eq _ hn]
  simp only [meanOut_meanIn hn, add_sub_cancel_right]

end CoMoments

end Quantity

/-! ## The recurrences keep to the formulas -/

namespace Batch

open Quantity (Moments CoMoments meanIn)

variable {xs ys : List Rat} {ps qs : List (Rat × Rat)}

theorem meanIn_mean (xs : List Rat) (x : Rat) :
    meanIn (mean xs) (xs.length + 1) x = mean (xs ++ [x]) := by
  have hlength : (xs.length : Rat) + 1 ≠ 0 := Nat.cast_add_one_ne_zero xs.length
  have hsum := length_mul_mean (xs ++ [x])
  rw [List.sum_append, List.sum_singleton, List.length_append, List.length_singleton,
    ← length_mul_mean xs, Nat.cast_add, Nat.cast_one] at hsum
  unfold meanIn
  rw [Nat.cast_add, Nat.cast_one]
  field_simp
  linear_combination -hsum

theorem coDeviation_concat (ps : List (Rat × Rat)) (p : Rat × Rat) :
    coDeviation (ps ++ [p]) = coDeviation ps
      + (p.1 - mean (ps.map (·.1))) * (p.2 - mean ((ps ++ [p]).map (·.2))) := by
  have hfst := length_mul_mean ((ps ++ [p]).map (·.1))
  have hsnd := length_mul_mean ((ps ++ [p]).map (·.2))
  have hfst' := length_mul_mean (ps.map (·.1))
  have hsnd' := length_mul_mean (ps.map (·.2))
  rw [coDeviation_eq, coDeviation_eq]
  simp only [List.map_append, List.map_cons, List.map_nil, List.length_append, List.length_map,
    List.length_singleton, List.sum_append, List.sum_singleton, Nat.cast_add, Nat.cast_one]
    at hfst hsnd hfst' hsnd' ⊢
  rw [← hfst'] at hfst
  rw [← hsnd'] at hsnd
  linear_combination (-mean (ps.map (·.2) ++ [p.2])) * hfst - mean (ps.map (·.1)) * hsnd

theorem deviation_concat (xs : List Rat) (x : Rat) :
    deviation (xs ++ [x]) = deviation xs + (x - mean xs) * (x - mean (xs ++ [x])) := by
  have hpairs := coDeviation_concat (xs.map fun x => (x, x)) (x, x)
  rw [← List.map_singleton (f := fun x : Rat => (x, x)), ← List.map_append] at hpairs
  rw [deviation_eq_coDeviation, deviation_eq_coDeviation]
  simpa [Function.comp_def] using hpairs

/-- The moments of numbers. -/
def moments (xs : List Rat) : Moments Rat := ⟨mean xs, deviation xs⟩

/-- The moments of pairs of numbers. -/
def coMoments (ps : List (Rat × Rat)) : CoMoments Rat :=
  ⟨mean (ps.map (·.1)), mean (ps.map (·.2)), deviation (ps.map (·.1)), deviation (ps.map (·.2)),
    coDeviation ps⟩

theorem moments_nil : moments [] = Moments.empty := by
  simp [moments, mean, deviation, Moments.empty, Quantity.zero, Quantity.ofNat]

theorem coMoments_nil : coMoments [] = CoMoments.empty := by
  simp [coMoments, mean, deviation, coDeviation, CoMoments.empty, Quantity.zero, Quantity.ofNat]

/-! ### A number comes in -/

theorem add_moments (xs : List Rat) (x : Rat) :
    (moments xs).add (xs.length + 1) x = moments (xs ++ [x]) := by
  unfold moments
  rw [Moments.add_eq, meanIn_mean, ← deviation_concat]

theorem add_coMoments (ps : List (Rat × Rat)) (p : Rat × Rat) :
    (coMoments ps).add (ps.length + 1) p.1 p.2 = coMoments (ps ++ [p]) := by
  have hx := meanIn_mean (ps.map (·.1)) p.1
  have hy := meanIn_mean (ps.map (·.2)) p.2
  rw [List.length_map] at hx hy
  unfold coMoments
  rw [CoMoments.add_eq, coDeviation_concat]
  simp only [hx, hy, List.map_append, List.map_cons, List.map_nil, deviation_concat]

/-! ### The oldest number goes out -/

theorem mean_perm (h : xs.Perm ys) : mean xs = mean ys := by
  unfold mean
  rw [h.sum_eq, h.length_eq]

theorem coDeviation_perm (h : ps.Perm qs) : coDeviation ps = coDeviation qs := by
  unfold coDeviation
  rw [mean_perm (h.map _), mean_perm (h.map _)]
  exact (h.map _).sum_eq

theorem moments_perm (h : xs.Perm ys) : moments xs = moments ys := by
  unfold moments
  rw [mean_perm h, deviation_eq_coDeviation, deviation_eq_coDeviation, coDeviation_perm (h.map _)]

theorem coMoments_perm (h : ps.Perm qs) : coMoments ps = coMoments qs := by
  have hx := moments_perm (h.map (·.1))
  have hy := moments_perm (h.map (·.2))
  injection hx with hmeanX hdevX
  injection hy with hmeanY hdevY
  unfold coMoments
  rw [hmeanX, hmeanY, hdevX, hdevY, coDeviation_perm h]

theorem remove_moments (x : Rat) (xs : List Rat) :
    (moments (x :: xs)).remove xs.length x = moments xs := by
  by_cases hxs : xs = []
  · rw [hxs, moments_nil]
    rfl
  rw [moments_perm (List.perm_append_singleton x xs).symm, ← add_moments]
  exact Moments.remove_add _ (List.length_pos_iff.2 hxs).ne' x

theorem remove_coMoments (p : Rat × Rat) (ps : List (Rat × Rat)) :
    (coMoments (p :: ps)).remove ps.length p.1 p.2 = coMoments ps := by
  by_cases hps : ps = []
  · rw [hps, coMoments_nil]
    rfl
  rw [coMoments_perm (List.perm_append_singleton p ps).symm, ← add_coMoments]
  exact CoMoments.remove_add _ (List.length_pos_iff.2 hps).ne' p.1 p.2

end Batch

end ColumnQuery
