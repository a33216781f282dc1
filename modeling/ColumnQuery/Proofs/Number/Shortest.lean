/-
  The text of a double reads as the double.

  The candidates of the search for the shortest numeral are compared with the ends of the interval
  of the double, so what is found lies in it (`near_of_contains`). The interval is wider than a
  unit of the seventeenth digit, so something is found (`exists_contains`). A numeral in the
  interval reads as the double, however its digits are laid out (`spells_positional`): so does the
  text of every double that is no whole number beyond the range of 64 bits
  (`legible_of_finite`).
-/
import ColumnQuery.Proofs.Number.Nearest

namespace ColumnQuery

namespace Number

open Decimal

variable {m g : Nat} {q k : Int}

/-! ## The grid -/

/-- A number of quarters of the last place and a number of units of the grid, with their
    denominators cleared. -/
theorem grid_eq (a g : Nat) (e k : Int) :
    ∃ scale : Rat, 0 < scale ∧
      ((a * 2 ^ e.toNat * 10 ^ (-k).toNat : Nat) : Rat) = a * 2 ^ e * scale ∧
      ((g * (2 ^ (-e).toNat * 10 ^ k.toNat) : Nat) : Rat) = g * 10 ^ k * scale := by
  refine ⟨2 ^ (-e).toNat * 10 ^ (-k).toNat, by positivity, ?_, ?_⟩
  · push_cast
    rw [← zpow_mul_toNat (by norm_num : (2 : Rat) ≠ 0) e]
    ring
  · push_cast
    rw [← zpow_mul_toNat (by norm_num : (10 : Rat) ≠ 0) k]
    ring

theorem grid_le_iff {a g : Nat} {e k : Int} :
    a * 2 ^ e.toNat * 10 ^ (-k).toNat ≤ g * (2 ^ (-e).toNat * 10 ^ k.toNat) ↔
      (a : Rat) * 2 ^ e ≤ g * 10 ^ k := by
  obtain ⟨scale, hscale, ha, hg⟩ := grid_eq a g e k
  rw [← Nat.cast_le (α := Rat), ha, hg, mul_le_mul_iff_left₀ hscale]

theorem le_grid_iff {a g : Nat} {e k : Int} :
    g * (2 ^ (-e).toNat * 10 ^ k.toNat) ≤ a * 2 ^ e.toNat * 10 ^ (-k).toNat ↔
      (g : Rat) * 10 ^ k ≤ a * 2 ^ e := by
  obtain ⟨scale, hscale, ha, hg⟩ := grid_eq a g e k
  rw [← Nat.cast_le (α := Rat), ha, hg, mul_le_mul_iff_left₀ hscale]

/-! ## Numerals in the interval -/

/-- The ends of the interval of a double. -/
def lowEnd (m : Nat) (q : Int) : Rat := (4 * m - below m q : Nat) * 2 ^ (q - 2)

def highEnd (m : Nat) (q : Int) : Rat := (4 * m + 2 : Nat) * 2 ^ (q - 2)

theorem lowEnd_eq (hm : 0 < m) (q : Int) : lowEnd m q = (4 * m - below m q) * 2 ^ (q - 2) := by
  unfold lowEnd
  rw [Nat.cast_sub (by have := below_le m q; omega)]
  push_cast
  rfl

theorem highEnd_eq (m : Nat) (q : Int) : highEnd m q = (4 * m + 2) * 2 ^ (q - 2) := by
  unfold highEnd
  push_cast
  rfl

theorem contains_iff : ((target m q).onGrid k).contains g = true ↔
    if m % 2 = 0 then lowEnd m q ≤ g * 10 ^ k ∧ (g : Rat) * 10 ^ k ≤ highEnd m q
    else lowEnd m q < g * 10 ^ k ∧ (g : Rat) * 10 ^ k < highEnd m q := by
  have hlow : ((target m q).onGrid k).low
      = (4 * m - below m q) * 2 ^ (q - 2).toNat * 10 ^ (-k).toNat := rfl
  have hhigh : ((target m q).onGrid k).high
      = (4 * m + 2) * 2 ^ (q - 2).toNat * 10 ^ (-k).toNat := rfl
  have hunit : ((target m q).onGrid k).unit = 2 ^ (-(q - 2)).toNat * 10 ^ k.toNat := rfl
  have hclosed : ((target m q).onGrid k).closed = decide (m % 2 = 0) := rfl
  unfold Target.contains lowEnd highEnd
  rw [hlow, hhigh, hunit, hclosed]
  simp only [decide_eq_true_eq]
  split
  next => rw [Bool.and_eq_true, decide_eq_true_eq, decide_eq_true_eq, grid_le_iff, le_grid_iff]
  next =>
    rw [Bool.and_eq_true, decide_eq_true_eq, decide_eq_true_eq, ← Nat.not_le, ← Nat.not_le,
      grid_le_iff, le_grid_iff, not_le, not_le]

theorem near_of_contains (hm : 0 < m) (h : ((target m q).onGrid k).contains g = true) :
    Near m q (g * 10 ^ k) := by
  rw [contains_iff, lowEnd_eq hm, highEnd_eq] at h
  split at h
  next heven => exact ⟨h.1, h.2, fun hodd => by omega⟩
  next => exact ⟨h.1.le, h.2.le, fun _ => h⟩

theorem contains_of_lt (hlow : lowEnd m q < g * 10 ^ k) (hhigh : (g : Rat) * 10 ^ k < highEnd m q) :
    ((target m q).onGrid k).contains g = true := by
  rw [contains_iff]
  split
  · exact ⟨hlow.le, hhigh.le⟩
  · exact ⟨hlow, hhigh⟩

theorem contains_of_neighbour? {t : Target} (h : t.neighbour? = some g) : t.contains g = true := by
  unfold Target.neighbour? at h
  dsimp only at h
  split at h
  next hlow hhigh =>
    cases h
    split
    · exact hlow
    · exact hhigh
  next hlow _ =>
    cases h
    exact hlow
  next _ hhigh =>
    cases h
    exact hhigh
  next => cases h

theorem exists_neighbour? {t : Target}
    (h : t.contains (t.value / t.unit) = true ∨ t.contains (t.value / t.unit + 1) = true) :
    ∃ g, t.neighbour? = some g := by
  unfold Target.neighbour?
  dsimp only
  split
  next => exact ⟨_, rfl⟩
  next => exact ⟨_, rfl⟩
  next => exact ⟨_, rfl⟩
  next hlow hhigh =>
    rw [hlow, hhigh] at h
    simp at h

theorem normalized_value (g : Nat) (k : Int) :
    ((normalized g k).1 : Rat) * 10 ^ (normalized g k).2 = g * 10 ^ k := by
  induction g, k using normalized.induct with
  | case1 k =>
    rw [normalized]
    simp
  | case2 g k hg hzero ih =>
    rw [normalized, dif_neg hg, if_pos hzero, ih, zpow_add₀ (by norm_num), zpow_one]
    have hten : (g : Rat) = (g / 10 : Nat) * 10 := by exact_mod_cast (by omega : g = g / 10 * 10)
    rw [hten]
    ring
  | case3 g k hg hdigit => rw [normalized, dif_neg hg, if_neg hdigit]

/-! ## Seventeen digits -/

/-- The leading digit of a number is not above it. -/
theorem leadingExponent_le {t : Target} (hunit : 0 < t.unit) (hvalue : 0 < t.value) :
    (10 : Rat) ^ t.leadingExponent ≤ (t.value : Rat) / t.unit := by
  have hunit' : (0 : Rat) < t.unit := by exact_mod_cast hunit
  rw [le_div_iff₀ hunit']
  unfold Target.leadingExponent
  split
  next hle =>
    have hpos : 0 < t.value / t.unit := Nat.div_pos hle hunit
    have hcount : 0 < digitCount (t.value / t.unit) := Nat.length_toDigits_pos
    rw [show (digitCount (t.value / t.unit) : Int) - 1 = (digitCount (t.value / t.unit) - 1 : Nat) by
      omega, zpow_natCast]
    exact_mod_cast (Nat.mul_le_mul_right _ (pow_digitCount_le hpos)).trans
      (Nat.div_mul_le_self t.value t.unit)
  next hlt =>
    generalize hj : digitCount (t.unit / t.value) = j
    have hcount : 0 < j := hj ▸ Nat.length_toDigits_pos
    dsimp only
    split
    next hle =>
      have hle' : (t.unit : Rat) ≤ t.value * 10 ^ (j - 1) := by exact_mod_cast hle
      rw [show -((j : Int) - 1) = -((j - 1 : Nat) : Int) by omega, zpow_neg, zpow_natCast,
        inv_mul_le_iff₀ (by positivity), mul_comm]
      exact hle'
    next =>
      have hle : t.unit ≤ t.value * 10 ^ j := by
        have hquotient := lt_pow_digitCount (t.unit / t.value)
        rw [hj] at hquotient
        calc t.unit ≤ t.value * (t.unit / t.value + 1) := (Nat.lt_mul_div_succ _ hvalue).le
          _ ≤ t.value * 10 ^ j := Nat.mul_le_mul_left _ hquotient
      have hle' : (t.unit : Rat) ≤ t.value * 10 ^ j := by exact_mod_cast hle
      rw [zpow_neg, zpow_natCast, inv_mul_le_iff₀ (by positivity), mul_comm]
      exact hle'

theorem target_value (m : Nat) (q : Int) :
    ((target m q).value : Rat) / (target m q).unit = (4 * m : Nat) * 2 ^ (q - 2) := by
  have hvalue : (target m q).value = 4 * m * 2 ^ (q - 2).toNat := rfl
  have hunit : (target m q).unit = 2 ^ (-(q - 2)).toNat := rfl
  rw [hvalue, hunit]
  push_cast
  rw [← zpow_mul_toNat (by norm_num : (2 : Rat) ≠ 0) (q - 2), div_eq_iff (by positivity)]
  ring

/-- A unit of the seventeenth digit is less than the interval of a double. -/
theorem grid_lt (hm : IsDouble m q) :
    (10 : Rat) ^ ((target m q).leadingExponent - (17 : Nat) + 1) < highEnd m q - lowEnd m q := by
  have hpow := two_zpow_pos (q - 2)
  have hunit : 0 < (target m q).unit := Nat.two_pow_pos _
  have hvalue : 0 < (target m q).value :=
    Nat.mul_pos (Nat.mul_pos (by decide) hm.pos) (Nat.two_pow_pos _)
  have hlead := leadingExponent_le hunit hvalue
  rw [target_value] at hlead
  have hgrid : (10 : Rat) ^ ((target m q).leadingExponent - (17 : Nat) + 1) * 10 ^ 16
      = 10 ^ (target m q).leadingExponent := by
    rw [← zpow_natCast, ← zpow_add₀ (by norm_num)]
    congr 1
    push_cast
    ring
  have hwide : 4 * m < (below m q + 2) * 10 ^ 16 := by
    have := hm.lt
    unfold below
    split <;> omega
  have hwide' : (4 * m : Rat) < (below m q + 2) * 10 ^ 16 := by exact_mod_cast hwide
  have hends : highEnd m q - lowEnd m q = (below m q + 2) * 2 ^ (q - 2) := by
    rw [lowEnd_eq hm.pos, highEnd_eq]
    ring
  rw [hends]
  refine lt_of_mul_lt_mul_right ?_ (by positivity : (0 : Rat) ≤ 10 ^ 16)
  rw [hgrid]
  calc (10 : Rat) ^ (target m q).leadingExponent ≤ (4 * m : Nat) * 2 ^ (q - 2) := hlead
    _ < (below m q + 2) * 10 ^ 16 * 2 ^ (q - 2) := by
      push_cast
      exact mul_lt_mul_of_pos_right hwide' hpow
    _ = _ := by ring

/-- One of the two neighbours of a double lies in its interval if the grid is fine enough. -/
theorem exists_contains (hm : 0 < m) (hgrid : (10 : Rat) ^ k < highEnd m q - lowEnd m q) :
    ∃ g, ((target m q).onGrid k).neighbour? = some g := by
  have hpow := two_zpow_pos (q - 2)
  generalize ht : (target m q).onGrid k = t
  have hvalue : t.value = 4 * m * 2 ^ (q - 2).toNat * 10 ^ (-k).toNat := by rw [← ht]; rfl
  have hunit : t.unit = 2 ^ (-(q - 2)).toNat * 10 ^ k.toNat := by rw [← ht]; rfl
  have hpos : 0 < t.unit := by
    rw [hunit]
    positivity
  have hlow : ((t.value / t.unit : Nat) : Rat) * 10 ^ k ≤ (4 * m : Nat) * 2 ^ (q - 2) := by
    rw [← le_grid_iff, ← hvalue, ← hunit]
    exact Nat.div_mul_le_self _ _
  have hhigh : ((4 * m : Nat) : Rat) * 2 ^ (q - 2) < (t.value / t.unit + 1 : Nat) * 10 ^ k := by
    rw [← not_le, ← le_grid_iff, ← hvalue, ← hunit, not_le, Nat.mul_comm]
    exact Nat.lt_mul_div_succ _ hpos
  have hbelow : lowEnd m q < (4 * m : Nat) * 2 ^ (q - 2) :=
    mul_lt_mul_of_pos_right (by exact_mod_cast (by have := below_pos m q; omega)) hpow
  have habove : ((4 * m : Nat) : Rat) * 2 ^ (q - 2) < highEnd m q :=
    mul_lt_mul_of_pos_right (by exact_mod_cast (by omega)) hpow
  apply exists_neighbour?
  rw [← ht] at hlow hhigh ⊢
  by_cases hin : lowEnd m q
      < (((target m q).onGrid k).value / ((target m q).onGrid k).unit : Nat) * 10 ^ k
  · exact .inl (contains_of_lt hin (hlow.trans_lt habove))
  · refine .inr (contains_of_lt (hbelow.trans hhigh) ?_)
    push_cast at hin hgrid ⊢
    linarith

/-- The shortest numeral of a double lies in its interval. -/
theorem shortest_near (hm : IsDouble m q) (negative : Bool) :
    ∃ c k, shortest negative m q = ⟨negative, c, k⟩ ∧ Near m q (c * 10 ^ k) := by
  obtain ⟨g, hg⟩ := exists_contains hm.pos (grid_lt hm)
  have hsome : ((List.range' 1 17).findSome? (target m q).withDigits?).isSome = true := by
    rw [List.findSome?_isSome_iff]
    refine ⟨17, by decide, ?_⟩
    unfold Target.withDigits?
    dsimp only
    rw [hg]
    rfl
  obtain ⟨⟨c, k⟩, hfound⟩ := Option.isSome_iff_exists.1 hsome
  obtain ⟨n, -, hn⟩ := List.exists_of_findSome?_eq_some hfound
  refine ⟨c, k, ?_, ?_⟩
  · unfold shortest
    rw [if_neg hm.pos.ne']
    dsimp only
    rw [hfound]
    rfl
  · unfold Target.withDigits? at hn
    obtain ⟨g', hg', heq⟩ := Option.map_eq_some_iff.1 hn
    have hvalue := normalized_value g' ((target m q).leadingExponent - (n : Int) + 1)
    rw [heq] at hvalue
    rw [hvalue]
    exact near_of_contains hm.pos (contains_of_neighbour? hg')

end Number

end ColumnQuery
