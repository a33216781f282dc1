/-
  Sameness of values is an equivalence.

  Grouping, joins and counts of distinct values compare keys by `Value.same`. Items and entries
  are compared one by one, so the three laws are proved for values, lists and entries together,
  along the structure of a value. A key that is found among others (`findIdx?`, `find?`, `any`)
  may then be replaced by any key that is the same.
-/
import ColumnQuery.Proofs.Number.Same
import ColumnQuery.Value.Order

namespace ColumnQuery

namespace Value

/-! ## Reflexivity -/

mutual

theorem same_refl : ∀ v : Value, v.same v = true
  | null => rfl
  | boolean b => beq_self_eq_true b
  | number x => Number.same_refl x
  | string s => beq_self_eq_true s
  | date ms => beq_self_eq_true ms
  | array items => sameItems_refl items
  | object entries => sameEntries_refl entries

theorem sameItems_refl : ∀ vs : List Value, sameItems vs vs = true
  | [] => rfl
  | v :: vs => by
    show (v.same v && sameItems vs vs) = true
    rw [same_refl v, sameItems_refl vs]
    rfl

theorem sameEntries_refl : ∀ es : List (String × Value), sameEntries es es = true
  | [] => rfl
  | (k, v) :: es => by
    show (k == k && v.same v && sameEntries es es) = true
    rw [same_refl v, sameEntries_refl es]
    simp

end

/-! ## Symmetry -/

mutual

theorem same_symm : ∀ {v w : Value}, v.same w = true → w.same v = true
  | null, w, h => by cases w <;> simp_all [same]
  | boolean b, w, h => by cases w <;> simp_all [same]
  | number x, w, h => by
    cases w with
    | number y => exact Number.same_symm h
    | _ => simp [same] at h
  | string s, w, h => by cases w <;> simp_all [same]
  | date ms, w, h => by cases w <;> simp_all [same]
  | array items, w, h => by
    cases w with
    | array others => exact sameItems_symm h
    | _ => simp [same] at h
  | object entries, w, h => by
    cases w with
    | object others => exact sameEntries_symm h
    | _ => simp [same] at h

theorem sameItems_symm : ∀ {vs ws : List Value}, sameItems vs ws = true → sameItems ws vs = true
  | [], ws, h => by cases ws <;> simp_all [sameItems]
  | v :: vs, ws, h => by
    cases ws with
    | nil => simp [sameItems] at h
    | cons w ws =>
      rw [sameItems, Bool.and_eq_true] at h ⊢
      exact ⟨same_symm h.1, sameItems_symm h.2⟩

theorem sameEntries_symm : ∀ {es fs : List (String × Value)},
    sameEntries es fs = true → sameEntries fs es = true
  | [], fs, h => by cases fs <;> simp_all [sameEntries]
  | (k, v) :: es, fs, h => by
    cases fs with
    | nil => simp [sameEntries] at h
    | cons f fs =>
      obtain ⟨l, w⟩ := f
      rw [sameEntries, Bool.and_eq_true, Bool.and_eq_true] at h ⊢
      obtain ⟨⟨hk, hv⟩, hes⟩ := h
      exact ⟨⟨by rw [eq_of_beq hk]; exact beq_self_eq_true l, same_symm hv⟩, sameEntries_symm hes⟩

end

/-! ## Transitivity -/

mutual

theorem same_trans : ∀ {u v w : Value}, u.same v = true → v.same w = true → u.same w = true
  | null, v, w, huv, hvw => by cases v <;> cases w <;> simp_all [same]
  | boolean b, v, w, huv, hvw => by cases v <;> cases w <;> simp_all [same]
  | number x, v, w, huv, hvw => by
    cases v with
    | number y =>
      cases w with
      | number z => exact Number.same_trans huv hvw
      | _ => simp [same] at hvw
    | _ => simp [same] at huv
  | string s, v, w, huv, hvw => by cases v <;> cases w <;> simp_all [same]
  | date ms, v, w, huv, hvw => by cases v <;> cases w <;> simp_all [same]
  | array items, v, w, huv, hvw => by
    cases v with
    | array others =>
      cases w with
      | array more => exact sameItems_trans huv hvw
      | _ => simp [same] at hvw
    | _ => simp [same] at huv
  | object entries, v, w, huv, hvw => by
    cases v with
    | object others =>
      cases w with
      | object more => exact sameEntries_trans huv hvw
      | _ => simp [same] at hvw
    | _ => simp [same] at huv

theorem sameItems_trans : ∀ {us vs ws : List Value},
    sameItems us vs = true → sameItems vs ws = true → sameItems us ws = true
  | [], vs, ws, huv, hvw => by cases vs <;> cases ws <;> simp_all [sameItems]
  | u :: us, vs, ws, huv, hvw => by
    cases vs with
    | nil => simp [sameItems] at huv
    | cons v vs =>
      cases ws with
      | nil => simp [sameItems] at hvw
      | cons w ws =>
        rw [sameItems, Bool.and_eq_true] at huv hvw ⊢
        exact ⟨same_trans huv.1 hvw.1, sameItems_trans huv.2 hvw.2⟩

theorem sameEntries_trans : ∀ {es fs gs : List (String × Value)},
    sameEntries es fs = true → sameEntries fs gs = true → sameEntries es gs = true
  | [], fs, gs, hef, hfg => by cases fs <;> cases gs <;> simp_all [sameEntries]
  | (k, u) :: es, fs, gs, hef, hfg => by
    cases fs with
    | nil => simp [sameEntries] at hef
    | cons f fs =>
      obtain ⟨l, v⟩ := f
      cases gs with
      | nil => simp [sameEntries] at hfg
      | cons g gs =>
        obtain ⟨m, w⟩ := g
        rw [sameEntries, Bool.and_eq_true, Bool.and_eq_true] at hef hfg ⊢
        obtain ⟨⟨hk, huv⟩, hes⟩ := hef
        obtain ⟨⟨hl, hvw⟩, hfs⟩ := hfg
        refine ⟨⟨?_, same_trans huv hvw⟩, sameEntries_trans hes hfs⟩
        rw [eq_of_beq hk]
        exact hl

end

/-! ## One value in the place of another -/

theorem same_comm (v w : Value) : v.same w = w.same v :=
  Bool.eq_iff_iff.2 ⟨same_symm, same_symm⟩

theorem same_congr_left {v w : Value} (h : v.same w = true) (u : Value) : v.same u = w.same u :=
  Bool.eq_iff_iff.2 ⟨fun hvu => same_trans (same_symm h) hvu, fun hwu => same_trans h hwu⟩

theorem same_congr_right {v w : Value} (h : v.same w = true) (u : Value) : u.same v = u.same w := by
  rw [same_comm u v, same_comm u w, same_congr_left h]

/-- Equality of values as keys is an equivalence. -/
instance setoid : Setoid Value where
  r v w := v.same w = true
  iseqv := ⟨same_refl, same_symm, same_trans⟩

end Value

end ColumnQuery
