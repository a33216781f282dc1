/-
  Tables side by side.

  Two tables stand alongside each other if their columns correspond one by one, under the same
  names (`Alongside`). Whatever goes by names then finds columns that correspond (`column?`), and
  setting columns that correspond keeps the tables alongside (`Alongside.set`). A table stands
  alongside the copies of its columns (`alongside_take?`).
-/
import ColumnQuery.Proofs.Table
import Mathlib.Data.List.Forall2

namespace ColumnQuery

namespace Table

/-- Tables whose columns correspond in their order, under the same names. -/
def Alongside (R : Column → Column → Prop) (t t' : Table) : Prop :=
  List.Forall₂ (fun e e' => e.1 = e'.1 ∧ R e.2 e'.2) t.columns t'.columns

variable {R : Column → Column → Prop} {t t' u u' : Table}

theorem Alongside.names (h : t.Alongside R t') : t.names = t'.names := by
  unfold Alongside at h
  unfold Table.names
  generalize t.columns = cs, t'.columns = cs' at h
  induction h with
  | nil => rfl
  | cons he _ ih => exact congrArg₂ List.cons he.1 ih

theorem Alongside.column? (h : t.Alongside R t') (name : String) :
    Option.Rel R (t.column? name) (t'.column? name) := by
  unfold Alongside at h
  unfold Table.column?
  generalize t.columns = cs, t'.columns = cs' at h
  induction h with
  | nil => exact .none
  | @cons e e' _ _ he _ ih =>
    obtain ⟨n, c⟩ := e
    obtain ⟨n', c'⟩ := e'
    obtain ⟨rfl, hc⟩ := he
    rw [List.lookup_cons, List.lookup_cons]
    dsimp only
    cases name == n with
    | true => exact .some hc
    | false => exact ih

/-- Tables with the same names have columns under the same names. -/
theorem rel_column? (hnames : t.names = t'.names) {name : String}
    (h : ∀ c c', t.column? name = some c → t'.column? name = some c' → R c c') :
    Option.Rel R (t.column? name) (t'.column? name) := by
  have hiff : t.column? name = none ↔ t'.column? name = none := by
    rw [column?_eq_none_iff, column?_eq_none_iff, hnames]
  cases hc : t.column? name with
  | none =>
    rw [hiff.1 hc]
    exact .none
  | some c =>
    cases hc' : t'.column? name with
    | none =>
      rw [hiff.2 hc'] at hc
      cases hc
    | some c' => exact .some (h c c' hc hc')

/-! ## Changes -/

theorem Alongside.imp {S : Column → Column → Prop} (h : t.Alongside R t')
    (himp : ∀ c c', R c c' → S c c') : t.Alongside S t' :=
  List.Forall₂.imp (fun _ _ he => ⟨he.1, himp _ _ he.2⟩) h

theorem Alongside.add (h : t.Alongside R t') {name : String} {c c' : Column} (hc : R c c')
    (hu : t.add name c = .ok u) (hu' : t'.add name c' = .ok u') : u.Alongside R u' := by
  obtain ⟨-, -, rfl⟩ := add_eq_ok hu
  obtain ⟨-, -, rfl⟩ := add_eq_ok hu'
  exact List.rel_append h (.cons ⟨rfl, hc⟩ .nil)

/-- Columns that correspond, appended or put in the place of others. -/
theorem Alongside.set (h : t.Alongside R t') {name : String} {c c' : Column} (hc : R c c')
    (hu : t.set name c = .ok u) (hu' : t'.set name c' = .ok u') : u.Alongside R u' := by
  rcases set_eq_ok hu with hadd | ⟨hname, -, rfl⟩
  · rcases set_eq_ok hu' with hadd' | ⟨hname', -, -⟩
    · exact h.add hc hadd hadd'
    · exact absurd (h.names ▸ hname') (add_eq_ok hadd).1
  · rcases set_eq_ok hu' with hadd' | ⟨-, -, rfl⟩
    · exact absurd (h.names ▸ hname) (add_eq_ok hadd').1
    · refine List.forall₂_map_left_iff.2 (List.forall₂_map_right_iff.2 ?_)
      refine List.Forall₂.imp (fun e e' he => ?_) h
      rw [he.1]
      split
      next => exact ⟨rfl, hc⟩
      next => exact he

/-- Every column stands beside its copy. -/
theorem alongside_take? {rows : List Nat} (h : t.take? rows = some u) :
    t.Alongside (fun c d => c.take? rows = some d) u := by
  have hcopies := mapM_eq_some_iff.1 (take?_eq_some h).1
  rw [← List.forall₂_eq_eq_eq, List.forall₂_map_left_iff, List.forall₂_map_right_iff] at hcopies
  refine List.Forall₂.imp (fun e e' he => ?_) hcopies
  obtain ⟨d, hd, rfl⟩ := Option.map_eq_some_iff.1 he
  exact ⟨rfl, hd⟩

end Table

end ColumnQuery
