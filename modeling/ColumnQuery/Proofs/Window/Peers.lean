/-
  Classes of tied rows.

  A class starts at each position that does not tie with the one before (`succ_mem_startsFrom`). So
  two positions are in one class if there is no start after the first one up to the second one
  (`WellFormed.group_eq_iff`). Neighbours are all that is compared; of rows that stand in order that
  is enough, and two positions are in one class exactly if their rows tie (`group_ofTies_eq_iff`).
-/
import ColumnQuery.Proofs.Window.Frames

namespace ColumnQuery

namespace Peers

variable {α : Type} {tied : α → α → Bool}

/-! ## Where classes start -/

theorem mem_startsFrom_cons {row : α} {rest : List α} {previous : Option α} {position start : Nat} :
    start ∈ startsFrom tied previous position (row :: rest) ↔
      start = position ∧ previous.any (tied · row) = false ∨
        start ∈ startsFrom tied (some row) (position + 1) rest := by
  simp only [startsFrom]
  cases previous.any (tied · row) <;> simp

theorem position_mem_startsFrom {rows : List α} {previous : Option α} {position : Nat} :
    position ∈ startsFrom tied previous position rows ↔
      ∃ row, rows[0]? = some row ∧ previous.any (tied · row) = false := by
  cases rows with
  | nil => simp [startsFrom]
  | cons row rest =>
    have hlater : position ∉ startsFrom tied (some row) (position + 1) rest := fun h => by
      have := le_of_mem_startsFrom rest _ _ _ h
      omega
    rw [mem_startsFrom_cons]
    simp [hlater]

/-- A class starts at each later position that does not tie with the one before. -/
theorem succ_mem_startsFrom {rows : List α} {previous : Option α} {position k : Nat} :
    position + (k + 1) ∈ startsFrom tied previous position rows ↔
      ∃ a b, rows[k]? = some a ∧ rows[k + 1]? = some b ∧ tied a b = false := by
  induction rows generalizing previous position k with
  | nil => simp [startsFrom]
  | cons row rest ih =>
    rw [mem_startsFrom_cons, ← Nat.add_assoc, Nat.add_right_comm]
    cases k with
    | zero => simp [position_mem_startsFrom]
    | succ k =>
      have hne : position + 1 + (k + 1) ≠ position := by omega
      simp [ih, hne]

/-! ## Positions of one class -/

/-- Two positions are in one class if no class starts in between. -/
theorem WellFormed.group_eq_iff {p : Peers} (h : p.WellFormed) {i j : Nat} (hij : i ≤ j)
    (hj : j < p.size) : p.group i = p.group j ↔ ∀ start ∈ p.starts, start ≤ j → start ≤ i := by
  have hpos : 0 < p.starts.countP (· ≤ i) :=
    List.countP_pos_iff.2 ⟨0, h.zero_mem (by omega), by simp⟩
  have hmono := countP_mono p.starts hij
  unfold group
  constructor
  · intro heq start hstart hle
    by_contra hlt
    obtain ⟨k, hk, rfl⟩ := List.mem_iff_getElem.1 hstart
    have hbefore := (lt_countP_iff h.ascending j k hk).2 hle
    have hafter := mt (lt_countP_iff h.ascending i k hk).1 hlt
    omega
  · intro hall
    have heq : p.starts.countP (· ≤ i) = p.starts.countP (· ≤ j) :=
      List.countP_congr fun start hstart => by
        simp only [decide_eq_true_eq]
        exact ⟨fun hle => Nat.le_trans hle hij, hall start hstart⟩
    rw [heq]

section Sorted

variable {cmp : α → α → Ordering} [Std.TransCmp cmp] {rows : List α} {i j : Nat} {a b : α}

theorem isLE_of_pairwise (hrows : rows.Pairwise fun a b => (cmp a b).isLE = true) (hij : i ≤ j)
    (ha : rows[i]? = some a) (hb : rows[j]? = some b) : (cmp a b).isLE = true := by
  obtain ⟨hi, rfl⟩ := List.getElem?_eq_some_iff.1 ha
  obtain ⟨hj, rfl⟩ := List.getElem?_eq_some_iff.1 hb
  rcases Nat.eq_or_lt_of_le hij with rfl | hlt
  · simp [Std.ReflCmp.compare_self]
  · exact List.pairwise_iff_getElem.1 hrows i j hi hj hlt

theorem group_ofTies_eq_iff_of_le (hrows : rows.Pairwise fun a b => (cmp a b).isLE = true)
    (hij : i ≤ j) (ha : rows[i]? = some a) (hb : rows[j]? = some b) :
    (ofTies (cmp · · == .eq) rows).group i = (ofTies (cmp · · == .eq) rows).group j ↔
      cmp a b = .eq := by
  have hj : j < rows.length := (List.getElem?_eq_some_iff.1 hb).1
  have hstart : ∀ {k x y}, rows[k]? = some x → rows[k + 1]? = some y →
      (k + 1 ∈ (ofTies (cmp · · == .eq) rows).starts ↔ cmp x y ≠ .eq) := by
    intro k x y hx hy
    have hmem : 0 + (k + 1) ∈ startsFrom (cmp · · == .eq) none 0 rows ↔ _ := succ_mem_startsFrom
    rw [Nat.zero_add] at hmem
    exact hmem.trans (by simp [hx, hy])
  rw [(wellFormed_ofTies _ rows).group_eq_iff hij hj]
  constructor
  · -- each neighbour ties with the one before, up to the second position
    intro hnone
    have hties : ∀ m, i + m ≤ j → ∀ x, rows[i + m]? = some x → cmp a x = .eq := by
      intro m
      induction m with
      | zero =>
        intro _ x hx
        obtain rfl := Option.some.inj (ha.symm.trans hx)
        exact Std.ReflCmp.compare_self
      | succ m ih =>
        intro hm y hy
        have hlt : i + m < rows.length := by omega
        have hx := List.getElem?_eq_getElem hlt
        refine Std.TransCmp.eq_trans (ih (by omega) _ hx) (by_contra fun hne => ?_)
        have := hnone (i + m + 1) ((hstart hx hy).2 hne) hm
        omega
    obtain ⟨m, rfl⟩ := Nat.exists_eq_add_of_le hij
    exact hties m (Nat.le_refl _) b hb
  · -- what stands between two rows that tie lies between them
    intro htied start hmem hle
    by_contra hlt
    obtain ⟨k, rfl⟩ : ∃ k, start = k + 1 := ⟨start - 1, by omega⟩
    have hx := List.getElem?_eq_getElem (show k < rows.length by omega)
    have hy := List.getElem?_eq_getElem (show k + 1 < rows.length by omega)
    have hback : cmp b a = .eq := Std.OrientedCmp.eq_symm htied
    refine (hstart hx hy).1 hmem (Std.OrientedCmp.isLE_antisymm
      (isLE_of_pairwise hrows (Nat.le_succ k) hx hy) ?_)
    exact Std.TransCmp.isLE_trans (isLE_of_pairwise hrows hle hy hb)
      (Std.TransCmp.isLE_trans (by rw [hback]; rfl) (isLE_of_pairwise hrows (by omega) ha hx))

/-- Of rows in order, those in one class are those that tie. -/
theorem group_ofTies_eq_iff (hrows : rows.Pairwise fun a b => (cmp a b).isLE = true)
    (ha : rows[i]? = some a) (hb : rows[j]? = some b) :
    (ofTies (cmp · · == .eq) rows).group i = (ofTies (cmp · · == .eq) rows).group j ↔
      cmp a b = .eq := by
  rcases Nat.le_total i j with hij | hji
  · exact group_ofTies_eq_iff_of_le hrows hij ha hb
  · rw [eq_comm, group_ofTies_eq_iff_of_le hrows hji hb ha]
    exact ⟨Std.OrientedCmp.eq_symm, Std.OrientedCmp.eq_symm⟩

end Sorted

end Peers

end ColumnQuery
