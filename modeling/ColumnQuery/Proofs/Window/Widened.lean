/-
  Frames with peers.

  A frame is widened through the class of its first row and the class of its last one. What comes
  before a row stands before its class, so a widened frame takes in every row that ties with one of
  its rows, and any range with that property that contains the raw frame contains it
  (`widened_bounds`). The frame that runs up to the current row ends where the class of the row
  does, so the rows of one class share it (`bounds_upTo_eq`); and where the frame does not change,
  nothing comes in or goes out (`events_eq_of_bounds_eq`).
-/
import ColumnQuery.Proofs.Window.Ranks
import ColumnQuery.Proofs.Window.Slide

namespace ColumnQuery

/-! ## Ranges of whole classes -/

section Whole

variable {α : Type} {cmp : α → α → Ordering} {rows : List α}

/-- A range `[lo, hi)` of positions is a union of classes: it takes in every row that ties with one
    of its rows. -/
def WholeClasses (cmp : α → α → Ordering) (rows : List α) (lo hi : Nat) : Prop :=
  ∀ i j a b, rows[i]? = some a → rows[j]? = some b → cmp a b = .eq →
    lo ≤ i ∧ i < hi → lo ≤ j ∧ j < hi

/-- A frame against its raw one: the least range of whole classes that contains it, and an empty
    one if it is empty. -/
structure Widened (cmp : α → α → Ordering) (rows : List α) (raw frame : Nat × Nat) : Prop where
  empty : raw.2 ≤ raw.1 → frame = raw
  inside : frame.1 ≤ frame.2 ∧ frame.2 ≤ rows.length
  contains : raw.1 < raw.2 → frame.1 ≤ raw.1 ∧ raw.2 ≤ frame.2
  whole : raw.1 < raw.2 → WholeClasses cmp rows frame.1 frame.2
  least : raw.1 < raw.2 → ∀ lo hi, lo ≤ raw.1 → raw.2 ≤ hi → WholeClasses cmp rows lo hi →
    lo ≤ frame.1 ∧ frame.2 ≤ hi

variable [Std.TransCmp cmp]

/-- From the class of one position through the class of another. -/
theorem wholeClasses_ofTies (hrows : rows.Pairwise fun a b => (cmp a b).isLE = true) {k m : Nat}
    (hk : k < rows.length) (hm : m < rows.length) : WholeClasses cmp rows
      ((Peers.ofTies (cmp · · == Ordering.eq) rows).first k)
      ((Peers.ofTies (cmp · · == Ordering.eq) rows).last m) := by
  intro i j a b ha hb heq hin
  have hx := List.getElem?_eq_getElem hk
  have hy := List.getElem?_eq_getElem hm
  have hafter := Peers.before_iff hrows hx ha
  have hafter' := Peers.before_iff hrows hx hb
  have hupTo := Peers.upTo_iff hrows hy ha
  have hupTo' := Peers.upTo_iff hrows hy hb
  -- rows that tie compare alike with the two ends
  rw [Std.TransCmp.congr_left heq] at hafter hupTo
  constructor
  · by_contra hlt
    have := hafter.1 (hafter'.2 (by omega))
    omega
  · exact hupTo'.1 (hupTo.2 hin.2)

/-- A range of whole classes that has a position has the class of that position. -/
theorem WholeClasses.class_within {lo hi : Nat} (h : WholeClasses cmp rows lo hi)
    (hrows : rows.Pairwise fun a b => (cmp a b).isLE = true) {k : Nat} (hk : k < rows.length)
    (hin : lo ≤ k ∧ k < hi) : lo ≤ (Peers.ofTies (cmp · · == Ordering.eq) rows).first k ∧
      (Peers.ofTies (cmp · · == Ordering.eq) rows).last k ≤ hi := by
  have hwf := Peers.wellFormed_ofTies (cmp · · == Ordering.eq) rows
  have hfirst := hwf.first_le hk
  have hlast := hwf.lt_last hk
  have hend : (Peers.ofTies (cmp · · == Ordering.eq) rows).last k ≤ rows.length := hwf.last_le k
  have hmember : ∀ j, (Peers.ofTies (cmp · · == Ordering.eq) rows).first k ≤ j →
      j < (Peers.ofTies (cmp · · == Ordering.eq) rows).last k → lo ≤ j ∧ j < hi := by
    intro j hge hlt
    have ha := List.getElem?_eq_getElem hk
    have hb := List.getElem?_eq_getElem (show j < rows.length by omega)
    have htied := (Peers.tied_iff hrows ha hb).2 ⟨hge, hlt⟩
    exact h k j _ _ ha hb (Std.OrientedCmp.eq_symm htied) hin
  have hstart := hmember ((Peers.ofTies (cmp · · == Ordering.eq) rows).first k) (Nat.le_refl _)
    (by omega)
  have hstop := hmember ((Peers.ofTies (cmp · · == Ordering.eq) rows).last k - 1) (by omega)
    (by omega)
  omega

end Whole

/-! ## Frames with peers -/

namespace Frame

/-- Without peers a frame is the raw one. -/
theorem bounds_off (start stop : Option Int) (peers : Peers) (i : Nat) :
    (⟨start, stop, false⟩ : Frame).bounds peers i
      = (((⟨start, stop, false⟩ : Frame).rawBounds i peers.size).1,
        max ((⟨start, stop, false⟩ : Frame).rawBounds i peers.size).2
          ((⟨start, stop, false⟩ : Frame).rawBounds i peers.size).1) := by
  rw [bounds_eq_raw, if_neg (by simp)]

/-- A frame with peers is its raw frame, widened to whole classes of tied rows. -/
theorem widened_bounds {α : Type} {cmp : α → α → Ordering} [Std.TransCmp cmp] {rows : List α}
    (hrows : rows.Pairwise fun a b => (cmp a b).isLE = true) (start stop : Option Int) (i : Nat) :
    Widened cmp rows ((⟨start, stop, false⟩ : Frame).bounds (.ofTies (cmp · · == .eq) rows) i)
      ((⟨start, stop, true⟩ : Frame).bounds (.ofTies (cmp · · == .eq) rows) i) := by
  have hwf := Peers.wellFormed_ofTies (cmp · · == .eq) rows
  have hsize : (Peers.ofTies (cmp · · == .eq) rows).size = rows.length := rfl
  have hinside := (⟨start, stop, true⟩ : Frame).bounds_le hwf i
  have hraw := (⟨start, stop, true⟩ : Frame).rawBounds_le i rows.length
  have hon := (⟨start, stop, true⟩ : Frame).bounds_eq_raw (.ofTies (cmp · · == .eq) rows) i
  have hoff := bounds_off start stop (.ofTies (cmp · · == .eq) rows) i
  -- whether peers count does not matter for the raw bounds
  rw [show (⟨start, stop, false⟩ : Frame).rawBounds i = (⟨start, stop, true⟩ : Frame).rawBounds i
    from rfl] at hoff
  rw [hsize] at hon hoff hinside
  generalize (⟨start, stop, true⟩ : Frame).rawBounds i rows.length = raw at hraw hoff hon
  rw [hoff]
  by_cases hempty : raw.2 ≤ raw.1
  · rw [if_neg (by omega)] at hon
    refine ⟨fun _ => hon, hinside, fun h => ?_, fun h => ?_, fun h => ?_⟩ <;>
      · dsimp only at h
        omega
  · have hk : raw.1 < rows.length := by omega
    have hm : raw.2 - 1 < rows.length := by omega
    have hfirst := hwf.first_le hk
    have hlast := hwf.lt_last hm
    rw [if_pos ⟨rfl, by omega⟩, Nat.max_eq_left (by omega)] at hon
    rw [hon] at hinside ⊢
    refine ⟨fun h => ?_, hinside, fun _ => ?_, fun _ => wholeClasses_ofTies hrows hk hm,
      fun _ lo hi hlo hhi hwhole => ?_⟩
    · dsimp only at h
      omega
    · dsimp only
      omega
    · dsimp only at hlo hhi
      exact ⟨(hwhole.class_within hrows hk ⟨hlo, by omega⟩).1,
        (hwhole.class_within hrows hm ⟨by omega, by omega⟩).2⟩

/-! ## The frame up to the current row -/

variable {peers : Peers} {i j : Nat}

/-- With peers the frame up to a row ends where its class does. -/
theorem bounds_upTo (hp : peers.WellFormed) (hi : i < peers.size) :
    (⟨none, some 0, true⟩ : Frame).bounds peers i = (0, peers.last i) := by
  have hraw : (⟨none, some 0, true⟩ : Frame).rawBounds i peers.size = (0, i + 1) := by
    unfold rawBounds shifted
    simp only [Prod.mk.injEq, true_and]
    omega
  have hfirst := hp.first_le (show 0 < peers.size by omega)
  rw [bounds_eq_raw, hraw, if_pos ⟨rfl, Nat.succ_pos i⟩, Nat.add_sub_cancel,
    Nat.eq_zero_of_le_zero hfirst, Nat.max_eq_left (Nat.zero_le _)]

theorem bounds_upTo_eq (hp : peers.WellFormed) (hi : i < peers.size) (hj : j < peers.size)
    (h : peers.group i = peers.group j) : (⟨none, some 0, true⟩ : Frame).bounds peers i
      = (⟨none, some 0, true⟩ : Frame).bounds peers j := by
  rw [bounds_upTo hp hi, bounds_upTo hp hj]
  unfold Peers.last
  rw [h]

/-! ## Frames that stay as they are -/

/-- Nothing moves from a frame to itself. -/
theorem moves_self (rows : Array (List Value)) (frame : Nat × Nat) :
    Event.moves rows frame frame = [] := by
  unfold Event.moves
  rw [Array.extract_empty_of_stop_le_start (Nat.min_le_left _ _),
    Array.extract_empty_of_stop_le_start (Nat.le_max_left _ _)]
  rfl

/-- Up to two positions of the same frame the same events happen. -/
theorem events_eq_of_bounds_eq (f : Frame) (hp : peers.WellFormed) (rows : Array (List Value))
    (hij : i ≤ j) (hj : j < peers.size) (h : f.bounds peers i = f.bounds peers j) :
    f.events peers rows i = f.events peers rows j := by
  induction j with
  | zero => rw [Nat.le_zero.1 hij]
  | succ j ih =>
    rcases Nat.eq_or_lt_of_le hij with rfl | hlt
    · rfl
    · have hle := Nat.le_of_lt_succ hlt
      have hback := f.bounds_mono hp hle
      have hnext := f.bounds_mono hp (Nat.le_succ j)
      have hstay : f.bounds peers i = f.bounds peers j := by
        rw [← h] at hnext
        exact Prod.ext (Nat.le_antisymm hback.1 hnext.1) (Nat.le_antisymm hback.2 hnext.2)
      rw [f.events_succ rows hj, ← hstay, ← h, moves_self, List.append_nil]
      exact ih hle (Nat.lt_of_succ_lt hj) hstay

end Frame

end ColumnQuery
