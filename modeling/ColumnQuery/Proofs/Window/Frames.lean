/-
  The frames of a partition only move forward.

  The classes of tied rows are intervals: every position lies in its class, and a later position
  lies in the same class or a later one. So the frames of the positions, widened to whole classes
  or not, are intervals inside the partition whose two bounds never move back
  (`bounds_mono`, `bounds_le`). This is what lets a state slide over them.
-/
import ColumnQuery.Window.Peers
import Mathlib.Data.List.Basic

namespace ColumnQuery

/-! ## Classes of tied rows -/

namespace Peers

/-- Classes start at ascending positions of the partition, the first one at its start. -/
structure WellFormed (p : Peers) : Prop where
  ascending : p.starts.Pairwise (· < ·)
  lt_size : ∀ start ∈ p.starts, start < p.size
  zero_mem : 0 < p.size → 0 ∈ p.starts

theorem wellFormed_alone (size : Nat) : (alone size).WellFormed where
  ascending := List.pairwise_lt_range
  lt_size _ h := List.mem_range.1 h
  zero_mem h := List.mem_range.2 h

theorem le_of_mem_startsFrom {α : Type} {tied : α → α → Bool} (rows : List α)
    (previous : Option α) (position start : Nat)
    (h : start ∈ startsFrom tied previous position rows) :
    position ≤ start ∧ start < position + rows.length := by
  induction rows generalizing previous position with
  | nil => cases h
  | cons row rest ih =>
    simp only [startsFrom] at h
    have hlater : start ∈ startsFrom tied (some row) (position + 1) rest →
        position ≤ start ∧ start < position + (row :: rest).length := by
      intro hmem
      have := ih _ _ hmem
      rw [List.length_cons]
      omega
    split at h
    · exact hlater h
    · rcases List.mem_cons.1 h with rfl | h
      · rw [List.length_cons]
        omega
      · exact hlater h

theorem pairwise_startsFrom {α : Type} {tied : α → α → Bool} (rows : List α)
    (previous : Option α) (position : Nat) :
    (startsFrom tied previous position rows).Pairwise (· < ·) := by
  induction rows generalizing previous position with
  | nil => exact List.Pairwise.nil
  | cons row rest ih =>
    simp only [startsFrom]
    split
    · exact ih _ _
    · refine List.pairwise_cons.2 ⟨fun start h => ?_, ih _ _⟩
      have := le_of_mem_startsFrom rest _ _ _ h
      omega

theorem wellFormed_ofTies {α : Type} (tied : α → α → Bool) (rows : List α) :
    (ofTies tied rows).WellFormed where
  ascending := pairwise_startsFrom rows none 0
  lt_size start h := by
    have := le_of_mem_startsFrom rows none 0 start h
    show start < rows.length
    omega
  zero_mem h := by
    cases rows with
    | nil => exact absurd h (Nat.lt_irrefl 0)
    | cons row rest =>
      show 0 ∈ startsFrom tied none 0 (row :: rest)
      simp [startsFrom]

/-- Rows that tie alike make the same classes. -/
theorem ofTies_congr {α β γ : Type} {tied : β → β → Bool} {tied' : γ → γ → Bool} {f : α → β}
    {g : α → γ} {rows : List α}
    (h : ∀ x ∈ rows, ∀ y ∈ rows, tied (f x) (f y) = tied' (g x) (g y)) :
    ofTies tied (rows.map f) = ofTies tied' (rows.map g) := by
  have hstarts : ∀ (rest : List α) (previous : Option α) (position : Nat),
      (∀ x ∈ rest, x ∈ rows) → (∀ x ∈ previous, x ∈ rows) →
      startsFrom tied (previous.map f) position (rest.map f)
        = startsFrom tied' (previous.map g) position (rest.map g) := by
    intro rest
    induction rest with
    | nil => exact fun _ _ _ _ => rfl
    | cons row rest ih =>
      intro previous position hrest hprevious
      obtain ⟨hrow, hrest⟩ := List.forall_mem_cons.1 hrest
      have hlater := ih (some row) (position + 1) hrest fun x hx => Option.some.inj hx ▸ hrow
      have hties :
          (previous.map f).any (tied · (f row)) = (previous.map g).any (tied' · (g row)) := by
        cases previous with
        | none => rfl
        | some last => exact h last (hprevious last rfl) row hrow
      simp only [List.map_cons, startsFrom, hties]
      rw [show some (f row) = (some row).map f from rfl, hlater]
      rfl
  unfold ofTies
  rw [List.length_map, List.length_map]
  exact congrArg (Peers.mk · _) (hstarts rows none 0 (fun _ hx => hx) nofun)

/-- The starts up to a position come first. -/
theorem lt_countP_iff {starts : List Nat} (h : starts.Pairwise (· < ·)) (i k : Nat)
    (hk : k < starts.length) : k < starts.countP (· ≤ i) ↔ starts[k] ≤ i := by
  induction starts generalizing k with
  | nil => cases hk
  | cons a rest ih =>
    obtain ⟨ha, hrest⟩ := List.pairwise_cons.1 h
    rw [List.countP_cons]
    cases k with
    | zero =>
      rw [List.getElem_cons_zero]
      by_cases hai : a ≤ i
      · simp [hai]
      · have hnone : rest.countP (· ≤ i) = 0 := by
          rw [List.countP_eq_zero]
          intro b hb hbi
          have := ha b hb
          have := of_decide_eq_true hbi
          omega
        simp [hai, hnone]
    | succ k =>
      have hk' : k < rest.length := by
        rw [List.length_cons] at hk
        omega
      rw [List.getElem_cons_succ]
      by_cases hai : a ≤ i
      · rw [if_pos (decide_eq_true hai), ← ih hrest k hk']
        omega
      · have hlt := ha _ (List.getElem_mem hk')
        rw [if_neg (by simpa using hai)]
        have := ih hrest k hk'
        omega

theorem countP_mono (starts : List Nat) {i j : Nat} (hij : i ≤ j) :
    starts.countP (· ≤ i) ≤ starts.countP (· ≤ j) := by
  refine List.countP_mono_left fun start _ h => ?_
  have := of_decide_eq_true h
  exact decide_eq_true (by omega)

theorem getD_mono {starts : List Nat} (h : starts.Pairwise (· < ·)) {size : Nat}
    (hsize : ∀ start ∈ starts, start < size) {a b : Nat} (hab : a ≤ b) :
    starts[a]?.getD size ≤ starts[b]?.getD size := by
  by_cases hb : b < starts.length
  · rw [List.getElem?_eq_getElem hb, List.getElem?_eq_getElem (show a < starts.length by omega)]
    rcases Nat.eq_or_lt_of_le hab with rfl | hlt
    · exact Nat.le_refl _
    · exact Nat.le_of_lt (List.pairwise_iff_getElem.1 h a b (by omega) hb hlt)
  · rw [List.getElem?_eq_none (by omega : starts.length ≤ b), Option.getD_none]
    cases ha : starts[a]? with
    | none => exact Nat.le_refl _
    | some start => exact Nat.le_of_lt (hsize start (List.mem_of_getElem? ha))

variable {p : Peers}

theorem WellFormed.group_lt (h : p.WellFormed) {i : Nat} (hi : i < p.size) :
    0 < p.starts.countP (· ≤ i) ∧ p.group i < p.starts.length := by
  have hpos : 0 < p.starts.countP (· ≤ i) := by
    rw [List.countP_pos_iff]
    exact ⟨0, h.zero_mem (by omega), by simp⟩
  have hle := List.countP_le_length (p := (· ≤ i)) (l := p.starts)
  refine ⟨hpos, ?_⟩
  unfold group
  omega

theorem WellFormed.first_le (h : p.WellFormed) {i : Nat} (hi : i < p.size) : p.first i ≤ i := by
  obtain ⟨hpos, hlt⟩ := h.group_lt hi
  unfold first
  rw [List.getElem?_eq_getElem hlt, Option.getD_some, ← lt_countP_iff h.ascending i _ hlt]
  unfold group
  omega

theorem WellFormed.lt_last (h : p.WellFormed) {i : Nat} (hi : i < p.size) : i < p.last i := by
  obtain ⟨hpos, -⟩ := h.group_lt hi
  unfold last
  by_cases hlt : p.group i + 1 < p.starts.length
  · rw [List.getElem?_eq_getElem hlt, Option.getD_some]
    have hiff := lt_countP_iff h.ascending i _ hlt
    have hno : ¬ p.group i + 1 < p.starts.countP (· ≤ i) := by
      unfold group
      omega
    have := mt hiff.2 hno
    omega
  · rw [List.getElem?_eq_none (by omega), Option.getD_none]
    exact hi

theorem WellFormed.last_le (h : p.WellFormed) (i : Nat) : p.last i ≤ p.size := by
  unfold last
  cases hs : p.starts[p.group i + 1]? with
  | none => exact Nat.le_refl _
  | some start => exact Nat.le_of_lt (h.lt_size start (List.mem_of_getElem? hs))

theorem group_mono (p : Peers) {i j : Nat} (hij : i ≤ j) : p.group i ≤ p.group j :=
  Nat.sub_le_sub_right (countP_mono p.starts hij) 1

theorem WellFormed.first_mono (h : p.WellFormed) {i j : Nat} (hij : i ≤ j) (hj : j < p.size) :
    p.first i ≤ p.first j := by
  have hgroups := p.group_mono hij
  have hj' := (h.group_lt hj).2
  have hi' := (h.group_lt (show i < p.size by omega)).2
  have hle := getD_mono h.ascending h.lt_size hgroups
  unfold first
  rw [List.getElem?_eq_getElem hi', List.getElem?_eq_getElem hj'] at hle ⊢
  exact hle

theorem WellFormed.last_mono (h : p.WellFormed) {i j : Nat} (hij : i ≤ j) :
    p.last i ≤ p.last j :=
  getD_mono h.ascending h.lt_size (Nat.succ_le_succ (p.group_mono hij))

end Peers

/-! ## Frames -/

namespace Frame

variable {peers : Peers}

theorem rawBounds_le (f : Frame) (i size : Nat) :
    (f.rawBounds i size).1 ≤ size ∧ (f.rawBounds i size).2 ≤ size := by
  unfold rawBounds shifted
  constructor
  · cases f.start with
    | none => exact Nat.zero_le _
    | some d => exact Nat.min_le_right _ _
  · cases f.stop with
    | none => exact Nat.le_refl _
    | some d => exact Nat.min_le_right _ _

theorem shifted_mono {i j : Nat} (hij : i ≤ j) (d : Int) (size : Nat) :
    shifted i d size ≤ shifted j d size := by
  unfold shifted
  have hle : (i + d).toNat ≤ (j + d).toNat := Int.toNat_le_toNat (by omega)
  omega

theorem rawBounds_mono (f : Frame) {i j : Nat} (hij : i ≤ j) (size : Nat) :
    (f.rawBounds i size).1 ≤ (f.rawBounds j size).1 ∧
      (f.rawBounds i size).2 ≤ (f.rawBounds j size).2 := by
  unfold rawBounds
  constructor
  · cases f.start with
    | none => exact Nat.le_refl _
    | some d => exact shifted_mono hij d size
  · cases f.stop with
    | none => exact Nat.le_refl _
    | some d => exact shifted_mono hij (d + 1) size

/-- When a frame has become empty it stays so, unless it had not reached the partition yet. -/
theorem rawBounds_empty (f : Frame) {i j : Nat} (hij : i ≤ j) (size : Nat) :
    ((f.rawBounds i size).1 < (f.rawBounds i size).2 →
      (f.rawBounds j size).2 ≤ (f.rawBounds j size).1 → (f.rawBounds j size).1 = size) ∧
    ((f.rawBounds i size).2 ≤ (f.rawBounds i size).1 →
      (f.rawBounds j size).1 < (f.rawBounds j size).2 → (f.rawBounds i size).1 = 0) := by
  have hmono := f.rawBounds_mono hij size
  have hle := f.rawBounds_le j size
  obtain ⟨start, stop, peers⟩ := f
  unfold rawBounds at hmono hle ⊢
  cases start with
  | none =>
    refine ⟨fun hlt hempty => ?_, fun _ _ => rfl⟩
    exact absurd (Nat.lt_of_lt_of_le hlt hmono.2) (Nat.not_lt_of_le hempty)
  | some d =>
    cases stop with
    | none =>
      simp only [] at hmono hle ⊢
      omega
    | some e =>
      simp only []
      unfold shifted
      omega

theorem bounds_eq_raw (f : Frame) (peers : Peers) (i : Nat) :
    f.bounds peers i =
      if f.peers = true ∧ (f.rawBounds i peers.size).1 < (f.rawBounds i peers.size).2 then
        (peers.first (f.rawBounds i peers.size).1,
          max (peers.last ((f.rawBounds i peers.size).2 - 1))
            (peers.first (f.rawBounds i peers.size).1))
      else ((f.rawBounds i peers.size).1,
        max (f.rawBounds i peers.size).2 (f.rawBounds i peers.size).1) := by
  unfold bounds
  by_cases h : f.peers = true ∧ (f.rawBounds i peers.size).1 < (f.rawBounds i peers.size).2
  · simp [h.1, h.2]
  · rw [if_neg h]
    have hfalse : (f.peers && decide ((f.rawBounds i peers.size).1
        < (f.rawBounds i peers.size).2)) = false := by
      rw [Bool.eq_false_iff]
      intro htrue
      rw [Bool.and_eq_true, decide_eq_true_eq] at htrue
      exact h htrue
    simp [hfalse]

/-- A frame is an interval inside the partition. -/
theorem bounds_le (f : Frame) (hp : peers.WellFormed) (i : Nat) :
    (f.bounds peers i).1 ≤ (f.bounds peers i).2 ∧ (f.bounds peers i).2 ≤ peers.size := by
  have hraw := f.rawBounds_le i peers.size
  rw [bounds_eq_raw]
  split
  next h =>
    have hfirst := hp.first_le (i := (f.rawBounds i peers.size).1) (by omega)
    have hlast := hp.last_le ((f.rawBounds i peers.size).2 - 1)
    simp only []
    omega
  next =>
    simp only []
    omega

/-- Frames only move forward. -/
theorem bounds_mono (f : Frame) (hp : peers.WellFormed) {i j : Nat} (hij : i ≤ j) :
    (f.bounds peers i).1 ≤ (f.bounds peers j).1 ∧
      (f.bounds peers i).2 ≤ (f.bounds peers j).2 := by
  have hmono := f.rawBounds_mono hij peers.size
  have hle := f.rawBounds_le i peers.size
  have hle' := f.rawBounds_le j peers.size
  have hempty := f.rawBounds_empty hij peers.size
  have hlastSize := hp.last_le ((f.rawBounds i peers.size).2 - 1)
  have hlast := hp.last_mono (i := (f.rawBounds i peers.size).2 - 1)
    (j := (f.rawBounds j peers.size).2 - 1) (by omega)
  rw [bounds_eq_raw, bounds_eq_raw]
  split
  next hi =>
    have hfirst := hp.first_le (i := (f.rawBounds i peers.size).1) (by omega)
    have hin := hp.lt_last (i := (f.rawBounds i peers.size).2 - 1) (by omega)
    split
    next hj =>
      have hfirstMono := hp.first_mono (i := (f.rawBounds i peers.size).1)
        (j := (f.rawBounds j peers.size).1) hmono.1 (by omega)
      have hfirst' := hp.first_le (i := (f.rawBounds j peers.size).1) (by omega)
      have hin' := hp.lt_last (i := (f.rawBounds j peers.size).2 - 1) (by omega)
      simp only []
      omega
    next hj =>
      have hsize := hempty.1 hi.2 (Nat.le_of_not_lt fun hlt => hj ⟨hi.1, hlt⟩)
      simp only []
      omega
  next hi =>
    split
    next hj =>
      have hle0 := Nat.le_of_not_lt fun hlt => hi ⟨hj.1, hlt⟩
      have hzero := hempty.2 hle0 hj.2
      have hzero' : (f.rawBounds i peers.size).2 = 0 := by omega
      rw [hzero, hzero']
      exact ⟨Nat.zero_le _, Nat.zero_le _⟩
    next =>
      simp only []
      omega

/-- Without bounds the frame of every position is the whole partition, with peers or without. -/
theorem bounds_unbounded (hp : peers.WellFormed) {i : Nat} (hi : i < peers.size) (tied : Bool) :
    (⟨none, none, tied⟩ : Frame).bounds peers i = (0, peers.size) := by
  have hraw : (⟨none, none, tied⟩ : Frame).rawBounds i peers.size = (0, peers.size) := rfl
  have hpos : 0 < peers.size := by omega
  have hfirst := hp.first_le hpos
  have hlast := hp.lt_last (i := peers.size - 1) (by omega)
  have hle := hp.last_le (peers.size - 1)
  rw [bounds_eq_raw, hraw]
  split
  · simp only [Prod.mk.injEq]
    omega
  · rw [Nat.max_eq_left (Nat.zero_le _)]

end Frame

end ColumnQuery
