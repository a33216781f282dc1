/-
  The order of the distinct values of a sliding frame.

  The table of distinct values lists them in the order in which they came up. A value that comes
  up in a frame stands at the end of the table, and stays where it stands as long as one of its
  occurrences is carried over from frame to frame. So the table of a frame is in the order of the
  positions at which the values arrived (`Frame.arrival`), and these may lie before the frame: the
  row at which a value arrived may have left while a later occurrence of it stayed. A table that
  is filled afresh is in the order of first occurrence in the frame (`firstFrom`).
-/
import ColumnQuery.Proofs.Aggregate.Ascending
import ColumnQuery.Proofs.Aggregate.Fresh
import Mathlib.Data.Nat.Init

namespace ColumnQuery

/-! ## Positions of values -/

/-- The first field of the row at a position, if the fields of the row are all valid. -/
def fieldAt? (rows : Array (List Value)) (p : Nat) : Option Value :=
  rows[p]?.bind fun row => if row.all Value.isValid then some (Aggregate.firstField row) else none

/-- The first position from one on at which a value stands; the end of the rows if there is
    none. -/
def firstFrom (rows : Array (List Value)) (lo : Nat) (v : Value) : Nat :=
  ((List.range rows.size).find? fun p => lo ≤ p && (fieldAt? rows p).any (·.same v)).getD rows.size

section Positions

variable {rows : Array (List Value)} {lo hi p : Nat} {u v w : Value}

theorem lt_size_of_fieldAt? (h : fieldAt? rows p = some u) : p < rows.size := by
  obtain ⟨row, hrow, -⟩ := Option.bind_eq_some_iff.1 h
  exact (Array.getElem?_eq_some_iff.1 hrow).1

theorem mem_extract {row : List Value} :
    row ∈ (rows.extract lo hi).toList ↔ ∃ p, lo ≤ p ∧ p < hi ∧ rows[p]? = some row := by
  rw [List.mem_iff_getElem?]
  constructor
  · rintro ⟨i, hi⟩
    rw [Array.getElem?_toList, Array.getElem?_extract] at hi
    split at hi
    next hlt => exact ⟨lo + i, Nat.le_add_right _ _, by omega, hi⟩
    next => cases hi
  · rintro ⟨p, hlo, hhi, hrow⟩
    have hsize := (Array.getElem?_eq_some_iff.1 hrow).1
    refine ⟨p - lo, ?_⟩
    rw [Array.getElem?_toList, Array.getElem?_extract, if_pos (by omega)]
    rwa [Nat.add_sub_cancel' hlo]

/-- The valid first fields of an interval are those at its positions. -/
theorem mem_firstFields :
    u ∈ firstFields (rows.extract lo hi).toList
      ↔ ∃ p, lo ≤ p ∧ p < hi ∧ fieldAt? rows p = some u := by
  unfold firstFields validRows fieldAt?
  rw [List.mem_map]
  constructor
  · rintro ⟨row, hrow, rfl⟩
    obtain ⟨hmem, hvalid⟩ := List.mem_filter.1 hrow
    obtain ⟨p, hlo, hhi, hp⟩ := mem_extract.1 hmem
    refine ⟨p, hlo, hhi, ?_⟩
    rw [hp, Option.bind_some, if_pos hvalid]
  · rintro ⟨p, hlo, hhi, hp⟩
    obtain ⟨row, hrow, hfield⟩ := Option.bind_eq_some_iff.1 hp
    split at hfield
    next hvalid =>
      refine ⟨row, List.mem_filter.2 ⟨mem_extract.2 ⟨p, hlo, hhi, hrow⟩, hvalid⟩, ?_⟩
      exact Option.some.inj hfield
    next => cases hfield

theorem occurrences_extract_pos :
    0 < occurrences v (firstFields (rows.extract lo hi).toList)
      ↔ ∃ p u, lo ≤ p ∧ p < hi ∧ fieldAt? rows p = some u ∧ u.same v = true := by
  rw [occurrences_pos]
  constructor
  · rintro ⟨u, hu, hvu⟩
    obtain ⟨p, hlo, hhi, hp⟩ := mem_firstFields.1 hu
    exact ⟨p, u, hlo, hhi, hp, Value.same_symm hvu⟩
  · rintro ⟨p, u, hlo, hhi, hp, huv⟩
    exact ⟨u, mem_firstFields.2 ⟨p, hlo, hhi, hp⟩, Value.same_symm huv⟩

theorem firstFrom_spec (hlo : lo ≤ p) (hp : fieldAt? rows p = some u) (huv : u.same v = true) :
    lo ≤ firstFrom rows lo v ∧ firstFrom rows lo v ≤ p ∧
      ∃ w, fieldAt? rows (firstFrom rows lo v) = some w ∧ w.same v = true := by
  have hstands : (decide (lo ≤ p) && (fieldAt? rows p).any (·.same v)) = true := by
    rw [hp, decide_eq_true hlo]
    exact huv
  unfold firstFrom
  cases hfind : (List.range rows.size).find? fun p => lo ≤ p && (fieldAt? rows p).any (·.same v) with
  | none =>
    have hnone := List.find?_eq_none.1 hfind p (List.mem_range.2 (lt_size_of_fieldAt? hp))
    exact absurd hstands hnone
  | some q =>
    obtain ⟨hq, -, hbefore⟩ := List.find?_range_eq_some.1 hfind
    rw [Bool.and_eq_true, decide_eq_true_eq] at hq
    obtain ⟨w, hw, hwv⟩ := (Option.any_eq_true _ _).1 hq.2
    refine ⟨hq.1, Nat.le_of_not_lt fun hlt => ?_, w, hw, hwv⟩
    have hnot := hbefore p hlt
    rw [hstands] at hnot
    cases hnot

/-- A value that does not stand before is first where it stands. -/
theorem firstFrom_eq (hlo : lo ≤ p) (hp : fieldAt? rows p = some u) (huv : u.same v = true)
    (hnew : occurrences v (firstFields (rows.extract lo p).toList) = 0) :
    firstFrom rows lo v = p := by
  obtain ⟨hle, hge, w, hw, hwv⟩ := firstFrom_spec hlo hp huv
  refine Nat.le_antisymm hge (Nat.le_of_not_lt fun hlt => ?_)
  have hpos := occurrences_extract_pos.2 ⟨_, w, hle, hlt, hw, hwv⟩
  rw [hnew] at hpos
  exact Nat.lt_irrefl 0 hpos

theorem firstFrom_congr (h : v.same w = true) : firstFrom rows lo v = firstFrom rows lo w := by
  unfold firstFrom
  have hany : ∀ o : Option Value, o.any (·.same v) = o.any (·.same w) := by
    intro o
    cases o with
    | none => rfl
    | some u => exact Value.same_congr_right h u
  simp only [hany]

end Positions

/-! ## The table of an interval -/

/-- A state holds the rows of an interval, and has their values in ascending order. -/
structure Stands {N : Type} (rank : Value → Nat) (rows : Array (List Value)) (lo hi : Nat)
    (s : AggregateState N) : Prop where
  holds : Aggregate.distinct.Holds (rows.extract lo hi).toList s
  ascending : Ascending rank hi s.distinct

theorem toList_extract_one {rows : Array (List Value)} {p : Nat} {row : List Value}
    (h : rows[p]? = some row) : (rows.extract p (p + 1)).toList = [row] := by
  obtain ⟨hlt, rfl⟩ := Array.getElem?_eq_some_iff.1 h
  refine List.ext_getElem? fun i => ?_
  rw [Array.getElem?_toList, Array.getElem?_extract]
  cases i with
  | zero => rw [if_pos (by omega), List.getElem?_cons_zero, Nat.add_zero, h]
  | succ i => rw [if_neg (by omega), List.getElem?_cons_succ, List.getElem?_nil]

namespace Stands

variable {F N : Type} [Quantity N] {r : Reducer F} {removing : Bool} {rank other : Value → Nat}
  {rows : Array (List Value)} {lo hi lo' hi' : Nat} {s : AggregateState N} {row : List Value}

omit [Quantity N] in
theorem congr (h : Stands rank rows lo hi s)
    (hrank : ∀ v, 0 < occurrences v (firstFields (rows.extract lo hi).toList) → rank v = other v) :
    Stands other rows lo hi s := by
  have htally : Tally s.distinct _ := h.holds.2.2
  refine ⟨h.holds, h.ascending.congr fun e he => hrank e.1 ?_⟩
  obtain ⟨hcount, hpos⟩ := htally.counts e he
  rwa [← hcount]

omit [Quantity N] in
/-- Nothing is held of an empty interval. -/
theorem jump (h : Stands rank rows lo hi s) (hempty : hi ≤ lo) (hempty' : hi' ≤ lo')
    (other : Value → Nat) : Stands other rows lo' hi' s := by
  have hnil : ∀ {a b : Nat}, b ≤ a → (rows.extract a b).toList = [] := by
    intro a b hle
    rw [Array.extract_empty_of_stop_le_start hle]
  have hholds := h.holds
  rw [hnil hempty] at hholds
  have htally : Tally s.distinct [] := hholds.2.2
  refine ⟨?_, ?_⟩
  · rw [hnil hempty']
    exact hholds
  · rw [htally.eq_nil]
    exact ⟨List.Pairwise.nil, by simp⟩

theorem add (hr : Ordered removing r.ops) (hop : ⟨.distinct, []⟩ ∈ r.ops)
    (h : Stands rank rows lo hi s) (hlo : lo ≤ hi) (hrow : rows[hi]? = some row)
    (hnew : ∀ u, fieldAt? rows hi = some u →
      occurrences u (firstFields (rows.extract lo hi).toList) = 0 → rank u = hi) :
    Stands rank rows lo (hi + 1) (r.add s row) := by
  refine ⟨?_, ?_⟩
  · rw [← Event.extract_append_extract rows hlo (Nat.le_succ hi), toList_extract_one hrow]
    exact Reducer.holds_add hr rfl hop h.holds row
  · cases hvalid : row.all Value.isValid with
    | false =>
      have hkept : (r.add s row).distinct = s.distinct :=
        (Reducer.agree_add_invalid .distinct s hvalid).2.2
      rw [hkept]
      exact h.ascending.mono (Nat.le_succ hi)
    | true =>
      have hcounted : (r.add s row).distinct
          = countValue (Aggregate.firstField row) s.distinct :=
        (Reducer.agree_add hr rfl hop s hvalid).2.2
      have hfield : fieldAt? rows hi = some (Aggregate.firstField row) := by
        unfold fieldAt?
        rw [hrow, Option.bind_some, if_pos hvalid]
      have htally : Tally s.distinct _ := h.holds.2.2
      rw [hcounted]
      exact h.ascending.countValue fun hnone =>
        hnew _ hfield (htally.occurrences_of_none hnone)

theorem remove (hr : Ordered true r.ops) (hop : ⟨.distinct, []⟩ ∈ r.ops)
    (h : Stands rank rows lo hi s) (hlo : lo < hi) (hrow : rows[lo]? = some row) :
    Stands rank rows (lo + 1) hi (r.remove s row) := by
  have hheld := h.holds
  rw [← Event.extract_append_extract rows (Nat.le_succ lo) hlo, toList_extract_one hrow] at hheld
  refine ⟨Reducer.holds_remove hr rfl hop hheld (by simp [Aggregate.dependencies,
    Aggregate.requires, Aggregate.requiresToRemove]) (by simp), ?_⟩
  cases hvalid : row.all Value.isValid with
  | false =>
    have hkept : (r.remove s row).distinct = s.distinct :=
      (Reducer.agree_remove_invalid .distinct s hvalid).2.2
    rw [hkept]
    exact h.ascending
  | true =>
    have huncounted : (r.remove s row).distinct
        = uncountValue (Aggregate.firstField row) s.distinct :=
      (Reducer.agree_remove hr rfl hop s hvalid).2.2
    rw [huncounted]
    exact h.ascending.uncountValue _

/-- The rows up to a later end come in, each new value at the position of its rank. -/
theorem addAll (hr : Ordered removing r.ops) (hop : ⟨.distinct, []⟩ ∈ r.ops)
    (h : Stands rank rows lo hi s) (hlo : lo ≤ hi) (hhi : hi ≤ hi') (hsize : hi' ≤ rows.size)
    (hnew : ∀ p u, hi ≤ p → p < hi' → fieldAt? rows p = some u →
      occurrences u (firstFields (rows.extract lo p).toList) = 0 → rank u = p) :
    Stands rank rows lo hi' (r.addAll s (rows.extract hi hi').toList) := by
  induction hi', hhi using Nat.le_induction with
  | base =>
    rw [Array.extract_empty_of_stop_le_start (Nat.le_refl hi)]
    exact h
  | succ p hp ih =>
    have hrow : rows[p]? = some rows[p] := Array.getElem?_eq_getElem hsize
    have hrest := ih (Nat.le_of_succ_le hsize) fun q u hq hlt =>
      hnew q u hq (Nat.lt_succ_of_lt hlt)
    have hlast := hrest.add hr hop (Nat.le_trans hlo hp) hrow fun u hu =>
      hnew p u hp (Nat.lt_succ_self p) hu
    rw [← Event.extract_append_extract rows hp (Nat.le_succ p), toList_extract_one hrow]
    unfold Reducer.addAll at hlast ⊢
    rwa [List.foldl_append]

/-- The rows up to a later start go out. -/
theorem removeAll (hr : Ordered true r.ops) (hop : ⟨.distinct, []⟩ ∈ r.ops)
    (h : Stands rank rows lo hi s) (hlo : lo ≤ lo') (hhi : lo' ≤ hi) (hsize : hi ≤ rows.size) :
    Stands rank rows lo' hi (r.removeAll s (rows.extract lo lo').toList) := by
  induction lo', hlo using Nat.le_induction with
  | base =>
    rw [Array.extract_empty_of_stop_le_start (Nat.le_refl lo)]
    exact h
  | succ p hp ih =>
    have hrow : rows[p]? = some rows[p] := Array.getElem?_eq_getElem (by omega)
    have hlast := (ih (Nat.le_of_succ_le hhi)).remove hr hop hhi hrow
    rw [← Event.extract_append_extract rows hp (Nat.le_succ p), toList_extract_one hrow]
    unfold Reducer.removeAll at hlast ⊢
    rwa [List.foldl_append]

theorem start (r : Reducer F) (rank : Value → Nat) (rows : Array (List Value)) (p : Nat) :
    Stands rank rows p p (r.start : AggregateState N) := by
  have hholds : Aggregate.distinct.Holds [] (r.start : AggregateState N) := Reducer.holds_start r _
  have htally : Tally (r.start : AggregateState N).distinct [] := hholds.2.2
  refine ⟨?_, ?_⟩
  · rw [Array.extract_empty_of_stop_le_start (Nat.le_refl p)]
    exact hholds
  · rw [htally.eq_nil]
    exact ⟨List.Pairwise.nil, by simp⟩

/-- The rows of an interval come in, each new value at its first position. -/
theorem fresh (hr : Ordered removing r.ops) (hop : ⟨.distinct, []⟩ ∈ r.ops) (hlo : lo ≤ hi)
    (hsize : hi ≤ rows.size) :
    Stands (firstFrom rows lo) rows lo hi
      (r.addAll r.start (rows.extract lo hi).toList : AggregateState N) :=
  (start r (firstFrom rows lo) rows lo).addAll hr hop (Nat.le_refl lo) hlo hsize
    fun _ u hp _ hu hnew => firstFrom_eq hp hu (Value.same_refl u) hnew

/-- From the table of an earlier frame to that of a later one. -/
theorem shift (hr : Ordered true r.ops) (hop : ⟨.distinct, []⟩ ∈ r.ops)
    (held frame : Nat × Nat) (h : Stands rank rows held.1 held.2 s) (hheld : held.1 ≤ held.2)
    (hframe : frame.1 ≤ frame.2) (hfirst : held.1 ≤ frame.1) (hlast : held.2 ≤ frame.2)
    (hsize : frame.2 ≤ rows.size)
    (hcarried : ∀ v, 0 < occurrences v (firstFields (rows.extract frame.1 held.2).toList) →
      rank v = other v)
    (hnew : ∀ v, occurrences v (firstFields (rows.extract frame.1 held.2).toList) = 0 →
      other v = firstFrom rows frame.1 v) :
    Stands other rows frame.1 frame.2 (r.shift rows s held frame) := by
  have hcomes : ∀ p u, held.2 ≤ p → frame.1 ≤ p → fieldAt? rows p = some u →
      occurrences u (firstFields (rows.extract frame.1 p).toList) = 0 → other u = p := by
    intro p u hheldp hlo hu hbefore
    have hnone : occurrences u (firstFields (rows.extract frame.1 held.2).toList) = 0 := by
      refine Nat.eq_zero_of_not_pos fun hpos => ?_
      obtain ⟨q, w, hq, hqlt, hw, hwu⟩ := occurrences_extract_pos.1 hpos
      have hpos := occurrences_extract_pos.2 ⟨q, w, hq, Nat.lt_of_lt_of_le hqlt hheldp, hw, hwu⟩
      rw [hbefore] at hpos
      exact Nat.lt_irrefl 0 hpos
    rw [hnew u hnone]
    exact firstFrom_eq hlo hu (Value.same_refl u) hbefore
  show Stands other rows frame.1 frame.2
    (r.addAll (r.removeAll s (rows.extract held.1 (min frame.1 held.2)).toList)
      (rows.extract (max held.2 frame.1) frame.2).toList)
  by_cases hin : frame.1 ≤ held.2
  · rw [Nat.min_eq_left hin, Nat.max_eq_left hin]
    have hleft := (h.removeAll hr hop hfirst hin (Nat.le_trans hlast hsize)).congr hcarried
    exact hleft.addAll hr hop hin hlast hsize fun p u hp _ =>
      hcomes p u hp (Nat.le_trans hin hp)
  · -- nothing is carried over
    have hout : held.2 ≤ frame.1 := Nat.le_of_not_le hin
    rw [Nat.min_eq_right hout, Nat.max_eq_right hout]
    have hleft := h.removeAll hr hop hheld (Nat.le_refl _) (Nat.le_trans hlast hsize)
    have hempty := hleft.jump (Nat.le_refl _) (Nat.le_refl frame.1) other
    exact hempty.addAll hr hop (Nat.le_refl _) hframe hsize fun p u hp _ =>
      hcomes p u (Nat.le_trans hout hp) hp

end Stands

/-! ## Arrival -/

namespace Frame

variable (f : Frame) {peers : Peers} {rows : Array (List Value)} {i : Nat} {u v w : Value}

/-- The position at which a value of the frame of a position arrived: that of its arrival in the
    frame before, if it is carried over, and else its first position in the frame. -/
def arrival (peers : Peers) (rows : Array (List Value)) : Nat → Value → Nat
  | 0, v => firstFrom rows (f.bounds peers 0).1 v
  | i + 1, v =>
    if 0 < occurrences v
        (firstFields (rows.extract (f.bounds peers (i + 1)).1 (f.bounds peers i).2).toList) then
      arrival peers rows i v
    else firstFrom rows (f.bounds peers (i + 1)).1 v

/-- The first position of a value in the frame of a position. -/
def first (peers : Peers) (rows : Array (List Value)) (i : Nat) (v : Value) : Nat :=
  firstFrom rows (f.bounds peers i).1 v

/-- The valid first fields in the frame of a position. -/
def values (peers : Peers) (rows : Array (List Value)) (i : Nat) : List Value :=
  firstFields (f.held peers rows i)

/-- The frame has the same values by the fields `led` and by the fields `own`, and they arrived,
    by `led`, in the order in which they are first in the frame, by `own`. -/
def SameOrder (peers : Peers) (led own : Array (List Value)) (i : Nat) : Prop :=
  (∀ v, 0 < occurrences v (f.values peers led i) ↔ 0 < occurrences v (f.values peers own i)) ∧
    ∀ v w, 0 < occurrences v (f.values peers own i) → 0 < occurrences w (f.values peers own i) →
      f.first peers own i v < f.first peers own i w →
        f.arrival peers led i v < f.arrival peers led i w

/-- The frame has no value, or one value is both the earliest to arrive, by `led`, and the first
    in the frame, by `own`, of those that occur most often. -/
def SameFavourite (peers : Peers) (led own : Array (List Value)) (i : Nat) : Prop :=
  (f.values peers led i = [] ∧ f.values peers own i = []) ∨
    ∃ m, Favourite (f.arrival peers led i) (f.values peers led i) m ∧
      Favourite (f.first peers own i) (f.values peers own i) m

theorem arrival_congr (h : v.same w = true) (i : Nat) :
    f.arrival peers rows i v = f.arrival peers rows i w := by
  induction i with
  | zero => exact firstFrom_congr h
  | succ i ih =>
    unfold arrival
    rw [ih, occurrences_congr h, firstFrom_congr h]

/-! ## The table of a frame -/

/-- The table of the frame of a position is in the order of arrival. -/
theorem stands_arrival {F N : Type} [Quantity N] {r : Reducer F} (hr : Ordered true r.ops)
    (hop : ⟨.distinct, []⟩ ∈ r.ops) (hp : peers.WellFormed) (hsize : rows.size = peers.size)
    (hi : i < peers.size) :
    Stands (f.arrival peers rows i) rows (f.bounds peers i).1 (f.bounds peers i).2
      (r.run r.start (f.events peers rows i) : AggregateState N) := by
  have hbounds := f.bounds_le hp
  induction i with
  | zero =>
    rw [f.events_zero rows hi, ← Reducer.shift_eq_run]
    exact (Stands.start r (f.arrival peers rows 0) rows 0).shift hr hop (0, 0) _ (Nat.le_refl 0)
      (hbounds 0).1 (Nat.zero_le _) (Nat.zero_le _) (hsize ▸ (hbounds 0).2) (fun _ _ => rfl)
      fun _ _ => rfl
  | succ i ih =>
    rw [f.events_succ rows hi, Reducer.run_append, ← Reducer.shift_eq_run]
    have hmono := f.bounds_mono hp (Nat.le_succ i)
    refine (ih (Nat.lt_of_succ_lt hi)).shift hr hop _ _ (hbounds i).1 (hbounds (i + 1)).1 hmono.1
      hmono.2 (hsize ▸ (hbounds (i + 1)).2) (fun v hv => ?_) fun v hv => ?_
    · rw [arrival, if_pos hv]
    · rw [arrival, if_neg (by omega)]

end Frame

/-! ## Sliding values and values computed afresh -/

section Values

variable {F : Type} {r : Reducer F} {place : Nat} {params : List Value} {peers : Peers}
  {led own : Array (List Value)} {f : Frame} {i : Nat}

theorem isValid_of_mem_firstFields {rows : List (List Value)} (hrows : ∀ row ∈ rows, row ≠ [])
    {v : Value} (hv : v ∈ firstFields rows) : v.isValid = true := by
  obtain ⟨row, hrow, rfl⟩ := List.mem_map.1 hv
  obtain ⟨hmem, hvalid⟩ := List.mem_filter.1 hrow
  cases row with
  | nil => exact absurd rfl (hrows [] hmem)
  | cons u rest => exact List.all_eq_true.1 hvalid u List.mem_cons_self

/-- The table that a reducer of its own fills afresh is in the order of first occurrence. -/
theorem AggregateOp.stands_fresh {op : AggregateOp} (hfits : op.Fits)
    (hkeeper : op.aggregate.keeper = .distinct) (hp : peers.WellFormed)
    (hsize : own.size = peers.size) :
    Stands (f.first peers own i) own (f.bounds peers i).1 (f.bounds peers i).2
      ((op.reducer false).addAll (op.reducer false).start (f.held peers own i) :
        AggregateState Float) := by
  obtain ⟨hle, hlast⟩ := f.bounds_le hp i
  obtain ⟨place, -, hplace⟩ := op.getElem?_reducer false
  have hordered := ordered_reducer hfits false
  refine Stands.fresh hordered ?_ hle (hsize ▸ hlast)
  rw [← hkeeper]
  exact hordered.keeper_mem (List.mem_of_getElem? hplace)

/-- The sliding list of distinct values is the list computed afresh exactly if the values arrived
    in the order in which they are first in the frame. -/
theorem Reducer.arrayAggDistinct_same_iff (hr : Ordered true r.ops)
    (hop : r.ops[place]? = some ⟨.arrayAggDistinct, params⟩) (hp : peers.WellFormed)
    (hled : led.size = peers.size) (hown : own.size = peers.size) (hi : i < peers.size) :
    (r.valueAt (r.run r.start (f.events peers led i)) place).same
        (AggregateOp.fresh ⟨.arrayAggDistinct, params⟩ (f.held peers own i)) = true
      ↔ f.SameOrder peers led own i := by
  have hmem := List.mem_of_getElem? hop
  have hslid := f.stands_arrival (N := Float) hr (hr.keeper_mem hmem) hp hled hi
  have hfresh := AggregateOp.stands_fresh (f := f) (i := i) (hr.fits _ hmem) rfl hp hown
  rw [AggregateOp.fresh_eq]
  unfold valueAt
  rw [hop]
  exact sameItems_iff (fun _ _ h => f.arrival_congr h i) (fun _ _ h => firstFrom_congr h)
    hslid.holds.2.2 hslid.ascending hfresh.holds.2.2 hfresh.ascending

/-- The sliding most frequent value is the one computed afresh exactly if the earliest to arrive
    of the most frequent values is the first of them in the frame. -/
theorem Reducer.mode_same_iff (hr : Ordered true r.ops)
    (hop : r.ops[place]? = some ⟨.mode, params⟩) (hp : peers.WellFormed)
    (hled : led.size = peers.size) (hown : own.size = peers.size) (hi : i < peers.size)
    (hledFields : ∀ fields ∈ led.toList, fields ≠ [])
    (hownFields : ∀ fields ∈ own.toList, fields ≠ []) :
    (r.valueAt (r.run r.start (f.events peers led i)) place).same
        (AggregateOp.fresh ⟨.mode, params⟩ (f.held peers own i)) = true
      ↔ f.SameFavourite peers led own i := by
  have hmem := List.mem_of_getElem? hop
  have hslid := f.stands_arrival (N := Float) hr (hr.keeper_mem hmem) hp hled hi
  have hfresh := AggregateOp.stands_fresh (f := f) (i := i) (hr.fits _ hmem) rfl hp hown
  have hvalid : ∀ {rows : Array (List Value)}, (∀ fields ∈ rows.toList, fields ≠ []) →
      ∀ v ∈ f.values peers rows i, v.isValid = true := by
    intro rows hrows v hv
    refine isValid_of_mem_firstFields (fun row hrow => ?_) hv
    obtain ⟨p, -, -, hp⟩ := mem_extract.1 hrow
    exact hrows row (List.mem_of_getElem? (by rwa [Array.getElem?_toList]))
  rw [AggregateOp.fresh_eq]
  unfold valueAt
  rw [hop]
  exact same_mostFrequent_iff (fun _ _ h => f.arrival_congr h i) (fun _ _ h => firstFrom_congr h)
    hslid.holds.2.2 hslid.ascending hfresh.holds.2.2 hfresh.ascending (hvalid hledFields)
    (hvalid hownFields)

end Values

end ColumnQuery
