/-
  The positions that slide through a frame.

  From one frame to the next, the rows at some positions go out and those at others come in. Here
  the ends of both ranges are checked against the partition (`between?`), and a row goes out only if
  it is counted (`visit?`). Because frames only move forward, no check fails. The invariant is
  `Holds`: the positions that have come in are those that have gone out, in the same order, followed
  by the positions of the frame. One step keeps it (`Holds.between?`), and so does a run
  (`Holds.trace?`); the counts follow the positions (`follow?_between?`).

  Offsets are read without bounds. In 64 bits sums would end at the ends of the range, and for any
  partition that has its size in 64 bits the frames are the same (`rawBounds64_eq`).
-/
import ColumnQuery.Number.Binary64
import ColumnQuery.Proofs.Aggregate.Held
import ColumnQuery.Proofs.Window.Slide
import ColumnQuery.View.Operators

namespace ColumnQuery

/-! ## Offsets in 64 bits -/

namespace Frame

open Number

/-- A sum in 64 bits that stays within their range. -/
def saturated (x : Int) : Int := max minInt64 (min x maxInt64)

/-- A position moved by an offset and kept between `0` and `size`, in 64 bits. -/
def shifted64 (i : Nat) (offset : Int) (size : Nat) : Nat :=
  (max 0 (min (saturated (i + offset)) size)).toNat

/-- The bounds from the offsets alone, in 64 bits. -/
def rawBounds64 (f : Frame) (i size : Nat) : Nat × Nat :=
  (match f.start with
    | some d => shifted64 i d size
    | none => 0,
   match f.stop with
    | some d => shifted64 i (saturated (d + 1)) size
    | none => size)

/-- The offsets are integers of 64 bits. -/
def FitsInt64 (f : Frame) : Prop :=
  (∀ d ∈ f.start, minInt64 ≤ d ∧ d ≤ maxInt64) ∧ ∀ d ∈ f.stop, minInt64 ≤ d ∧ d ≤ maxInt64

theorem shifted64_eq {i size : Nat} {d : Int} (hsize : (size : Int) ≤ maxInt64)
    (hd : minInt64 ≤ d) : shifted64 i d size = shifted i d size := by
  unfold shifted64 shifted saturated
  unfold maxInt64 at *
  unfold minInt64 at *
  omega

/-- The offset of the end is one more than the last row's, which may be the greatest one. -/
theorem shifted64_saturated_eq {i size : Nat} {d : Int} (hsize : (size : Int) ≤ maxInt64)
    (hd : minInt64 ≤ d) : shifted64 i (saturated (d + 1)) size = shifted i (d + 1) size := by
  unfold shifted64 shifted saturated
  unfold maxInt64 at *
  unfold minInt64 at *
  omega

theorem rawBounds64_eq {f : Frame} (hf : f.FitsInt64) {size : Nat}
    (hsize : (size : Int) ≤ maxInt64) (i : Nat) : f.rawBounds64 i size = f.rawBounds i size := by
  obtain ⟨start, stop, peers⟩ := f
  obtain ⟨hstart, hstop⟩ := hf
  unfold rawBounds64 rawBounds
  congr 1
  · cases start with
    | none => rfl
    | some d => exact shifted64_eq hsize (hstart d rfl).1
  · cases stop with
    | none => rfl
    | some d => exact shifted64_saturated_eq hsize (hstop d rfl).1

end Frame

/-- Tied rows as a partition has them: without an order every row is alone, and with one rows that
    compare equal tie. -/
inductive Peers.Built : Peers → Prop where
  | alone (size : Nat) : Built (.alone size)
  | ofTies {α : Type} (tied : α → α → Bool) (rows : List α) : Built (.ofTies tied rows)

theorem Peers.Built.wellFormed {p : Peers} (h : p.Built) : p.WellFormed := by
  cases h with
  | alone size => exact wellFormed_alone size
  | ofTies tied rows => exact wellFormed_ofTies tied rows

/-- The tied rows of a partition are built from the rows by the order of the view. -/
theorem View.built_peers (v : View) (rows : List Nat) : (v.peers rows).Built := by
  unfold View.peers
  split
  · exact .ofTies _ rows
  · exact .alone rows.length

/-! ## Moves -/

/-- The row at a position comes into the frame or goes out of it. -/
inductive Move where
  | enter (p : Nat)
  | leave (p : Nat)
deriving DecidableEq, Repr

namespace Move

/-- The positions `[a, b)`. -/
def positions (a b : Nat) : List Nat := List.range' a (b - a)

/-- The positions `[a, b)`, if these are in order and inside of the partition. -/
def slice? (size a b : Nat) : Option (List Nat) :=
  if a ≤ b ∧ b ≤ size then some (positions a b) else none

/-- The position that comes in. -/
def entering? : Move → Option Nat
  | enter p => some p
  | leave _ => none

/-- The position that goes out. -/
def leaving? : Move → Option Nat
  | enter _ => none
  | leave p => some p

/-- The positions that came in, in the order in which they did. -/
def entered (ms : List Move) : List Nat := ms.filterMap entering?

/-- The positions that went out, in the order in which they did. -/
def left (ms : List Move) : List Nat := ms.filterMap leaving?

/-- From one frame to the next. -/
def between? (size : Nat) (held frame : Nat × Nat) : Option (List Move) := do
  let gone ← slice? size held.1 (min frame.1 held.2)
  let new ← slice? size (max held.2 frame.1) (max frame.2 (max held.2 frame.1))
  return gone.map leave ++ new.map enter

/-- From one frame through later ones. -/
def trace? (size : Nat) (held : Nat × Nat) : List (Nat × Nat) → Option (List Move)
  | [] => some []
  | frame :: later => do
    let first ← between? size held frame
    return first ++ (← trace? size frame later)

variable {ms : List Move} {size a b c : Nat} {held frame : Nat × Nat}

theorem mem_positions {p : Nat} : p ∈ positions a b ↔ a ≤ p ∧ p < b := by
  unfold positions
  rw [List.mem_range'_1]
  omega

theorem positions_append (hab : a ≤ b) (hbc : b ≤ c) :
    positions a b ++ positions b c = positions a c := by
  unfold positions
  have hend : b = a + 1 * (b - a) := by omega
  rw [show List.range' b (c - b) = List.range' (a + 1 * (b - a)) (c - b) by rw [← hend],
    List.range'_append]
  congr 1
  omega

theorem pairwise_positions (a b : Nat) : (positions a b).Pairwise (· < ·) :=
  List.pairwise_lt_range'

theorem slice?_of_le (hab : a ≤ b) (hb : b ≤ size) : slice? size a b = some (positions a b) :=
  if_pos ⟨hab, hb⟩

theorem entered_append (ms ns : List Move) : entered (ms ++ ns) = entered ms ++ entered ns :=
  List.filterMap_append ..

theorem left_append (ms ns : List Move) : left (ms ++ ns) = left ms ++ left ns :=
  List.filterMap_append ..

theorem entered_steps (gone new : List Nat) : entered (gone.map leave ++ new.map enter) = new := by
  unfold entered
  rw [List.filterMap_append, List.filterMap_map, List.filterMap_map]
  simp [Function.comp_def, entering?]

theorem left_steps (gone new : List Nat) : left (gone.map leave ++ new.map enter) = gone := by
  unfold left
  rw [List.filterMap_append, List.filterMap_map, List.filterMap_map]
  simp [Function.comp_def, leaving?]

/-! ## What is held -/

/-- Moves after which the positions of a frame are held: those that went out are the first ones that
    came in, at any time, and the positions of the frame are the others. -/
structure Holds (ms : List Move) (frame : Nat × Nat) : Prop where
  entered : entered ms = left ms ++ positions frame.1 frame.2
  /-- No position comes in twice. -/
  ascending : (Move.entered ms).Pairwise (· < ·)
  lt_stop : ∀ p ∈ Move.entered ms, p < frame.2
  /-- What goes out is always what has been there for the longest time. -/
  inOrder : ∀ early, early <+: ms → left early <+: Move.entered early

theorem holds_nil : Holds [] (0, 0) where
  entered := rfl
  ascending := .nil
  lt_stop := nofun
  inOrder early hearly := by
    obtain rfl := List.prefix_nil.1 hearly
    exact List.prefix_rfl

/-- The positions that came in and did not go out are those of the frame. -/
theorem Holds.mem_iff (h : Holds ms frame) (p : Nat) :
    p ∈ Move.entered ms ∧ p ∉ left ms ↔ frame.1 ≤ p ∧ p < frame.2 := by
  have hapart := h.ascending
  rw [h.entered] at hapart ⊢
  obtain ⟨-, -, hapart⟩ := List.pairwise_append.1 hapart
  rw [List.mem_append, mem_positions]
  constructor
  · rintro ⟨hmem, hnot⟩
    exact hmem.resolve_left hnot
  · intro hp
    exact ⟨.inr hp, fun hmem => lt_irrefl p (hapart p hmem p (mem_positions.2 hp))⟩

/-- No position goes out twice. -/
theorem Holds.ascending_left (h : Holds ms frame) : (left ms).Pairwise (· < ·) := by
  have hascending := h.ascending
  rw [h.entered] at hascending
  exact (List.pairwise_append.1 hascending).1

theorem between?_eq (hheld : held.1 ≤ held.2) (hfirst : held.1 ≤ frame.1) (hlast : held.2 ≤ frame.2)
    (hframe : frame.1 ≤ frame.2) (hsize : frame.2 ≤ size) : between? size held frame
      = some ((positions held.1 (min frame.1 held.2)).map leave
        ++ (positions (max held.2 frame.1) frame.2).map enter) := by
  unfold between?
  rw [slice?_of_le (by omega) (by omega), slice?_of_le (by omega) (by omega),
    Nat.max_eq_left (show max held.2 frame.1 ≤ frame.2 by omega)]
  rfl

/-- One step forward. -/
theorem Holds.between? (h : Holds ms held) (hheld : held.1 ≤ held.2) (hfirst : held.1 ≤ frame.1)
    (hlast : held.2 ≤ frame.2) (hframe : frame.1 ≤ frame.2) (hsize : frame.2 ≤ size) :
    ∃ new, Move.between? size held frame = some new ∧ Holds (ms ++ new) frame := by
  refine ⟨_, between?_eq hheld hfirst hlast hframe hsize, ?_⟩
  generalize hnew : (positions held.1 (min frame.1 held.2)).map leave
    ++ (positions (max held.2 frame.1) frame.2).map enter = new
  have hleft : left (ms ++ new) = left ms ++ positions held.1 (min frame.1 held.2) := by
    rw [left_append, ← hnew, left_steps]
  have hentered : Move.entered (ms ++ new)
      = Move.entered ms ++ positions (max held.2 frame.1) frame.2 := by
    rw [entered_append, ← hnew, entered_steps]
  have hgone : positions held.1 (min frame.1 held.2) <+: positions held.1 held.2 :=
    ⟨_, positions_append (by omega) (by omega)⟩
  refine ⟨?_, ?_, ?_, fun early hearly => ?_⟩
  · rw [hleft, hentered, h.entered, List.append_assoc, List.append_assoc]
    congr 1
    by_cases hin : frame.1 ≤ held.2
    · -- the frames overlap or touch
      rw [Nat.min_eq_left hin, Nat.max_eq_left hin, positions_append hheld hlast,
        positions_append hfirst hframe]
    · -- the whole frame goes out before a disjoint one comes in
      rw [Nat.min_eq_right (by omega), Nat.max_eq_right (by omega)]
  · rw [hentered]
    refine List.pairwise_append.2 ⟨h.ascending, pairwise_positions _ _, fun p hp q hq => ?_⟩
    have := h.lt_stop p hp
    have := (mem_positions.1 hq).1
    omega
  · rw [hentered]
    intro p hp
    rcases List.mem_append.1 hp with hp | hp
    · exact Nat.lt_of_lt_of_le (h.lt_stop p hp) hlast
    · exact (mem_positions.1 hp).2
  · rcases List.prefix_or_prefix_of_prefix hearly (List.prefix_append ms new) with hearly' | hmore
    · exact h.inOrder early hearly'
    · -- all that goes out in this step came in before it
      have hgoing : left early <+: left (ms ++ new) := hearly.filterMap _
      have hcame : left (ms ++ new) <+: Move.entered ms := by
        rw [hleft, h.entered]
        exact (List.prefix_append_right_inj _).2 hgone
      exact (hgoing.trans hcame).trans (hmore.filterMap _)

/-- A step from one frame to a later one, both inside of the partition. -/
structure Step (size : Nat) (held frame : Nat × Nat) : Prop where
  held_le : held.1 ≤ held.2
  first_le : held.1 ≤ frame.1
  last_le : held.2 ≤ frame.2
  le : frame.1 ≤ frame.2
  le_size : frame.2 ≤ size

/-- Steps forward hold the positions of the last frame. -/
theorem Holds.trace? (h : Holds ms held) {bounds : List (Nat × Nat)}
    (hsteps : (held :: bounds).IsChain (Step size)) :
    ∃ new, Move.trace? size held bounds = some new ∧ Holds (ms ++ new) (bounds.getLastD held) := by
  induction bounds generalizing ms held with
  | nil => exact ⟨[], rfl, by rwa [List.append_nil]⟩
  | cons frame later ih =>
    obtain ⟨hstep, hlater⟩ := List.isChain_cons_cons.1 hsteps
    obtain ⟨first, hfirst, hholds⟩ :=
      h.between? hstep.held_le hstep.first_le hstep.last_le hstep.le hstep.le_size
    obtain ⟨new, hnew, hholds⟩ := ih hholds hlater
    refine ⟨first ++ new, ?_, ?_⟩
    · rw [Move.trace?, hfirst, Option.bind_eq_bind, Option.bind_some, hnew]
      rfl
    · rwa [List.getLastD_cons, ← List.append_assoc]

end Move

/-! ## Counts -/

/-- The rows at positions. -/
def rowsAt (rows : Array (List Value)) (ps : List Nat) : List (List Value) :=
  ps.filterMap (rows[·]?)

theorem toList_extract_eq (rows : Array (List Value)) (a b : Nat) :
    (rows.extract a b).toList = rowsAt rows (Move.positions a b) := by
  have htake : ∀ (n a : Nat), (rows.toList.drop a).take n
      = (List.range' a n).filterMap (rows[·]?) := by
    intro n
    induction n with
    | zero => exact fun _ => List.take_zero ..
    | succ n ih =>
      intro a
      rw [List.range'_succ, List.filterMap_cons, ← ih (a + 1)]
      by_cases ha : a < rows.size
      · rw [List.drop_eq_getElem_cons (by simpa using ha), List.take_succ_cons,
          Array.getElem?_eq_getElem ha]
        rfl
      · rw [Array.getElem?_eq_none (by omega), List.drop_eq_nil_of_le (by simpa using ha),
          List.drop_eq_nil_of_le (by simp; omega), List.take_nil, List.take_nil]
  rw [Array.toList_extract, List.extract_eq_take_drop]
  exact htake (b - a) a

namespace Reducer

variable {F N : Type} [Quantity N] {r : Reducer F} {s : AggregateState N} {row : List Value}
  {rows : Array (List Value)} {rest held : List (List Value)} {ps : List Nat}

/-- A state counts the rows that are held, and those of them whose fields are all valid. -/
def Counts (held : List (List Value)) (s : AggregateState N) : Prop :=
  s.count = held.length ∧ s.valid = (validRows held).length

omit [Quantity N] in
/-- What each aggregate does to a state leaves its counts alone. -/
theorem counts_foldl {f : Aggregate → AggregateState N → AggregateState N}
    (hf : ∀ a s, (f a s).count = s.count ∧ (f a s).valid = s.valid) (ops : List AggregateOp)
    (s : AggregateState N) : (ops.foldl (fun s op => f op.aggregate s) s).count = s.count ∧
      (ops.foldl (fun s op => f op.aggregate s) s).valid = s.valid := by
  induction ops generalizing s with
  | nil => exact ⟨rfl, rfl⟩
  | cons op ops ih =>
    obtain ⟨hcount, hvalid⟩ := ih (f op.aggregate s)
    obtain ⟨hcount', hvalid'⟩ := hf op.aggregate s
    exact ⟨hcount.trans hcount', hvalid.trans hvalid'⟩

theorem counts_start (r : Reducer F) : Counts [] (r.start : AggregateState N) :=
  counts_foldl (f := Aggregate.start) (fun a s => by cases a <;> exact ⟨rfl, rfl⟩) r.ops _

theorem Counts.add (h : Counts held s) (r : Reducer F) (row : List Value) :
    Counts (held ++ [row]) (r.add s row) := by
  obtain ⟨hcount, hvalid⟩ := h
  unfold Reducer.add Counts
  dsimp only
  rw [List.length_append, List.length_singleton]
  cases hrow : row.all Value.isValid with
  | true =>
    obtain ⟨hc, hv⟩ := counts_foldl (fun a s => Aggregate.counts_absorb a s row) r.ops
      { s with count := s.count + 1, valid := s.valid + 1 }
    rw [if_pos rfl, hc, hv, validRows_append_valid held hrow, List.length_append]
    exact ⟨congrArg (· + 1) hcount, congrArg (· + 1) hvalid⟩
  | false =>
    rw [if_neg Bool.false_ne_true, validRows_append_invalid held hrow]
    exact ⟨congrArg (· + 1) hcount, hvalid⟩

theorem Counts.remove (h : Counts (row :: held) s) (r : Reducer F) :
    Counts held (r.remove s row) := by
  obtain ⟨hcount, hvalid⟩ := h
  rw [List.length_cons] at hcount
  unfold Reducer.remove Counts
  dsimp only
  cases hrow : row.all Value.isValid with
  | true =>
    obtain ⟨hc, hv⟩ := counts_foldl (fun a s => Aggregate.counts_release a s row) r.ops
      { s with count := s.count - 1, valid := s.valid - 1 }
    rw [validRows_cons_valid held hrow, List.length_cons] at hvalid
    rw [if_pos rfl, hc, hv]
    exact ⟨by show s.count - 1 = held.length; omega,
      by show s.valid - 1 = (validRows held).length; omega⟩
  | false =>
    rw [validRows_cons_invalid held hrow] at hvalid
    rw [if_neg Bool.false_ne_true]
    exact ⟨by show s.count - 1 = held.length; omega, hvalid⟩

/-- One move. The position must be one of the partition, and a row that goes out must be counted:
    counts do not go below zero. -/
def visit? (r : Reducer F) (rows : Array (List Value)) (s : AggregateState N) :
    Move → Option (AggregateState N)
  | .enter p => (rows[p]?).map (r.add s)
  | .leave p => do
    let fields ← rows[p]?
    if 0 < s.count ∧ (fields.all Value.isValid = true → 0 < s.valid) then r.remove s fields
    else none

/-- Move after move. -/
def follow? (r : Reducer F) (rows : Array (List Value)) (s : AggregateState N) (ms : List Move) :
    Option (AggregateState N) :=
  ms.foldlM (r.visit? rows) s

theorem follow?_enter (r : Reducer F) (hps : ∀ p ∈ ps, p < rows.size) (h : Counts held s) :
    r.follow? rows s (ps.map .enter) = some (r.addAll s (rowsAt rows ps)) ∧
      Counts (held ++ rowsAt rows ps) (r.addAll s (rowsAt rows ps)) := by
  induction ps generalizing s held with
  | nil =>
    refine ⟨rfl, ?_⟩
    show Counts (held ++ []) s
    rwa [List.append_nil]
  | cons p ps ih =>
    obtain ⟨hp, hps⟩ := List.forall_mem_cons.1 hps
    have hrow : rows[p]? = some rows[p] := Array.getElem?_eq_getElem hp
    have hrows : rowsAt rows (p :: ps) = rows[p] :: rowsAt rows ps :=
      List.filterMap_cons_some hrow
    obtain ⟨hfollow, hcounts⟩ := ih hps (h.add r rows[p])
    rw [List.append_assoc, List.singleton_append] at hcounts
    have hvisit : r.visit? rows s (.enter p) = some (r.add s rows[p]) :=
      congrArg (Option.map (r.add s)) hrow
    unfold follow? at hfollow ⊢
    rw [hrows, List.map_cons, List.foldlM_cons, hvisit]
    exact ⟨hfollow, hcounts⟩

theorem follow?_leave (r : Reducer F) (hps : ∀ p ∈ ps, p < rows.size)
    (h : Counts (rowsAt rows ps ++ rest) s) :
    r.follow? rows s (ps.map .leave) = some (r.removeAll s (rowsAt rows ps)) ∧
      Counts rest (r.removeAll s (rowsAt rows ps)) := by
  induction ps generalizing s with
  | nil => exact ⟨rfl, h⟩
  | cons p ps ih =>
    obtain ⟨hp, hps⟩ := List.forall_mem_cons.1 hps
    have hrow : rows[p]? = some rows[p] := Array.getElem?_eq_getElem hp
    have hrows : rowsAt rows (p :: ps) = rows[p] :: rowsAt rows ps :=
      List.filterMap_cons_some hrow
    rw [hrows, List.cons_append] at h
    obtain ⟨hfollow, hcounts⟩ := ih hps (h.remove r)
    have hcounted : 0 < s.count ∧ (rows[p].all Value.isValid = true → 0 < s.valid) := by
      refine ⟨h.1 ▸ Nat.succ_pos _, fun hvalid => ?_⟩
      rw [h.2, validRows_cons_valid _ hvalid]
      exact Nat.succ_pos _
    have hvisit : r.visit? rows s (.leave p) = some (r.remove s rows[p]) := by
      show (rows[p]?).bind _ = _
      rw [hrow]
      exact if_pos hcounted
    unfold follow? at hfollow ⊢
    rw [hrows, List.map_cons, List.foldlM_cons, hvisit]
    exact ⟨hfollow, hcounts⟩

theorem follow?_append (r : Reducer F) (rows : Array (List Value)) (s : AggregateState N)
    (ms ns : List Move) :
    r.follow? rows s (ms ++ ns) = (r.follow? rows s ms).bind (r.follow? rows · ns) :=
  List.foldlM_append ..

/-- The moves of one step make the state that the slide makes, and none of them fails. -/
theorem follow?_between? (r : Reducer F) {a b : Nat × Nat} {ms : List Move}
    (hstep : Move.Step rows.size a b) (hms : Move.between? rows.size a b = some ms)
    (h : Counts (rows.extract a.1 a.2).toList s) :
    r.follow? rows s ms = some (r.shift rows s a b) ∧
      Counts (rows.extract b.1 b.2).toList (r.shift rows s a b) := by
  have hheld := hstep.held_le
  have hfirst := hstep.first_le
  have hlast := hstep.last_le
  have hframe := hstep.le
  have hsize := hstep.le_size
  rw [Move.between?_eq hheld hfirst hlast hframe hsize] at hms
  obtain rfl := Option.some.inj hms
  -- the rows that are held go out from the first one on; some stay if the frames overlap
  have hsplit : (rows.extract a.1 a.2).toList = rowsAt rows (Move.positions a.1 (min b.1 a.2))
      ++ (rows.extract (min b.1 a.2) a.2).toList := by
    rw [← toList_extract_eq, Event.extract_append_extract rows (by omega) (by omega)]
  have hjoin : (rows.extract (min b.1 a.2) a.2).toList
      ++ rowsAt rows (Move.positions (max a.2 b.1) b.2) = (rows.extract b.1 b.2).toList := by
    rw [← toList_extract_eq]
    by_cases hin : b.1 ≤ a.2
    · rw [Nat.min_eq_left hin, Nat.max_eq_left hin, Event.extract_append_extract rows hin hlast]
    · rw [Nat.min_eq_right (by omega), Nat.max_eq_right (by omega),
        Array.extract_empty_of_stop_le_start (Nat.le_refl _)]
      rfl
  rw [hsplit] at h
  have hinside : ∀ (lo : Nat) {hi : Nat}, hi ≤ rows.size →
      ∀ p ∈ Move.positions lo hi, p < rows.size := fun _ _ hhi p hp =>
    Nat.lt_of_lt_of_le (Move.mem_positions.1 hp).2 hhi
  obtain ⟨hleave, hcounts⟩ := follow?_leave r (hinside a.1 (by omega)) h
  obtain ⟨henter, hcounts⟩ := follow?_enter r (hinside (max a.2 b.1) hsize) hcounts
  have hshift : r.shift rows s a b
      = r.addAll (r.removeAll s (rowsAt rows (Move.positions a.1 (min b.1 a.2))))
        (rowsAt rows (Move.positions (max a.2 b.1) b.2)) := by
    rw [← toList_extract_eq, ← toList_extract_eq]
    rfl
  rw [follow?_append, hleave, Option.bind_some, hshift, ← hjoin]
  exact ⟨henter, hcounts⟩

/-- The moves through later frames make the states of the slide. -/
theorem follow?_trace? (r : Reducer F) {a : Nat × Nat} {bounds : List (Nat × Nat)} {ms : List Move}
    (hsteps : (a :: bounds).IsChain (Move.Step rows.size))
    (hms : Move.trace? rows.size a bounds = some ms)
    (h : Counts (rows.extract a.1 a.2).toList s) :
    r.follow? rows s ms = some (r.run s (Event.trace rows a bounds)) ∧
      Counts (rows.extract (bounds.getLastD a).1 (bounds.getLastD a).2).toList
        (r.run s (Event.trace rows a bounds)) := by
  induction bounds generalizing a s ms with
  | nil =>
    obtain rfl := Option.some.inj hms
    exact ⟨rfl, h⟩
  | cons frame later ih =>
    obtain ⟨hstep, hlater⟩ := List.isChain_cons_cons.1 hsteps
    obtain ⟨first, hfirst, hms⟩ := Option.bind_eq_some_iff.1 hms
    obtain ⟨rest, hrest, hms⟩ := Option.bind_eq_some_iff.1 hms
    obtain rfl := Option.some.inj hms
    obtain ⟨hfollow, hcounts⟩ := follow?_between? r hstep hfirst h
    obtain ⟨hmore, hcounts⟩ := ih hlater hrest hcounts
    rw [Event.trace, run_append, ← shift_eq_run, List.getLastD_cons, follow?_append, hfollow]
    exact ⟨hmore, hcounts⟩

end Reducer

/-! ## The frames of a partition -/

namespace Frame

variable (f : Frame) {peers : Peers}

/-- The moves up to a position of the partition. -/
def moves? (peers : Peers) (i : Nat) : Option (List Move) :=
  Move.trace? peers.size (0, 0) ((f.allBounds peers).take (i + 1))

/-- Frames are reached by steps forward. -/
theorem isChain_allBounds (hp : peers.WellFormed) (n : Nat) :
    ((0, 0) :: (f.allBounds peers).take n).IsChain (Move.Step peers.size) := by
  have hinside : ∀ frame ∈ (0, 0) :: f.allBounds peers,
      frame.1 ≤ frame.2 ∧ frame.2 ≤ peers.size := by
    refine List.forall_mem_cons.2 ⟨⟨Nat.le_refl _, Nat.zero_le _⟩, fun frame hframe => ?_⟩
    obtain ⟨i, -, rfl⟩ := List.mem_map.1 hframe
    exact f.bounds_le hp i
  have hpairwise : ((0, 0) :: f.allBounds peers).Pairwise (Move.Step peers.size) :=
    (f.pairwise_allBounds hp).imp_of_mem fun ha hb hmono =>
      ⟨(hinside _ ha).1, hmono.1, hmono.2, (hinside _ hb).1, (hinside _ hb).2⟩
  exact (hpairwise.sublist (List.Sublist.cons_cons (0, 0) (List.take_sublist n _))).isChain

theorem getLastD_take_allBounds {i : Nat} (hi : i < peers.size) :
    ((f.allBounds peers).take (i + 1)).getLastD (0, 0) = f.bounds peers i := by
  rw [f.take_allBounds peers hi, List.getLastD_concat]

/-- Frames only move forward, whatever the offsets are and whether or not peers are taken in; in 64
    bits offsets give the same frames. From position to position no range leaves the partition and
    no row goes out that is not counted. Up to each position the rows have come in one after the
    other, each at most once, those that went out have done so in the same order, and the rows of
    the frame are those that remain. The state of the slide is the one that these moves make. -/
theorem frames_forward (hp : peers.Built) :
    (∀ i, (f.bounds peers i).1 ≤ (f.bounds peers i).2 ∧ (f.bounds peers i).2 ≤ peers.size) ∧
    (∀ i j, i ≤ j → (f.bounds peers i).1 ≤ (f.bounds peers j).1 ∧
      (f.bounds peers i).2 ≤ (f.bounds peers j).2) ∧
    (f.FitsInt64 → (peers.size : Int) ≤ Number.maxInt64 →
      ∀ i, f.rawBounds64 i peers.size = f.rawBounds i peers.size) ∧
    ∀ i < peers.size, ∃ ms, f.moves? peers i = some ms ∧ Move.Holds ms (f.bounds peers i) ∧
      (Move.left ms).Pairwise (· < ·) ∧
      (∀ p, p ∈ Move.entered ms ∧ p ∉ Move.left ms ↔
        (f.bounds peers i).1 ≤ p ∧ p < (f.bounds peers i).2) ∧
      ∀ {F N : Type} [Quantity N] (r : Reducer F) (rows : Array (List Value)),
        rows.size = peers.size → ∃ s : AggregateState N,
          r.follow? rows r.start ms = some s ∧
          (r.slide rows (f.allBounds peers))[i]? = some s ∧
          Reducer.Counts (f.held peers rows i) s := by
  have hwf := hp.wellFormed
  refine ⟨fun i => f.bounds_le hwf i, fun i j hij => f.bounds_mono hwf hij,
    fun hf hsize i => rawBounds64_eq hf hsize i, fun i hi => ?_⟩
  have hsteps := f.isChain_allBounds hwf (i + 1)
  obtain ⟨ms, hms, hholds⟩ := Move.holds_nil.trace? hsteps
  rw [List.nil_append, f.getLastD_take_allBounds hi] at hholds
  refine ⟨ms, hms, hholds, hholds.ascending_left, hholds.mem_iff,
    fun {F N} _ r rows hrows => ?_⟩
  rw [← hrows] at hsteps hms
  have hstart : Reducer.Counts (rows.extract 0 0).toList (r.start : AggregateState N) := by
    rw [Array.extract_empty_of_stop_le_start (Nat.le_refl 0)]
    exact Reducer.counts_start r
  obtain ⟨hfollow, hcounts⟩ := r.follow?_trace? hsteps hms hstart
  rw [f.getLastD_take_allBounds hi] at hcounts
  exact ⟨_, hfollow, r.getElem?_slide f peers rows hi, hcounts⟩

/-- Letters in three classes: the frame of the next row and its peers goes from class to class, and
    is empty at the last row. -/
theorem frames_forward_letters : ∃ ms,
    (⟨some 1, some 1, true⟩ : Frame).moves? (.ofTies (· == ·) ['a', 'a', 'b', 'c', 'c']) 4
      = some ms ∧
    ms = [.enter 0, .enter 1, .leave 0, .leave 1, .enter 2, .leave 2, .enter 3, .enter 4, .leave 3,
      .leave 4] ∧
    Move.Holds ms (5, 5) := by
  obtain ⟨-, -, -, hmoves⟩ := frames_forward ⟨some 1, some 1, true⟩
    (.ofTies (· == ·) ['a', 'a', 'b', 'c', 'c'])
  obtain ⟨ms, hms, hholds, -⟩ := hmoves 4 (by decide)
  have hlist : (⟨some 1, some 1, true⟩ : Frame).moves?
      (.ofTies (· == ·) ['a', 'a', 'b', 'c', 'c']) 4 = some [.enter 0, .enter 1, .leave 0, .leave 1,
        .enter 2, .leave 2, .enter 3, .enter 4, .leave 3, .leave 4] := by decide
  exact ⟨ms, hms, Option.some.inj (hms.symm.trans hlist), hholds⟩

end Frame

end ColumnQuery
