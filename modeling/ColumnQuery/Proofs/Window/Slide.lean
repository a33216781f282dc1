/-
  A sliding state as a run of events.

  Rows enter a frame and leave it, the oldest first. The state at a position is the run of all
  events up to that position (`getElem?_slide`), and these events turn the empty queue into the
  rows of the position's frame (`queue_trace`). So whatever holds of the empty queue and is kept
  by one row entering and by the oldest row leaving holds of the state and the rows of every
  frame (`run_keeps`). Without bounds no row ever leaves (`events_unbounded`).
-/
import ColumnQuery.Proofs.Window.Frames
import ColumnQuery.Window.Slide

namespace ColumnQuery

/-- A row, by its fields, comes into the frame or goes out of it. -/
inductive Event where
  | enter (fields : List Value)
  | leave (fields : List Value)

namespace Event

def fields : Event → List Value
  | enter fields => fields
  | leave fields => fields

/-- From one frame to the next. -/
def moves (rows : Array (List Value)) (held frame : Nat × Nat) : List Event :=
  (rows.extract held.1 (min frame.1 held.2)).toList.map leave
    ++ (rows.extract (max held.2 frame.1) frame.2).toList.map enter

/-- From one frame through later ones. -/
def trace (rows : Array (List Value)) (held : Nat × Nat) : List (Nat × Nat) → List Event
  | [] => []
  | frame :: later => moves rows held frame ++ trace rows frame later

theorem trace_concat (rows : Array (List Value)) (held : Nat × Nat) (bounds : List (Nat × Nat))
    (frame : Nat × Nat) :
    trace rows held (bounds ++ [frame])
      = trace rows held bounds ++ moves rows (bounds.getLastD held) frame := by
  induction bounds generalizing held with
  | nil => exact List.append_nil _
  | cons first later ih =>
    rw [List.cons_append, trace, trace, ih, List.getLastD_cons, List.append_assoc]

/-- Events that turn one queue of rows into another: rows come in at the end, and the oldest row
    goes out. -/
inductive Queue : List (List Value) → List Event → List (List Value) → Prop where
  | done (held : List (List Value)) : Queue held [] held
  | enter {held after : List (List Value)} {row : List Value} {later : List Event}
      (h : Queue (held ++ [row]) later after) : Queue held (.enter row :: later) after
  | leave {held after : List (List Value)} {row : List Value} {later : List Event}
      (h : Queue held later after) : Queue (row :: held) (.leave row :: later) after

theorem Queue.append {a b c : List (List Value)} {es fs : List Event} (h : Queue a es b)
    (h' : Queue b fs c) : Queue a (es ++ fs) c := by
  induction h with
  | done held => exact h'
  | enter _ ih => exact .enter (ih h')
  | leave _ ih => exact .leave (ih h')

theorem Queue.exists_between {a c : List (List Value)} {es fs : List Event}
    (h : Queue a (es ++ fs) c) : ∃ b, Queue a es b ∧ Queue b fs c := by
  induction es generalizing a with
  | nil => exact ⟨a, .done a, h⟩
  | cons e es ih =>
    cases h with
    | enter h =>
      obtain ⟨b, hb, hc⟩ := ih h
      exact ⟨b, .enter hb, hc⟩
    | leave h =>
      obtain ⟨b, hb, hc⟩ := ih h
      exact ⟨b, .leave hb, hc⟩

theorem queue_leave (gone held : List (List Value)) :
    Queue (gone ++ held) (gone.map leave) held := by
  induction gone with
  | nil => exact .done held
  | cons row gone ih => exact .leave ih

theorem queue_enter (held new : List (List Value)) :
    Queue held (new.map enter) (held ++ new) := by
  induction new generalizing held with
  | nil =>
    rw [List.append_nil]
    exact .done held
  | cons row new ih =>
    refine .enter ?_
    have h := ih (held ++ [row])
    rwa [List.append_assoc, List.singleton_append] at h

theorem extract_append_extract (rows : Array (List Value)) {a b c : Nat} (hab : a ≤ b)
    (hbc : b ≤ c) :
    (rows.extract a b).toList ++ (rows.extract b c).toList = (rows.extract a c).toList := by
  rw [← Array.toList_append, Array.extract_append_extract, Nat.min_eq_left hab,
    Nat.max_eq_right hbc]

/-- Moving forward turns the rows of one frame into those of the next. -/
theorem queue_moves (rows : Array (List Value)) {held frame : Nat × Nat}
    (hfirst : held.1 ≤ frame.1) (hlast : held.2 ≤ frame.2) :
    Queue (rows.extract held.1 held.2).toList (moves rows held frame)
      (rows.extract frame.1 frame.2).toList := by
  unfold moves
  by_cases hin : frame.1 ≤ held.2
  · -- the rows up to the new start leave, and those from the old end on enter
    rw [Nat.min_eq_left hin, Nat.max_eq_left hin]
    rw [← extract_append_extract rows hfirst hin]
    refine (queue_leave _ _).append ?_
    rw [← extract_append_extract rows hin hlast]
    exact queue_enter _ _
  · -- the frames have no row in common
    have hout : held.2 ≤ frame.1 := by omega
    rw [Nat.min_eq_right hout, Nat.max_eq_right hout]
    have hgone := queue_leave (rows.extract held.1 held.2).toList []
    rw [List.append_nil] at hgone
    exact hgone.append (queue_enter [] _)

/-- The rows of the last of some frames, or of the first one held. -/
theorem queue_trace (rows : Array (List Value)) (held : Nat × Nat) (bounds : List (Nat × Nat))
    (hbounds : (held :: bounds).Pairwise fun a b => a.1 ≤ b.1 ∧ a.2 ≤ b.2) :
    Queue (rows.extract held.1 held.2).toList (trace rows held bounds)
      (rows.extract ((held :: bounds).getLast (by simp)).1
        ((held :: bounds).getLast (by simp)).2).toList := by
  induction bounds generalizing held with
  | nil => exact .done _
  | cons frame later ih =>
    obtain ⟨hhead, hlater⟩ := List.pairwise_cons.1 hbounds
    obtain ⟨hfirst, hlast⟩ := hhead frame List.mem_cons_self
    rw [List.getLast_cons (List.cons_ne_nil frame later)]
    exact (queue_moves rows hfirst hlast).append (ih frame hlater)

/-- The rows that move are rows of the partition. -/
theorem fields_mem_of_mem_trace {rows : Array (List Value)} {held : Nat × Nat}
    {bounds : List (Nat × Nat)} {e : Event} (h : e ∈ trace rows held bounds) :
    e.fields ∈ rows.toList := by
  induction bounds generalizing held with
  | nil => cases h
  | cons frame later ih =>
    have hextract : ∀ {row : List Value} {a b : Nat}, row ∈ (rows.extract a b).toList →
        row ∈ rows.toList := by
      intro row a b hrow
      rw [Array.toList_extract, List.extract_eq_take_drop] at hrow
      exact List.mem_of_mem_drop (List.mem_of_mem_take hrow)
    rcases List.mem_append.1 h with h | h
    · rcases List.mem_append.1 h with h | h
      · obtain ⟨row, hrow, rfl⟩ := List.mem_map.1 h
        exact hextract hrow
      · obtain ⟨row, hrow, rfl⟩ := List.mem_map.1 h
        exact hextract hrow
    · exact ih h

end Event

namespace Reducer

variable {F N : Type} [Quantity N] (r : Reducer F)

/-- One row in or out. -/
def step (s : AggregateState N) : Event → AggregateState N
  | .enter fields => r.add s fields
  | .leave fields => r.remove s fields

def run (s : AggregateState N) (events : List Event) : AggregateState N := events.foldl r.step s

theorem run_append (s : AggregateState N) (es fs : List Event) :
    r.run s (es ++ fs) = r.run (r.run s es) fs :=
  List.foldl_append ..

theorem run_enter (s : AggregateState N) (rows : List (List Value)) :
    r.run s (rows.map .enter) = r.addAll s rows := by
  unfold run addAll
  rw [List.foldl_map]
  rfl

theorem run_leave (s : AggregateState N) (rows : List (List Value)) :
    r.run s (rows.map .leave) = r.removeAll s rows := by
  unfold run removeAll
  rw [List.foldl_map]
  rfl

theorem shift_eq_run (rows : Array (List Value)) (s : AggregateState N)
    (held frame : Nat × Nat) : r.shift rows s held frame = r.run s (Event.moves rows held frame) := by
  unfold Event.moves
  rw [run_append, run_leave, run_enter]
  rfl

theorem length_slideFrom (rows : Array (List Value)) (s : AggregateState N) (held : Nat × Nat)
    (bounds : List (Nat × Nat)) : (r.slideFrom rows s held bounds).length = bounds.length := by
  induction bounds generalizing s held with
  | nil => rfl
  | cons frame later ih => exact congrArg (· + 1) (ih _ frame)

/-- The state at a position is the run of the events up to it. -/
theorem getElem?_slideFrom (rows : Array (List Value)) (s : AggregateState N)
    (held : Nat × Nat) (bounds : List (Nat × Nat)) (i : Nat) (hi : i < bounds.length) :
    (r.slideFrom rows s held bounds)[i]?
      = some (r.run s (Event.trace rows held (bounds.take (i + 1)))) := by
  induction bounds generalizing s held i with
  | nil => cases hi
  | cons frame later ih =>
    rw [List.take_succ_cons, slideFrom, Event.trace, run_append, ← shift_eq_run]
    cases i with
    | zero => rfl
    | succ i =>
      rw [List.getElem?_cons_succ]
      exact ih _ frame i (by rw [List.length_cons] at hi; omega)

/-- What one row in and one row out keep, a run keeps. -/
theorem run_keeps (Q : List Value → Prop) (P : List (List Value) → AggregateState N → Prop)
    (hadd : ∀ held s row, Q row → P held s → P (held ++ [row]) (r.add s row))
    (hremove : ∀ held s row, Q row → P (row :: held) s → P held (r.remove s row))
    {held after : List (List Value)} {events : List Event} (hqueue : Event.Queue held events after)
    (hrows : ∀ e ∈ events, Q e.fields) {s : AggregateState N} (hs : P held s) :
    P after (r.run s events) := by
  induction hqueue generalizing s with
  | done held => exact hs
  | enter _ ih =>
    obtain ⟨hrow, hlater⟩ := List.forall_mem_cons.1 hrows
    exact ih hlater (hadd _ s _ hrow hs)
  | leave _ ih =>
    obtain ⟨hrow, hlater⟩ := List.forall_mem_cons.1 hrows
    exact ih hlater (hremove _ s _ hrow hs)

end Reducer

/-! ## The frames of a partition -/

namespace Frame

variable (f : Frame) {peers : Peers}

theorem length_allBounds (peers : Peers) : (f.allBounds peers).length = peers.size := by
  simp [allBounds]

/-- The events up to a position of the partition. -/
def events (peers : Peers) (rows : Array (List Value)) (i : Nat) : List Event :=
  Event.trace rows (0, 0) ((f.allBounds peers).take (i + 1))

theorem take_allBounds (peers : Peers) {i : Nat} (hi : i < peers.size) :
    (f.allBounds peers).take (i + 1)
      = (List.range i).map (f.bounds peers) ++ [f.bounds peers i] := by
  unfold allBounds
  rw [← List.map_take, List.take_range, Nat.min_eq_left hi, List.range_succ, List.map_append]
  rfl

theorem events_zero (rows : Array (List Value)) (h : 0 < peers.size) :
    f.events peers rows 0 = Event.moves rows (0, 0) (f.bounds peers 0) := by
  unfold events
  rw [f.take_allBounds peers h]
  exact List.append_nil _

/-- From one position to the next. -/
theorem events_succ (rows : Array (List Value)) {i : Nat} (hi : i + 1 < peers.size) :
    f.events peers rows (i + 1)
      = f.events peers rows i ++ Event.moves rows (f.bounds peers i) (f.bounds peers (i + 1)) := by
  have hlast : ((List.range (i + 1)).map (f.bounds peers)).getLastD (0, 0) = f.bounds peers i := by
    rw [List.range_succ, List.map_append, List.map_singleton, List.getLastD_concat]
  unfold events
  rw [f.take_allBounds peers hi, Event.trace_concat, hlast,
    f.take_allBounds peers (Nat.lt_of_succ_lt hi), List.range_succ, List.map_append]
  rfl

/-- The rows of the frame of a position. -/
def held (peers : Peers) (rows : Array (List Value)) (i : Nat) : List (List Value) :=
  (rows.extract (f.bounds peers i).1 (f.bounds peers i).2).toList

theorem pairwise_allBounds (hp : peers.WellFormed) :
    ((0, 0) :: f.allBounds peers).Pairwise fun a b => a.1 ≤ b.1 ∧ a.2 ≤ b.2 := by
  refine List.pairwise_cons.2 ⟨fun _ _ => ⟨Nat.zero_le _, Nat.zero_le _⟩, ?_⟩
  unfold allBounds
  rw [List.pairwise_map]
  exact List.pairwise_lt_range.imp fun hlt => f.bounds_mono hp (Nat.le_of_lt hlt)

/-- The events up to a position leave exactly the rows of its frame. -/
theorem queue_events (hp : peers.WellFormed) (rows : Array (List Value)) {i : Nat}
    (hi : i < peers.size) : Event.Queue [] (f.events peers rows i) (f.held peers rows i) := by
  have hpairwise := (f.pairwise_allBounds hp).sublist
    (List.Sublist.cons_cons (0, 0) (List.take_sublist (i + 1) (f.allBounds peers)))
  have hqueue := Event.queue_trace rows (0, 0) ((f.allBounds peers).take (i + 1)) hpairwise
  have hlast : ((0, 0) :: (f.allBounds peers).take (i + 1)).getLast (by simp)
      = f.bounds peers i := by
    rw [List.getLast_eq_getElem]
    have hlen : ((0, 0) :: (f.allBounds peers).take (i + 1)).length - 1 = i + 1 := by
      simp only [List.length_cons, List.length_take, length_allBounds]
      omega
    simp only [hlen, List.getElem_cons_succ, List.getElem_take]
    simp [allBounds]
  rw [hlast] at hqueue
  simpa [events, held] using hqueue

/-- Without bounds all rows come in at the first position, and none goes. -/
theorem events_unbounded (hp : peers.WellFormed) (tied : Bool) {rows : Array (List Value)}
    (hrows : rows.size = peers.size) {i : Nat} (hi : i < peers.size) :
    (⟨none, none, tied⟩ : Frame).events peers rows i = rows.toList.map .enter := by
  have hbounds : ∀ {j : Nat}, j < peers.size →
      (⟨none, none, tied⟩ : Frame).bounds peers j = (0, peers.size) := fun hj =>
    bounds_unbounded hp hj tied
  induction i with
  | zero =>
    rw [events_zero _ rows hi, hbounds hi]
    unfold Event.moves
    simp [← hrows]
  | succ i ih =>
    have hi' : i < peers.size := by omega
    rw [events_succ _ rows hi, ih hi', hbounds hi, hbounds hi']
    unfold Event.moves
    simp [← hrows]

end Frame

/-- The state at a position of a partition. -/
theorem Reducer.getElem?_slide {F N : Type} [Quantity N] (r : Reducer F) (f : Frame)
    (peers : Peers) (rows : Array (List Value)) {i : Nat} (hi : i < peers.size) :
    (r.slide rows (f.allBounds peers) : List (AggregateState N))[i]?
      = some (r.run r.start (f.events peers rows i)) :=
  r.getElem?_slideFrom rows r.start (0, 0) (f.allBounds peers) i
    (by rw [f.length_allBounds]; exact hi)

end ColumnQuery
