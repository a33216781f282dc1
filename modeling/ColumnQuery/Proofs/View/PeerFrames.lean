/-
  Frames with peers over a view.

  In every partition of a view a frame with peers is the raw frame, widened to whole classes of
  rows that tie in the order of the view. So the frame that runs up to the current row and its
  peers is one frame for all rows of a class, and what is read off it alone is one value: every
  rolling aggregate, and the first, the last and the nth value (`peer_frames_of_reachable`).
-/
import ColumnQuery.Proofs.View.Ranked
import ColumnQuery.Proofs.Window.Widened

namespace ColumnQuery

/-- The operators whose result depends on the frame of a row, and not on its position. -/
def WindowOperator.readsFrame : WindowOperator → Bool
  | .aggregate _ => true
  | .function f => f matches .firstValue | .lastValue | .nthValue

/-- Positions of one frame have one value. -/
theorem WindowFunction.values_eq_of_bounds_eq {f : WindowFunction} {params : List Value}
    {peers : Peers} {frame : Frame} {field : Array Value} {i j : Nat}
    (hf : (WindowOperator.function f).readsFrame = true) (hi : i < peers.size)
    (hj : j < peers.size) (h : frame.bounds peers i = frame.bounds peers j) :
    (f.values params peers (frame.allBounds peers) field)[i]?.getD .null
      = (f.values params peers (frame.allBounds peers) field)[j]?.getD .null := by
  have heach : ∀ g : Nat → Nat → Value,
      (each (frame.allBounds peers) fun _ => g)[i]?.getD .null
        = (each (frame.allBounds peers) fun _ => g)[j]?.getD .null := by
    intro g
    rw [getD_each frame peers _ hi, getD_each frame peers _ hj, h]
  cases f with
  | firstValue => exact heach fun i0 i1 => if i0 < i1 then fieldAt field i0 else .null
  | lastValue => exact heach fun i0 i1 => if i0 < i1 then fieldAt field (i1 - 1) else .null
  | nthValue =>
    exact heach fun i0 i1 =>
      let place := Number.wrapNat64 (i0 + countParam params 0 0 - 1)
      if countParam params 0 0 ≠ 0 ∧ place < i1 then fieldAt field place else .null
  | _ => exact absurd hf Bool.false_ne_true

namespace View

variable {v : View} {key : RowKey} {aggregates : List AggregateCall} {calls : List WindowCall}
  {parts : List (List Nat)} {rows : List Nat}

/-- The results of a rolling call over a partition are what its aggregate has kept up of the
    events up to the row. -/
theorem Sound.windowAt?_aggregate (hv : v.Sound key) (hcalls : Registered [v.data] aggregates calls)
    (hparts : v.partitions true = some parts) (hrows : rows ∈ parts) (hne : rows ≠ []) {n : Nat}
    {call : WindowCall} {a : Aggregate} (hcall : calls[n]? = some call)
    (ha : call.operator = .aggregate a) : ∃ observed : Array (List Value), ∀ i row : Nat,
      rows[i]? = some row → v.windowAt? calls n row = some (a.value call.params
        (a.keeper.alone (call.frame.events (v.peers rows) observed i))) := by
  obtain ⟨entries, hentries, hanswer⟩ := hv.windowAt?_eq hcalls hparts hrows hne
  obtain ⟨values, hlookup, hslides⟩ := lookup_partitionValues hcalls hentries hcall ha
  obtain ⟨observed, -, rfl⟩ := eq_of_slidesOver hslides
  refine ⟨observed.toArray, fun i row hrow => ?_⟩
  rw [hanswer n (List.getElem?_eq_some_iff.1 hcall).1 i row hrow, answerAt, hlookup,
    Option.getD_some, List.getElem?_map, List.getElem?_range (v.lt_size_peers hrow)]
  rfl

/-- Rows of one frame have the same result of a call that reads the frame alone. -/
theorem Sound.windowAt?_eq_of_bounds_eq (hv : v.Sound key)
    (hcalls : Registered [v.data] aggregates calls) (hparts : v.partitions true = some parts)
    (hrows : rows ∈ parts) {n i j a b : Nat} {call : WindowCall} (hcall : calls[n]? = some call)
    (hreads : call.operator.readsFrame = true) (ha : rows[i]? = some a) (hb : rows[j]? = some b)
    (h : call.frame.bounds (v.peers rows) i = call.frame.bounds (v.peers rows) j) :
    ∃ x, v.windowAt? calls n a = some x ∧ v.windowAt? calls n b = some x := by
  have hne : rows ≠ [] := by
    rintro rfl
    cases ha
  have hi := v.lt_size_peers ha
  have hj := v.lt_size_peers hb
  cases hoperator : call.operator with
  | aggregate g =>
    obtain ⟨observed, hvalue⟩ :=
      hv.windowAt?_aggregate hcalls hparts hrows hne hcall hoperator
    have hevents : call.frame.events (v.peers rows) observed i
        = call.frame.events (v.peers rows) observed j := by
      have hwf := v.wellFormed_peers rows
      rcases Nat.le_total i j with hij | hji
      · exact call.frame.events_eq_of_bounds_eq hwf observed hij hj h
      · exact (call.frame.events_eq_of_bounds_eq hwf observed hji hi h.symm).symm
    refine ⟨_, hvalue i a ha, ?_⟩
    rw [hevents]
    exact hvalue j b hb
  | function f =>
    obtain ⟨field, hvalue⟩ := hv.windowAt?_function hcalls hparts hrows hne hcall hoperator
    rw [hoperator] at hreads
    refine ⟨_, hvalue i a ha, ?_⟩
    rw [WindowFunction.values_eq_of_bounds_eq hreads hi hj h]
    exact hvalue j b hb

/-- Frames with peers over a reachable view. In every partition the frame of every position is its
    raw frame widened to whole classes of tied rows; and with the frame up to the current row, rows
    that tie have the same frame and the same result of every rolling aggregate and of the first,
    the last and the nth value. -/
theorem peer_frames_of_reachable {v : View} (hv : Reachable v) :
    ∃ parts, v.partitions true = some parts ∧ ∀ rows ∈ parts,
      (∀ (start stop : Option Int) (i : Nat), i < rows.length → Widened v.compareRows rows
        ((⟨start, stop, false⟩ : Frame).bounds (v.peers rows) i)
        ((⟨start, stop, true⟩ : Frame).bounds (v.peers rows) i)) ∧
      ∀ i j a b : Nat, rows[i]? = some a → rows[j]? = some b → v.compareRows a b = .eq →
        (⟨none, some 0, true⟩ : Frame).bounds (v.peers rows) i
          = (⟨none, some 0, true⟩ : Frame).bounds (v.peers rows) j ∧
        ∀ (exprs : List (String × ExprSpec)) (options : ResolveOptions) r (n : Nat) call,
          v.resolve exprs options = .ok r → r.windows[n]? = some call →
          call.frame = ⟨none, some 0, true⟩ → call.operator.readsFrame = true →
          ∃ x, v.windowAt? r.windows n a = some x ∧ v.windowAt? r.windows n b = some x := by
  obtain ⟨key, hreach⟩ := hv
  have hsound := sound_of_reachable hreach
  obtain ⟨parts, hparts, -⟩ := hsound.partitions_spec
  refine ⟨parts, hparts, fun rows hrows => ?_⟩
  have hascends := hsound.partition_ascends hparts hrows
  have hpeers := hsound.peers_eq_ofTies hparts hrows
  refine ⟨fun start stop i _ => ?_, fun i j a b ha hb htied => ?_⟩
  · rw [hpeers]
    exact Frame.widened_bounds hascends start stop i
  · have hgroup : (v.peers rows).group i = (v.peers rows).group j := by
      rw [hpeers]
      exact (Peers.group_ofTies_eq_iff hascends ha hb).2 htied
    have hbounds := Frame.bounds_upTo_eq (v.wellFormed_peers rows) (v.lt_size_peers ha)
      (v.lt_size_peers hb) hgroup
    refine ⟨hbounds, fun exprs options r n call hr hcall hframe hreads => ?_⟩
    refine hsound.windowAt?_eq_of_bounds_eq (registered_of_resolve hr) hparts hrows hcall hreads
      ha hb ?_
    rw [hframe]
    exact hbounds

/-- Calls of the frame up to the current row and its peers. -/
def peerExprs : List (String × ExprSpec) :=
  [("sum", []), ("first_value", []), ("last_value", []),
    ("nth_value", [.literal (.number 2.0)])].map fun (name, params) =>
      (name, .rolling (.tree (.call (.identifier name) (.column 0 "x" :: params)))
        ⟨none, some 0, true⟩)

/-- Two rows tie in the middle of four. The frame of the one alone is widened to both, and the calls
    have the same results at both. -/
theorem peer_frames_of_reachable_scores : ∃ w r,
    (View.ofTable scores).orderBy [⟨.column "x", false⟩] = .ok w ∧ Reachable w ∧
    w.resolve peerExprs .derive = .ok r ∧ r.windows.map (·.frame.peers) = List.replicate 4 true ∧
    Widened w.compareRows [1, 0, 2, 3] (1, 2)
      ((⟨some 0, some 0, true⟩ : Frame).bounds (w.peers [1, 0, 2, 3]) 1) ∧
    ∀ n < 4, ∃ x, w.windowAt? r.windows n 0 = some x ∧ w.windowAt? r.windows n 2 = some x := by
  obtain ⟨⟨w, r⟩, hrun, hseen⟩ := exists_ok
    (x := do
      let w ← (View.ofTable scores).orderBy [⟨.column "x", false⟩]
      let r ← w.resolve peerExprs .derive
      return (w, r))
    (p := fun (w, r) => w.visible == [0, 1, 2, 3] && w.split [1, 0, 2, 3] == [[1, 0, 2, 3]] &&
      decide ([1, 0, 2, 3].Pairwise fun a b =>
        w.compareRows a b = .lt ∨ w.compareRows a b = .eq ∧ a < b) &&
      r.windows.map (·.frame) == List.replicate 4 ⟨none, some 0, true⟩ &&
      r.windows.all (·.operator.readsFrame) && w.compareRows 0 2 == .eq)
    (by decide +kernel)
  obtain ⟨w', hw, hrun⟩ := bind_eq_ok hrun
  obtain ⟨r', hr, hrun⟩ := bind_eq_ok hrun
  cases hrun
  simp only [Bool.and_eq_true, beq_iff_eq, decide_eq_true_eq] at hseen
  obtain ⟨⟨⟨⟨⟨hvisible, hsplit⟩, hsorted⟩, hframes⟩, hreads⟩, htied⟩ := hseen
  have hperm : [1, 0, 2, 3].Perm w.visible := by
    rw [hvisible]
    decide
  obtain ⟨hreach, hpartitions⟩ := partitions_orderBy scores_wellFormed hw hperm hsorted
  obtain ⟨parts, hparts, hpeers⟩ := peer_frames_of_reachable hreach
  obtain rfl : [[1, 0, 2, 3]] = parts :=
    Option.some.inj ((hpartitions.trans (congrArg some hsplit)).symm.trans hparts)
  obtain ⟨hwidened, hsame⟩ := hpeers [1, 0, 2, 3] List.mem_cons_self
  refine ⟨w, r, hw, hreach, hr, ?_, ?_, fun n hn => ?_⟩
  · have := congrArg (List.map Frame.peers) hframes
    rwa [List.map_map] at this
  · have hraw : (⟨some 0, some 0, false⟩ : Frame).bounds (w.peers [1, 0, 2, 3]) 1 = (1, 2) := by
      rw [Frame.bounds_off, w.size_peers]
      rfl
    rw [← hraw]
    exact hwidened (some 0) (some 0) 1 (by decide)
  · have hframe : (r.windows.map (·.frame))[n]? = some ⟨none, some 0, true⟩ := by
      rw [hframes, List.getElem?_replicate, if_pos hn]
    rw [List.getElem?_map] at hframe
    obtain ⟨call, hcall, hframe⟩ := Option.map_eq_some_iff.1 hframe
    exact (hsame 1 2 0 2 rfl rfl htied).2 peerExprs .derive r n call hr hcall hframe
      (List.all_eq_true.1 hreads call (List.mem_of_getElem? hcall))

end View

end ColumnQuery
