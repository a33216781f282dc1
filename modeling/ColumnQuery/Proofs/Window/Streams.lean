/-
  The streams of window calls.

  The rolling calls of one frame are a stream, and its reducers slide over a partition together.
  A reducer reads the fields of the first call of its frame with the same key, the leader of its
  calls (`WindowCall.leader`). Over the rows of a partition every stream answers values, and the
  values that it answers for a call are those of a reducer that keeps up the aggregate of the
  call over the fields of the leader (`SlidesOver`).
-/
import ColumnQuery.Proofs.Aggregate.Fresh
import ColumnQuery.Proofs.Formula.Resolve
import ColumnQuery.View.Operators

namespace ColumnQuery

/-! ## Rolling calls -/

namespace WindowCall

/-- The call as a reducer takes it, if it is an aggregate over a frame. -/
def reducerCall? (c : WindowCall) : Option (ReducerCall Formula (List Node)) :=
  match c.operator with
  | .aggregate a => some ⟨⟨a, c.params⟩, c.fields, c.key⟩
  | .function _ => none

/-- The call as a reducer of a frame takes it. -/
def rollingIn? (frame : Frame) (c : WindowCall) : Option (ReducerCall Formula (List Node)) :=
  if c.frame == frame then c.reducerCall? else none

/-- The first rolling call of the same frame whose fields have the same trees. -/
def leader (calls : List WindowCall) (c : WindowCall) : WindowCall :=
  (calls.find? fun d => (d.rollingIn? c.frame).any fun e => Node.sameList e.key c.key).getD c

/-- A call by itself is its own leader. -/
theorem leader_singleton (c : WindowCall) : c.leader [c] = c := by
  unfold leader
  rw [List.find?_singleton]
  split <;> rfl

variable {c : WindowCall} {frame : Frame} {e : ReducerCall Formula (List Node)}

theorem rollingIn?_eq_some (h : c.rollingIn? frame = some e) :
    ∃ a, c.operator = .aggregate a ∧ c.frame = frame ∧ e = ⟨⟨a, c.params⟩, c.fields, c.key⟩ := by
  unfold rollingIn? at h
  split at h
  next hframe =>
    unfold reducerCall? at h
    split at h
    next a ha =>
      cases h
      exact ⟨a, ha, beq_iff_eq.1 hframe, rfl⟩
    next => cases h
  next => cases h

theorem rollingIn?_of_aggregate {a : Aggregate} (h : c.operator = .aggregate a) :
    c.rollingIn? c.frame = some ⟨⟨a, c.params⟩, c.fields, c.key⟩ := by
  unfold rollingIn? reducerCall?
  rw [if_pos (beq_self_eq_true c.frame), h]

/-- The leader of a rolling call is a call of the same frame with the same trees. -/
theorem leader_spec {calls : List WindowCall} {c : WindowCall} {a : Aggregate} (hc : c ∈ calls)
    (ha : c.operator = .aggregate a) :
    c.leader calls ∈ calls ∧ (c.leader calls).frame = c.frame ∧
      Node.sameList (c.leader calls).key c.key = true := by
  have hself : (c.rollingIn? c.frame).any (fun e => Node.sameList e.key c.key) = true := by
    rw [rollingIn?_of_aggregate ha]
    exact Node.equivalence_sameList.refl c.key
  cases hfind : calls.find? fun d => (d.rollingIn? c.frame).any fun e =>
      Node.sameList e.key c.key with
  | none => exact absurd hself (List.find?_eq_none.1 hfind c hc)
  | some d =>
    have hleader : c.leader calls = d := by
      unfold leader
      rw [hfind]
      rfl
    rw [hleader]
    have hany := List.find?_some hfind
    obtain ⟨e, he, hkey⟩ := (Option.any_eq_true _ _).1 hany
    obtain ⟨b, -, hframe, rfl⟩ := rollingIn?_eq_some he
    exact ⟨List.mem_of_find?_eq_some hfind, hframe, hkey⟩

end WindowCall

namespace WindowStream

/-! ## The calls of a frame -/

/-- The numbered rolling calls of a frame. -/
def ofFrame (calls : List WindowCall) (frame : Frame) :
    List (Nat × ReducerCall Formula (List Node)) :=
  ((calls.zipIdx.filterMap framed?).filter (·.1 == frame)).map (·.2)

theorem framed?_eq (e : WindowCall × Nat) :
    framed? e = e.1.reducerCall?.map fun c => (e.1.frame, e.2, c) := by
  unfold framed? WindowCall.reducerCall?
  cases e.1.operator <;> rfl

theorem ofFrame_eq (calls : List WindowCall) (frame : Frame) :
    ofFrame calls frame
      = calls.zipIdx.filterMap fun e => (e.1.rollingIn? frame).map fun c => (e.2, c) := by
  unfold ofFrame
  rw [List.filter_filterMap, List.map_filterMap]
  congr 1
  funext e
  rw [framed?_eq]
  unfold WindowCall.rollingIn?
  cases e.1.reducerCall? with
  | none => simp
  | some c => cases hframe : e.1.frame == frame <;> simp [Option.filter, hframe]

/-- The calls of a frame without their numbers. -/
theorem map_snd_ofFrame (calls : List WindowCall) (frame : Frame) :
    (ofFrame calls frame).map (·.2) = calls.filterMap (·.rollingIn? frame) := by
  have hdrop : (fun e : WindowCall × Nat =>
      ((e.1.rollingIn? frame).map fun c => (e.2, c)).map (·.2))
      = (fun c : WindowCall => c.rollingIn? frame) ∘ fun e : WindowCall × Nat => e.1 := by
    funext e
    simp [Function.comp_def]
  rw [ofFrame_eq, List.map_filterMap, hdrop, ← List.filterMap_map, List.zipIdx_map_fst]

theorem of_mem_ofFrame {calls : List WindowCall} {frame : Frame} {n : Nat}
    {c : ReducerCall Formula (List Node)} (h : (n, c) ∈ ofFrame calls frame) :
    ∃ call, calls[n]? = some call ∧ call.rollingIn? frame = some c := by
  rw [ofFrame_eq] at h
  obtain ⟨e, he, heq⟩ := List.mem_filterMap.1 h
  obtain ⟨d, hd, heq⟩ := Option.map_eq_some_iff.1 heq
  cases heq
  exact ⟨e.1, List.mem_zipIdx_iff_getElem?.1 he, hd⟩

theorem mem_ofFrame {calls : List WindowCall} {frame : Frame} {n : Nat} {call : WindowCall}
    {c : ReducerCall Formula (List Node)} (hcall : calls[n]? = some call)
    (hc : call.rollingIn? frame = some c) : (n, c) ∈ ofFrame calls frame := by
  rw [ofFrame_eq]
  refine List.mem_filterMap.2 ⟨(call, n), List.mem_zipIdx_iff_getElem?.2 hcall, ?_⟩
  dsimp only
  rw [hc]
  rfl

theorem mem_ofCalls {calls : List WindowCall} {w : WindowStream} :
    w ∈ ofCalls calls ↔ ∃ frame, frame ∈ (calls.zipIdx.filterMap framed?).map (·.1) ∧
      w = ⟨frame, (ofFrame calls frame).map (·.1),
        Reducer.build Node.sameList true ((ofFrame calls frame).map (·.2))⟩ := by
  unfold ofCalls
  dsimp only
  rw [List.mem_map]
  constructor
  · rintro ⟨frame, hframe, rfl⟩
    exact ⟨frame, List.mem_eraseDups.1 hframe, rfl⟩
  · rintro ⟨frame, hframe, rfl⟩
    exact ⟨frame, List.mem_eraseDups.2 hframe, rfl⟩

/-! ## What registered calls make of it -/

variable {tables : List Table} {aggregates : List AggregateCall} {calls : List WindowCall}

/-- No rolling call has more parameters than its aggregate takes. -/
theorem fits_ofFrame (h : Registered tables aggregates calls) (frame : Frame) :
    ∀ c ∈ (ofFrame calls frame).map (·.2), c.op.Fits := by
  rw [map_snd_ofFrame]
  intro c hc
  obtain ⟨call, hcall, hroll⟩ := List.mem_filterMap.1 hc
  obtain ⟨a, ha, -, rfl⟩ := WindowCall.rollingIn?_eq_some hroll
  have hparams := (h.windows_suit call hcall).params_length
  rw [ha] at hparams
  exact hparams

/-- No aggregate is asked for twice over the same key and frame. -/
theorem differ_ofFrame (h : Registered tables aggregates calls) (frame : Frame) :
    ((ofFrame calls frame).map (·.2)).Pairwise fun d c =>
      Node.sameList d.key c.key = true → d.op.same c.op = false := by
  rw [map_snd_ofFrame, List.pairwise_filterMap]
  refine h.windows_differ.imp fun hdiffer => ?_
  intro d hd c hc hkey
  obtain ⟨a, ha, haframe, rfl⟩ := WindowCall.rollingIn?_eq_some hd
  obtain ⟨b, hb, hbframe, rfl⟩ := WindowCall.rollingIn?_eq_some hc
  rw [Bool.eq_false_iff]
  intro hsame
  unfold AggregateOp.same at hsame
  rw [Bool.and_eq_true] at hsame
  refine hdiffer ⟨?_, hkey, hsame.2, haframe.trans hbframe.symm⟩
  rw [ha, hb]
  exact congrArg _ (eq_of_beq hsame.1)

/-- The fields that a reducer reads are those of the leader. -/
theorem fields_leader {call : WindowCall} {c leader : ReducerCall Formula (List Node)}
    (hc : call.rollingIn? call.frame = some c)
    (hleader : ((ofFrame calls call.frame).map (·.2)).find?
      (fun d => Node.sameList d.key c.key) = some leader) :
    leader.fields = (call.leader calls).fields := by
  obtain ⟨a, ha, -, rfl⟩ := WindowCall.rollingIn?_eq_some hc
  rw [map_snd_ofFrame, List.find?_filterMap] at hleader
  obtain ⟨d, hd, hdleader⟩ := Option.bind_eq_some_iff.1 hleader
  obtain ⟨b, hb, -, rfl⟩ := WindowCall.rollingIn?_eq_some hdleader
  unfold WindowCall.leader
  rw [hd]
  rfl

/-! ## Sliding over a partition -/

/-- The values of a call over a partition: at every position, what a reducer that keeps up its
    aggregate has after the rows of the leader's fields have come and gone. -/
def SlidesOver (calls : List WindowCall) (call : WindowCall) (a : Aggregate) (peers : Peers)
    (rows : List Nat) (values : List Value) : Prop :=
  ∃ (observed : List (List Value)) (r : Reducer Formula) (place : Nat),
    rows.mapM (Formula.evalKey (call.leader calls).fields) = some observed ∧
    Ordered true r.ops ∧ r.ops[place]? = some ⟨a, call.params⟩ ∧
    values = (List.range peers.size).map fun i =>
      r.valueAt (r.run r.start (call.frame.events peers observed.toArray i)) place

theorem map_slide (r : Reducer Formula) (rows : Array (List Value)) (frame : Frame)
    (peers : Peers) (place : Nat) :
    (r.slide rows (frame.allBounds peers)).map (r.valueAt · place)
      = (List.range peers.size).map fun i =>
        r.valueAt (r.run r.start (frame.events peers rows i)) place := by
  refine List.ext_getElem? fun i => ?_
  rw [List.getElem?_map, List.getElem?_map]
  by_cases hi : i < peers.size
  · rw [r.getElem?_slide frame peers rows hi, List.getElem?_range hi]
    rfl
  · have hlength : (r.slide rows (frame.allBounds peers) : List (AggregateState Float)).length
        = peers.size := by
      unfold Reducer.slide
      rw [Reducer.length_slideFrom, Frame.length_allBounds]
    rw [List.getElem?_eq_none (by omega), List.getElem?_eq_none (by simp; omega)]
    rfl

/-- Whatever a stream answers for a call are its sliding values. -/
theorem slidesOver_of_mem (h : Registered tables aggregates calls) {w : WindowStream}
    (hw : w ∈ ofCalls calls) {peers : Peers} {rows : List Nat} {entries : List (Nat × List Value)}
    (hentries : w.values peers rows = some entries) {n : Nat} {values : List Value}
    (hn : (n, values) ∈ entries) : ∃ call a, calls[n]? = some call ∧
      call.operator = .aggregate a ∧ SlidesOver calls call a peers rows values := by
  obtain ⟨frame, -, rfl⟩ := mem_ofCalls.1 hw
  obtain ⟨parts, hparts, hflat⟩ := Option.bind_eq_some_iff.1 hentries
  obtain rfl : parts.flatten = entries := Option.some.inj hflat
  obtain ⟨part, hpart, hn⟩ := List.mem_flatten.1 hn
  obtain ⟨r, hr, hpart⟩ := mem_of_mapM hparts hpart
  obtain ⟨observed, hobserved, hpart⟩ := Option.bind_eq_some_iff.1 hpart
  obtain rfl := Option.some.inj hpart
  obtain ⟨⟨index, place⟩, houtput, hn⟩ := List.mem_filterMap.1 hn
  obtain ⟨m, hm, heq⟩ := Option.map_eq_some_iff.1 hn
  cases heq
  obtain ⟨hordered, -, houtputs⟩ := Reducer.build_spec Node.equivalence_sameList
    (fits_ofFrame h frame) (differ_ofFrame h frame) hr
  obtain ⟨c, leader, hc, hleader, hfields, hop⟩ := houtputs index place houtput
  -- the number and the call at the index are those of one rolling call
  have hown : (n, c) ∈ ofFrame calls frame := by
    rw [List.getElem?_map] at hm hc
    obtain ⟨e, he, rfl⟩ := Option.map_eq_some_iff.1 hm
    obtain ⟨e', he', rfl⟩ := Option.map_eq_some_iff.1 hc
    obtain rfl : e = e' := Option.some.inj (he.symm.trans he')
    exact List.mem_of_getElem? he
  obtain ⟨call, hcall, hroll⟩ := of_mem_ofFrame hown
  obtain ⟨a, ha, rfl, rfl⟩ := WindowCall.rollingIn?_eq_some hroll
  refine ⟨call, a, hcall, ha, observed, r, place, ?_, hordered, hop, ?_⟩
  · rw [← fields_leader hroll hleader, ← hfields]
    exact hobserved
  · exact map_slide r observed.toArray call.frame peers place

/-- A stream has an answer over rows at which all fields have values. -/
theorem exists_values (h : Registered tables aggregates calls) {w : WindowStream}
    (hw : w ∈ ofCalls calls) (peers : Peers) {rows : List Nat}
    (hread : ∀ c ∈ calls, ∀ row ∈ rows, ∃ vs, Formula.evalKey c.fields row = some vs) :
    ∃ entries, w.values peers rows = some entries := by
  obtain ⟨frame, -, heq⟩ := mem_ofCalls.1 hw
  have hreducers : ∀ r ∈ w.reducers,
      ∃ part, w.reducerValues (w.frame.allBounds peers) rows r = some part := by
    intro r hr
    rw [heq] at hr
    obtain ⟨-, ⟨c, hc, hfields⟩, -⟩ := Reducer.build_spec Node.equivalence_sameList
      (fits_ofFrame h frame) (differ_ofFrame h frame) hr
    rw [map_snd_ofFrame] at hc
    obtain ⟨call, hcall, hroll⟩ := List.mem_filterMap.1 hc
    obtain ⟨a, -, -, rfl⟩ := WindowCall.rollingIn?_eq_some hroll
    have hobserve : ∀ row ∈ rows, ∃ vs, r.observe row = some vs := by
      intro row hrow
      unfold Reducer.observe
      rw [hfields]
      exact hread call hcall row hrow
    obtain ⟨observed, hobserved⟩ := exists_mapM r.observe rows hobserve
    exact ⟨_, Option.bind_eq_some_iff.2 ⟨observed, hobserved, rfl⟩⟩
  obtain ⟨parts, hparts⟩ := exists_mapM _ _ hreducers
  exact ⟨_, Option.bind_eq_some_iff.2 ⟨parts, hparts, rfl⟩⟩

/-- Some stream answers values for a rolling call. -/
theorem exists_mem_of_call (h : Registered tables aggregates calls) {n : Nat} {call : WindowCall}
    {a : Aggregate} (hcall : calls[n]? = some call) (ha : call.operator = .aggregate a) :
    ∃ w ∈ ofCalls calls, ∀ (peers : Peers) (rows : List Nat) (entries : List (Nat × List Value)),
      w.values peers rows = some entries → ∃ values, (n, values) ∈ entries := by
  have hroll := WindowCall.rollingIn?_of_aggregate ha
  have hown := mem_ofFrame hcall hroll
  obtain ⟨index, hindex⟩ := List.mem_iff_getElem?.1 hown
  have hc : ((ofFrame calls call.frame).map (·.2))[index]?
      = some ⟨⟨a, call.params⟩, call.fields, call.key⟩ := by
    rw [List.getElem?_map, hindex]
    rfl
  obtain ⟨r, hr, place, houtput⟩ := Reducer.exists_output_of_call true
    Node.equivalence_sameList (fits_ofFrame h call.frame) hc
  refine ⟨_, mem_ofCalls.2 ⟨call.frame, ?_, rfl⟩, fun peers rows entries hentries => ?_⟩
  · refine List.mem_map.2 ⟨(call.frame, n, ⟨⟨a, call.params⟩, call.fields, call.key⟩), ?_, rfl⟩
    refine List.mem_filterMap.2 ⟨(call, n), List.mem_zipIdx_iff_getElem?.2 hcall, ?_⟩
    unfold framed?
    rw [ha]
  · obtain ⟨parts, hparts, hflat⟩ := Option.bind_eq_some_iff.1 hentries
    obtain rfl : parts.flatten = entries := Option.some.inj hflat
    obtain ⟨part, hpart, hvalues⟩ := exists_of_mapM hparts hr
    obtain ⟨observed, -, hvalues⟩ := Option.bind_eq_some_iff.1 hvalues
    obtain rfl := Option.some.inj hvalues
    refine ⟨(r.slide observed.toArray (call.frame.allBounds peers)).map (r.valueAt · place),
      List.mem_flatten.2 ⟨_, hpart, List.mem_filterMap.2 ⟨(index, place), houtput, ?_⟩⟩⟩
    dsimp only
    rw [List.getElem?_map, hindex]
    rfl

end WindowStream

end ColumnQuery
