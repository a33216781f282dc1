/-
  Views that show the same rows at different places.

  Two views are aligned if their rows in order correspond one by one, if rows that correspond are in
  groups of the same number and tie alike, and if the groups have the same keys (`Aligned`). `pairs`
  lists the rows that correspond. Whatever goes over the rows of a view in order then sees the same:
  the rows of a group, and the rows of a partition with their peers.

  Calls whose fields have the same values at rows that correspond have the same results: aggregates
  group by group (`Aligned.aggregates_eq`), window calls at rows that correspond
  (`Aligned.operators_eq`).
-/
import ColumnQuery.Proofs.Formula.InStep
import ColumnQuery.Proofs.View.GroupsApart

namespace ColumnQuery

/-! ## Lists that correspond -/

section Lists

variable {α β γ : Type}

/-- Lists that correspond are mapped alike. -/
theorem mapM_of_forall₂ {f : α → Option γ} {g : β → Option γ} {xs : List α} {ys : List β}
    (h : List.Forall₂ (fun x y => f x = g y) xs ys) : xs.mapM f = ys.mapM g := by
  induction h with
  | nil => rfl
  | cons hxy _ ih => rw [List.mapM_cons, List.mapM_cons, hxy, ih]

theorem forall₂_zipIdx {R : α → β → Prop} {xs : List α} {ys : List β} (h : List.Forall₂ R xs ys)
    (first : Nat) :
    List.Forall₂ (fun a b => R a.1 b.1 ∧ a.2 = b.2) (xs.zipIdx first) (ys.zipIdx first) := by
  induction h generalizing first with
  | nil => exact .nil
  | cons hxy _ ih => exact .cons ⟨hxy, rfl⟩ (ih (first + 1))

/-- Items that correspond are items of the lists. -/
theorem forall₂_mem {R : α → β → Prop} {xs : List α} {ys : List β} (h : List.Forall₂ R xs ys) :
    List.Forall₂ (fun x y => x ∈ xs ∧ y ∈ ys ∧ R x y) xs ys := by
  induction h with
  | nil => exact .nil
  | cons hxy _ ih =>
    refine .cons ⟨List.mem_cons_self, List.mem_cons_self, hxy⟩ (ih.imp fun x y hm => ?_)
    exact ⟨List.mem_cons_of_mem _ hm.1, List.mem_cons_of_mem _ hm.2.1, hm.2.2⟩

/-- Both sides of a list of pairs go through a map alike. -/
theorem mapM_pairs {pairs : List (α × β)} {f : α → Option γ} {g : β → Option γ}
    (h : ∀ p ∈ pairs, f p.1 = g p.2) : (pairs.map (·.1)).mapM f = (pairs.map (·.2)).mapM g := by
  refine mapM_of_forall₂ ?_
  rw [List.forall₂_map_left_iff, List.forall₂_map_right_iff, List.forall₂_same]
  exact h

/-- Two folds over lists that correspond keep what every pair of steps keeps. -/
theorem foldlM_forall₂_keeps {ε δ : Type} {R : γ → δ → Prop} {S : α → β → Prop}
    {f : γ → α → Except ε γ} {g : δ → β → Except ε δ} {xs : List α} {ys : List β}
    (hxs : List.Forall₂ S xs ys) (hstep : ∀ c d c' d' x y, S x y → R c d → f c x = .ok c' →
      g d y = .ok d' → R c' d') {c c' : γ} {d d' : δ} (hstart : R c d) (h : xs.foldlM f c = .ok c')
    (h' : ys.foldlM g d = .ok d') : R c' d' := by
  induction hxs generalizing c d with
  | nil =>
    obtain rfl := Except.ok.inj h
    obtain rfl := Except.ok.inj h'
    exact hstart
  | cons hxy _ ih =>
    rw [List.foldlM_cons] at h h'
    obtain ⟨c₁, hc, h⟩ := bind_eq_ok h
    obtain ⟨d₁, hd, h'⟩ := bind_eq_ok h'
    exact ih (hstep _ _ _ _ _ _ hxy hstart hc hd) h h'

end Lists

/-! ## Reducers -/

namespace Reducer

variable {F K : Type} {R : List F → List F → Prop}

/-- Reducers of the same aggregates over fields that correspond. -/
structure Alongside (R : List F → List F → Prop) (r r' : Reducer F) : Prop where
  ops : r.ops = r'.ops
  outputs : r.outputs = r'.outputs
  fields : R r.fields r'.fields

/-- Calls of the same aggregate under the same key, over fields that correspond. -/
structure CallsAlongside (R : List F → List F → Prop) (c c' : ReducerCall F K) : Prop where
  op : c.op = c'.op
  key : c.key = c'.key
  fields : R c.fields c'.fields

theorem Alongside.addCall {r r' : Reducer F} (h : r.Alongside R r') (removing : Bool) (index : Nat)
    (op : AggregateOp) :
    (r.addCall removing index op).Alongside R (r'.addCall removing index op) := by
  refine ⟨?_, ?_, h.fields⟩
  · show withOps r.ops _ = withOps r'.ops _
    rw [h.ops]
  · show r.outputs ++ [(index, ((withOps r.ops _).findIdx? _).getD 0)]
      = r'.outputs ++ [(index, ((withOps r'.ops _).findIdx? _).getD 0)]
    rw [h.ops, h.outputs]

theorem alongside_place (sameKey : K → K → Bool) (removing : Bool) (index : Nat)
    {c c' : ReducerCall F K} (hc : CallsAlongside R c c') {rs rs' : List (K × Reducer F)}
    (hrs : List.Forall₂ (fun e e' => e.1 = e'.1 ∧ e.2.Alongside R e'.2) rs rs') :
    List.Forall₂ (fun e e' => e.1 = e'.1 ∧ e.2.Alongside R e'.2)
      (place sameKey removing index c rs) (place sameKey removing index c' rs') := by
  induction hrs with
  | nil =>
    have hempty : Alongside R ⟨c.fields, [], []⟩ ⟨c'.fields, [], []⟩ := ⟨rfl, rfl, hc.fields⟩
    rw [place, place, hc.op]
    exact .cons ⟨hc.key, hempty.addCall removing index c'.op⟩ .nil
  | @cons e e' rest rest' he hrest ih =>
    obtain ⟨key, r⟩ := e
    obtain ⟨key', r'⟩ := e'
    obtain ⟨rfl, hr⟩ := he
    rw [place, place, hc.key, hc.op]
    split
    next => exact .cons ⟨rfl, Alongside.addCall hr removing index c'.op⟩ hrest
    next => exact .cons ⟨rfl, hr⟩ ih

/-- Calls that correspond share reducers that do. -/
theorem alongside_build (sameKey : K → K → Bool) (removing : Bool)
    {calls calls' : List (ReducerCall F K)} (h : List.Forall₂ (CallsAlongside R) calls calls') :
    List.Forall₂ (Alongside R) (build sameKey removing calls) (build sameKey removing calls') := by
  unfold build
  rw [List.forall₂_map_left_iff, List.forall₂_map_right_iff]
  -- the keys are the same as well, so calls are placed alike
  refine List.Forall₂.imp
    (R := fun e e' : K × Reducer F => e.1 = e'.1 ∧ e.2.Alongside R e'.2) (fun _ _ he => he.2)
    (List.rel_foldl ?_ .nil (forall₂_zipIdx h 0))
  rintro rs rs' hrs ⟨c, i⟩ ⟨c', i'⟩ ⟨hc, rfl⟩
  exact alongside_place sameKey removing i hc hrs

/-- Fields are only observed, so states do not depend on them. -/
theorem slideFrom_congr {N : Type} [Quantity N] {r r' : Reducer F} (h : r.ops = r'.ops)
    (rows : Array (List Value)) (s : AggregateState N) (held : Nat × Nat)
    (bounds : List (Nat × Nat)) :
    r.slideFrom rows s held bounds = r'.slideFrom rows s held bounds := by
  obtain ⟨fields, ops, outputs⟩ := r
  obtain ⟨fields', ops', outputs'⟩ := r'
  obtain rfl : ops = ops' := h
  induction bounds generalizing s held with
  | nil => rfl
  | cons frame later ih =>
    rw [slideFrom, slideFrom, ih]
    rfl

end Reducer

/-! ## Values at rows that correspond -/

open Resolve (SameAggregate SameWindow)

/-- Rows at which fields that evaluate alike have the same values. -/
def RowsCorrespond (k : Comparison) (pairs : List (Nat × Nat)) : Prop :=
  ∀ p ∈ pairs, k.envs true ⟨.row p.1, Env.noResults⟩ ⟨.row p.2, Env.noResults⟩

variable {k : Comparison} {pairs ps : List (Nat × Nat)}

theorem RowsCorrespond.subset (h : RowsCorrespond k pairs) (hps : ∀ p ∈ ps, p ∈ pairs) :
    RowsCorrespond k ps := fun p hp => h p (hps p hp)

theorem RowsCorrespond.evalRow (h : RowsCorrespond k pairs) {f f' : Formula}
    (hf : f.SameIn (k.envs true) f') {p : Nat × Nat} (hp : p ∈ pairs) :
    f.evalRow Env.noResults p.1 = f'.evalRow Env.noResults p.2 := hf.eval (h p hp)

theorem RowsCorrespond.evalKey (h : RowsCorrespond k pairs) {fs fs' : List Formula}
    (hfs : List.Forall₂ (Formula.SameIn (k.envs true)) fs fs') {p : Nat × Nat} (hp : p ∈ pairs) :
    Formula.evalKey fs p.1 = Formula.evalKey fs' p.2 :=
  mapM_of_forall₂ (hfs.imp fun _ _ hf => h.evalRow hf hp)

/-- Reducers over fields that evaluate alike. -/
abbrev SameReducer (k : Comparison) : Reducer Formula → Reducer Formula → Prop :=
  Reducer.Alongside (List.Forall₂ (Formula.SameIn (k.envs true)))

/-- They take in the same. -/
theorem RowsCorrespond.observe (h : RowsCorrespond k pairs) {r r' : Reducer Formula}
    (hr : SameReducer k r r') :
    (pairs.map (·.1)).mapM r.observe = (pairs.map (·.2)).mapM r'.observe :=
  mapM_pairs fun _ hp => h.evalKey hr.fields hp

namespace View

theorem groupValues_pairs (h : RowsCorrespond k pairs) {r r' : Reducer Formula}
    (hr : SameReducer k r r') :
    groupValues r (pairs.map (·.1)) = groupValues r' (pairs.map (·.2)) := by
  have hobserved := h.observe hr
  obtain ⟨fields, ops, outputs⟩ := r
  obtain ⟨fields', ops', outputs'⟩ := r'
  obtain ⟨hops, houtputs, -⟩ := hr
  obtain rfl : ops = ops' := hops
  obtain rfl : outputs = outputs' := houtputs
  unfold groupValues
  rw [hobserved]
  rfl

/-- Aggregate calls answer alike over rows that correspond. -/
theorem groupAnswers_pairs (h : RowsCorrespond k pairs) {calls calls' : List AggregateCall}
    (hcalls : List.Forall₂ (SameAggregate k) calls calls') :
    groupAnswers calls (pairs.map (·.1)) = groupAnswers calls' (pairs.map (·.2)) := by
  have hreducers : List.Forall₂ (SameReducer k)
      (Reducer.build Node.sameList false (calls.map AggregateCall.reducerCall))
      (Reducer.build Node.sameList false (calls'.map AggregateCall.reducerCall)) := by
    refine Reducer.alongside_build _ _ ?_
    rw [List.forall₂_map_left_iff, List.forall₂_map_right_iff]
    refine hcalls.imp fun c c' hc => ⟨?_, hc.key, hc.fields⟩
    show AggregateOp.mk c.aggregate c.params = ⟨c'.aggregate, c'.params⟩
    rw [hc.aggregate, hc.params]
  unfold groupAnswers
  dsimp only
  rw [mapM_of_forall₂ (hreducers.imp fun _ _ hr => groupValues_pairs h hr)]

end View

/-! ## Window calls -/

namespace WindowStream

/-- Streams of the same frame and calls. -/
structure Alongside (k : Comparison) (w w' : WindowStream) : Prop where
  frame : w.frame = w'.frame
  members : w.members = w'.members
  reducers : List.Forall₂ (SameReducer k) w.reducers w'.reducers

/-- Calls over a frame that correspond. -/
def FramedAlongside (k : Comparison) (e e' : Frame × Nat × ReducerCall Formula (List Node)) :
    Prop :=
  e.1 = e'.1 ∧ e.2.1 = e'.2.1 ∧
    Reducer.CallsAlongside (List.Forall₂ (Formula.SameIn (k.envs true))) e.2.2 e'.2.2

theorem alongside_framed? {e e' : WindowCall × Nat} (h : SameWindow k e.1 e'.1 ∧ e.2 = e'.2) :
    Option.Rel (FramedAlongside k) (framed? e) (framed? e') := by
  obtain ⟨c, i⟩ := e
  obtain ⟨c', i'⟩ := e'
  obtain ⟨hc, rfl⟩ := h
  unfold framed?
  dsimp only
  rw [hc.operator, hc.frame, hc.params]
  cases c'.operator with
  | aggregate a => exact .some ⟨rfl, rfl, rfl, hc.key, hc.fields⟩
  | function f => exact .none

theorem alongside_ofCalls {calls calls' : List WindowCall}
    (h : List.Forall₂ (SameWindow k) calls calls') :
    List.Forall₂ (Alongside k) (ofCalls calls) (ofCalls calls') := by
  have hframed : List.Forall₂ (FramedAlongside k) (calls.zipIdx.filterMap framed?)
      (calls'.zipIdx.filterMap framed?) :=
    List.rel_filterMap (fun _ _ he => alongside_framed? he) (forall₂_zipIdx h 0)
  have hframes : ∀ {xs ys}, List.Forall₂ (FramedAlongside k) xs ys →
      xs.map (·.1) = ys.map (·.1) ∧ (xs.map (·.2)).map (·.1) = (ys.map (·.2)).map (·.1) ∧
      List.Forall₂ (Reducer.CallsAlongside (List.Forall₂ (Formula.SameIn (k.envs true))))
        ((xs.map (·.2)).map (·.2)) ((ys.map (·.2)).map (·.2)) := by
    intro xs ys hxy
    induction hxy with
    | nil => exact ⟨rfl, rfl, .nil⟩
    | cons he _ ih =>
      exact ⟨congrArg₂ List.cons he.1 ih.1, congrArg₂ List.cons he.2.1 ih.2.1, .cons he.2.2 ih.2.2⟩
  unfold ofCalls
  dsimp only
  rw [(hframes hframed).1, List.forall₂_map_left_iff, List.forall₂_map_right_iff, List.forall₂_same]
  intro frame _
  have hown := hframes (List.rel_filter (p := (·.1 == frame)) (q := (·.1 == frame))
    (fun e e' he => iff_of_eq (congrArg (fun f => (f == frame) = true) he.1)) hframed)
  exact ⟨rfl, hown.2.1, Reducer.alongside_build _ _ hown.2.2⟩

theorem reducerValues_pairs (h : RowsCorrespond k pairs) {w w' : WindowStream}
    (hw : w.members = w'.members) (bounds : List (Nat × Nat)) {r r' : Reducer Formula}
    (hr : SameReducer k r r') :
    w.reducerValues bounds (pairs.map (·.1)) r = w'.reducerValues bounds (pairs.map (·.2)) r' := by
  have hvalue : r.valueAt = r'.valueAt := by
    funext s place
    rw [Reducer.valueAt, Reducer.valueAt, hr.ops]
  have hslide : ∀ rows : Array (List Value),
      (r.slide rows bounds : List (AggregateState Float)) = r'.slide rows bounds := by
    intro rows
    rw [Reducer.slide, Reducer.slide, Reducer.slideFrom_congr hr.ops, Reducer.start, Reducer.start,
      hr.ops]
  unfold reducerValues
  simp only [h.observe hr, hw, hr.outputs, hvalue, hslide]

theorem values_pairs (h : RowsCorrespond k pairs) {w w' : WindowStream} (hw : w.Alongside k w')
    (peers : Peers) : w.values peers (pairs.map (·.1)) = w'.values peers (pairs.map (·.2)) := by
  unfold values
  rw [hw.frame, mapM_of_forall₂ (hw.reducers.imp fun _ _ hr =>
    reducerValues_pairs h hw.members (w'.frame.allBounds peers) hr)]

end WindowStream

theorem WindowCall.functionValues_pairs (h : RowsCorrespond k pairs) {e e' : WindowCall × Nat}
    (he : SameWindow k e.1 e'.1 ∧ e.2 = e'.2) (peers : Peers) :
    functionValues peers (pairs.map (·.1)) e = functionValues peers (pairs.map (·.2)) e' := by
  obtain ⟨c, i⟩ := e
  obtain ⟨c', i'⟩ := e'
  obtain ⟨hc, rfl⟩ := he
  have hfields : c.fields.mapM (fun f => (pairs.map (·.1)).mapM (f.evalRow Env.noResults))
      = c'.fields.mapM fun f => (pairs.map (·.2)).mapM (f.evalRow Env.noResults) :=
    mapM_of_forall₂ (hc.fields.imp fun _ _ hf => mapM_pairs fun _ hp => h.evalRow hf hp)
  unfold functionValues
  dsimp only
  rw [hc.operator, hfields, hc.params, hc.frame]

namespace View

/-! ## Aligned views -/

/-- The rows of two views in order correspond one by one, in the same groups and with the same
    ties. -/
structure Aligned (v w : View) (pairs : List (Nat × Nat)) : Prop where
  sorted : v.sorted = some (pairs.map (·.1))
  sorted' : w.sorted = some (pairs.map (·.2))
  keys : v.groups.map (fun g => (g.shown.names, g.shown.size, g.shown.values))
    = w.groups.map fun g => (g.shown.names, g.shown.size, g.shown.values)
  groupOf : ∀ p ∈ pairs, v.groupOf p.1 = w.groupOf p.2
  peers : ∀ ps : List (Nat × Nat), (∀ p ∈ ps, p ∈ pairs) →
    v.peers (ps.map (·.1)) = w.peers (ps.map (·.2))

variable {v w : View}

theorem Aligned.groupCount (h : v.Aligned w pairs) : v.groupCount = w.groupCount := by
  have hkeys := h.keys
  unfold View.groupCount
  cases hv : v.groups with
  | none =>
    cases hw : w.groups with
    | none => rfl
    | some g => simp [hv, hw] at hkeys
  | some g =>
    cases hw : w.groups with
    | none => simp [hv, hw] at hkeys
    | some g' =>
      rw [hv, hw] at hkeys
      exact congrArg (fun e => e.2.1) (Option.some.inj hkeys)

/-- The rows that correspond in a group. -/
def pairsOf (v : View) (pairs : List (Nat × Nat)) (g : Nat) : List (Nat × Nat) :=
  pairs.filter fun p => v.groupOf p.1 == some g

theorem pairsOf_subset (v : View) (pairs : List (Nat × Nat)) (g : Nat) :
    ∀ p ∈ v.pairsOf pairs g, p ∈ pairs := fun _ hp => (List.mem_filter.1 hp).1

theorem Aligned.split (h : v.Aligned w pairs) :
    v.split (pairs.map (·.1))
        = (List.range v.groupCount).map (fun g => (v.pairsOf pairs g).map (·.1)) ∧
      w.split (pairs.map (·.2))
        = (List.range v.groupCount).map fun g => (v.pairsOf pairs g).map (·.2) := by
  unfold View.split
  rw [← h.groupCount]
  constructor
  · refine List.map_congr_left fun g _ => ?_
    rw [List.filter_map]
    rfl
  · refine List.map_congr_left fun g _ => ?_
    rw [List.filter_map]
    refine congrArg (List.map _) (List.filter_congr fun p hp => ?_)
    rw [h.groupOf p hp]
    rfl

/-- Aggregates have the same results in every group. -/
theorem Aligned.aggregates_eq (h : v.Aligned w pairs) (hrows : RowsCorrespond k pairs)
    {calls calls' : List AggregateCall} (hcalls : List.Forall₂ (SameAggregate k) calls calls') :
    v.aggregates calls = w.aggregates calls' := by
  have hempty : calls.isEmpty = calls'.isEmpty := by cases hcalls <;> rfl
  have hgrouped : ((pairs.map (·.1)).all fun row => (v.groupOf row).isSome)
      = (pairs.map (·.2)).all fun row => (w.groupOf row).isSome := by
    rw [List.all_map, List.all_map, Bool.eq_iff_iff, List.all_eq_true, List.all_eq_true]
    refine forall₂_congr fun p hp => ?_
    rw [Function.comp_apply, Function.comp_apply, h.groupOf p hp]
  have hanswers : (v.split (pairs.map (·.1))).mapM (groupAnswers calls)
      = (w.split (pairs.map (·.2))).mapM (groupAnswers calls') := by
    rw [h.split.1, h.split.2]
    refine mapM_of_forall₂ ?_
    rw [List.forall₂_map_left_iff, List.forall₂_map_right_iff, List.forall₂_same]
    intro g _
    exact groupAnswers_pairs (hrows.subset (v.pairsOf_subset pairs g)) hcalls
  unfold View.aggregates
  rw [hempty, h.sorted, h.sorted', hcalls.length_eq]
  split
  next => rfl
  next =>
    rw [Option.bind_eq_bind, Option.bind_some, Option.bind_eq_bind, Option.bind_some, hgrouped]
    refine congrArg _ (funext fun _ => ?_)
    exact congrArg (fun groups => Option.bind groups _) hanswers

/-- Window calls answer alike over rows that correspond. -/
theorem Aligned.partitionValues_pairs (h : v.Aligned w pairs) (hrows : RowsCorrespond k pairs)
    (hps : ∀ p ∈ ps, p ∈ pairs) {calls calls' : List WindowCall}
    (hcalls : List.Forall₂ (SameWindow k) calls calls') :
    v.partitionValues calls (ps.map (·.1)) = w.partitionValues calls' (ps.map (·.2)) := by
  have hrows := hrows.subset hps
  unfold View.partitionValues
  dsimp only
  rw [h.peers ps hps, mapM_of_forall₂ ((WindowStream.alongside_ofCalls hcalls).imp fun _ _ hw =>
      WindowStream.values_pairs hrows hw (w.peers (ps.map (·.2)))),
    mapM_of_forall₂ ((forall₂_zipIdx hcalls 0).imp fun _ _ he =>
      WindowCall.functionValues_pairs hrows he (w.peers (ps.map (·.2))))]

/-- The rows that correspond in a group are a partition on both sides. -/
theorem Aligned.partitions (h : v.Aligned w pairs) {g : Nat} (hg : g < v.groupCount) :
    (∀ parts, v.partitions true = some parts → (v.pairsOf pairs g).map (·.1) ∈ parts) ∧
      ∀ parts, w.partitions true = some parts → (v.pairsOf pairs g).map (·.2) ∈ parts := by
  have hindices : v.indices true = some (pairs.map (·.1)) := h.sorted
  have hindices' : w.indices true = some (pairs.map (·.2)) := h.sorted'
  unfold View.partitions
  rw [hindices, hindices', Option.map_some, Option.map_some, h.split.1, h.split.2]
  constructor
  · rintro parts ⟨⟩
    exact List.mem_map.2 ⟨g, List.mem_range.2 hg, rfl⟩
  · rintro parts ⟨⟩
    exact List.mem_map.2 ⟨g, List.mem_range.2 hg, rfl⟩

variable {key key' : RowKey}

/-- A view is aligned with the same view of a table that has as many rows. -/
theorem Sound.aligned_withData (hv : v.Sound key) {t : Table} (hrows : t.rowCount = v.totalRows) :
    ∃ rows, v.sorted = some rows ∧ v.Aligned (v.withData t) (rows.map fun row => (row, row)) := by
  obtain ⟨rows, hsorted, -⟩ := hv.exists_sorted
  have hfst : (rows.map fun row => (row, row)).map (·.1) = rows := by
    rw [List.map_map]
    exact List.map_id rows
  have hsnd : (rows.map fun row => (row, row)).map (·.2) = rows := by
    rw [List.map_map]
    exact List.map_id rows
  refine ⟨rows, hsorted, ?_, ?_, rfl, fun p hp => ?_, fun ps hps => ?_⟩
  · rw [hfst, hsorted]
  · rw [hsnd, sorted_withData hrows, hsorted]
  · obtain ⟨row, -, rfl⟩ := List.mem_map.1 hp
    rfl
  · have hsame : ps.map (·.1) = ps.map (·.2) := by
      refine List.map_congr_left fun p hp => ?_
      obtain ⟨row, -, rfl⟩ := List.mem_map.1 (hps p hp)
      rfl
    rw [hsame]
    rfl

/-- Window calls have the same results at rows that correspond. -/
theorem Aligned.windows_eq (h : v.Aligned w pairs) (hv : v.Sound key) (hw : w.Sound key')
    (hrows : RowsCorrespond k pairs) {aggregates aggregates' : List AggregateCall}
    {calls calls' : List WindowCall} (hregistered : Registered [v.data] aggregates calls)
    (hregistered' : Registered [w.data] aggregates' calls')
    (hcalls : List.Forall₂ (SameWindow k) calls calls') :
    ∃ results results', v.windows calls = some results ∧ w.windows calls' = some results' ∧
      results.length = calls.length ∧ results'.length = calls.length ∧
      ∀ n < calls.length, ∀ p ∈ pairs, ∃ (cells cells' : Array Value) (x : Value),
        results[n]? = some cells ∧ results'[n]? = some cells' ∧
        cells[p.1]? = some x ∧ cells'[p.2]? = some x := by
  obtain ⟨parts, results, hparts, hresults, hlength, hcells⟩ := hv.windows_cells hregistered
  obtain ⟨parts', results', hparts', hresults', hlength', hcells'⟩ := hw.windows_cells hregistered'
  rw [← hcalls.length_eq] at hlength' hcells'
  refine ⟨results, results', hresults, hresults', hlength, hlength', fun n hn p hp => ?_⟩
  have hvisible : p.1 ∈ v.visible :=
    (perm_of_sorted h.sorted).mem_iff.1 (List.mem_map_of_mem hp)
  obtain ⟨g, hg, hgroup⟩ := hv.exists_groupOf hvisible
  have hmem : p ∈ v.pairsOf pairs g := List.mem_filter.2 ⟨hp, beq_iff_eq.2 hgroup⟩
  obtain ⟨i, hi⟩ := List.mem_iff_getElem?.1 hmem
  obtain ⟨hpart, hpart'⟩ := h.partitions hg
  obtain ⟨entries, hentries, hcells⟩ := hcells _ (hpart parts hparts)
    (List.ne_nil_of_mem (List.mem_map_of_mem hmem))
  obtain ⟨entries', hentries', hcells'⟩ := hcells' _ (hpart' parts' hparts')
    (List.ne_nil_of_mem (List.mem_map_of_mem hmem))
  -- both partitions answer alike
  rw [h.partitionValues_pairs hrows (v.pairsOf_subset pairs g) hcalls, hentries'] at hentries
  obtain rfl := Option.some.inj hentries
  obtain ⟨cells, hcells, hat⟩ := hcells n hn
  obtain ⟨cells', hcells', hat'⟩ := hcells' n hn
  exact ⟨cells, cells', _, hcells, hcells', hat i p.1 (by rw [List.getElem?_map, hi]; rfl),
    hat' i p.2 (by rw [List.getElem?_map, hi]; rfl)⟩

/-- Calls have results on both sides, which are read alike in groups of the same number and at rows
    that correspond. -/
theorem Aligned.operators_eq (h : v.Aligned w pairs) (hv : v.Sound key) (hw : w.Sound key')
    (hrows : RowsCorrespond k pairs) {r r' : Resolution}
    (hregistered : Registered [v.data] r.aggregates r.windows)
    (hregistered' : Registered [w.data] r'.aggregates r'.windows)
    (haggregates : List.Forall₂ (SameAggregate k) r.aggregates r'.aggregates)
    (hwindows : List.Forall₂ (SameWindow k) r.windows r'.windows)
    (group group' : Nat → Option Nat) :
    ∃ results results', v.operators r group = some results ∧
      w.operators r' group' = some results' ∧
      (∀ a b n, group a = group' b →
        results.read (.aggregate n) a = results'.read (.aggregate n) b) ∧
      ∀ p ∈ pairs, ∀ n, results.read (.window n) p.1 = results'.read (.window n) p.2 := by
  obtain ⟨-, aggregates, -, hresults, -⟩ := hv.aggregates_cells hregistered
  obtain ⟨windows, windows', hwindows, hwindows', hlength, hlength', hcells⟩ :=
    h.windows_eq hv hw hrows hregistered hregistered' hwindows
  have hresults' : w.aggregates r'.aggregates = some aggregates := by
    rw [← h.aggregates_eq hrows haggregates, hresults]
  refine ⟨⟨aggregates, windows, group⟩, ⟨aggregates, windows', group'⟩,
    View.operators_eq hresults hwindows group, View.operators_eq hresults' hwindows' group', ?_, ?_⟩
  · intro a b n hgroup
    unfold OperatorResults.read
    dsimp only
    rw [hgroup]
  · intro p hp n
    by_cases hn : n < r.windows.length
    · obtain ⟨cells, cells', x, hn', hn'', hx, hx'⟩ := hcells n hn p hp
      rw [read_window hn' hx, read_window hn'' hx']
    · rw [read_window_of_le (by dsimp only; omega), read_window_of_le (by dsimp only; omega)]

end View

end ColumnQuery
