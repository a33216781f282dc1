/-
  Places of operator calls.

  Resolution keeps the calls of operators in lists, and a formula refers to a call by its place.
  Registration never fails (`run_registerAggregateAt`, `run_registerWindow`): the call is put at
  the end of its list unless the same call is there already, and its place is that of the first
  call that is the same. So lists only grow at their ends (`Later`), and a place that is given out
  stays the place of the same call (`Later.placeOf_eq`).
-/
import ColumnQuery.Formula.Resolve
import ColumnQuery.Proofs.Syntax.Same
import ColumnQuery.Proofs.Value.Same

namespace ColumnQuery

/-! ## Lists without doubles -/

/-- A list with one more entry at its end, unless an entry has a property already. -/
def addUnless {α : Type} (p : α → Bool) (x : α) (xs : List α) : List α :=
  if xs.any p then xs else xs ++ [x]

section AddUnless

variable {α : Type} {p : α → Bool} {x : α} {xs ys : List α}

theorem addUnless_of_any (h : xs.any p = true) : addUnless p x xs = xs := if_pos h

theorem addUnless_of_not_any (h : xs.any p = false) : addUnless p x xs = xs ++ [x] :=
  if_neg (Bool.eq_false_iff.1 h)

theorem mem_addUnless {y : α} (h : y ∈ addUnless p x xs) : y ∈ xs ∨ y = x := by
  unfold addUnless at h
  split at h
  next => exact .inl h
  next => exact (List.mem_append.1 h).imp_right List.mem_singleton.1

theorem any_of_any_addUnless {q : α → Bool} (h : (addUnless p x xs).any q = true) :
    xs.any q = true ∨ q x = true := by
  obtain ⟨y, hy, hq⟩ := List.any_eq_true.1 h
  rcases mem_addUnless hy with hy | rfl
  · exact .inl (List.any_eq_true.2 ⟨y, hy, hq⟩)
  · exact .inr hq

theorem pairwise_addUnless {r : α → α → Prop} (hxs : xs.Pairwise r)
    (hx : ∀ y ∈ xs, p y = false → r y x) : (addUnless p x xs).Pairwise r := by
  cases hany : xs.any p with
  | true => rwa [addUnless_of_any hany]
  | false =>
    rw [addUnless_of_not_any hany]
    refine List.pairwise_append.2 ⟨hxs, List.pairwise_singleton r x, fun y hy z hz => ?_⟩
    rw [List.mem_singleton.1 hz]
    exact hx y hy (Bool.eq_false_iff.2 (List.any_eq_false.1 hany y hy))

theorem prefix_addUnless : xs <+: addUnless p x xs := by
  unfold addUnless
  split
  · exact List.prefix_refl xs
  · exact List.prefix_append xs [x]

theorem findIdx_eq_of_any (hany : xs.any p = true) (h : xs <+: ys) :
    ys.findIdx p = xs.findIdx p := by
  obtain ⟨zs, rfl⟩ := h
  obtain ⟨y, hy, hp⟩ := List.any_eq_true.1 hany
  rw [List.findIdx_append, if_pos (List.findIdx_lt_length_of_exists ⟨y, hy, hp⟩)]

theorem any_addUnless (hx : p x = true) : (addUnless p x xs).any p = true := by
  unfold addUnless
  split
  next h => exact h
  next => simp [hx]

theorem findIdx_addUnless (hx : p x = true) : (addUnless p x xs).findIdx p = xs.findIdx p := by
  unfold addUnless
  split
  next => rfl
  next h =>
    have hall : ∀ y ∈ xs, p y = false := by
      simpa using h
    rw [List.findIdx_append, List.findIdx_eq_length_of_false hall]
    simp [hx]

theorem findIdx_lt_addUnless (hx : p x = true) :
    xs.findIdx p < (addUnless p x xs).length := by
  rw [← findIdx_addUnless hx]
  have hany : (addUnless p x xs).any p = true := any_addUnless hx
  obtain ⟨y, hy, hp⟩ := List.any_eq_true.1 hany
  exact List.findIdx_lt_length_of_exists ⟨y, hy, hp⟩

theorem any_of_findIdx? {i : Nat} (h : xs.findIdx? p = some i) :
    xs.any p = true ∧ i = xs.findIdx p := by
  obtain ⟨hi, rfl⟩ := List.findIdx?_eq_some_iff_findIdx_eq.1 h
  exact ⟨List.any_eq_true.2 ⟨_, List.getElem_mem hi, List.findIdx_getElem⟩, rfl⟩

theorem any_of_findIdx?_eq_none (h : xs.findIdx? p = none) :
    xs.any p = false ∧ xs.findIdx p = xs.length := by
  have hall := List.findIdx?_eq_none_iff.1 h
  exact ⟨List.any_eq_false.2 fun y hy => Bool.eq_false_iff.1 (hall y hy),
    List.findIdx_eq_length_of_false hall⟩

end AddUnless

/-! ## Calls of either kind -/

/-- A call of an aggregate over whole groups, or one over partitions. -/
inductive OperatorCall where
  | aggregate (c : AggregateCall)
  | window (c : WindowCall)

/-- One and the same call. -/
def AggregateCall.Same (c d : AggregateCall) : Prop :=
  c.aggregate = d.aggregate ∧ Node.sameList c.key d.key = true ∧
    Value.sameItems c.params d.params = true

def WindowCall.Same (c d : WindowCall) : Prop :=
  c.operator = d.operator ∧ Node.sameList c.key d.key = true ∧
    Value.sameItems c.params d.params = true ∧ c.frame = d.frame

/-- Whether another call is the same. -/
def AggregateCall.sameAs (c d : AggregateCall) : Bool :=
  d.aggregate == c.aggregate && Node.sameList d.key c.key && Value.sameItems d.params c.params

def WindowCall.sameAs (c d : WindowCall) : Bool :=
  d.operator == c.operator && Node.sameList d.key c.key && Value.sameItems d.params c.params
    && d.frame == c.frame

theorem AggregateCall.sameAs_iff {c d : AggregateCall} : c.sameAs d = true ↔ d.Same c := by
  unfold sameAs Same
  rw [Bool.and_eq_true, Bool.and_eq_true, beq_iff_eq, and_assoc]

theorem WindowCall.sameAs_iff {c d : WindowCall} : c.sameAs d = true ↔ d.Same c := by
  unfold sameAs Same
  rw [Bool.and_eq_true, Bool.and_eq_true, Bool.and_eq_true, beq_iff_eq, beq_iff_eq, and_assoc,
    and_assoc]

theorem AggregateCall.sameAs_refl (c : AggregateCall) : c.sameAs c = true :=
  sameAs_iff.2 ⟨rfl, Node.equivalence_sameList.refl c.key, Value.sameItems_refl c.params⟩

theorem WindowCall.sameAs_refl (c : WindowCall) : c.sameAs c = true :=
  sameAs_iff.2 ⟨rfl, Node.equivalence_sameList.refl c.key, Value.sameItems_refl c.params, rfl⟩

namespace Resolve.Operands

/-- What a call of an aggregate under a frame becomes. -/
def aggregateCall (o : Operands) (frame : Option Frame) (a : Aggregate) : OperatorCall :=
  match frame with
  | some frame => .window ⟨.aggregate a, o.formulas, o.key, o.values, frame⟩
  | none => .aggregate ⟨a, o.formulas, o.key, o.values⟩

/-- What a call of a window function under a frame becomes. -/
def windowCall (o : Operands) (frame : Option Frame) (w : WindowFunction) : OperatorCall :=
  .window ⟨.function w, o.formulas, o.key, o.values, frame.getD .whole⟩

end Resolve.Operands

namespace ResolveState

/-- The place of a call: that of the first call that is the same, or the end. -/
def placeOf (s : ResolveState) : OperatorCall → OpRef
  | .aggregate c => .aggregate (s.aggregates.findIdx c.sameAs)
  | .window c => .window (s.windows.findIdx c.sameAs)

/-- The state with a call registered. -/
def register (s : ResolveState) : OperatorCall → ResolveState
  | .aggregate c => { s with aggregates := addUnless c.sameAs c s.aggregates }
  | .window c => { s with windows := addUnless c.sameAs c s.windows }

/-- A call is registered, or the same one is. -/
def Has (s : ResolveState) : OperatorCall → Prop
  | .aggregate c => s.aggregates.any c.sameAs = true
  | .window c => s.windows.any c.sameAs = true

/-- The lists of calls have grown at their ends, if at all. -/
structure Later (s t : ResolveState) : Prop where
  aggregates : s.aggregates <+: t.aggregates
  windows : s.windows <+: t.windows

@[simp] theorem locals_register (s : ResolveState) (c : OperatorCall) :
    (s.register c).locals = s.locals := by
  cases c <;> rfl

@[simp] theorem nextSlot_register (s : ResolveState) (c : OperatorCall) :
    (s.register c).nextSlot = s.nextSlot := by
  cases c <;> rfl

variable {s t u : ResolveState} {c : OperatorCall}

theorem later_of_eq (haggregates : s.aggregates = t.aggregates) (hwindows : s.windows = t.windows) :
    Later s t :=
  ⟨haggregates ▸ List.prefix_refl _, hwindows ▸ List.prefix_refl _⟩

theorem Later.refl (s : ResolveState) : Later s s := later_of_eq rfl rfl

theorem later_leave (s : ResolveState) : Later s s.leave := later_of_eq rfl rfl

theorem later_declare (s : ResolveState) (name : String) : Later s (s.declare name) :=
  later_of_eq rfl rfl

theorem Later.trans (h : Later s t) (h' : Later t u) : Later s u :=
  ⟨h.aggregates.trans h'.aggregates, h.windows.trans h'.windows⟩

theorem later_register (s : ResolveState) (c : OperatorCall) : Later s (s.register c) := by
  cases c with
  | aggregate c => exact ⟨prefix_addUnless, List.prefix_refl _⟩
  | window c => exact ⟨List.prefix_refl _, prefix_addUnless⟩

theorem register_of_has (h : s.Has c) : s.register c = s := by
  cases c with
  | aggregate c => rw [register, addUnless_of_any h]
  | window c => rw [register, addUnless_of_any h]

theorem has_register (s : ResolveState) (c : OperatorCall) : (s.register c).Has c := by
  cases c with
  | aggregate c => exact any_addUnless c.sameAs_refl
  | window c => exact any_addUnless c.sameAs_refl

theorem placeOf_register (s : ResolveState) (c : OperatorCall) :
    (s.register c).placeOf c = s.placeOf c := by
  cases c with
  | aggregate c => exact congrArg OpRef.aggregate (findIdx_addUnless c.sameAs_refl)
  | window c => exact congrArg OpRef.window (findIdx_addUnless c.sameAs_refl)

/-- The place of a registered call stays. -/
theorem Later.placeOf_eq (h : Later s t) (hc : s.Has c) : t.placeOf c = s.placeOf c := by
  cases c with
  | aggregate c => exact congrArg OpRef.aggregate (findIdx_eq_of_any hc h.aggregates)
  | window c => exact congrArg OpRef.window (findIdx_eq_of_any hc h.windows)

end ResolveState

/-! ## Registration -/

namespace Resolve

/-- An aggregate over whole groups is registered. -/
theorem run_registerAggregate (s : ResolveState) (a : Aggregate) (o : Operands) :
    (registerAggregate a o).run s
      = .ok (s.placeOf (o.aggregateCall none a), s.register (o.aggregateCall none a)) := by
  unfold registerAggregate
  rw [StateT.run_bind, StateT.run_get, pure_bind]
  split
  next i hi =>
    obtain ⟨hany, rfl⟩ := any_of_findIdx? hi
    have hhas : s.Has (o.aggregateCall none a) := hany
    rw [ResolveState.register_of_has hhas]
    rfl
  next hnone =>
    obtain ⟨hany, hplace⟩ := any_of_findIdx?_eq_none hnone
    replace hany : s.aggregates.any (AggregateCall.mk a o.formulas o.key o.values).sameAs
        = false := hany
    have hregister : s.register (o.aggregateCall none a)
        = { s with aggregates := s.aggregates ++ [⟨a, o.formulas, o.key, o.values⟩] } := by
      rw [Operands.aggregateCall, ResolveState.register, addUnless_of_not_any hany]
    have href : s.placeOf (o.aggregateCall none a) = .aggregate s.aggregates.length :=
      congrArg OpRef.aggregate hplace
    rw [hregister, href]
    rfl

/-- A call over partitions is registered. -/
theorem run_registerWindow (s : ResolveState) (w : WindowOperator) (o : Operands) (frame : Frame) :
    (registerWindow w o frame).run s
      = .ok (s.placeOf (.window ⟨w, o.formulas, o.key, o.values, frame⟩),
        s.register (.window ⟨w, o.formulas, o.key, o.values, frame⟩)) := by
  unfold registerWindow
  rw [StateT.run_bind, StateT.run_get, pure_bind]
  split
  next i hi =>
    obtain ⟨hany, rfl⟩ := any_of_findIdx? hi
    have hhas : s.Has (.window ⟨w, o.formulas, o.key, o.values, frame⟩) := hany
    rw [ResolveState.register_of_has hhas]
    rfl
  next hnone =>
    obtain ⟨hany, hplace⟩ := any_of_findIdx?_eq_none hnone
    replace hany : s.windows.any (WindowCall.mk w o.formulas o.key o.values frame).sameAs
        = false := hany
    have hregister : s.register (.window ⟨w, o.formulas, o.key, o.values, frame⟩)
        = { s with windows := s.windows ++ [⟨w, o.formulas, o.key, o.values, frame⟩] } := by
      rw [ResolveState.register, addUnless_of_not_any hany]
    have href : s.placeOf (.window ⟨w, o.formulas, o.key, o.values, frame⟩)
        = .window s.windows.length := congrArg OpRef.window hplace
    rw [hregister, href]
    rfl

theorem run_registerAggregateAt (site : Site) (s : ResolveState) (a : Aggregate) (o : Operands) :
    (registerAggregateAt site a o).run s
      = .ok (s.placeOf (o.aggregateCall site.frame a),
        s.register (o.aggregateCall site.frame a)) := by
  unfold registerAggregateAt
  cases site.frame with
  | none => exact run_registerAggregate s a o
  | some frame => exact run_registerWindow s (.aggregate a) o frame

end Resolve

end ColumnQuery
