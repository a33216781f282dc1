/-
  Fills carry the nearest valid value.

  A fill answers a position from what it knows: the one the last valid value so far, the other the
  next one, unless it has passed it. Both are kept true from position to position
  (`StepsBy.answer`), and are true at the start of a partition whatever the fill has gone over
  before (`StepsBy.start`). So over any partitions in turn a fill answers the value at the greatest
  valid position up to each position, or at the least one from there on, and its default if there
  is none (`stepsBy_fillDown`, `stepsBy_fillUp`, `StepsBy.overPartitions`).

  What is nearest from the one side is nearest from the other side in the reversed partition
  (`filledUp_reverse`), and there is one nearest value; so the one fill is the other one over the
  reversed partition (`overPartition_fillUp`).
-/
import ColumnQuery.Window.Fill
import Mathlib.Data.List.Forall2
import Mathlib.Order.Bounds.Basic

namespace ColumnQuery

open WindowFunction (fieldAt)

/-! ## Nearest valid values -/

/-- The field has a valid value at a position. -/
def ValidAt (field : Array Value) (j : Nat) : Prop := ∃ v, field[j]? = some v ∧ v.isValid = true

/-- The value at the greatest valid position up to a position, or else the default. -/
def FilledDown (default : Value) (field : Array Value) (i : Nat) (x : Value) : Prop :=
  (∃ j, IsGreatest {j | j ≤ i ∧ ValidAt field j} j ∧ field[j]? = some x) ∨
    (∀ j ≤ i, ¬ ValidAt field j) ∧ x = default

/-- The value at the least valid position from a position on, or else the default. -/
def FilledUp (default : Value) (field : Array Value) (i : Nat) (x : Value) : Prop :=
  (∃ j, IsLeast {j | i ≤ j ∧ ValidAt field j} j ∧ field[j]? = some x) ∨
    (∀ j, i ≤ j → ¬ ValidAt field j) ∧ x = default

section Nearest

variable {field : Array Value} {default x y : Value} {i j : Nat}

theorem ValidAt.lt_size (h : ValidAt field j) : j < field.size := by
  obtain ⟨v, hv, -⟩ := h
  exact (Array.getElem?_eq_some_iff.1 hv).1

theorem ValidAt.getElem?_eq (h : ValidAt field j) : field[j]? = some (fieldAt field j) := by
  obtain ⟨v, hv, -⟩ := h
  rw [fieldAt, hv]
  rfl

theorem validAt_iff : ValidAt field j ↔ (fieldAt field j).isValid = true := by
  unfold ValidAt fieldAt
  cases field[j]? with
  | none => simp [Value.isValid]
  | some v => simp

/-- There is one such value. -/
theorem FilledDown.unique (hx : FilledDown default field i x) (hy : FilledDown default field i y) :
    x = y := by
  rcases hx with ⟨j, hj, hx⟩ | ⟨hnone, rfl⟩ <;> rcases hy with ⟨k, hk, hy⟩ | ⟨hnone', rfl⟩
  · rw [hj.unique hk, hy] at hx
    exact (Option.some.inj hx).symm
  · exact absurd hj.1.2 (hnone' j hj.1.1)
  · exact absurd hk.1.2 (hnone k hk.1.1)
  · rfl

theorem FilledUp.unique (hx : FilledUp default field i x) (hy : FilledUp default field i y) :
    x = y := by
  rcases hx with ⟨j, hj, hx⟩ | ⟨hnone, rfl⟩ <;> rcases hy with ⟨k, hk, hy⟩ | ⟨hnone', rfl⟩
  · rw [hj.unique hk, hy] at hx
    exact (Option.some.inj hx).symm
  · exact absurd hj.1.2 (hnone' j hj.1.1)
  · exact absurd hk.1.2 (hnone k hk.1.1)
  · rfl

/-- Positions counted from the other end. -/
theorem validAt_reverse (hj : j < field.size) :
    ValidAt field.reverse (field.size - 1 - j) ↔ ValidAt field j := by
  unfold ValidAt
  rw [Array.getElem?_reverse (by omega), show field.size - 1 - (field.size - 1 - j) = j by omega]

/-- The nearest value from the one side is the nearest one from the other in the reversed
    partition. -/
theorem filledUp_reverse (hi : i < field.size)
    (h : FilledDown default field.reverse (field.size - 1 - i) x) :
    FilledUp default field i x := by
  rcases h with ⟨k, ⟨⟨hk, hvalid⟩, hgreatest⟩, hx⟩ | ⟨hnone, rfl⟩
  · have hlt := hvalid.lt_size
    rw [Array.size_reverse] at hlt
    have hback : field.size - 1 - (field.size - 1 - k) = k := by omega
    refine .inl ⟨field.size - 1 - k, ⟨⟨by omega, ?_⟩, fun j hj => ?_⟩, ?_⟩
    · rwa [← validAt_reverse (by omega), hback]
    · have hjlt := hj.2.lt_size
      have := hgreatest ⟨by have := hj.1; omega, (validAt_reverse hjlt).2 hj.2⟩
      omega
    · rwa [Array.getElem?_reverse hlt] at hx
  · refine .inr ⟨fun j hj hvalid => ?_, rfl⟩
    have hjlt := hvalid.lt_size
    exact hnone (field.size - 1 - j) (by omega) ((validAt_reverse hjlt).2 hvalid)

end Nearest

/-! ## Stepping through partitions -/

/-- What an operator of a kind knows before each position of a partition, and what it answers. -/
structure StepsBy (σ : Type) [Stepwise σ] (kind : σ → Prop) (knows : Array Value → Nat → σ → Prop)
    (filled : Array Value → Nat → Value → Prop) : Prop where
  start : ∀ field s, kind s → knows field 0 (Stepwise.begin s)
  answer : ∀ field i s, i < field.size → knows field i s →
    filled field i (Stepwise.answer s field i).1 ∧
      knows field (i + 1) (Stepwise.answer s field i).2
  keeps : ∀ field i s, knows field i s → kind s

namespace StepsBy

variable {σ : Type} [Stepwise σ] {kind : σ → Prop} {knows : Array Value → Nat → σ → Prop}
  {filled : Array Value → Nat → Value → Prop}

/-- Every position has its answer. -/
def Answers (filled : Array Value → Nat → Value → Prop) (field : Array Value) (xs : List Value) :
    Prop := xs.length = field.size ∧ ∀ i x, xs[i]? = some x → filled field i x

theorem answers_range (h : StepsBy σ kind knows filled) {field : Array Value} {n i : Nat} {s : σ}
    (hn : i + n ≤ field.size) (hs : knows field i s) :
    (Stepwise.answers s field (List.range' i n)).1.length = n ∧
    (∀ k x, (Stepwise.answers s field (List.range' i n)).1[k]? = some x → filled field (i + k) x) ∧
    knows field (i + n) (Stepwise.answers s field (List.range' i n)).2 := by
  induction n generalizing i s with
  | zero => exact ⟨rfl, nofun, hs⟩
  | succ n ih =>
    obtain ⟨hanswer, hnext⟩ := h.answer field i s (by omega) hs
    obtain ⟨hlength, hlater, hend⟩ := ih (i := i + 1) (by omega) hnext
    rw [List.range'_succ]
    refine ⟨congrArg (· + 1) hlength, fun k x hx => ?_, ?_⟩
    · cases k with
      | zero =>
        obtain rfl := Option.some.inj hx
        exact hanswer
      | succ k =>
        rw [show i + (k + 1) = i + 1 + k by omega]
        exact hlater k x hx
    · rw [show i + (n + 1) = i + 1 + n by omega]
      exact hend

theorem overPartition (h : StepsBy σ kind knows filled) (field : Array Value) {s : σ}
    (hs : kind s) : Answers filled field (Stepwise.overPartition s field).1 ∧
      kind (Stepwise.overPartition s field).2 := by
  obtain ⟨hlength, hanswers, hend⟩ := h.answers_range (n := field.size) (by omega)
    (h.start field s hs)
  unfold Stepwise.overPartition
  rw [List.range_eq_range']
  refine ⟨⟨hlength, fun i x hx => ?_⟩, h.keeps field _ _ hend⟩
  have := hanswers i x hx
  rwa [Nat.zero_add] at this

/-- Nothing is carried over from one partition to the next. -/
theorem overPartitions (h : StepsBy σ kind knows filled) (fields : List (Array Value)) {s : σ}
    (hs : kind s) : List.Forall₂ (Answers filled) fields (Stepwise.overPartitions s fields).1 := by
  induction fields generalizing s with
  | nil => exact .nil
  | cons field fields ih =>
    have hfirst : Answers filled field
        (if field.isEmpty then ([], s) else Stepwise.overPartition s field).1 ∧
          kind (if field.isEmpty then ([], s) else Stepwise.overPartition s field).2 := by
      split
      next hempty => exact ⟨⟨(Array.isEmpty_iff_size_eq_zero.1 hempty).symm, nofun⟩, hs⟩
      next => exact h.overPartition field hs
    exact .cons hfirst.1 (ih hfirst.2)

theorem exists_answers (h : StepsBy σ kind knows filled) {fields : List (Array Value)} {s : σ}
    (hs : kind s) {k : Nat} {field : Array Value} (hk : fields[k]? = some field) :
    ∃ xs, (Stepwise.overPartitions s fields).1[k]? = some xs ∧ Answers filled field xs := by
  obtain ⟨hlength, hanswers⟩ := List.forall₂_iff_get.1 (h.overPartitions fields hs)
  obtain ⟨hlt, rfl⟩ := List.getElem?_eq_some_iff.1 hk
  exact ⟨_, List.getElem?_eq_getElem (hlength ▸ hlt), hanswers k hlt (hlength ▸ hlt)⟩

end StepsBy

/-! ## Forward -/

/-- The last valid value before a position. -/
def FillDown.Knows (default : Value) (field : Array Value) (i : Nat) (s : FillDown) : Prop :=
  s.default = default ∧
    ((∃ j, IsGreatest {j | j < i ∧ ValidAt field j} j ∧ field[j]? = s.last) ∨
      (∀ j < i, ¬ ValidAt field j) ∧ s.last = none)

theorem stepsBy_fillDown (default : Value) :
    StepsBy FillDown (·.default = default) (FillDown.Knows default) (FilledDown default) where
  start _ _ hs := ⟨hs, .inr ⟨fun j hj => absurd hj (Nat.not_lt_zero j), rfl⟩⟩
  keeps _ _ _ h := h.1
  answer field i s _ h := by
    obtain ⟨rfl, hlast⟩ := h
    by_cases hvalid : ValidAt field i
    · have hanswer : Stepwise.answer s field i
          = (fieldAt field i, { s with last := some (fieldAt field i) }) :=
        if_pos (validAt_iff.1 hvalid)
      rw [hanswer]
      exact ⟨.inl ⟨i, ⟨⟨le_refl i, hvalid⟩, fun j hj => hj.1⟩, hvalid.getElem?_eq⟩, rfl,
        .inl ⟨i, ⟨⟨Nat.lt_succ_self i, hvalid⟩, fun j hj => Nat.le_of_lt_succ hj.1⟩,
          hvalid.getElem?_eq⟩⟩
    · have hanswer : Stepwise.answer s field i = (s.last.getD s.default, s) :=
        if_neg fun h => hvalid (validAt_iff.2 h)
      -- the position adds nothing to the valid ones before it
      have hset : {j | j ≤ i ∧ ValidAt field j} = {j | j < i ∧ ValidAt field j} := by
        ext j
        refine and_congr_left fun hj => ⟨fun hle => ?_, Nat.le_of_lt⟩
        exact Nat.lt_of_le_of_ne hle fun heq => hvalid (heq ▸ hj)
      have hset' : {j | j < i + 1 ∧ ValidAt field j} = {j | j < i ∧ ValidAt field j} := by
        rw [← hset]
        ext j
        exact and_congr_left fun _ => Nat.lt_succ_iff
      rw [hanswer]
      rcases hlast with ⟨j, hj, hfield⟩ | ⟨hnone, hlast⟩
      · refine ⟨.inl ⟨j, hset ▸ hj, ?_⟩, rfl, .inl ⟨j, hset' ▸ hj, hfield⟩⟩
        rw [← hfield, hj.1.2.getElem?_eq]
        rfl
      · have hnone' : ∀ j < i + 1, ¬ ValidAt field j := by
          intro j hj hjvalid
          have hmem : j ∈ {j | j < i + 1 ∧ ValidAt field j} := ⟨hj, hjvalid⟩
          rw [hset'] at hmem
          exact hnone j hmem.1 hjvalid
        refine ⟨.inr ⟨fun j hj => hnone' j (Nat.lt_succ_of_le hj), ?_⟩, rfl, .inr ⟨hnone', hlast⟩⟩
        rw [hlast]
        rfl

/-! ## Backward -/

namespace FillUp

variable {field : Array Value} {default : Value} {i : Nat} {s : FillUp}

/-- The next valid position from a position on, if any. -/
def IsNext (field : Array Value) (i : Nat) : Option Nat → Prop
  | some n => IsLeast {j | i ≤ j ∧ ValidAt field j} n
  | none => ∀ j, i ≤ j → ¬ ValidAt field j

theorem isNext_nextValid? (field : Array Value) (i : Nat) :
    IsNext field i (nextValid? field i) := by
  have hvalid : ∀ j, (field[j]?.any Value.isValid = true) ↔ ValidAt field j := by
    intro j
    unfold ValidAt
    cases field[j]? <;> simp
  unfold nextValid?
  cases hfind : (List.range' i (field.size - i)).find? fun j => field[j]?.any Value.isValid with
  | none =>
    intro j hj h
    have hlt := h.lt_size
    exact List.find?_eq_none.1 hfind j (List.mem_range'_1.2 ⟨hj, by omega⟩) ((hvalid j).2 h)
  | some n =>
    obtain ⟨hn, hmem, hbefore⟩ := List.find?_range'_eq_some.1 hfind
    refine ⟨⟨(List.mem_range'_1.1 hmem).1, (hvalid n).1 hn⟩, fun j hj => ?_⟩
    by_contra hlt
    have hskipped := hbefore j hj.1 (by omega)
    rw [(hvalid j).2 hj.2] at hskipped
    cases hskipped

/-- The next valid position from a position on is known. -/
def Looked (default : Value) (field : Array Value) (i : Nat) (s : FillUp) : Prop :=
  s.default = default ∧ (∀ n, s.next = some n → s.scanned = n) ∧ IsNext field i s.next

/-- The next valid position is known, unless it has been passed. -/
def Knows (default : Value) (field : Array Value) (i : Nat) (s : FillUp) : Prop :=
  s.default = default ∧ (∀ n, s.next = some n → s.scanned = n) ∧
    (s.passed i = true ∨ IsNext field i s.next)

theorem looked_look (s : FillUp) (field : Array Value) (i : Nat) :
    Looked s.default field i (s.look field i) := by
  refine ⟨rfl, fun n hn => ?_, isNext_nextValid? field i⟩
  have hnext : nextValid? field i = some n := hn
  show (nextValid? field i).getD field.size = n
  rw [hnext]
  rfl

theorem Knows.looked (h : Knows default field i s) :
    Looked default field i (s.lookAgain field i) := by
  obtain ⟨rfl, hscanned, hnext⟩ := h
  unfold lookAgain
  split
  next => exact looked_look s field i
  next hpassed => exact ⟨rfl, hscanned, hnext.resolve_left hpassed⟩

/-- What is known at a position is known at the one after it, unless it is passed there. -/
theorem Looked.knows_succ (h : Looked default field i s) : Knows default field (i + 1) s := by
  obtain ⟨hdefault, hscanned, hnext⟩ := h
  refine ⟨hdefault, hscanned, ?_⟩
  unfold passed
  cases hn : s.next with
  | none =>
    rw [hn] at hnext
    exact .inr fun j hj => hnext j (by omega)
  | some n =>
    rw [hn] at hnext
    obtain ⟨⟨hle, hvalid⟩, hleast⟩ := hnext
    rcases Nat.lt_or_eq_of_le hle with hlt | rfl
    · exact .inr ⟨⟨hlt, hvalid⟩, fun j hj => hleast ⟨by have := hj.1; omega, hj.2⟩⟩
    · left
      rw [hscanned i hn]
      simp

theorem Looked.filledUp (h : Looked default field i s) :
    FilledUp default field i (s.known field i) := by
  obtain ⟨rfl, -, hnext⟩ := h
  unfold known
  cases hn : s.next with
  | none =>
    rw [hn] at hnext
    exact .inr ⟨hnext, rfl⟩
  | some n =>
    rw [hn] at hnext
    dsimp only
    rw [if_pos hnext.1.1]
    exact .inl ⟨n, hnext, hnext.1.2.getElem?_eq⟩

end FillUp

theorem stepsBy_fillUp (default : Value) :
    StepsBy FillUp (·.default = default) (FillUp.Knows default) (FilledUp default) where
  start _ _ hs := ⟨hs, nofun, .inl rfl⟩
  keeps _ _ _ h := h.1
  answer _ _ _ _ h := ⟨h.looked.filledUp, h.looked.knows_succ⟩

/-- Filling up is filling down from the other side. -/
theorem overPartition_fillUp {up : FillUp} {down : FillDown} (h : up.default = down.default)
    (field : Array Value) : (Stepwise.overPartition up field).1
      = (Stepwise.overPartition down field.reverse).1.reverse := by
  obtain ⟨⟨hlength, hup⟩, -⟩ := (stepsBy_fillUp up.default).overPartition field rfl
  obtain ⟨⟨hlength', hdown⟩, -⟩ :=
    (stepsBy_fillDown down.default).overPartition field.reverse rfl
  rw [Array.size_reverse] at hlength'
  refine List.ext_getElem (by rw [List.length_reverse, hlength, hlength']) fun i hi hi' => ?_
  have hanswer := hup i _ (List.getElem?_eq_getElem hi)
  have hother := hdown (field.size - 1 - i) _ (List.getElem?_eq_getElem (by omega))
  rw [← h] at hother
  rw [List.getElem_reverse]
  have hback := filledUp_reverse (by omega) hother
  refine (hanswer.unique hback).trans ?_
  congr 1
  omega

end ColumnQuery
