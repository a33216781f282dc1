/-
  The parts of the shared state.

  Every aggregate keeps up one part of the state, and reads only that part, the number of valid
  rows and, where it requires them, the first fields that are held. So a row that comes in or
  goes out changes the part of an aggregate as if the aggregate were alone (`agree_add`,
  `agree_remove`): those before it in a reducer do not touch its part, and those that it requires
  have let go of the row already.
-/
import ColumnQuery.Proofs.Aggregate.Reducer

namespace ColumnQuery

/-! ## Where an aggregate stands -/

namespace Ordered

variable {removing : Bool} {ops : List AggregateOp}

/-- An aggregate without parameters stands once among the aggregates of a reducer, and what it
    depends on stands before it. -/
theorem split (h : Ordered removing ops) {a : Aggregate} (hparams : a.paramCount = 0)
    (ha : ⟨a, []⟩ ∈ ops) :
    ∃ before later, ops = before ++ ⟨a, []⟩ :: later ∧
      (∀ op ∈ before, op.aggregate ≠ a) ∧ (∀ op ∈ later, op.aggregate ≠ a) ∧
      Ordered removing before ∧ ∀ d ∈ a.dependencies removing, ⟨d, []⟩ ∈ before := by
  obtain ⟨before, later, rfl⟩ := List.append_of_mem ha
  have hsame : ∀ op ∈ before ++ ⟨a, []⟩ :: later, op.aggregate = a → op = ⟨a, []⟩ := by
    intro op hop hopa
    obtain ⟨b, params⟩ := op
    obtain rfl : b = a := hopa
    have hfits : params.length ≤ b.paramCount := h.fits _ hop
    rw [hparams] at hfits
    rw [List.eq_nil_of_length_eq_zero (Nat.le_zero.1 hfits)]
  obtain ⟨hbefore, htail, hcross⟩ := List.pairwise_append.1 h.distinct
  obtain ⟨hlater, -⟩ := List.pairwise_cons.1 htail
  refine ⟨before, later, rfl, fun op hop hopa => ?_, fun op hop hopa => ?_, ?_,
    h.after before _ later rfl⟩
  · have hdiff := hcross op hop _ List.mem_cons_self
    rw [hsame op (List.mem_append_left _ hop) hopa, AggregateOp.same_refl] at hdiff
    cases hdiff
  · have hdiff := hlater op hop
    rw [hsame op (List.mem_append_right _ (List.mem_cons_of_mem _ hop)) hopa,
      AggregateOp.same_refl] at hdiff
    cases hdiff
  · refine ⟨hbefore, fun op hop => h.fits op (List.mem_append_left _ hop), ?_⟩
    intro front op back heq
    refine h.after front op (back ++ ⟨a, []⟩ :: later) ?_
    rw [heq]
    simp

theorem dependency_mem (h : Ordered removing ops) {op : AggregateOp} (hop : op ∈ ops)
    {d : Aggregate} (hd : d ∈ op.aggregate.dependencies removing) : ⟨d, []⟩ ∈ ops := by
  obtain ⟨before, later, rfl⟩ := List.append_of_mem hop
  exact List.mem_append_left _ (h.after before op later rfl d hd)

end Ordered

/-! ## Agreement on a part -/

namespace Aggregate

variable {N : Type} [Quantity N]

/-- Two states agree on the counts and on the part that an aggregate keeps up. -/
def Agree (a : Aggregate) (s t : AggregateState N) : Prop :=
  s.count = t.count ∧ s.valid = t.valid ∧
    match a with
    | any => s.any = t.any
    | arrayAgg => s.values = t.values
    | distinct => s.distinct = t.distinct
    | objectAgg => s.entries = t.entries
    | sum => s.sum = t.sum
    | product => s.product = t.product
    | mean => s.moments = t.moments
    | min => s.least = t.least
    | max => s.greatest = t.greatest
    | covariance => s.coMoments = t.coMoments
    | count | valid | invalid | arrayAggDistinct | mode | entriesAgg | variance | varianceP
    | stdev | stdevP | median | quantile | covarianceP | corr => True

variable {a b : Aggregate} {s t u : AggregateState N}

omit [Quantity N] in
theorem Agree.refl (a : Aggregate) (s : AggregateState N) : a.Agree s s := by
  refine ⟨rfl, rfl, ?_⟩
  cases a <;> trivial

omit [Quantity N] in
theorem Agree.trans (h : a.Agree s t) (h' : a.Agree t u) : a.Agree s u := by
  refine ⟨h.1.trans h'.1, h.2.1.trans h'.2.1, ?_⟩
  cases a <;> first | trivial | exact h.2.2.trans h'.2.2

omit [Quantity N] in
theorem Agree.symm (h : a.Agree s t) : a.Agree t s := by
  refine ⟨h.1.symm, h.2.1.symm, ?_⟩
  cases a <;> first | trivial | exact h.2.2.symm

omit [Quantity N] in
/-- The counts of two states that agree change alike. -/
theorem Agree.recount (h : a.Agree s t) (f g : Nat → Nat) :
    a.Agree { s with count := f s.count, valid := g s.valid }
      { t with count := f t.count, valid := g t.valid } := by
  refine ⟨congrArg f h.1, congrArg g h.2.1, ?_⟩
  cases a <;> first | trivial | exact h.2.2

theorem agree_absorb_other (hb : b ≠ a) (s : AggregateState N) (fields : List Value) :
    a.Agree (b.absorb s fields) s := by
  cases b <;> refine ⟨rfl, rfl, ?_⟩ <;> cases a <;> trivial

theorem agree_absorb_own (h : a.Agree s t) (fields : List Value) :
    a.Agree (a.absorb s fields) (a.absorb t fields) := by
  obtain ⟨hcount, hvalid, hpart⟩ := h
  cases a <;> simp_all [Agree, absorb]

theorem agree_release_other (hb : b ≠ a) (s : AggregateState N) (fields : List Value) :
    a.Agree (b.release s fields) s := by
  cases b <;> unfold release
  case any | min | max =>
    -- the part is left alone whether or not the value that leaves is the one kept
    dsimp only
    split
    · refine ⟨rfl, rfl, ?_⟩
      cases a <;> trivial
    · exact Agree.refl a s
  all_goals
    refine ⟨rfl, rfl, ?_⟩
    cases a <;> trivial

theorem agree_release_own (h : a.Agree s t)
    (hvalues : arrayAgg ∈ a.dependencies true → s.values = t.values) (fields : List Value) :
    a.Agree (a.release s fields) (a.release t fields) := by
  obtain ⟨hcount, hvalid, hpart⟩ := h
  cases a <;> unfold release
  case any | min | max =>
    have hsame := hvalues (by decide)
    dsimp only at hpart ⊢
    rw [hpart, hsame]
    split
    · exact ⟨hcount, hvalid, rfl⟩
    · exact ⟨hcount, hvalid, hpart⟩
  case product =>
    have hsame := hvalues (by decide)
    refine ⟨hcount, hvalid, ?_⟩
    dsimp only at hpart ⊢
    rw [hpart, hsame]
  all_goals simp_all [Agree]

/-- What an aggregate sees of the state when a valid row goes out: the row counts no more, and the
    first fields have let go of it if they are read. -/
def vacated (a : Aggregate) (s : AggregateState N) : AggregateState N :=
  { s with
    count := s.count - 1
    valid := s.valid - 1
    values := if arrayAgg ∈ a.dependencies true then dropOldest s.values else s.values }

omit [Quantity N] in
theorem agree_vacated (a : Aggregate) (s : AggregateState N) :
    a.Agree { s with count := s.count - 1, valid := s.valid - 1 } (a.vacated s) := by
  refine ⟨rfl, rfl, ?_⟩
  cases a <;> trivial

/-- Aggregates leave the counts to the reducer. -/
theorem counts_absorb (a : Aggregate) (s : AggregateState N) (fields : List Value) :
    (a.absorb s fields).count = s.count ∧ (a.absorb s fields).valid = s.valid := by
  cases a <;> exact ⟨rfl, rfl⟩

theorem counts_release (a : Aggregate) (s : AggregateState N) (fields : List Value) :
    (a.release s fields).count = s.count ∧ (a.release s fields).valid = s.valid := by
  cases a <;> unfold release
  case any | min | max =>
    dsimp only
    split <;> exact ⟨rfl, rfl⟩
  all_goals exact ⟨rfl, rfl⟩

/-- At the start every part but that of the product is empty. -/
theorem agree_start_other (hb : b ≠ a) (s : AggregateState N) : a.Agree (b.start s) s := by
  cases b <;> refine ⟨rfl, rfl, ?_⟩ <;> cases a <;> trivial

theorem agree_start_own (h : a.Agree s t) : a.Agree (a.start s) (a.start t) := by
  obtain ⟨hcount, hvalid, hpart⟩ := h
  cases a <;> exact ⟨hcount, hvalid, by first | rfl | exact hpart⟩

/-! ## All aggregates of a reducer -/

section Steps

variable {f : Aggregate → AggregateState N → AggregateState N} {ops : List AggregateOp}

omit [Quantity N] in
/-- Steps of other aggregates leave the part of an aggregate alone. -/
theorem agree_foldl_other (hf : ∀ b, b ≠ a → ∀ s, a.Agree (f b s) s)
    (hops : ∀ op ∈ ops, op.aggregate ≠ a) (s : AggregateState N) :
    a.Agree (ops.foldl (fun s op => f op.aggregate s) s) s := by
  induction ops generalizing s with
  | nil => exact Agree.refl a s
  | cons op ops ih =>
    have hrest := ih (fun other hother => hops other (List.mem_cons_of_mem _ hother))
      (f op.aggregate s)
    exact hrest.trans (hf op.aggregate (hops op List.mem_cons_self) s)

omit [Quantity N] in
/-- Of the steps of all aggregates, only that of the one that keeps up the part matters. -/
theorem agree_foldl {removing : Bool} (h : Ordered removing ops) (hparams : a.paramCount = 0)
    (ha : ⟨a, []⟩ ∈ ops) (hf : ∀ b, b ≠ a → ∀ s, a.Agree (f b s) s)
    (hown : ∀ s t, a.Agree s t → a.Agree (f a s) (f a t)) (s : AggregateState N) :
    a.Agree (ops.foldl (fun s op => f op.aggregate s) s) (f a s) := by
  obtain ⟨before, later, rfl, hbefore, hlater, -, -⟩ := h.split hparams ha
  rw [List.foldl_append, List.foldl_cons]
  exact (agree_foldl_other hf hlater _).trans (hown _ _ (agree_foldl_other hf hbefore s))

end Steps

variable {ops : List AggregateOp}

/-- The first fields let go of a row before an aggregate that reads them does. -/
theorem agree_foldl_release (h : Ordered true ops) (hparams : a.paramCount = 0)
    (ha : ⟨a, []⟩ ∈ ops) {s t : AggregateState N} (fields : List Value) (hst : a.Agree s t)
    (hvalues : arrayAgg ∈ a.dependencies true → t.values = dropOldest s.values) :
    a.Agree (ops.foldl (fun s op => op.aggregate.release s fields) s) (a.release t fields) := by
  obtain ⟨before, later, rfl, hbefore, hlater, hordered, hdeps⟩ := h.split hparams ha
  rw [List.foldl_append, List.foldl_cons]
  have hother : ∀ {c : Aggregate} (b : Aggregate), b ≠ c → ∀ s : AggregateState N,
      c.Agree (b.release s fields) s := fun b hb s => agree_release_other hb s fields
  refine (agree_foldl_other hother hlater _).trans ?_
  refine agree_release_own ((agree_foldl_other hother hbefore s).trans hst) ?_ fields
  intro hmem
  obtain ⟨front, back, rfl, hfront, hback, -, -⟩ := hordered.split rfl (hdeps _ hmem)
  rw [hvalues hmem, List.foldl_append, List.foldl_cons]
  have hlast := (agree_foldl_other hother hback
    (arrayAgg.release (front.foldl (fun s op => op.aggregate.release s fields) s) fields)).2.2
  have hfirst := (agree_foldl_other hother hfront s).2.2
  exact hlast.trans (congrArg dropOldest hfirst)

end Aggregate

/-! ## A row in, a row out -/

namespace Reducer

open Aggregate

variable {F N : Type} [Quantity N] {r : Reducer F} {removing : Bool} {a : Aggregate}

theorem agree_start (h : Ordered removing r.ops) (hparams : a.paramCount = 0)
    (ha : ⟨a, []⟩ ∈ r.ops) :
    a.Agree (r.start : AggregateState N) (a.start AggregateState.empty) :=
  agree_foldl h hparams ha (fun _ hb s => agree_start_other hb s) (fun _ _ => agree_start_own) _

theorem agree_add (h : Ordered removing r.ops) (hparams : a.paramCount = 0)
    (ha : ⟨a, []⟩ ∈ r.ops) (s : AggregateState N) {fields : List Value}
    (hfields : fields.all Value.isValid = true) :
    a.Agree (r.add s fields)
      (a.absorb { s with count := s.count + 1, valid := s.valid + 1 } fields) := by
  unfold add
  dsimp only
  rw [if_pos hfields]
  exact agree_foldl h hparams ha (fun b hb s => agree_absorb_other hb s fields)
    (fun s t hst => agree_absorb_own hst fields) _

theorem agree_add_invalid (a : Aggregate) (s : AggregateState N) {fields : List Value}
    (hfields : fields.all Value.isValid = false) :
    a.Agree (r.add s fields) { s with count := s.count + 1 } := by
  unfold add
  dsimp only
  rw [if_neg (by rw [hfields]; exact Bool.false_ne_true)]
  exact Agree.refl a _

theorem agree_remove (h : Ordered true r.ops) (hparams : a.paramCount = 0)
    (ha : ⟨a, []⟩ ∈ r.ops) (s : AggregateState N) {fields : List Value}
    (hfields : fields.all Value.isValid = true) :
    a.Agree (r.remove s fields) (a.release (a.vacated s) fields) := by
  unfold remove
  dsimp only
  rw [if_pos hfields]
  exact agree_foldl_release h hparams ha fields (agree_vacated a s) fun hmem => if_pos hmem

theorem agree_remove_invalid (a : Aggregate) (s : AggregateState N) {fields : List Value}
    (hfields : fields.all Value.isValid = false) :
    a.Agree (r.remove s fields) { s with count := s.count - 1 } := by
  unfold remove
  dsimp only
  rw [if_neg (by rw [hfields]; exact Bool.false_ne_true)]
  exact Agree.refl a _

end Reducer

end ColumnQuery
