/-
  The reducers of a list of calls.

  The aggregates that a reducer keeps up are ordered: each stands after everything that it
  depends on, none stands twice, and only those that take parameters have any (`Ordered`).
  Calls whose keys are the same share a reducer, and the reducer reads the fields of the first
  of them: `build_keeps` says so of every reducer, and that what it keeps up at the place of a
  call is the same as the aggregate called. Where no two calls ask for the same aggregate of the
  same key, it is this very aggregate (`build_spec`).
-/
import Mathlib.Data.List.Pairwise
import ColumnQuery.Aggregate.Reducer
import ColumnQuery.Proofs.Lists
import ColumnQuery.Proofs.Value.Same

namespace ColumnQuery

/-! ## Aggregates with parameters -/

namespace AggregateOp

theorem same_refl (a : AggregateOp) : a.same a = true := by
  unfold same
  rw [Value.sameItems_refl, Bool.and_true]
  exact beq_self_eq_true a.aggregate

theorem same_symm {a b : AggregateOp} (h : a.same b = true) : b.same a = true := by
  unfold same at h ⊢
  rw [Bool.and_eq_true] at h ⊢
  exact ⟨beq_iff_eq.2 (beq_iff_eq.1 h.1).symm, Value.sameItems_symm h.2⟩

theorem same_trans {a b c : AggregateOp} (hab : a.same b = true) (hbc : b.same c = true) :
    a.same c = true := by
  unfold same at hab hbc ⊢
  rw [Bool.and_eq_true] at hab hbc ⊢
  exact ⟨beq_iff_eq.2 ((beq_iff_eq.1 hab.1).trans (beq_iff_eq.1 hbc.1)),
    Value.sameItems_trans hab.2 hbc.2⟩

theorem aggregate_of_same {a b : AggregateOp} (h : a.same b = true) :
    a.aggregate = b.aggregate := by
  unfold same at h
  rw [Bool.and_eq_true] at h
  exact beq_iff_eq.1 h.1

/-- Without parameters there is nothing to tell apart. -/
theorem eq_of_same_of_nil {a b : AggregateOp} (h : a.same b = true) (hb : b.params = []) :
    a = b := by
  unfold same at h
  rw [Bool.and_eq_true, hb] at h
  obtain ⟨aggregate, params⟩ := a
  obtain ⟨other, others⟩ := b
  obtain rfl : aggregate = other := beq_iff_eq.1 h.1
  cases params with
  | nil =>
    obtain rfl : others = [] := hb
    rfl
  | cons v vs => simp [Value.sameItems] at h

/-- No more parameters than the aggregate takes. -/
def Fits (a : AggregateOp) : Prop := a.params.length ≤ a.aggregate.paramCount

end AggregateOp

/-- Every aggregate after all that it depends on, none twice, and parameters only where some
    are taken. -/
structure Ordered (removing : Bool) (ops : List AggregateOp) : Prop where
  distinct : ops.Pairwise fun a b => a.same b = false
  fits : ∀ op ∈ ops, op.Fits
  after : ∀ before op later, ops = before ++ op :: later →
    ∀ d ∈ op.aggregate.dependencies removing, ⟨d, []⟩ ∈ before

namespace Ordered

variable {removing : Bool} {ops : List AggregateOp}

theorem nil : Ordered removing [] where
  distinct := List.Pairwise.nil
  fits := by simp
  after before op later h := by simp at h

/-- An aggregate that is not there yet, all of whose dependencies are. -/
theorem append (h : Ordered removing ops) {a : AggregateOp} (hnew : ∀ op ∈ ops, op.same a = false)
    (hfits : a.Fits) (hdeps : ∀ d ∈ a.aggregate.dependencies removing, ⟨d, []⟩ ∈ ops) :
    Ordered removing (ops ++ [a]) where
  distinct := by
    refine List.pairwise_append.2 ⟨h.distinct, List.pairwise_singleton _ _, ?_⟩
    intro op hop b hb
    rw [List.mem_singleton.1 hb]
    exact hnew op hop
  fits op hop := by
    rcases List.mem_append.1 hop with hop | hop
    · exact h.fits op hop
    · rw [List.mem_singleton.1 hop]
      exact hfits
  after before op later heq d hd := by
    rcases List.eq_nil_or_concat later with rfl | ⟨init, last, rfl⟩
    · obtain ⟨rfl, heq⟩ := List.append_inj' heq rfl
      obtain rfl : a = op := by simpa using heq
      exact hdeps d hd
    · have hsplit : ops ++ [a] = (before ++ op :: init) ++ [last] := by
        rw [heq]
        simp
      exact h.after before op init (List.append_inj' hsplit rfl).1 d hd

end Ordered

namespace Reducer

variable {F K : Type} {removing : Bool}

theorem withOps_append (ops more rest : List AggregateOp) :
    withOps ops (more ++ rest) = withOps (withOps ops more) rest := by
  induction more generalizing ops with
  | nil => rfl
  | cons a more ih => exact ih _

/-- Nothing is dropped when aggregates are added. -/
theorem prefix_withOps (ops more : List AggregateOp) : ops <+: withOps ops more := by
  induction more generalizing ops with
  | nil => exact List.prefix_refl ops
  | cons a more ih =>
    refine List.IsPrefix.trans ?_ (ih _)
    split
    · exact List.prefix_refl ops
    · exact List.prefix_append ops [a]

/-- What is added comes from what there is to add. -/
theorem mem_of_mem_withOps (ops more : List AggregateOp) {op : AggregateOp}
    (h : op ∈ withOps ops more) : op ∈ ops ∨ op ∈ more := by
  induction more generalizing ops with
  | nil => exact .inl h
  | cons a more ih =>
    rcases ih _ h with h | h
    · split at h
      · exact .inl h
      · rcases List.mem_append.1 h with h | h
        · exact .inl h
        · exact .inr (List.mem_cons.2 (.inl (List.mem_singleton.1 h)))
    · exact .inr (List.mem_cons_of_mem _ h)

/-- What has been added is kept up, or something that is the same. -/
theorem exists_same_withOps (ops more : List AggregateOp) {a : AggregateOp} (ha : a ∈ more) :
    ∃ op ∈ withOps ops more, op.same a = true := by
  induction more generalizing ops with
  | nil => cases ha
  | cons b more ih =>
    rcases List.mem_cons.1 ha with rfl | ha
    · have hkept : ∃ op ∈ if ops.any (·.same a) then ops else ops ++ [a], op.same a = true := by
        split
        next hany => exact List.any_eq_true.1 hany
        next => exact ⟨a, by simp, AggregateOp.same_refl a⟩
      obtain ⟨op, hop, hsame⟩ := hkept
      exact ⟨op, (prefix_withOps _ more).subset hop, hsame⟩
    · exact ih _ ha

/-- An aggregate without parameters is kept up after it has been added. -/
theorem mem_withOps_of_nil (ops more : List AggregateOp) {a : AggregateOp} (ha : a ∈ more)
    (hparams : a.params = []) : a ∈ withOps ops more := by
  obtain ⟨op, hop, hsame⟩ := exists_same_withOps ops more ha
  rwa [AggregateOp.eq_of_same_of_nil hsame hparams] at hop

/-- Adding aggregates that depend on nothing. -/
theorem ordered_withOps {ops more : List AggregateOp} (h : Ordered removing ops)
    (hmore : ∀ a ∈ more, a.Fits ∧ a.aggregate.dependencies removing = []) :
    Ordered removing (withOps ops more) := by
  induction more generalizing ops with
  | nil => exact h
  | cons a more ih =>
    refine ih ?_ fun b hb => hmore b (List.mem_cons_of_mem _ hb)
    obtain ⟨hfits, hdeps⟩ := hmore a List.mem_cons_self
    split
    next => exact h
    next hany =>
      rw [Bool.not_eq_true, List.any_eq_false] at hany
      refine h.append (fun op hop => Bool.eq_false_iff.2 (hany op hop)) hfits ?_
      intro d hd
      rw [hdeps] at hd
      cases hd

/-- Adding an aggregate with everything that it depends on. -/
theorem ordered_withOps_expansion {ops : List AggregateOp} (h : Ordered removing ops)
    {a : AggregateOp} (ha : a.Fits) : Ordered removing (withOps ops (a.expansion removing)) := by
  unfold AggregateOp.expansion
  rw [withOps_append]
  have hdeps : Ordered removing
      (withOps ops ((a.aggregate.dependencies removing).map (⟨·, []⟩))) := by
    refine ordered_withOps h fun b hb => ?_
    obtain ⟨d, hd, rfl⟩ := List.mem_map.1 hb
    exact ⟨Nat.zero_le _, Aggregate.dependencies_of_mem_dependencies removing _ _ hd⟩
  unfold withOps withOps
  split
  next => exact hdeps
  next hany =>
    rw [Bool.not_eq_true, List.any_eq_false] at hany
    refine hdeps.append (fun op hop => Bool.eq_false_iff.2 (hany op hop)) ha fun d hd => ?_
    exact mem_withOps_of_nil _ _ (List.mem_map.2 ⟨d, hd, rfl⟩) rfl

/-- The aggregate of a call has a place. -/
theorem exists_place_withOps_expansion (removing : Bool) (ops : List AggregateOp)
    (a : AggregateOp) : ∃ op, (withOps ops (a.expansion removing))[((withOps ops
      (a.expansion removing)).findIdx? (·.same a)).getD 0]? = some op ∧ op.same a = true := by
  obtain ⟨op, hop, hsame⟩ := exists_same_withOps ops (a.expansion removing) (a := a)
    (List.mem_append_right _ (List.mem_singleton.2 rfl))
  cases hp : (withOps ops (a.expansion removing)).findIdx? (·.same a) with
  | none =>
    have hno := List.findIdx?_eq_none_iff.1 hp op hop
    rw [hsame] at hno
    cases hno
  | some p =>
    obtain ⟨hlt, hfound, -⟩ := List.findIdx?_eq_some_iff_getElem.1 hp
    exact ⟨_, List.getElem?_eq_getElem hlt, hfound⟩

/-- An aggregate brings itself along, and what it depends on without any parameters. -/
theorem mem_expansion {a op : AggregateOp} (h : op ∈ a.expansion removing) :
    op.params = [] ∨ op = a := by
  unfold AggregateOp.expansion at h
  rcases List.mem_append.1 h with h | h
  · obtain ⟨d, -, rfl⟩ := List.mem_map.1 h
    exact .inl rfl
  · exact .inr (List.mem_singleton.1 h)

/-! ## Calls taken in one by one -/

/-- Taking a call in puts it into the first reducer with the same key, or into a new one at the
    end. -/
theorem place_cases (sameKey : K → K → Bool) (removing : Bool) (index : Nat) (c : ReducerCall F K)
    (rs : List (K × Reducer F)) :
    (∃ before key r later, rs = before ++ (key, r) :: later ∧ sameKey key c.key = true ∧
      place sameKey removing index c rs
        = before ++ (key, r.addCall removing index c.op) :: later) ∨
    ((∀ e ∈ rs, sameKey e.1 c.key = false) ∧
      place sameKey removing index c rs
        = rs ++ [(c.key, addCall removing ⟨c.fields, [], []⟩ index c.op)]) := by
  induction rs with
  | nil => exact .inr ⟨by simp, rfl⟩
  | cons e rest ih =>
    obtain ⟨key, r⟩ := e
    unfold place
    by_cases hkey : sameKey key c.key = true
    · rw [if_pos hkey]
      exact .inl ⟨[], key, r, rest, rfl, hkey, rfl⟩
    · rw [if_neg hkey]
      rcases ih with ⟨before, k, s, later, rfl, hsame, heq⟩ | ⟨hnone, heq⟩
      · exact .inl ⟨(key, r) :: before, k, s, later, rfl, hsame, by rw [heq]; rfl⟩
      · refine .inr ⟨fun e he => ?_, by rw [heq]; rfl⟩
        rcases List.mem_cons.1 he with rfl | he
        · exact Bool.eq_false_iff.2 hkey
        · exact hnone e he

/-- What a reducer keeps up for the calls of a key among those taken in. -/
structure Keeps (sameKey : K → K → Bool) (removing : Bool) (done : List (ReducerCall F K))
    (key : K) (r : Reducer F) : Prop where
  ordered : Ordered removing r.ops
  sources : ∀ op ∈ r.ops, op.params = [] ∨ ∃ c ∈ done, sameKey key c.key = true ∧ op = c.op
  outputs : ∀ i p, (i, p) ∈ r.outputs → ∃ c op, done[i]? = some c ∧ sameKey key c.key = true ∧
    r.ops[p]? = some op ∧ op.same c.op = true

variable {sameKey : K → K → Bool} {done : List (ReducerCall F K)} {key : K} {r : Reducer F}
  {rs : List (K × Reducer F)} {c : ReducerCall F K}

namespace Keeps

theorem nothing (sameKey : K → K → Bool) (removing : Bool) (done : List (ReducerCall F K))
    (key : K) (fields : List F) : Keeps sameKey removing done key ⟨fields, [], []⟩ where
  ordered := .nil
  sources := by simp
  outputs := by simp

/-- A call of another reducer changes nothing. -/
theorem append (h : Keeps sameKey removing done key r) (c : ReducerCall F K) :
    Keeps sameKey removing (done ++ [c]) key r where
  ordered := h.ordered
  sources op hop := by
    rcases h.sources op hop with hnil | ⟨d, hd, hkey, rfl⟩
    · exact .inl hnil
    · exact .inr ⟨d, List.mem_append_left _ hd, hkey, rfl⟩
  outputs i p hip := by
    obtain ⟨d, op, hd, hrest⟩ := h.outputs i p hip
    refine ⟨d, op, ?_, hrest⟩
    rw [List.getElem?_append_left (List.getElem?_eq_some_iff.1 hd).1]
    exact hd

theorem sources_expansion (h : Keeps sameKey removing done key r)
    (hkey : sameKey key c.key = true) :
    ∀ op ∈ withOps r.ops (c.op.expansion removing), op.params = [] ∨
      ∃ d ∈ done ++ [c], sameKey key d.key = true ∧ op = d.op := by
  intro op hop
  rcases mem_of_mem_withOps _ _ hop with hop | hop
  · exact (h.append c).sources op hop
  · exact (mem_expansion hop).imp_right fun heq => ⟨c, by simp, hkey, heq⟩

/-- A further call with the same key gets a place for its aggregate. -/
theorem addCall (h : Keeps sameKey removing done key r) (hkey : sameKey key c.key = true)
    (hfits : c.op.Fits) :
    Keeps sameKey removing (done ++ [c]) key (r.addCall removing done.length c.op) := by
  refine ⟨ordered_withOps_expansion h.ordered hfits, h.sources_expansion hkey, ?_⟩
  intro i p hip
  rcases List.mem_append.1 hip with hip | hip
  · obtain ⟨d, op, hd, hdkey, hop, hsame⟩ := (h.append c).outputs i p hip
    obtain ⟨more, hmore⟩ := prefix_withOps r.ops (c.op.expansion removing)
    refine ⟨d, op, hd, hdkey, ?_, hsame⟩
    show (withOps r.ops (c.op.expansion removing))[p]? = some op
    rw [← hmore, List.getElem?_append_left (List.getElem?_eq_some_iff.1 hop).1]
    exact hop
  · obtain ⟨rfl, rfl⟩ := Prod.mk.injEq .. ▸ List.mem_singleton.1 hip
    obtain ⟨op, hop, hsame⟩ := exists_place_withOps_expansion removing r.ops c.op
    exact ⟨c, op, by simp, hkey, hop, hsame⟩

/-- What is kept up is the aggregate of a call itself, unless another call of the key asks for
    the same one. -/
theorem eq_of_same (h : Keeps sameKey removing done key r) {op : AggregateOp} (hop : op ∈ r.ops)
    (hsame : op.same c.op = true)
    (honly : ∀ d ∈ done, sameKey key d.key = true → d.op.same c.op = true → d = c) :
    op = c.op := by
  rcases h.sources op hop with hnil | ⟨d, hd, hkey, rfl⟩
  · exact (AggregateOp.eq_of_same_of_nil (AggregateOp.same_symm hsame) hnil).symm
  · rw [honly d hd hkey hsame]

end Keeps

/-- What the reducers are like after some calls. -/
structure BuiltFrom (sameKey : K → K → Bool) (removing : Bool) (done : List (ReducerCall F K))
    (rs : List (K × Reducer F)) : Prop where
  keeps : ∀ e ∈ rs, Keeps sameKey removing done e.1 e.2
  leader : ∀ e ∈ rs, ∃ c, done.find? (fun d => sameKey d.key e.1) = some c ∧ c.fields = e.2.fields
  served : ∀ i c, done[i]? = some c →
    ∃ e ∈ rs, sameKey e.1 c.key = true ∧ ∃ p, (i, p) ∈ e.2.outputs

namespace BuiltFrom

theorem nil (sameKey : K → K → Bool) (removing : Bool) :
    BuiltFrom sameKey removing ([] : List (ReducerCall F K)) [] where
  keeps := by simp
  leader := by simp
  served := by simp

theorem leader_append (h : BuiltFrom sameKey removing done rs) (c : ReducerCall F K)
    {e : K × Reducer F} (he : e ∈ rs) :
    ∃ d, (done ++ [c]).find? (fun d => sameKey d.key e.1) = some d ∧ d.fields = e.2.fields := by
  obtain ⟨d, hd, hfields⟩ := h.leader e he
  exact ⟨d, by rw [List.find?_append, hd]; rfl, hfields⟩

theorem getElem?_append_singleton {i : Nat} {d : ReducerCall F K}
    (h : (done ++ [c])[i]? = some d) : done[i]? = some d ∨ (i = done.length ∧ d = c) := by
  rw [List.getElem?_append] at h
  split at h
  · exact .inl h
  · rw [List.getElem?_singleton] at h
    split at h
    · exact .inr ⟨by omega, (Option.some.inj h).symm⟩
    · cases h

/-- The call goes into the reducer of its key. -/
theorem place_into {before later : List (K × Reducer F)}
    (h : BuiltFrom sameKey removing done (before ++ (key, r) :: later))
    (hkey : sameKey key c.key = true) (hfits : c.op.Fits) :
    BuiltFrom sameKey removing (done ++ [c])
      (before ++ (key, r.addCall removing done.length c.op) :: later) := by
  have hr : (key, r) ∈ before ++ (key, r) :: later := by simp
  -- the entries but that of the key are those that were there
  have hothers : ∀ e ∈ before ++ (key, r.addCall removing done.length c.op) :: later,
      e ∈ before ++ (key, r) :: later ∨ e = (key, r.addCall removing done.length c.op) := by
    intro e he
    rcases List.mem_append.1 he with he | he
    · exact .inl (List.mem_append_left _ he)
    rcases List.mem_cons.1 he with rfl | he
    · exact .inr rfl
    · exact .inl (by simp [he])
  refine ⟨fun e he => ?_, fun e he => ?_, fun i d hd => ?_⟩
  · rcases hothers e he with he | rfl
    · exact (h.keeps e he).append c
    · exact (h.keeps _ hr).addCall hkey hfits
  · rcases hothers e he with he | rfl
    · exact h.leader_append c he
    · obtain ⟨d, hd, hfields⟩ := h.leader_append c hr
      exact ⟨d, hd, hfields⟩
  · rcases getElem?_append_singleton hd with hd | ⟨rfl, rfl⟩
    · obtain ⟨e, he, hekey, p, hp⟩ := h.served i d hd
      rcases List.mem_append.1 he with he | he
      · exact ⟨e, List.mem_append_left _ he, hekey, p, hp⟩
      rcases List.mem_cons.1 he with rfl | he
      · exact ⟨_, List.mem_append_right _ List.mem_cons_self, hekey, p,
          List.mem_append_left _ hp⟩
      · exact ⟨e, by simp [he], hekey, p, hp⟩
    · exact ⟨_, List.mem_append_right _ List.mem_cons_self, hkey, _,
        List.mem_append_right _ List.mem_cons_self⟩

/-- The call opens a reducer. -/
theorem place_new (hequiv : Equivalence fun k l => sameKey k l = true)
    (h : BuiltFrom sameKey removing done rs) (hnone : ∀ e ∈ rs, sameKey e.1 c.key = false)
    (hfits : c.op.Fits) :
    BuiltFrom sameKey removing (done ++ [c])
      (rs ++ [(c.key, addCall removing ⟨c.fields, [], []⟩ done.length c.op)]) := by
  have hunseen : ∀ d ∈ done, sameKey d.key c.key = false := by
    intro d hd
    obtain ⟨i, hi⟩ := List.mem_iff_getElem?.1 hd
    obtain ⟨e, he, hekey, -⟩ := h.served i d hi
    rw [Bool.eq_false_iff]
    intro hdc
    exact Bool.false_ne_true ((hnone e he).symm.trans (hequiv.trans hekey hdc))
  refine ⟨fun e he => ?_, fun e he => ?_, fun i d hd => ?_⟩
  · rcases List.mem_append.1 he with he | he
    · exact (h.keeps e he).append c
    · rw [List.mem_singleton.1 he]
      exact (Keeps.nothing sameKey removing done c.key c.fields).addCall
        (hequiv.refl c.key) hfits
  · rcases List.mem_append.1 he with he | he
    · exact h.leader_append c he
    · rw [List.mem_singleton.1 he]
      refine ⟨c, ?_, rfl⟩
      have hfind : done.find? (fun d => sameKey d.key c.key) = none := by
        rw [List.find?_eq_none]
        intro d hd
        rw [hunseen d hd]
        exact Bool.false_ne_true
      rw [List.find?_append, hfind, Option.none_or, List.find?_singleton]
      exact if_pos (hequiv.refl c.key)
  · rcases getElem?_append_singleton hd with hd | ⟨rfl, rfl⟩
    · obtain ⟨e, he, hrest⟩ := h.served i d hd
      exact ⟨e, List.mem_append_left _ he, hrest⟩
    · exact ⟨_, List.mem_append_right _ (List.mem_singleton.2 rfl), hequiv.refl _, _,
        List.mem_singleton.2 rfl⟩

/-- Taking in one call. -/
theorem place (hequiv : Equivalence fun k l => sameKey k l = true)
    (h : BuiltFrom sameKey removing done rs) (hfits : c.op.Fits) :
    BuiltFrom sameKey removing (done ++ [c]) (place sameKey removing done.length c rs) := by
  rcases place_cases sameKey removing done.length c rs with
    ⟨before, key, r, later, rfl, hkey, heq⟩ | ⟨hnone, heq⟩
  · rw [heq]
    exact h.place_into hkey hfits
  · rw [heq]
    exact h.place_new hequiv hnone hfits

/-- Taking in calls one by one. -/
theorem foldl_place (hequiv : Equivalence fun k l => sameKey k l = true)
    (calls : List (ReducerCall F K)) (h : BuiltFrom sameKey removing done rs)
    (hfits : ∀ c ∈ calls, c.op.Fits) :
    BuiltFrom sameKey removing (done ++ calls)
      ((calls.zipIdx done.length).foldl
        (fun rs (c, i) => Reducer.place sameKey removing i c rs) rs) := by
  induction calls generalizing done rs with
  | nil => simpa using h
  | cons c calls ih =>
    rw [List.zipIdx_cons, List.foldl_cons]
    have hstep := h.place (c := c) hequiv (hfits c List.mem_cons_self)
    have hsplit : done ++ c :: calls = (done ++ [c]) ++ calls := by simp
    have hlength : done.length + 1 = (done ++ [c]).length := by simp
    rw [hsplit, hlength]
    exact ih hstep fun d hd => hfits d (List.mem_cons_of_mem _ hd)

end BuiltFrom

/-! ## Built reducers -/

theorem builtFrom_build (removing : Bool)
    (hequiv : Equivalence fun k l => sameKey k l = true)
    (calls : List (ReducerCall F K)) (hfits : ∀ c ∈ calls, c.op.Fits) :
    ∃ rs, build sameKey removing calls = rs.map (·.2) ∧
      BuiltFrom sameKey removing calls rs :=
  ⟨_, rfl, (BuiltFrom.nil sameKey removing).foldl_place hequiv calls hfits⟩

/-- Every call has a place in some reducer. -/
theorem exists_output_of_call (removing : Bool)
    (hequiv : Equivalence fun k l => sameKey k l = true)
    {calls : List (ReducerCall F K)} (hfits : ∀ c ∈ calls, c.op.Fits)
    {i : Nat} (hc : calls[i]? = some c) :
    ∃ r ∈ build sameKey removing calls, ∃ place, (i, place) ∈ r.outputs := by
  obtain ⟨rs, heq, hbuilt⟩ := builtFrom_build removing hequiv calls hfits
  obtain ⟨e, he, -, hplace⟩ := hbuilt.served i c hc
  rw [heq]
  exact ⟨e.2, List.mem_map_of_mem he, hplace⟩

/-- A reducer is that of some key: it reads the fields of the first call with the same key, and
    keeps up the aggregates of the calls of the key. -/
theorem build_keeps (hequiv : Equivalence fun k l => sameKey k l = true)
    {calls : List (ReducerCall F K)} (hfits : ∀ c ∈ calls, c.op.Fits)
    (hr : r ∈ build sameKey removing calls) :
    ∃ key leader, Keeps sameKey removing calls key r ∧
      calls.find? (fun d => sameKey d.key key) = some leader ∧ leader.fields = r.fields := by
  obtain ⟨rs, heq, hbuilt⟩ := builtFrom_build removing hequiv calls hfits
  rw [heq] at hr
  obtain ⟨e, he, rfl⟩ := List.mem_map.1 hr
  obtain ⟨leader, hleader, hfields⟩ := hbuilt.leader e he
  exact ⟨e.1, leader, hbuilt.keeps e he, hleader, hfields⟩

/-- Of calls none of which asks again for the aggregate of another one of the same key, no two
    ask for the same. -/
theorem eq_of_pairwise {calls : List (ReducerCall F K)}
    (hequiv : Equivalence fun k l => sameKey k l = true)
    (hnew : calls.Pairwise fun d c => sameKey d.key c.key = true → d.op.same c.op = false)
    {d : ReducerCall F K} (hd : d ∈ calls) (hc : c ∈ calls) (hkey : sameKey d.key c.key = true)
    (hsame : d.op.same c.op = true) : d = c := by
  have hsymm : Std.Symm fun d c : ReducerCall F K =>
      sameKey d.key c.key = true → d.op.same c.op = false := by
    refine ⟨fun d c h hkey => Bool.eq_false_iff.2 fun hsame => ?_⟩
    have hapart := h (hequiv.symm hkey)
    rw [AggregateOp.same_symm hsame] at hapart
    cases hapart
  by_contra hne
  have hapart := hnew.forall hd hc hne hkey
  rw [hsame] at hapart
  cases hapart

/-- A reducer reads the fields of the first call with the same key, and keeps up the aggregate of
    each of its calls at the place given for it. -/
theorem build_spec (hequiv : Equivalence fun k l => sameKey k l = true)
    {calls : List (ReducerCall F K)} (hfits : ∀ c ∈ calls, c.op.Fits)
    (hnew : calls.Pairwise fun d c => sameKey d.key c.key = true → d.op.same c.op = false)
    (hr : r ∈ build sameKey removing calls) :
    Ordered removing r.ops ∧ (∃ c ∈ calls, r.fields = c.fields) ∧
      ∀ i place, (i, place) ∈ r.outputs → ∃ c leader, calls[i]? = some c ∧
        calls.find? (fun d => sameKey d.key c.key) = some leader ∧ r.fields = leader.fields ∧
        r.ops[place]? = some c.op := by
  obtain ⟨key, leader, hkeeps, hleader, hfields⟩ := build_keeps hequiv hfits hr
  refine ⟨hkeeps.ordered, ⟨leader, List.mem_of_find?_eq_some hleader, hfields.symm⟩,
    fun i place hplace => ?_⟩
  obtain ⟨c, op, hc, hkey, hop, hsame⟩ := hkeeps.outputs i place hplace
  have hcalled : op = c.op := hkeeps.eq_of_same (List.mem_of_getElem? hop) hsame
    fun d hd hdkey => eq_of_pairwise hequiv hnew hd (List.mem_of_getElem? hc)
      (hequiv.trans (hequiv.symm hdkey) hkey)
  refine ⟨c, leader, hc, ?_, hfields.symm, hcalled ▸ hop⟩
  rw [← hleader]
  congr 1
  funext d
  exact Bool.eq_iff_iff.2 ⟨fun h => hequiv.trans h (hequiv.symm hkey),
    fun h => hequiv.trans h hkey⟩

end Reducer

end ColumnQuery
