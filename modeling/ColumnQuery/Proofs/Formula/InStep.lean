/-
  Two resolutions in step.

  The same expressions are resolved on two sides, whose tables have the same columns by name but
  need not hold them in the same encoding. Step by step both sides do the same: the formulas agree,
  the rewritten trees are the same, and so are the slots and the calls that are registered. Only a
  value that has to be constant may tell the sides apart, since an equality with a text that a
  dictionary lacks is constant: then one side is refused for it (`Outcome`).

  `Parallel` has a rule for every way to run steps, and the walk along a tree follows the recursion
  of resolution, as in the proof of what resolution registers.
-/
import ColumnQuery.Proofs.Formula.Alike
import ColumnQuery.Proofs.Formula.Allowed

namespace ColumnQuery

/-! ## Outcomes -/

/-- Refused because something is not constant. -/
inductive QueryError.DemandsConstant : QueryError → Prop
  | parameter (name : String) (node : Node) : DemandsConstant (.call (.variableParameter name) node)
  | key (node : Node) : DemandsConstant (.member .variableKey node)

/-- What comes of both sides: the same, unless the side that is refused found something variable
    that the other one found constant. -/
inductive Outcome (k : Comparison) {α β : Type} (R : α → β → Prop) :
    Except QueryError α → Except QueryError β → Prop
  | ok {a : α} {b : β} (h : R a b) : Outcome k R (.ok a) (.ok b)
  | error (e : QueryError) : Outcome k R (.error e) (.error e)
  | left {e : QueryError} {y : Except QueryError β} (hlacks : k.rightLacks)
      (he : e.DemandsConstant) : Outcome k R (.error e) y
  | right {e : QueryError} {x : Except QueryError α} (hlacks : k.leftLacks)
      (he : e.DemandsConstant) : Outcome k R x (.error e)

namespace Resolve

/-! ## States in step -/

/-- The same call on both sides, with fields that evaluate alike. -/
structure SameAggregate (k : Comparison) (c c' : AggregateCall) : Prop where
  aggregate : c.aggregate = c'.aggregate
  key : c.key = c'.key
  params : c.params = c'.params
  fields : List.Forall₂ (Formula.SameIn (k.envs true)) c.fields c'.fields

structure SameWindow (k : Comparison) (c c' : WindowCall) : Prop where
  operator : c.operator = c'.operator
  key : c.key = c'.key
  params : c.params = c'.params
  frame : c.frame = c'.frame
  fields : List.Forall₂ (Formula.SameIn (k.envs true)) c.fields c'.fields

theorem SameAggregate.narrow {k k' : Comparison} {c c' : AggregateCall} (h : SameAggregate k c c')
    (hk : k'.Narrows k) : SameAggregate k' c c' :=
  ⟨h.aggregate, h.key, h.params, hk.operators ▸ h.fields⟩

theorem SameWindow.narrow {k k' : Comparison} {c c' : WindowCall} (h : SameWindow k c c')
    (hk : k'.Narrows k) : SameWindow k' c c' :=
  ⟨h.operator, h.key, h.params, h.frame, hk.operators ▸ h.fields⟩

/-- Both sides have gathered the same. -/
structure InStep (k : Comparison) (s s' : ResolveState) : Prop where
  locals : s.locals = s'.locals
  nextSlot : s.nextSlot = s'.nextSlot
  aggregates : List.Forall₂ (SameAggregate k) s.aggregates s'.aggregates
  windows : List.Forall₂ (SameWindow k) s.windows s'.windows

variable {k : Comparison} {s s' : ResolveState}

theorem InStep.local? (h : InStep k s s') (name : String) : s.local? name = s'.local? name := by
  rw [ResolveState.local?, ResolveState.local?, h.locals]

theorem InStep.isLocal (h : InStep k s s') (name : String) : s.isLocal name = s'.isLocal name := by
  rw [ResolveState.isLocal, ResolveState.isLocal, h.local?]

theorem InStep.enter (h : InStep k s s') : InStep k s.enter s'.enter :=
  ⟨congrArg ([] :: ·) h.locals, h.nextSlot, h.aggregates, h.windows⟩

theorem InStep.leave (h : InStep k s s') : InStep k s.leave s'.leave :=
  ⟨congrArg (·.drop 1) h.locals, h.nextSlot, h.aggregates, h.windows⟩

theorem InStep.restart (h : InStep k s s') : InStep k s.restart s'.restart :=
  ⟨rfl, rfl, h.aggregates, h.windows⟩

theorem InStep.declare (h : InStep k s s') (name : String) :
    InStep k (s.declare name) (s'.declare name) := by
  refine ⟨?_, congrArg (· + 1) h.nextSlot, h.aggregates, h.windows⟩
  unfold ResolveState.declare
  rw [h.locals, h.nextSlot]

/-! ## Rules for running steps -/

variable {α β γ δ : Type} {Q : α → β → Prop} {R : γ → δ → Prop}

/-- From states in step, both sides come to the same outcome and to states in step. -/
def Parallel (k : Comparison) (m : Resolve α) (m' : Resolve β) (Q : α → β → Prop) : Prop :=
  ∀ s s', InStep k s s' →
    Outcome k (fun r r' => Q r.1 r'.1 ∧ InStep k r.2 r'.2) (m.run s) (m'.run s')

theorem parallel_pure {a : α} {b : β} (h : Q a b) : Parallel k (pure a) (pure b) Q :=
  fun _ _ hs => .ok ⟨h, hs⟩

theorem parallel_throw (e : QueryError) :
    Parallel k (throw e : Resolve α) (throw e : Resolve β) Q := fun _ _ _ => .error e

theorem parallel_throw_bind (e : QueryError) (f : γ → Resolve α) (f' : δ → Resolve β) :
    Parallel k ((throw e : Resolve γ) >>= f) ((throw e : Resolve δ) >>= f') Q :=
  fun _ _ _ => .error e

theorem parallel_lift {x : Except QueryError α} {y : Except QueryError β} (h : Outcome k Q x y) :
    Parallel k (liftM x : Resolve α) (liftM y : Resolve β) Q := by
  intro s s' hs
  cases h with
  | ok h => exact .ok ⟨h, hs⟩
  | error e => exact .error e
  | left hlacks he => exact .left hlacks he
  | right hlacks he => exact .right hlacks he

theorem parallel_bind {m : Resolve α} {m' : Resolve β} {f : α → Resolve γ} {f' : β → Resolve δ}
    (hm : Parallel k m m' Q) (hf : ∀ a b, Q a b → Parallel k (f a) (f' b) R) :
    Parallel k (m >>= f) (m' >>= f') R := by
  intro s s' hs
  have hfirst := hm s s' hs
  rw [StateT.run_bind, StateT.run_bind]
  generalize m.run s = x, m'.run s' = y at hfirst
  cases hfirst with
  | @ok r r' h =>
    obtain ⟨hab, ht⟩ := h
    exact hf r.1 r'.1 hab r.2 r'.2 ht
  | error e => exact .error e
  | left hlacks he => exact .left hlacks he
  | right hlacks he => exact .right hlacks he

theorem parallel_get : Parallel k get get (InStep k) := fun _ _ hs => .ok ⟨hs, hs⟩

theorem parallel_modify {f : ResolveState → ResolveState}
    (h : ∀ s s', InStep k s s' → InStep k (f s) (f s')) :
    Parallel k (modify f) (modify f) fun _ _ => True := fun s s' hs => .ok ⟨trivial, h s s' hs⟩

/-- Steps in a block of their own. -/
theorem parallel_block {m : Resolve α} {m' : Resolve β} {f : α → γ} {f' : β → δ}
    (h : Parallel k m m' Q) (hf : ∀ a b, Q a b → R (f a) (f' b)) :
    Parallel k
      (do
        modify (·.enter)
        let a ← m
        modify (·.leave)
        return f a)
      (do
        modify (·.enter)
        let b ← m'
        modify (·.leave)
        return f' b) R := by
  refine parallel_bind (parallel_modify fun _ _ hs => hs.enter) fun _ _ _ => ?_
  refine parallel_bind h fun a b hab => ?_
  refine parallel_bind (parallel_modify fun _ _ hs => hs.leave) fun _ _ _ => ?_
  exact parallel_pure (hf a b hab)

/-! ## What is resolved against on both sides -/

/-- Tables with the same columns by name, that are read alike where environments correspond. -/
structure Counterparts (k : Comparison) (ctx ctx' : ResolveContext) : Prop where
  params : ctx.params = ctx'.params
  options : ctx.options = ctx'.options
  tables : ctx.tables.length = ctx'.tables.length
  columns : ∀ (t : Nat) (table table' : Table), ctx.tables[t]? = some table →
    ctx'.tables[t]? = some table' →
    ∀ inOperator, (ctx.options.aggregateOnly = true → inOperator = true) → ∀ name,
      Option.Rel (fun c c' : Column => c.Counterpart k inOperator t c') (table.column? name)
        (table'.column? name)
  absent : ∀ inOperator, k.envs inOperator (.ofPosition .none) (.ofPosition .none)
  results : ∀ env env', k.envs false env env' → ∀ ref,
    env.results ref (env.position.left.getD 0) = env'.results ref (env'.position.left.getD 0)

variable {ctx ctx' : ResolveContext} {site : Site} {node : Node}

/-- Formulas that agree, with one tree. -/
def Match (k : Comparison) (inOperator : Bool) (e e' : Formula × Node) : Prop :=
  e.1.Agree k inOperator e'.1 ∧ e.2 = e'.2

/-! ## References -/

theorem outcome_column (h : Counterparts k ctx ctx') (table : Nat) (name : String) :
    Outcome k (Match k site.inOperator) (column ctx site node table name)
      (column ctx' site node table name) := by
  unfold column
  cases htable : ctx.tables[table]? with
  | none =>
    have hlt : ctx'.tables.length ≤ table := h.tables ▸ List.getElem?_eq_none_iff.1 htable
    rw [List.getElem?_eq_none hlt]
    exact .error _
  | some t =>
    have hlt : table < ctx'.tables.length :=
      h.tables ▸ (List.getElem?_eq_some_iff.1 htable).1
    have htable' := List.getElem?_eq_getElem hlt
    rw [htable']
    dsimp only
    by_cases hplace : ctx.options.aggregateOnly = true → site.inOperator = true
    · have hcolumn := h.columns table t _ htable htable' site.inOperator hplace name
      have hopen : (ctx.options.aggregateOnly && !site.inOperator) = false := by
        rw [Bool.and_eq_false_imp]
        intro honly
        rw [hplace honly]
        rfl
      generalize t.column? name = x, ctx'.tables[table].column? name = y at hcolumn
      cases hcolumn with
      | none => exact .error _
      | some hc =>
        dsimp only
        rw [← h.options, hopen]
        exact .ok ⟨Formula.agree_column hc, rfl⟩
    · -- columns may not be read here, but which of them are there is the same on both sides
      obtain ⟨honly, hout⟩ := Classical.not_imp.1 hplace
      have hcolumn := h.columns table t _ htable htable' true (fun _ => rfl) name
      have hshut : (ctx.options.aggregateOnly && !site.inOperator) = true := by
        rw [honly, Bool.eq_false_iff.2 hout]
        rfl
      generalize t.column? name = x, ctx'.tables[table].column? name = y at hcolumn
      cases hcolumn with
      | none => exact .error _
      | some hc =>
        dsimp only
        rw [← h.options, hshut]
        exact .error _

theorem outcome_parameter (h : Counterparts k ctx ctx') (name : String) :
    Outcome k (Match k site.inOperator) (parameter ctx node name) (parameter ctx' node name) := by
  unfold parameter
  rw [← h.params]
  split
  next v _ => exact .ok ⟨Formula.agree_literal v, rfl⟩
  next => exact .error _

theorem outcome_identifier (h : Counterparts k ctx ctx') {s s' : ResolveState}
    (hs : InStep k s s') (name : String) :
    Outcome k (Match k site.inOperator) (identifier ctx site node name s)
      (identifier ctx' site node name s') := by
  unfold identifier
  rw [← hs.local? name]
  split
  next slot _ =>
    split
    next => exact .error _
    next => exact .ok ⟨Formula.agree_slot slot, rfl⟩
  next =>
    split
    next => exact outcome_column h _ _
    next => exact outcome_parameter h _
    next =>
      split
      next => exact .error _
      next =>
        split
        next => exact .error _
        next =>
          split
          next v _ => exact .ok ⟨Formula.agree_literal v, rfl⟩
          next => exact .error _

theorem outcome_owned (h : Counterparts k ctx ctx') (owner : Owner) (key : String) :
    Outcome k (Match k site.inOperator) (owned ctx site node owner key)
      (owned ctx' site node owner key) := by
  unfold owned
  split
  next => exact outcome_column h _ _
  next => exact outcome_parameter h _
  next =>
    unfold mathConstant
    split
    next v _ => exact .ok ⟨Formula.agree_literal v, rfl⟩
    next => exact .error _
  next => exact .error _

/-- Where a constant is demanded, both sides find the same one, or a side that has none is
    refused. -/
theorem parallel_constant (h : Counterparts k ctx ctx') {f f' : Formula} {inOperator : Bool}
    (hf : f.Agree k inOperator f')
    {e : QueryError} (he : e.DemandsConstant) {m : Value → Resolve α} {m' : Value → Resolve β}
    (hm : ∀ v, Parallel k (m v) (m' v) Q) :
    Parallel k
      (match f.constant? with
        | some v => m v
        | none => throw e)
      (match f'.constant? with
        | some v => m' v
        | none => throw e) Q := by
  have hvalue := hf.same.eval (h.absent inOperator)
  unfold Formula.constant?
  cases hconstant : f.isConstant with
  | true =>
    cases hconstant' : f'.isConstant with
    | true =>
      rw [if_pos rfl, if_pos rfl, ← hvalue]
      split
      next v _ => exact hm v
      next => exact parallel_throw e
    | false =>
      have hlacks := (hf.constant hconstant).resolve_left (by simp [hconstant'])
      exact fun _ _ _ => .right hlacks he
  | false =>
    cases hconstant' : f'.isConstant with
    | true =>
      have hlacks := (hf.constant' hconstant').resolve_left (by simp [hconstant])
      exact fun _ _ _ => .left hlacks he
    | false => exact parallel_throw e

/-! ## Calls -/

theorem InStep.ownerOf {s s' : ResolveState} (hs : InStep k s s') (site : Site) (object : Node) :
    ownerOf site s object = ownerOf site s' object := by
  unfold Resolve.ownerOf
  cases object with
  | identifier name =>
    dsimp only
    rw [hs.isLocal]
  | _ => rfl

theorem InStep.callee {s s' : ResolveState} (hs : InStep k s s') (node f : Node) :
    callee node f s = callee node f s' := by
  have hlocal := hs.isLocal
  unfold Resolve.callee
  split <;> simp only [hlocal]

theorem parallel_lift_same (x : Except QueryError α) :
    Parallel k (liftM x : Resolve α) (liftM x : Resolve α) Eq := by
  refine parallel_lift ?_
  cases x with
  | error e => exact .error e
  | ok a => exact .ok rfl

theorem match_lists {es es' : List (Formula × Node)} {inOperator : Bool}
    (hes : List.Forall₂ (Match k inOperator) es es') :
    List.Forall₂ (Formula.Agree k inOperator) (es.map (·.1)) (es'.map (·.1)) ∧
      es.map (·.2) = es'.map (·.2) := by
  induction hes with
  | nil => exact ⟨.nil, rfl⟩
  | cons he _ ih => exact ⟨.cons he.1 ih.1, congrArg₂ List.cons he.2 ih.2⟩

/-- The arguments of an operator call on both sides. -/
structure MatchOperands (k : Comparison) (o o' : Operands) : Prop where
  fields : List.Forall₂ (Match k true) o.fields o'.fields
  params : o.params = o'.params

namespace MatchOperands

variable {o o' : Operands}

theorem key (ho : MatchOperands k o o') : o.key = o'.key := (match_lists ho.fields).2

theorem nodes (ho : MatchOperands k o o') : o.nodes = o'.nodes := by
  rw [Operands.nodes, Operands.nodes, ho.key, ho.params]

theorem values (ho : MatchOperands k o o') : o.values = o'.values := by
  rw [Operands.values, Operands.values, ho.params]

theorem formulas (ho : MatchOperands k o o') :
    List.Forall₂ (Formula.SameIn (k.envs true)) o.formulas o'.formulas := by
  exact (match_lists ho.fields).1.imp fun _ _ hf => hf.same

end MatchOperands

/-- Corresponding lists have what is looked for at the same place. -/
theorem findIdx?_of_forall₂ {α β : Type} {R : α → β → Prop} {xs : List α} {ys : List β}
    (h : List.Forall₂ R xs ys) {p : α → Bool} {q : β → Bool} (hpq : ∀ x y, R x y → p x = q y) :
    xs.findIdx? p = ys.findIdx? q := by
  induction h with
  | nil => rfl
  | cons hxy _ ih => rw [List.findIdx?_cons, List.findIdx?_cons, hpq _ _ hxy, ih]

theorem checkAggregate_congr (h : Counterparts k ctx ctx') (site : Site) (node : Node)
    (a : Aggregate) : checkAggregate ctx' site node a = checkAggregate ctx site node a := by
  rw [checkAggregate, checkAggregate, h.options]

/-- An operator call that is not refused stands in no other one. -/
theorem parallel_checkOperands (site : Site) (node : Node) (name : String)
    (fields params actual : Nat) :
    Parallel k (liftM (checkOperands site node name fields params actual) : Resolve Unit)
      (liftM (checkOperands site node name fields params actual) : Resolve Unit)
      fun _ _ => site.inOperator = false := by
  refine parallel_lift ?_
  cases hcheck : checkOperands site node name fields params actual with
  | error e => exact .error e
  | ok u => exact .ok (checkOperands_eq_ok_iff.1 hcheck).1

theorem match_op (h : Counterparts k ctx ctx') {site : Site} (hplace : site.inOperator = false)
    {o o' : Operands} (ho : MatchOperands k o o') {ref ref' : OpRef} (href : ref = ref')
    {f : Node} :
    Match k site.inOperator (.op ref, .call f o.nodes) (.op ref', .call f o'.nodes) := by
  subst href
  rw [hplace, ho.nodes]
  exact ⟨Formula.agree_op ref fun env env' he => h.results env env' he ref, rfl⟩

theorem parallel_registerAggregate (a : Aggregate) {o o' : Operands} (ho : MatchOperands k o o') :
    Parallel k (registerAggregate a o) (registerAggregate a o') Eq := by
  refine parallel_bind parallel_get fun s s' hs => ?_
  have hfind : s.aggregates.findIdx? (fun c =>
        c.aggregate == a && Node.sameList c.key o.key && Value.sameItems c.params o.values)
      = s'.aggregates.findIdx? fun c =>
        c.aggregate == a && Node.sameList c.key o'.key && Value.sameItems c.params o'.values := by
    refine findIdx?_of_forall₂ hs.aggregates fun c c' hc => ?_
    rw [hc.aggregate, hc.key, hc.params, ho.key, ho.values]
  rw [hfind]
  split
  next => exact parallel_pure rfl
  next =>
    intro t t' _
    refine .ok ⟨congrArg OpRef.aggregate hs.aggregates.length_eq, hs.locals, hs.nextSlot, ?_,
      hs.windows⟩
    exact List.rel_append hs.aggregates
      (.cons ⟨rfl, ho.key, ho.values, ho.formulas⟩ .nil)

theorem parallel_registerWindow (w : WindowOperator) {o o' : Operands} (frame : Frame)
    (ho : MatchOperands k o o') :
    Parallel k (registerWindow w o frame) (registerWindow w o' frame) Eq := by
  refine parallel_bind parallel_get fun s s' hs => ?_
  have hfind : s.windows.findIdx? (fun c =>
        c.operator == w && Node.sameList c.key o.key && Value.sameItems c.params o.values
          && c.frame == frame)
      = s'.windows.findIdx? fun c =>
        c.operator == w && Node.sameList c.key o'.key && Value.sameItems c.params o'.values
          && c.frame == frame := by
    refine findIdx?_of_forall₂ hs.windows fun c c' hc => ?_
    rw [hc.operator, hc.key, hc.params, hc.frame, ho.key, ho.values]
  rw [hfind]
  split
  next => exact parallel_pure rfl
  next =>
    intro t t' _
    refine .ok ⟨congrArg OpRef.window hs.windows.length_eq, hs.locals, hs.nextSlot,
      hs.aggregates, ?_⟩
    exact List.rel_append hs.windows
      (.cons ⟨rfl, ho.key, ho.values, rfl, ho.formulas⟩ .nil)

theorem parallel_registerAggregateAt (site : Site) (a : Aggregate) {o o' : Operands}
    (ho : MatchOperands k o o') :
    Parallel k (registerAggregateAt site a o) (registerAggregateAt site a o') Eq := by
  unfold registerAggregateAt
  split
  next => exact parallel_registerWindow _ _ ho
  next => exact parallel_registerAggregate a ho

/-! ## Expressions -/

/-- Properties with formulas that agree, with one tree. -/
def MatchEntry (k : Comparison) (inOperator : Bool) (e e' : String × Formula × Node) : Prop :=
  e.1 = e'.1 ∧ Match k inOperator e.2 e'.2

theorem matchEntry_lists {es es' : List (String × Formula × Node)} {inOperator : Bool}
    (hes : List.Forall₂ (MatchEntry k inOperator) es es') :
    List.Forall₂ (fun e e' => e.1 = e'.1 ∧ Formula.Agree k inOperator e.2 e'.2)
        (es.map fun p => (p.1, p.2.1)) (es'.map fun p => (p.1, p.2.1)) ∧
      es.map (fun p => (p.1, p.2.2)) = es'.map fun p => (p.1, p.2.2) := by
  induction hes with
  | nil => exact ⟨.nil, rfl⟩
  | cons he _ ih =>
    obtain ⟨hname, hformula, htree⟩ := he
    exact ⟨.cons ⟨hname, hformula⟩ ih.1, congrArg₂ List.cons (congrArg₂ Prod.mk hname htree) ih.2⟩

mutual

theorem parallel_expression (h : Counterparts k ctx ctx') (site : Site) : ∀ node : Node,
    Parallel k (expression ctx site node) (expression ctx' site node) (Match k site.inOperator)
  | .literal v => by
    rw [expression, expression]
    exact parallel_pure ⟨Formula.agree_literal _, rfl⟩
  | .identifier name => by
    rw [expression, expression]
    exact parallel_bind parallel_get fun s s' hs => parallel_lift (outcome_identifier h hs name)
  | .column t name => by
    rw [expression, expression]
    exact parallel_lift (outcome_column h t name)
  | .parameter name => by
    rw [expression, expression]
    exact parallel_lift (outcome_parameter h name)
  | .member object property computed => by
    rw [expression, expression]
    refine parallel_bind parallel_get fun s s' hs => ?_
    rw [hs.ownerOf site object]
    split
    next =>
      refine parallel_bind (parallel_expression h site object) fun (o, oNode) (o', oNode') ho => ?_
      obtain ⟨ho, rfl⟩ := ho
      dsimp only
      split
      next name => exact parallel_pure ⟨ho.member (Formula.agree_literal _), rfl⟩
      next =>
        refine parallel_bind (parallel_expression h site property)
          fun (p, pNode) (p', pNode') hp => ?_
        obtain ⟨hp, rfl⟩ := hp
        exact parallel_pure ⟨ho.member hp, rfl⟩
    next =>
      split
      next => exact parallel_lift (outcome_owned h _ _)
      next =>
        refine parallel_bind (parallel_expression h site property)
          fun (p, pNode) (p', pNode') hp => ?_
        exact parallel_constant h hp.1 (.key _) fun v => parallel_lift (outcome_owned h _ _)
  | .call f args => by
    rw [expression, expression]
    refine parallel_bind parallel_get fun s s' hs => ?_
    rw [hs.callee]
    refine parallel_bind (parallel_lift_same _) fun c c' hc => ?_
    subst hc
    cases c with
    | scalar g =>
      dsimp only
      split
      next =>
        refine parallel_bind (parallel_expressions h site args) fun as as' has => ?_
        exact parallel_pure
          ⟨Formula.agree_call g (match_lists has).1, congrArg (Node.call f) (match_lists has).2⟩
      next => exact parallel_throw_bind _ _ _
    | aggregate a =>
      dsimp only
      rw [checkAggregate_congr h]
      refine parallel_bind (parallel_lift_same _) fun _ _ _ => ?_
      refine parallel_bind (parallel_checkOperands _ _ _ _ _ _) fun _ _ hplace => ?_
      refine parallel_bind (parallel_operands h site _ _ _ args) fun o o' ho => ?_
      refine parallel_bind (parallel_registerAggregateAt site a ho) fun ref ref' href => ?_
      exact parallel_pure (match_op h hplace ho href)
    | window w =>
      dsimp only
      rw [← h.options]
      split
      next =>
        refine parallel_bind (parallel_checkOperands _ _ _ _ _ _) fun _ _ hplace => ?_
        refine parallel_bind (parallel_operands h site _ _ _ args) fun o o' ho => ?_
        refine parallel_bind (parallel_registerWindow _ _ ho) fun ref ref' href => ?_
        exact parallel_pure (match_op h hplace ho href)
      next => exact parallel_throw_bind _ _ _
  | .unary op a => by
    rw [expression, expression]
    refine parallel_bind (parallel_expression h site a) fun e e' he => ?_
    exact parallel_pure ⟨he.1.unary op, congrArg (Node.unary op) he.2⟩
  | .binary op l r => by
    rw [expression, expression]
    refine parallel_bind (parallel_expression h site l) fun e e' he => ?_
    refine parallel_bind (parallel_expression h site r) fun x x' hx => ?_
    exact parallel_pure ⟨he.1.binary op hx.1, congrArg₂ (Node.binary op) he.2 hx.2⟩
  | .logical op l r => by
    rw [expression, expression]
    refine parallel_bind (parallel_expression h site l) fun e e' he => ?_
    refine parallel_bind (parallel_expression h site r) fun x x' hx => ?_
    exact parallel_pure ⟨he.1.logical op hx.1, congrArg₂ (Node.logical op) he.2 hx.2⟩
  | .conditional t c a => by
    rw [expression, expression]
    refine parallel_bind (parallel_expression h site t) fun (t, tNode) (t', tNode') ht => ?_
    refine parallel_bind (parallel_expression h site c) fun (c, cNode) (c', cNode') hc => ?_
    refine parallel_bind (parallel_expression h site a) fun (a, aNode) (a', aNode') ha => ?_
    obtain ⟨ht, rfl⟩ := ht
    obtain ⟨hc, rfl⟩ := hc
    obtain ⟨ha, rfl⟩ := ha
    exact parallel_pure ⟨ht.conditional hc ha, rfl⟩
  | .array es => by
    rw [expression, expression]
    refine parallel_bind (parallel_expressions h site es) fun es es' hes => ?_
    obtain ⟨hformulas, htrees⟩ := match_lists hes
    exact parallel_pure ⟨Formula.agree_array hformulas, congrArg Node.array htrees⟩
  | .object ps => by
    rw [expression, expression]
    refine parallel_bind (parallel_properties h site ps) fun ps ps' hps => ?_
    obtain ⟨hformulas, htrees⟩ := matchEntry_lists hps
    exact parallel_pure ⟨Formula.agree_object hformulas, congrArg Node.object htrees⟩
  | .arrow _ _ | .function _ _ _ | .block _ | .declaration _ _ | .returns _ | .branch _ _ _
  | .loop _ _ | .assignment _ _ _ | .update _ _ _ | .await _ | .yield _ | .rolling _ _ => by
    rw [expression, expression]
    exact parallel_throw _

theorem parallel_expressions (h : Counterparts k ctx ctx') (site : Site) : ∀ nodes : List Node,
    Parallel k (expressions ctx site nodes) (expressions ctx' site nodes)
      (List.Forall₂ (Match k site.inOperator))
  | [] => by
    rw [expressions, expressions]
    exact parallel_pure .nil
  | n :: ns => by
    rw [expressions, expressions]
    refine parallel_bind (parallel_expression h site n) fun e e' he => ?_
    refine parallel_bind (parallel_expressions h site ns) fun es es' hes => ?_
    exact parallel_pure (.cons he hes)

theorem parallel_properties (h : Counterparts k ctx ctx') (site : Site) :
    ∀ ps : List (String × Node),
    Parallel k (properties ctx site ps) (properties ctx' site ps)
      (List.Forall₂ (MatchEntry k site.inOperator))
  | [] => by
    rw [properties, properties]
    exact parallel_pure .nil
  | (name, n) :: ps => by
    rw [properties, properties]
    refine parallel_bind (parallel_expression h site n) fun e e' he => ?_
    refine parallel_bind (parallel_properties h site ps) fun es es' hes => ?_
    exact parallel_pure (.cons ⟨rfl, he⟩ hes)

theorem parallel_operands (h : Counterparts k ctx ctx') (site : Site) (node : Node)
    (name : String) : ∀ (fields : Nat) (nodes : List Node),
    Parallel k (operands ctx { site with inOperator := true } node name fields nodes)
      (operands ctx' { site with inOperator := true } node name fields nodes) (MatchOperands k)
  | _, [] => by
    rw [operands, operands]
    exact parallel_pure ⟨.nil, rfl⟩
  | fields + 1, n :: ns => by
    rw [operands, operands]
    refine parallel_bind (parallel_expression h { site with inOperator := true } n)
      fun e e' he => ?_
    refine parallel_bind (parallel_operands h site node name fields ns) fun o o' ho => ?_
    exact parallel_pure ⟨.cons he ho.fields, ho.params⟩
  | 0, n :: ns => by
    rw [operands, operands]
    refine parallel_bind (parallel_expression h { site with inOperator := true } n)
      fun (p, pNode) (p', pNode') hp => ?_
    obtain ⟨hp, rfl⟩ := hp
    refine parallel_constant h hp (.parameter _ _) fun v => ?_
    refine parallel_bind (parallel_operands h site node name 0 ns) fun o o' ho => ?_
    exact parallel_pure ⟨ho.fields, congrArg ((v, pNode) :: ·) ho.params⟩

end

/-! ## Statements -/

/-- Statements that run alike, with one tree or list of trees. -/
def MatchBody {τ : Type} (k : Comparison) (site : Site) (r r' : List Statement × τ) : Prop :=
  Formula.SameBody (k.envs site.inOperator) r.1 r'.1 ∧ r.2 = r'.2

mutual

theorem parallel_statement (h : Counterparts k ctx ctx') (site : Site) : ∀ node : Node,
    Parallel k (statement ctx site node) (statement ctx' site node) (MatchBody k site)
  | .declaration kind ds => by
    rw [statement, statement]
    refine parallel_bind (parallel_declarations h site _ ds) fun ds ds' hds => ?_
    exact parallel_pure ⟨hds.1, congrArg (Node.declaration kind) hds.2⟩
  | .returns none => by
    rw [statement, statement]
    exact parallel_pure ⟨Formula.sameBody_returnsNone, rfl⟩
  | .returns (some a) => by
    rw [statement, statement]
    refine parallel_bind (parallel_expression h site a) fun (e, eNode) (e', eNode') he => ?_
    obtain ⟨he, rfl⟩ := he
    exact parallel_pure ⟨Formula.sameBody_returns he.same, rfl⟩
  | .branch t c none => by
    rw [statement, statement]
    refine parallel_bind (parallel_expression h site t) fun (e, eNode) (e', eNode') he => ?_
    refine parallel_bind (parallel_branch h site c) fun (c, cNode) (c', cNode') hc => ?_
    obtain ⟨he, rfl⟩ := he
    obtain ⟨hc, rfl⟩ := hc
    exact parallel_pure ⟨Formula.sameBody_branch he.same hc Formula.sameBody_nil, rfl⟩
  | .branch t c (some a) => by
    rw [statement, statement]
    refine parallel_bind (parallel_expression h site t) fun (e, eNode) (e', eNode') he => ?_
    refine parallel_bind (parallel_branch h site c) fun (c, cNode) (c', cNode') hc => ?_
    refine parallel_bind (parallel_branch h site a) fun (a, aNode) (a', aNode') ha => ?_
    obtain ⟨he, rfl⟩ := he
    obtain ⟨hc, rfl⟩ := hc
    obtain ⟨ha, rfl⟩ := ha
    exact parallel_pure ⟨Formula.sameBody_branch he.same hc ha, rfl⟩
  | .block ss => by
    rw [statement, statement]
    exact parallel_block (parallel_statements h site ss)
      fun r r' hr => ⟨Formula.sameBody_block hr.1, congrArg Node.block hr.2⟩
  | .literal _ | .identifier _ | .member _ _ _ | .call _ _ | .unary _ _ | .binary _ _ _
  | .logical _ _ _ | .conditional _ _ _ | .array _ | .object _ | .arrow _ _ | .function _ _ _
  | .loop _ _ | .assignment _ _ _ | .update _ _ _ | .await _ | .yield _ | .column _ _
  | .parameter _ | .rolling _ _ => by
    unfold statement
    refine parallel_bind (parallel_expression h site _) fun e e' he => ?_
    exact parallel_pure ⟨Formula.sameBody_expression he.1.same, he.2⟩
termination_by node => (sizeOf node, 0)

theorem parallel_branch (h : Counterparts k ctx ctx') (site : Site) : ∀ node : Node,
    Parallel k (branch ctx site node) (branch ctx' site node) (MatchBody k site)
  | .block ss => by
    rw [branch, branch]
    exact parallel_block (parallel_statements h site ss)
      fun r r' hr => ⟨hr.1, congrArg Node.block hr.2⟩
  | .literal _ | .identifier _ | .member _ _ _ | .call _ _ | .unary _ _ | .binary _ _ _
  | .logical _ _ _ | .conditional _ _ _ | .array _ | .object _ | .arrow _ _ | .function _ _ _
  | .declaration _ _ | .returns _ | .branch _ _ _
  | .loop _ _ | .assignment _ _ _ | .update _ _ _ | .await _ | .yield _ | .column _ _
  | .parameter _ | .rolling _ _ => by
    unfold branch
    exact parallel_block (parallel_statement h site _) fun r r' hr => hr
termination_by node => (sizeOf node, 1)

theorem parallel_statements (h : Counterparts k ctx ctx') (site : Site) : ∀ nodes : List Node,
    Parallel k (statements ctx site nodes) (statements ctx' site nodes) (MatchBody k site)
  | [] => by
    rw [statements, statements]
    exact parallel_pure ⟨Formula.sameBody_nil, rfl⟩
  | n :: ns => by
    rw [statements, statements]
    refine parallel_bind (parallel_statement h site n) fun r r' hr => ?_
    refine parallel_bind (parallel_statements h site ns) fun t t' ht => ?_
    exact parallel_pure ⟨hr.1.append ht.1, congrArg₂ List.cons hr.2 ht.2⟩
termination_by nodes => (sizeOf nodes, 0)

theorem parallel_declarations (h : Counterparts k ctx ctx') (site : Site) (node : Node) :
    ∀ ds : List (Pattern × Option Node),
    Parallel k (declarations ctx site node ds) (declarations ctx' site node ds) fun r r' =>
      MatchBody k site (r.map (·.1), r.map (·.2)) (r'.map (·.1), r'.map (·.2))
  | [] => by
    rw [declarations, declarations]
    exact parallel_pure ⟨Formula.sameBody_nil, rfl⟩
  | (.object _, _) :: _ => by
    rw [declarations, declarations]
    exact parallel_throw _
  | (.name _, none) :: _ => by
    rw [declarations, declarations]
    exact parallel_throw _
  | (.name name, some init) :: ds => by
    rw [declarations, declarations]
    refine parallel_bind (parallel_expression h site init) fun (e, eNode) (e', eNode') he => ?_
    refine parallel_bind parallel_get fun s s' hs => ?_
    refine parallel_bind (parallel_modify fun _ _ ht => ht.declare name) fun _ _ _ => ?_
    refine parallel_bind (parallel_declarations h site node ds) fun more more' hmore => ?_
    obtain ⟨he, rfl⟩ := he
    refine parallel_pure ⟨?_, congrArg ((Pattern.name name, some eNode) :: ·) hmore.2⟩
    rw [hs.nextSlot]
    exact (Formula.sameBody_assign s'.nextSlot he.same).append hmore.1
termination_by ds => (sizeOf ds, 0)

end

/-! ## Whole expressions -/

theorem parallel_body (h : Counterparts k ctx ctx') (site : Site) (node : Node) :
    Parallel k (body ctx site node) (body ctx' site node) (Match k site.inOperator) := by
  unfold body
  split
  next ss =>
    exact parallel_block (parallel_statements h site ss)
      fun r r' hr => ⟨Formula.agree_block hr.1, congrArg Node.block hr.2⟩
  next => exact parallel_expression h site _

theorem parallel_root (h : Counterparts k ctx ctx') (frame : Option Frame) (node : Node) :
    Parallel k (root ctx frame node) (root ctx' frame node) (Match k false) := by
  unfold root
  rw [← h.tables]
  dsimp only
  refine parallel_bind (parallel_modify fun _ _ hs => hs.restart) fun _ _ _ => ?_
  refine parallel_bind (parallel_lift_same _) fun inner inner' hinner => ?_
  subst hinner
  split
  next =>
    refine parallel_bind (parallel_body h _ _) fun e e' he => ?_
    exact parallel_pure ⟨he.1, congrArg (Node.rolling _) he.2⟩
  next => exact parallel_body h _ _

variable {k' : Comparison}

/-- A function that sees the same on both sides. -/
def SeesSame (k : Comparison) (ctx ctx' : ResolveContext) (f : EscapedFunction) : Prop :=
  ∀ env env', k.envs false env env' →
    f ⟨ctx.tables, env.position⟩ ctx.params = f ⟨ctx'.tables, env'.position⟩ ctx'.params

/-- An expression under its name on both sides. -/
structure SameNamed (k : Comparison) (e e' : NamedFormula) : Prop where
  name : e.name = e'.name
  tree : e.tree = e'.tree
  formula : Formula.SameIn (k.envs false) e.formula e'.formula

theorem parallel_spec (h : Counterparts k ctx ctx') (hk : k'.Narrows k) (frame : Option Frame)
    (e : ExprSpec) :
    Parallel k (spec ctx frame e) (spec ctx' frame e) fun r r' =>
      ((∀ f ∈ e.escaped?, SeesSame k' ctx ctx' f) → Formula.SameIn (k'.envs false) r.1 r'.1) ∧
        r.2 = r'.2 := by
  induction e generalizing frame with
  | source text =>
    unfold spec
    refine parallel_bind (parallel_lift_same _) fun node node' hnode => ?_
    subst hnode
    refine parallel_bind (parallel_root h frame node) fun r r' hr => ?_
    exact parallel_pure ⟨fun _ => hr.1.same.mono hk.rows, congrArg some hr.2⟩
  | tree node =>
    unfold spec
    refine parallel_bind (parallel_root h frame node) fun r r' hr => ?_
    exact parallel_pure ⟨fun _ => hr.1.same.mono hk.rows, congrArg some hr.2⟩
  | column name =>
    unfold spec
    refine parallel_bind (parallel_root h frame _) fun r r' hr => ?_
    exact parallel_pure ⟨fun _ => hr.1.same.mono hk.rows, congrArg some hr.2⟩
  | escape f =>
    refine parallel_pure ⟨fun hsees env env' he s => ?_, rfl⟩
    rw [Formula.evalWith, Formula.evalWith, hsees f rfl env env' he]
  | value v => exact parallel_pure ⟨fun _ => Formula.sameIn_literal v, rfl⟩
  | rolling inner f ih =>
    unfold spec
    refine parallel_bind (ih (some f)) fun r r' hr => ?_
    exact parallel_pure ⟨hr.1, congrArg (Option.map (Node.rolling f)) hr.2⟩

theorem parallel_named (h : Counterparts k ctx ctx') (hk : k'.Narrows k)
    (exprs : List (String × ExprSpec)) :
    Parallel k (named ctx exprs) (named ctx' exprs) fun es es' =>
      (∀ e ∈ exprs, ∀ f ∈ e.2.escaped?, SeesSame k' ctx ctx' f) →
        List.Forall₂ (SameNamed k') es es' := by
  induction exprs with
  | nil => exact parallel_pure fun _ => .nil
  | cons e es ih =>
    unfold named
    refine parallel_bind (parallel_spec h hk none e.2) fun r r' hr => ?_
    refine parallel_bind ih fun more more' hmore => ?_
    refine parallel_pure fun hsees => ?_
    obtain ⟨hfirst, hrest⟩ := List.forall_mem_cons.1 hsees
    exact .cons ⟨rfl, hr.2, hr.1 hfirst⟩ (hmore hrest)

/-- What both sides come to: expressions that evaluate alike, and the same calls. -/
structure SameResolution (k : Comparison) (r r' : Resolution) : Prop where
  exprs : List.Forall₂ (SameNamed k) r.exprs r'.exprs
  aggregates : List.Forall₂ (SameAggregate k) r.aggregates r'.aggregates
  windows : List.Forall₂ (SameWindow k) r.windows r'.windows
  join : r.join = r'.join

/-- Both sides resolve to the same, or one of them demands a constant that it lacks. Escaped
    functions need to see the same only where the expressions are to be compared. -/
theorem outcome_resolve_narrowed (h : Counterparts k ctx ctx') (hk : k'.Narrows k)
    (exprs : List (String × ExprSpec)) :
    Outcome k
      (fun r r' => (∀ e ∈ exprs, ∀ f ∈ e.2.escaped?, SeesSame k' ctx ctx' f) →
        SameResolution k' r r')
      (ColumnQuery.resolve ctx exprs) (ColumnQuery.resolve ctx' exprs) := by
  have hrun := parallel_named h hk exprs .empty .empty ⟨rfl, rfl, .nil, .nil⟩
  unfold ColumnQuery.resolve
  generalize (named ctx exprs).run .empty = x, (named ctx' exprs).run .empty = y at hrun
  cases hrun with
  | ok hr =>
    obtain ⟨hexprs, hstate⟩ := hr
    exact .ok fun hsees => ⟨hexprs hsees, hstate.aggregates.imp fun _ _ hc => hc.narrow hk,
      hstate.windows.imp fun _ _ hc => hc.narrow hk, congrArg ResolveOptions.join h.options⟩
  | error e => exact .error e
  | left hlacks he => exact .left hlacks he
  | right hlacks he => exact .right hlacks he

theorem outcome_resolve (h : Counterparts k ctx ctx') (exprs : List (String × ExprSpec)) :
    Outcome k
      (fun r r' => (∀ e ∈ exprs, ∀ f ∈ e.2.escaped?, SeesSame k ctx ctx' f) →
        SameResolution k r r')
      (ColumnQuery.resolve ctx exprs) (ColumnQuery.resolve ctx' exprs) :=
  outcome_resolve_narrowed h (.refl k) exprs

end Resolve

end ColumnQuery
