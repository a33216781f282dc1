/-
  Fields and their trees.

  Calls of operators are compared by the trees of their fields. A tree tells its field: resolved
  once more, with no header and outside of all blocks, it gives the field again (`told_of_field`).
  So fields with equal trees are equal (`eq_of_told`). The exception is a tree that reads a
  constant of `Math` under a key that has to be resolved, since such a key keeps the names that the
  header gave it.
-/
import ColumnQuery.Proofs.Formula.Exported

namespace ColumnQuery

namespace Resolve

variable {ctx : ResolveContext} {site : Site} {s s' : ResolveState}

/-! ## Inside of operators -/

/-- A place inside of an operator, apart from what is around the operator. -/
def inward (site : Site) : Site := ⟨site.scope, none, true⟩

theorem column_inward (hsite : site.inOperator = true) {node : Node} {t : Nat} {name : String}
    {e : Formula × Node} (h : column ctx site node t name = .ok e) :
    column ctx (inward site) node t name = .ok e :=
  (column_spec h).2 (inward site) node hsite.symm

theorem owned_inward (hsite : site.inOperator = true) {node : Node} {owner : Owner} {key : String}
    {e : Formula × Node} (h : owned ctx site node owner key = .ok e) :
    owned ctx (inward site) node owner key = .ok e := by
  cases owner with
  | table t => exact column_inward hsite h
  | params | math | other => exact h

/-- No name inside of an operator stands for a constant of a block. -/
theorem local?_of_identifier (hsite : site.inOperator = true) {node : Node} {name : String}
    {e : Formula × Node} (h : identifier ctx site node name s = .ok e) : s.local? name = none := by
  rcases identifier_cases h with ⟨_, -, hplace, -⟩ | ⟨hlocal, -⟩
  · exact absurd hsite (Bool.eq_false_iff.1 hplace)
  · exact hlocal

theorem identifier_inward (hsite : site.inOperator = true) {node : Node} {name : String}
    {e : Formula × Node} (h : identifier ctx site node name s = .ok e) :
    identifier ctx (inward site) node name .empty = .ok e := by
  have hlocal := local?_of_identifier hsite h
  have hnone : ResolveState.empty.local? name = none := rfl
  unfold identifier at h ⊢
  rw [hlocal] at h
  rw [hnone]
  dsimp only [inward] at h ⊢
  cases hcolumn : site.scope.columns.lookup name with
  | some place =>
    rw [hcolumn] at h
    exact column_inward hsite h
  | none =>
    rw [hcolumn] at h
    cases hparam : site.scope.paramNames.lookup name with
    | some _ | none =>
      rw [hparam] at h
      exact h

theorem ownerOf_inward {object : Node}
    (h : ∀ name, object = .identifier name → s.isLocal name = false) :
    ownerOf (inward site) .empty object = ownerOf site s object := by
  cases object with
  | identifier name =>
    have hlocal : ¬ s.isLocal name = true := Bool.eq_false_iff.1 (h name rfl)
    exact (if_neg hlocal).symm
  | _ => rfl

theorem ownerOf_inward_of_ne {object : Node} (h : ownerOf site s object ≠ .other) :
    ownerOf (inward site) .empty object = ownerOf site s object := by
  refine ownerOf_inward fun name hname => ?_
  cases hlocal : s.isLocal name with
  | false => rfl
  | true =>
    rw [hname] at h
    exact absurd (if_pos hlocal) h

theorem ownerOf_inward_of_derives (hsite : site.inOperator = true) {object : Node}
    {e : Formula × Node} (h : Derives ctx site s (.expression object e) s') :
    ownerOf (inward site) .empty object = ownerOf site s object := by
  refine ownerOf_inward fun name hname => ?_
  subst hname
  cases h with
  | identifier he =>
    unfold ResolveState.isLocal
    rw [local?_of_identifier hsite he]
    rfl

theorem callee_inward {node f : Node} {c : Callee} (h : callee node f s = .ok c) :
    callee node f .empty = .ok c := by
  unfold callee at h ⊢
  split at h
  next name =>
    split at h
    next => cases h
    next => exact h
  next ns name =>
    split at h
    next => cases h
    next => exact h
  next => cases h
  next => cases h
  next => cases h

/-- What an argument of an operator resolves to does not depend on the calls, the constants and the
    window around it. -/
theorem Derives.inward {part : Part} (h : Derives ctx site s part s') :
    site.inOperator = true → part.IsArgument →
      Derives ctx (inward site) .empty part .empty := by
  induction h with
  | literal v => exact fun _ _ => .literal v
  | identifier he => exact fun hsite _ => .identifier (identifier_inward hsite he)
  | column he => exact fun hsite _ => .column (column_inward hsite he)
  | parameter he => exact fun _ _ => .parameter he
  | owned howner hother hkey he =>
    intro hsite _
    have hsame := ownerOf_inward_of_ne (howner ▸ hother)
    exact .owned (hsame.trans howner) hother hkey (owned_inward hsite he)
  | resolvedKey howner hother hplain _ hv he ih =>
    intro hsite _
    have hsame := ownerOf_inward_of_ne (howner ▸ hother)
    exact .resolvedKey (hsame.trans howner) hother hplain (ih hsite trivial) hv
      (owned_inward hsite he)
  | dotted howner ho ih =>
    intro hsite _
    have hsame := ownerOf_inward_of_derives hsite ho
    exact .dotted (hsame.trans howner) (ih hsite trivial)
  | member howner hname ho _ iho ihp =>
    intro hsite _
    have hsame := ownerOf_inward_of_derives hsite ho
    exact .member (hsame.trans howner) hname (iho hsite trivial) (ihp hsite trivial)
  | scalar hcallee hadmits _ ih =>
    exact fun hsite _ => .scalar (callee_inward hcallee) hadmits (ih hsite trivial)
  | aggregate _ _ hplace _ _ _ | window _ _ hplace _ _ _ =>
    exact fun hsite _ => absurd hsite (Bool.eq_false_iff.1 hplace)
  | unary _ ih => exact fun hsite _ => .unary (ih hsite trivial)
  | binary _ _ ihl ihr => exact fun hsite _ => .binary (ihl hsite trivial) (ihr hsite trivial)
  | logical _ _ ihl ihr => exact fun hsite _ => .logical (ihl hsite trivial) (ihr hsite trivial)
  | conditional _ _ _ iht ihc iha =>
    exact fun hsite _ =>
      .conditional (iht hsite trivial) (ihc hsite trivial) (iha hsite trivial)
  | array _ ih => exact fun hsite _ => .array (ih hsite trivial)
  | object _ ih => exact fun hsite _ => .object (ih hsite trivial)
  | noExpressions => exact fun _ _ => .noExpressions
  | moreExpressions _ _ ih ih' =>
    exact fun hsite _ => .moreExpressions (ih hsite trivial) (ih' hsite trivial)
  | noProperties => exact fun _ _ => .noProperties
  | moreProperties _ _ ih ih' =>
    exact fun hsite _ => .moreProperties (ih hsite trivial) (ih' hsite trivial)
  | _ => exact fun _ hargument => hargument.elim

/-! ## The field of a tree -/

/-- A place inside of an operator without a header. -/
def bareField (ctx : ResolveContext) : Site := ⟨Scope.standard ctx.tables.length, none, true⟩

/-- A tree tells its field, if it reads no constant of `Math` under a key that has to be
    resolved. -/
def Told (ctx : ResolveContext) (f : Formula) (t : Node) : Prop :=
  t.plainMathKeys = true →
    (expression ctx (bareField ctx) t).run .empty = .ok ((f, t), .empty)

theorem told_of_field (hsite : site.inOperator = true) {node : Node} {e : Formula × Node}
    (h : Derives ctx site s (.expression node e) s') : Told ctx e.1 e.2 := by
  intro hplain
  have hinward : Derives ctx (inward site) .empty (.expression node e) .empty :=
    h.inward hsite trivial
  exact (hinward.again (mathKeysAgree_of_plain hplain)).runs

theorem eq_of_told {fs gs : List Formula} {ts : List Node} (hfs : List.Forall₂ (Told ctx) fs ts)
    (hgs : List.Forall₂ (Told ctx) gs ts) (hplain : ∀ t ∈ ts, t.plainMathKeys = true) :
    fs = gs := by
  induction hfs generalizing gs with
  | nil =>
    cases hgs
    rfl
  | @cons f t fs ts hf _ ih =>
    cases hgs with
    | @cons g _ gs _ hg hgs =>
      obtain ⟨ht, hts⟩ := List.forall_mem_cons.1 hplain
      have hsame := Except.ok.inj ((hf ht).symm.trans (hg ht))
      have hfirst : f = g := congrArg (fun outcome => outcome.1.1) hsame
      rw [hfirst, ih hgs hts]

/-! ## The calls of a resolution -/

/-- The trees of the fields of all calls tell the fields. -/
structure CallsTold (ctx : ResolveContext) (aggregates : List AggregateCall)
    (windows : List WindowCall) : Prop where
  aggregates : ∀ c ∈ aggregates, List.Forall₂ (Told ctx) c.fields c.key
  windows : ∀ c ∈ windows, List.Forall₂ (Told ctx) c.fields c.key

theorem told_of_operands (hsite : site.inOperator = true) {fields : Nat} {nodes : List Node}
    {o : Operands} (h : Derives ctx site s (.operands fields nodes o) s') :
    List.Forall₂ (Told ctx) o.formulas o.key := by
  induction nodes generalizing s fields o with
  | nil =>
    cases h
    exact .nil
  | cons n ns ih =>
    cases h with
    | field he ho => exact .cons (told_of_field hsite he) (ih ho)
    | constant _ _ ho =>
      have hrest := ih ho
      exact hrest

/-- A call of an aggregate has its arguments. -/
theorem CallsTold.register {o : Operands} (h : CallsTold ctx s.aggregates s.windows)
    (ho : List.Forall₂ (Told ctx) o.formulas o.key) {frame : Option Frame} {c : OperatorCall}
    (hc : (∃ a, c = o.aggregateCall frame a) ∨ ∃ w, c = o.windowCall frame w) :
    CallsTold ctx (s.register c).aggregates (s.register c).windows := by
  have hwindow : ∀ w : WindowCall, w.fields = o.formulas → w.key = o.key →
      CallsTold ctx (s.register (.window w)).aggregates (s.register (.window w)).windows := by
    intro w hfields hkey
    refine ⟨h.aggregates, fun d hd => ?_⟩
    rcases mem_addUnless hd with hd | rfl
    · exact h.windows d hd
    · rw [hfields, hkey]
      exact ho
  rcases hc with ⟨a, rfl⟩ | ⟨w, rfl⟩
  · cases frame with
    | some frame => exact hwindow _ rfl rfl
    | none =>
      refine ⟨fun d hd => ?_, h.windows⟩
      rcases mem_addUnless hd with hd | rfl
      · exact h.aggregates d hd
      · exact ho
  · exact hwindow _ rfl rfl

theorem Derives.callsTold {part : Part} (h : Derives ctx site s part s') :
    CallsTold ctx s.aggregates s.windows → CallsTold ctx s'.aggregates s'.windows :=
  h.steps (R := fun s t => CallsTold ctx s.aggregates s.windows →
      CallsTold ctx t.aggregates t.windows)
    (fun haggregates hwindows hs => haggregates ▸ hwindows ▸ hs) (fun h h' hs => h' (h hs))
    (fun _ _ ho hs => hs.register (told_of_operands rfl ho) (.inl ⟨_, rfl⟩))
    fun _ _ ho hs => hs.register (told_of_operands rfl ho) (.inr ⟨_, rfl⟩)

theorem callsTold_of_named {exprs : List (String × ExprSpec)} {es : List NamedFormula}
    (h : (named ctx exprs).run s = .ok (es, s')) :
    CallsTold ctx s.aggregates s.windows → CallsTold ctx s'.aggregates s'.windows :=
  steps_of_named (R := fun s t => CallsTold ctx s.aggregates s.windows →
      CallsTold ctx t.aggregates t.windows)
    (fun haggregates hwindows hs => haggregates ▸ hwindows ▸ hs) (fun h h' hs => h' (h hs))
    Derives.callsTold h

end Resolve

/-- Whatever resolves, the trees of the fields of its calls tell the fields. -/
theorem callsTold_of_resolve {ctx : ResolveContext} {exprs : List (String × ExprSpec)}
    {r : Resolution} (h : resolve ctx exprs = .ok r) :
    Resolve.CallsTold ctx r.aggregates r.windows := by
  obtain ⟨es, s, hnamed, rfl⟩ := resolve_eq_ok_iff.1 h
  exact Resolve.callsTold_of_named hnamed ⟨by simp [ResolveState.empty], by simp [ResolveState.empty]⟩

end ColumnQuery
