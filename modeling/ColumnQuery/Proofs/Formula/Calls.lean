/-
  Expressions that are calls of aggregates.

  The arguments of an aggregate are read inside of an operator, where the options and the frame do
  not matter to them (`operands_elsewhere`). So a call resolves to a reference to itself, with the
  same fields and the same parameters wherever it is admitted: row by row and group by group
  (`resolve_call`), or over a frame (`resolve_rollingCall`).
-/
import ColumnQuery.Proofs.Formula.Roots
import ColumnQuery.Proofs.Formula.Scopes

namespace ColumnQuery

/-! ## Calls and their places -/

/-- The aggregate that a tree calls. -/
def Node.aggregate? : Node → Option Aggregate
  | .call f args =>
    match Resolve.callee (.call f args) f .empty with
    | .ok (.aggregate a) => some a
    | _ => none
  | _ => none

theorem Resolve.placed?_unframed {tables : Nat} {frame : Option Frame} {node body : Node}
    {scope : Scope} (h : placed? tables frame node = some (⟨scope, none, false⟩, body)) :
    frame = none ∧ ∀ g, placed? tables (some g) node = some (⟨scope, some g, false⟩, body) := by
  unfold placed? at h ⊢
  split at h
  next => cases h
  next =>
    cases h
    exact ⟨rfl, fun _ => rfl⟩
  next => cases h

namespace ExprSpec

variable {tables : Nat} {frame : Option Frame} {e : ExprSpec} {scope : Scope} {body : Node}

/-- An expression whose body has no frame stands under none, and would have the same body under
    any. -/
theorem placed?_unframed (h : e.placed? tables frame = some (⟨scope, none, false⟩, body)) :
    frame = none ∧ ∀ g, e.placed? tables (some g) = some (⟨scope, some g, false⟩, body) := by
  induction e generalizing frame with
  | source text | tree node =>
    obtain ⟨node, hnode, hplaced⟩ := Option.bind_eq_some_iff.1 h
    obtain ⟨hframe, hunder⟩ := Resolve.placed?_unframed hplaced
    exact ⟨hframe, fun g => Option.bind_eq_some_iff.2 ⟨node, hnode, hunder g⟩⟩
  | rolling inner g ih => cases (ih h).1
  | _ => cases h

/-- The window form puts such an expression under its frame. -/
theorem placed?_rolling (h : e.placed? tables none = some (⟨scope, none, false⟩, body))
    (g : Frame) : (rolling e g).placed? tables none = some (⟨scope, some g, false⟩, body) :=
  (placed?_unframed h).2 g

end ExprSpec

namespace Resolve

/-! ## Calls of aggregates -/

/-- A tree calls an aggregate with these operands, under the names of a scope. -/
def IsCall (ctx : ResolveContext) (scope : Scope) (call : Node) (a : Aggregate) (o : Operands) :
    Prop :=
  ∃ f args, call = .call f args ∧ callee call f .empty = .ok (.aggregate a) ∧
    (a.fieldCount ≤ args.length ∧ args.length ≤ a.fieldCount + a.paramCount) ∧
    (operands ctx ⟨scope, none, true⟩ call a.name a.fieldCount args).run .empty = .ok (o, .empty)

variable {ctx ctx' : ResolveContext} {scope : Scope} {frame : Option Frame} {call : Node}
  {a : Aggregate} {o : Operands} {e : ExprSpec} {name : String} {s s' : ResolveState}

/-- The arguments of an operator resolve alike under all options and frames. -/
theorem operands_elsewhere (htables : ctx'.tables = ctx.tables) (hparams : ctx'.params = ctx.params)
    (frame' : Option Frame) {fields : Nat} {args : List Node}
    (h : Derives ctx ⟨scope, frame, true⟩ s (.operands fields args o) s') :
    Derives ctx' ⟨scope, frame', true⟩ s (.operands fields args o) s' := by
  have halike : Alike ctx ctx' ⟨scope, frame, true⟩ ⟨scope, frame', true⟩ :=
    ⟨htables, hparams, rfl, nofun⟩
  exact h.alike halike (Scope.AgreeIn.refl scope _)

/-- A call of an aggregate that resolves has operands. -/
theorem exists_isCall
    (hplaced : e.placed? ctx.tables.length none = some (⟨scope, frame, false⟩, call))
    (ha : call.aggregate? = some a) {r : Resolution} (hr : resolve ctx [(name, e)] = .ok r) :
    ∃ o, IsCall ctx scope call a o := by
  obtain ⟨es, s, hnamed, -⟩ := resolve_eq_ok_iff.1 hr
  obtain ⟨⟨f, tree⟩, hspec, -⟩ := named_singleton.1 hnamed
  obtain ⟨tree, hbody⟩ := (run_spec_iff_body hplaced).1 ⟨tree, hspec⟩
  unfold Node.aggregate? at ha
  split at ha
  next g args =>
    split at ha
    next b hcallee =>
      obtain rfl : b = a := Option.some.inj ha
      -- no block hides a function here
      have hagree : ∀ {c}, callee (.call g args) g ResolveState.empty.restart = .ok c →
          c = .aggregate b := fun hc => Except.ok.inj (hc.symm.trans hcallee)
      cases derives_body hbody with
      | bodyExpression he =>
        cases he with
        | scalar hc _ _ | window hc _ _ _ _ => cases hagree hc
        | aggregate hc _ _ hcount ho =>
          cases hagree hc
          exact ⟨_, g, args, rfl, hcallee, hcount, (operands_elsewhere rfl rfl none ho).runs _ _⟩
    next => cases ha
  next => cases ha

/-- A call resolves to the place of its registration, where it is allowed. -/
theorem IsCall.resolve_of_allowed (hcall : IsCall ctx scope call a o)
    (htables : ctx'.tables = ctx.tables) (hparams : ctx'.params = ctx.params)
    (hplaced : e.placed? ctx'.tables.length none = some (⟨scope, frame, false⟩, call))
    (hallowed : checkAggregate ctx' ⟨scope, frame, false⟩ call a = .ok ()) :
    ∃ tree, resolve ctx' [(name, e)]
      = .ok ⟨[⟨name, .op (ResolveState.empty.placeOf (o.aggregateCall frame a)), tree⟩],
        (ResolveState.empty.register (o.aggregateCall frame a)).aggregates,
        (ResolveState.empty.register (o.aggregateCall frame a)).windows, ctx'.options.join⟩ := by
  obtain ⟨f, args, rfl, hcallee, hcount, ho⟩ := hcall
  have hoperands : Derives ctx ⟨scope, none, true⟩ .empty (.operands a.fieldCount args o) .empty :=
    derives_operands ctx _ _ _ _ args ho
  have hexpression := Derives.aggregate hcallee hallowed rfl hcount
    (operands_elsewhere htables hparams frame hoperands)
  exact resolve_of_derives hplaced (.bodyExpression hexpression) name

/-- Where aggregates are allowed, a call without a frame resolves to an aggregate over groups. -/
theorem IsCall.resolve_call (hcall : IsCall ctx scope call a o)
    (htables : ctx'.tables = ctx.tables) (hparams : ctx'.params = ctx.params)
    (hplaced : e.placed? ctx'.tables.length none = some (⟨scope, none, false⟩, call))
    (hallowed : ctx'.options.aggregate = true) :
    ∃ tree, resolve ctx' [(name, e)] = .ok ⟨[⟨name, .op (.aggregate 0), tree⟩],
      [⟨a, o.formulas, o.key, o.values⟩], [], ctx'.options.join⟩ := by
  have hcheck : checkAggregate ctx' ⟨scope, none, false⟩ call a = .ok () :=
    checkAggregate_eq_ok_iff.2 (.inl ⟨rfl, hallowed⟩)
  exact hcall.resolve_of_allowed htables hparams hplaced hcheck

/-- Where windows are allowed, a call under a frame resolves to the aggregate over the frame. -/
theorem IsCall.resolve_rollingCall (hcall : IsCall ctx scope call a o)
    (htables : ctx'.tables = ctx.tables) (hparams : ctx'.params = ctx.params) {g : Frame}
    (hplaced : e.placed? ctx'.tables.length none = some (⟨scope, some g, false⟩, call))
    (hallowed : ctx'.options.window = true) :
    ∃ tree, resolve ctx' [(name, e)] = .ok ⟨[⟨name, .op (.window 0), tree⟩], [],
      [⟨.aggregate a, o.formulas, o.key, o.values, g⟩], ctx'.options.join⟩ := by
  have hcheck : checkAggregate ctx' ⟨scope, some g, false⟩ call a = .ok () :=
    checkAggregate_eq_ok_iff.2 (.inr ⟨g, rfl, hallowed⟩)
  exact hcall.resolve_of_allowed htables hparams hplaced hcheck

end Resolve

end ColumnQuery
