/-
  What resolution registers.

  Every call that resolution sets aside is made of operands that suit its operator: plain fields,
  as many as the operator takes and each with its tree, and no more parameters than it takes; and
  no two calls are one and the same. `Registered` says so of the state of resolution. It holds at
  the start, and the one step that changes the lists of calls keeps it (`Registered.register`),
  since all formulas inside of an operator are plain (`Derives.plain`).
-/
import ColumnQuery.Proofs.Formula.Roots

namespace ColumnQuery

/-! ## Calls that suit their operators -/

/-- Operands as an operator takes them: plain fields, each with its tree, and parameters. -/
structure Suits (tables : List Table) (fields : List Formula) (key : List Node)
    (params : List Value) (fieldCount paramCount : Nat) : Prop where
  plain : ∀ f ∈ fields, f.Plain tables
  fields_length : fields.length = fieldCount
  key_length : key.length = fields.length
  params_length : params.length ≤ paramCount

def AggregateCall.Suits (tables : List Table) (c : AggregateCall) : Prop :=
  ColumnQuery.Suits tables c.fields c.key c.params c.aggregate.fieldCount c.aggregate.paramCount

/-- The number of fields that an operator takes. -/
def WindowOperator.fieldCount : WindowOperator → Nat
  | function f => f.fieldCount
  | aggregate a => a.fieldCount

/-- The greatest number of parameters that an operator takes. -/
def WindowOperator.paramCount : WindowOperator → Nat
  | function f => f.paramCount
  | aggregate a => a.paramCount

def WindowCall.Suits (tables : List Table) (c : WindowCall) : Prop :=
  ColumnQuery.Suits tables c.fields c.key c.params c.operator.fieldCount c.operator.paramCount

/-- The operands of a call suit its operator. -/
def OperatorCall.Suits (tables : List Table) : OperatorCall → Prop
  | aggregate c => c.Suits tables
  | window c => c.Suits tables

/-- All calls suit their operators, and none is there twice. -/
structure Registered (tables : List Table) (aggregates : List AggregateCall)
    (windows : List WindowCall) : Prop where
  aggregates_suit : ∀ c ∈ aggregates, c.Suits tables
  aggregates_differ : aggregates.Pairwise fun c d => ¬ c.Same d
  windows_suit : ∀ c ∈ windows, c.Suits tables
  windows_differ : windows.Pairwise fun c d => ¬ c.Same d

def ResolveState.Registered (tables : List Table) (s : ResolveState) : Prop :=
  ColumnQuery.Registered tables s.aggregates s.windows

theorem registered_nil (tables : List Table) : Registered tables [] [] where
  aggregates_suit := by simp
  aggregates_differ := List.Pairwise.nil
  windows_suit := by simp
  windows_differ := List.Pairwise.nil

/-- A call that suits its operator is registered once. -/
theorem ResolveState.Registered.register {tables : List Table} {s : ResolveState}
    (hs : s.Registered tables) {c : OperatorCall} (hc : c.Suits tables) :
    (s.register c).Registered tables := by
  cases c with
  | aggregate c =>
    refine ⟨fun d hd => ?_, pairwise_addUnless hs.aggregates_differ fun d _ hdiffer hsame => ?_,
      hs.windows_suit, hs.windows_differ⟩
    · rcases mem_addUnless hd with hd | rfl
      · exact hs.aggregates_suit d hd
      · exact hc
    · exact Bool.eq_false_iff.1 hdiffer (AggregateCall.sameAs_iff.2 hsame)
  | window c =>
    refine ⟨hs.aggregates_suit, hs.aggregates_differ, fun d hd => ?_,
      pairwise_addUnless hs.windows_differ fun d _ hdiffer hsame => ?_⟩
    · rcases mem_addUnless hd with hd | rfl
      · exact hs.windows_suit d hd
      · exact hc
    · exact Bool.eq_false_iff.1 hdiffer (WindowCall.sameAs_iff.2 hsame)

namespace Resolve

variable {ctx : ResolveContext} {site : Site} {s t : ResolveState}

/-! ## Inside of operators -/

theorem plain_binary {op : BinaryOp} {l r : Formula} (hl : l.Plain ctx.tables)
    (hr : r.Plain ctx.tables) : (binary op l r).Plain ctx.tables := by
  rcases binary_cases op l r with h | ⟨t, c, s, negated, hsides, hform⟩
  · rw [h]
    exact ⟨hl, hr⟩
  · have hcol : (Formula.column t c).Plain ctx.tables := by
      rcases hsides with ⟨rfl, -⟩ | ⟨rfl, -⟩
      · exact hl
      · exact hr
    rcases hform with ⟨key, h⟩ | h
    · rw [h]
      exact hcol
    · rw [h]
      trivial

/-- All formulas of the arguments of an operator are plain. -/
def Part.Plain (tables : List Table) : Part → Prop
  | expression _ e => e.1.Plain tables
  | expressions _ es => ∀ e ∈ es, e.1.Plain tables
  | properties _ es => ∀ e ∈ es, e.2.1.Plain tables
  | operands _ _ o => ∀ e ∈ o.fields, e.1.Plain tables
  | _ => True

/-- Inside of an operator all formulas are plain. -/
theorem Derives.plain {part : Part} (h : Derives ctx site s part t)
    (hsite : site.inOperator = true) : part.Plain ctx.tables := by
  induction h with
  | identifier he =>
    rcases formula_of_identifier he with ⟨slot, -, hplace, -⟩ | ⟨-, hname⟩
    · exact absurd hsite (Bool.eq_false_iff.1 hplace)
    · exact hname.plain
  | column he => exact (cell_of_column he).plain
  | @parameter site _ _ _ he =>
    have hcell : Cell ctx site _ := cell_of_parameter he
    exact hcell.plain
  | owned _ _ _ he | resolvedKey _ _ _ _ _ he _ => exact (cell_of_owned he).plain
  | aggregate _ _ hplace _ _ _ | window _ _ hplace _ _ _ =>
    exact absurd hsite (Bool.eq_false_iff.1 hplace)
  | dotted _ _ ih => exact ⟨ih hsite, trivial⟩
  | member _ _ _ _ ih ih' | logical _ _ ih ih' => exact ⟨ih hsite, ih' hsite⟩
  | binary _ _ ih ih' => exact plain_binary (ih hsite) (ih' hsite)
  | conditional _ _ _ ih ih' ih'' => exact ⟨ih hsite, ih' hsite, ih'' hsite⟩
  | unary _ ih => exact ih hsite
  | scalar _ _ _ ih | array _ ih =>
    exact Formula.plainList_iff.2 (List.forall_mem_map.2 (ih hsite))
  | object _ ih => exact Formula.plainEntries_iff.2 (List.forall_mem_map.2 (ih hsite))
  | noExpressions | noProperties | noOperands => exact fun _ he => absurd he List.not_mem_nil
  | moreExpressions _ _ ih ih' | moreProperties _ _ ih ih' | field _ _ ih ih' =>
    exact List.forall_mem_cons.2 ⟨ih hsite, ih' hsite⟩
  | constant _ _ _ _ ih' => exact ih' hsite
  | _ => trivial

/-- The arguments of an operator suit it, if there are as many as it takes. -/
theorem Derives.suits {fields params : Nat} {nodes : List Node} {o : Operands}
    (h : Derives ctx (inside site) s (.operands fields nodes o) t)
    (hcount : fields ≤ nodes.length ∧ nodes.length ≤ fields + params) :
    Suits ctx.tables o.formulas o.key o.values fields params := by
  obtain ⟨hfields, hparams⟩ := h.length_operands
  refine ⟨List.forall_mem_map.2 (h.plain rfl), ?_, ?_, ?_⟩
  · unfold Operands.formulas
    rw [List.length_map]
    omega
  · unfold Operands.key Operands.formulas
    rw [List.length_map, List.length_map]
  · unfold Operands.values
    rw [List.length_map]
    omega

theorem suits_aggregateCall {tables : List Table} {a : Aggregate} {o : Operands}
    (h : Suits tables o.formulas o.key o.values a.fieldCount a.paramCount) (frame : Option Frame) :
    (o.aggregateCall frame a).Suits tables := by
  cases frame <;> exact h

/-! ## Runs -/

theorem registered_of_eq {tables : List Table} (haggregates : s.aggregates = t.aggregates)
    (hwindows : s.windows = t.windows) (hs : s.Registered tables) : t.Registered tables := by
  unfold ResolveState.Registered
  rw [← haggregates, ← hwindows]
  exact hs

/-- What is registered suits its operator, and is registered once. -/
theorem Derives.registered {part : Part} (h : Derives ctx site s part t) :
    s.Registered ctx.tables → t.Registered ctx.tables :=
  h.steps (R := fun s t => s.Registered ctx.tables → t.Registered ctx.tables) registered_of_eq
    (fun h h' hs => h' (h hs))
    (fun _ hcount ho hs => hs.register (suits_aggregateCall (ho.suits hcount) _))
    fun _ hcount ho hs => hs.register (ho.suits hcount)

theorem registered_of_named {exprs : List (String × ExprSpec)} {es : List NamedFormula}
    (h : (named ctx exprs).run s = .ok (es, t)) :
    s.Registered ctx.tables → t.Registered ctx.tables :=
  steps_of_named (R := fun s t => s.Registered ctx.tables → t.Registered ctx.tables)
    registered_of_eq (fun h h' hs => h' (h hs)) Derives.registered h

end Resolve

/-- Whatever resolves, its calls suit their operators, and none is there twice. -/
theorem registered_of_resolve {ctx : ResolveContext} {exprs : List (String × ExprSpec)}
    {r : Resolution} (h : resolve ctx exprs = .ok r) :
    Registered ctx.tables r.aggregates r.windows := by
  obtain ⟨es, s, hnamed, rfl⟩ := resolve_eq_ok_iff.1 h
  exact Resolve.registered_of_named hnamed (registered_nil ctx.tables)

end ColumnQuery
