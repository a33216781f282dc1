/-
  What resolved formulas read.

  A resolved formula reads columns of the input tables and results of operators, as far as the
  options allow it (`Allowed`): where only aggregates may read columns it reads none itself, and
  where no window calls are allowed it reads no result of one. That is so by the rules of
  resolution (`Derives.reads`); the arguments of operators do not matter here, since a call becomes
  a reference to its result.

  So formulas without escaped functions have values wherever they may be evaluated
  (`Reads.exists_eval`), and evaluate alike where the results that they may read are the same
  (`Reads.eval_congr`).
-/
import ColumnQuery.Proofs.Formula.Resolve

namespace ColumnQuery

/-- An expression with an escaped function in it. -/
def ExprSpec.escapes : ExprSpec → Bool
  | escape _ => true
  | rolling e _ => e.escapes
  | source _ | tree _ | value _ | column _ => false

/-- An expression without escapes escapes to no function. -/
theorem ExprSpec.escaped?_eq_none {e : ExprSpec} (h : e.escapes = false) : e.escaped? = none := by
  induction e with
  | escape f => cases h
  | rolling e _ ih => exact ih h
  | source _ | tree _ | value _ | column _ => rfl

namespace Resolve

/-- The leaves that options allow in a formula, or in the arguments of an operator. Arguments are
    made of columns and constants alone. -/
def Allowed (ctx : ResolveContext) (inOperator : Bool) : Formula → Prop
  | .column t c | .dictionaryEq t c _ _ =>
    c.IsOf ctx.tables t ∧ (ctx.options.aggregateOnly = true → inOperator = true)
  | .slot _ | .op (.aggregate _) => inOperator = false
  | .op (.window _) => inOperator = false ∧ ctx.options.window = true
  | _ => False

/-- A formula with such leaves only. -/
def Reads (ctx : ResolveContext) (inOperator : Bool) (f : Formula) : Prop :=
  f.Leaves (Allowed ctx inOperator)

variable {ctx : ResolveContext} {site : Site} {s t : ResolveState}

/-! ## Resolution -/

theorem allowed_op {inOperator : Bool} (hplace : inOperator = false) {s : ResolveState}
    {c : OperatorCall} (hwindow : ∀ w, c = .window w → ctx.options.window = true) :
    Allowed ctx inOperator (.op (s.placeOf c)) := by
  cases c with
  | aggregate c => exact hplace
  | window w => exact ⟨hplace, hwindow w rfl⟩

/-- What a part reads is allowed at its place. -/
theorem Derives.reads {part : Part} (h : Derives ctx site s part t) :
    part.Leaves (Allowed ctx site.inOperator) := by
  have hholds : HoldsOfLeaves ctx fun site _ leaf => Allowed ctx site.inOperator leaf :=
    { later := fun _ hleaf => hleaf
      cell := fun hcell => hcell
      dictionary := fun hcolumn => hcolumn
      slot := fun hplace => hplace
      aggregate := fun {site _ _ _} _ hplace hallowed => allowed_op hplace fun w hw => by
        rcases checkAggregate_eq_ok_iff.1 hallowed with ⟨hframe, -⟩ | ⟨_, -, hoption⟩
        · rw [hframe] at hw
          cases hw
        · exact hoption
      window := fun _ hplace hallowed => allowed_op hplace fun _ _ => hallowed }
  exact h.leaves hholds

/-- An expression resolves to the function that it escapes to, or to a formula that reads what the
    options allow. -/
theorem escape_or_reads_of_spec {frame : Option Frame} {e : ExprSpec} {r : Formula × Option Node}
    (h : (spec ctx frame e).run s = .ok (r, t)) :
    (∃ g, e.escaped? = some g ∧ r.1 = .escape g ctx.tables ctx.params) ∨
      e.escaped? = none ∧ Reads ctx false r.1 := by
  rcases spec_cases h with ⟨-, hescape | ⟨hnone, v, hv⟩⟩ | ⟨hnone, site, inner, tree, hsite, hbody⟩
  · exact .inl hescape
  · rw [hv]
    exact .inr ⟨hnone, trivial⟩
  · exact .inr ⟨hnone, hsite ▸ hbody.reads⟩

end Resolve

/-- Whatever resolves reads what the options allow. -/
theorem reads_of_resolve {ctx : ResolveContext} {exprs : List (String × ExprSpec)}
    (hexprs : ∀ e ∈ exprs, e.2.escapes = false) {r : Resolution} (h : resolve ctx exprs = .ok r) :
    ∀ e ∈ r.exprs, Resolve.Reads ctx false e.formula := by
  have hreads : List.Forall₂ (fun _ f => Resolve.Reads ctx false f.formula) exprs r.exprs := by
    refine forall₂_of_resolve (fun e he _ _ _ hrun => ?_) h
    rcases Resolve.escape_or_reads_of_spec hrun with ⟨g, hg, -⟩ | ⟨-, hreads⟩
    · rw [ExprSpec.escaped?_eq_none (hexprs e he)] at hg
      cases hg
    · exact hreads
  intro f hf
  obtain ⟨_, _, hreads⟩ := exists_of_forall₂ hreads.flip hf
  exact hreads

/-! ## Evaluation -/

namespace Resolve

variable {ctx : ResolveContext} {f : Formula} {env env' : Env}

/-- A column that is read outside of operators is one that need not be inside of them. -/
theorem aggregateOnly_of_allowed {t : Nat} {c : Column}
    (h : Allowed ctx false (.column t c)) : ctx.options.aggregateOnly = false :=
  Bool.eq_false_iff.2 fun honly => Bool.false_ne_true (h.2 honly)

/-- At a row of well-formed tables the leaves that options allow have values. -/
theorem isSome_of_allowed (htables : ∀ table ∈ ctx.tables, table.WellFormed)
    (hrows : ctx.options.aggregateOnly = false → Formula.Within ctx.tables env.position)
    (hops : ∀ ref row, (env.results ref row).isSome) :
    ∀ leaf, Allowed ctx false leaf → ∀ s, (leaf.evalWith env s).isSome
  | .column t c, h, s => by
    cases hrow : env.position.rowOf t with
    | none =>
      rw [Formula.evalWith, hrow]
      rfl
    | some row =>
      have hwithin := hrows (aggregateOnly_of_allowed h)
      obtain ⟨hc, hlt⟩ := Formula.lt_length_of_isOf htables hwithin h.1 hrow
      obtain ⟨v, hv⟩ := hc row hlt
      simp only [Formula.evalWith, hrow, hv, Option.map_some, Option.isSome_some]
  | .dictionaryEq t c key negated, h, s => by
    cases hrow : env.position.rowOf t with
    | none =>
      rw [Formula.evalWith, hrow]
      rfl
    | some row =>
      have hwithin := hrows (aggregateOnly_of_allowed h)
      obtain ⟨-, hlt⟩ := Formula.lt_length_of_isOf htables hwithin h.1 hrow
      obtain ⟨stored, hstored⟩ := Column.exists_keyAt? hlt
      simp only [Formula.evalWith, hrow, hstored, Option.map_some, Option.isSome_some]
  | .slot i, _, s => by
    rw [Formula.evalWith]
    rfl
  | .op ref, _, s => by
    rw [Formula.evalWith, Option.isSome_map]
    exact hops ref _

/-- A formula has a value, given results of operators: at every row of well-formed tables, and
    anywhere if it may read no column. -/
theorem Reads.exists_eval (hf : Reads ctx false f)
    (htables : ∀ table ∈ ctx.tables, table.WellFormed)
    (hrows : ctx.options.aggregateOnly = false → Formula.Within ctx.tables env.position)
    (hops : ∀ ref row, (env.results ref row).isSome) : ∃ x, f.eval env = some x := by
  have hleaves := Formula.Leaves.imp (isSome_of_allowed htables hrows hops) f hf
  have hsome := Formula.exists_evalWith f hleaves #[]
  obtain ⟨r, hr⟩ := Option.isSome_iff_exists.1 hsome
  exact ⟨r.1, by rw [Formula.eval, hr]; rfl⟩

/-- What a formula evaluates to is decided by the results that it may read, and by the row if it
    may read columns. -/
theorem Reads.eval_congr (hf : Reads ctx false f)
    (hrows : ctx.options.aggregateOnly = false → env.position = env'.position)
    (hops : ∀ ref, Allowed ctx false (.op ref) →
      env.results ref (env.position.left.getD 0) = env'.results ref (env'.position.left.getD 0)) :
    f.eval env = f.eval env' := by
  have hleaves : f.Leaves fun leaf => ∀ s, leaf.evalWith env s = leaf.evalWith env' s := by
    refine Formula.Leaves.imp (fun leaf hleaf s => ?_) f hf
    cases leaf with
    | column t c =>
      have hsame := hrows (aggregateOnly_of_allowed hleaf)
      rw [Formula.evalWith, Formula.evalWith, hsame]
    | dictionaryEq t c k negated =>
      have hsame := hrows (aggregateOnly_of_allowed hleaf)
      rw [Formula.evalWith, Formula.evalWith, hsame]
    | slot i => rw [Formula.evalWith, Formula.evalWith]
    | op ref => rw [Formula.evalWith, Formula.evalWith, hops ref hleaf]
    | _ => exact hleaf.elim
  rw [Formula.eval, Formula.eval, Formula.evalWith_congr f hleaves]

end Resolve

end ColumnQuery
