/-
  Exported trees imported again.

  With every resolved expression comes a tree that can stand for it. Expressions without a header
  are fixpoints: resolved from their trees, whole lists of them give the same formulas, the same
  calls and the same trees (`resolve_exported`). An expression with a header, or in rolling form,
  gives the same as its tree under two conditions, both on the tree alone but for the names that
  the header binds (`resolve_tree_of_resolve`): no window stands right inside of another one, which
  is refused when it is read from a tree although windows may be wrapped into one another, and no
  key of `Math` that has to be resolved uses a name of the header.
-/
import ColumnQuery.Proofs.Formula.Fixpoint
import ColumnQuery.Proofs.Formula.Roots

namespace ColumnQuery

/-! ## Headers and rolling forms -/

namespace Node

/-- The inner one of two windows of which one stands right inside of the other. -/
def nestedRolling? : Node → Option Node
  | rolling _ (rolling g b) => some (rolling g b)
  | _ => none

end Node

theorem Literal.toValue_of_ofValue? {v : Value} {l : Literal} (h : Literal.ofValue? v = some l) :
    l.toValue = v := by
  unfold Literal.ofValue? at h
  split at h
  next =>
    cases h
    rfl
  next =>
    cases h
    rfl
  next =>
    split at h
    next =>
      cases h
      rfl
    next => cases h
  next =>
    cases h
    rfl
  next => cases h

namespace ExprSpec

/-- The names that the header of an expression binds. -/
def scope (tables : Nat) : ExprSpec → Scope
  | rolling e _ => e.scope tables
  | e => match e.node? with
    | some node => (Resolve.header tables node).1
    | none => Scope.standard tables

end ExprSpec

namespace Resolve

variable {ctx : ResolveContext} {frame : Option Frame} {s s' : ResolveState} {e : Formula × Node}

theorem rollingRoot_call_iff {f : Node} {args : List Node} :
    rollingRoot (.call f args) = .ok none ↔ f ≠ .identifier "rolling" := by
  unfold rollingRoot
  split
  next h => cases h
  next h =>
    cases h
    split <;> simp
  next hcall =>
    refine ⟨fun _ heq => hcall args (by rw [heq]), fun _ => rfl⟩

/-- The tree of a body is neither a function nor in rolling form, if the body is not. -/
theorem bare_of_body {site : Site} {node : Node} (hroot : rollingRoot node = .ok none)
    (h : (body ctx site node).run s = .ok (e, s')) :
    e.2.isFunction = false ∧ rollingRoot e.2 = .ok none := by
  rcases (derives_body h).shape_of_body with ⟨nodes, hnode⟩ | hnode
  · rw [hnode]
    exact ⟨rfl, rfl⟩
  · cases htree : e.2 with
    | call f args =>
      obtain ⟨others, rfl⟩ := hnode.call f args htree
      exact ⟨rfl, rollingRoot_call_iff.2 (rollingRoot_call_iff.1 hroot)⟩
    | rolling _ _ | arrow _ _ | function _ _ _ =>
      have hexpression := hnode.isExpression
      rw [htree] at hexpression
      cases hexpression
    | _ => exact ⟨rfl, rfl⟩

/-- The tree of a root resolves like the root. -/
theorem again_root {node : Node} (h : (root ctx frame node).run s = .ok (e, s'))
    (hmath : (header ctx.tables.length node).1.MathKeysAgree (Scope.standard ctx.tables.length)
      e.2.parts) : (root ctx frame e.2).run s = .ok (e, s') := by
  rcases run_root_iff.1 h with ⟨hroot, hb⟩ | ⟨g, inner, b, hroot, hb, rfl⟩
  · obtain ⟨hfunction, hroot'⟩ := bare_of_body hroot hb
    refine run_root_iff.2 (.inl ?_)
    rw [header_of_isFunction hfunction]
    exact ⟨hroot', ((derives_body hb).again hmath).runs⟩
  · exact run_root_iff.2 (.inr ⟨g, b.2, b, rfl, ((derives_body hb).again hmath.tail).runs, rfl⟩)

/-- A window around a tree that has none resolves like the tree under its frame. -/
theorem root_rolling {t : Node} {f : Formula} {g : Frame} (hbare : ∀ g b, t ≠ .rolling g b)
    (h : (root ctx (some g) t).run s = .ok ((f, t), s')) :
    (root ctx frame (.rolling g t)).run s = .ok ((f, .rolling g t), s') := by
  rcases run_root_iff.1 h with ⟨hroot, hb⟩ | ⟨g', inner, b, hroot, hb, heq⟩
  · have hfunction : t.isFunction = false := (bare_of_body hroot hb).1
    rw [header_of_isFunction hfunction] at hb
    exact run_root_iff.2 (.inr ⟨g, t, (f, t), rfl, hb, rfl⟩)
  · exact absurd (congrArg Prod.snd heq) (hbare g' b.2)

/-- A window right inside of another one is refused. -/
theorem run_root_nested {t inner : Node} (h : t.nestedRolling? = some inner) :
    (root ctx frame t).run s = .error (.refused .nestedRolling inner) := by
  unfold Node.nestedRolling? at h
  split at h
  next =>
    cases h
    rfl
  next => cases h

/-! ## Expressions by the trees that they export -/

theorem scope_of_node? {spec : ExprSpec} {node : Node} (h : spec.node? = some node)
    (tables : Nat) : spec.scope tables = (header tables node).1 := by
  unfold ExprSpec.scope
  split
  next => cases h
  next => rw [h]

theorem again_given {spec : ExprSpec} {node t : Node} {f : Formula} (hnode : spec.node? = some node)
    (h : (Resolve.spec ctx frame spec).run s = .ok ((f, some t), s'))
    (hmath : (spec.scope ctx.tables.length).MathKeysAgree (Scope.standard ctx.tables.length)
      t.parts) : (root ctx frame t).run s = .ok ((f, t), s') := by
  obtain ⟨e, he, heq⟩ := (run_spec_iff hnode).1 h
  cases heq
  rw [scope_of_node? hnode] at hmath
  exact again_root he hmath

/-- An expression that exports a tree resolves like the tree, up to the constants of the expression
    before it. -/
theorem again_spec {spec : ExprSpec} {f : Formula} {t : Node}
    (h : (Resolve.spec ctx frame spec).run s = .ok ((f, some t), s'))
    (hnested : t.nestedRolling? = none)
    (hmath : (spec.scope ctx.tables.length).MathKeysAgree (Scope.standard ctx.tables.length)
      t.parts) :
    ∃ s'', (root ctx frame t).run s = .ok ((f, t), s'') ∧ s''.aggregates = s'.aggregates ∧
      s''.windows = s'.windows := by
  induction spec generalizing frame t with
  | source text =>
    obtain ⟨node, hnode⟩ := exists_node_of_source h
    exact ⟨s', again_given hnode h hmath, rfl, rfl⟩
  | tree node => exact ⟨s', again_given rfl h hmath, rfl, rfl⟩
  | escape g =>
    have heq := (run_pure_eq_ok.1 h).1
    cases heq
  | value v =>
    obtain ⟨heq, rfl⟩ := run_pure_eq_ok.1 h
    obtain ⟨rfl, htree⟩ := Prod.mk.inj heq
    obtain ⟨l, hl, rfl⟩ := Option.map_eq_some_iff.1 htree
    obtain rfl := Literal.toValue_of_ofValue? hl
    exact ⟨s.restart, rfl, rfl, rfl⟩
  | column name =>
    obtain ⟨e, he, heq⟩ := run_spec_column_iff.1 h
    cases heq
    exact ⟨s', again_root he hmath, rfl, rfl⟩
  | rolling inner g ih =>
    obtain ⟨⟨f', tree⟩, he, heq⟩ := run_spec_rolling_iff.1 h
    obtain ⟨rfl, htree⟩ := Prod.mk.inj heq
    obtain ⟨b, rfl, rfl⟩ := Option.map_eq_some_iff.1 htree.symm
    have hbare : ∀ g' b', b ≠ .rolling g' b' := by
      rintro g' b' rfl
      cases hnested
    have hinner : b.nestedRolling? = none := by
      unfold Node.nestedRolling?
      split
      next => exact absurd rfl (hbare _ _)
      next => rfl
    obtain ⟨s'', hrun, hcalls⟩ := ih he hinner hmath.tail
    exact ⟨s'', root_rolling hbare hrun, hcalls⟩

end Resolve

/-! ## Expressions without a header -/

/-- The trees that resolved expressions export, under the names of the expressions. -/
def exportedTrees (es : List NamedFormula) : List (String × ExprSpec) :=
  es.filterMap fun e => e.tree.map fun t => (e.name, .tree t)

/-- Given by a tree that is no function literal. -/
def ExprSpec.Headless (e : ExprSpec) : Prop := ∃ node, e.node? = some node ∧ node.isFunction = false

theorem Resolve.again_named {ctx : ResolveContext} {exprs : List (String × ExprSpec)}
    (hexprs : ∀ e ∈ exprs, e.2.Headless) {s s' : ResolveState} {es : List NamedFormula}
    (h : (named ctx exprs).run s = .ok (es, s')) :
    (∀ e ∈ es, e.tree.isSome = true) ∧ (named ctx (exportedTrees es)).run s = .ok (es, s') := by
  induction exprs generalizing s es with
  | nil =>
    obtain ⟨rfl, rfl⟩ := run_pure_eq_ok.1 h
    exact ⟨by simp, rfl⟩
  | cons e exprs ih =>
    obtain ⟨hfirst, hrest⟩ := List.forall_mem_cons.1 hexprs
    obtain ⟨r, t, more, hr, hmore, rfl⟩ := run_named_cons.1 h
    obtain ⟨htrees, hagain⟩ := ih hrest hmore
    obtain ⟨node, hnode, hfunction⟩ := hfirst
    obtain ⟨b, hb, rfl⟩ := (run_spec_iff hnode).1 hr
    have hroot : (root ctx none b.2).run s = .ok (b, t) := by
      refine again_root hb ?_
      rw [header_of_isFunction hfunction]
      exact Scope.MathKeysAgree.refl _ _
    refine ⟨List.forall_mem_cons.2 ⟨rfl, htrees⟩, ?_⟩
    exact run_named_cons.2 ⟨_, t, more, run_spec_tree_iff.2 ⟨b, hroot, rfl⟩, hagain, rfl⟩

/-- Expressions without a header all export trees, and resolved from these they give the same
    formulas, the same calls and the same trees. -/
theorem resolve_exported {ctx : ResolveContext} {exprs : List (String × ExprSpec)}
    (hexprs : ∀ e ∈ exprs, e.2.Headless) {r : Resolution} (h : resolve ctx exprs = .ok r) :
    (∀ e ∈ r.exprs, e.tree.isSome = true) ∧ resolve ctx (exportedTrees r.exprs) = .ok r := by
  obtain ⟨es, s, hrun, rfl⟩ := resolve_eq_ok_iff.1 h
  obtain ⟨htrees, hagain⟩ := Resolve.again_named hexprs hrun
  exact ⟨htrees, resolve_eq_ok_iff.2 ⟨es, s, hagain, rfl⟩⟩

/-- Two numbers under a parameter that names a constant. -/
def numbered : ResolveContext :=
  ⟨[⟨[("x", .ofValues [.number 1, .number 2])], 2⟩], [("k", .string "PI")], .derive⟩

/-- A rolling expression, and one with a constant that the parameter names. -/
def headless : List (String × ExprSpec) :=
  [("a", .source "rolling(sum(d.x), [-1, 0])"),
    ("b", .tree (.binary .add (.call (.identifier "max") [.member (.identifier "d")
      (.identifier "x") false]) (.member (.identifier "Math")
        (.member (.identifier "$") (.identifier "k") false) true)))]

theorem resolve_exported_numbered : ∃ r, resolve numbered headless = .ok r ∧
    r.aggregates.length = 1 ∧ r.windows.length = 1 ∧
    resolve numbered (exportedTrees r.exprs) = .ok r := by
  have hheadless : ∀ e ∈ headless, e.2.Headless := by
    intro e he
    have hnode : e.2.node?.any (!·.isFunction) = true := by
      have hall : headless.all (fun e => e.2.node?.any (!·.isFunction)) = true := by
        decide +kernel
      exact List.all_eq_true.1 hall e he
    obtain ⟨node, hnode, hfunction⟩ := (Option.any_eq_true _ _).1 hnode
    exact ⟨node, hnode, Bool.not_eq_true' _ ▸ hfunction⟩
  obtain ⟨r, hr, hcalls⟩ := exists_ok (x := resolve numbered headless)
    (p := fun r => r.aggregates.length == 1 && r.windows.length == 1) (by decide +kernel)
  obtain ⟨haggregates, hwindows⟩ := Bool.and_eq_true_iff.1 hcalls
  exact ⟨r, hr, eq_of_beq haggregates, eq_of_beq hwindows, (resolve_exported hheadless hr).2⟩

/-! ## Expressions with a header, and rolling ones -/

/-- An expression resolved from the tree that it exports is refused if the tree has a window right
    inside of another one. If not, it gives the same formula, the same calls and the same tree
    wherever the keys of `Math` use no name that stands for something else without the header. -/
theorem resolve_tree_of_resolve {ctx : ResolveContext} {name : String} {spec : ExprSpec}
    {r : Resolution} (h : resolve ctx [(name, spec)] = .ok r) {e : NamedFormula} {t : Node}
    (he : e ∈ r.exprs) (htree : e.tree = some t) :
    (∀ inner, t.nestedRolling? = some inner →
      resolve ctx [(name, .tree t)] = .error (.refused .nestedRolling inner)) ∧
    (t.nestedRolling? = none →
      (spec.scope ctx.tables.length).MathKeysAgree (Scope.standard ctx.tables.length) t.parts →
      resolve ctx [(name, .tree t)] = .ok r) := by
  obtain ⟨es, s, hrun, rfl⟩ := resolve_eq_ok_iff.1 h
  obtain ⟨⟨f, tree⟩, hspec, rfl⟩ := Resolve.named_singleton.1 hrun
  obtain rfl := List.mem_singleton.1 he
  obtain rfl : tree = some t := htree
  constructor
  · intro inner hinner
    have hspec : (Resolve.spec ctx none (.tree t)).run .empty
        = .error (.refused .nestedRolling inner) := by
      unfold Resolve.spec
      rw [StateT.run_bind, Resolve.run_root_nested hinner]
      rfl
    unfold resolve Resolve.named
    rw [StateT.run_bind, hspec]
    rfl
  · intro hnested hmath
    obtain ⟨s', hroot, haggregates, hwindows⟩ := Resolve.again_spec hspec hnested hmath
    have hnode : (ExprSpec.tree t).node? = some t := rfl
    have hagain : (Resolve.spec ctx none (.tree t)).run .empty = .ok ((f, some t), s') :=
      (Resolve.run_spec_iff hnode).2 ⟨_, hroot, rfl⟩
    refine resolve_eq_ok_iff.2 ⟨_, s', Resolve.named_singleton.2 ⟨_, hagain, rfl⟩, ?_⟩
    rw [haggregates, hwindows]

/-- Reads no constant of `Math` under a key that has to be resolved. -/
def Node.plainMathKeys (t : Node) : Bool :=
  t.parts.all fun
    | .member (.identifier "Math") key computed => (Resolve.plainKey? computed key).isSome
    | _ => true

theorem mathKeysAgree_of_plain {S T : Scope} {t : Node} (h : t.plainMathKeys = true) :
    S.MathKeysAgree T t.parts := by
  rintro n hn key computed rfl hkey
  have hplain : (Resolve.plainKey? computed key).isSome = true := List.all_eq_true.1 h _ hn
  rw [hkey] at hplain
  cases hplain

/-- A rolling expression under names of its own. -/
def headed : ExprSpec := .source "(row, {k: name}) => rolling(max(row.x) + name, [-1, 0])"

/-- A window around a window. -/
def windowed : ExprSpec :=
  .rolling (.rolling (.source "sum(d.x)") ⟨none, some 0, false⟩) .cumulative

theorem resolve_tree_numbered :
    (∃ r e t, resolve numbered [("a", headed)] = .ok r ∧ e ∈ r.exprs ∧ e.tree = some t ∧
      resolve numbered [("a", .tree t)] = .ok r) ∧
    ∃ r e t inner, resolve numbered [("a", windowed)] = .ok r ∧ e ∈ r.exprs ∧ e.tree = some t ∧
      resolve numbered [("a", .tree t)] = .error (.refused .nestedRolling inner) := by
  have hfirst : ∀ (spec : ExprSpec) (p : Node → Bool),
      (resolve numbered [("a", spec)]).toOption.any
        (fun r => r.exprs.any fun e => e.tree.any p) = true →
      ∃ r e t, resolve numbered [("a", spec)] = .ok r ∧ e ∈ r.exprs ∧ e.tree = some t ∧
        p t = true := by
    intro spec p h
    obtain ⟨r, hr, h⟩ := exists_ok h
    obtain ⟨e, he, h⟩ := List.any_eq_true.1 h
    obtain ⟨t, ht, h⟩ := (Option.any_eq_true _ _).1 h
    exact ⟨r, e, t, hr, he, ht, h⟩
  constructor
  · obtain ⟨r, e, t, hr, he, ht, h⟩ := hfirst headed
      (fun t => t.nestedRolling?.isNone && t.plainMathKeys) (by decide +kernel)
    obtain ⟨hnested, hplain⟩ := Bool.and_eq_true_iff.1 h
    exact ⟨r, e, t, hr, he, ht, (resolve_tree_of_resolve hr he ht).2
      (Option.isNone_iff_eq_none.1 hnested) (mathKeysAgree_of_plain hplain)⟩
  · obtain ⟨r, e, t, hr, he, ht, h⟩ := hfirst windowed
      (fun t => t.nestedRolling?.isSome) (by decide +kernel)
    obtain ⟨inner, hinner⟩ := Option.isSome_iff_exists.1 h
    exact ⟨r, e, t, inner, hr, he, ht, (resolve_tree_of_resolve hr he ht).1 inner hinner⟩

/-- A key of `Math` keeps the name that the header gave the parameters, and is refused without
    it. -/
example : (resolve numbered [("a", .source "(d, q) => Math[q.k]")]).toOption.isSome = true ∧
    (resolve numbered [("a", .source "Math[q.k]")]).toOption.isSome = false := by
  decide +kernel

end ColumnQuery
