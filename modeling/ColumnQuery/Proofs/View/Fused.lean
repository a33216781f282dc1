/-
  Row filters commute and fuse.

  A predicate on rows is an expression without a header that calls no operator. Such an expression
  leaves the state of resolution and the slots as they are (`row_of_resolve`, `Row.evalWith_eq`),
  so two of them resolve side by side in a conjunction, to the formulas they resolve to alone.
  `&&` answers one of its operands, but that operand is true exactly if both are
  (`Row.holdsAt_and`).

  A filter starts from the groups of all rows, not from those that are shown, and otherwise keeps
  only the set of its rows (`keepRows_withFilter`). So filters one after the other are the filter
  by all that hold, in either order, and the views are equal, not only the rows they show
  (`filters_fuse`).
-/
import ColumnQuery.Proofs.Formula.Lexical
import ColumnQuery.Proofs.Formula.WellFormed
import ColumnQuery.Proofs.Mirror.Selection
import ColumnQuery.Proofs.View.Reachable

namespace ColumnQuery

/-- The tree of an expression outside of windows: of a text the parsed one, of a column and of a
    value that a literal spells the node for it. -/
def ExprSpec.tree? : ExprSpec → Option Node
  | .column name => some (.column 0 name)
  | .value v => (Literal.ofValue? v).map .literal
  | e => e.node?

theorem ExprSpec.escapes_of_tree? {e : ExprSpec} {n : Node} (h : e.tree? = some n) :
    e.escapes = false := by
  cases e with
  | escape _ | rolling _ _ => cases h
  | _ => rfl

/-! ## Expressions without operators -/

/-- An expression: no function with a header, and no root in rolling form. -/
structure Node.IsRow (n : Node) : Prop where
  isExpression : n.isExpression = true
  rollingRoot : Resolve.rollingRoot n = .ok none

instance (n : Node) : Decidable n.IsRow :=
  match h : n.isExpression, hroot : Resolve.rollingRoot n with
  | true, .ok none => isTrue ⟨h, hroot⟩
  | false, _ => isFalse fun hrow => by cases h.symm.trans hrow.isExpression
  | true, .ok (some _) => isFalse fun hrow => by cases hroot.symm.trans hrow.rollingRoot
  | true, .error _ => isFalse fun hrow => by cases hroot.symm.trans hrow.rollingRoot

namespace Resolve

variable {ctx : ResolveContext} {site : Site} {s t : ResolveState} {m n : Node}
  {f g : Formula} {env : Env}

/-- Where the body of an expression without a header stands. -/
def rowSite (ctx : ResolveContext) : Site := ⟨Scope.standard ctx.tables.length, none, false⟩

theorem run_root_row (hn : n.IsRow) {e : Formula × Node} :
    (root ctx none n).run s = .ok (e, t) ↔
      (expression ctx (rowSite ctx) n).run s.restart = .ok (e, t) := by
  have hfunction : n.isFunction = false := by
    have hexpression := hn.isExpression
    cases n with
    | arrow _ _ | function _ _ _ => cases hexpression
    | _ => rfl
  have hblock : ∀ ss, n ≠ .block ss := fun ss heq => by cases heq ▸ hn.isExpression
  rw [run_root_iff, header_of_isFunction hfunction]
  dsimp only
  rw [body_of_ne_block hblock, hn.rollingRoot]
  constructor
  · rintro (⟨-, h⟩ | ⟨g, inner, b, h, -⟩)
    · exact h
    · cases h
  · intro h
    exact .inl ⟨rfl, h⟩

/-- A row expression resolves to a formula, without a call of an operator. -/
def Row (ctx : ResolveContext) (n : Node) (f : Formula) : Prop :=
  ∃ tree, Derives ctx (rowSite ctx) .empty (.expression n (f, tree)) .empty

theorem derives_of_run_spec {e : ExprSpec} (he : e.tree? = some n) (hn : n.IsRow)
    {r : Formula × Option Node} (h : (spec ctx none e).run .empty = .ok (r, t)) :
    ∃ tree, Derives ctx (rowSite ctx) .empty (.expression n (r.1, tree)) t := by
  have hgiven : e.node? = some n → ∃ tree,
      Derives ctx (rowSite ctx) .empty (.expression n (r.1, tree)) t := by
    intro hnode
    obtain ⟨b, hb, rfl⟩ := (run_spec_iff hnode).1 h
    exact ⟨b.2, derives_expression ctx _ n ((run_root_row hn).1 hb)⟩
  cases e with
  | source _ | tree _ => exact hgiven he
  | column name =>
    obtain rfl : Node.column 0 name = n := Option.some.inj he
    obtain ⟨b, hb, rfl⟩ := run_spec_column_iff.1 h
    exact ⟨b.2, derives_expression ctx _ _ ((run_root_row hn).1 hb)⟩
  | value v =>
    obtain ⟨l, hl, rfl⟩ := Option.map_eq_some_iff.1 he
    obtain rfl := Literal.toValue_of_ofValue? hl
    obtain ⟨rfl, rfl⟩ := run_pure_eq_ok.1 h
    exact ⟨.literal l, .literal l⟩
  | escape _ | rolling _ _ => cases he

/-- An expression that registers no call leaves the state as it was. -/
theorem Derives.eq_of_noCalls {e : Formula × Node} (h : Derives ctx site s (.expression n e) t)
    (haggregates : t.aggregates = []) (hwindows : t.windows = []) : t = s := by
  refine h.unchanged trivial (Formula.Leaves.imp ?_ e.1 h.ranges)
  rintro _ hrange ref rfl
  cases ref with
  | aggregate i => rw [haggregates] at hrange; exact Nat.not_lt_zero i hrange
  | window i => rw [hwindows] at hrange; exact Nat.not_lt_zero i hrange

/-- A row expression that compiles and calls no operator is resolved by itself. -/
theorem row_of_resolve {e : ExprSpec} (he : e.tree? = some n) (hn : n.IsRow) {name : String}
    {r : Resolution} (h : resolve ctx [(name, e)] = .ok r) (hops : r.hasOps = false) :
    ∃ f tree, r = ⟨[⟨name, f, tree⟩], [], [], ctx.options.join⟩ ∧ Row ctx n f := by
  obtain ⟨es, t, hnamed, rfl⟩ := resolve_eq_ok_iff.1 h
  obtain ⟨⟨f, tree⟩, hspec, rfl⟩ := named_singleton.1 hnamed
  obtain ⟨tree', hderives⟩ := derives_of_run_spec he hn hspec
  have hcalls : t.aggregates = [] ∧ t.windows = [] := by
    simpa [Resolution.hasOps] using hops
  obtain rfl := hderives.eq_of_noCalls hcalls.1 hcalls.2
  exact ⟨f, tree, rfl, tree', hderives⟩

namespace Row

theorem resolve (h : Row ctx n f) (hn : n.IsRow) (name : String) :
    ∃ tree, ColumnQuery.resolve ctx [(name, .tree n)]
      = .ok ⟨[⟨name, f, tree⟩], [], [], ctx.options.join⟩ := by
  obtain ⟨tree, hderives⟩ := h
  have hroot : (root ctx none n).run .empty = .ok ((f, tree), .empty) :=
    (run_root_row hn).2 hderives.runs
  have hspec := (run_spec_iff (show (ExprSpec.tree n).node? = some n from rfl)).2
    ⟨_, hroot, rfl⟩
  exact ⟨some tree, resolve_eq_ok_iff.2 ⟨_, _, named_singleton.2 ⟨_, hspec, rfl⟩, rfl⟩⟩

theorem logical (hf : Row ctx m f) (hg : Row ctx n g) (op : LogicalOp) :
    Row ctx (.logical op m n) (.logical op f g) := by
  obtain ⟨tree, hm⟩ := hf
  obtain ⟨tree', hn⟩ := hg
  exact ⟨_, .logical hm hn⟩

/-- The slots of constants are as they were, since an expression declares none. -/
theorem evalWith_eq (h : Row ctx n f) (env : Env) (slots : Slots) :
    f.evalWith env slots = ((f.evalWith env slots).map (·.1)).map (·, slots) := by
  obtain ⟨tree, hderives⟩ := h
  have heval := hderives.byName env slots
  dsimp only at heval
  rw [heval, Option.map_map, Option.map_map]
  rfl

theorem eval_logical (hf : Row ctx m f) (op : LogicalOp) (g : Formula) (env : Env) :
    (Formula.logical op f g).eval env = (f.eval env).bind fun a =>
      if op.decidedBy a then some a else g.eval env := by
  unfold Formula.eval
  rw [Formula.evalWith, hf.evalWith_eq env #[]]
  cases (f.evalWith env #[]).map (·.1) with
  | none => rfl
  | some a =>
    dsimp only [Option.map_some, Option.bind_eq_bind, Option.bind_some]
    split <;> rfl

end Row

end Resolve

/-- The formula is true at a row, whatever is truthy. -/
def Formula.holdsAt (f : Formula) (row : Nat) : Bool :=
  (f.evalRow Env.noResults row).any Value.truthy

/-- A conjunction answers the operand that decides it, and this is true exactly if both are. -/
theorem Resolve.Row.holdsAt_and {ctx : ResolveContext} {m : Node} {f : Formula}
    (hf : Resolve.Row ctx m f) (g : Formula) (row : Nat) :
    (Formula.logical .and f g).holdsAt row = (f.holdsAt row && g.holdsAt row) := by
  unfold Formula.holdsAt Formula.evalRow
  rw [hf.eval_logical]
  cases f.eval ⟨.row row, Env.noResults⟩ with
  | none => rfl
  | some a =>
    cases htruthy : a.truthy <;>
      simp [LogicalOp.decidedBy, htruthy]

namespace View

variable {v : View} {key : RowKey} {p : ExprSpec} {n : Node} {f : Formula}

/-! ## Filters by predicates on rows -/

/-- An expression without a header that compiles on the view and calls no operator. -/
structure IsRowPredicate (v : View) (p : ExprSpec) (n : Node) : Prop where
  tree : p.tree? = some n
  row : n.IsRow
  compiles : ∃ r, v.resolve [("filter", p)] .derive = .ok r ∧ r.hasOps = false

theorem exists_isRowPredicate (htree : p.tree?.any (fun n => decide n.IsRow) = true)
    (hops : (v.resolve [("filter", p)] .derive).toOption.any (fun r => !r.hasOps) = true) :
    ∃ n, v.IsRowPredicate p n := by
  obtain ⟨n, hn, hrow⟩ := (Option.any_eq_true _ _).1 htree
  obtain ⟨r, hr, hcalls⟩ := exists_ok hops
  exact ⟨n, hn, of_decide_eq_true hrow, r, hr, by simpa using hcalls⟩

/-- The predicate is true at the row. -/
def HoldsAt (v : View) (p : ExprSpec) (row : Nat) : Prop :=
  ∃ r e a, v.resolve [("filter", p)] .derive = .ok r ∧ r.exprs.head? = some e ∧
    e.formula.evalRow Env.noResults row = some a ∧ a.truthy = true

theorem withFilter_eq (v : View) (b : BitSet) : v.withFilter b =
    ⟨v.data, some b, v.groups.map (·.narrow b), v.order, v.params⟩ := rfl

/-- A filter replaces the one before, and groups are narrowed from those of all rows. -/
theorem keepRows_withFilter (v : View) (b : BitSet) (rows : List Nat) :
    (v.withFilter b).keepRows rows = v.keepRows rows := by
  have hanew : (v.withFilter b).withFilter = v.withFilter := by
    funext c
    rw [withFilter_eq, withFilter_eq, withFilter_eq, Option.map_map]
    rfl
  unfold keepRows
  rw [hanew]
  rfl

theorem Sound.exists_keepRows (hv : v.Sound key) (holds : Nat → Bool) :
    ∃ b, v.keepRows (v.visible.filter holds) = .ok (v.withFilter b) ∧ v.Selects b ∧
      (v.withFilter b).visible = v.visible.filter holds := by
  have hshown : ∀ row ∈ v.visible.filter holds, row ∈ v.visible := fun row hrow =>
    (List.mem_filter.1 hrow).1
  obtain ⟨b, hset, hb, hcontains⟩ := hv.exists_rowSet hshown
  refine ⟨b, by rw [keepRows, hset]; rfl, hb, ?_⟩
  rw [hv.visible_withFilter hb]
  refine List.filter_congr fun row hrow => ?_
  rw [hcontains]
  simp [hrow]

/-- A filter keeps the visible rows at which the formula of its predicate is true. -/
theorem Sound.filterBy_row (hv : v.Sound key) (hplain : p.escapes = false) {tree : Option Node}
    (hr : v.resolve [("filter", p)] .derive = .ok ⟨[⟨"filter", f, tree⟩], [], [], false⟩) :
    v.filterBy p = v.keepRows (v.visible.filter f.holdsAt) := by
  have hresults : (OperatorResults.mk [] [] v.groupOf).lookup = Env.noResults := by
    funext ref row
    cases ref <;> rfl
  have hrows := hv.satisfying_eq hr (List.forall_mem_singleton.2 hplain)
    (List.mem_singleton.2 rfl) ⟨[], [], v.groupOf⟩
  rw [hresults] at hrows
  unfold filterBy
  rw [hr]
  show QueryError.ofRead (v.satisfying f ⟨[], [], v.groupOf⟩) >>= v.keepRows = _
  rw [hrows]
  rfl

/-- A filter after another one keeps those of the rows that the other one has left. -/
theorem Sound.filterBy_withFilter (hv : v.Sound key) {b : BitSet} (hb : v.Selects b)
    (hplain : p.escapes = false) {tree : Option Node}
    (hr : v.resolve [("filter", p)] .derive = .ok ⟨[⟨"filter", f, tree⟩], [], [], false⟩) :
    (v.withFilter b).filterBy p = v.keepRows ((v.withFilter b).visible.filter f.holdsAt) := by
  have hfiltered := hv.withFilter hb.wellFormed hb.length_eq
  rw [hfiltered.filterBy_row hplain hr, keepRows_withFilter]

theorem holdsAt_iff {tree : Option Node}
    (hr : v.resolve [("filter", p)] .derive = .ok ⟨[⟨"filter", f, tree⟩], [], [], false⟩)
    {row : Nat} : v.HoldsAt p row ↔ f.holdsAt row = true := by
  unfold HoldsAt Formula.holdsAt
  rw [hr]
  constructor
  · rintro ⟨r, e, a, hok, he, heval, ha⟩
    cases hok
    cases he
    rw [heval]
    exact ha
  · intro h
    obtain ⟨a, heval, ha⟩ := (Option.any_eq_true _ _).1 h
    exact ⟨_, _, a, rfl, rfl, heval, ha⟩

end View

/-- Filters of a reachable view by two predicates on rows go through, in either order, and lead to
    the same view as the filter by their conjunction. It shows the rows at which both are true, and
    but for the filter, to which its groups are narrowed, it is the view it comes from. -/
theorem filters_fuse {v : View} (h : Reachable v) {p q : ExprSpec} {m n : Node}
    (hp : v.IsRowPredicate p m) (hq : v.IsRowPredicate q n) :
    ∃ x y w rows, v.filterBy p = .ok x ∧ x.filterBy q = .ok w ∧
      v.filterBy q = .ok y ∧ y.filterBy p = .ok w ∧
      v.filterBy (.tree (.logical .and m n)) = .ok w ∧
      w = ⟨v.data, some rows, v.groups.map (·.narrow rows), v.order, v.params⟩ ∧
      (∀ row, row ∈ x.visible ↔ row ∈ v.visible ∧ v.HoldsAt p row) ∧
      (∀ row, row ∈ y.visible ↔ row ∈ v.visible ∧ v.HoldsAt q row) ∧
      ∀ row, row ∈ w.visible ↔ row ∈ v.visible ∧ v.HoldsAt p row ∧ v.HoldsAt q row := by
  obtain ⟨key, hreach⟩ := h
  have hv := sound_of_reachable hreach
  obtain ⟨r, hr, hops⟩ := hp.compiles
  obtain ⟨r', hr', hops'⟩ := hq.compiles
  obtain ⟨f, tree, rfl, hf⟩ := Resolve.row_of_resolve hp.tree hp.row hr hops
  obtain ⟨g, tree', rfl, hg⟩ := Resolve.row_of_resolve hq.tree hq.row hr' hops'
  have hboth : Node.IsRow (.logical .and m n) := ⟨rfl, rfl⟩
  obtain ⟨tree'', hr''⟩ := (hf.logical hg .and).resolve hboth "filter"
  have hplain := ExprSpec.escapes_of_tree? hp.tree
  have hplain' := ExprSpec.escapes_of_tree? hq.tree
  obtain ⟨b, hkeep, hb, hx⟩ := hv.exists_keepRows f.holdsAt
  obtain ⟨c, hkeep', hc, hy⟩ := hv.exists_keepRows g.holdsAt
  obtain ⟨d, hkeep'', -, hw⟩ := hv.exists_keepRows fun row => f.holdsAt row && g.holdsAt row
  refine ⟨v.withFilter b, v.withFilter c, v.withFilter d, d, ?_, ?_, ?_, ?_, ?_,
    View.withFilter_eq v d, fun row => ?_, fun row => ?_, fun row => ?_⟩
  · rw [hv.filterBy_row hplain hr, hkeep]
  · rw [hv.filterBy_withFilter hb hplain' hr', hx, List.filter_filter, ← hkeep'']
    simp only [Bool.and_comm]
  · rw [hv.filterBy_row hplain' hr', hkeep']
  · rw [hv.filterBy_withFilter hc hplain hr, hy, List.filter_filter, hkeep'']
  · rw [hv.filterBy_row rfl hr'', funext (hf.holdsAt_and g), hkeep'']
  · rw [hx, List.mem_filter, View.holdsAt_iff hr]
  · rw [hy, List.mem_filter, View.holdsAt_iff hr']
  · rw [hw, List.mem_filter, View.holdsAt_iff hr, View.holdsAt_iff hr', Bool.and_eq_true]

/-- Grouped letters under two filters: the one hides the second group, the other one the third. -/
theorem filters_fuse_letters : ∃ v x y w m n, Reachable v ∧ v.groupCount = 3 ∧
    v.IsRowPredicate (.source "d.x != 'b'") m ∧ v.IsRowPredicate (.source "d.x < 'c'") n ∧
    v.filterBy (.source "d.x != 'b'") = .ok x ∧ x.filterBy (.source "d.x < 'c'") = .ok w ∧
    v.filterBy (.source "d.x < 'c'") = .ok y ∧ y.filterBy (.source "d.x != 'b'") = .ok w ∧
    v.filterBy (.tree (.logical .and m n)) = .ok w ∧
    x.visible = [0, 2, 3] ∧ y.visible = [0, 1, 2] ∧ w.visible = [0, 2] ∧
    w.groups.map (·.shown.keys) = some #[some 0, none, some 0, none] := by
  obtain ⟨v, hgrouped, hreach, hcount, -⟩ := exists_groupBy_letters
  obtain ⟨m, hm⟩ : ∃ m, v.IsRowPredicate (.source "d.x != 'b'") m := by
    cases hgrouped
    exact View.exists_isRowPredicate (by decide +kernel) (by decide +kernel)
  obtain ⟨n, hn⟩ : ∃ n, v.IsRowPredicate (.source "d.x < 'c'") n := by
    cases hgrouped
    exact View.exists_isRowPredicate (by decide +kernel) (by decide +kernel)
  obtain ⟨x, y, w, -, hx, hxw, hy, hyw, hboth, -⟩ := filters_fuse hreach hm hn
  have hshown : ((View.ofTable letters).groupBy ["x"] >>= fun v => do
      let x ← v.filterBy (.source "d.x != 'b'")
      let y ← v.filterBy (.source "d.x < 'c'")
      let w ← x.filterBy (.source "d.x < 'c'")
      return (x.visible, y.visible, w.visible, w.groups.map (·.shown.keys))).toOption
        = some ([0, 2, 3], [0, 1, 2], [0, 2], some #[some 0, none, some 0, none]) := by
    decide +kernel
  simp only [hgrouped, hx, hy, hxw, bind, Except.bind, pure, Except.pure, Except.toOption,
    Option.some.injEq, Prod.mk.injEq] at hshown
  exact ⟨v, x, y, w, m, n, hreach, hcount, hm, hn, hx, hxw, hy, hyw, hboth, hshown⟩

end ColumnQuery
