/-
  Whole expressions.

  An expression is given by a text, a tree or otherwise, and what it resolves to is decided by its
  body and by the place that its header and its frame make for the body (`run_spec_iff_body`). So
  an expression that resolves is an escaped function or a value, or there is a derivation for its
  body (`spec_cases`), and whatever resolves by itself resolves beside others one by one, from the
  calls that those before it have registered (`run_named_cons`).
-/
import Mathlib.Data.List.Forall2
import ColumnQuery.Proofs.Formula.Runs

namespace ColumnQuery

/-! ## Headers and frames -/

/-- A function literal. -/
def Node.isFunction : Node → Bool
  | arrow _ _ | function _ _ _ => true
  | _ => false

/-- The tree that an expression is given by. -/
def ExprSpec.node? : ExprSpec → Option Node
  | source text => (Node.parse text).toOption
  | tree node => some node
  | escape _ | value _ | column _ | rolling _ _ => none

/-- The tree that an expression is given by, in however many windows. -/
def ExprSpec.innermost? : ExprSpec → Option Node
  | rolling e _ => e.innermost?
  | e => e.node?

/-- The function that an expression escapes to. -/
def ExprSpec.escaped? : ExprSpec → Option EscapedFunction
  | escape f => some f
  | rolling e _ => e.escaped?
  | source _ | tree _ | value _ | column _ => none

/-- The start of an expression: no constants, and slots from the first one on. -/
def ResolveState.restart (s : ResolveState) : ResolveState := { s with locals := [], nextSlot := 0 }

namespace Resolve

/-- The place and the body of an expression under a frame. -/
def placed? (tables : Nat) (frame : Option Frame) (node : Node) : Option (Site × Node) :=
  match rollingRoot (header tables node).2 with
  | .ok (some (g, inner)) => some (⟨(header tables node).1, some g, false⟩, inner)
  | .ok none => some (⟨(header tables node).1, frame, false⟩, (header tables node).2)
  | .error _ => none

end Resolve

/-- The place and the body of whatever stands for an expression, if it is given by a tree. -/
def ExprSpec.placed? (tables : Nat) (frame : Option Frame) : ExprSpec → Option (Site × Node)
  | rolling e g => placed? tables (some g) e
  | e => e.node?.bind (Resolve.placed? tables frame)

namespace Resolve

variable {ctx : ResolveContext} {frame : Option Frame} {site : Site} {node inner : Node}
  {s s' : ResolveState}

/-! ## Roots -/

section Roots

variable {e : Formula × Node} {f : Formula}

theorem header_of_isFunction (h : node.isFunction = false) (tables : Nat) :
    header tables node = (Scope.standard tables, node) := by
  cases node with
  | arrow _ _ | function _ _ _ => cases h
  | _ => rfl

/-- A root in rolling form is resolved under its own frame, any other one under the frame around
    it. -/
theorem run_root_iff :
    (root ctx frame node).run s = .ok (e, s') ↔
      (rollingRoot (header ctx.tables.length node).2 = .ok none ∧
        (body ctx ⟨(header ctx.tables.length node).1, frame, false⟩
          (header ctx.tables.length node).2).run s.restart = .ok (e, s')) ∨
      ∃ g inner b, rollingRoot (header ctx.tables.length node).2 = .ok (some (g, inner)) ∧
        (body ctx ⟨(header ctx.tables.length node).1, some g, false⟩ inner).run s.restart
          = .ok (b, s') ∧ e = (b.1, .rolling g b.2) := by
  unfold root
  dsimp only
  rw [run_bind_eq_ok]
  constructor
  · rintro ⟨_, _, hrestart, h⟩
    obtain rfl := run_modify_eq_ok.1 hrestart
    obtain ⟨rolled, _, hrolled, h⟩ := run_bind_eq_ok.1 h
    obtain ⟨hroot, rfl⟩ := run_liftM_eq_ok.1 hrolled
    cases rolled with
    | none => exact .inl ⟨hroot, h⟩
    | some r =>
      obtain ⟨g, inner⟩ := r
      obtain ⟨b, t, hb, h⟩ := run_bind_eq_ok.1 h
      obtain ⟨rfl, rfl⟩ := run_pure_eq_ok.1 h
      exact .inr ⟨g, inner, b, hroot, hb, rfl⟩
  · intro h
    refine ⟨(), s.restart, run_modify_eq_ok.2 rfl, ?_⟩
    rcases h with ⟨hroot, hb⟩ | ⟨g, inner, b, hroot, hb, rfl⟩
    · exact run_bind_eq_ok.2 ⟨none, s.restart, run_liftM_eq_ok.2 ⟨hroot, rfl⟩, hb⟩
    · refine run_bind_eq_ok.2 ⟨some (g, inner), s.restart, run_liftM_eq_ok.2 ⟨hroot, rfl⟩, ?_⟩
      exact run_bind_eq_ok.2 ⟨b, s', hb, run_pure_eq_ok.2 ⟨rfl, rfl⟩⟩

theorem run_root_iff_body
    (h : placed? ctx.tables.length frame node = some (site, inner)) :
    (∃ tree, (root ctx frame node).run s = .ok ((f, tree), s')) ↔
      ∃ tree, (body ctx site inner).run s.restart = .ok ((f, tree), s') := by
  unfold placed? at h
  split at h
  next g body hroot =>
    cases h
    constructor
    · rintro ⟨tree, hrun⟩
      rcases run_root_iff.1 hrun with ⟨hnone, -⟩ | ⟨g', inner', b, hsome, hb, heq⟩
      · rw [hroot] at hnone
        cases hnone
      · rw [hroot] at hsome
        cases hsome
        cases heq
        exact ⟨b.2, hb⟩
    · rintro ⟨tree, hrun⟩
      exact ⟨.rolling g tree, run_root_iff.2 (.inr ⟨g, inner, (f, tree), hroot, hrun, rfl⟩)⟩
  next hroot =>
    cases h
    constructor
    · rintro ⟨tree, hrun⟩
      rcases run_root_iff.1 hrun with ⟨-, hb⟩ | ⟨g, inner', b, hsome, -, -⟩
      · exact ⟨tree, hb⟩
      · rw [hroot] at hsome
        cases hsome
    · rintro ⟨tree, hrun⟩
      exact ⟨tree, run_root_iff.2 (.inl ⟨hroot, hrun⟩)⟩
  next => cases h

theorem derives_of_root (h : (root ctx frame node).run s = .ok (e, s')) :
    ∃ site inner tree, site.inOperator = false ∧
      Derives ctx site s.restart (.body inner (e.1, tree)) s' := by
  rcases run_root_iff.1 h with ⟨-, hb⟩ | ⟨g, inner, b, -, hb, rfl⟩
  · exact ⟨_, _, e.2, rfl, derives_body hb⟩
  · exact ⟨_, inner, b.2, rfl, derives_body hb⟩

/-- A tree that resolves has a place for its body. -/
theorem exists_placed_of_root (h : (root ctx frame node).run s = .ok (e, s')) :
    ∃ site inner, placed? ctx.tables.length frame node = some (site, inner) := by
  unfold placed?
  rcases run_root_iff.1 h with ⟨hroot, -⟩ | ⟨g, inner, -, hroot, -, -⟩ <;>
  · rw [hroot]
    exact ⟨_, _, rfl⟩

end Roots

/-! ## Expressions -/

section Expressions

variable {e : ExprSpec} {r : Formula × Option Node}

theorem run_spec_tree_iff : (spec ctx frame (.tree node)).run s = .ok (r, s') ↔
    ∃ b, (root ctx frame node).run s = .ok (b, s') ∧ r = (b.1, some b.2) :=
  run_map_eq_ok

/-- A named column is the column of the first table. -/
theorem run_spec_column_iff {name : String} :
    (spec ctx frame (.column name)).run s = .ok (r, s') ↔
      ∃ b, (root ctx frame (.column 0 name)).run s = .ok (b, s') ∧ r = (b.1, some b.2) :=
  run_map_eq_ok

theorem run_spec_rolling_iff {g : Frame} :
    (spec ctx frame (.rolling e g)).run s = .ok (r, s') ↔
      ∃ b, (spec ctx (some g) e).run s = .ok (b, s') ∧ r = (b.1, b.2.map (.rolling g)) :=
  run_map_eq_ok

/-- An expression that is given by a tree resolves like the tree. -/
theorem run_spec_iff (h : e.node? = some node) : (spec ctx frame e).run s = .ok (r, s') ↔
    ∃ b, (root ctx frame node).run s = .ok (b, s') ∧ r = (b.1, some b.2) := by
  have htree : (spec ctx frame (.tree node)).run s = .ok (r, s') ↔
      ∃ b, (root ctx frame node).run s = .ok (b, s') ∧ r = (b.1, some b.2) := run_spec_tree_iff
  cases e with
  | source text =>
    have hparse : Node.parse text = .ok node := by
      unfold ExprSpec.node? Except.toOption at h
      dsimp only at h
      split at h
      next n heq =>
        cases h
        exact heq
      next => cases h
    unfold spec
    rw [hparse]
    exact htree
  | tree n =>
    cases h
    exact htree
  | _ => cases h

theorem exists_node_of_source {text : String}
    (h : (spec ctx frame (.source text)).run s = .ok (r, s')) :
    ∃ node, (ExprSpec.source text).node? = some node := by
  unfold spec at h
  obtain ⟨node, t, hnode, -⟩ := run_bind_eq_ok.1 h
  obtain ⟨hparse, -⟩ := run_liftM_eq_ok.1 hnode
  have hnode : (Node.parse text).toOption = some node := by
    cases hp : Node.parse text with
    | error err =>
      rw [hp] at hparse
      cases hparse
    | ok n =>
      rw [hp] at hparse
      cases hparse
      rfl
  exact ⟨node, hnode⟩

/-- An expression resolves like its body, at its place. -/
theorem run_spec_iff_body {f : Formula}
    (h : e.placed? ctx.tables.length frame = some (site, inner)) :
    (∃ tree, (spec ctx frame e).run s = .ok ((f, tree), s')) ↔
      ∃ tree, (body ctx site inner).run s.restart = .ok ((f, tree), s') := by
  induction e generalizing frame with
  | source text | tree node =>
    obtain ⟨node, hnode, hplaced⟩ := Option.bind_eq_some_iff.1 h
    rw [← run_root_iff_body hplaced]
    constructor
    · rintro ⟨tree, hrun⟩
      obtain ⟨b, hb, heq⟩ := (run_spec_iff hnode).1 hrun
      cases heq
      exact ⟨b.2, hb⟩
    · rintro ⟨tree, hrun⟩
      exact ⟨some tree, (run_spec_iff hnode).2 ⟨(f, tree), hrun, rfl⟩⟩
  | rolling wrapped g ih =>
    rw [← ih h]
    constructor
    · rintro ⟨tree, hrun⟩
      obtain ⟨b, hb, heq⟩ := run_spec_rolling_iff.1 hrun
      cases heq
      exact ⟨b.2, hb⟩
    · rintro ⟨tree, hrun⟩
      exact ⟨tree.map (.rolling g), run_spec_rolling_iff.2 ⟨(f, tree), hrun, rfl⟩⟩
  | _ => cases h

/-- An expression is an escaped function or a value, or it is resolved through its body. -/
theorem spec_cases (h : (spec ctx frame e).run s = .ok (r, s')) :
    (s' = s ∧ ((∃ g, e.escaped? = some g ∧ r.1 = .escape g ctx.tables ctx.params) ∨
      e.escaped? = none ∧ ∃ v, r.1 = .literal v)) ∨
    e.escaped? = none ∧ ∃ site inner tree, site.inOperator = false ∧
      Derives ctx site s.restart (.body inner (r.1, tree)) s' := by
  induction e generalizing frame r with
  | source text =>
    obtain ⟨node, hnode⟩ := exists_node_of_source h
    obtain ⟨b, hb, rfl⟩ := (run_spec_iff hnode).1 h
    exact .inr ⟨rfl, derives_of_root hb⟩
  | tree node =>
    obtain ⟨b, hb, rfl⟩ := run_spec_tree_iff.1 h
    exact .inr ⟨rfl, derives_of_root hb⟩
  | column name =>
    obtain ⟨b, hb, rfl⟩ := run_spec_column_iff.1 h
    exact .inr ⟨rfl, derives_of_root hb⟩
  | escape g =>
    obtain ⟨rfl, rfl⟩ := run_pure_eq_ok.1 h
    exact .inl ⟨rfl, .inl ⟨g, rfl, rfl⟩⟩
  | value v =>
    obtain ⟨rfl, rfl⟩ := run_pure_eq_ok.1 h
    exact .inl ⟨rfl, .inr ⟨rfl, v, rfl⟩⟩
  | rolling inner g ih =>
    obtain ⟨b, hb, rfl⟩ := run_spec_rolling_iff.1 h
    have hinner := ih hb
    exact hinner

/-- An expression that is given by a tree is resolved through its body, at its place. -/
theorem derives_of_spec (hnode : e.innermost? = some node)
    (h : (spec ctx frame e).run s = .ok (r, s')) :
    ∃ site inner tree, e.placed? ctx.tables.length frame = some (site, inner) ∧
      Derives ctx site s.restart (.body inner (r.1, tree)) s' := by
  have hplaced : ∃ site inner, e.placed? ctx.tables.length frame = some (site, inner) := by
    induction e generalizing frame r with
    | source text | tree n =>
      obtain ⟨b, hb, -⟩ := (run_spec_iff hnode).1 h
      obtain ⟨site, inner, hplaced⟩ := exists_placed_of_root hb
      exact ⟨site, inner, Option.bind_eq_some_iff.2 ⟨node, hnode, hplaced⟩⟩
    | rolling inner g ih =>
      obtain ⟨b, hb, rfl⟩ := run_spec_rolling_iff.1 h
      exact ih hnode hb
    | _ => cases hnode
  obtain ⟨site, inner, hplaced⟩ := hplaced
  obtain ⟨tree, hbody⟩ := (run_spec_iff_body hplaced).1 ⟨r.2, h⟩
  exact ⟨site, inner, tree, hplaced, derives_body hbody⟩

end Expressions

/-! ## Expressions together -/

section Named

variable {exprs : List (String × ExprSpec)} {es : List NamedFormula} {name : String} {e : ExprSpec}

/-- The first expression is resolved, and then the others, beside its calls. -/
theorem run_named_cons : (named ctx ((name, e) :: exprs)).run s = .ok (es, s') ↔
    ∃ r t more, (spec ctx none e).run s = .ok (r, t) ∧
      (named ctx exprs).run t = .ok (more, s') ∧ es = ⟨name, r.1, r.2⟩ :: more := by
  rw [named, run_bind_eq_ok]
  constructor
  · rintro ⟨r, t, hr, h⟩
    obtain ⟨more, hmore, rfl⟩ := run_map_eq_ok.1 h
    exact ⟨r, t, more, hr, hmore, rfl⟩
  · rintro ⟨r, t, more, hr, hmore, rfl⟩
    exact ⟨r, t, hr, run_map_eq_ok.2 ⟨more, hmore, rfl⟩⟩

theorem named_singleton : (named ctx [(name, e)]).run s = .ok (es, s') ↔
    ∃ r, (spec ctx none e).run s = .ok (r, s') ∧ es = [⟨name, r.1, r.2⟩] := by
  rw [run_named_cons]
  constructor
  · rintro ⟨r, t, more, hr, hmore, rfl⟩
    obtain ⟨rfl, rfl⟩ := run_pure_eq_ok.1 hmore
    exact ⟨r, hr, rfl⟩
  · rintro ⟨r, hr, rfl⟩
    exact ⟨r, s', [], hr, run_pure_eq_ok.2 ⟨rfl, rfl⟩, rfl⟩

/-- What holds of each expression however it is resolved holds of expressions resolved
    together. -/
theorem forall₂_of_named {Q : String × ExprSpec → NamedFormula → Prop}
    (hspec : ∀ e ∈ exprs, ∀ {s s' : ResolveState} {r : Formula × Option Node},
      (spec ctx none e.2).run s = .ok (r, s') → Q e ⟨e.1, r.1, r.2⟩)
    (h : (named ctx exprs).run s = .ok (es, s')) : List.Forall₂ Q exprs es := by
  induction exprs generalizing s es with
  | nil =>
    obtain ⟨rfl, -⟩ := run_pure_eq_ok.1 h
    exact .nil
  | cons e exprs ih =>
    obtain ⟨hfirst, hrest⟩ := List.forall_mem_cons.1 hspec
    obtain ⟨r, t, more, hr, hmore, rfl⟩ := run_named_cons.1 h
    exact .cons (hfirst hr) (ih hrest hmore)

/-- The states before and after expressions are related as those before and after a body are, if
    whatever leaves the lists of calls as they are keeps to the relation. -/
theorem steps_of_named {R : ResolveState → ResolveState → Prop}
    (hstay : ∀ {s t}, s.aggregates = t.aggregates → s.windows = t.windows → R s t)
    (htrans : ∀ {s t u}, R s t → R t u → R s u)
    (hderives : ∀ {site s part t}, Derives ctx site s part t → R s t)
    (h : (named ctx exprs).run s = .ok (es, s')) : R s s' := by
  induction exprs generalizing s es with
  | nil =>
    obtain ⟨-, rfl⟩ := run_pure_eq_ok.1 h
    exact hstay rfl rfl
  | cons e exprs ih =>
    obtain ⟨r, t, more, hr, hmore, rfl⟩ := run_named_cons.1 h
    refine htrans ?_ (ih hmore)
    rcases spec_cases hr with ⟨rfl, -⟩ | ⟨-, site, inner, tree, -, hbody⟩
    · exact hstay rfl rfl
    · have hrestart : R s s.restart := hstay rfl rfl
      exact htrans hrestart (hderives hbody)

/-- Each of the expressions that resolve together has been resolved. -/
theorem run_named_getElem (h : (named ctx exprs).run s = .ok (es, s')) {i : Nat}
    (he : exprs[i]? = some (name, e)) :
    ∃ r t t', es[i]? = some ⟨name, r.1, r.2⟩ ∧ (spec ctx none e).run t = .ok (r, t') := by
  induction exprs generalizing s es i with
  | nil => cases he
  | cons first exprs ih =>
    obtain ⟨r, t, more, hr, hmore, rfl⟩ := run_named_cons.1 h
    cases i with
    | zero =>
      cases he
      exact ⟨r, _, _, rfl, hr⟩
    | succ i => exact ih hmore he

end Named

end Resolve

theorem resolve_eq_ok_iff {ctx : ResolveContext} {exprs : List (String × ExprSpec)}
    {r : Resolution} : resolve ctx exprs = .ok r ↔
      ∃ es s, (Resolve.named ctx exprs).run .empty = .ok (es, s) ∧
        r = ⟨es, s.aggregates, s.windows, ctx.options.join⟩ := by
  unfold resolve
  cases (Resolve.named ctx exprs).run .empty with
  | error e => simp [bind, Except.bind]
  | ok outcome =>
    obtain ⟨es, s⟩ := outcome
    simp [bind, Except.bind, pure, Except.pure, eq_comm]

theorem forall₂_of_resolve {ctx : ResolveContext} {exprs : List (String × ExprSpec)}
    {Q : String × ExprSpec → NamedFormula → Prop}
    (hspec : ∀ e ∈ exprs, ∀ {s s' : ResolveState} {r : Formula × Option Node},
      (Resolve.spec ctx none e.2).run s = .ok (r, s') → Q e ⟨e.1, r.1, r.2⟩)
    {r : Resolution} (h : resolve ctx exprs = .ok r) : List.Forall₂ Q exprs r.exprs := by
  obtain ⟨es, s, hnamed, rfl⟩ := resolve_eq_ok_iff.1 h
  exact Resolve.forall₂_of_named hspec hnamed

/-- Resolution keeps the names of the expressions. -/
theorem names_of_resolve {ctx : ResolveContext} {exprs : List (String × ExprSpec)}
    {r : Resolution} (h : resolve ctx exprs = .ok r) :
    r.exprs.map (·.name) = exprs.map (·.1) := by
  have hnames : List.Forall₂ (fun e f => e.1 = f.name) exprs r.exprs :=
    forall₂_of_resolve (fun _ _ _ _ _ _ => rfl) h
  rw [← List.forall₂_eq_eq_eq, List.forall₂_map_left_iff, List.forall₂_map_right_iff]
  exact hnames.flip.imp fun _ _ heq => heq.symm

/-- A derivation for the body of an expression resolves it. -/
theorem resolve_of_derives {ctx : ResolveContext} {e : ExprSpec} {site : Site} {inner : Node}
    (hplaced : e.placed? ctx.tables.length none = some (site, inner)) {b : Formula × Node}
    {s : ResolveState} (h : Resolve.Derives ctx site .empty (.body inner b) s) (name : String) :
    ∃ tree, resolve ctx [(name, e)]
      = .ok ⟨[⟨name, b.1, tree⟩], s.aggregates, s.windows, ctx.options.join⟩ := by
  have hspec : ∃ tree, (Resolve.spec ctx none e).run .empty = .ok ((b.1, tree), s) :=
    (Resolve.run_spec_iff_body hplaced).2 ⟨b.2, h.runs⟩
  obtain ⟨tree, hspec⟩ := hspec
  exact ⟨tree, resolve_eq_ok_iff.2 ⟨_, s, Resolve.named_singleton.2 ⟨_, hspec, rfl⟩, rfl⟩⟩

end ColumnQuery
