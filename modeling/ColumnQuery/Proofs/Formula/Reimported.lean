/-
  Exported texts imported again.

  The text of an exported tree is a function of the tables and the parameters, under fixed names.
  Parsed, its body is the surface of the tree, and its header gives the body the names that it has
  without one (`bind_headerNames`). So the text in place of the expression registers the same
  calls, and gives formulas that are worth the same at every row (`resolve_source_of_resolve`); if
  the tree is its own surface up to columns and parameters, it gives the same tree again.
-/
import ColumnQuery.Proofs.Formula.Exported
import ColumnQuery.Proofs.Formula.Surfaced
import ColumnQuery.Proofs.Syntax.Function

namespace ColumnQuery

namespace Resolve

variable {ctx : ResolveContext} {frame : Option Frame} {s s' u : ResolveState} {e : Formula × Node}
  {t : Node}

/-! ## Expressions in a list -/

/-- What was declared in the expressions before it does not matter to an expression. -/
theorem run_root_of_restart {node : Node} (hu : u.restart = s.restart)
    (h : (root ctx frame node).run s = .ok (e, s')) : (root ctx frame node).run u = .ok (e, s') := by
  rw [run_root_iff] at h ⊢
  rw [hu]
  exact h

theorem run_spec_of_restart {spec : ExprSpec} {r : Formula × Option Node}
    (hu : u.restart = s.restart) (h : (Resolve.spec ctx frame spec).run s = .ok (r, s')) :
    ∃ u', (Resolve.spec ctx frame spec).run u = .ok (r, u') ∧ u'.restart = s'.restart := by
  induction spec generalizing frame r with
  | source text =>
    obtain ⟨node, hnode⟩ := exists_node_of_source h
    obtain ⟨e, he, rfl⟩ := (run_spec_iff hnode).1 h
    exact ⟨s', (run_spec_iff hnode).2 ⟨e, run_root_of_restart hu he, rfl⟩, rfl⟩
  | tree node =>
    obtain ⟨e, he, rfl⟩ := run_spec_tree_iff.1 h
    exact ⟨s', run_spec_tree_iff.2 ⟨e, run_root_of_restart hu he, rfl⟩, rfl⟩
  | escape g =>
    obtain ⟨rfl, rfl⟩ := run_pure_eq_ok.1 h
    exact ⟨u, rfl, hu⟩
  | value v =>
    obtain ⟨rfl, rfl⟩ := run_pure_eq_ok.1 h
    exact ⟨u, rfl, hu⟩
  | column name =>
    obtain ⟨e, he, rfl⟩ := run_spec_column_iff.1 h
    exact ⟨s', run_spec_column_iff.2 ⟨e, run_root_of_restart hu he, rfl⟩, rfl⟩
  | rolling inner g ih =>
    obtain ⟨e, he, rfl⟩ := run_spec_rolling_iff.1 h
    obtain ⟨u', hu', hrestart⟩ := ih he
    exact ⟨u', run_spec_rolling_iff.2 ⟨e, hu', rfl⟩, hrestart⟩

theorem run_named_of_restart {exprs : List (String × ExprSpec)} {es : List NamedFormula}
    (hu : u.restart = s.restart) (h : (named ctx exprs).run s = .ok (es, s')) :
    ∃ u', (named ctx exprs).run u = .ok (es, u') ∧ u'.restart = s'.restart := by
  induction exprs generalizing s u es with
  | nil =>
    obtain ⟨rfl, rfl⟩ := run_pure_eq_ok.1 h
    exact ⟨u, rfl, hu⟩
  | cons p exprs ih =>
    obtain ⟨r, t, more, hr, hmore, rfl⟩ := run_named_cons.1 h
    obtain ⟨t', hr', ht'⟩ := run_spec_of_restart hu hr
    obtain ⟨u', hmore', hu'⟩ := ih ht' hmore
    exact ⟨u', run_named_cons.2 ⟨r, t', more, hr', hmore', rfl⟩, hu'⟩

/-- An expression of a list can be replaced by another one that registers the same calls. -/
theorem run_named_set {exprs : List (String × ExprSpec)} {es : List NamedFormula}
    (h : (named ctx exprs).run s = .ok (es, s')) {i : Nat} {name : String} {spec : ExprSpec}
    (hi : exprs[i]? = some (name, spec)) :
    ∃ u r u', (Resolve.spec ctx none spec).run u = .ok (r, u') ∧
      es[i]? = some ⟨name, r.1, r.2⟩ ∧
      ∀ spec' r' v, (Resolve.spec ctx none spec').run u = .ok (r', v) → v.restart = u'.restart →
        ∃ s'', (named ctx (exprs.set i (name, spec'))).run s
          = .ok (es.set i ⟨name, r'.1, r'.2⟩, s'') ∧ s''.restart = s'.restart := by
  induction exprs generalizing s es i with
  | nil => cases hi
  | cons p exprs ih =>
    obtain ⟨r, t, more, hr, hmore, rfl⟩ := run_named_cons.1 h
    cases i with
    | zero =>
      cases hi
      refine ⟨s, r, t, hr, rfl, fun spec' r' v hspec' hv => ?_⟩
      obtain ⟨s'', hmore', hs''⟩ := run_named_of_restart hv hmore
      exact ⟨s'', run_named_cons.2 ⟨r', v, more, hspec', hmore', rfl⟩, hs''⟩
    | succ i =>
      obtain ⟨u, r₁, u', hspec, hes, hreplace⟩ := ih hmore hi
      refine ⟨u, r₁, u', hspec, hes, fun spec' r' v hspec' hv => ?_⟩
      obtain ⟨s'', hmore', hs''⟩ := hreplace spec' r' v hspec' hv
      exact ⟨s'', run_named_cons.2 ⟨r, t, _, hr, hmore', rfl⟩, hs''⟩

/-! ## Windows -/

theorem bound?_boundSurface {b : Option Int} (hb : b.all Number.isBound = true) :
    bound? (Node.boundSurface b) = some b := by
  cases b with
  | none => rfl
  | some n =>
    have hbound : Number.isBound n = true := hb
    obtain ⟨hintegral, hvalue, hopposite⟩ := Number.isBound_iff.1 hbound
    cases n with
    | ofNat k =>
      rw [Node.boundSurface, bound?]
      exact (if_pos hintegral).trans (congrArg (some ∘ some) hvalue)
    | negSucc k =>
      rw [Node.boundSurface, bound?]
      exact (if_pos hintegral).trans (congrArg (some ∘ some) (hopposite (Int.negSucc_lt_zero k)))

theorem rollingRoot_surface_rolling {g : Frame} {b : Node} {sp : Spelling}
    (hstart : g.start.all Number.isBound = true) (hstop : g.stop.all Number.isBound = true) :
    rollingRoot ((Node.rolling g b).surface sp) = .ok (some (g, b.surface sp)) := by
  rw [Node.surface, rollingRoot, rollingArguments?, bound?_boundSurface hstart,
    bound?_boundSurface hstop]
  rfl

theorem keepsText_rolling {g : Frame} {b : Node} {sp : Spelling} (hb : b.KeepsText sp)
    (hstart : g.start.all Number.isBound = true) (hstop : g.stop.all Number.isBound = true) :
    (Node.rolling g b).KeepsText sp := by
  refine ⟨?_, fun s => ?_⟩
  · rw [Node.surface]
    refine .call (.identifier (by decide) (by decide)) ?_
    simp only [List.forall_mem_cons]
    refine ⟨hb.spellable, .array ?_, .boolean _, by simp⟩
    simp only [List.forall_mem_cons]
    exact ⟨Node.spellable_boundSurface hstart, Node.spellable_boundSurface hstop, by simp⟩
  · rw [Node.surface]
    simp only [Node.textWith, Node.textsWith_eq, List.map_cons, List.map_nil, hb.text,
      Node.text_boundSurface hstart, Node.text_boundSurface hstop]
    refine String.toList_inj.1 ?_
    simp [Node.frameText, Node.commaSeparated, Node.enclosed, Node.literalText, Node.isAtom]

theorem rollingRoot_surface {sp : Spelling} (h : rollingRoot t = .ok none) :
    rollingRoot (t.surface sp) = .ok none := by
  cases t with
  | call f args =>
    rw [Node.surface]
    exact rollingRoot_call_iff.2 fun hf =>
      rollingRoot_call_iff.1 h (Node.surface_eq_identifier hf)
  | rolling g b => cases h
  | literal v =>
    rw [Node.surface]
    cases v with
    | number x =>
      show rollingRoot (Node.numberSurface x) = _
      unfold Node.numberSurface
      split <;> rfl
    | _ => rfl
  | member o p computed =>
    unfold Node.surface
    split <;> first | rfl | simp_all
  | column _ _ | parameter _ =>
    rw [Node.surface]
    unfold Node.access
    split <;> rfl
  | _ => exact h

/-! ## Roots -/

/-- The surface of a tree that stands for an expression is spelled like the tree, and resolves
    alike. -/
structure SurfacedRoot (ctx : ResolveContext) (t : Node) (s : ResolveState) (f : Formula)
    (s' : ResolveState) : Prop extends t.KeepsText (headerSpelling ctx.tables.length) where
  isFunction : (t.surface (headerSpelling ctx.tables.length)).isFunction = false
  run : ∃ e', (root ctx none (t.surface (headerSpelling ctx.tables.length))).run s = .ok (e', s') ∧
    f.Respells e'.1 ∧
    (AllOf Node.comesBack t.parts → e' = (f, t))

theorem isFunction_surface {sp : Spelling} (h : t.isFunction = false) :
    (t.surface sp).isFunction = false := by
  cases t with
  | literal v =>
    rw [Node.surface]
    cases v with
    | number x =>
      show (Node.numberSurface x).isFunction = false
      unfold Node.numberSurface
      split <;> rfl
    | _ => rfl
  | member o p computed =>
    unfold Node.surface
    split <;> first | rfl | simp_all
  | column _ _ | parameter _ =>
    rw [Node.surface]
    unfold Node.access
    split <;> rfl
  | _ => exact h

theorem surfaced_body (hle : ctx.tables.length ≤ 2) {b : Node} {f : Formula}
    (h : (body ctx ⟨Scope.standard ctx.tables.length, frame, false⟩ b).run s.restart
      = .ok ((f, b), s')) (hspelled : AllOf Node.isSpelled b.parts) :
    Surfaced ctx ⟨Scope.standard ctx.tables.length, frame, false⟩ s.restart s' b (f, b) := by
  cases derives_body h with
  | bodyBlock _ => cases hspelled _ (Node.self_mem_parts _)
  | bodyExpression he => exact he.surfaced hle rfl rfl hspelled

theorem surfaced_root (hle : ctx.tables.length ≤ 2) {f : Formula}
    (h : (root ctx none t).run s = .ok ((f, t), s')) (hspelled : AllOf Node.isSpelled t.parts) :
    SurfacedRoot ctx t s f s' := by
  rcases run_root_iff.1 h with ⟨hroot, hrun⟩ | ⟨g, inner, b, hroot, hrun, heq⟩
  · obtain ⟨hfunction, hroot'⟩ := bare_of_body hroot hrun
    rw [header_of_isFunction hfunction] at hrun
    have ht := surfaced_body hle hrun hspelled
    obtain ⟨e', he, hrespells, hback⟩ := ht.resolved
    refine ⟨ht.toKeepsText, isFunction_surface hfunction, e', run_root_iff.2 (.inl ?_), hrespells,
      hback⟩
    rw [header_of_isFunction (isFunction_surface hfunction)]
    exact ⟨rollingRoot_surface hroot', he.bodyExpression.runs⟩
  · obtain ⟨rfl, rfl⟩ := Prod.mk.inj heq
    obtain ⟨hstart, hstop⟩ := Bool.and_eq_true_iff.1 (hspelled _ (Node.self_mem_parts _))
    cases hroot
    have hb := surfaced_body hle hrun hspelled.tail
    obtain ⟨b', hb', hrespells, hback⟩ := hb.resolved
    refine ⟨keepsText_rolling hb.toKeepsText hstart hstop, rfl, (b'.1, .rolling g b'.2),
      run_root_iff.2 (.inr ⟨g, _, b', rollingRoot_surface_rolling hstart hstop,
        hb'.bodyExpression.runs, rfl⟩), hrespells, fun hall => ?_⟩
    rw [hback hall.tail]

/-! ## Exported texts -/

/-- The names of the tables and the parameters in an exported text. -/
def headerNames (tables : Nat) : List String := (headerSpelling tables).tables ++ ["$"]

/-- A tree as the body of a function of the tables and the parameters. -/
def underHeader (tables : Nat) (t : Node) : Node := .arrow ((headerNames tables).map .name) t

def exportedText (tables : Nat) (t : Node) : String :=
  (underHeader tables t).textWith (headerSpelling tables)

/-- The exported header binds the names that there are without a header. -/
theorem bind_headerNames {tables : Nat} (h : tables = 1 ∨ tables = 2) :
    Scope.bind ((headerNames tables).map .name) tables = Scope.standard tables := by
  rcases h with rfl | rfl <;> rfl

theorem root_underHeader {b : Node} (h : ctx.tables.length = 1 ∨ ctx.tables.length = 2)
    (hb : b.isFunction = false) :
    root ctx frame (underHeader ctx.tables.length b) = root ctx frame b := by
  have hheader : header ctx.tables.length (underHeader ctx.tables.length b)
      = header ctx.tables.length b := by
    rw [header_of_isFunction hb, underHeader, header, bind_headerNames h]
  unfold root
  rw [hheader]

theorem isName_of_headerNames {tables : Nat} :
    ∀ name ∈ headerNames tables, Token.isName name = true := by
  unfold headerNames headerSpelling
  dsimp only
  split <;> decide

/-- The exported text parses to the surface of the tree, under the header. -/
theorem parse_exportedText {tables : Nat} (ht : t.KeepsText (headerSpelling tables)) :
    Node.parse (exportedText tables t)
      = .ok (underHeader tables (t.surface (headerSpelling tables))) := by
  have htext : exportedText tables t
      = (underHeader tables (t.surface (headerSpelling tables))).textWith
          (headerSpelling tables) := by
    unfold exportedText underHeader
    rw [Node.textWith, Node.textWith, ht.text, Node.enclosed_surface,
      (Node.shape_surface (headerSpelling tables) t).2.1]
  rw [htext]
  exact ht.spellable.parse_arrow (fun _ hx => hx) _ isName_of_headerNames

/-- The exported text of a tree resolves like the tree. -/
theorem run_exportedText (htables : ctx.tables.length = 1 ∨ ctx.tables.length = 2) {f : Formula}
    (h : (root ctx none t).run s = .ok ((f, t), s')) (hspelled : AllOf Node.isSpelled t.parts) :
    ∃ e', (Resolve.spec ctx none (.source (exportedText ctx.tables.length t))).run s
        = .ok ((e'.1, some e'.2), s') ∧ f.Respells e'.1 ∧
      (AllOf Node.comesBack t.parts → e' = (f, t)) := by
  have ht := surfaced_root (by omega) h hspelled
  obtain ⟨e', hrun, hrespells, hback⟩ := ht.run
  have hnode : (ExprSpec.source (exportedText ctx.tables.length t)).node?
      = some (underHeader ctx.tables.length
          (t.surface (headerSpelling ctx.tables.length))) := by
    show (Node.parse (exportedText ctx.tables.length t)).toOption = _
    rw [parse_exportedText ht.toKeepsText]
    rfl
  refine ⟨e', (run_spec_iff hnode).2 ⟨e', ?_, rfl⟩, hrespells, hback⟩
  rw [root_underHeader htables ht.isFunction]
  exact hrun

end Resolve

open Resolve

theorem source?_eq_exportedText {r : Resolution} {i : Nat} {e : NamedFormula} {t : Node}
    (he : r.exprs[i]? = some e) (htree : e.tree = some t) :
    r.source? i = some (exportedText (if r.join then 2 else 1) t) := by
  unfold Resolution.source? Resolution.tableNames
  rw [he, Option.bind_eq_bind, Option.bind_some, htree]
  cases r.join <;> rfl

theorem forall₂_set {α : Type} {R : α → α → Prop} (hrefl : ∀ a, R a a) {xs : List α} {i : Nat}
    {x y : α} (hx : xs[i]? = some x) (hxy : R x y) : List.Forall₂ R xs (xs.set i y) := by
  induction xs generalizing i with
  | nil => cases hx
  | cons a xs ih =>
    cases i with
    | zero =>
      cases hx
      exact .cons hxy (List.forall₂_same.2 fun a _ => hrefl a)
    | succ i => exact .cons (hrefl a) (ih hx)

/-- An exported text in place of its expression registers the same calls, and gives formulas that
    are worth the same everywhere; and it gives the very same resolution if the tree comes back
    from its text as it was. -/
theorem resolve_source_of_resolve {ctx : ResolveContext} {exprs : List (String × ExprSpec)}
    {r : Resolution} (h : resolve ctx exprs = .ok r)
    (htables : ctx.tables.length = if ctx.options.join then 2 else 1) {i : Nat} {name : String}
    {spec : ExprSpec} (hspec : exprs[i]? = some (name, spec)) {e : NamedFormula} {t : Node}
    (he : r.exprs[i]? = some e) (htree : e.tree = some t) {text : String}
    (htext : r.source? i = some text) (hnested : t.nestedRolling? = none)
    (hmath : (spec.scope ctx.tables.length).MathKeysAgree (Scope.standard ctx.tables.length)
      t.parts)
    (hspelled : ∀ m ∈ t.parts, m.isSpelled = true) :
    ∃ r', resolve ctx (exprs.set i (name, .source text)) = .ok r' ∧
      r'.aggregates = r.aggregates ∧ r'.windows = r.windows ∧
      List.Forall₂ (fun e e' => e'.name = e.name ∧
        ∀ env slots, e'.formula.evalWith env slots = e.formula.evalWith env slots)
        r.exprs r'.exprs ∧
      ((∀ m ∈ t.parts, m.comesBack = true) → r' = r) := by
  obtain ⟨es, s, hrun, rfl⟩ := resolve_eq_ok_iff.1 h
  obtain ⟨u, ⟨f, tree⟩, u', hf, hes, hreplace⟩ := run_named_set hrun hspec
  obtain rfl : ⟨name, f, tree⟩ = e := Option.some.inj (hes.symm.trans he)
  obtain rfl : tree = some t := htree
  obtain ⟨s₁, hroot, haggregates, hwindows⟩ := again_spec hf hnested hmath
  have hone : ctx.tables.length = 1 ∨ ctx.tables.length = 2 := by
    rw [htables]
    split
    · exact .inr rfl
    · exact .inl rfl
  obtain ⟨e', he', hrespells, hback⟩ := run_exportedText hone hroot hspelled
  have hexported := source?_eq_exportedText he rfl
  rw [htext] at hexported
  obtain rfl : text = exportedText ctx.tables.length t := by
    rw [htables]
    exact Option.some.inj hexported
  have hrestart : s₁.restart = u'.restart := by
    unfold ResolveState.restart
    rw [haggregates, hwindows]
  obtain ⟨s₂, hrun', hrestart'⟩ := hreplace _ _ _ he' hrestart
  obtain ⟨haggregates', hwindows'⟩ : s₂.aggregates = s.aggregates ∧ s₂.windows = s.windows := by
    injection hrestart' with _ _ haggregates' hwindows'
    exact ⟨haggregates', hwindows'⟩
  refine ⟨_, resolve_eq_ok_iff.2 ⟨_, s₂, hrun', rfl⟩, haggregates', hwindows', ?_, fun hall => ?_⟩
  · exact forall₂_set (fun _ => ⟨rfl, fun _ _ => rfl⟩) hes ⟨rfl, hrespells.eval⟩
  · obtain rfl := hback hall
    obtain ⟨hlt, hget⟩ := List.getElem?_eq_some_iff.1 hes
    have hset : es.set i ⟨name, f, some t⟩ = es := by
      rw [← hget]
      exact List.set_getElem_self hlt
    dsimp only
    rw [hset, haggregates', hwindows']

/-- The reference of a column. -/
def Node.isColumn (table : Nat) (name : String) : Node → Bool
  | .column t n => t == table && n == name
  | _ => false

theorem Node.eq_of_isColumn {table : Nat} {name : String} {n : Node}
    (h : n.isColumn table name = true) : n = .column table name := by
  unfold isColumn at h
  split at h
  next =>
    obtain ⟨htable, hname⟩ := Bool.and_eq_true_iff.1 h
    rw [eq_of_beq htable, eq_of_beq hname]
  next => cases h

theorem resolve_source_numbered : ∃ r r' text, resolve numbered [("a", .column "x")] = .ok r ∧
    r.source? 0 = some text ∧ resolve numbered [("a", .source text)] = .ok r' ∧ r' = r := by
  obtain ⟨r, hr, hcheck⟩ := exists_ok (x := resolve numbered [("a", .column "x")])
    (p := fun r => r.exprs[0]?.any fun e => e.tree.any (Node.isColumn 0 "x")) (by decide +kernel)
  obtain ⟨e, he, htree⟩ := (Option.any_eq_true _ _).1 hcheck
  obtain ⟨t, ht, hcolumn⟩ := (Option.any_eq_true _ _).1 htree
  obtain rfl := Node.eq_of_isColumn hcolumn
  obtain ⟨r', hr', -, -, -, hsame⟩ := resolve_source_of_resolve hr rfl (i := 0) rfl he ht
    (source?_eq_exportedText he ht) rfl (by rintro n hn key computed rfl; simp [Node.parts] at hn)
    (by simp [Node.parts, Node.isSpelled])
  exact ⟨r, r', _, hr, source?_eq_exportedText he ht, hr',
    hsame (by simp [Node.parts, Node.comesBack])⟩

end ColumnQuery
