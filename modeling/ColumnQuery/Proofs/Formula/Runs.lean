/-
  Runs of resolution.

  A run of steps one after the other succeeds exactly if each of them does, from the state that
  the one before leaves (`run_bind_eq_ok`). So a part of a tree has a derivation exactly if
  resolution succeeds on it with that outcome (`derives_iff`). What an access to a member or a call
  needs to succeed is said step by step on the way (`run_keyed_iff`, `run_member_iff`,
  `run_call_iff`).
-/
import ColumnQuery.Proofs.Formula.Derivation

namespace ColumnQuery

namespace Resolve

variable {α β : Type} {s s' : ResolveState}

/-! ## Runs -/

theorem run_bind_eq_ok {m : Resolve α} {f : α → Resolve β} {b : β} :
    (m >>= f).run s = .ok (b, s') ↔
      ∃ a t, m.run s = .ok (a, t) ∧ (f a).run t = .ok (b, s') := by
  rw [StateT.run_bind]
  cases m.run s with
  | error e =>
    refine ⟨fun h => (by cases h), ?_⟩
    rintro ⟨a, t, h, -⟩
    cases h
  | ok r =>
    obtain ⟨a, t⟩ := r
    refine ⟨fun h => ⟨a, t, rfl, h⟩, ?_⟩
    rintro ⟨a', t', heq, h⟩
    cases heq
    exact h

theorem run_pure_eq_ok {a b : α} :
    (pure a : Resolve α).run s = .ok (b, s') ↔ a = b ∧ s = s' := by
  constructor
  · intro h
    cases h
    exact ⟨rfl, rfl⟩
  · rintro ⟨rfl, rfl⟩
    rfl

theorem run_map_eq_ok {m : Resolve α} {f : α → β} {b : β} :
    (do
      let a ← m
      return f a : Resolve β).run s = .ok (b, s') ↔ ∃ a, m.run s = .ok (a, s') ∧ b = f a := by
  rw [run_bind_eq_ok]
  constructor
  · rintro ⟨a, t, ha, h⟩
    obtain ⟨rfl, rfl⟩ := run_pure_eq_ok.1 h
    exact ⟨a, ha, rfl⟩
  · rintro ⟨a, ha, rfl⟩
    exact ⟨a, s', ha, run_pure_eq_ok.2 ⟨rfl, rfl⟩⟩

theorem run_liftM_eq_ok {e : Except QueryError α} {a : α} :
    (liftM e : Resolve α).run s = .ok (a, s') ↔ e = .ok a ∧ s = s' := by
  cases e with
  | error e =>
    refine ⟨fun h => (by cases h), ?_⟩
    rintro ⟨h, -⟩
    cases h
  | ok b =>
    constructor
    · intro h
      cases h
      exact ⟨rfl, rfl⟩
    · rintro ⟨h, rfl⟩
      cases h
      rfl

theorem run_get_eq_ok {t : ResolveState} :
    (get : Resolve ResolveState).run s = .ok (t, s') ↔ s = t ∧ s = s' := run_pure_eq_ok (s := s)

theorem run_modify_eq_ok {f : ResolveState → ResolveState} {u : Unit} :
    (modify f : Resolve Unit).run s = .ok (u, s') ↔ f s = s' := by
  constructor
  · intro h
    cases h
    rfl
  · rintro rfl
    rfl

/-- Steps in a block of their own. -/
theorem run_block_eq_ok {m : Resolve α} {f : α → β} {b : β} :
    (do
      modify (·.enter)
      let a ← m
      modify (·.leave)
      return f a : Resolve β).run s = .ok (b, s') ↔
      ∃ a t, m.run s.enter = .ok (a, t) ∧ t.leave = s' ∧ f a = b := by
  constructor
  · intro h
    obtain ⟨_, _, henter, h⟩ := run_bind_eq_ok.1 h
    obtain rfl := run_modify_eq_ok.1 henter
    obtain ⟨a, t, ha, h⟩ := run_bind_eq_ok.1 h
    obtain ⟨_, _, hleave, h⟩ := run_bind_eq_ok.1 h
    obtain rfl := run_modify_eq_ok.1 hleave
    obtain ⟨rfl, rfl⟩ := run_pure_eq_ok.1 h
    exact ⟨a, t, ha, rfl, rfl⟩
  · rintro ⟨a, t, ha, rfl, rfl⟩
    refine run_bind_eq_ok.2 ⟨(), _, run_modify_eq_ok.2 rfl, ?_⟩
    refine run_bind_eq_ok.2 ⟨a, t, ha, ?_⟩
    exact run_bind_eq_ok.2 ⟨(), _, run_modify_eq_ok.2 rfl, run_pure_eq_ok.2 ⟨rfl, rfl⟩⟩

theorem run_throw_ne_ok {e : QueryError} {a : α} :
    (throw e : Resolve α).run s ≠ .ok (a, s') := by
  intro h
  cases h

theorem run_throw_bind_ne_ok {e : QueryError} {f : α → Resolve β} {b : β} :
    ((throw e : Resolve α) >>= f).run s ≠ .ok (b, s') := by
  intro h
  cases h

/-! ## Members and calls -/

variable {ctx : ResolveContext} {site : Site} {node : Node} {e : Formula × Node}

/-- Access to a member of a table, of the parameters or of `Math`: by a key that is written out, or
    by one that is resolved to a constant. -/
theorem run_keyed_iff {object property : Node} {computed : Bool} {owner : Owner}
    (howner : ownerOf site s object = owner) (hother : owner ≠ .other) :
    (expression ctx site (.member object property computed)).run s = .ok (e, s') ↔
      ∃ key, (plainKey? computed property = some key ∧ s = s' ∨
          plainKey? computed property = none ∧ ∃ p v,
            (expression ctx site property).run s = .ok (p, s') ∧ p.1.constant? = some v ∧
              v.text = key) ∧
        owned ctx site (.member object property computed) owner key = .ok e := by
  rw [expression, run_bind_eq_ok]
  constructor
  · rintro ⟨t, t', hget, h⟩
    obtain ⟨rfl, rfl⟩ := run_get_eq_ok.1 hget
    rw [howner] at h
    split at h
    next => exact absurd rfl hother
    next =>
      split at h
      next key hkey =>
        obtain ⟨howned, rfl⟩ := run_liftM_eq_ok.1 h
        exact ⟨key, .inl ⟨hkey, rfl⟩, howned⟩
      next hplain =>
        obtain ⟨p, t, hp, h⟩ := run_bind_eq_ok.1 h
        dsimp only at h
        split at h
        next v hv =>
          obtain ⟨howned, rfl⟩ := run_liftM_eq_ok.1 h
          exact ⟨v.text, .inr ⟨hplain, p, v, hp, hv, rfl⟩, howned⟩
        next => exact absurd h run_throw_ne_ok
  · rintro ⟨key, hkey, h⟩
    refine ⟨s, s, run_get_eq_ok.2 ⟨rfl, rfl⟩, ?_⟩
    rw [howner]
    split
    next => exact absurd rfl hother
    next =>
      rcases hkey with ⟨hkey, rfl⟩ | ⟨hplain, p, v, hp, hv, rfl⟩
      · rw [hkey]
        exact run_liftM_eq_ok.2 ⟨h, rfl⟩
      · rw [hplain]
        refine run_bind_eq_ok.2 ⟨p, s', hp, ?_⟩
        dsimp only
        rw [hv]
        exact run_liftM_eq_ok.2 ⟨h, rfl⟩

/-- Access to a member of any other value. -/
theorem run_member_iff {object property : Node} {computed : Bool}
    (howner : ownerOf site s object = .other) :
    (expression ctx site (.member object property computed)).run s = .ok (e, s') ↔
      ∃ o t, (expression ctx site object).run s = .ok (o, t) ∧
        ((computed = false ∧ t = s' ∧ ∃ name, property = .identifier name ∧
            e = (.member o.1 (.literal (.string name)), .member o.2 property false)) ∨
          ((computed = false → ∀ name, property ≠ .identifier name) ∧
            ∃ p, (expression ctx site property).run t = .ok (p, s') ∧
              e = (.member o.1 p.1, .member o.2 p.2 computed))) := by
  rw [expression, run_bind_eq_ok]
  constructor
  · rintro ⟨t, t', hget, h⟩
    obtain ⟨rfl, rfl⟩ := run_get_eq_ok.1 hget
    rw [howner] at h
    obtain ⟨o, t, ho, h⟩ := run_bind_eq_ok.1 h
    refine ⟨o, t, ho, ?_⟩
    dsimp only at h
    split at h
    next name _ =>
      obtain ⟨rfl, rfl⟩ := run_pure_eq_ok.1 h
      exact .inl ⟨rfl, rfl, name, rfl, rfl⟩
    next hkey =>
      obtain ⟨p, t', hp, h⟩ := run_bind_eq_ok.1 h
      obtain ⟨rfl, rfl⟩ := run_pure_eq_ok.1 h
      exact .inr ⟨fun hcomputed name hname => hkey name hcomputed hname, p, hp, rfl⟩
  · rintro ⟨o, t, ho, hkey⟩
    refine ⟨s, s, run_get_eq_ok.2 ⟨rfl, rfl⟩, ?_⟩
    rw [howner]
    refine run_bind_eq_ok.2 ⟨o, t, ho, ?_⟩
    dsimp only
    rcases hkey with ⟨rfl, rfl, name, rfl, rfl⟩ | ⟨hname, p, hp, rfl⟩
    · exact run_pure_eq_ok.2 ⟨rfl, rfl⟩
    · split
      next name => exact absurd rfl (hname rfl name)
      next => exact run_bind_eq_ok.2 ⟨p, s', hp, run_pure_eq_ok.2 ⟨rfl, rfl⟩⟩

/-- A call of a function, an aggregate or a window function, with its checks and its steps. -/
def CallRuns (ctx : ResolveContext) (site : Site) (f : Node) (args : List Node) (e : Formula × Node)
    (s s' : ResolveState) : Callee → Prop
  | .scalar g => g.admits args.length = true ∧ ∃ as,
      (expressions ctx site args).run s = .ok (as, s') ∧
      e = (.call g (as.map (·.1)), .call f (as.map (·.2)))
  | .aggregate a => checkAggregate ctx site (.call f args) a = .ok () ∧
      checkOperands site (.call f args) a.name a.fieldCount a.paramCount args.length = .ok () ∧
      ∃ o t ref, (operands ctx { site with inOperator := true } (.call f args) a.name a.fieldCount
          args).run s = .ok (o, t) ∧
        (registerAggregateAt site a o).run t = .ok (ref, s') ∧ e = (.op ref, .call f o.nodes)
  | .window w => ctx.options.window = true ∧
      checkOperands site (.call f args) w.name w.fieldCount w.paramCount args.length = .ok () ∧
      ∃ o t ref, (operands ctx { site with inOperator := true } (.call f args) w.name w.fieldCount
          args).run s = .ok (o, t) ∧
        (registerWindow (.function w) o (site.frame.getD .whole)).run t = .ok (ref, s') ∧
        e = (.op ref, .call f o.nodes)

theorem run_call_iff {f : Node} {args : List Node} :
    (expression ctx site (.call f args)).run s = .ok (e, s') ↔
      ∃ c, callee (.call f args) f s = .ok c ∧ CallRuns ctx site f args e s s' c := by
  rw [expression, run_bind_eq_ok]
  constructor
  · rintro ⟨t, t', hget, h⟩
    obtain ⟨rfl, rfl⟩ := run_get_eq_ok.1 hget
    obtain ⟨c, t, hc, h⟩ := run_bind_eq_ok.1 h
    obtain ⟨hcallee, rfl⟩ := run_liftM_eq_ok.1 hc
    refine ⟨c, hcallee, ?_⟩
    cases c with
    | scalar g =>
      dsimp only at h
      split at h
      next hadmits =>
        obtain ⟨as, t, has, h⟩ := run_bind_eq_ok.1 h
        obtain ⟨rfl, rfl⟩ := run_pure_eq_ok.1 h
        exact ⟨hadmits, as, has, rfl⟩
      next => exact absurd h run_throw_bind_ne_ok
    | aggregate a =>
      obtain ⟨_, _, hcheck, h⟩ := run_bind_eq_ok.1 h
      obtain ⟨hallowed, rfl⟩ := run_liftM_eq_ok.1 hcheck
      obtain ⟨_, _, hcheck, h⟩ := run_bind_eq_ok.1 h
      obtain ⟨hcount, rfl⟩ := run_liftM_eq_ok.1 hcheck
      obtain ⟨o, t, ho, h⟩ := run_bind_eq_ok.1 h
      obtain ⟨ref, t', href, h⟩ := run_bind_eq_ok.1 h
      obtain ⟨rfl, rfl⟩ := run_pure_eq_ok.1 h
      exact ⟨hallowed, hcount, o, t, ref, ho, href, rfl⟩
    | window w =>
      dsimp only at h
      split at h
      next hallowed =>
        obtain ⟨_, _, hcheck, h⟩ := run_bind_eq_ok.1 h
        obtain ⟨hcount, rfl⟩ := run_liftM_eq_ok.1 hcheck
        obtain ⟨o, t, ho, h⟩ := run_bind_eq_ok.1 h
        obtain ⟨ref, t', href, h⟩ := run_bind_eq_ok.1 h
        obtain ⟨rfl, rfl⟩ := run_pure_eq_ok.1 h
        exact ⟨hallowed, hcount, o, t, ref, ho, href, rfl⟩
      next => exact absurd h run_throw_bind_ne_ok
  · rintro ⟨c, hc, h⟩
    refine ⟨s, s, run_get_eq_ok.2 ⟨rfl, rfl⟩, ?_⟩
    refine run_bind_eq_ok.2 ⟨c, s, run_liftM_eq_ok.2 ⟨hc, rfl⟩, ?_⟩
    cases c with
    | scalar g =>
      obtain ⟨hadmits, as, has, rfl⟩ := h
      dsimp only
      rw [if_pos hadmits]
      exact run_bind_eq_ok.2 ⟨as, s', has, run_pure_eq_ok.2 ⟨rfl, rfl⟩⟩
    | aggregate a =>
      obtain ⟨hallowed, hcount, o, t, ref, ho, href, rfl⟩ := h
      refine run_bind_eq_ok.2 ⟨(), s, run_liftM_eq_ok.2 ⟨hallowed, rfl⟩, ?_⟩
      refine run_bind_eq_ok.2 ⟨(), s, run_liftM_eq_ok.2 ⟨hcount, rfl⟩, ?_⟩
      exact run_bind_eq_ok.2 ⟨o, t, ho, run_bind_eq_ok.2 ⟨ref, s', href,
        run_pure_eq_ok.2 ⟨rfl, rfl⟩⟩⟩
    | window w =>
      obtain ⟨hallowed, hcount, o, t, ref, ho, href, rfl⟩ := h
      dsimp only
      rw [if_pos hallowed]
      refine run_bind_eq_ok.2 ⟨(), s, run_liftM_eq_ok.2 ⟨hcount, rfl⟩, ?_⟩
      exact run_bind_eq_ok.2 ⟨o, t, ho, run_bind_eq_ok.2 ⟨ref, s', href,
        run_pure_eq_ok.2 ⟨rfl, rfl⟩⟩⟩

/-! ## Statements -/

theorem statement_of_isExpression {site : Site} {t : Node} (h : t.isExpression = true) :
    statement ctx site t = (do
      let e ← expression ctx site t
      return ([.expression e.1], e.2)) := by
  -- each side goal is that `t` is not one of the statements, none of which is an expression
  rw [statement] <;> (intros; subst t; cases h)

theorem branch_of_ne_block {site : Site} {t : Node} (h : ∀ ss, t ≠ .block ss) :
    branch ctx site t = (do
      modify (·.enter)
      let r ← statement ctx site t
      modify (·.leave)
      return r) := by
  rw [branch]
  exact h

theorem body_of_ne_block {site : Site} {t : Node} (h : ∀ ss, t ≠ .block ss) :
    body ctx site t = expression ctx site t := by
  cases t with
  | block ss => exact absurd rfl (h ss)
  | _ => rfl

/-! ## From runs to derivations -/

mutual

theorem derives_expression (ctx : ResolveContext) (site : Site) : ∀ (node : Node)
    {s s' : ResolveState} {e : Formula × Node},
    (expression ctx site node).run s = .ok (e, s') → Derives ctx site s (.expression node e) s'
  | .literal v, s, s', e, h => by
    rw [expression] at h
    obtain ⟨rfl, rfl⟩ := run_pure_eq_ok.1 h
    exact .literal v
  | .identifier name, s, s', e, h => by
    rw [expression] at h
    obtain ⟨t, t', hget, h⟩ := run_bind_eq_ok.1 h
    obtain ⟨rfl, rfl⟩ := run_get_eq_ok.1 hget
    obtain ⟨he, rfl⟩ := run_liftM_eq_ok.1 h
    exact .identifier he
  | .column t name, s, s', e, h => by
    rw [expression] at h
    obtain ⟨he, rfl⟩ := run_liftM_eq_ok.1 h
    exact .column he
  | .parameter name, s, s', e, h => by
    rw [expression] at h
    obtain ⟨he, rfl⟩ := run_liftM_eq_ok.1 h
    exact .parameter he
  | .member object property computed, s, s', e, h => by
    by_cases hother : ownerOf site s object = .other
    · obtain ⟨o, t, ho, hkey⟩ := (run_member_iff hother).1 h
      have ho' := derives_expression ctx site object ho
      rcases hkey with ⟨rfl, rfl, name, rfl, rfl⟩ | ⟨hname, p, hp, rfl⟩
      · exact .dotted hother ho'
      · exact .member hother hname ho' (derives_expression ctx site property hp)
    · obtain ⟨key, hkey, howned⟩ := (run_keyed_iff rfl hother).1 h
      rcases hkey with ⟨hkey, rfl⟩ | ⟨hplain, p, v, hp, hv, rfl⟩
      · exact .owned rfl hother hkey howned
      · have hp' := derives_expression ctx site property hp
        obtain rfl := hp'.unchanged trivial (Formula.opFree_of_constant? hv)
        exact .resolvedKey rfl hother hplain hp' hv howned
  | .call f args, s, s', e, h => by
    obtain ⟨c, hc, hruns⟩ := run_call_iff.1 h
    cases c with
    | scalar g =>
      obtain ⟨hadmits, as, has, rfl⟩ := hruns
      exact .scalar hc hadmits (derives_expressions ctx site args has)
    | aggregate a =>
      obtain ⟨hallowed, hcount, o, t, ref, ho, href, rfl⟩ := hruns
      obtain ⟨hplace, hcount⟩ := checkOperands_eq_ok_iff.1 hcount
      have ho' := derives_operands ctx (inside site) _ _ _ args ho
      obtain rfl := ho'.unchanged_operands rfl
      rw [run_registerAggregateAt] at href
      cases href
      exact .aggregate hc hallowed hplace hcount ho'
    | window w =>
      obtain ⟨hallowed, hcount, o, t, ref, ho, href, rfl⟩ := hruns
      obtain ⟨hplace, hcount⟩ := checkOperands_eq_ok_iff.1 hcount
      have ho' := derives_operands ctx (inside site) _ _ _ args ho
      obtain rfl := ho'.unchanged_operands rfl
      rw [run_registerWindow] at href
      cases href
      exact .window hc hallowed hplace hcount ho'
  | .unary op a, s, s', e, h => by
    rw [expression] at h
    obtain ⟨ea, t, ha, h⟩ := run_bind_eq_ok.1 h
    obtain ⟨rfl, rfl⟩ := run_pure_eq_ok.1 h
    exact .unary (derives_expression ctx site a ha)
  | .binary op l r, s, s', e, h => by
    rw [expression] at h
    obtain ⟨el, t, hl, h⟩ := run_bind_eq_ok.1 h
    obtain ⟨er, t', hr, h⟩ := run_bind_eq_ok.1 h
    obtain ⟨rfl, rfl⟩ := run_pure_eq_ok.1 h
    exact .binary (derives_expression ctx site l hl) (derives_expression ctx site r hr)
  | .logical op l r, s, s', e, h => by
    rw [expression] at h
    obtain ⟨el, t, hl, h⟩ := run_bind_eq_ok.1 h
    obtain ⟨er, t', hr, h⟩ := run_bind_eq_ok.1 h
    obtain ⟨rfl, rfl⟩ := run_pure_eq_ok.1 h
    exact .logical (derives_expression ctx site l hl) (derives_expression ctx site r hr)
  | .conditional t c a, s, s', e, h => by
    rw [expression] at h
    obtain ⟨et, s₁, ht, h⟩ := run_bind_eq_ok.1 h
    obtain ⟨ec, s₂, hc, h⟩ := run_bind_eq_ok.1 h
    obtain ⟨ea, s₃, ha, h⟩ := run_bind_eq_ok.1 h
    obtain ⟨rfl, rfl⟩ := run_pure_eq_ok.1 h
    exact .conditional (derives_expression ctx site t ht) (derives_expression ctx site c hc)
      (derives_expression ctx site a ha)
  | .array nodes, s, s', e, h => by
    rw [expression] at h
    obtain ⟨es, t, hes, h⟩ := run_bind_eq_ok.1 h
    obtain ⟨rfl, rfl⟩ := run_pure_eq_ok.1 h
    exact .array (derives_expressions ctx site nodes hes)
  | .object ps, s, s', e, h => by
    rw [expression] at h
    obtain ⟨es, t, hes, h⟩ := run_bind_eq_ok.1 h
    obtain ⟨rfl, rfl⟩ := run_pure_eq_ok.1 h
    exact .object (derives_properties ctx site ps hes)
  | .arrow _ _, s, s', e, h | .function _ _ _, s, s', e, h | .block _, s, s', e, h
  | .declaration _ _, s, s', e, h | .returns _, s, s', e, h | .branch _ _ _, s, s', e, h
  | .loop _ _, s, s', e, h | .assignment _ _ _, s, s', e, h | .update _ _ _, s, s', e, h
  | .await _, s, s', e, h | .yield _, s, s', e, h | .rolling _ _, s, s', e, h => by
    rw [expression] at h
    exact absurd h run_throw_ne_ok

theorem derives_expressions (ctx : ResolveContext) (site : Site) : ∀ (nodes : List Node)
    {s s' : ResolveState} {es : List (Formula × Node)},
    (expressions ctx site nodes).run s = .ok (es, s') → Derives ctx site s (.expressions nodes es) s'
  | [], s, s', es, h => by
    rw [expressions] at h
    obtain ⟨rfl, rfl⟩ := run_pure_eq_ok.1 h
    exact .noExpressions
  | n :: ns, s, s', es, h => by
    rw [expressions] at h
    obtain ⟨e, t, he, h⟩ := run_bind_eq_ok.1 h
    obtain ⟨es, t', hes, h⟩ := run_bind_eq_ok.1 h
    obtain ⟨rfl, rfl⟩ := run_pure_eq_ok.1 h
    exact .moreExpressions (derives_expression ctx site n he) (derives_expressions ctx site ns hes)

theorem derives_properties (ctx : ResolveContext) (site : Site) : ∀ (ps : List (String × Node))
    {s s' : ResolveState} {es : List (String × Formula × Node)},
    (properties ctx site ps).run s = .ok (es, s') → Derives ctx site s (.properties ps es) s'
  | [], s, s', es, h => by
    rw [properties] at h
    obtain ⟨rfl, rfl⟩ := run_pure_eq_ok.1 h
    exact .noProperties
  | (k, n) :: ps, s, s', es, h => by
    rw [properties] at h
    obtain ⟨e, t, he, h⟩ := run_bind_eq_ok.1 h
    obtain ⟨es, t', hes, h⟩ := run_bind_eq_ok.1 h
    obtain ⟨rfl, rfl⟩ := run_pure_eq_ok.1 h
    exact .moreProperties (derives_expression ctx site n he) (derives_properties ctx site ps hes)

theorem derives_operands (ctx : ResolveContext) (site : Site) (node : Node) (name : String) :
    ∀ (fields : Nat) (nodes : List Node) {s s' : ResolveState} {o : Operands},
    (operands ctx site node name fields nodes).run s = .ok (o, s') →
      Derives ctx site s (.operands fields nodes o) s'
  | fields, [], s, s', o, h => by
    unfold operands at h
    obtain ⟨rfl, rfl⟩ := run_pure_eq_ok.1 h
    exact .noOperands
  | fields + 1, n :: ns, s, s', o, h => by
    rw [operands] at h
    obtain ⟨e, t, he, h⟩ := run_bind_eq_ok.1 h
    obtain ⟨o, t', ho, h⟩ := run_bind_eq_ok.1 h
    obtain ⟨rfl, rfl⟩ := run_pure_eq_ok.1 h
    exact .field (derives_expression ctx site n he)
      (derives_operands ctx site node name fields ns ho)
  | 0, n :: ns, s, s', o, h => by
    rw [operands] at h
    obtain ⟨p, t, hp, h⟩ := run_bind_eq_ok.1 h
    dsimp only at h
    split at h
    next v hv =>
      obtain ⟨o, t', ho, h⟩ := run_bind_eq_ok.1 h
      obtain ⟨rfl, rfl⟩ := run_pure_eq_ok.1 h
      exact .constant (derives_expression ctx site n hp) hv
        (derives_operands ctx site node name 0 ns ho)
    next => exact absurd h run_throw_ne_ok

end

mutual

theorem derives_statement (ctx : ResolveContext) (site : Site) : ∀ (node : Node)
    {s s' : ResolveState} {r : List Statement × Node},
    (statement ctx site node).run s = .ok (r, s') → Derives ctx site s (.statement node r) s'
  | .declaration kind ds, s, s', r, h => by
    rw [statement] at h
    obtain ⟨more, t, hmore, h⟩ := run_bind_eq_ok.1 h
    obtain ⟨rfl, rfl⟩ := run_pure_eq_ok.1 h
    exact .declaration (derives_declarations ctx site _ ds hmore)
  | .returns none, s, s', r, h => by
    rw [statement] at h
    obtain ⟨rfl, rfl⟩ := run_pure_eq_ok.1 h
    exact .returnsNothing
  | .returns (some a), s, s', r, h => by
    rw [statement] at h
    obtain ⟨e, t, he, h⟩ := run_bind_eq_ok.1 h
    obtain ⟨rfl, rfl⟩ := run_pure_eq_ok.1 h
    exact .returns (derives_expression ctx site a he)
  | .branch test c none, s, s', r, h => by
    rw [statement] at h
    obtain ⟨e, t, he, h⟩ := run_bind_eq_ok.1 h
    obtain ⟨rc, t', hc, h⟩ := run_bind_eq_ok.1 h
    obtain ⟨rfl, rfl⟩ := run_pure_eq_ok.1 h
    exact .branchAlone (derives_expression ctx site test he) (derives_branch ctx site c hc)
  | .branch test c (some a), s, s', r, h => by
    rw [statement] at h
    obtain ⟨e, t, he, h⟩ := run_bind_eq_ok.1 h
    obtain ⟨rc, t', hc, h⟩ := run_bind_eq_ok.1 h
    obtain ⟨ra, t'', ha, h⟩ := run_bind_eq_ok.1 h
    obtain ⟨rfl, rfl⟩ := run_pure_eq_ok.1 h
    exact .branchElse (derives_expression ctx site test he) (derives_branch ctx site c hc)
      (derives_branch ctx site a ha)
  | .block nodes, s, s', r, h => by
    rw [statement] at h
    obtain ⟨r, t, hss, rfl, rfl⟩ := run_block_eq_ok.1 h
    exact .block (derives_statements ctx site nodes hss)
  | .literal _, s, s', r, h | .identifier _, s, s', r, h | .member _ _ _, s, s', r, h
  | .call _ _, s, s', r, h | .unary _ _, s, s', r, h | .binary _ _ _, s, s', r, h
  | .logical _ _ _, s, s', r, h | .conditional _ _ _, s, s', r, h | .array _, s, s', r, h
  | .object _, s, s', r, h | .arrow _ _, s, s', r, h | .function _ _ _, s, s', r, h
  | .loop _ _, s, s', r, h | .assignment _ _ _, s, s', r, h | .update _ _ _, s, s', r, h
  | .await _, s, s', r, h | .yield _, s, s', r, h | .column _ _, s, s', r, h
  | .parameter _, s, s', r, h | .rolling _ _, s, s', r, h => by
    unfold statement at h
    obtain ⟨e, t, he, h⟩ := run_bind_eq_ok.1 h
    obtain ⟨rfl, rfl⟩ := run_pure_eq_ok.1 h
    exact .evaluated (derives_expression ctx site _ he)
termination_by node => (sizeOf node, 0)

theorem derives_branch (ctx : ResolveContext) (site : Site) (node : Node)
    {s s' : ResolveState} {r : List Statement × Node}
    (h : (branch ctx site node).run s = .ok (r, s')) : Derives ctx site s (.branch node r) s' := by
  by_cases hblock : ∃ nodes, node = .block nodes
  · obtain ⟨nodes, rfl⟩ := hblock
    rw [branch] at h
    obtain ⟨r, t, hss, rfl, rfl⟩ := run_block_eq_ok.1 h
    exact .branchBlock (derives_statements ctx site nodes hss)
  · have hne : ∀ nodes, node ≠ .block nodes := fun nodes heq => hblock ⟨nodes, heq⟩
    rw [branch_of_ne_block hne] at h
    obtain ⟨r, t, hn, rfl, rfl⟩ := run_block_eq_ok.1 h
    exact .branchStatement hne (derives_statement ctx site node hn)
termination_by (sizeOf node, 1)

theorem derives_statements (ctx : ResolveContext) (site : Site) : ∀ (nodes : List Node)
    {s s' : ResolveState} {r : List Statement × List Node},
    (statements ctx site nodes).run s = .ok (r, s') → Derives ctx site s (.statements nodes r) s'
  | [], s, s', r, h => by
    rw [statements] at h
    obtain ⟨rfl, rfl⟩ := run_pure_eq_ok.1 h
    exact .noStatements
  | n :: ns, s, s', r, h => by
    rw [statements] at h
    obtain ⟨rn, t, hn, h⟩ := run_bind_eq_ok.1 h
    obtain ⟨more, t', hns, h⟩ := run_bind_eq_ok.1 h
    obtain ⟨rfl, rfl⟩ := run_pure_eq_ok.1 h
    exact .moreStatements (derives_statement ctx site n hn) (derives_statements ctx site ns hns)
termination_by nodes => (sizeOf nodes, 0)

theorem derives_declarations (ctx : ResolveContext) (site : Site) (node : Node) :
    ∀ (ds : List (Pattern × Option Node)) {s s' : ResolveState}
      {r : List (Statement × Pattern × Option Node)},
    (declarations ctx site node ds).run s = .ok (r, s') →
      Derives ctx site s (.declarations ds r) s'
  | [], s, s', r, h => by
    rw [declarations] at h
    obtain ⟨rfl, rfl⟩ := run_pure_eq_ok.1 h
    exact .noDeclarations
  | (.object _, _) :: _, s, s', r, h => by
    rw [declarations] at h
    exact absurd h run_throw_ne_ok
  | (.name _, none) :: _, s, s', r, h => by
    rw [declarations] at h
    exact absurd h run_throw_ne_ok
  | (.name name, some init) :: ds, s, s', r, h => by
    rw [declarations] at h
    obtain ⟨e, t, he, h⟩ := run_bind_eq_ok.1 h
    obtain ⟨_, _, hget, h⟩ := run_bind_eq_ok.1 h
    obtain ⟨rfl, rfl⟩ := run_get_eq_ok.1 hget
    obtain ⟨_, _, hdeclare, h⟩ := run_bind_eq_ok.1 h
    obtain rfl := run_modify_eq_ok.1 hdeclare
    obtain ⟨more, t', hmore, h⟩ := run_bind_eq_ok.1 h
    obtain ⟨rfl, rfl⟩ := run_pure_eq_ok.1 h
    exact .moreDeclarations (derives_expression ctx site init he)
      (derives_declarations ctx site node ds hmore)
termination_by ds => (sizeOf ds, 0)

end

theorem derives_body {node : Node} {e : Formula × Node}
    (h : (body ctx site node).run s = .ok (e, s')) : Derives ctx site s (.body node e) s' := by
  by_cases hblock : ∃ nodes, node = .block nodes
  · obtain ⟨nodes, rfl⟩ := hblock
    obtain ⟨r, t, hss, rfl, rfl⟩ := run_block_eq_ok.1 h
    exact .bodyBlock (derives_statements ctx site nodes hss)
  · rw [body_of_ne_block fun nodes heq => hblock ⟨nodes, heq⟩] at h
    exact .bodyExpression (derives_expression ctx site node h)

/-! ## From derivations to runs -/

/-- Resolution succeeds on a part with its outcome. -/
def Part.Runs (ctx : ResolveContext) (site : Site) (s s' : ResolveState) : Part → Prop
  | expression node e => (Resolve.expression ctx site node).run s = .ok (e, s')
  | expressions nodes es => (Resolve.expressions ctx site nodes).run s = .ok (es, s')
  | properties ps es => (Resolve.properties ctx site ps).run s = .ok (es, s')
  | operands fields nodes o => ∀ node name,
    (Resolve.operands ctx site node name fields nodes).run s = .ok (o, s')
  | statement node r => (Resolve.statement ctx site node).run s = .ok (r, s')
  | branch node r => (Resolve.branch ctx site node).run s = .ok (r, s')
  | statements nodes r => (Resolve.statements ctx site nodes).run s = .ok (r, s')
  | declarations ds r => ∀ node, (Resolve.declarations ctx site node ds).run s = .ok (r, s')
  | body node e => (Resolve.body ctx site node).run s = .ok (e, s')

theorem Derives.runs {part : Part} (h : Derives ctx site s part s') : part.Runs ctx site s s' := by
  induction h with
  | literal v =>
    rw [Part.Runs, expression]
    exact run_pure_eq_ok.2 ⟨rfl, rfl⟩
  | @identifier site s name e h =>
    rw [Part.Runs, expression]
    exact run_bind_eq_ok.2 ⟨s, s, run_get_eq_ok.2 ⟨rfl, rfl⟩, run_liftM_eq_ok.2 ⟨h, rfl⟩⟩
  | column h | parameter h =>
    rw [Part.Runs, expression]
    exact run_liftM_eq_ok.2 ⟨h, rfl⟩
  | owned howner hother hkey h => exact (run_keyed_iff howner hother).2 ⟨_, .inl ⟨hkey, rfl⟩, h⟩
  | resolvedKey howner hother hplain hp hv h ih =>
    exact (run_keyed_iff howner hother).2 ⟨_, .inr ⟨hplain, _, _, ih, hv, rfl⟩, h⟩
  | dotted howner ho ih =>
    exact (run_member_iff howner).2 ⟨_, _, ih, .inl ⟨rfl, rfl, _, rfl, rfl⟩⟩
  | member howner hname ho hp iho ihp =>
    exact (run_member_iff howner).2 ⟨_, _, iho, .inr ⟨hname, _, ihp, rfl⟩⟩
  | scalar hcallee hadmits has ih => exact run_call_iff.2 ⟨_, hcallee, hadmits, _, ih, rfl⟩
  | aggregate hcallee hallowed hplace hcount ho ih =>
    exact run_call_iff.2 ⟨_, hcallee, hallowed, checkOperands_eq_ok_iff.2 ⟨hplace, hcount⟩,
      _, _, _, ih _ _, run_registerAggregateAt _ _ _ _, rfl⟩
  | window hcallee hallowed hplace hcount ho ih =>
    exact run_call_iff.2 ⟨_, hcallee, hallowed, checkOperands_eq_ok_iff.2 ⟨hplace, hcount⟩,
      _, _, _, ih _ _, run_registerWindow _ _ _ _, rfl⟩
  | unary ha ih =>
    rw [Part.Runs, expression]
    exact run_bind_eq_ok.2 ⟨_, _, ih, run_pure_eq_ok.2 ⟨rfl, rfl⟩⟩
  | binary hl hr ihl ihr | logical hl hr ihl ihr =>
    rw [Part.Runs, expression]
    exact run_bind_eq_ok.2 ⟨_, _, ihl, run_bind_eq_ok.2 ⟨_, _, ihr, run_pure_eq_ok.2 ⟨rfl, rfl⟩⟩⟩
  | conditional ht hc ha iht ihc iha =>
    rw [Part.Runs, expression]
    refine run_bind_eq_ok.2 ⟨_, _, iht, run_bind_eq_ok.2 ⟨_, _, ihc, ?_⟩⟩
    exact run_bind_eq_ok.2 ⟨_, _, iha, run_pure_eq_ok.2 ⟨rfl, rfl⟩⟩
  | array hes ih | object hes ih =>
    rw [Part.Runs, expression]
    exact run_bind_eq_ok.2 ⟨_, _, ih, run_pure_eq_ok.2 ⟨rfl, rfl⟩⟩
  | noExpressions =>
    rw [Part.Runs, expressions]
    exact run_pure_eq_ok.2 ⟨rfl, rfl⟩
  | moreExpressions he hes ihe ihes =>
    rw [Part.Runs, expressions]
    exact run_bind_eq_ok.2 ⟨_, _, ihe, run_bind_eq_ok.2 ⟨_, _, ihes, run_pure_eq_ok.2 ⟨rfl, rfl⟩⟩⟩
  | noProperties =>
    rw [Part.Runs, properties]
    exact run_pure_eq_ok.2 ⟨rfl, rfl⟩
  | moreProperties he hes ihe ihes =>
    rw [Part.Runs, properties]
    exact run_bind_eq_ok.2 ⟨_, _, ihe, run_bind_eq_ok.2 ⟨_, _, ihes, run_pure_eq_ok.2 ⟨rfl, rfl⟩⟩⟩
  | noOperands =>
    intro node name
    unfold operands
    exact run_pure_eq_ok.2 ⟨rfl, rfl⟩
  | field he ho ihe iho =>
    intro node name
    rw [operands]
    exact run_bind_eq_ok.2 ⟨_, _, ihe,
      run_bind_eq_ok.2 ⟨_, _, iho node name, run_pure_eq_ok.2 ⟨rfl, rfl⟩⟩⟩
  | constant hp hv ho ihp iho =>
    intro node name
    rw [operands]
    refine run_bind_eq_ok.2 ⟨_, _, ihp, ?_⟩
    dsimp only
    rw [hv]
    exact run_bind_eq_ok.2 ⟨_, _, iho node name, run_pure_eq_ok.2 ⟨rfl, rfl⟩⟩
  | declaration hds ih =>
    rw [Part.Runs, statement]
    exact run_bind_eq_ok.2 ⟨_, _, ih _, run_pure_eq_ok.2 ⟨rfl, rfl⟩⟩
  | returnsNothing =>
    rw [Part.Runs, statement]
    exact run_pure_eq_ok.2 ⟨rfl, rfl⟩
  | returns ha ih =>
    rw [Part.Runs, statement]
    exact run_bind_eq_ok.2 ⟨_, _, ih, run_pure_eq_ok.2 ⟨rfl, rfl⟩⟩
  | branchAlone ht hc iht ihc =>
    rw [Part.Runs, statement]
    exact run_bind_eq_ok.2 ⟨_, _, iht, run_bind_eq_ok.2 ⟨_, _, ihc, run_pure_eq_ok.2 ⟨rfl, rfl⟩⟩⟩
  | branchElse ht hc ha iht ihc iha =>
    rw [Part.Runs, statement]
    refine run_bind_eq_ok.2 ⟨_, _, iht, run_bind_eq_ok.2 ⟨_, _, ihc, ?_⟩⟩
    exact run_bind_eq_ok.2 ⟨_, _, iha, run_pure_eq_ok.2 ⟨rfl, rfl⟩⟩
  | block hss ih =>
    rw [Part.Runs, statement]
    exact run_block_eq_ok.2 ⟨_, _, ih, rfl, rfl⟩
  | evaluated he ih =>
    rw [Part.Runs, statement_of_isExpression he.isExpression]
    exact run_bind_eq_ok.2 ⟨_, _, ih, run_pure_eq_ok.2 ⟨rfl, rfl⟩⟩
  | branchBlock hss ih =>
    rw [Part.Runs, branch]
    exact run_block_eq_ok.2 ⟨_, _, ih, rfl, rfl⟩
  | branchStatement hblock hn ih =>
    rw [Part.Runs, branch_of_ne_block hblock]
    exact run_block_eq_ok.2 ⟨_, _, ih, rfl, rfl⟩
  | noStatements =>
    rw [Part.Runs, statements]
    exact run_pure_eq_ok.2 ⟨rfl, rfl⟩
  | moreStatements hn hns ihn ihns =>
    rw [Part.Runs, statements]
    exact run_bind_eq_ok.2 ⟨_, _, ihn, run_bind_eq_ok.2 ⟨_, _, ihns, run_pure_eq_ok.2 ⟨rfl, rfl⟩⟩⟩
  | noDeclarations =>
    intro node
    rw [declarations]
    exact run_pure_eq_ok.2 ⟨rfl, rfl⟩
  | moreDeclarations hinit hds ihinit ihds =>
    intro node
    rw [declarations]
    refine run_bind_eq_ok.2 ⟨_, _, ihinit, run_bind_eq_ok.2 ⟨_, _, run_get_eq_ok.2 ⟨rfl, rfl⟩, ?_⟩⟩
    refine run_bind_eq_ok.2 ⟨(), _, run_modify_eq_ok.2 rfl, ?_⟩
    exact run_bind_eq_ok.2 ⟨_, _, ihds node, run_pure_eq_ok.2 ⟨rfl, rfl⟩⟩
  | bodyBlock hss ih => exact run_block_eq_ok.2 ⟨_, _, ih, rfl, rfl⟩
  | @bodyExpression site s s' n e he ih =>
    have hblock : ∀ nodes, n ≠ .block nodes := by
      rintro nodes rfl
      cases he
    rw [Part.Runs, body_of_ne_block hblock]
    exact ih

/-- A part has a derivation exactly if resolution succeeds on it with that outcome. -/
theorem derives_iff {part : Part} : Derives ctx site s part s' ↔ part.Runs ctx site s s' := by
  refine ⟨Derives.runs, fun h => ?_⟩
  cases part with
  | expression node e => exact derives_expression ctx site node h
  | expressions nodes es => exact derives_expressions ctx site nodes h
  | properties ps es => exact derives_properties ctx site ps h
  | operands fields nodes o => exact derives_operands ctx site default "" fields nodes (h _ _)
  | statement node r => exact derives_statement ctx site node h
  | branch node r => exact derives_branch ctx site node h
  | statements nodes r => exact derives_statements ctx site nodes h
  | declarations ds r => exact derives_declarations ctx site default ds (h _)
  | body node e => exact derives_body h

end Resolve

end ColumnQuery
