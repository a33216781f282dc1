/-
  Resolved expressions as the engines need them.

  Formulas and calls of operators are read by engines that check nothing: a result that is not
  there and a constant inside of an operator read as null. Resolution gives them no occasion
  (`wellFormed_of_resolve`). Every result that a formula reads is that of a call in the lists, every
  call has as many fields as its operator takes and no more parameters, the fields read cells of
  the input tables and nothing else, and there are calls only of the kinds that the options allow.

  The lists of calls grow while expressions are resolved, and only by calls that the options allow
  (`Derives.grown`). The results in a part are those of calls that are there after it
  (`Derives.ranges`), and stay so.
-/
import ColumnQuery.Proofs.Formula.Allowed
import ColumnQuery.Proofs.Formula.Exported

namespace ColumnQuery

/-! ## Leaves -/

namespace Formula

/-- A result of an operator is that of one of so many calls. -/
def InRange (aggregates windows : Nat) : Formula → Prop
  | op (.aggregate i) => i < aggregates
  | op (.window i) => i < windows
  | _ => True

theorem InRange.mono {a a' w w' : Nat} (ha : a ≤ a') (hw : w ≤ w') {leaf : Formula}
    (h : leaf.InRange a w) : leaf.InRange a' w' := by
  unfold InRange at h ⊢
  split at h
  next => exact Nat.lt_of_lt_of_le h ha
  next => exact Nat.lt_of_lt_of_le h hw
  next => trivial

end Formula

/-! ## The lists of calls -/

namespace Resolve

/-- The lists of calls have grown, if at all, by calls that the options allow. -/
structure Grown (ctx : ResolveContext) (s t : ResolveState) : Prop where
  later : s.Later t
  aggregates : ctx.options.aggregate = false → t.aggregates = s.aggregates
  windows : ctx.options.window = false → t.windows = s.windows

variable {ctx : ResolveContext} {site : Site} {s t u : ResolveState}

theorem grown_of_eq (haggregates : s.aggregates = t.aggregates) (hwindows : s.windows = t.windows) :
    Grown ctx s t where
  later := ResolveState.later_of_eq haggregates hwindows
  aggregates _ := haggregates.symm
  windows _ := hwindows.symm

theorem Grown.refl (ctx : ResolveContext) (s : ResolveState) : Grown ctx s s := grown_of_eq rfl rfl

theorem Grown.trans (h : Grown ctx s t) (h' : Grown ctx t u) : Grown ctx s u where
  later := h.later.trans h'.later
  aggregates hoption := (h'.aggregates hoption).trans (h.aggregates hoption)
  windows hoption := (h'.windows hoption).trans (h.windows hoption)

theorem grown_aggregate {node : Node} {a : Aggregate} {u : Unit}
    (h : checkAggregate ctx site node a = .ok u) (o : Operands) :
    Grown ctx s (s.register (o.aggregateCall site.frame a)) := by
  rcases checkAggregate_eq_ok_iff.1 h with ⟨hframe, hallowed⟩ | ⟨frame, hframe, hallowed⟩
  · rw [hframe]
    exact ⟨ResolveState.later_register s _,
      fun hoption => absurd hallowed (Bool.eq_false_iff.1 hoption), fun _ => rfl⟩
  · rw [hframe]
    exact ⟨ResolveState.later_register s _, fun _ => rfl,
      fun hoption => absurd hallowed (Bool.eq_false_iff.1 hoption)⟩

theorem grown_window (hallowed : ctx.options.window = true) (o : Operands) (frame : Option Frame)
    (w : WindowFunction) : Grown ctx s (s.register (o.windowCall frame w)) where
  later := ResolveState.later_register s _
  aggregates _ := rfl
  windows hoption := absurd hallowed (Bool.eq_false_iff.1 hoption)

theorem Derives.grown {part : Part} (h : Derives ctx site s part t) : Grown ctx s t :=
  h.steps grown_of_eq Grown.trans (fun hallowed _ _ => grown_aggregate hallowed _)
    fun hallowed _ _ => grown_window hallowed _ _ _

/-! ## Results of operators -/

/-- A result of an operator in a part is that of a call that is there after it. -/
def Part.Ranges (part : Part) (s : ResolveState) : Prop :=
  part.Leaves (Formula.InRange s.aggregates.length s.windows.length)

theorem inRange_register (s : ResolveState) (c : OperatorCall) :
    Formula.InRange (s.register c).aggregates.length (s.register c).windows.length
      (.op (s.placeOf c)) := by
  cases c with
  | aggregate c => exact findIdx_lt_addUnless c.sameAs_refl
  | window c => exact findIdx_lt_addUnless c.sameAs_refl

/-- The results of operators in a part are those of calls that are there after it. -/
theorem Derives.ranges {part : Part} (h : Derives ctx site s part t) : part.Ranges t := by
  have hholds : HoldsOfLeaves ctx fun _ s leaf =>
      leaf.InRange s.aggregates.length s.windows.length :=
    { later := fun hlater hleaf =>
        hleaf.mono hlater.aggregates.length_le hlater.windows.length_le
      cell := fun _ => trivial
      dictionary := fun _ => trivial
      slot := fun _ => trivial
      aggregate := fun _ _ _ => inRange_register _ _
      window := fun _ _ _ => inRange_register _ _ }
  exact h.leaves hholds

end Resolve

/-! ## Well-formed resolutions -/

/-- A leaf that can be read beside so many calls: a cell of an input table, unless columns are left
    to aggregates alone, a constant of a block, a result of one of the calls, or a function over
    the input tables and the parameters. -/
def Formula.Readable (ctx : ResolveContext) (aggregates windows : Nat) : Formula → Prop
  | .column t c | .dictionaryEq t c _ _ =>
    c.IsOf ctx.tables t ∧ ctx.options.aggregateOnly = false
  | .slot _ => True
  | .op (.aggregate i) => i < aggregates
  | .op (.window i) => i < windows
  | .escape _ tables params => tables = ctx.tables ∧ params = ctx.params
  | _ => False

/-- What the engines rely on. That the fields of a call are plain is a part of its suiting its
    operator. -/
structure Resolution.WellFormed (ctx : ResolveContext) (r : Resolution) : Prop where
  leaves : ∀ e ∈ r.exprs,
    e.formula.Leaves (Formula.Readable ctx r.aggregates.length r.windows.length)
  aggregates_suit : ∀ c ∈ r.aggregates, c.Suits ctx.tables
  windows_suit : ∀ c ∈ r.windows, c.Suits ctx.tables
  aggregates_allowed : ctx.options.aggregate = false → r.aggregates = []
  windows_allowed : ctx.options.window = false → r.windows = []

theorem Formula.Readable.mono {ctx : ResolveContext} {a a' w w' : Nat} (ha : a ≤ a') (hw : w ≤ w')
    {leaf : Formula} (h : leaf.Readable ctx a w) : leaf.Readable ctx a' w' := by
  unfold Readable at h ⊢
  split at h
  next => exact h
  next => exact h
  next => trivial
  next => exact Nat.lt_of_lt_of_le h ha
  next => exact Nat.lt_of_lt_of_le h hw
  next => exact h
  next => cases h

namespace Resolve

variable {ctx : ResolveContext} {s s' : ResolveState}

theorem readable_of_allowed {a w : Nat} {leaf : Formula}
    (h : Allowed ctx false leaf ∧ leaf.InRange a w) : leaf.Readable ctx a w := by
  obtain ⟨hallowed, hrange⟩ := h
  cases leaf with
  | column _ _ | dictionaryEq _ _ _ _ =>
    exact ⟨hallowed.1, Bool.eq_false_iff.2 fun honly => nomatch hallowed.2 honly⟩
  | slot _ => trivial
  | op ref =>
    cases ref with
    | aggregate i => exact hrange
    | window i => exact hrange
  | _ => cases hallowed

/-- A formula that can be read beside the calls of a state. -/
def ReadableAt (ctx : ResolveContext) (s : ResolveState) (f : Formula) : Prop :=
  f.Leaves (Formula.Readable ctx s.aggregates.length s.windows.length)

theorem ReadableAt.later {f : Formula} (h : ReadableAt ctx s f) (hlater : s.Later s') :
    ReadableAt ctx s' f :=
  Formula.Leaves.imp (fun _ hleaf => hleaf.mono hlater.aggregates.length_le
    hlater.windows.length_le) f h

theorem readable_spec {frame : Option Frame} {e : ExprSpec} {r : Formula × Option Node}
    (h : (spec ctx frame e).run s = .ok (r, s')) :
    Grown ctx s s' ∧ ReadableAt ctx s' r.1 := by
  obtain ⟨f, tree⟩ := r
  rcases spec_cases h with ⟨rfl, ⟨g, -, rfl⟩ | ⟨-, v, rfl⟩⟩ | ⟨-, site, node, tree', hsite, hbody⟩
  · exact ⟨.refl ctx _, rfl, rfl⟩
  · exact ⟨.refl ctx _, trivial⟩
  · have hrestart : Grown ctx s s.restart := grown_of_eq rfl rfl
    have hreads : Reads ctx false f := hsite ▸ hbody.reads
    have hrange : f.Leaves (Formula.InRange s'.aggregates.length s'.windows.length) :=
      hbody.ranges
    refine ⟨hrestart.trans hbody.grown, ?_⟩
    exact Formula.Leaves.imp (fun _ => readable_of_allowed) f (Formula.Leaves.and f hreads hrange)

theorem readable_named {exprs : List (String × ExprSpec)} {es : List NamedFormula}
    (h : (named ctx exprs).run s = .ok (es, s')) :
    Grown ctx s s' ∧ ∀ e ∈ es, ReadableAt ctx s' e.formula := by
  induction exprs generalizing s es with
  | nil =>
    obtain ⟨rfl, rfl⟩ := run_pure_eq_ok.1 h
    exact ⟨.refl ctx _, by simp⟩
  | cons e exprs ih =>
    obtain ⟨r, t, more, hr, hmore, rfl⟩ := run_named_cons.1 h
    obtain ⟨hgrown, hfirst⟩ := readable_spec hr
    obtain ⟨hgrown', hrest⟩ := ih hmore
    exact ⟨hgrown.trans hgrown',
      List.forall_mem_cons.2 ⟨hfirst.later hgrown'.later, hrest⟩⟩

end Resolve

/-- Whatever resolves is well formed. -/
theorem wellFormed_of_resolve {ctx : ResolveContext} {exprs : List (String × ExprSpec)}
    {r : Resolution} (h : resolve ctx exprs = .ok r) : r.WellFormed ctx := by
  have hregistered := registered_of_resolve h
  obtain ⟨es, s, hnamed, rfl⟩ := resolve_eq_ok_iff.1 h
  obtain ⟨hgrown, hreadable⟩ := Resolve.readable_named hnamed
  exact ⟨hreadable, hregistered.aggregates_suit, hregistered.windows_suit, hgrown.aggregates,
    hgrown.windows⟩

/-- Calls of all kinds, one of them twice. -/
def counted : List (String × ExprSpec) :=
  [("a", .source "lag(d.x, 2) - mean(d.x)"), ("b", .source "rolling(mean(d.x), [-1, 0])"),
    ("c", .source "d.x > mean(d.x)")]

theorem wellFormed_counted : ∃ r, resolve numbered counted = .ok r ∧ r.aggregates.length = 1 ∧
    r.windows.length = 2 ∧ r.WellFormed numbered := by
  obtain ⟨r, hr, hcalls⟩ := exists_ok (x := resolve numbered counted)
    (p := fun r => r.aggregates.length == 1 && r.windows.length == 2) (by decide +kernel)
  obtain ⟨haggregates, hwindows⟩ := Bool.and_eq_true_iff.1 hcalls
  exact ⟨r, hr, eq_of_beq haggregates, eq_of_beq hwindows, wellFormed_of_resolve hr⟩

end ColumnQuery
