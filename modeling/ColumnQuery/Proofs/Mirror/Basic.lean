/-
  Views that mirror each other.

  Two views mirror each other if they are aligned, and their columns are read alike at rows that
  correspond (`Mirrors`). Expressions are then refused for the same reason over both, or resolve to
  the same calls and to formulas with the same values: at rows that correspond, in an operator or
  outside of it, and together with any row of another table that both are joined with
  (`outcome_resolve`).

  What a verb makes of both views is compared by what it shows: the names of the columns and the
  rows in order (`ShowsSame`). A verb agrees on both if it is refused for the same reason, or
  shows the same (`SameOutcome`).
-/
import ColumnQuery.Proofs.Mirror.Aligned
import ColumnQuery.Proofs.Table.Alongside

namespace ColumnQuery

/-! ## Outcomes -/

/-- Refused for the same reason on both sides, or results that are related. -/
inductive SameOutcome {α β : Type} (R : α → β → Prop) :
    Except QueryError α → Except QueryError β → Prop
  | ok {a : α} {b : β} (h : R a b) : SameOutcome R (.ok a) (.ok b)
  | refused (e : QueryError) : SameOutcome R (.error e) (.error e)

namespace SameOutcome

variable {α β γ δ : Type} {R : α → β → Prop} {S : γ → δ → Prop} {x : Except QueryError α}
  {y : Except QueryError β} {f : α → Except QueryError γ} {g : β → Except QueryError δ}

theorem bind (h : SameOutcome R x y)
    (hstep : ∀ a b, x = .ok a → y = .ok b → R a b → SameOutcome S (f a) (g b)) :
    SameOutcome S (x >>= f) (y >>= g) := by
  cases h with
  | ok hab => exact hstep _ _ rfl rfl hab
  | refused e => exact .refused e

/-- Reads that come to the same. -/
theorem ofRead {r : Option α} {r' : Option β} (h : Option.Rel R r r') :
    SameOutcome R (QueryError.ofRead r) (QueryError.ofRead r') := by
  cases h with
  | some hab => exact .ok hab
  | none => exact .refused _

theorem refl (x : Except QueryError α) : SameOutcome Eq x x := by
  cases x with
  | error e => exact .refused e
  | ok a => exact .ok rfl

theorem mapM {ι : Type} {xs : List ι} {f : ι → Except QueryError α} {g : ι → Except QueryError β}
    (h : ∀ x ∈ xs, SameOutcome R (f x) (g x)) :
    SameOutcome (List.Forall₂ R) (xs.mapM f) (xs.mapM g) := by
  induction xs with
  | nil => exact .ok .nil
  | cons x xs ih =>
    obtain ⟨hx, hxs⟩ := List.forall_mem_cons.1 h
    rw [List.mapM_cons, List.mapM_cons]
    refine hx.bind fun a b _ _ hab => (ih hxs).bind fun as bs _ _ habs => ?_
    exact .ok (.cons hab habs)

/-- Where neither side lacks anything, both come to the same. -/
theorem of_outcome {k : Comparison} (h : Outcome k R x y) (hleft : ¬ k.leftLacks)
    (hright : ¬ k.rightLacks) : SameOutcome R x y := by
  cases h with
  | ok hab => exact .ok hab
  | error e => exact .refused e
  | left hlacks _ => exact absurd hlacks hright
  | right hlacks _ => exact absurd hlacks hleft

theorem of_eq {x y : Except QueryError α} {R : α → α → Prop} (h : x = y)
    (hok : ∀ a, x = .ok a → R a a) : SameOutcome R x y := by
  subst h
  cases x with
  | error e => exact .refused e
  | ok a => exact .ok (hok a rfl)

theorem eq {x y : Except QueryError α} (h : SameOutcome Eq x y) : x = y := by
  cases h with
  | ok hab => exact congrArg Except.ok hab
  | refused e => rfl

end SameOutcome

/-! ## Columns -/

/-- What is read of both columns is the same, cells included. -/
theorem Column.Alike.get? {c d : Column} {i j : Nat} (h : c.Alike (some i) d (some j)) :
    c.get? i = d.get? j := by
  have hcell := h .cell 0 ⟨.row i, Env.noResults⟩ ⟨.row j, Env.noResults⟩ rfl rfl #[]
  have hmap : (c.get? i).map (·, (#[] : Slots)) = (d.get? j).map (·, (#[] : Slots)) := by
    simp only [Reading.formula, Formula.evalWith] at hcell
    exact hcell
  exact Option.map_injective (fun _ _ he => (Prod.mk.inj he).1) hmap

/-- Columns that are read alike at rows that correspond, with dictionaries that lack the same
    texts. -/
structure Column.Mirrors (pairs : List (Nat × Nat)) (c c' : Column) : Prop where
  alike : ∀ p ∈ pairs, c.Alike (some p.1) c' (some p.2)
  lacks : ∀ s, c.Lacks s ↔ c'.Lacks s

/-- The same cells at rows that correspond. -/
def Column.SameCells (pairs : List (Nat × Nat)) (c c' : Column) : Prop :=
  ∀ p ∈ pairs, c.get? p.1 = c'.get? p.2

theorem Column.Mirrors.sameCells {pairs : List (Nat × Nat)} {c c' : Column}
    (h : c.Mirrors pairs c') : c.SameCells pairs c' := fun p hp => (h.alike p hp).get?

/-- Rows of the left table that correspond, with the same row of the right one; outside of
    operators with the same results. Where only operators read rows, other places need not
    correspond. -/
def mirroring (pairs : List (Nat × Nat)) (aggregateOnly : Bool) : Comparison where
  envs inOperator env env' :=
    ((aggregateOnly = true → inOperator = true) →
      Option.Rel (fun a b => (a, b) ∈ pairs) env.position.left env'.position.left ∧
        env.position.right = env'.position.right) ∧
    (inOperator = false → ∀ ref,
      env.results ref (env.position.left.getD 0) = env'.results ref (env'.position.left.getD 0))
  leftLacks := False
  rightLacks := False

namespace View

/-- Aligned views whose columns are read alike at rows that correspond. -/
structure Mirrors (v w : View) (pairs : List (Nat × Nat)) : Prop extends v.Aligned w pairs where
  params : v.params = w.params
  columns : v.data.Alongside (Column.Mirrors pairs) w.data

variable {v w x y : View} {pairs ps : List (Nat × Nat)} {key key' : RowKey}

/-! ## Expressions -/

theorem rowsCorrespond_mirroring (pairs : List (Nat × Nat)) (aggregateOnly : Bool) :
    RowsCorrespond (mirroring pairs aggregateOnly) pairs :=
  fun _ hp => ⟨fun _ => ⟨.some hp, rfl⟩, nofun⟩

theorem Mirrors.counterparts (h : v.Mirrors w pairs) (others : List Table)
    (options : ResolveOptions) :
    Resolve.Counterparts (mirroring pairs options.aggregateOnly)
      ⟨v.data :: others, v.params, options⟩ ⟨w.data :: others, w.params, options⟩ where
  params := h.params
  options := rfl
  tables := rfl
  absent _ := ⟨fun _ => ⟨.none, rfl⟩, fun _ _ => rfl⟩
  results _ _ he := he.2 rfl
  columns t table table' ht ht' inOperator hplace name := by
    cases t with
    | zero =>
      obtain rfl := Option.some.inj ht
      obtain rfl := Option.some.inj ht'
      have hcolumn := h.columns.column? name
      generalize v.data.column? name = x, w.data.column? name = y at hcolumn
      cases hcolumn with
      | none => exact .none
      | @some c c' hc =>
        refine .some ⟨fun env env' he => ?_, fun s hs => .inl ((hc.lacks s).1 hs),
          fun s hs => .inl ((hc.lacks s).2 hs)⟩
        have hleft := (he.1 hplace).1
        show c.Alike env.position.left c' env'.position.left
        generalize env.position.left = i, env'.position.left = j at hleft
        cases hleft with
        | none => exact Column.alike_none c c'
        | some hp => exact hc.alike _ hp
    | succ t =>
      -- the other tables are the same on both sides
      obtain rfl := Option.some.inj (ht.symm.trans ht')
      cases table.column? name with
      | none => exact .none
      | some c =>
        refine .some ⟨fun env env' he => ?_, fun _ => .inl, fun _ => .inl⟩
        have hrow : env.position.rowOf (t + 1) = env'.position.rowOf (t + 1) := by
          cases t with
          | zero => exact (he.1 hplace).2
          | succ t => rfl
        rw [hrow]
        exact c.alike_refl _

/-- Expressions are refused for the same reason on both sides, or resolve to the same calls and to
    formulas that evaluate alike. -/
theorem Mirrors.resolve_both (h : v.Mirrors w pairs) (others : List Table)
    (options : ResolveOptions) {exprs : List (String × ExprSpec)}
    (hexprs : ∀ e ∈ exprs, e.2.escapes = false) :
    SameOutcome (Resolve.SameResolution (mirroring pairs options.aggregateOnly))
      (ColumnQuery.resolve ⟨v.data :: others, v.params, options⟩ exprs)
      (ColumnQuery.resolve ⟨w.data :: others, w.params, options⟩ exprs) := by
  have hescaped : ∀ e ∈ exprs, ∀ f ∈ e.2.escaped?,
      Resolve.SeesSame (mirroring pairs options.aggregateOnly)
        ⟨v.data :: others, v.params, options⟩ ⟨w.data :: others, w.params, options⟩ f := by
    intro e he f hf
    rw [ExprSpec.escaped?_eq_none (hexprs e he)] at hf
    cases hf
  have houtcome := Resolve.outcome_resolve (h.counterparts others options) exprs
  have hsame := SameOutcome.of_outcome houtcome id id
  generalize ColumnQuery.resolve ⟨v.data :: others, v.params, options⟩ exprs = x,
    ColumnQuery.resolve ⟨w.data :: others, w.params, options⟩ exprs = y at hsame ⊢
  cases hsame with
  | ok hr => exact .ok (hr hescaped)
  | refused e => exact .refused e

/-! ## What is shown -/

/-- The same rows in the same order, under the same names. -/
def ShowsSame (x y : View) : Prop :=
  x.data.names = y.data.names ∧ ∃ rows, x.rows = some rows ∧ y.rows = some rows

theorem Sound.exists_cellsOf (hv : v.Sound key) {row : Nat} (hrow : row < v.totalRows) :
    ∃ cells, v.cellsOf row = some cells :=
  exists_mapM _ _ fun e he =>
    hv.table.columns e he row (by rw [hv.table.length_eq e he]; exact hrow)

/-- The rows that a sound view shows have all their cells. -/
theorem Sound.exists_rows (hv : v.Sound key) : ∃ rows, v.rows = some rows := by
  obtain ⟨sorted, hsorted, -⟩ := hv.exists_sorted
  obtain ⟨rows, hrows⟩ := exists_mapM v.cellsOf sorted fun row hrow =>
    hv.exists_cellsOf (hv.lt_of_sorted hsorted hrow)
  refine ⟨rows, ?_⟩
  unfold View.rows
  rw [hsorted]
  exact hrows

theorem Sound.showsSame_self (hv : v.Sound key) : v.ShowsSame v := by
  obtain ⟨rows, hrows⟩ := hv.exists_rows
  exact ⟨rfl, rows, hrows, hrows⟩

/-- Views with the same cells at rows that correspond show the same. -/
theorem Sound.showsSame (hx : x.Sound key)
    (hcolumns : x.data.Alongside (Column.SameCells ps) y.data)
    (hsorted : x.sorted = some (ps.map (·.1))) (hsorted' : y.sorted = some (ps.map (·.2))) :
    x.ShowsSame y := by
  have hcells : ∀ p ∈ ps, x.cellsOf p.1 = y.cellsOf p.2 := fun p hp =>
    mapM_of_forall₂ (List.Forall₂.imp (fun _ _ he => he.2 p hp) hcolumns)
  obtain ⟨rows, hrows⟩ := hx.exists_rows
  refine ⟨hcolumns.names, rows, hrows, ?_⟩
  unfold View.rows at hrows ⊢
  rw [hsorted] at hrows
  rw [hsorted', ← hrows]
  exact (mapM_pairs hcells).symm

end View

end ColumnQuery
