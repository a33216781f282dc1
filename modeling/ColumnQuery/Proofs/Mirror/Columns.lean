/-
  Computed columns of views that mirror each other.

  An expression has the same value at rows that correspond, so derived columns hold the same cells
  there (`Mirrors.derive`). Groups have the same keys and aggregates the same results, so a roll-up
  makes the very same table on both sides (`Mirrors.rollup_eq`).
-/
import ColumnQuery.Proofs.Mirror.Selection

namespace ColumnQuery

/-! ## Columns set one after the other -/

section Cells

variable {cells cells' : NamedFormula → Option (List Value)} {es es' : List NamedFormula}

/-- The cells of expressions under the same name, at rows that correspond. -/
structure SameColumn (pairs : List (Nat × Nat)) (cells cells' : NamedFormula → Option (List Value))
    (rows rows' : Nat) (e e' : NamedFormula) : Prop where
  name : e.name = e'.name
  cells : ∃ values values', cells e = some values ∧ cells' e' = some values' ∧
    values.length = rows ∧ values'.length = rows' ∧ ∀ p ∈ pairs, values[p.1]? = values'[p.2]?

/-- Columns with the same cells, set in tables that stand alongside each other. -/
theorem foldlM_setCells_alongside {pairs : List (Nat × Nat)} {t t' : Table}
    (ht : t.Alongside (Column.SameCells pairs) t')
    (hes : List.Forall₂ (SameColumn pairs cells cells' t.rowCount t'.rowCount) es es') :
    ∃ u u', es.foldlM (setCells cells) t = .ok u ∧ es'.foldlM (setCells cells') t' = .ok u' ∧
      u.rowCount = t.rowCount ∧ u'.rowCount = t'.rowCount ∧
      u.Alongside (Column.SameCells pairs) u' := by
  generalize hrows : t.rowCount = rows, hrows' : t'.rowCount = rows' at hes
  induction hes generalizing t t' with
  | nil => exact ⟨t, t', rfl, rfl, hrows, hrows', ht⟩
  | @cons e e' es es' he _ ih =>
    obtain ⟨values, values', hvalues, hvalues', hlength, hlength', hsame⟩ := he.cells
    have hc : (Column.ofCells values).length = t.rowCount := by
      rw [Column.length_ofCells, hlength, hrows]
    have hc' : (Column.ofCells values').length = t'.rowCount := by
      rw [Column.length_ofCells, hlength', hrows']
    obtain ⟨u, hu⟩ : ∃ u, t.set e'.name (.ofCells values) = .ok u := Table.exists_set hc
    obtain ⟨u', hu'⟩ : ∃ u', t'.set e'.name (.ofCells values') = .ok u' := Table.exists_set hc'
    have hcells : (Column.ofCells values).SameCells pairs (.ofCells values') := fun p hp => by
      rw [Column.get?_ofCells, Column.get?_ofCells]
      exact hsame p hp
    obtain ⟨w, w', hw, hw', hcount, hcount', halongside⟩ := ih (ht.set hcells hu hu')
      ((Table.rowCount_of_set hu hc).trans hrows) ((Table.rowCount_of_set hu' hc').trans hrows')
    refine ⟨w, w', ?_, ?_, hcount, hcount', halongside⟩
    · have hstep : setCells cells t e = .ok u := by
        unfold setCells
        rw [hvalues, he.name]
        show QueryError.ofTable (t.set e'.name (.ofCells values)) = _
        rw [hu]
        rfl
      rw [List.foldlM_cons, hstep]
      exact hw
    · have hstep : setCells cells' t' e' = .ok u' := by
        unfold setCells
        rw [hvalues']
        show QueryError.ofTable (t'.set e'.name (.ofCells values')) = _
        rw [hu']
        rfl
      rw [List.foldlM_cons, hstep]
      exact hw'

/-- The same cells under the same names make the same table, or are refused alike. -/
theorem foldlM_setCells_congr (t : Table)
    (hes : List.Forall₂ (fun e e' => e.name = e'.name ∧ cells e = cells' e') es es') :
    es.foldlM (setCells cells) t = es'.foldlM (setCells cells') t := by
  induction hes generalizing t with
  | nil => rfl
  | @cons e e' _ _ he _ ih =>
    have hstep : setCells cells t e = setCells cells' t e' := by
      unfold setCells
      rw [he.1, he.2]
    rw [List.foldlM_cons, List.foldlM_cons, hstep]
    exact congrArg _ (funext ih)

end Cells

namespace View

variable {v w : View} {pairs : List (Nat × Nat)} {key key' : RowKey}
  {exprs : List (String × ExprSpec)} {r r' : Resolution}

/-! ## Derived columns -/

/-- Derived columns hold the same cells at rows that correspond. -/
theorem Mirrors.derive (h : v.Mirrors w pairs) (hv : v.Sound key) (hw : w.Sound key')
    (hexprs : ∀ e ∈ exprs, e.2.escapes = false) :
    SameOutcome ShowsSame (v.derive exprs) (w.derive exprs) := by
  have hboth := h.resolve_both [] .derive hexprs
  generalize hr : ColumnQuery.resolve ⟨[v.data], v.params, .derive⟩ exprs = x,
    hr' : ColumnQuery.resolve ⟨[w.data], w.params, .derive⟩ exprs = y at hboth
  cases hboth with
  | refused e =>
    unfold View.derive deriveAt View.resolve
    rw [hr, hr']
    exact .refused e
  | @ok r r' hsame =>
    obtain ⟨results, results', hresults, hresults', hvalues⟩ := h.rowResults hv hw hr hr' hsame
    have hcells : List.Forall₂ (SameColumn pairs
        (fun e => (e.formula.evalRows? results.lookup v.visible v.totalRows).map (·.toList))
        (fun e => (e.formula.evalRows? results'.lookup w.visible w.totalRows).map (·.toList))
        v.data.rowCount w.data.rowCount) r.exprs r'.exprs := by
      refine (forall₂_mem hvalues).imp fun e e' ⟨he, he', hname, hsame⟩ => ⟨hname, ?_⟩
      obtain ⟨values, hvalues, hlength, hcells⟩ := hv.exists_rowCells results fun row hrow =>
        hv.exists_evalRow_of_derive hr hexprs he results (hv.lt_of_visible hrow)
      obtain ⟨values', hvalues', hlength', hcells'⟩ := hw.exists_rowCells results' fun row hrow =>
        hw.exists_evalRow_of_derive hr' hexprs he' results' (hw.lt_of_visible hrow)
      refine ⟨values, values', hvalues, hvalues', hlength, hlength', fun p hp => ?_⟩
      obtain ⟨hvisible, hvisible'⟩ := h.visible hp
      rw [hcells p.1 hvisible, hcells' p.2 hvisible', hsame p hp]
    obtain ⟨t, t', ht, ht', hcount, hcount', halongside⟩ :=
      foldlM_setCells_alongside h.sameCells hcells
    rw [← setColumn_eq] at ht ht'
    have hderived := derive_eq_ok hr hresults ht
    have hderived' := derive_eq_ok hr' hresults' ht'
    rw [hderived, hderived']
    refine .ok ((hv.of_deriveAt hderived).showsSame halongside ?_ ?_)
    · rw [sorted_withData hcount, h.sorted]
    · rw [sorted_withData hcount', h.sorted']

/-! ## Roll-ups -/

/-- The groups have the same keys. -/
theorem Aligned.keyTable_eq (h : v.Aligned w pairs) : v.keyTable = w.keyTable := by
  have hkeys := h.keys
  unfold keyTable
  cases hg : v.groups with
  | none =>
    cases hg' : w.groups with
    | none => rfl
    | some g' => simp [hg, hg'] at hkeys
  | some g =>
    cases hg' : w.groups with
    | none => simp [hg, hg'] at hkeys
    | some g' =>
      rw [hg, hg'] at hkeys
      obtain ⟨hnames, hrest⟩ := Prod.mk.inj (Option.some.inj hkeys)
      obtain ⟨hsize, hvalues⟩ := Prod.mk.inj hrest
      unfold keyColumn
      dsimp only
      rw [hnames, hsize, hvalues]

/-- A roll-up gives the same on both sides. -/
theorem Mirrors.rollup_eq (h : v.Mirrors w pairs) (hv : v.Sound key) (hw : w.Sound key')
    (hexprs : ∀ e ∈ exprs, e.2.escapes = false) : v.rollup exprs = w.rollup exprs := by
  have hboth := h.resolve_both [] .rollup hexprs
  unfold View.rollup
  refine (hboth.bind fun r r' hr hr' hsame => ?_).eq
  obtain ⟨results, results', hresults, hresults', haggregate, -⟩ :=
    h.operators_eq hv hw (rowsCorrespond_mirroring pairs true) (registered_of_resolve hr)
      (registered_of_resolve hr') hsame.aggregates hsame.windows some some
  have hreads := reads_of_resolve hexprs hr'
  -- window calls are not allowed here, so only results of aggregates are read
  have hcells : List.Forall₂ (fun e e' => e.name = e'.name ∧
      (List.range v.groupCount).mapM (e.formula.evalRow results.lookup)
        = (List.range w.groupCount).mapM (e'.formula.evalRow results'.lookup))
      r.exprs r'.exprs := by
    refine (forall₂_mem hsame.exprs).imp fun e e' ⟨_, he', hnamed⟩ => ⟨hnamed.name, ?_⟩
    rw [← h.groupCount]
    refine mapM_of_forall₂ (List.forall₂_same.2 fun g _ => ?_)
    calc e.formula.evalRow results.lookup g
        = e'.formula.evalRow results.lookup g :=
          hnamed.formula.eval ⟨fun hinside => absurd (hinside rfl) Bool.false_ne_true,
            fun _ _ => rfl⟩
      _ = e'.formula.evalRow results'.lookup g :=
          (hreads e' he').eval_congr nofun fun ref href => by
            cases ref with
            | aggregate n => exact congrArg some (haggregate g g n rfl)
            | window n => cases href.2
  have hfold : ∀ t : Table, r.exprs.foldlM (setGroupColumn v.groupCount results) t
      = r'.exprs.foldlM (setGroupColumn w.groupCount results') t := by
    intro t
    rw [setGroupColumn_eq, setGroupColumn_eq]
    exact foldlM_setCells_congr t hcells
  have hfresh : v.fresh = w.fresh := by
    funext t
    unfold fresh
    rw [h.params]
  refine .of_eq ?_ fun _ _ => rfl
  rw [hresults, hresults', h.keyTable_eq, hfresh]
  show (w.keyTable >>= _) = (w.keyTable >>= _)
  refine congrArg _ (funext fun t => ?_)
  rw [hfold]

theorem Mirrors.rollup (h : v.Mirrors w pairs) (hv : v.Sound key) (hw : w.Sound key')
    (hexprs : ∀ e ∈ exprs, e.2.escapes = false) :
    SameOutcome ShowsSame (v.rollup exprs) (w.rollup exprs) :=
  .of_eq (h.rollup_eq hv hw hexprs) fun _ hx => (sound_of_rollup key hx).showsSame_self

end View

end ColumnQuery
