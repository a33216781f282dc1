/-
  Hiding rows of views that mirror each other.

  Sets of rows that correspond hide the same rows on both sides, so what is left still corresponds
  (`Mirrors.showsSame_withFilter`). Predicates are true at the same rows (`filterBy`), partitions
  have the same positions (`slice`), and rows have the same keys (`dedupe`), so each of these verbs
  selects rows that correspond and agrees on both views.
-/
import ColumnQuery.Proofs.Mirror.Basic

namespace ColumnQuery

namespace View

variable {v w : View} {pairs ps : List (Nat × Nat)} {key key' : RowKey}

/-! ## Rows that correspond -/

theorem Mirrors.sameCells (h : v.Mirrors w pairs) :
    v.data.Alongside (Column.SameCells pairs) w.data := h.columns.imp fun _ _ hc => hc.sameCells

/-- Rows that correspond are visible. -/
theorem Mirrors.visible (h : v.Mirrors w pairs) {p : Nat × Nat} (hp : p ∈ pairs) :
    p.1 ∈ v.visible ∧ p.2 ∈ w.visible :=
  ⟨(perm_of_sorted h.sorted).mem_iff.1 (List.mem_map_of_mem hp),
    (perm_of_sorted h.sorted').mem_iff.1 (List.mem_map_of_mem hp)⟩

theorem Mirrors.visible_map (h : v.Mirrors w pairs) (hps : ∀ p ∈ ps, p ∈ pairs) :
    (∀ row ∈ ps.map (·.1), row ∈ v.visible) ∧ ∀ row ∈ ps.map (·.2), row ∈ w.visible := by
  constructor <;>
  · intro row hrow
    obtain ⟨p, hp, rfl⟩ := List.mem_map.1 hrow
    obtain ⟨hvisible, hvisible'⟩ := h.visible (hps p hp)
    assumption

/-- A row on the one side corresponds to one row on the other. -/
theorem Mirrors.mem_map_iff (h : v.Mirrors w pairs) (hv : v.Sound key) (hw : w.Sound key')
    (hps : ∀ p ∈ ps, p ∈ pairs) {p : Nat × Nat} (hp : p ∈ pairs) :
    (p.1 ∈ ps.map (·.1) ↔ p ∈ ps) ∧ (p.2 ∈ ps.map (·.2) ↔ p ∈ ps) := by
  have hnodup : (pairs.map (·.1)).Nodup :=
    (perm_of_sorted h.sorted).nodup_iff.2 hv.nodup_visible
  have hnodup' : (pairs.map (·.2)).Nodup :=
    (perm_of_sorted h.sorted').nodup_iff.2 hw.nodup_visible
  constructor
  · refine ⟨fun hmem => ?_, fun hmem => List.mem_map_of_mem hmem⟩
    obtain ⟨q, hq, heq⟩ := List.mem_map.1 hmem
    obtain rfl := List.inj_on_of_nodup_map hnodup (hps q hq) hp heq
    exact hq
  · refine ⟨fun hmem => ?_, fun hmem => List.mem_map_of_mem hmem⟩
    obtain ⟨q, hq, heq⟩ := List.mem_map.1 hmem
    obtain rfl := List.inj_on_of_nodup_map hnodup' (hps q hq) hp heq
    exact hq

/-- Sets of rows that correspond show the same. -/
theorem Mirrors.showsSame_withFilter (h : v.Mirrors w pairs) (hv : v.Sound key) (hw : w.Sound key')
    {f f' : BitSet} (hf : v.Selects f) (hf' : w.Selects f')
    (hsame : ∀ p ∈ pairs, f.contains p.1 = f'.contains p.2) :
    (v.withFilter f).ShowsSame (w.withFilter f') := by
  have hfst : (pairs.map (·.1)).filter f.contains
      = (pairs.filter fun p => f.contains p.1).map (·.1) := List.filter_map
  have hsnd : (pairs.map (·.2)).filter f'.contains
      = (pairs.filter fun p => f.contains p.1).map (·.2) := by
    rw [List.filter_map]
    exact congrArg (List.map _) (List.filter_congr fun p hp => (hsame p hp).symm)
  have hsorted := hv.sorted_withFilter hf h.sorted
  have hsorted' := hw.sorted_withFilter hf' h.sorted'
  rw [hfst] at hsorted
  rw [hsnd] at hsorted'
  refine (hv.withFilter hf.wellFormed hf.length_eq).showsSame ?_ hsorted hsorted'
  exact h.columns.imp fun _ _ hc p hp => hc.sameCells p (List.mem_filter.1 hp).1

theorem Sound.exists_rowSet (hv : v.Sound key) {rows : List Nat}
    (hrows : ∀ row ∈ rows, row ∈ v.visible) :
    ∃ f, v.rowSet? rows = some f ∧ v.Selects f ∧ ∀ row, f.contains row = decide (row ∈ rows) := by
  obtain ⟨f, hf⟩ := BitSet.ofIndices?_isSome v.totalRows rows fun row hrow =>
    hv.lt_of_visible (hrows row hrow)
  obtain ⟨hwf, hlength, hcontains⟩ := BitSet.ofIndices?_spec hf
  refine ⟨f, hf, ⟨hwf, hlength, fun row hrow => hrows row ?_⟩, hcontains⟩
  rw [hcontains] at hrow
  exact of_decide_eq_true hrow

/-- Keeping rows that correspond. -/
theorem Mirrors.keepRows (h : v.Mirrors w pairs) (hv : v.Sound key) (hw : w.Sound key')
    {rows rows' : List Nat} (hrows : ∀ row ∈ rows, row ∈ v.visible)
    (hrows' : ∀ row ∈ rows', row ∈ w.visible) (hsame : ∀ p ∈ pairs, p.1 ∈ rows ↔ p.2 ∈ rows') :
    SameOutcome ShowsSame (v.keepRows rows) (w.keepRows rows') := by
  obtain ⟨f, hset, hf, hcontains⟩ := hv.exists_rowSet hrows
  obtain ⟨f', hset', hf', hcontains'⟩ := hw.exists_rowSet hrows'
  unfold View.keepRows
  rw [hset, hset']
  refine .ok (h.showsSame_withFilter hv hw hf hf' fun p hp => ?_)
  rw [hcontains, hcontains', decide_eq_decide]
  exact hsame p hp

theorem Mirrors.keepPairs (h : v.Mirrors w pairs) (hv : v.Sound key) (hw : w.Sound key')
    (hps : ∀ p ∈ ps, p ∈ pairs) :
    SameOutcome ShowsSame (v.keepRows (ps.map (·.1))) (w.keepRows (ps.map (·.2))) := by
  obtain ⟨hrows, hrows'⟩ := h.visible_map hps
  refine h.keepRows hv hw hrows hrows' fun p hp => ?_
  obtain ⟨hfst, hsnd⟩ := h.mem_map_iff hv hw hps hp
  exact hfst.trans hsnd.symm

/-! ## Predicates -/

/-- Row by row, expressions have the same values at rows that correspond. -/
theorem Mirrors.rowResults (h : v.Mirrors w pairs) (hv : v.Sound key) (hw : w.Sound key')
    {exprs : List (String × ExprSpec)} {r r' : Resolution} (hr : v.resolve exprs .derive = .ok r)
    (hr' : w.resolve exprs .derive = .ok r')
    (hsame : Resolve.SameResolution (mirroring pairs false) r r') :
    ∃ results results', v.operators r v.groupOf = some results ∧
      w.operators r' w.groupOf = some results' ∧
      List.Forall₂ (fun e e' => e.name = e'.name ∧ ∀ p ∈ pairs,
        e.formula.evalRow results.lookup p.1 = e'.formula.evalRow results'.lookup p.2)
        r.exprs r'.exprs := by
  obtain ⟨results, results', hresults, hresults', haggregate, hwindow⟩ :=
    h.operators_eq hv hw (rowsCorrespond_mirroring pairs false) (registered_of_resolve hr)
      (registered_of_resolve hr') hsame.aggregates hsame.windows v.groupOf w.groupOf
  refine ⟨results, results', hresults, hresults', hsame.exprs.imp fun e e' he =>
    ⟨he.name, fun p hp => he.formula.eval ⟨fun _ => ⟨.some hp, rfl⟩, fun _ ref => ?_⟩⟩⟩
  cases ref with
  | aggregate n => exact congrArg some (haggregate p.1 p.2 n (h.groupOf p hp))
  | window n => exact congrArg some (hwindow p hp n)

/-- The rows at which a predicate is true. -/
theorem Sound.satisfying_eq (hv : v.Sound key) {exprs : List (String × ExprSpec)} {r : Resolution}
    (hr : v.resolve exprs .derive = .ok r) (hexprs : ∀ e ∈ exprs, e.2.escapes = false)
    {e : NamedFormula} (he : e ∈ r.exprs) (results : OperatorResults) :
    v.satisfying e.formula results = some (v.visible.filter fun row =>
      (e.formula.evalRow results.lookup row).any Value.truthy) := by
  unfold satisfying
  rw [← List.map_id (v.visible.filter _)]
  refine filterMapM_eq fun row hrow => ?_
  obtain ⟨x, hx⟩ := hv.exists_evalRow_of_derive hr hexprs he results (hv.lt_of_visible hrow)
  rw [hx]
  rfl

theorem Mirrors.filterBy (h : v.Mirrors w pairs) (hv : v.Sound key) (hw : w.Sound key')
    {predicate : ExprSpec} (hpredicate : predicate.escapes = false) :
    SameOutcome ShowsSame (v.filterBy predicate) (w.filterBy predicate) := by
  have hexprs : ∀ e ∈ [("filter", predicate)], e.2.escapes = false :=
    List.forall_mem_singleton.2 hpredicate
  unfold View.filterBy
  refine (h.resolve_both [] .derive hexprs).bind fun r r' hr hr' hsame => ?_
  obtain ⟨results, results', hresults, hresults', hvalues⟩ := h.rowResults hv hw hr hr' hsame
  have hrows := fun e he => hv.satisfying_eq (e := e) hr hexprs he results
  have hrows' := fun e he => hw.satisfying_eq (e := e) hr' hexprs he results'
  rw [hresults, hresults']
  generalize r.exprs = es, r'.exprs = es' at hvalues hrows hrows'
  cases hvalues with
  | nil => exact .refused _
  | @cons e e' es es' he _ =>
    show SameOutcome ShowsSame (QueryError.ofRead (v.satisfying e.formula results) >>= v.keepRows)
      (QueryError.ofRead (w.satisfying e'.formula results') >>= w.keepRows)
    rw [hrows e List.mem_cons_self, hrows' e' List.mem_cons_self]
    refine h.keepRows hv hw (fun row hrow => (List.mem_filter.1 hrow).1)
      (fun row hrow => (List.mem_filter.1 hrow).1) fun p hp => ?_
    obtain ⟨hvisible, hvisible'⟩ := h.visible hp
    rw [List.mem_filter, List.mem_filter, he.2 p hp]
    exact and_congr_left fun _ => iff_of_true hvisible hvisible'

/-! ## Positions -/

/-- The items at the positions of an interval. -/
theorem interval_map {α : Type} (start : Int) (stop : Option Int) (xs : List α) : ∃ ys : List α,
    (∀ x ∈ ys, x ∈ xs) ∧ ∀ f : α → Nat, interval start stop (xs.map f) = ys.map f := by
  refine ⟨(xs.take (stop.elim xs.length (boundAt xs.length))).drop (boundAt xs.length start),
    fun x hx => List.mem_of_mem_take (List.mem_of_mem_drop hx), fun f => ?_⟩
  unfold interval
  cases stop <;> simp only [List.length_map, List.map_drop, List.map_take, Option.elim]

theorem Mirrors.slice (h : v.Mirrors w pairs) (hv : v.Sound key) (hw : w.Sound key') (start : Int)
    (stop : Option Int) : SameOutcome ShowsSame (v.slice start stop) (w.slice start stop) := by
  choose kept hkept hinterval using fun g => interval_map start stop (v.pairsOf pairs g)
  have hparts : v.partitions true
      = some ((List.range v.groupCount).map fun g => (v.pairsOf pairs g).map (·.1)) := by
    have hindices : v.indices true = some (pairs.map (·.1)) := h.sorted
    unfold View.partitions
    rw [hindices, Option.map_some, h.split.1]
  have hparts' : w.partitions true
      = some ((List.range v.groupCount).map fun g => (v.pairsOf pairs g).map (·.2)) := by
    have hindices : w.indices true = some (pairs.map (·.2)) := h.sorted'
    unfold View.partitions
    rw [hindices, Option.map_some, h.split.2]
  unfold View.slice
  rw [hparts, hparts']
  show SameOutcome ShowsSame (v.keepRows (List.flatMap _ _)) (w.keepRows (List.flatMap _ _))
  rw [List.flatMap_map, List.flatMap_map]
  simp only [hinterval]
  rw [← List.map_flatMap, ← List.map_flatMap]
  refine h.keepPairs hv hw fun p hp => ?_
  obtain ⟨g, -, hp⟩ := List.mem_flatMap.1 hp
  exact v.pairsOf_subset pairs g p (hkept g p hp)

/-! ## Keys of rows -/

/-- Which rows come first with their key depends on the keys alone. -/
theorem firstByKey_map {α : Type} (seen : List (List Value)) (es : List (α × List Value)) :
    ∃ xs : List α,
    (∀ x ∈ xs, x ∈ es.map (·.1)) ∧
      ∀ f : α → Nat, firstByKey seen (es.map fun e => (f e.1, e.2)) = xs.map f := by
  induction es generalizing seen with
  | nil => exact ⟨[], nofun, fun _ => rfl⟩
  | cons e es ih =>
    obtain ⟨x, key⟩ := e
    by_cases hseen : seen.any (Value.sameItems · key) = true
    · obtain ⟨xs, hxs, hfirst⟩ := ih seen
      refine ⟨xs, fun y hy => List.mem_cons_of_mem _ (hxs y hy), fun f => ?_⟩
      rw [List.map_cons, firstByKey, if_pos hseen, hfirst]
    · obtain ⟨xs, hxs, hfirst⟩ := ih (key :: seen)
      refine ⟨x :: xs, fun y hy => ?_, fun f => ?_⟩
      · rcases List.mem_cons.1 hy with rfl | hy
        · exact List.mem_cons_self
        · exact List.mem_cons_of_mem _ (hxs y hy)
      · rw [List.map_cons, firstByKey, if_neg hseen, hfirst, List.map_cons]

theorem Mirrors.keyColumns (h : v.Mirrors w pairs) (names : List String) :
    SameOutcome (List.Forall₂ (Column.SameCells pairs)) (v.keyColumns names)
      (w.keyColumns names) := by
  unfold View.keyColumns
  split
  next =>
    refine .ok (List.forall₂_map_left_iff.2 (List.forall₂_map_right_iff.2 ?_))
    exact List.Forall₂.imp (fun _ _ he => he.2) h.sameCells
  next =>
    refine SameOutcome.mapM fun name _ => ?_
    have hcolumn := h.sameCells.column? name
    generalize v.data.column? name = x, w.data.column? name = y at hcolumn
    cases hcolumn with
    | none => exact .refused _
    | some hc => exact .ok hc

theorem Mirrors.dedupe (h : v.Mirrors w pairs) (hv : v.Sound key) (hw : w.Sound key')
    (names : List String) : SameOutcome ShowsSame (v.dedupe names) (w.dedupe names) := by
  unfold View.dedupe
  refine (h.keyColumns names).bind fun columns columns' _ _ hcolumns => ?_
  have hkeys : (pairs.map (·.1)).mapM (fun row => columns.mapM (·.get? row))
      = (pairs.map (·.2)).mapM fun row => columns'.mapM (·.get? row) :=
    mapM_pairs fun p hp => mapM_of_forall₂ (hcolumns.imp fun _ _ hc => hc p hp)
  rw [h.sorted, h.sorted', Option.bind_eq_bind, Option.bind_some, Option.bind_eq_bind,
    Option.bind_some, hkeys]
  cases (pairs.map (·.2)).mapM fun row => columns'.mapM (·.get? row) with
  | none => exact .refused _
  | some keys =>
    obtain ⟨ps, hps, hfirst⟩ := firstByKey_map [] (pairs.zip keys)
    have hzip : ∀ f : Nat × Nat → Nat, firstByKey [] ((pairs.map f).zip keys) = ps.map f := by
      intro f
      rw [List.zip_map_left]
      exact hfirst f
    show SameOutcome ShowsSame (v.keepRows (firstByKey [] _)) (w.keepRows (firstByKey [] _))
    rw [hzip, hzip]
    refine h.keepPairs hv hw fun p hp => ?_
    obtain ⟨e, he, rfl⟩ := List.mem_map.1 (hps p hp)
    exact (List.of_mem_zip he).1

end View

end ColumnQuery
