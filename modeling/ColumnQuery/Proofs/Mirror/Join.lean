/-
  Views that mirror each other, on the left of a join.

  A condition finds the same pairs of positions on both sides, since keys and predicates have the
  same values at rows that correspond (`Mirrors.find?`). So a join lists rows that correspond,
  beside the same rows of the other view, and makes the very same table (`Mirrors.join_eq`). The
  rows with a match correspond, and so do those without one (`Mirrors.semijoin`,
  `Mirrors.antijoin`). Nothing is asked of the other view.
-/
import ColumnQuery.Proofs.Join.Columns
import ColumnQuery.Proofs.Mirror.Columns

namespace ColumnQuery

/-- An expression of the condition escapes to a function. -/
def JoinCondition.escapes : JoinCondition → Bool
  | shared | columns _ => false
  | keys left right => (left ++ right).any ExprSpec.escapes
  | predicate e => e.escapes

/-- A computed column escapes to a function. -/
def JoinColumns.escapes : JoinColumns → Bool
  | all | selected _ _ => false
  | computed exprs => exprs.any fun e => e.2.escapes

/-- Matchers that find the same at rows that correspond. -/
inductive Matcher.Mirrors (pairs : List (Nat × Nat)) : Matcher → Matcher → Prop
  | keys {left left' right : List Formula} {shared : List String}
      (h : ∀ p ∈ pairs, Formula.evalKey left p.1 = Formula.evalKey left' p.2) :
      Mirrors pairs (.keys left right shared) (.keys left' right shared)
  | predicate {f f' : Formula}
      (h : ∀ p ∈ pairs, ∀ row, Matcher.holds f p.1 row = Matcher.holds f' p.2 row) :
      Mirrors pairs (.predicate f) (.predicate f')

/-! ## Columns of joins -/

/-- Which columns a join has depends on the names of the left ones. -/
theorem JoinColumns.exprs_congr {left left' : Table} {columns : JoinColumns}
    (hnames : left.names = left'.names) (right : Table) (shared : List String) (o : JoinOptions) :
    columns.exprs left right shared o = columns.exprs left' right shared o := by
  have hcolumn : ∀ n, (left.column? n).isNone = (left'.column? n).isNone := by
    intro n
    rw [Bool.eq_iff_iff, Option.isNone_iff_eq_none, Option.isNone_iff_eq_none,
      Table.column?_eq_none_iff, Table.column?_eq_none_iff, hnames]
  cases columns with
  | computed exprs => rfl
  | selected l r =>
    show (JoinSchema.mk l r []).checkedExprs left right o = _
    unfold JoinSchema.checkedExprs JoinSchema.missing?
    simp only [hcolumn]
    rfl
  | all =>
    show (JoinSchema.ofTables left right shared).checkedExprs left right o = _
    unfold JoinSchema.checkedExprs JoinSchema.missing? JoinSchema.ofTables
    simp only [hcolumn, hnames]
    rfl

/-- Columns that are not computed do not escape. -/
theorem JoinSchema.escapes_exprs (s : JoinSchema) (o : JoinOptions) :
    ∀ e ∈ s.exprs o, e.2.escapes = false := by
  intro e he
  rcases List.mem_append.1 he with he | he <;>
  · obtain ⟨n, -, rfl⟩ := List.mem_map.1 he
    rfl

theorem JoinColumns.escapes_exprs {columns : JoinColumns} (hcolumns : columns.escapes = false)
    {left right : Table} {shared : List String} {o : JoinOptions}
    {exprs : List (String × ExprSpec)} (h : columns.exprs left right shared o = .ok exprs) :
    ∀ e ∈ exprs, e.2.escapes = false := by
  have hchecked : ∀ s : JoinSchema, s.checkedExprs left right o = .ok exprs →
      ∀ e ∈ exprs, e.2.escapes = false := by
    intro s hs
    unfold JoinSchema.checkedExprs at hs
    split at hs
    next => cases hs
    next =>
      obtain rfl := Except.ok.inj hs
      exact s.escapes_exprs o
  cases columns with
  | computed es =>
    obtain rfl := Except.ok.inj h
    exact fun e he => Bool.eq_false_iff.2 (List.any_eq_false.1 hcolumns e he)
  | selected l r => exact hchecked _ h
  | all => exact hchecked _ h

namespace Matches

/-! ## The rows of matches -/

/-- The left rows with their matches, wherever the left rows stand. -/
theorem leftRows_map {α : Type} (keepAlone : Bool) (right : Array Nat) (es : List (α × Nat))
    (found : List (Nat × Nat)) : ∃ out : List (Option α × Option Nat),
      (∀ e ∈ out, ∀ x ∈ e.1, x ∈ es.map (·.1)) ∧
      ∀ f : α → Nat, leftRows keepAlone right (es.map fun e => (f e.1, e.2)) found
        = out.map fun e => (e.1.map f, e.2) := by
  induction es generalizing found with
  | nil => exact ⟨[], nofun, fun _ => rfl⟩
  | cons e es ih =>
    obtain ⟨x, position⟩ := e
    obtain ⟨later, hlater, hrest⟩ := ih (found.dropWhile (·.1 == position))
    let own := found.takeWhile (·.1 == position)
    refine ⟨(if own.isEmpty && keepAlone then [(some x, none)]
      else own.map fun p => (some x, right[p.2]?)) ++ later, fun e he y hy => ?_, fun f => ?_⟩
    · rcases List.mem_append.1 he with he | he
      · have hx : e.1 = some x := by
          split at he
          next => rw [List.mem_singleton.1 he]
          next =>
            obtain ⟨p, -, rfl⟩ := List.mem_map.1 he
            rfl
        rw [hx] at hy
        obtain rfl := Option.some.inj hy
        exact List.mem_cons_self
      · exact List.mem_cons_of_mem _ (hlater e he y hy)
    · rw [List.map_cons, leftRows, List.map_append, hrest f]
      refine congrArg (· ++ _) ?_
      show (if (own.isEmpty && keepAlone) = true then _ else _) = List.map _ (ite _ _ _)
      split
      next => rfl
      next => rw [List.map_map]; rfl

theorem outputRows_map {α : Type} (xs : List α) (right : List Nat) (found : List (Nat × Nat))
    (keepLeft keepRight : Bool) : ∃ out : List (Option α × Option Nat),
      (∀ e ∈ out, ∀ x ∈ e.1, x ∈ xs) ∧
      ∀ f : α → Nat, (Matches.mk (xs.map f) right found).outputRows keepLeft keepRight
        = out.map fun e => (e.1.map f, e.2) := by
  obtain ⟨out, hout, hrows⟩ := leftRows_map keepLeft right.toArray xs.zipIdx found
  let alone : List (Option α × Option Nat) :=
    if keepRight then (Matches.mk [] right found).unmatchedRight.map fun row => (none, some row)
    else []
  refine ⟨out ++ alone, fun e he x hx => ?_, fun f => ?_⟩
  · rcases List.mem_append.1 he with he | he
    · obtain ⟨⟨y, i⟩, hy, rfl⟩ := List.mem_map.1 (hout e he x hx)
      exact (List.mem_zipIdx' hy).2 ▸ List.getElem_mem _
    · have hnone : e.1 = none := by
        dsimp only [alone] at he
        split at he
        next =>
          obtain ⟨row, -, rfl⟩ := List.mem_map.1 he
          rfl
        next => cases he
      rw [hnone] at hx
      cases hx
  · have hzip : (xs.map f).zipIdx = xs.zipIdx.map fun e => (f e.1, e.2) := List.zipIdx_map ..
    unfold outputRows
    rw [List.map_append, hzip, hrows f]
    refine congrArg (_ ++ ·) ?_
    dsimp only [alone]
    cases keepRight with
    | false => rfl
    | true =>
      simp only [if_true, List.map_map]
      rfl

/-- The left rows with a match, wherever they stand. -/
theorem matchedLeft_map {α : Type} (xs : List α) (f : α → Nat) (right : List Nat)
    (found : List (Nat × Nat)) : (Matches.mk (xs.map f) right found).matchedLeft
      = (found.filterMap fun p => xs[p.1]?).map f := by
  unfold matchedLeft
  rw [List.map_filterMap]
  exact List.filterMap_congr fun p _ => List.getElem?_map

end Matches

namespace View

variable {v w : View} {pairs : List (Nat × Nat)} {key key' : RowKey} {condition : JoinCondition}

/-! ## Conditions -/

/-- Keys of the left rows. -/
theorem Mirrors.resolveKeys (h : v.Mirrors w pairs) {keys : List ExprSpec}
    (hkeys : ∀ e ∈ keys, e.escapes = false) :
    SameOutcome (fun fs fs' => ∀ p ∈ pairs, Formula.evalKey fs p.1 = Formula.evalKey fs' p.2)
      (Matcher.resolveKeys v keys) (Matcher.resolveKeys w keys) := by
  unfold Matcher.resolveKeys
  refine (h.resolve_both [] .rows fun e he => ?_).bind fun r r' _ _ hsame => .ok fun p hp => ?_
  · obtain ⟨⟨k, i⟩, hk, rfl⟩ := List.mem_map.1 he
    exact hkeys k ((List.mem_zipIdx' hk).2 ▸ List.getElem_mem _)
  · refine mapM_of_forall₂ (List.forall₂_map_left_iff.2 (List.forall₂_map_right_iff.2 ?_))
    exact hsame.exprs.imp fun _ _ he =>
      he.formula.eval ⟨fun _ => ⟨.some hp, rfl⟩, fun _ _ => rfl⟩

/-- Keys on both sides; those of the other view are the same. -/
theorem Mirrors.ofKeys (h : v.Mirrors w pairs) (other : View) {left : List ExprSpec}
    (hleft : ∀ e ∈ left, e.escapes = false) (right : List ExprSpec) (shared : List String) :
    SameOutcome (Matcher.Mirrors pairs) (Matcher.ofKeys v other left right shared)
      (Matcher.ofKeys w other left right shared) := by
  unfold Matcher.ofKeys
  refine (h.resolveKeys hleft).bind fun fs fs' _ _ hkeys => ?_
  refine (SameOutcome.refl _).bind fun right right' _ _ hright => ?_
  subst hright
  exact .ok (.keys hkeys)

theorem Mirrors.ofColumns (h : v.Mirrors w pairs) (other : View) (names : List String) :
    SameOutcome (Matcher.Mirrors pairs) (Matcher.ofColumns v other names)
      (Matcher.ofColumns w other names) := by
  refine h.ofKeys other (fun e he => ?_) _ _
  obtain ⟨n, -, rfl⟩ := List.mem_map.1 he
  rfl

/-- A column is there on both sides or on none. -/
theorem Mirrors.isNone_column? (h : v.Mirrors w pairs) (name : String) :
    (v.data.column? name).isNone = (w.data.column? name).isNone := by
  have hcolumn := h.sameCells.column? name
  generalize v.data.column? name = x, w.data.column? name = y at hcolumn
  cases hcolumn <;> rfl

theorem Mirrors.resolvePair (h : v.Mirrors w pairs) (other : View)
    {exprs : List (String × ExprSpec)} (hexprs : ∀ e ∈ exprs, e.2.escapes = false) :
    SameOutcome (Resolve.SameResolution (mirroring pairs false)) (Matcher.resolvePair v other exprs)
      (Matcher.resolvePair w other exprs) := h.resolve_both [other.data] .joined hexprs

/-- A condition is refused for the same reason on both sides, or finds the same. -/
theorem Mirrors.resolveCondition (h : v.Mirrors w pairs) (other : View)
    (hcondition : condition.escapes = false) :
    SameOutcome (Matcher.Mirrors pairs) (Matcher.resolveCondition v other condition)
      (Matcher.resolveCondition w other condition) := by
  have hnames : Matcher.sharedColumns v other = Matcher.sharedColumns w other := by
    unfold Matcher.sharedColumns
    rw [h.sameCells.names]
  cases condition with
  | shared =>
    rw [Matcher.resolveCondition, Matcher.resolveCondition, hnames]
    split
    next => exact .refused _
    next => exact h.ofColumns other _
  | columns names =>
    rw [Matcher.resolveCondition, Matcher.resolveCondition]
    simp only [h.isNone_column?]
    split
    next => exact .refused _
    next => exact h.ofColumns other names
  | keys left right =>
    have hleft : ∀ e ∈ left, e.escapes = false := fun e he =>
      Bool.eq_false_iff.2 (List.any_eq_false.1 hcondition e (List.mem_append_left _ he))
    rw [Matcher.resolveCondition, Matcher.resolveCondition]
    split
    next => exact .refused _
    next => exact h.ofKeys other hleft right []
  | predicate e =>
    have hexprs : ∀ d ∈ [("on", e)], d.2.escapes = false := List.forall_mem_singleton.2 hcondition
    rw [Matcher.resolveCondition, Matcher.resolveCondition]
    refine (h.resolvePair other hexprs).bind fun r r' _ _ hsame => ?_
    have hformulas := hsame.exprs
    generalize r.exprs = es, r'.exprs = es' at hformulas
    cases hformulas with
    | nil => exact .refused _
    | cons he _ =>
      refine .ok (.predicate fun p hp row => ?_)
      exact congrArg (Option.map Value.truthy)
        (he.formula.eval ⟨fun _ => ⟨.some hp, rfl⟩, fun _ _ => rfl⟩)

/-! ## Matches -/

/-- The same positions match. -/
theorem pairs_of_mirrors {m m' : Matcher} (hm : m.Mirrors pairs m') (right : List Nat) :
    m.pairs (pairs.map (·.1)) right = m'.pairs (pairs.map (·.2)) right := by
  cases hm with
  | @keys left left' _ _ hkeys =>
    have hrows : Matcher.rowKeys left (pairs.map (·.1)) = Matcher.rowKeys left' (pairs.map (·.2)) :=
      mapM_pairs fun p hp => congrArg (Option.map Matcher.validKey) (hkeys p hp)
    unfold Matcher.pairs
    dsimp only
    rw [hrows]
  | @predicate f f' hholds =>
    have hrows : List.Forall₂ (fun a b => ∀ row, Matcher.holds f a row = Matcher.holds f' b row)
        (pairs.map (·.1)) (pairs.map (·.2)) := by
      rw [List.forall₂_map_left_iff, List.forall₂_map_right_iff, List.forall₂_same]
      exact hholds
    unfold Matcher.pairs Matcher.satisfyingPairs
    dsimp only
    rw [mapM_of_forall₂ ((forall₂_zipIdx hrows 0).imp fun a b hab => ?_)]
    obtain ⟨l, lp⟩ := a
    obtain ⟨l', lp'⟩ := b
    obtain ⟨hl, rfl⟩ := hab
    simp only [hl]

/-- The matches on both sides are the same, with left rows that correspond. -/
theorem Mirrors.find? (h : v.Mirrors w pairs) (other : View) {m m' : Matcher}
    (hm : m.Mirrors pairs m') :
    Option.Rel (fun found found' => ∃ right ps, found = ⟨pairs.map (·.1), right, ps⟩ ∧
      found' = ⟨pairs.map (·.2), right, ps⟩) (Matches.find? v other m)
      (Matches.find? w other m') := by
  unfold Matches.find?
  rw [h.sorted, h.sorted', Option.bind_eq_bind, Option.bind_some, Option.bind_eq_bind,
    Option.bind_some]
  cases other.sorted with
  | none => exact .none
  | some right =>
    rw [Option.bind_some, Option.bind_some, pairs_of_mirrors hm]
    cases m'.pairs (pairs.map (·.2)) right with
    | none => exact .none
    | some ps => exact .some ⟨right, ps, rfl, rfl⟩

/-! ## Joins -/

/-- Expressions have the same values at rows that correspond, beside any row of the other view. -/
theorem pairCells_eq {r r' : Resolution}
    (hsame : Resolve.SameResolution (mirroring pairs false) r r')
    {out : List (Option (Nat × Nat) × Option Nat)} (hout : ∀ e ∈ out, ∀ p ∈ e.1, p ∈ pairs)
    (t : Table) :
    r.exprs.foldlM (setPairColumn (out.map fun e => (e.1.map (·.1), e.2))) t
      = r'.exprs.foldlM (setPairColumn (out.map fun e => (e.1.map (·.2), e.2))) t := by
  rw [setPairColumn_eq, setPairColumn_eq]
  refine foldlM_setCells_congr t (hsame.exprs.imp fun e e' he => ⟨he.name, ?_⟩)
  refine mapM_of_forall₂ ?_
  rw [List.forall₂_map_left_iff, List.forall₂_map_right_iff, List.forall₂_same]
  rintro ⟨p, row⟩ hp
  refine he.formula.eval ⟨fun _ => ⟨?_, rfl⟩, fun _ _ => rfl⟩
  cases p with
  | none => exact .none
  | some p => exact .some (hout _ hp p rfl)

/-- A join gives the same on both sides. -/
theorem Mirrors.join_eq (h : v.Mirrors w pairs) (other : View)
    (hcondition : condition.escapes = false) {columns : JoinColumns}
    (hcolumns : columns.escapes = false) (o : JoinOptions) :
    v.join other condition columns o = w.join other condition columns o := by
  unfold View.join
  refine ((h.resolveCondition other hcondition).bind fun m m' _ _ hm => ?_).eq
  have hshared : m.shared = m'.shared := by cases hm <;> rfl
  rw [hshared, JoinColumns.exprs_congr h.sameCells.names]
  refine (SameOutcome.refl _).bind fun exprs exprs' hexprs _ heq => ?_
  subst heq
  refine (h.resolvePair other (JoinColumns.escapes_exprs hcolumns hexprs)).bind
    fun r r' _ _ hsame => ?_
  refine (SameOutcome.ofRead (h.find? other hm)).bind fun found found' _ _ hfound => ?_
  obtain ⟨right, ps, rfl, rfl⟩ := hfound
  obtain ⟨out, hout, hrows⟩ := Matches.outputRows_map pairs right ps o.keepLeft o.keepRight
  have hfresh : v.fresh = w.fresh := by
    funext t
    unfold fresh
    rw [h.params]
  refine .of_eq ?_ fun _ _ => rfl
  dsimp only
  rw [hrows, hrows, List.length_map, List.length_map, pairCells_eq hsame hout, hfresh]

theorem Mirrors.join (h : v.Mirrors w pairs) (other : View)
    (hcondition : condition.escapes = false) {columns : JoinColumns}
    (hcolumns : columns.escapes = false) (o : JoinOptions) :
    SameOutcome ShowsSame (v.join other condition columns o)
      (w.join other condition columns o) :=
  .of_eq (h.join_eq other hcondition hcolumns o) fun _ hx =>
    (sound_of_join (fun _ => none) hx).showsSame_self

/-! ## Rows with and without a match -/

/-- The rows that match something correspond. -/
theorem Mirrors.matchedRows (h : v.Mirrors w pairs) (hv : v.Sound key) (hw : w.Sound key')
    (other : View) (hcondition : condition.escapes = false) :
    SameOutcome (fun f f' => v.Selects f ∧ w.Selects f' ∧
      ∀ p ∈ pairs, f.contains p.1 = f'.contains p.2)
      (v.matchedRows other condition) (w.matchedRows other condition) := by
  unfold View.matchedRows View.matching
  refine (((h.resolveCondition other hcondition).bind fun m m' _ _ hm =>
    SameOutcome.ofRead (h.find? other hm))).bind fun found found' _ _ hfound => ?_
  obtain ⟨right, found, rfl, rfl⟩ := hfound
  rw [Matches.matchedLeft_map, Matches.matchedLeft_map]
  let ps := found.filterMap fun p => pairs[p.1]?
  have hps : ∀ p ∈ ps, p ∈ pairs := fun p hp => by
    obtain ⟨i, -, hi⟩ := List.mem_filterMap.1 hp
    exact List.mem_of_getElem? hi
  obtain ⟨hrows, hrows'⟩ := h.visible_map hps
  obtain ⟨f, hset, hf, hcontains⟩ := hv.exists_rowSet hrows
  obtain ⟨f', hset', hf', hcontains'⟩ := hw.exists_rowSet hrows'
  rw [hset, hset']
  refine .ok ⟨hf, hf', fun p hp => ?_⟩
  obtain ⟨hfst, hsnd⟩ := h.mem_map_iff hv hw hps hp
  rw [hcontains, hcontains', decide_eq_decide]
  exact hfst.trans hsnd.symm

theorem Mirrors.semijoin (h : v.Mirrors w pairs) (hv : v.Sound key) (hw : w.Sound key')
    (other : View) (hcondition : condition.escapes = false) :
    SameOutcome ShowsSame (v.semijoin other condition) (w.semijoin other condition) := by
  unfold View.semijoin
  refine (h.matchedRows hv hw other hcondition).bind fun f f' _ _ hf => .ok ?_
  exact h.showsSame_withFilter hv hw hf.1 hf.2.1 hf.2.2

/-- An antijoin leaves the other visible rows. -/
theorem Sound.antijoin_eq (hv : v.Sound key) {other : View} {f : BitSet}
    (hmatched : v.matchedRows other condition = .ok f) (hf : v.Selects f) :
    ∃ rest, v.Selects rest ∧ (∀ row ∈ v.visible, rest.contains row = !f.contains row) ∧
      v.antijoin other condition = .ok (v.withFilter rest) := by
  have hlength : f.complement.length = v.totalRows := hf.length_eq
  have hcomplement : ∀ row ∈ v.visible, f.complement.contains row = !f.contains row := by
    intro row hrow
    rw [BitSet.contains_complement hf.wellFormed, hf.length_eq,
      decide_eq_true (hv.lt_of_visible hrow), Bool.true_and]
  unfold View.antijoin
  rw [hmatched]
  cases hfilter : v.filter with
  | none =>
    refine ⟨f.complement, ⟨hf.wellFormed.complement, hlength, fun row hrow => ?_⟩, hcomplement,
      rfl⟩
    rw [hv.mem_visible]
    refine ⟨hlength ▸ hf.wellFormed.complement.lt_length row hrow, ?_⟩
    unfold shows
    rw [hfilter]
  | some old =>
    obtain ⟨hold, holdLength⟩ := hv.filter old hfilter
    have hshows : ∀ row, v.shows row = old.contains row := by
      intro row
      unfold shows
      rw [hfilter]
    have hinter : f.complement.inter? old = some (f.complement.inter old) :=
      BitSet.inter?_eq_some_iff.2 ⟨hlength.trans holdLength.symm, rfl⟩
    refine ⟨f.complement.inter old, ⟨hf.wellFormed.complement.inter hold
      (hlength.trans holdLength.symm), hlength, fun row hrow => ?_⟩, fun row hrow => ?_, ?_⟩
    · rw [BitSet.contains_inter, Bool.and_eq_true] at hrow
      rw [hv.mem_visible, hshows]
      exact ⟨holdLength ▸ hold.lt_length row hrow.2, hrow.2⟩
    · have hshown := ((hv.mem_visible row).1 hrow).2
      rw [hshows] at hshown
      rw [BitSet.contains_inter, hcomplement row hrow, hshown, Bool.and_true]
    · show (QueryError.ofRead (f.complement.inter? old) >>= _) = _
      rw [hinter]
      rfl

theorem Mirrors.antijoin (h : v.Mirrors w pairs) (hv : v.Sound key) (hw : w.Sound key')
    (other : View) (hcondition : condition.escapes = false) :
    SameOutcome ShowsSame (v.antijoin other condition) (w.antijoin other condition) := by
  have hmatched := h.matchedRows hv hw other hcondition
  generalize hx : v.matchedRows other condition = x,
    hy : w.matchedRows other condition = y at hmatched
  cases hmatched with
  | refused e =>
    unfold View.antijoin
    rw [hx, hy]
    exact .refused e
  | ok hfs =>
    obtain ⟨hf, hf', hsame⟩ := hfs
    obtain ⟨rest, hrest, hcontains, heq⟩ := hv.antijoin_eq hx hf
    obtain ⟨rest', hrest', hcontains', heq'⟩ := hw.antijoin_eq hy hf'
    rw [heq, heq']
    refine .ok (h.showsSame_withFilter hv hw hrest hrest' fun p hp => ?_)
    obtain ⟨hvisible, hvisible'⟩ := h.visible hp
    rw [hcontains p.1 hvisible, hcontains' p.2 hvisible', hsame p hp]

end View

end ColumnQuery
