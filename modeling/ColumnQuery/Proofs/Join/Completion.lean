/-
  The rows of a join.

  `completedRows` says what a join lists: the left rows in order, each with its matches in order,
  or once without a right row if it has none and left rows are kept; then the right rows that no
  left row matches, if those are kept. The join itself walks the list of matches with a cursor and
  marks the right positions that it comes by. As the matches are the pairs of a nested loop, the
  cursor stands at the first match of every left row when the row comes up (`leftRows_blocks`),
  and the marks are the positions of the right rows with a match (`contains_matchedRight`).

  So nothing is lost or listed twice (`length_completedRows`), and the table of a join has the
  values of its columns at these pairs of rows (`join_rows`).
-/
import ColumnQuery.Proofs.Join.Matches
import ColumnQuery.Proofs.View.Computed
import Mathlib.Algebra.Ring.Nat
import Mathlib.Data.List.TakeWhile

namespace ColumnQuery

/-! ## The pairs that a join lists -/

section Completed

variable {α β : Type}

/-- The right items that match a left one; the left item alone, if it matches none and is kept. -/
def ownRows (test : α → β → Bool) (keepLeft : Bool) (right : List β) (a : α) :
    List (Option α × Option β) :=
  let own := right.filter (test a)
  if own.isEmpty && keepLeft then [(some a, none)] else own.map fun b => (some a, some b)

/-- The right items that match no left one. -/
def unmatchedItems (test : α → β → Bool) (left : List α) (right : List β) : List β :=
  right.filter fun b => !left.any fun a => test a b

/-- The left items with the right ones that they match, then the right items without a match. -/
def completedRows (test : α → β → Bool) (keepLeft keepRight : Bool) (left : List α)
    (right : List β) : List (Option α × Option β) :=
  left.flatMap (ownRows test keepLeft right)
    ++ if keepRight then (unmatchedItems test left right).map fun b => (none, some b) else []

theorem length_ownRows (test : α → β → Bool) (keepLeft : Bool) (right : List β) (a : α) :
    (ownRows test keepLeft right a).length = right.countP (test a)
      + if keepLeft && !right.any (test a) then 1 else 0 := by
  unfold ownRows
  have hempty : (right.filter (test a)).isEmpty = !right.any (test a) := by
    rw [Bool.eq_iff_iff]
    simp
  dsimp only
  rw [hempty, List.countP_eq_length_filter, Bool.and_comm]
  split
  next hnone =>
    rw [Bool.and_eq_true, ← hempty, List.isEmpty_iff] at hnone
    rw [hnone.2]
    rfl
  next => exact List.length_map _

theorem length_nestedLoop (test : α → β → Bool) (left : List α) (right : List β) :
    (nestedLoop test left right).length = (left.map fun a => right.countP (test a)).sum := by
  unfold nestedLoop
  rw [List.length_flatMap]
  have hblock : (fun p : α × Nat => (List.map (fun b : β × Nat => (p.2, b.2))
      (List.filter (fun b => test p.1 b.1) right.zipIdx)).length)
      = (fun a => right.countP (test a)) ∘ Prod.fst := by
    funext p
    rw [List.length_map, ← List.countP_eq_length_filter]
    show _ = right.countP (test p.1)
    conv_rhs => rw [← List.zipIdx_map_fst 0 right, List.countP_map]
    rfl
  rw [hblock, ← List.map_map, List.zipIdx_map_fst]

theorem mem_of_mem_completedRows {test : α → β → Bool} {keepLeft keepRight : Bool}
    {left : List α} {right : List β} {p : Option α × Option β}
    (h : p ∈ completedRows test keepLeft keepRight left right) :
    (∀ a ∈ p.1, a ∈ left) ∧ ∀ b ∈ p.2, b ∈ right := by
  rcases List.mem_append.1 h with h | h
  · obtain ⟨a, ha, h⟩ := List.mem_flatMap.1 h
    unfold ownRows at h
    dsimp only at h
    split at h
    next =>
      obtain rfl := List.mem_singleton.1 h
      exact ⟨fun _ h => Option.some.inj h ▸ ha, (fun _ h => nomatch h)⟩
    next =>
      obtain ⟨b, hb, rfl⟩ := List.mem_map.1 h
      exact ⟨fun _ h => Option.some.inj h ▸ ha,
        fun _ h => Option.some.inj h ▸ (List.mem_filter.1 hb).1⟩
  · split at h
    next =>
      obtain ⟨b, hb, rfl⟩ := List.mem_map.1 h
      exact ⟨(fun _ h => nomatch h), fun _ h => Option.some.inj h ▸ (List.mem_filter.1 hb).1⟩
    next => cases h

/-- There is a row for every match and for every item that is kept without one. -/
theorem length_completedRows (test : α → β → Bool) (keepLeft keepRight : Bool) (left : List α)
    (right : List β) : (completedRows test keepLeft keepRight left right).length
      = (nestedLoop test left right).length
        + (if keepLeft then left.countP fun a => !right.any (test a) else 0)
        + if keepRight then (unmatchedItems test left right).length else 0 := by
  have hleft : (left.flatMap (ownRows test keepLeft right)).length
      = (nestedLoop test left right).length
        + if keepLeft then left.countP fun a => !right.any (test a) else 0 := by
    rw [length_nestedLoop, List.length_flatMap]
    induction left with
    | nil => cases keepLeft <;> rfl
    | cons a left ih =>
      rw [List.map_cons, List.sum_cons, ih, List.map_cons, List.sum_cons, length_ownRows,
        List.countP_cons]
      cases keepLeft <;> cases right.any (test a) <;> simp <;> omega
  unfold completedRows
  rw [List.length_append, hleft]
  cases keepRight <;> simp

end Completed

namespace Matches

variable {test : Nat → Nat → Bool}

/-! ## The left rows -/

/-- The pairs of positions of one left row. -/
def block (test : Nat → Nat → Bool) (right : List Nat) (a : Nat × Nat) : List (Nat × Nat) :=
  (right.zipIdx.filter fun b => test a.1 b.1).map fun b => (a.2, b.2)

theorem fst_of_mem_block {right : List Nat} {a p : Nat × Nat} (h : p ∈ block test right a) :
    p.1 = a.2 := by
  obtain ⟨_, _, rfl⟩ := List.mem_map.1 h
  rfl

theorem map_block (right : List Nat) (row position : Nat) :
    ((block test right (row, position)).map fun p => (some row, right.toArray[p.2]?))
      = (right.filter (test row)).map fun b => (some row, some b) := by
  unfold block
  have hfilter : right.filter (test row)
      = (right.zipIdx.filter fun b => test row b.1).map Prod.fst := by
    conv_lhs => rw [← List.zipIdx_map_fst 0 right, List.filter_map]
    rfl
  rw [hfilter, List.map_map, List.map_map]
  refine List.map_congr_left fun b hb => ?_
  have hb : right[b.2]? = some b.1 := List.mem_zipIdx_iff_getElem?.1 (List.mem_filter.1 hb).1
  simp [hb]

/-- With the pairs in blocks, one for each left row, every row takes its own block. -/
theorem leftRows_blocks (keepLeft : Bool) (right left : List Nat) (first : Nat) :
    leftRows keepLeft right.toArray (left.zipIdx first)
        ((left.zipIdx first).flatMap (block test right))
      = left.flatMap (ownRows test keepLeft right) := by
  induction left generalizing first with
  | nil => rfl
  | cons row left ih =>
    have hown : ∀ p ∈ block test right (row, first), (p.1 == first) = true :=
      fun p hp => beq_iff_eq.2 (fst_of_mem_block hp)
    -- the rows to come have later positions
    have hlater : ∀ p ∈ (left.zipIdx (first + 1)).flatMap (block test right),
        ¬ (p.1 == first) = true := by
      intro p hp hfirst
      obtain ⟨a, ha, hp⟩ := List.mem_flatMap.1 hp
      have hge := List.le_snd_of_mem_zipIdx ha
      rw [← fst_of_mem_block hp, beq_iff_eq.1 hfirst] at hge
      omega
    have htake : (block test right (row, first)
        ++ (left.zipIdx (first + 1)).flatMap (block test right)).takeWhile (·.1 == first)
        = block test right (row, first) := by
      rw [List.takeWhile_append_of_pos hown, List.takeWhile_eq_nil_iff.2, List.append_nil]
      exact fun _ => hlater _ (List.getElem_mem _)
    have hdrop : (block test right (row, first)
        ++ (left.zipIdx (first + 1)).flatMap (block test right)).dropWhile (·.1 == first)
        = (left.zipIdx (first + 1)).flatMap (block test right) := by
      rw [List.dropWhile_append_of_pos hown, List.dropWhile_eq_self_iff.2]
      exact fun _ => hlater _ (List.getElem_mem _)
    have hmatched : (block test right (row, first)).map _ = _ := map_block right row first
    have hempty := congrArg List.isEmpty hmatched
    rw [List.isEmpty_map, List.isEmpty_map] at hempty
    rw [List.zipIdx_cons, List.flatMap_cons, List.flatMap_cons, leftRows, htake, hdrop, ih, hempty,
      hmatched]
    rfl

/-! ## The right rows -/

/-- The marked positions are those of a pair. -/
theorem contains_matchedRight {m : Matches} (h : ∀ p ∈ m.pairs, p.2 < m.right.length) (j : Nat) :
    m.matchedRight.contains j = true ↔ ∃ p ∈ m.pairs, p.2 = j := by
  have hinside : ∀ i ∈ m.pairs.map Prod.snd, i < m.right.length := by
    intro i hi
    obtain ⟨p, hp, rfl⟩ := List.mem_map.1 hi
    exact h p hp
  have hmarked : BitSet.ofIndices? m.right.length (m.pairs.map Prod.snd)
      = some m.matchedRight := by
    unfold matchedRight
    rw [← List.foldl_map]
    exact BitSet.foldlM_insert?_eq_foldl _ _ hinside
  rw [(BitSet.ofIndices?_spec hmarked).2.2, decide_eq_true_iff, List.mem_map]

theorem unmatchedRight_eq {m : Matches} (h : m.pairs = nestedLoop test m.left m.right) :
    m.unmatchedRight = unmatchedItems test m.left m.right := by
  have hinside : ∀ p ∈ m.pairs, p.2 < m.right.length := by
    intro p hp
    rw [h] at hp
    obtain ⟨_, _, -, hright, -⟩ := mem_nestedLoop.1 hp
    exact (List.getElem?_eq_some_iff.1 hright).1
  have hmarked : ∀ e ∈ m.right.zipIdx, (!m.matchedRight.contains e.2)
      = !m.left.any fun a => test a e.1 := by
    intro e he
    have he := List.mem_zipIdx_iff_getElem?.1 he
    congr 1
    rw [Bool.eq_iff_iff, contains_matchedRight hinside, List.any_eq_true, h]
    constructor
    · rintro ⟨p, hp, hposition⟩
      obtain ⟨a, b, ha, hb, htest⟩ := mem_nestedLoop.1 hp
      rw [hposition, he] at hb
      obtain rfl := Option.some.inj hb
      exact ⟨a, List.mem_of_getElem? ha, htest⟩
    · rintro ⟨a, ha, htest⟩
      obtain ⟨i, hi⟩ := List.mem_iff_getElem?.1 ha
      exact ⟨(i, e.2), mem_nestedLoop.2 ⟨a, e.1, hi, he, htest⟩, rfl⟩
  unfold unmatchedRight unmatchedItems
  rw [List.filter_congr hmarked]
  conv_rhs => rw [← List.zipIdx_map_fst 0 m.right, List.filter_map]
  rfl

/-- The rows of a join with the matches of a nested loop. -/
theorem outputRows_eq {m : Matches} (h : m.pairs = nestedLoop test m.left m.right)
    (keepLeft keepRight : Bool) :
    m.outputRows keepLeft keepRight = completedRows test keepLeft keepRight m.left m.right := by
  unfold outputRows completedRows
  rw [unmatchedRight_eq h, h]
  exact congrArg (· ++ _) (leftRows_blocks keepLeft m.right m.left 0)

end Matches

namespace View

variable {v w : View} {m : Matcher}

/-! ## The table of a join -/

theorem setPairColumn_eq (rows : List (Option Nat × Option Nat)) :
    setPairColumn rows
      = setCells fun e => rows.mapM fun p => e.formula.eval (.ofPosition ⟨p.1, p.2⟩) := by
  funext t e
  rfl

/-- A join whose columns resolve has a row for every pair of rows that it lists, with the values
    of the columns there. -/
theorem join_spec {condition : JoinCondition} {columns : JoinColumns} {o : JoinOptions}
    {exprs : List (String × ExprSpec)} {r : Resolution} {found : Matches}
    (hm : Matcher.resolveCondition v w condition = .ok m)
    (hcolumns : columns.exprs v.data w.data m.shared o = .ok exprs)
    (hr : Matcher.resolvePair v w exprs = .ok r) (hfound : Matches.find? v w m = some found)
    (hvalue : ∀ e ∈ r.exprs, ∀ p ∈ found.outputRows o.keepLeft o.keepRight,
      ∃ x, e.formula.eval (.ofPosition ⟨p.1, p.2⟩) = some x) :
    ∃ joined, v.join w condition columns o = .ok joined ∧
      joined.totalRows = (found.outputRows o.keepLeft o.keepRight).length ∧
      ∀ i p, (found.outputRows o.keepLeft o.keepRight)[i]? = some p → ∀ name,
        joined.data.valueAt? name i
          = (lastNamed? r.exprs name).bind fun e => e.formula.eval (.ofPosition ⟨p.1, p.2⟩) := by
  have hcells : ∀ e ∈ r.exprs, ∃ values,
      ((found.outputRows o.keepLeft o.keepRight).mapM fun p =>
        e.formula.eval (.ofPosition ⟨p.1, p.2⟩)) = some values ∧
        values.length = (found.outputRows o.keepLeft o.keepRight).length := by
    intro e he
    obtain ⟨values, hvalues⟩ := exists_mapM _ _ (hvalue e he)
    exact ⟨values, hvalues, length_of_mapM hvalues⟩
  obtain ⟨t, ht, hcount, hspec⟩ := foldlM_setCells r.exprs
    (.withRows (found.outputRows o.keepLeft o.keepRight).length) hcells
  refine ⟨v.fresh t, ?_, hcount, fun i p hp name => ?_⟩
  · rw [← setPairColumn_eq] at ht
    unfold join
    rw [hm]
    show (columns.exprs v.data w.data m.shared o >>= _) = _
    rw [hcolumns]
    show (Matcher.resolvePair v w exprs >>= _) = _
    rw [hr]
    show (QueryError.ofRead (Matches.find? v w m) >>= _) = _
    rw [hfound]
    show (r.exprs.foldlM (setPairColumn (found.outputRows o.keepLeft o.keepRight)) _ >>= _) = _
    rw [ht]
    rfl
  · show t.valueAt? name i = _
    rw [hspec]
    cases hlast : lastNamed? r.exprs name with
    | none => rfl
    | some e =>
      obtain ⟨values, hvalues, -⟩ := hcells e (mem_of_lastNamed? hlast)
      dsimp only
      rw [hvalues, Option.bind_some, getElem?_of_mapM hvalues, hp]
      rfl

/-- Of sound views every join whose columns resolve has its table. -/
theorem Sound.join_spec {key key' : RowKey} (hv : v.Sound key) (hw : w.Sound key')
    {condition : JoinCondition} {columns : JoinColumns} {o : JoinOptions}
    {exprs : List (String × ExprSpec)} {r : Resolution} {found : Matches}
    (hm : Matcher.resolveCondition v w condition = .ok m)
    (hcolumns : columns.exprs v.data w.data m.shared o = .ok exprs)
    (hvalues : ∀ e ∈ exprs, e.2.Answers [v.data, w.data] v.params)
    (hr : Matcher.resolvePair v w exprs = .ok r) (hfound : Matches.find? v w m = some found)
    (hleft : v.sorted = some found.left) (hright : w.sorted = some found.right)
    (hpairs : found.pairs = nestedLoop m.joins found.left found.right) :
    ∃ joined, v.join w condition columns o = .ok joined ∧
      joined.totalRows = (found.outputRows o.keepLeft o.keepRight).length ∧
      ∀ i p, (found.outputRows o.keepLeft o.keepRight)[i]? = some p → ∀ name,
        joined.data.valueAt? name i
          = (lastNamed? r.exprs name).bind fun e => e.formula.eval (.ofPosition ⟨p.1, p.2⟩) := by
  have htables : ∀ table ∈ [v.data, w.data], table.WellFormed :=
    List.forall_mem_cons.2 ⟨hv.table, List.forall_mem_singleton.2 hw.table⟩
  refine View.join_spec hm hcolumns hr hfound fun e he p hp => ?_
  rw [Matches.outputRows_eq hpairs] at hp
  obtain ⟨hl, hr'⟩ := mem_of_mem_completedRows hp
  exact valued_of_resolve htables hvalues hr e he _ (Matcher.within_pair
    (fun l h => hv.lt_of_sorted hleft (hl l h)) fun r h => hw.lt_of_sorted hright (hr' r h))

end View

/-- A join lists the left rows in order with their matches, each left row without a match once if
    it is kept, and then each right row without a match once if those are kept; its table has
    just these rows. -/
theorem join_rows {v w : View} (hv : Reachable v) (hw : Reachable w) {condition : JoinCondition}
    (hanswers : condition.Answers v w) {m : Matcher}
    (hm : Matcher.resolveCondition v w condition = .ok m) :
    ∃ found, Matches.find? v w m = some found ∧
      v.sorted = some found.left ∧ w.sorted = some found.right ∧
      found.pairs = nestedLoop m.joins found.left found.right ∧
      (∀ keepLeft keepRight, found.outputRows keepLeft keepRight
        = completedRows m.joins keepLeft keepRight found.left found.right) ∧
      (∀ keepLeft keepRight, (found.outputRows keepLeft keepRight).length
        = found.pairs.length
          + (if keepLeft then found.left.countP fun l => !found.right.any (m.joins l) else 0)
          + if keepRight then found.right.countP fun r => !found.left.any (m.joins · r) else 0) ∧
      ∀ columns o exprs r, columns.exprs v.data w.data m.shared o = .ok exprs →
        (∀ e ∈ exprs, e.2.Answers [v.data, w.data] v.params) →
        Matcher.resolvePair v w exprs = .ok r →
        ∃ joined, v.join w condition columns o = .ok joined ∧
          joined.totalRows = (found.outputRows o.keepLeft o.keepRight).length ∧
          ∀ i p, (found.outputRows o.keepLeft o.keepRight)[i]? = some p → ∀ name,
            joined.data.valueAt? name i
              = (lastNamed? r.exprs name).bind fun e => e.formula.eval (.ofPosition ⟨p.1, p.2⟩) := by
  obtain ⟨key, hv⟩ := hv
  obtain ⟨key', hw⟩ := hw
  have hv := sound_of_reachable hv
  have hw := sound_of_reachable hw
  obtain ⟨hanswers, -⟩ := Matcher.answers_of_resolveCondition hv hw hanswers hm
  obtain ⟨found, hfound, hleft, hright, hpairs⟩ := Matches.exists_find? hv hw hanswers
  have hrows := Matches.outputRows_eq hpairs
  refine ⟨found, hfound, hleft, hright, hpairs, hrows, fun keepLeft keepRight => ?_,
    fun columns o exprs r hcolumns hvalues hr => ?_⟩
  · rw [hrows, length_completedRows, hpairs]
    unfold unmatchedItems
    rw [List.countP_eq_length_filter, List.countP_eq_length_filter]
  · exact hv.join_spec hw hm hcolumns hvalues hr hfound hleft hright hpairs

/-- Of four rows on both sides, the row without a key and the two rows that nothing matches stand
    alone. -/
theorem join_rows_zeroKeys : ∃ m found,
    Matcher.resolveCondition (.ofTable zeroKeys) (.ofTable numberKeys) (.columns ["k"]) = .ok m ∧
    Matches.find? (.ofTable zeroKeys) (.ofTable numberKeys) m = some found ∧
    found.outputRows true true = [(some 0, some 2), (some 1, some 0), (some 2, some 2),
      (some 3, none), (none, some 1), (none, some 3)] := by
  obtain ⟨m, hm, hrows⟩ := exists_ok
    (x := Matcher.resolveCondition (.ofTable zeroKeys) (.ofTable numberKeys) (.columns ["k"]))
    (p := fun m => completedRows m.joins true true [0, 1, 2, 3] [0, 1, 2, 3]
      == [(some 0, some 2), (some 1, some 0), (some 2, some 2), (some 3, none), (none, some 1),
        (none, some 3)]) (by decide +kernel)
  obtain ⟨found, hfound, hleft, hright, -, houtput, -⟩ :=
    join_rows ⟨_, .table zeroKeys_wellFormed⟩ ⟨_, .table numberKeys_wellFormed⟩
      (show JoinCondition.Answers _ _ (.columns ["k"]) from trivial) hm
  have hsorted : [0, 1, 2, 3] = found.left ∧ [0, 1, 2, 3] = found.right :=
    ⟨Option.some.inj hleft, Option.some.inj hright⟩
  refine ⟨m, found, hm, hfound, ?_⟩
  rw [houtput, ← hsorted.1, ← hsorted.2]
  exact beq_iff_eq.1 hrows

end ColumnQuery
