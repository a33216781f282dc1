/-
  Looking columns up.

  The first match of a left row is the first right row, as the right view is sorted, that passes
  the test (`Matches.firstMatches_eq`). It is also the right row of the first pair that a join
  lists for the row: the inner join lists no pair if there is none, the left join the row alone
  (`find?_completedRows`).

  A lookup places the first matches at the rows of the table and reads the named columns there
  (`firstMatchOf?_eq`, `foldlM_setLookup`). So a column looked up has the cell that a left join
  shows in the first pair of every visible row, null where nothing matches, and the view stays as
  it is but for the named columns (`lookup_first_pairs`). Once the matches are found, nothing can
  go wrong.
-/
import ColumnQuery.Proofs.View.Matched

namespace ColumnQuery

/-! ## First pairs -/

section FirstPairs

variable {α β γ κ : Type}

/-- Where every item lists entries under its own key, the first entry under a key is the first one
    of an item with that key. -/
theorem find?_flatMap_of_keys [BEq κ] [LawfulBEq κ] {f : α → List γ} {tag : γ → κ} (key : α → κ)
    {xs : List α} (htag : ∀ x ∈ xs, ∀ e ∈ f x, tag e = key x) {a : α} (ha : a ∈ xs)
    (hsame : ∀ x ∈ xs, key x = key a → f x = f a) :
    (xs.flatMap f).find? (tag · == key a) = (f a).head? := by
  cases hentries : f a with
  | nil =>
    rw [List.head?_nil, List.find?_eq_none]
    intro e he hkey
    obtain ⟨x, hx, hex⟩ := List.mem_flatMap.1 he
    rw [hsame x hx ((htag x hx e hex).symm.trans (eq_of_beq hkey)), hentries] at hex
    cases hex
  | cons first entries =>
    induction xs with
    | nil => cases ha
    | cons x xs ih =>
      obtain ⟨htag, hrest⟩ := List.forall_mem_cons.1 htag
      obtain ⟨hsame, hsames⟩ := List.forall_mem_cons.1 hsame
      rw [List.flatMap_cons, List.find?_append]
      by_cases hx : key x = key a
      · rw [hsame hx, hentries, List.find?_cons_of_pos]
        · rfl
        · rw [hsame hx, hentries] at htag
          rw [htag first List.mem_cons_self, hx]
          exact beq_self_eq_true _
      · have hnone : (f x).find? (tag · == key a) = none :=
          List.find?_eq_none.2 fun e he hkey => hx ((htag e he).symm.trans (eq_of_beq hkey))
        have hmem : a ∈ xs := List.mem_of_ne_of_mem (fun heq => hx (heq ▸ rfl)) ha
        rw [hnone, Option.none_or]
        exact ih hrest hmem hsames

/-- The first pair of positions that a nested loop lists for a left item. -/
theorem find?_nestedLoop (test : α → β → Bool) (left : List α) (right : List β) {i : Nat} {a : α}
    (ha : left[i]? = some a) : (nestedLoop test left right).find? (·.1 == i)
      = (right.zipIdx.find? fun b => test a b.1).map fun b => (i, b.2) := by
  have hplace : (a, i) ∈ left.zipIdx := List.mem_zipIdx_iff_getElem?.2 ha
  refine (find?_flatMap_of_keys Prod.snd (fun x _ e he => ?_) hplace fun x hx hi => ?_).trans ?_
  · obtain ⟨b, -, rfl⟩ := List.mem_map.1 he
    rfl
  · have hx := List.mem_zipIdx_iff_getElem?.1 hx
    rw [hi, ha] at hx
    rw [← Option.some.inj hx, hi]
  · rw [List.head?_map, List.head?_filter]

theorem head?_ownRows (test : α → β → Bool) (keepLeft : Bool) (right : List β) (a : α) :
    (ownRows test keepLeft right a).head? = match right.find? (test a) with
      | some b => some (some a, some b)
      | none => if keepLeft then some (some a, none) else none := by
  unfold ownRows
  rw [← List.head?_filter]
  cases right.filter (test a) with
  | nil => cases keepLeft <;> rfl
  | cons b own => rfl

/-- The first pair that a join lists for a left item. -/
theorem find?_completedRows [BEq α] [LawfulBEq α] (test : α → β → Bool) (keepLeft keepRight : Bool)
    {left : List α} (right : List β) {a : α} (ha : a ∈ left) :
    (completedRows test keepLeft keepRight left right).find? (·.1 == some a)
      = (ownRows test keepLeft right a).head? := by
  have hleft : (left.flatMap (ownRows test keepLeft right)).find? (·.1 == some a)
      = (ownRows test keepLeft right a).head? := by
    refine find?_flatMap_of_keys some (fun x _ e he => ?_) ha fun x _ hx => ?_
    · unfold ownRows at he
      dsimp only at he
      split at he
      next => rw [List.mem_singleton.1 he]
      next =>
        obtain ⟨b, -, rfl⟩ := List.mem_map.1 he
        rfl
    · rw [Option.some.inj hx]
  have hright : (if keepRight then (unmatchedItems test left right).map fun b =>
      ((none : Option α), some b) else []).find? (·.1 == some a) = none := by
    rw [List.find?_eq_none]
    intro e he
    split at he
    next =>
      obtain ⟨b, -, rfl⟩ := List.mem_map.1 he
      simp
    next => cases he
  unfold completedRows
  rw [List.find?_append, hleft, hright, Option.or_none]

end FirstPairs

/-! ## First matches -/

namespace Matches

variable {test : Nat → Nat → Bool} {m : Matches}

/-- The first matches, if the matches are those of a nested loop. -/
theorem firstMatches_eq (h : m.pairs = nestedLoop test m.left m.right) : m.firstMatches =
    m.left.filterMap fun row => (m.right.find? (test row)).map (row, ·) := by
  have hfirst : ∀ e ∈ m.left.zipIdx, ((m.pairs.find? (·.1 == e.2)).bind fun p =>
      (m.right[p.2]?).bind fun row => some (e.1, row))
        = (m.right.find? (test e.1)).map (e.1, ·) := by
    intro e he
    have hright : m.right.find? (test e.1)
        = (m.right.zipIdx.find? fun b => test e.1 b.1).map Prod.fst := by
      conv_lhs => rw [← List.zipIdx_map_fst 0 m.right, List.find?_map]
      rfl
    rw [h, find?_nestedLoop test m.left m.right (List.mem_zipIdx_iff_getElem?.1 he), hright]
    cases hfound : m.right.zipIdx.find? fun b => test e.1 b.1 with
    | none => rfl
    | some b =>
      have hb := List.mem_zipIdx_iff_getElem?.1 (List.mem_of_find?_eq_some hfound)
      simp [hb]
  unfold firstMatches
  conv_rhs => rw [← List.zipIdx_map_fst 0 m.left, List.filterMap_map]
  exact List.filterMap_congr hfirst

end Matches

namespace View

variable {v w : View} {key key' : RowKey} {m : Matcher} {found : Matches}

/-- The rows that have a first match, in order. -/
theorem fst_firstMatches {test : Nat → Nat → Bool}
    (h : found.pairs = nestedLoop test found.left found.right) :
    found.firstMatches.map Prod.fst
      = found.left.filter fun row => (found.right.find? (test row)).isSome := by
  rw [Matches.firstMatches_eq h, List.map_filterMap, ← List.filterMap_eq_filter]
  refine List.filterMap_congr fun row _ => ?_
  cases hfirst : found.right.find? (test row) <;> simp [Option.guard, hfirst]

/-- The first match of every row of the table; rows that are not visible have none. -/
theorem Sound.firstMatchOf?_eq (hv : v.Sound key) (hfound : Matches.find? v w m = some found) :
    v.firstMatchOf? found = some ((List.range v.totalRows).map fun row =>
      if row ∈ v.visible then found.right.find? (m.joins row) else none) := by
  obtain ⟨hleft, -, hpairs⟩ := Matches.of_find? hfound
  have hvisible := fun row => (perm_of_sorted hleft).mem_iff (a := row)
  have hrows := fst_firstMatches hpairs
  have hinside : ∀ row ∈ found.firstMatches.map Prod.fst,
      row < (Array.replicate v.totalRows (none : Option Nat)).size := by
    intro row hrow
    rw [hrows] at hrow
    rw [Array.size_replicate]
    exact hv.lt_of_sorted hleft (List.mem_filter.1 hrow).1
  obtain ⟨out, hout⟩ := exists_placeCells? (found.firstMatches.map fun p => some p.2) hinside
  unfold firstMatchOf?
  rw [hout]
  refine congrArg some (List.ext_getElem? fun row => ?_)
  have hnodup : (found.firstMatches.map Prod.fst).Nodup := by
    rw [hrows]
    exact ((perm_of_sorted hleft).nodup_iff.2 hv.nodup_visible).filter _
  rw [Array.getElem?_toList]
  by_cases hrow : row ∈ found.firstMatches.map Prod.fst
  · obtain ⟨i, hi⟩ := List.getElem?_of_mem hrow
    obtain ⟨⟨left, right⟩, hpair, hleftRow⟩ :=
      Option.map_eq_some_iff.1 (List.getElem?_map.symm.trans hi)
    obtain rfl : row = left := hleftRow.symm
    have hlisted := List.mem_of_getElem? hpair
    rw [Matches.firstMatches_eq hpairs] at hlisted
    obtain ⟨_, hmem, hfirst⟩ := List.mem_filterMap.1 hlisted
    obtain ⟨_, hfirst, heq⟩ := Option.map_eq_some_iff.1 hfirst
    cases heq
    have hlt : row < v.totalRows := hv.lt_of_sorted hleft hmem
    rw [getElem?_placeCells? hnodup hout hi, List.getElem?_map, hpair, List.getElem?_map,
      List.getElem?_range hlt, Option.map_some, Option.map_some, if_pos ((hvisible row).1 hmem),
      hfirst]
    rfl
  · have hnone : row ∈ v.visible → found.right.find? (m.joins row) = none := by
      intro hmem
      rw [hrows, List.mem_filter, hvisible] at hrow
      rw [← Option.not_isSome_iff_eq_none]
      exact fun hsome => hrow ⟨hmem, hsome⟩
    rw [getElem?_placeCells?_of_notMem hout hrow, List.getElem?_map]
    by_cases hlt : row < v.totalRows
    · rw [List.getElem?_range hlt, Option.map_some]
      split
      next hmem => rw [hnone hmem, Array.getElem?_replicate, if_pos hlt]
      next => rw [Array.getElem?_replicate, if_pos hlt]
    · rw [Array.getElem?_replicate, if_neg hlt, List.getElem?_eq_none (by simpa using hlt)]
      rfl

/-! ## Columns set from matches -/

/-- Columns that are read at matching rows are set one after the other; equal names read the same
    column. -/
theorem foldlM_setLookup (matched : List (Option Nat)) {source : Table}
    {columns : List (String × Column)} {t : Table} (hlength : matched.length = t.rowCount)
    (hcolumns : ∀ e ∈ columns, source.column? e.1 = some e.2)
    (hcells : ∀ e ∈ columns, ∃ cells, matched.mapM (cellOf? e.2) = some cells) :
    ∃ u, columns.foldlM (setLookup matched) t = .ok u ∧ u.rowCount = t.rowCount ∧
      t.names <+: u.names ∧
      ∀ name, u.column? name = if name ∈ columns.map Prod.fst then
        (source.column? name).bind fun c => (matched.mapM (cellOf? c)).map .ofCells
        else t.column? name := by
  induction columns generalizing t with
  | nil => exact ⟨t, rfl, rfl, List.prefix_rfl, fun _ => rfl⟩
  | cons e columns ih =>
    obtain ⟨hcolumn, hcolumns⟩ := List.forall_mem_cons.1 hcolumns
    obtain ⟨⟨cells, hfirst⟩, hcells⟩ := List.forall_mem_cons.1 hcells
    have hc : (Column.ofCells cells).length = t.rowCount := by
      rw [Column.length_ofCells, length_of_mapM hfirst, hlength]
    obtain ⟨next, hnext⟩ : ∃ next, t.set e.1 (.ofCells cells) = .ok next := Table.exists_set hc
    have hcount := Table.rowCount_of_set hnext hc
    obtain ⟨u, hu, hrows, hnames, hspec⟩ := ih (hlength.trans hcount.symm) hcolumns hcells
    refine ⟨u, ?_, hrows.trans hcount, List.IsPrefix.trans ?_ hnames, fun name => ?_⟩
    · have hset : setLookup matched t e = .ok next := by
        unfold setLookup
        rw [hfirst]
        show QueryError.ofTable (t.set e.1 (.ofCells cells)) = _
        rw [hnext]
        rfl
      rw [List.foldlM_cons, hset]
      exact hu
    · rw [Table.names_of_set hnext]
      split
      next => exact List.prefix_rfl
      next => exact List.prefix_append _ _
    · rw [hspec, Table.column?_of_set hnext]
      simp only [List.map_cons, List.mem_cons]
      by_cases hlater : name ∈ columns.map Prod.fst
      · rw [if_pos hlater, if_pos (.inr hlater)]
      · rw [if_neg hlater]
        by_cases hname : name = e.1
        · rw [if_pos hname, if_pos (.inl hname), hname, hcolumn, Option.bind_some, hfirst]
          rfl
        · rw [if_neg hname, if_neg (by tauto)]

theorem namedColumns_eq {t : Table} {names : List String} (h : ∀ n ∈ names, n ∈ t.names) :
    ∃ columns, namedColumns t names = .ok columns ∧ columns.map Prod.fst = names ∧
      ∀ e ∈ columns, t.column? e.1 = some e.2 := by
  unfold namedColumns
  induction names with
  | nil => exact ⟨[], rfl, rfl, by simp⟩
  | cons name names ih =>
    obtain ⟨hname, hnames⟩ := List.forall_mem_cons.1 h
    obtain ⟨columns, hcolumns, hnames, hspec⟩ := ih hnames
    obtain ⟨c, hc⟩ :=
      Option.ne_none_iff_exists'.1 (mt Table.column?_eq_none_iff.1 (not_not.2 hname))
    refine ⟨(name, c) :: columns, ?_, congrArg (name :: ·) hnames, ?_⟩
    · simp only [List.mapM_cons, hc, hcolumns]
      rfl
    · exact List.forall_mem_cons.2 ⟨hc, hspec⟩

/-! ## What a lookup keeps and shows -/

/-- The same rows under the same overlays and parameters. -/
structure KeepsRows (v u : View) : Prop where
  rowCount : u.rowCount = v.rowCount
  totalRows : u.totalRows = v.totalRows
  filter : u.filter = v.filter
  groups : u.groups = v.groups
  order : u.order = v.order
  params : u.params = v.params

theorem keepsRows_withData {t : Table} (h : t.rowCount = v.totalRows) :
    v.KeepsRows (v.withData t) where
  rowCount := by
    have hfilter : (v.withData t).filter = v.filter := rfl
    have htotal : (v.withData t).totalRows = v.totalRows := h
    simp only [View.rowCount, hfilter, htotal]
  totalRows := h
  filter := rfl
  groups := rfl
  order := rfl
  params := rfl

theorem matching_eq_ok {condition : JoinCondition}
    (hm : Matcher.resolveCondition v w condition = .ok m)
    (hfound : Matches.find? v w m = some found) : v.matching w condition = .ok found := by
  unfold View.matching
  rw [hm, ok_bind, hfound]
  rfl

theorem lookup_eq_ok {condition : JoinCondition} {names : List String}
    {columns : List (String × Column)} {matched : List (Option Nat)} {t : Table}
    (hcolumns : namedColumns w.data names = .ok columns)
    (hfound : v.matching w condition = .ok found)
    (hmatched : v.firstMatchOf? found = some matched)
    (ht : columns.foldlM (setLookup matched) v.data = .ok t) :
    v.lookup w condition names = .ok (v.withData t) := by
  unfold View.lookup
  rw [hcolumns, ok_bind, hfound, ok_bind, hmatched]
  show (columns.foldlM (setLookup matched) v.data >>= _) = _
  rw [ht]
  rfl

/-- A column of a table can be read at a row that it has, and where there is no row. -/
theorem Sound.exists_cellOf? (hw : w.Sound key') {c : Column} {n : String}
    (hc : w.data.column? n = some c) {row : Option Nat} (hrow : ∀ r ∈ row, r < w.totalRows) :
    ∃ x, cellOf? c row = some x := by
  obtain ⟨hwf, hlength⟩ := hw.table.column hc
  cases row with
  | none => exact ⟨.null, rfl⟩
  | some r => exact hwf r (hlength ▸ hrow r rfl)

/-- Once the matches are found, the named columns are read at the first match of every row. -/
theorem Sound.lookup_spec (hv : v.Sound key) (hw : w.Sound key') {condition : JoinCondition}
    {names : List String} (hnames : ∀ n ∈ names, n ∈ w.data.names)
    (hm : Matcher.resolveCondition v w condition = .ok m)
    (hfound : Matches.find? v w m = some found) :
    ∃ looked, v.lookup w condition names = .ok looked ∧ v.KeepsRows looked ∧
      v.data.names <+: looked.data.names ∧
      (∀ n, n ∉ names → looked.data.column? n = v.data.column? n) ∧
      ∀ n ∈ names, ∃ c, w.data.column? n = some c ∧ ∀ row < v.totalRows,
        looked.data.valueAt? n row = cellOf? c
          (if row ∈ v.visible then found.right.find? (m.joins row) else none) := by
  obtain ⟨-, hright, -⟩ := Matches.of_find? hfound
  obtain ⟨columns, hcolumns, hlisted, hspec⟩ := namedColumns_eq hnames
  let firstOf (row : Nat) := if row ∈ v.visible then found.right.find? (m.joins row) else none
  have hinside : ∀ row, ∀ r ∈ firstOf row, r < w.totalRows := by
    intro row r hr
    obtain ⟨-, hr⟩ := Option.ite_none_right_eq_some.1 hr
    exact hw.lt_of_sorted hright (List.mem_of_find?_eq_some hr)
  have hcells : ∀ n c, w.data.column? n = some c →
      ∃ cells, ((List.range v.totalRows).map firstOf).mapM (cellOf? c) = some cells := by
    intro n c hc
    refine exists_mapM _ _ fun first hfirst => ?_
    obtain ⟨row, -, rfl⟩ := List.mem_map.1 hfirst
    exact hw.exists_cellOf? hc (hinside row)
  obtain ⟨t, ht, hrows, hkept, hcolumn⟩ := foldlM_setLookup ((List.range v.totalRows).map firstOf)
    (t := v.data) (by simp [totalRows]) hspec fun e he => hcells e.1 e.2 (hspec e he)
  rw [hlisted] at hcolumn
  refine ⟨v.withData t, ?_, keepsRows_withData hrows, hkept, fun n hn => ?_, fun n hn => ?_⟩
  · exact lookup_eq_ok hcolumns (matching_eq_ok hm hfound) (hv.firstMatchOf?_eq hfound) ht
  · exact (hcolumn n).trans (if_neg hn)
  · obtain ⟨c, hc⟩ := Option.ne_none_iff_exists'.1
      (mt Table.column?_eq_none_iff.1 (not_not.2 (hnames n hn)))
    obtain ⟨cells, hcells⟩ := hcells n c hc
    refine ⟨c, hc, fun row hrow => ?_⟩
    show (t.column? n).bind (·.get? row) = _
    rw [hcolumn, if_pos hn, hc, Option.bind_some, hcells, Option.map_some, Option.bind_some,
      Column.get?_ofCells, getElem?_of_mapM hcells, List.getElem?_map, List.getElem?_range hrow]
    rfl

end View

/-- Looking columns of a view up agrees with joining it. A lookup is refused where a join finds no
    matches, for the same reason. Otherwise it keeps the rows, the overlays and the columns that it
    does not name, and shows in a named column at a visible row what the column of the other view
    holds at the right row of the first pair that the inner join lists for the row, which is the
    first row in the order of the other view that matches. Where nothing matches the cell is
    null, as in the one pair that a left join lists then; so it is in rows that are hidden. -/
theorem lookup_first_pairs {v w : View} (hv : Reachable v) (hw : Reachable w)
    (condition : JoinCondition) {names : List String} (hnames : ∀ n ∈ names, n ∈ w.data.names) :
    (∀ e, v.matching w condition = .error e → v.lookup w condition names = .error e) ∧
    (∀ m, Matcher.resolveCondition v w condition = .ok m → condition.Answers v w →
      ∃ found, Matches.find? v w m = some found) ∧
    ∀ m found, Matcher.resolveCondition v w condition = .ok m →
      Matches.find? v w m = some found →
      ∃ looked, v.lookup w condition names = .ok looked ∧ v.KeepsRows looked ∧
        v.data.names <+: looked.data.names ∧
        (∀ n, n ∉ names → looked.data.column? n = v.data.column? n) ∧
        w.sorted = some found.right ∧
        (∀ row ∈ v.visible, ∃ first : Option Nat, first = found.right.find? (m.joins row) ∧
          (found.outputRows false false).find? (·.1 == some row)
            = first.map (fun r => (some row, some r)) ∧
          (found.outputRows true false).find? (·.1 == some row) = some (some row, first) ∧
          ∀ n ∈ names, ∃ x, looked.data.valueAt? n row = some x ∧
            match first with
            | some r => w.data.valueAt? n r = some x
            | none => x = .null) ∧
        ∀ row < v.totalRows, row ∉ v.visible →
          ∀ n ∈ names, looked.data.valueAt? n row = some .null := by
  obtain ⟨key, hv⟩ := hv
  obtain ⟨key', hw⟩ := hw
  have hv := sound_of_reachable hv
  have hw := sound_of_reachable hw
  refine ⟨fun e he => ?_, fun m hm hanswers => ?_, fun m found hm hfound => ?_⟩
  · obtain ⟨columns, hcolumns, -⟩ := View.namedColumns_eq hnames
    unfold View.lookup
    rw [hcolumns, ok_bind, he]
    rfl
  · obtain ⟨found, hfound, -⟩ := Matches.exists_find? hv hw
      (Matcher.answers_of_resolveCondition hv hw hanswers hm).1
    exact ⟨found, hfound⟩
  obtain ⟨hleft, hright, hpairs⟩ := Matches.of_find? hfound
  obtain ⟨looked, hlooked, hkeeps, hprefix, hothers, hcells⟩ := hv.lookup_spec hw hnames hm hfound
  refine ⟨looked, hlooked, hkeeps, hprefix, hothers, hright, fun row hrow => ?_,
    fun row hlt hrow n hn => ?_⟩
  · have hlisted := (View.perm_of_sorted hleft).mem_iff.2 hrow
    refine ⟨_, rfl, ?_, ?_, fun n hn => ?_⟩
    · rw [Matches.outputRows_eq hpairs, find?_completedRows _ _ _ _ hlisted, head?_ownRows]
      cases found.right.find? (m.joins row) <;> rfl
    · rw [Matches.outputRows_eq hpairs, find?_completedRows _ _ _ _ hlisted, head?_ownRows]
      cases found.right.find? (m.joins row) <;> rfl
    · obtain ⟨c, hc, hcell⟩ := hcells n hn
      rw [hcell row (hv.lt_of_visible hrow), if_pos hrow]
      cases hfirst : found.right.find? (m.joins row) with
      | none => exact ⟨.null, rfl, rfl⟩
      | some r =>
        have hr : r < w.totalRows := hw.lt_of_sorted hright (List.mem_of_find?_eq_some hfirst)
        obtain ⟨x, hx⟩ : ∃ x, View.cellOf? c (some r) = some x :=
          hw.exists_cellOf? hc fun _ h => Option.some.inj h ▸ hr
        refine ⟨x, hx, ?_⟩
        show (w.data.column? n).bind (·.get? r) = some x
        rw [hc]
        exact hx
  · obtain ⟨c, -, hcell⟩ := hcells n hn
    rw [hcell row hlt, if_neg hrow]
    rfl

/-- The negative zero becomes the zero that it matches, and the row without a key stays null. -/
theorem lookup_first_pairs_zeroKeys : ∃ looked,
    (View.ofTable zeroKeys).lookup (.ofTable numberKeys) (.columns ["k"]) ["k"] = .ok looked ∧
    looked.data.valueAt? "k" 2 = numberKeys.valueAt? "k" 2 ∧
    looked.data.valueAt? "k" 3 = some .null := by
  obtain ⟨m, hm, hjoins⟩ := exists_ok
    (x := Matcher.resolveCondition (.ofTable zeroKeys) (.ofTable numberKeys) (.columns ["k"]))
    (p := fun m => [0, 1, 2, 3].find? (m.joins 2) == some 2
      && [0, 1, 2, 3].find? (m.joins 3) == none) (by decide +kernel)
  rw [Bool.and_eq_true, beq_iff_eq, beq_iff_eq] at hjoins
  have hnames : ∀ n ∈ ["k"], n ∈ (View.ofTable numberKeys).data.names := by decide
  obtain ⟨-, hfinds, hlooks⟩ := lookup_first_pairs
    ⟨_, .table zeroKeys_wellFormed⟩ ⟨_, .table numberKeys_wellFormed⟩ (.columns ["k"]) hnames
  obtain ⟨found, hfound⟩ := hfinds m hm trivial
  obtain ⟨looked, hlooked, -, -, -, hright, hcells, -⟩ := hlooks m found hm hfound
  have hrows : [0, 1, 2, 3] = found.right := Option.some.inj hright
  have hvisible : (View.ofTable zeroKeys).visible = [0, 1, 2, 3] := rfl
  refine ⟨looked, hlooked, ?_, ?_⟩
  · obtain ⟨first, hfirst, -, -, hcell⟩ := hcells 2 (by rw [hvisible]; decide)
    rw [← hrows, hjoins.1] at hfirst
    obtain ⟨x, hx, hsource⟩ := hcell "k" (by decide)
    rw [hfirst] at hsource
    exact hx.trans hsource.symm
  · obtain ⟨first, hfirst, -, -, hcell⟩ := hcells 3 (by rw [hvisible]; decide)
    rw [← hrows, hjoins.2] at hfirst
    obtain ⟨x, hx, hsource⟩ := hcell "k" (by decide)
    rw [hfirst] at hsource
    rw [hx, hsource]

end ColumnQuery
