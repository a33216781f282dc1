/-
  What a materialized view keeps.

  Reifying copies the rows of a view in order, so row `i` of the copy stands for the `i`-th row of
  the view (`CopiedAs`). The copy shows the same names and cells; its groups have the same keys under
  the same numbers, row by row and partition by partition; and its order compares any two rows as the
  order of the view compares the rows for which they stand. Most of this is that the copy mirrors the
  view (`Sound.mirrors_copy`).

  Materializing a second time changes nothing at all (`reify_of_reify`): a copy already has its rows
  in order, so they are copied as they stand, and copying all rows of what is a copy gives it back,
  with its encodings (`Column.take?_range`), its groups (`Grouping.take?_range`) and its sort keys
  (`RowOrder.take?_range`).
-/
import ColumnQuery.Proofs.Mirror.Reify

namespace ColumnQuery

/-! ## Copying all rows of a copy -/

/-- All places of a list are gone through in order. -/
theorem mapM_range_eq {α : Type} {f : Nat → Option α} {xs : List α}
    (h : ∀ i < xs.length, f i = xs[i]?) : (List.range xs.length).mapM f = some xs := by
  rw [mapM_eq_some_iff]
  refine List.ext_getElem (by simp) fun i hi _ => ?_
  rw [List.length_map, List.length_range] at hi
  rw [List.getElem_map, List.getElem_range, List.getElem_map, h i hi, List.getElem?_eq_getElem hi]

namespace Column

variable {c d : Column} {rows : List Nat}

/-- The copy of all rows of a copy is the copy, in the same encoding. -/
theorem take?_range (h : c.take? rows = some d) : d.take? (List.range rows.length) = some d := by
  cases c with
  | values cells =>
    obtain ⟨vs, hvs, rfl⟩ := Option.map_eq_some_iff.1 h
    rw [← length_of_mapM hvs]
    refine Option.map_eq_some_iff.2 ⟨vs, mapM_range_eq fun i _ => ?_, rfl⟩
    exact List.getElem?_toArray
  | numbers entries validity =>
    obtain ⟨xs, hxs, rfl⟩ := Option.map_eq_some_iff.1 h
    rw [← length_of_mapM hxs]
    refine Option.map_eq_some_iff.2 ⟨xs, mapM_range_eq fun i hi => ?_, rfl⟩
    rw [admits_maskOf xs.toArray i (by simpa using hi), List.getElem?_toArray, List.getElem?_map,
      List.getElem?_eq_getElem hi, Option.map_some, Option.map_some, List.getElem_toArray]
    cases xs[i] <;> rfl
  | dictionary words keys validity =>
    obtain ⟨taken, htaken, h⟩ := Option.bind_eq_some_iff.1 h
    obtain rfl := Option.some.inj h
    have hkeys : (List.range rows.length).mapM (fun row => taken.toArray[row]?) = some taken := by
      rw [← length_of_mapM htaken]
      exact mapM_range_eq fun i _ => List.getElem?_toArray
    have hheld : (List.range rows.length).map (fun i => if admits (validity.bind fun _ =>
        maskOf (rows.map fun row => if admits validity row then some () else none).toArray) i
          then some () else none)
        = rows.map fun row => if admits validity row then some () else none := by
      refine List.ext_getElem (by simp) fun i _ hi => ?_
      rw [List.length_map] at hi
      rw [List.getElem_map, List.getElem_range, List.getElem_map,
        admits_held validity (List.getElem?_eq_getElem hi)]
    refine Option.bind_eq_some_iff.2 ⟨taken, hkeys, ?_⟩
    dsimp only
    rw [hheld]
    -- the mask is kept or dropped as it was the first time
    cases validity with
    | none => rfl
    | some mask =>
      rw [Option.bind_some]
      cases maskOf (rows.map fun row => if admits (some mask) row then some () else none).toArray <;>
        rfl

end Column

theorem Table.take?_range {t u : Table} {rows : List Nat} (h : t.take? rows = some u) :
    u.take? (List.range rows.length) = some u := by
  obtain ⟨hcolumns, hcount⟩ := Table.take?_eq_some h
  have hagain : (u.columns.mapM fun e =>
      (e.2.take? (List.range rows.length)).map (e.1, ·)) = some u.columns := by
    rw [mapM_eq_some_iff]
    refine List.map_congr_left fun e he => ?_
    obtain ⟨source, -, hsource⟩ := mem_of_mapM hcolumns he
    obtain ⟨d, hd, rfl⟩ := Option.map_eq_some_iff.1 hsource
    rw [Column.take?_range hd]
    rfl
  refine Option.bind_eq_some_iff.2 ⟨_, hagain, ?_⟩
  rw [List.length_range, ← hcount]
  rfl

/-- Groups of copied rows all have their least rows, so nothing is numbered anew. -/
theorem Grouping.take?_range {g h : Grouping} {total : Nat} {key : RowKey} {rows : List Nat}
    (hwhole : g.whole.Numbers total key fun _ => true) (htake : g.take? rows = some h) :
    h.take? (List.range rows.length) = some h := by
  have hshown := Grouping.shown_of_take? hwhole htake
  obtain ⟨ids, hids, rfl⟩ := Option.map_eq_some_iff.1 htake
  have hsize : (g.whole.restrict ids.toArray).keys.size = rows.length := by
    rw [← length_of_mapM hids, GroupTable.restrict, Array.size_map, List.size_toArray]
  have hkeys : ((List.range rows.length).mapM fun row =>
      (g.whole.restrict ids.toArray).keys[row]?)
        = some (g.whole.restrict ids.toArray).keys.toList := by
    rw [← hsize, ← Array.length_toList]
    exact mapM_range_eq fun i _ => Array.getElem?_toList.symm
  refine Option.map_eq_some_iff.2 ⟨_, hkeys, ?_⟩
  rw [Array.toArray_toList]
  exact congrArg Grouping.ofTable hshown.symm

theorem RowOrder.take?_range {o p : RowOrder} {rows : List Nat} (h : o.take? rows = some p) :
    p.take? (List.range rows.length) = some p := by
  obtain ⟨keys, hkeys, rfl⟩ := Option.map_eq_some_iff.1 h
  refine Option.map_eq_some_iff.2 ⟨keys, mapM_eq_some_iff.2 (List.map_congr_left fun k hk => ?_), rfl⟩
  obtain ⟨source, -, hsource⟩ := mem_of_mapM hkeys hk
  obtain ⟨values, hvalues, rfl⟩ := Option.map_eq_some_iff.1 hsource
  rw [← length_of_mapM hvalues]
  exact Option.map_eq_some_iff.2 ⟨values, mapM_range_eq fun i _ => List.getElem?_toArray, rfl⟩

namespace View

variable {v w : View} {key : RowKey} {rows : List Nat}

/-- Materializing what is materialized changes nothing. -/
theorem Sound.reify_of_reify (hv : v.Sound key) (h : v.reify = some w) : w.reify = some w := by
  rcases reify_eq_some h with ⟨hnone, rfl⟩ | ⟨-, rows, copy, order, hsorted, hcopy, horder, rfl⟩
  · exact h
  have hagain := hv.sorted_copy hsorted hcopy horder
  obtain ⟨data, groups, hdata, hgroups, rfl⟩ := takeRows_eq_some hcopy
  have hgroups' : (groups.mapM fun g => g.take? (List.range rows.length)) = some groups := by
    cases hg : v.groups with
    | none =>
      rw [hg] at hgroups
      obtain rfl := Option.some.inj hgroups
      rfl
    | some g =>
      rw [hg] at hgroups
      obtain ⟨copied, hcopied, rfl⟩ := Option.map_eq_some_iff.1 hgroups
      exact Option.map_eq_some_iff.2
        ⟨copied, Grouping.take?_range (hv.groups g hg).whole hcopied, rfl⟩
  have horder' : (order.mapM fun o => o.take? (List.range rows.length)) = some order := by
    cases ho : v.order with
    | none =>
      rw [ho] at horder
      obtain rfl := Option.some.inj horder
      rfl
    | some o =>
      rw [ho] at horder
      obtain ⟨p, hp, rfl⟩ := Option.map_eq_some_iff.1 horder
      exact Option.map_eq_some_iff.2 ⟨p, RowOrder.take?_range hp, rfl⟩
  unfold View.reify
  split
  next => rfl
  next =>
    refine Option.bind_eq_some_iff.2 ⟨_, hagain, Option.bind_eq_some_iff.2
      ⟨⟨data, none, groups, none, v.params⟩, ?_, Option.bind_eq_some_iff.2 ⟨_, horder', rfl⟩⟩⟩
    exact Option.bind_eq_some_iff.2
      ⟨data, Table.take?_range hdata, Option.bind_eq_some_iff.2 ⟨groups, hgroups', rfl⟩⟩

/-! ## What a copy shows -/

/-- The other view has the rows listed of a view, in this order and in a table of their own: its row
    `i` stands for the row `rows[i]`. -/
structure CopiedAs (v : View) (rows : List Nat) (w : View) : Prop where
  unfiltered : w.filter = none
  length : rows.length = w.totalRows
  totalRows : w.totalRows = v.rowCount
  names : w.data.names = v.data.names
  /-- The same cells, row by row. -/
  cells : ∃ cells, v.rows = some cells ∧ w.rows = some cells
  /-- Grouped alike, into as many groups and with the same keys of the same groups. -/
  keys : w.groups.map (fun g => (g.shown.names, g.shown.size, g.shown.values))
    = v.groups.map fun g => (g.shown.names, g.shown.size, g.shown.values)
  groupOf : ∀ i row, rows[i]? = some row → w.groupOf i = v.groupOf row
  /-- Partitions of the one are partitions of the other, row by row. -/
  partitions : ∃ parts parts', w.partitions true = some parts ∧ v.partitions true = some parts' ∧
    (parts.mapM fun part => part.mapM (rows[·]?)) = some parts'
  ordered : w.order.isSome = v.order.isSome
  compare : ∀ o p, v.order = some o → w.order = some p → ∀ i j a b, rows[i]? = some a →
    rows[j]? = some b → ∃ c, p.compare? i j = some c ∧ o.compare? a b = some c

/-- Rows that stand in their places. -/
theorem zipIdx_range (n : Nat) :
    (List.range n).zipIdx = (List.range n).map fun row => (row, row) := by
  refine List.ext_getElem (by simp) fun i _ _ => ?_
  rw [List.getElem_zipIdx, List.getElem_map, List.getElem_range, Nat.zero_add]

theorem Sound.rowCount_eq (hv : v.Sound key) (hsorted : v.sorted = some rows) :
    v.rowCount = rows.length := by
  rw [(perm_of_sorted hsorted).length_eq]
  unfold View.rowCount View.visible
  cases hf : v.filter with
  | none => exact List.length_range.symm
  | some f => exact (hv.filter f hf).1.length_toList.symm

/-- A view that mirrors another one place by place is a copy of it. -/
theorem Mirrors.copiedAs (h : v.Mirrors w rows.zipIdx) (hv : v.Sound key)
    (hsorted : v.sorted = some rows) (hunfiltered : w.filter = none)
    (hlength : w.totalRows = rows.length) (hordered : w.order.isSome = v.order.isSome)
    (hcompare : ∀ o p, v.order = some o → w.order = some p → ∀ i j a b, rows[i]? = some a →
      rows[j]? = some b → ∃ c, p.compare? i j = some c ∧ o.compare? a b = some c) :
    v.CopiedAs rows w where
  unfiltered := hunfiltered
  length := hlength.symm
  totalRows := hlength.trans (hv.rowCount_eq hsorted).symm
  names := h.columns.names.symm
  cells := (hv.showsSame h.sameCells h.sorted h.sorted').2
  keys := h.keys.symm
  groupOf i row hi := (h.groupOf (row, i) (List.mem_zipIdx_iff_getElem?.2 hi)).symm
  partitions := by
    have hparts : v.partitions true = some (v.split (rows.zipIdx.map (·.1))) :=
      congrArg (Option.map v.split) h.sorted
    have hparts' : w.partitions true = some (w.split (rows.zipIdx.map (·.2))) :=
      congrArg (Option.map w.split) h.sorted'
    refine ⟨_, _, hparts', hparts, ?_⟩
    rw [h.split.1, h.split.2, mapM_eq_some_iff, List.map_map, List.map_map]
    refine List.map_congr_left fun g _ => ?_
    rw [Function.comp_apply, Function.comp_apply, mapM_eq_some_iff, List.map_map, List.map_map]
    refine List.map_congr_left fun p hp => ?_
    exact List.mem_zipIdx_iff_getElem?.1 (v.pairsOf_subset rows.zipIdx g p hp)
  ordered := hordered
  compare := hcompare

/-- What a view is reified to is a copy of its rows in order. -/
theorem Sound.copiedAs_of_reify (hv : v.Sound key) (hn : v.Narrowed) (hsorted : v.sorted = some rows)
    (h : v.reify = some w) : v.CopiedAs rows w := by
  rcases reify_eq_some h with ⟨hnone, rfl⟩ | ⟨-, rows', copy, order, hsorted', hcopy, horder, rfl⟩
  · -- nothing is copied: the rows stand in their places already
    obtain ⟨hfilter, horder⟩ := Bool.and_eq_true_iff.1 hnone
    have hfilter := Option.isNone_iff_eq_none.1 hfilter
    have horder := Option.isNone_iff_eq_none.1 horder
    obtain rfl : List.range w.totalRows = rows := by
      unfold View.sorted View.visible at hsorted
      rw [horder, hfilter] at hsorted
      exact Option.some.inj hsorted
    have hmirrors := hv.mirrors_self hsorted
    rw [← zipIdx_range] at hmirrors
    refine hmirrors.copiedAs hv hsorted hfilter List.length_range.symm rfl fun o p ho => ?_
    rw [horder] at ho
    cases ho
  obtain rfl : rows = rows' := Option.some.inj (hsorted.symm.trans hsorted')
  have hmirrors := hv.mirrors_copy hn hsorted hcopy horder
  have hcount : copy.totalRows = rows.length := totalRows_of_takeRows hcopy
  obtain ⟨data, groups, -, -, rfl⟩ := takeRows_eq_some hcopy
  refine hmirrors.copiedAs hv hsorted rfl hcount ?_ fun o p ho hp i j a b hi hj => ?_
  · cases ho : v.order with
    | none =>
      rw [ho] at horder
      obtain rfl := Option.some.inj horder
      rfl
    | some o =>
      rw [ho] at horder
      obtain ⟨p, -, rfl⟩ := Option.map_eq_some_iff.1 horder
      rfl
  · rw [ho] at horder
    obtain ⟨taken, htaken, hsome⟩ := Option.map_eq_some_iff.1 horder
    obtain rfl : taken = p := Option.some.inj (hsome.trans hp)
    have hcopied : ∀ {place row : Nat}, rows[place]? = some row → taken.covers place = true :=
      fun hrow => (RowOrder.covers_take? htaken).covers (List.getElem?_eq_some_iff.1 hrow).1
    have hcovers : ∀ {place row : Nat}, rows[place]? = some row → o.covers row = true :=
      fun hrow => (hv.order o ho).covers (hv.lt_of_sorted hsorted (List.mem_of_getElem? hrow))
    refine ⟨o.compare a b, ?_, ?_⟩
    · rw [RowOrder.compare?, hcopied hi, hcopied hj, RowOrder.compare_take? htaken hi hj]
      rfl
    · rw [RowOrder.compare?, hcovers hi, hcovers hj]
      rfl

/-- Every reachable view can be materialized. The copy shows the rows of the view in order, in the
    same groups and under the same order, and materializing it once more gives it back. -/
theorem copiedAs_of_reachable {v : View} (hv : Reachable v) : ∃ rows w, v.sorted = some rows ∧
    v.reify = some w ∧ v.CopiedAs rows w ∧ w.reify = some w := by
  obtain ⟨key, hreach⟩ := hv
  have hsound := sound_of_reachable hreach
  obtain ⟨rows, hsorted, -⟩ := hsound.exists_sorted
  obtain ⟨w, hw⟩ := hsound.exists_reify
  exact ⟨rows, w, hsorted, hw, hsound.copiedAs_of_reify (narrowed_of_reachable hreach) hsorted hw,
    hsound.reify_of_reify hw⟩

/-- Grouped letters, of which the first one is hidden, from the last letter to the first: the copy
    has its three rows in that order. -/
theorem copiedAs_of_reachable_letters : ∃ v w, Reachable v ∧ v.visible = [1, 2, 3] ∧
    v.sorted = some [3, 1, 2] ∧ v.groups.isSome = true ∧ v.order.isSome = true ∧
    v.reify = some w ∧ v.CopiedAs [3, 1, 2] w ∧ w.reify = some w := by
  obtain ⟨hwf, hlen, -⟩ := BitSet.ofPredicate_spec 4 (0 < ·)
  obtain ⟨grouped, hgrouped, ⟨key, hgroups⟩, -⟩ := exists_groupBy_letters
  have hnarrow : ReachableWith (grouped.withFilter (.ofPredicate 4 (0 < ·))) _ :=
    .step (.setFilter _) [] hgroups (by simp) rfl ⟨hwf, by cases hgrouped; exact hlen⟩ rfl
  obtain ⟨v, hordered, hshown⟩ := exists_ok
    (x := (grouped.withFilter (.ofPredicate 4 (0 < ·))).orderBy [⟨.column "x", true⟩])
    (p := fun v => v.visible == [1, 2, 3] && v.groups.isSome && v.order.any fun o =>
      o.compare 3 1 == .lt && o.compare 3 2 == .lt && o.compare 1 2 == .lt)
    (by cases hgrouped; decide +kernel)
  simp only [Bool.and_eq_true, beq_iff_eq, Option.any_eq_true] at hshown
  obtain ⟨⟨hvisible, hgroups⟩, o, horder, ⟨h31, h32⟩, h12⟩ := hshown
  have hreach : Reachable v := ⟨_, .step (.orderBy _) [] hnarrow (by simp) rfl trivial hordered⟩
  obtain ⟨rows, w, hrows, hreify, hcopied, hagain⟩ := copiedAs_of_reachable hreach
  obtain rfl : rows = [3, 1, 2] := by
    unfold View.sorted at hrows
    rw [horder, hvisible] at hrows
    rw [RowOrder.eq_sort_of_sort? hrows]
    exact o.sort_eq_of_pairwise (by decide) (by decide)
      (by simp [RowOrder.Before, h31, h32, h12])
  exact ⟨v, w, hreach, hvisible, hrows, hgroups, by rw [horder]; rfl, hreify, hcopied, hagain⟩

end View

end ColumnQuery
