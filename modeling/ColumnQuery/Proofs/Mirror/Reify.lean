/-
  Materialized views.

  Reifying copies the rows that a view shows, in order, into a table of their own. It always
  succeeds (`Sound.exists_reify`), and the copy mirrors the view: the row at place `i` of the copy
  corresponds to the `i`-th row of the view (`Sound.exists_mirrors_reify`).

  The copy is sorted as it stands, since sorted rows are copied in order together with their sort
  keys. Its groups are restricted from the groups of all rows, not from those that are shown; they
  come to the same, since the groups shown are narrowed to the visible rows (`Narrowed`). Copied
  dictionaries keep all their words, so expressions resolve to the same formulas over the copy.

  So what a verb makes of the copy is what it makes of the view (`actAlike_of_reify`).
-/
import ColumnQuery.Proofs.Mirror.Join
import ColumnQuery.Proofs.View.Narrowed

namespace ColumnQuery

/-! ## Copied groups -/

namespace GroupTable

variable {t : GroupTable} {shown : Nat → Bool} {rows : List Nat} {ids : List (Option Nat)}

/-- The ids of the shown rows, in whatever order the rows are listed. -/
theorem mem_shownKeys_iff (hids : rows.mapM (t.keys[·]?) = some ids)
    (hrows : ∀ row, row ∈ rows ↔ row < t.keys.size ∧ shown row = true) (g : Nat) :
    some g ∈ t.shownKeys shown ↔ some g ∈ ids.toArray := by
  constructor
  · intro hg
    obtain ⟨row, hrow⟩ := Array.mem_iff_getElem?.1 hg
    rw [getElem?_shownKeys] at hrow
    obtain ⟨id, hkey, hid⟩ := Option.map_eq_some_iff.1 hrow
    split at hid
    next hshown =>
      have hlt : row < t.keys.size := (Array.getElem?_eq_some_iff.1 hkey).1
      obtain ⟨id', hmem, hkey'⟩ := exists_of_mapM hids ((hrows row).2 ⟨hlt, hshown⟩)
      obtain rfl : id = id' := Option.some.inj (hkey.symm.trans hkey')
      exact List.mem_toArray.2 (hid ▸ hmem)
    next => cases hid
  · intro hg
    obtain ⟨row, hrow, hkey⟩ := mem_of_mapM hids (List.mem_toArray.1 hg)
    refine Array.mem_iff_getElem?.2 ⟨row, ?_⟩
    rw [getElem?_shownKeys, hkey, Option.map_some, if_pos ((hrows row).1 hrow).2]

/-- A copied row has the id of its row. -/
theorem join_shownKeys (hids : rows.mapM (t.keys[·]?) = some ids)
    (hrows : ∀ row, row ∈ rows ↔ row < t.keys.size ∧ shown row = true) {i row : Nat}
    (hi : rows[i]? = some row) :
    ((t.shownKeys shown)[row]?).join = (ids.toArray[i]?).join := by
  obtain ⟨-, hshown⟩ := (hrows row).1 (List.mem_of_getElem? hi)
  have hid : ids.toArray[i]? = t.keys[row]? := by
    rw [List.getElem?_toArray, getElem?_of_mapM hids, hi, Option.bind_some]
  rw [getElem?_shownKeys, hid]
  simp only [hshown, if_true, Option.map_id']

end GroupTable

namespace View

variable {v w : View} {key : RowKey} {rows : List Nat}

/-! ## Copies -/

/-- Rows of the table can be copied. -/
theorem Sound.exists_takeRows (hv : v.Sound key) (hrows : ∀ row ∈ rows, row < v.totalRows) :
    ∃ copy, v.takeRows rows = some copy := by
  obtain ⟨data, hdata⟩ := hv.table.take? hrows
  obtain ⟨groups, hgroups⟩ : ∃ groups, (v.groups.mapM fun g => g.take? rows) = some groups := by
    cases hg : v.groups with
    | none => exact ⟨none, rfl⟩
    | some g =>
      obtain ⟨copy, hcopy⟩ := Grouping.exists_take? (hv.groups g hg).whole hrows
      exact ⟨some copy, Option.map_eq_some_iff.2 ⟨copy, hcopy, rfl⟩⟩
  exact ⟨_, Option.bind_eq_some_iff.2
    ⟨data, hdata, Option.bind_eq_some_iff.2 ⟨groups, hgroups, rfl⟩⟩⟩

/-- Every sound view can be reified. -/
theorem Sound.exists_reify (hv : v.Sound key) : ∃ w, v.reify = some w := by
  obtain ⟨rows, hsorted, -⟩ := hv.exists_sorted
  have hrows : ∀ row ∈ rows, row < v.totalRows := fun _ => hv.lt_of_sorted hsorted
  obtain ⟨copy, hcopy⟩ := hv.exists_takeRows hrows
  obtain ⟨order, horder⟩ : ∃ order, (v.order.mapM fun o => o.take? rows) = some order := by
    cases ho : v.order with
    | none => exact ⟨none, rfl⟩
    | some o =>
      obtain ⟨p, hp⟩ := (hv.order o ho).exists_take? hrows
      exact ⟨some p, Option.map_eq_some_iff.2 ⟨p, hp, rfl⟩⟩
  unfold View.reify
  split
  next => exact ⟨v, rfl⟩
  next =>
    rw [hsorted, Option.bind_eq_bind, Option.bind_some, hcopy, Option.bind_eq_bind,
      Option.bind_some, horder]
    exact ⟨_, rfl⟩

section Copied

variable {copy : View} {order : Option RowOrder}

/-- A copy of sorted rows is sorted as it stands. -/
theorem Sound.sorted_copy (hv : v.Sound key) (hsorted : v.sorted = some rows)
    (hcopy : v.takeRows rows = some copy)
    (horder : (v.order.mapM fun o => o.take? rows) = some order) :
    View.sorted { copy with order := order } = some (List.range rows.length) := by
  have hcount : copy.totalRows = rows.length := totalRows_of_takeRows hcopy
  have hvisible : View.visible { copy with order := order } = List.range rows.length := by
    obtain ⟨data, groups, -, -, rfl⟩ := takeRows_eq_some hcopy
    exact congrArg List.range hcount
  unfold View.sorted at hsorted ⊢
  rw [hvisible]
  cases ho : v.order with
  | none =>
    rw [ho] at horder
    obtain rfl := Option.some.inj horder
    rfl
  | some o =>
    rw [ho] at horder hsorted
    obtain ⟨p, hp, rfl⟩ := Option.map_eq_some_iff.1 horder
    have hbefore : rows.Pairwise o.Before := by
      rw [RowOrder.eq_sort_of_sort? hsorted]
      exact o.pairwise_sort hv.pairwise_visible
    have hcovers := (RowOrder.covers_take? hp).sort?_eq fun _ hrow => List.mem_range.1 hrow
    exact hcovers.trans (congrArg some (RowOrder.sort_range_take? hbefore hp))

/-- Copied rows tie like the rows that they were copied from. -/
theorem peers_copy (horder : (v.order.mapM fun o => o.take? rows) = some order)
    {ps : List (Nat × Nat)} (hps : ∀ p ∈ ps, rows[p.2]? = some p.1) :
    v.peers (ps.map (·.1)) = View.peers { copy with order := order } (ps.map (·.2)) := by
  unfold View.peers
  cases ho : v.order with
  | none =>
    rw [ho] at horder
    obtain rfl := Option.some.inj horder
    dsimp only
    rw [List.length_map, List.length_map]
  | some o =>
    rw [ho] at horder
    obtain ⟨p, hp, rfl⟩ := Option.map_eq_some_iff.1 horder
    refine Peers.ofTies_congr fun a ha b hb => ?_
    unfold RowOrder.tied
    rw [RowOrder.compare_take? hp (hps a ha) (hps b hb)]

/-- Copied groups are those that the view shows: they have the same keys, and a copied row is in
    the group of its row. -/
theorem Sound.groups_copy (hv : v.Sound key) (hn : v.Narrowed) (hsorted : v.sorted = some rows)
    (hcopy : v.takeRows rows = some copy) :
    v.groups.map (fun g => (g.shown.names, g.shown.size, g.shown.values))
        = copy.groups.map (fun g => (g.shown.names, g.shown.size, g.shown.values)) ∧
      ∀ i row, rows[i]? = some row → v.groupOf row = copy.groupOf i := by
  obtain ⟨data, groups, -, hgroups, rfl⟩ := takeRows_eq_some hcopy
  unfold View.groupOf
  cases hg : v.groups with
  | none =>
    rw [hg] at hgroups
    obtain rfl := Option.some.inj hgroups
    exact ⟨rfl, fun _ _ _ => rfl⟩
  | some g =>
    rw [hg] at hgroups
    obtain ⟨copied, hcopied, rfl⟩ := Option.map_eq_some_iff.1 hgroups
    obtain ⟨ids, hids, rfl⟩ := Option.map_eq_some_iff.1 hcopied
    have hrows : ∀ row, row ∈ rows ↔ row < g.whole.keys.size ∧ v.shows row = true := by
      intro row
      rw [(perm_of_sorted hsorted).mem_iff, hv.mem_visible, (hv.groups g hg).whole.keys_size]
    have hmem := GroupTable.mem_shownKeys_iff hids hrows
    refine ⟨?_, fun i row hi => ?_⟩
    · rw [Option.map_some, hn g hg]
      show some (g.whole.names, (g.whole.restrict _).size, (g.whole.restrict _).values) = _
      rw [g.whole.values_restrict_congr hmem, g.whole.size_restrict_congr hmem]
      rfl
    · show g.shown.groupOf row = (g.whole.restrict ids.toArray).groupOf i
      rw [hn g hg]
      exact g.whole.groupOf_restrict_congr hmem (GroupTable.join_shownKeys hids hrows hi)

/-- A copy of sorted rows mirrors the view: every row corresponds to its place in the copy. -/
theorem Sound.mirrors_copy (hv : v.Sound key) (hn : v.Narrowed) (hsorted : v.sorted = some rows)
    (hcopy : v.takeRows rows = some copy)
    (horder : (v.order.mapM fun o => o.take? rows) = some order) :
    v.Mirrors { copy with order := order } rows.zipIdx := by
  have hplace : ∀ p ∈ rows.zipIdx, rows[p.2]? = some p.1 := fun _ =>
    List.mem_zipIdx_iff_getElem?.1
  have hplaces : rows.zipIdx.map (·.2) = List.range rows.length := by
    rw [List.range_eq_range']
    exact List.zipIdx_map_snd 0 rows
  obtain ⟨hkeys, hgroupOf⟩ := hv.groups_copy hn hsorted hcopy
  have haligned : v.Aligned { copy with order := order } rows.zipIdx := by
    refine ⟨?_, ?_, hkeys, fun p hp => hgroupOf _ _ (hplace p hp), fun ps hps => ?_⟩
    · rw [hsorted]
      exact congrArg some (List.zipIdx_map_fst 0 rows).symm
    · rw [hplaces]
      exact hv.sorted_copy hsorted hcopy horder
    · exact peers_copy horder fun p hp => hplace p (hps p hp)
  obtain ⟨data, groups, hdata, -, rfl⟩ := takeRows_eq_some hcopy
  refine ⟨haligned, rfl, (Table.alongside_take? hdata).imp fun c d hd => ?_⟩
  refine ⟨fun p hp => ?_, fun s => ?_⟩
  · exact Column.alike_of_take? hd (hplace p hp)
  · unfold Column.Lacks
    rw [Column.lookup_take? hd]

end Copied

/-! ## Reifying -/

/-- A view mirrors itself, row by row. -/
theorem Sound.mirrors_self (hv : v.Sound key) (hsorted : v.sorted = some rows) :
    v.Mirrors v (rows.map fun row => (row, row)) := by
  obtain ⟨rows', hsorted', haligned⟩ := hv.aligned_withData (t := v.data) rfl
  obtain rfl : rows = rows' := Option.some.inj (hsorted.symm.trans hsorted')
  refine ⟨haligned, rfl, List.forall₂_same.2 fun e _ => ⟨rfl, ?_, fun _ => Iff.rfl⟩⟩
  intro p hp
  obtain ⟨row, -, rfl⟩ := List.mem_map.1 hp
  exact e.2.alike_refl _

/-- What a view is reified to mirrors it. -/
theorem Sound.exists_mirrors_reify (hv : v.Sound key) (hn : v.Narrowed) (h : v.reify = some w) :
    ∃ pairs, v.Mirrors w pairs := by
  rcases reify_eq_some h with ⟨-, rfl⟩ | ⟨-, rows, copy, order, hsorted, hcopy, horder, rfl⟩
  · obtain ⟨rows, hsorted, -⟩ := hv.exists_sorted
    exact ⟨_, hv.mirrors_self hsorted⟩
  · exact ⟨rows.zipIdx, hv.mirrors_copy hn hsorted hcopy horder⟩

/-- What later verbs make of two views: they are refused for the same reason, or show the same. -/
structure ActAlike (v w : View) : Prop where
  derive : ∀ exprs : List (String × ExprSpec), (∀ e ∈ exprs, e.2.escapes = false) →
    SameOutcome ShowsSame (v.derive exprs) (w.derive exprs)
  filterBy : ∀ predicate : ExprSpec, predicate.escapes = false →
    SameOutcome ShowsSame (v.filterBy predicate) (w.filterBy predicate)
  rollup : ∀ exprs : List (String × ExprSpec), (∀ e ∈ exprs, e.2.escapes = false) →
    SameOutcome ShowsSame (v.rollup exprs) (w.rollup exprs)
  slice : ∀ (start : Int) (stop : Option Int),
    SameOutcome ShowsSame (v.slice start stop) (w.slice start stop)
  dedupe : ∀ names : List String, SameOutcome ShowsSame (v.dedupe names) (w.dedupe names)
  join : ∀ (other : View) (condition : JoinCondition) (columns : JoinColumns) (o : JoinOptions),
    condition.escapes = false → columns.escapes = false →
    SameOutcome ShowsSame (v.join other condition columns o) (w.join other condition columns o)
  semijoin : ∀ (other : View) (condition : JoinCondition), condition.escapes = false →
    SameOutcome ShowsSame (v.semijoin other condition) (w.semijoin other condition)
  antijoin : ∀ (other : View) (condition : JoinCondition), condition.escapes = false →
    SameOutcome ShowsSame (v.antijoin other condition) (w.antijoin other condition)

theorem Mirrors.actAlike {pairs : List (Nat × Nat)} {key' : RowKey} (h : v.Mirrors w pairs)
    (hv : v.Sound key) (hw : w.Sound key') : v.ActAlike w where
  derive _ hexprs := h.derive hv hw hexprs
  filterBy _ hpredicate := h.filterBy hv hw hpredicate
  rollup _ hexprs := h.rollup hv hw hexprs
  slice start stop := h.slice hv hw start stop
  dedupe names := h.dedupe hv hw names
  join other _ _ o hcondition hcolumns := h.join other hcondition hcolumns o
  semijoin other _ hcondition := h.semijoin hv hw other hcondition
  antijoin other _ hcondition := h.antijoin hv hw other hcondition

/-- Every reachable view can be reified, and no later verb sees that it was: without escapes, a verb
    makes of the copy what it makes of the view. -/
theorem actAlike_of_reify {v : View} (hv : Reachable v) : ∃ w, v.reify = some w ∧ v.ActAlike w := by
  obtain ⟨key, hreach⟩ := hv
  have hsound := sound_of_reachable hreach
  obtain ⟨w, hw⟩ := hsound.exists_reify
  obtain ⟨pairs, hmirrors⟩ := hsound.exists_mirrors_reify (narrowed_of_reachable hreach) hw
  exact ⟨w, hw, hmirrors.actAlike hsound (hsound.of_reify hw)⟩

/-- Grouped letters, of which the first one is hidden: counting works alike on the view and on its
    copy, which has three rows of its own. -/
theorem actAlike_of_reify_letters : ∃ v w x y rows, Reachable v ∧ v.visible = [1, 2, 3] ∧
    v.reify = some w ∧ w.visible = [0, 1, 2] ∧ v.derive rowCounts = .ok x ∧
    w.derive rowCounts = .ok y ∧ x.rows = some rows ∧ y.rows = some rows := by
  obtain ⟨hwf, hlen, -⟩ := BitSet.ofPredicate_spec 4 (0 < ·)
  obtain ⟨grouped, hgrouped, ⟨key, hgroups⟩, -, -, -, -, hresolve⟩ := exists_groupBy_letters
  have hreach : ReachableWith (grouped.withFilter (.ofPredicate 4 (0 < ·))) _ :=
    .step (.setFilter _) [] hgroups (by simp) rfl ⟨hwf, by cases hgrouped; exact hlen⟩ rfl
  obtain ⟨w, hw, halike⟩ := actAlike_of_reify ⟨_, hreach⟩
  have hplain : ∀ e ∈ rowCounts, e.2.escapes = false := by simp [rowCounts, ExprSpec.escapes]
  obtain ⟨r, hr, -⟩ := exists_ok (x := (View.ofTable letters).resolve rowCounts .derive)
    (p := fun _ => true) (by decide +kernel)
  have hr : (grouped.withFilter (.ofPredicate 4 (0 < ·))).resolve rowCounts .derive = .ok r :=
    (hresolve _ _).trans hr
  obtain ⟨x, -, hx, -⟩ := (sound_of_reachable hreach).derive_onlyGroup (g := 0) hr hplain
    (by cases hgrouped; decide +kernel)
  have hboth := halike.derive rowCounts hplain
  rw [hx] at hboth
  generalize hy : w.derive rowCounts = y at hboth
  cases hboth with
  | ok hsame =>
    obtain ⟨-, rows, hrows, hrows'⟩ := hsame
    refine ⟨_, w, x, _, rows, ⟨_, hreach⟩, ?_, hw, ?_, hx, hy, hrows, hrows'⟩
    · cases hgrouped
      rfl
    · have hcopy : (grouped.withFilter (.ofPredicate 4 (0 < ·))).reify.map View.visible
          = some [0, 1, 2] := by
        cases hgrouped
        decide +kernel
      rw [hw] at hcopy
      exact Option.some.inj hcopy

end View

end ColumnQuery
