/-
  The groups that a view shows, among the groups of all rows.

  A view keeps the groups of all rows beside those of its visible rows. The verbs keep both in
  step: the groups shown are always those of all rows, restricted to the visible ones and numbered
  anew in their order (`narrowed_of_reachable`). So which groups are shown, with which values and
  under which numbers, depends only on the groups of all rows and on the set of visible rows, not
  on the verbs by which the view has come about.

  Filters narrow by definition. New groups and copied ones are of rows that are all visible, and
  restricting groups to all their rows changes nothing (`restrict_keys`). All other verbs leave
  filter and groups alone or drop the groups.
-/
import ColumnQuery.Proofs.View.Reachable

namespace ColumnQuery

namespace GroupTable

variable {t : GroupTable} {total : Nat} {key : RowKey}

/-- The groups of the rows that are shown; the other rows have none. -/
def shownKeys (t : GroupTable) (shown : Nat → Bool) : Array (Option Nat) :=
  t.keys.mapIdx fun row id => if shown row then id else none

theorem getElem?_shownKeys (t : GroupTable) (shown : Nat → Bool) (row : Nat) :
    (t.shownKeys shown)[row]? = t.keys[row]?.map fun id => if shown row then id else none := by
  unfold shownKeys
  rw [Array.getElem?_mapIdx]

theorem shownKeys_of_all {shown : Nat → Bool} (h : ∀ row < t.keys.size, shown row = true) :
    t.shownKeys shown = t.keys := by
  refine Array.ext_getElem? fun row => ?_
  rw [getElem?_shownKeys]
  by_cases hrow : row < t.keys.size
  · rw [h row hrow]
    cases t.keys[row]? <;> rfl
  · rw [Array.getElem?_eq_none (Nat.le_of_not_lt hrow)]
    rfl

/-- Every group has its least row, so all groups occur in their places. -/
theorem occurring_keys (h : t.LeastRows) :
    t.occurring t.keys = (List.range t.size).map fun g => (g, t.rows.getD g 0) := by
  unfold occurring
  rw [← List.filterMap_eq_map]
  refine List.filterMap_congr fun g hg => ?_
  obtain ⟨row, hrow, hgroup, hleast⟩ := h.least g (List.mem_range.1 hg)
  have hfirst : t.keys.findIdx? (· == some g) = some row := by
    obtain ⟨hlt, hkey⟩ := Array.getElem?_eq_some_iff.1 (groupOf_eq_some_iff.1 hgroup)
    refine Array.findIdx?_eq_some_iff_getElem.2 ⟨hlt, beq_iff_eq.2 hkey, fun other hother => ?_⟩
    intro hsame
    have hgroup' : t.groupOf other = some g := by
      rw [groupOf_eq_some_iff, Array.getElem?_eq_getElem (Nat.lt_trans hother hlt),
        eq_of_beq hsame]
    exact absurd (hleast other hgroup') (Nat.not_le_of_lt hother)
  rw [hfirst, Function.comp_apply, List.getD_eq_getElem?_getD, hrow]
  rfl

/-- Groups restricted to all their rows are the same. -/
theorem restrict_keys (h : t.Numbers total key fun _ => true) (hleast : t.LeastRows) :
    t.restrict t.keys = t := by
  have hoccurring := occurring_keys hleast
  have hvalues : (t.occurring t.keys).filterMap (t.values[·.1]?) = t.values := by
    have hall : (t.restrict t.keys).values.map some = t.values.map some := by
      rw [values_restrict h.values_length, hoccurring, List.map_map]
      refine List.ext_getElem? fun g => ?_
      rw [List.getElem?_map, List.getElem?_map]
      by_cases hg : g < t.size
      · have hlt : g < t.values.length := h.values_length ▸ hg
        rw [List.getElem?_range hg, List.getElem?_eq_getElem hlt, Option.map_some, Option.map_some]
        exact congrArg some (List.getElem?_eq_getElem hlt)
      · have hle : t.size ≤ g := Nat.le_of_not_lt hg
        rw [List.getElem?_eq_none (by rw [List.length_range]; exact hle),
          List.getElem?_eq_none (h.values_length ▸ hle)]
        rfl
    exact List.map_inj_right (fun _ _ => Option.some.inj) |>.1 hall
  have hsize : (t.occurring t.keys).length = t.size := by
    rw [hoccurring, List.length_map, List.length_range]
  have hrows : (t.occurring t.keys).map (·.2) = t.rows := by
    rw [hoccurring, List.map_map]
    refine List.ext_getElem (by simp [hleast.rows_length]) fun g hg hg' => ?_
    rw [List.getElem_map, List.getElem_range, Function.comp_apply, List.getD_eq_getElem?_getD,
      List.getElem?_eq_getElem hg', Option.getD_some]
  have hkeys : (t.keys.map fun id => id.bind fun g => (t.occurring t.keys).findIdx? (·.1 == g))
      = t.keys := by
    refine Array.ext_getElem? fun row => ?_
    rw [Array.getElem?_map]
    cases hid : t.keys[row]? with
    | none => rfl
    | some id =>
      cases id with
      | none => rfl
      | some g =>
        have hg := h.lt_size (groupOf_eq_some_iff.2 hid)
        have hkept : (t.occurring t.keys)[g]? = some (g, t.rows.getD g 0) := by
          rw [hoccurring, List.getElem?_map, List.getElem?_range hg]
          rfl
        have hplace := findIdx?_of_pairwise (pairwise_occurring t t.keys) hkept
        exact congrArg some hplace
  unfold restrict
  dsimp only
  rw [hsize, hvalues, hrows, hkeys]

end GroupTable

theorem Grouping.shown_of_take? {g h : Grouping} {total : Nat} {key : RowKey} {rows : List Nat}
    (hwhole : g.whole.Numbers total key fun _ => true) (htake : g.take? rows = some h) :
    h.shown = h.whole.restrict h.whole.keys := by
  obtain ⟨hnumbers, -, hleast⟩ := Grouping.groups_take? hwhole htake
  obtain ⟨ids, -, rfl⟩ := Option.map_eq_some_iff.1 htake
  exact (GroupTable.restrict_keys hnumbers hleast).symm

namespace View

variable {v w : View} {key : RowKey}

/-- The groups shown are the groups of all rows, restricted to the visible rows. -/
def Narrowed (v : View) : Prop :=
  ∀ g, v.groups = some g → g.shown = g.whole.restrict (g.whole.shownKeys v.shows)

/-! ## Changes of a view -/

theorem narrowed_of_none (h : v.groups = none) : v.Narrowed := by
  intro g hg
  rw [h] at hg
  cases hg

/-- Whatever leaves filter and groups alone. -/
theorem Narrowed.congr (h : v.Narrowed) (hfilter : w.filter = v.filter)
    (hgroups : w.groups = v.groups) : w.Narrowed := by
  have hshows : w.shows = v.shows := by
    funext row
    unfold shows
    rw [hfilter]
  intro g hg
  rw [hshows]
  exact h g (hgroups ▸ hg)

theorem narrowed_withFilter (v : View) (f : BitSet) : (v.withFilter f).Narrowed := by
  intro g hg
  obtain ⟨old, -, rfl⟩ := Option.map_eq_some_iff.1 hg
  rfl

theorem Sound.narrowed_withoutFilter (hv : v.Sound key) : v.withoutFilter.Narrowed := by
  intro g hg
  obtain ⟨old, hold, rfl⟩ := Option.map_eq_some_iff.1 hg
  have hfull : old.whole.visible (.full v.totalRows) = old.whole.keys :=
    GroupTable.shownKeys_of_all fun row hrow => by
      rw [BitSet.contains_full]
      rw [(hv.groups old hold).whole.keys_size] at hrow
      exact decide_eq_true hrow
  have hall : old.whole.shownKeys v.withoutFilter.shows = old.whole.keys :=
    GroupTable.shownKeys_of_all fun _ _ => rfl
  exact congrArg old.whole.restrict (hfull.trans hall.symm)

/-- Groups that are all shown, where all rows are visible. -/
theorem narrowed_of_all {g : Grouping} (hgroups : v.groups = some g) (hfilter : v.filter = none)
    (hg : g.shown = g.whole.restrict g.whole.keys) : v.Narrowed := by
  intro h hh
  obtain rfl : g = h := Option.some.inj (hgroups.symm.trans hh)
  rw [GroupTable.shownKeys_of_all fun row _ => by rw [shows, hfilter], hg]

theorem Sound.narrowed_of_takeRows (hv : v.Sound key) {rows : List Nat}
    (h : v.takeRows rows = some w) : w.Narrowed := by
  obtain ⟨data, groups, -, hgroups, rfl⟩ := takeRows_eq_some h
  cases hold : v.groups with
  | none =>
    rw [hold] at hgroups
    exact narrowed_of_none (Option.some.inj hgroups).symm
  | some old =>
    rw [hold] at hgroups
    obtain ⟨copy, hcopy, hsome⟩ := Option.map_eq_some_iff.1 hgroups
    exact narrowed_of_all hsome.symm rfl
      (Grouping.shown_of_take? (hv.groups old hold).whole hcopy)

/-! ## Verbs -/

theorem Sound.narrowed_of_reify (hv : v.Sound key) (hn : v.Narrowed) (h : v.reify = some w) :
    w.Narrowed := by
  rcases reify_eq_some h with ⟨-, rfl⟩ | ⟨-, rows, copy, order, -, hcopy, -, rfl⟩
  · exact hn
  · exact (hv.narrowed_of_takeRows hcopy).congr rfl rfl

theorem Sound.narrowed_of_reifyRows (hv : v.Sound key) {rows : List Nat}
    (h : v.reifyRows rows = .ok w) : w.Narrowed := by
  unfold reifyRows at h
  split at h
  next => cases h
  next => exact hv.narrowed_of_takeRows (QueryError.ofRead_eq_ok h)

theorem narrowed_of_keepRows {rows : List Nat} (h : v.keepRows rows = .ok w) : w.Narrowed := by
  obtain ⟨f, -, rfl⟩ := Option.map_eq_some_iff.1 (QueryError.ofRead_eq_ok h)
  exact narrowed_withFilter v f

theorem narrowed_of_filterBy {p : ExprSpec} (h : v.filterBy p = .ok w) : w.Narrowed := by
  obtain ⟨r, -, h⟩ := bind_eq_ok h
  obtain ⟨rows, -, h⟩ := bind_eq_ok h
  exact narrowed_of_keepRows h

theorem narrowed_of_slice {start : Int} {stop : Option Int} (h : v.slice start stop = .ok w) :
    w.Narrowed := by
  obtain ⟨parts, -, h⟩ := bind_eq_ok h
  exact narrowed_of_keepRows h

theorem narrowed_of_dedupe {names : List String} (h : v.dedupe names = .ok w) : w.Narrowed := by
  obtain ⟨columns, -, h⟩ := bind_eq_ok h
  obtain ⟨rows, -, h⟩ := bind_eq_ok h
  exact narrowed_of_keepRows h

theorem narrowed_of_semijoin {other : View} {c : JoinCondition} (h : v.semijoin other c = .ok w) :
    w.Narrowed := by
  obtain ⟨f, -, h⟩ := bind_eq_ok h
  obtain rfl := Except.ok.inj h
  exact narrowed_withFilter v f

theorem narrowed_of_antijoin {other : View} {c : JoinCondition} (h : v.antijoin other c = .ok w) :
    w.Narrowed := by
  obtain ⟨f, -, h⟩ := bind_eq_ok h
  simp only [] at h
  split at h
  next =>
    obtain ⟨inter, -, h⟩ := bind_eq_ok h
    obtain rfl := Except.ok.inj h
    exact narrowed_withFilter v inter
  next =>
    obtain rfl := Except.ok.inj h
    exact narrowed_withFilter v f.complement

theorem Narrowed.withData (hn : v.Narrowed) (t : Table) : (v.withData t).Narrowed :=
  hn.congr rfl rfl

theorem Narrowed.of_deriveAt (hn : v.Narrowed) {exprs : List (String × ExprSpec)} {p : Placement}
    (h : v.deriveAt exprs p = .ok w) : w.Narrowed := by
  unfold deriveAt at h
  obtain ⟨r, -, h⟩ := bind_eq_ok h
  obtain ⟨results, -, h⟩ := bind_eq_ok h
  obtain ⟨t, -, h⟩ := bind_eq_ok h
  obtain ⟨names, -, h⟩ := bind_eq_ok h
  simp only [] at h
  split at h
  · obtain rfl := Except.ok.inj h
    exact hn.withData t
  · obtain ⟨u, -, h⟩ := bind_eq_ok h
    obtain rfl := Except.ok.inj h
    exact hn.withData u

theorem Narrowed.of_select (hn : v.Narrowed) {names : List String} (h : v.select names = .ok w) :
    w.Narrowed := by
  obtain ⟨t, -, h⟩ := bind_eq_ok h
  obtain rfl := Except.ok.inj h
  exact hn.withData t

theorem Narrowed.of_rename (hn : v.Narrowed) {renames : List (String × String)}
    (h : v.rename renames = .ok w) : w.Narrowed := by
  obtain ⟨-, -, h⟩ := bind_eq_ok h
  obtain ⟨t, -, h⟩ := bind_eq_ok h
  obtain rfl := Except.ok.inj h
  exact hn.withData t

theorem Narrowed.of_relocate (hn : v.Narrowed) {names : List String} {p : Placement}
    (h : v.relocate names p = .ok w) : w.Narrowed := by
  obtain ⟨-, -, h⟩ := bind_eq_ok h
  obtain ⟨order, -, h⟩ := bind_eq_ok h
  obtain ⟨t, -, h⟩ := bind_eq_ok h
  obtain rfl := Except.ok.inj h
  exact hn.withData t

theorem Narrowed.of_lookup (hn : v.Narrowed) {other : View} {c : JoinCondition}
    {names : List String} (h : v.lookup other c names = .ok w) : w.Narrowed := by
  obtain ⟨columns, -, h⟩ := bind_eq_ok h
  obtain ⟨m, -, h⟩ := bind_eq_ok h
  obtain ⟨found, -, h⟩ := bind_eq_ok h
  obtain ⟨t, -, h⟩ := bind_eq_ok h
  obtain rfl := Except.ok.inj h
  exact hn.withData t

/-- New groups are of all rows; under a filter they are narrowed at once. -/
theorem Sound.narrowed_of_groupByKeys (hv : v.Sound key) {keys : List (String × ExprSpec)}
    (h : v.groupByKeys keys = .ok w) : w.Narrowed := by
  have hw := hv.of_groupByKeys h
  unfold groupByKeys at h
  obtain ⟨r, -, h⟩ := bind_eq_ok h
  obtain ⟨hidden, -, h⟩ := Option.bind_eq_some_iff.1 (QueryError.ofRead_eq_ok h)
  obtain ⟨t, -, h⟩ := Option.bind_eq_some_iff.1 h
  obtain rfl := Option.some.inj h
  cases hf : v.filter with
  | none =>
    rw [hf] at hw
    obtain ⟨hnumbers, -, hleast⟩ := hw.groups (.ofTable t) rfl
    exact narrowed_of_all rfl hf (GroupTable.restrict_keys hnumbers hleast).symm
  | some f =>
    intro g hg
    obtain rfl := Option.some.inj hg
    have hshows : (v.withGroups ((Grouping.ofTable t).narrow f)).shows = v.shows := rfl
    have hcontains : v.shows = f.contains := by
      funext row
      unfold shows
      rw [hf]
    dsimp only
    rw [hshows, hcontains]
    rfl

theorem Narrowed.of_orderBy (hn : v.Narrowed) {keys : List OrderBy} (h : v.orderBy keys = .ok w) :
    w.Narrowed := by
  obtain ⟨r, -, h⟩ := bind_eq_ok h
  obtain ⟨o, -, rfl⟩ := Option.map_eq_some_iff.1 (QueryError.ofRead_eq_ok h)
  exact hn.congr rfl rfl

theorem narrowed_of_rollup {exprs : List (String × ExprSpec)} (h : v.rollup exprs = .ok w) :
    w.Narrowed := by
  obtain ⟨r, -, h⟩ := bind_eq_ok h
  obtain ⟨results, -, h⟩ := bind_eq_ok h
  obtain ⟨keys, -, h⟩ := bind_eq_ok h
  obtain ⟨t, -, h⟩ := bind_eq_ok h
  obtain rfl := Except.ok.inj h
  exact narrowed_of_none rfl

theorem narrowed_of_join {other : View} {c : JoinCondition} {columns : JoinColumns}
    {o : JoinOptions} (h : v.join other c columns o = .ok w) : w.Narrowed := by
  obtain ⟨m, -, h⟩ := bind_eq_ok h
  obtain ⟨exprs, -, h⟩ := bind_eq_ok h
  obtain ⟨r, -, h⟩ := bind_eq_ok h
  obtain ⟨found, -, h⟩ := bind_eq_ok h
  obtain ⟨t, -, h⟩ := bind_eq_ok h
  obtain rfl := Except.ok.inj h
  exact narrowed_of_none rfl

theorem narrowed_of_concat {others : List View} (h : v.concat others = .ok w) : w.Narrowed := by
  obtain ⟨parts, -, h⟩ := bind_eq_ok h
  obtain ⟨t, -, h⟩ := bind_eq_ok h
  obtain rfl := Except.ok.inj h
  exact narrowed_of_none rfl

theorem narrowed_of_intersect {others : List View} (h : v.intersect others = .ok w) :
    w.Narrowed := by
  obtain ⟨first, hfirst, h⟩ := bind_eq_ok h
  exact foldlM_except_keeps Narrowed (fun _ _ _ _ _ hstep => narrowed_of_semijoin hstep)
    (narrowed_of_dedupe hfirst) h

theorem narrowed_of_except {others : List View} (h : v.except others = .ok w) : w.Narrowed := by
  obtain ⟨first, hfirst, h⟩ := bind_eq_ok h
  exact foldlM_except_keeps Narrowed (fun _ _ _ _ _ hstep => narrowed_of_antijoin hstep)
    (narrowed_of_dedupe hfirst) h

end View

/-- Every verb keeps the groups narrowed to the visible rows. -/
theorem Verb.narrowed_run {v w : View} {key : RowKey} (verb : Verb) (hv : v.Sound key)
    (hn : v.Narrowed) (h : verb.run v = .ok w) : w.Narrowed := by
  cases verb with
  | filter predicate => exact View.narrowed_of_filterBy h
  | slice start stop => exact View.narrowed_of_slice h
  | dedupe names => exact View.narrowed_of_dedupe h
  | derive exprs => exact hn.of_deriveAt h
  | deriveAt exprs placement => exact hn.of_deriveAt h
  | params values => exact Except.ok.inj h ▸ hn.congr rfl rfl
  | select names => exact hn.of_select h
  | rename renames => exact hn.of_rename h
  | relocate names placement => exact hn.of_relocate h
  | groupBy names => exact hv.narrowed_of_groupByKeys h
  | groupByKeys keys => exact hv.narrowed_of_groupByKeys h
  | ungroup => exact Except.ok.inj h ▸ View.narrowed_of_none rfl
  | orderBy keys => exact hn.of_orderBy h
  | unorder => exact Except.ok.inj h ▸ hn.congr rfl rfl
  | rollup exprs => exact View.narrowed_of_rollup h
  | count name => exact View.narrowed_of_rollup h
  | reify => exact hv.narrowed_of_reify hn (QueryError.ofRead_eq_ok h)
  | reifyRows rows => exact hv.narrowed_of_reifyRows h
  | join other condition columns o => exact View.narrowed_of_join h
  | cross other columns o => exact View.narrowed_of_join h
  | semijoin other condition => exact View.narrowed_of_semijoin h
  | antijoin other condition => exact View.narrowed_of_antijoin h
  | lookup other condition names => exact hn.of_lookup h
  | concat others => exact View.narrowed_of_concat h
  | union others =>
    obtain ⟨stacked, -, h⟩ := bind_eq_ok h
    exact View.narrowed_of_dedupe h
  | intersect others => exact View.narrowed_of_intersect h
  | except others => exact View.narrowed_of_except h
  | setFilter rows => exact Except.ok.inj h ▸ View.narrowed_withFilter v rows
  | clearFilter => exact Except.ok.inj h ▸ hv.narrowed_withoutFilter

/-- The groups that a reachable view shows are those of all rows, restricted to the visible
    rows. -/
theorem narrowed_of_reachable {v : View} {key : RowKey} (h : ReachableWith v key) :
    v.Narrowed := by
  induction h with
  | table _ => exact View.narrowed_of_none rfl
  | step verb others hv _ _ _ hrun ih _ =>
    exact verb.narrowed_run (sound_of_reachable hv) ih hrun

end ColumnQuery
