/-
  The views that pipelines reach.

  A pipeline starts from a table and applies verbs, each of which must succeed; other views that
  a verb takes in come from pipelines too. Besides the verbs, a filter may be set to any set of
  rows of the table, or cleared. `ReachableWith v key` also follows the grouping keys: grouping
  evaluates the keys of all rows, copying rows copies their keys, and nothing else changes them.

  Every view reached this way has overlays that fit: filter and sort keys are as long as the
  table, and the groups are exactly the classes of visible rows with the same key, each with
  its least row (`overlaysFit_of_reachable`). A step keeps soundness (`Verb.sound_run`), and a
  pipeline is a run of steps (`sound_of_reachable`).
-/
import ColumnQuery.Proofs.View.Overlays

namespace ColumnQuery

/-- A verb with its arguments. -/
inductive Verb where
  | filter (predicate : ExprSpec)
  | slice (start : Int) (stop : Option Int)
  | dedupe (names : List String)
  | derive (exprs : List (String × ExprSpec))
  | deriveAt (exprs : List (String × ExprSpec)) (placement : Placement)
  | params (values : List (String × Value))
  | select (names : List String)
  | rename (renames : List (String × String))
  | relocate (names : List String) (placement : Placement)
  | groupBy (names : List String)
  | groupByKeys (keys : List (String × ExprSpec))
  | ungroup
  | orderBy (keys : List OrderBy)
  | unorder
  | rollup (exprs : List (String × ExprSpec))
  | count (name : Option String)
  | reify
  | reifyRows (rows : List Nat)
  | join (other : View) (condition : JoinCondition) (columns : JoinColumns) (o : JoinOptions)
  | cross (other : View) (columns : JoinColumns) (o : JoinOptions)
  | semijoin (other : View) (condition : JoinCondition)
  | antijoin (other : View) (condition : JoinCondition)
  | lookup (other : View) (condition : JoinCondition) (names : List String)
  | concat (others : List View)
  | union (others : List View)
  | intersect (others : List View)
  | except (others : List View)
  /-- Shows exactly the rows of a set. -/
  | setFilter (rows : BitSet)
  /-- Shows all rows. -/
  | clearFilter

namespace Verb

/-- The other views that a verb takes in. -/
def others : Verb → List View
  | join other _ _ _ | cross other _ _ | semijoin other _ | antijoin other _
  | lookup other _ _ => [other]
  | concat others | union others | intersect others | except others => others
  | _ => []

/-- A filter that is set is a set of rows of the table. -/
def Fits (v : View) : Verb → Prop
  | setFilter rows => rows.WellFormed ∧ rows.length = v.totalRows
  | _ => True

/-- The view after a verb. -/
def run (v : View) : Verb → Except QueryError View
  | filter predicate => v.filterBy predicate
  | slice start stop => v.slice start stop
  | dedupe names => v.dedupe names
  | derive exprs => v.derive exprs
  | deriveAt exprs placement => v.deriveAt exprs placement
  | params values => .ok (v.addParams values)
  | select names => v.select names
  | rename renames => v.rename renames
  | relocate names placement => v.relocate names placement
  | groupBy names => v.groupBy names
  | groupByKeys keys => v.groupByKeys keys
  | ungroup => .ok v.ungroup
  | orderBy keys => v.orderBy keys
  | unorder => .ok v.unorder
  | rollup exprs => v.rollup exprs
  | count name => v.countRows name
  | reify => QueryError.ofRead v.reify
  | reifyRows rows => v.reifyRows rows
  | join other condition columns o => v.join other condition columns o
  | cross other columns o => v.cross other columns o
  | semijoin other condition => v.semijoin other condition
  | antijoin other condition => v.antijoin other condition
  | lookup other condition names => v.lookup other condition names
  | concat others => v.concat others
  | union others => v.union others
  | intersect others => v.intersect others
  | except others => v.except others
  | setFilter rows => .ok (v.withFilter rows)
  | clearFilter => .ok v.withoutFilter

/-- The grouping keys of the rows after a verb. -/
def keyAfter (v : View) (key : RowKey) : Verb → RowKey
  | groupBy names => v.groupKey (names.map fun n => (n, .column n))
  | groupByKeys keys => v.groupKey keys
  | reify => v.reifiedKey key
  | reifyRows rows => fun i => rows[i]?.bind key
  | _ => key

/-- Every verb keeps the overlays sound. -/
theorem sound_run {v w : View} {key : RowKey} (verb : Verb) (hv : v.Sound key)
    (hfits : verb.Fits v) (h : verb.run v = .ok w) : w.Sound (verb.keyAfter v key) := by
  cases verb with
  | filter predicate => exact hv.of_filterBy h
  | slice start stop => exact hv.of_slice h
  | dedupe names => exact hv.of_dedupe h
  | derive exprs => exact hv.of_deriveAt h
  | deriveAt exprs placement => exact hv.of_deriveAt h
  | params values => exact Except.ok.inj h ▸ hv.addParams values
  | select names => exact hv.of_select h
  | rename renames => exact hv.of_rename h
  | relocate names placement => exact hv.of_relocate h
  | groupBy names => exact hv.of_groupBy h
  | groupByKeys keys => exact hv.of_groupByKeys h
  | ungroup => exact Except.ok.inj h ▸ hv.ungroup
  | orderBy keys => exact hv.of_orderBy h
  | unorder => exact Except.ok.inj h ▸ hv.unorder
  | rollup exprs => exact View.sound_of_rollup key h
  | count name => exact View.sound_of_rollup key h
  | reify => exact hv.of_reify (QueryError.ofRead_eq_ok h)
  | reifyRows rows => exact hv.of_reifyRows h
  | join other condition columns o => exact View.sound_of_join key h
  | cross other columns o => exact View.sound_of_join key h
  | semijoin other condition => exact hv.of_semijoin h
  | antijoin other condition => exact hv.of_antijoin h
  | lookup other condition names => exact hv.of_lookup h
  | concat others => exact View.sound_of_concat key h
  | union others => exact View.sound_of_union key h
  | intersect others => exact hv.of_intersect h
  | except others => exact hv.of_except h
  | setFilter rows => exact Except.ok.inj h ▸ hv.withFilter hfits.1 hfits.2
  | clearFilter => exact Except.ok.inj h ▸ hv.withoutFilter

end Verb

/-- The views that pipelines reach, with the keys by which their rows are grouped. -/
inductive ReachableWith : View → RowKey → Prop where
  | table {t : Table} (ht : t.WellFormed) : ReachableWith (.ofTable t) fun _ => none
  | step {v w : View} {key : RowKey} (verb : Verb) (others : List (View × RowKey))
      (hv : ReachableWith v key) (hothers : ∀ e ∈ others, ReachableWith e.1 e.2)
      (hverb : verb.others = others.map (·.1)) (hfits : verb.Fits v)
      (hrun : verb.run v = .ok w) : ReachableWith w (verb.keyAfter v key)

/-- The views that pipelines reach. -/
def Reachable (v : View) : Prop := ∃ key, ReachableWith v key

theorem sound_of_reachable {v : View} {key : RowKey} (h : ReachableWith v key) : v.Sound key := by
  induction h with
  | table ht => exact View.sound_ofTable ht _
  | step verb others _ _ _ hfits hrun ih _ => exact verb.sound_run ih hfits hrun

/-! ## Overlays that fit -/

/-- The groups of the visible ones among `total` rows, by key. -/
structure GroupTable.Fits (t : GroupTable) (total : Nat) (visible : List Nat) (key : RowKey) :
    Prop where
  keys_size : t.keys.size = total
  values_length : t.values.length = t.size
  rows_length : t.rows.length = t.size
  grouped : ∀ row ∈ visible, ∃ g < t.size, t.keys[row]? = some (some g)
  hidden : ∀ row < total, row ∉ visible → t.keys[row]? = some none
  occupied : ∀ g < t.size, ∃ row ∈ visible, t.keys[row]? = some (some g)
  least : ∀ g < t.size, ∃ row ∈ visible, t.rows[g]? = some row ∧ t.keys[row]? = some (some g) ∧
    ∀ other ∈ visible, t.keys[other]? = some (some g) → row ≤ other
  same_group : ∀ a ∈ visible, ∀ b ∈ visible, ∃ k l, key a = some k ∧ key b = some l ∧
    (t.keys[a]? = t.keys[b]? ↔ Value.sameItems k l = true)
  value_of : ∀ row g : Nat, t.keys[row]? = some (some g) →
    ∃ k v, key row = some k ∧ t.values[g]? = some v ∧ Value.sameItems v k = true

/-- The overlays of a view fit its table. -/
structure View.OverlaysFit (v : View) (key : RowKey) : Prop where
  filter : ∀ f, v.filter = some f → f.length = v.totalRows
  order : ∀ o, v.order = some o → ∀ k ∈ o.keys, k.values.size = v.totalRows
  groups : ∀ g, v.groups = some g → g.shown.Fits v.totalRows v.visible key

theorem GroupTable.keys_eq_none {t : GroupTable} {row : Nat} (hrow : row < t.keys.size)
    (h : t.groupOf row = none) : t.keys[row]? = some none := by
  unfold groupOf at h
  rw [Array.getElem?_eq_getElem hrow] at h ⊢
  exact congrArg some h

theorem View.Sound.groups_fit {v : View} {key : RowKey} (hv : v.Sound key) {g : Grouping}
    (hg : v.groups = some g) : g.shown.Fits v.totalRows v.visible key := by
  obtain ⟨-, hnumbers, hleast⟩ := hv.groups g hg
  have hgroup : ∀ row ∈ v.visible, ∃ i, g.shown.groupOf row = some i := by
    intro row hrow
    obtain ⟨hlt, hshown⟩ := (hv.mem_visible row).1 hrow
    exact hnumbers.exists_groupOf hlt hshown
  have hvisible : ∀ {row i}, g.shown.groupOf row = some i → row ∈ v.visible := by
    intro row i hi
    have hsome := hnumbers.isSome_groupOf row
    rw [hi] at hsome
    rw [hv.mem_visible]
    simpa using hsome
  have hrows : ∀ i < g.shown.size, ∃ row ∈ v.visible, g.shown.rows[i]? = some row ∧
      g.shown.keys[row]? = some (some i) ∧
      ∀ other ∈ v.visible, g.shown.keys[other]? = some (some i) → row ≤ other := by
    intro i hi
    obtain ⟨row, hrow, hri, hle⟩ := hleast.least i hi
    refine ⟨row, hvisible hri, hrow, GroupTable.groupOf_eq_some_iff.1 hri, ?_⟩
    intro other _ hother
    exact hle other (GroupTable.groupOf_eq_some_iff.2 hother)
  refine ⟨hnumbers.keys_size, hnumbers.values_length, hleast.rows_length, ?_, ?_, ?_, hrows, ?_,
    fun row i hi => hnumbers.value_of row i (GroupTable.groupOf_eq_some_iff.2 hi)⟩
  · intro row hrow
    obtain ⟨i, hi⟩ := hgroup row hrow
    exact ⟨i, hnumbers.lt_size hi, GroupTable.groupOf_eq_some_iff.1 hi⟩
  · intro row hrow hhidden
    have hshown : v.shows row = false := by
      rw [hv.mem_visible] at hhidden
      simpa [hrow] using hhidden
    exact GroupTable.keys_eq_none (by rw [hnumbers.keys_size]; exact hrow)
      (hnumbers.groupOf_eq_none hshown)
  · intro i hi
    obtain ⟨row, hrow, -, hri, -⟩ := hrows i hi
    exact ⟨row, hrow, hri⟩
  · intro a ha b hb
    obtain ⟨i, hi⟩ := hgroup a ha
    obtain ⟨j, hj⟩ := hgroup b hb
    obtain ⟨k, -, hk, -, -⟩ := hnumbers.value_of a i hi
    obtain ⟨l, -, hl, -, -⟩ := hnumbers.value_of b j hj
    refine ⟨k, l, hk, hl, ?_⟩
    rw [← hnumbers.groupOf_eq_iff hi hj hk hl, GroupTable.groupOf_eq_some_iff.1 hi,
      GroupTable.groupOf_eq_some_iff.1 hj]
    simp

/-- Every view that a pipeline reaches has overlays that fit its table. -/
theorem overlaysFit_of_reachable {v : View} {key : RowKey} (h : ReachableWith v key) :
    v.OverlaysFit key := by
  have hv := sound_of_reachable h
  refine ⟨fun f hf => (hv.filter f hf).2, fun o ho => hv.order o ho, fun g hg => ?_⟩
  exact hv.groups_fit hg

/-- A column of four letters, two of them the same. -/
def letters : Table := ⟨[("x", .ofValues [.string "a", .string "b", .string "a", .string "c"])], 4⟩

theorem letters_wellFormed : letters.WellFormed :=
  Table.wellFormed_ofValues [("x", [.string "a", .string "b", .string "a", .string "c"])] rfl

/-- Grouped letters: the first and the third row are one of three groups. -/
theorem exists_groupBy_letters : ∃ v, (View.ofTable letters).groupBy ["x"] = .ok v ∧
    Reachable v ∧ v.groupCount = 3 ∧ 2 ∈ v.visible ∧ v.groupOf 2 = some 0 ∧
    (∀ groups, v.groups = some groups → groups.shown.names.Nodup) ∧
    ∀ exprs options, v.resolve exprs options = (View.ofTable letters).resolve exprs options := by
  obtain ⟨v, hgrouped⟩ : ∃ v, (View.ofTable letters).groupBy ["x"] = .ok v := ⟨_, rfl⟩
  have hreach : Reachable v :=
    ⟨_, .step (.groupBy ["x"]) [] (.table letters_wellFormed) (by simp) rfl trivial hgrouped⟩
  refine ⟨v, hgrouped, hreach, ?_⟩
  cases hgrouped
  refine ⟨by decide +kernel, by decide +kernel, by decide +kernel, ?_, fun _ _ => rfl⟩
  rintro groups ⟨⟩
  decide +kernel

/-- Grouped letters, of which the first one is hidden. -/
theorem overlaysFit_letters : ∃ (v : View) (key : RowKey), ReachableWith v key ∧
    v.visible = [1, 2, 3] ∧
    v.groups.map (·.shown.keys) = some #[none, some 1, some 0, some 2] ∧ v.OverlaysFit key := by
  obtain ⟨hwf, hlen, -⟩ := BitSet.ofPredicate_spec 4 (0 < ·)
  obtain ⟨grouped, hgrouped⟩ : ∃ v, Verb.run (.ofTable letters) (.groupBy ["x"]) = .ok v :=
    ⟨_, rfl⟩
  have hreach : ReachableWith (grouped.withFilter (.ofPredicate 4 (0 < ·))) _ :=
    .step (.setFilter _) [] (.step (.groupBy ["x"]) [] (.table letters_wellFormed) (by simp) rfl
      trivial hgrouped) (by simp) rfl ⟨hwf, by cases hgrouped; exact hlen⟩ rfl
  refine ⟨_, _, hreach, ?_, ?_, overlaysFit_of_reachable hreach⟩
  · cases hgrouped
    rfl
  · cases hgrouped
    decide +kernel

end ColumnQuery
