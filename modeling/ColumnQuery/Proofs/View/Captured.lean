/-
  The captured keys of groups.

  Groups keep the values of their keys. They are built from the rows that are grouped, and from
  then on only narrowed to the visible rows or copied with their rows (`Grouping.Made`); no verb
  does anything else to them (`Verb.made_run`). However they come about, every group has exactly
  one value for each name of a key (`complete_of_reachable`), so the key columns of a roll-up read
  no value that was not captured.
-/
import ColumnQuery.Proofs.View.Reachable

namespace ColumnQuery

/-! ## Groups -/

namespace GroupTable

variable {t u : GroupTable}

/-- Every group has one value for each name of a key. -/
def Complete (t : GroupTable) : Prop := ∀ key ∈ t.values, key.length = t.names.length

theorem complete_add? {row : Nat} {key : List Value} (ht : t.Complete)
    (hkey : key.length = t.names.length) (h : t.add? row key = some u) :
    u.Complete ∧ u.names = t.names := by
  unfold add? groupFor at h
  split at h
  case isFalse => cases h
  case isTrue =>
  obtain rfl := Option.some.inj h
  cases t.values.findIdx? (Value.sameItems · key) with
  | some g => exact ⟨ht, rfl⟩
  | none =>
    refine ⟨fun other hother => ?_, rfl⟩
    rcases List.mem_append.1 hother with hother | hother
    · exact ht other hother
    · rw [List.mem_singleton.1 hother]
      exact hkey

theorem complete_build? {names : List String} {keys : List Formula} {rows : List Nat}
    {total : Nat} (hnames : names.length = keys.length)
    (h : build? names keys rows total = some t) : t.Complete := by
  have hempty : (empty names total).Complete ∧ (empty names total).names = names :=
    ⟨nofun, rfl⟩
  refine (foldlM_option_keeps (fun t : GroupTable => t.Complete ∧ t.names = names)
    (fun b row b' _ hb hstep => ?_) hempty h).1
  obtain ⟨key, hkey, hadd⟩ := Option.bind_eq_some_iff.1 hstep
  have hlength : key.length = b.names.length := by
    rw [hb.2, hnames]
    exact length_of_mapM hkey
  obtain ⟨hcomplete, hsame⟩ := complete_add? hb.1 hlength hadd
  exact ⟨hcomplete, hsame.trans hb.2⟩

/-- The groups that are kept keep their values. -/
theorem Complete.restrict (ht : t.Complete) (ids : Array (Option Nat)) :
    (t.restrict ids).Complete := by
  intro key hkey
  obtain ⟨e, -, he⟩ := List.mem_filterMap.1 hkey
  exact ht key (List.mem_of_getElem? he)

end GroupTable

namespace Grouping

/-- Groupings as verbs make them: built from rows, then narrowed or copied. -/
inductive Made : Grouping → Prop where
  | built {names : List String} {keys : List Formula} {rows : List Nat} {total : Nat}
      {t : GroupTable} (hnames : names.length = keys.length)
      (h : GroupTable.build? names keys rows total = some t) : Made (.ofTable t)
  | narrowed {g : Grouping} (h : Made g) (rows : BitSet) : Made (g.narrow rows)
  | copied {g copy : Grouping} {rows : List Nat} (h : Made g) (hcopy : g.take? rows = some copy) :
      Made copy

theorem Made.complete {g : Grouping} (h : g.Made) : g.shown.Complete ∧ g.whole.Complete := by
  induction h with
  | built hnames h =>
    have ht := GroupTable.complete_build? hnames h
    exact ⟨ht, ht⟩
  | narrowed _ rows ih => exact ⟨ih.2.restrict _, ih.2⟩
  | copied _ hcopy ih =>
    obtain ⟨ids, -, rfl⟩ := Option.map_eq_some_iff.1 hcopy
    exact ⟨ih.2.restrict _, ih.2.restrict _⟩

end Grouping

/-! ## Verbs -/

namespace View

variable {v w : View}

/-- The groups of a view, if it has any, are made by verbs. -/
def GroupsMade (v : View) : Prop := ∀ g, v.groups = some g → g.Made

theorem groupsMade_of_none (h : v.groups = none) : v.GroupsMade := by
  intro g hg
  rw [h] at hg
  cases hg

theorem GroupsMade.withFilter (hv : v.GroupsMade) (f : BitSet) : (v.withFilter f).GroupsMade := by
  intro g hg
  obtain ⟨old, hold, rfl⟩ := Option.map_eq_some_iff.1 hg
  exact .narrowed (hv old hold) f

theorem GroupsMade.withoutFilter (hv : v.GroupsMade) : v.withoutFilter.GroupsMade := by
  intro g hg
  obtain ⟨old, hold, rfl⟩ := Option.map_eq_some_iff.1 hg
  exact .narrowed (hv old hold) _

theorem GroupsMade.of_keepRows (hv : v.GroupsMade) {rows : List Nat}
    (h : v.keepRows rows = .ok w) : w.GroupsMade := by
  obtain ⟨f, -, rfl⟩ := Option.map_eq_some_iff.1 (QueryError.ofRead_eq_ok h)
  exact hv.withFilter f

theorem GroupsMade.of_dedupe (hv : v.GroupsMade) {names : List String}
    (h : v.dedupe names = .ok w) : w.GroupsMade := by
  obtain ⟨columns, -, h⟩ := bind_eq_ok h
  obtain ⟨rows, -, h⟩ := bind_eq_ok h
  exact hv.of_keepRows h

theorem GroupsMade.of_semijoin (hv : v.GroupsMade) {other : View} {c : JoinCondition}
    (h : v.semijoin other c = .ok w) : w.GroupsMade := by
  obtain ⟨f, -, h⟩ := bind_eq_ok h
  obtain rfl := Except.ok.inj h
  exact hv.withFilter f

theorem GroupsMade.of_antijoin (hv : v.GroupsMade) {other : View} {c : JoinCondition}
    (h : v.antijoin other c = .ok w) : w.GroupsMade := by
  obtain ⟨f, -, h⟩ := bind_eq_ok h
  simp only [] at h
  split at h
  next =>
    obtain ⟨inter, -, h⟩ := bind_eq_ok h
    obtain rfl := Except.ok.inj h
    exact hv.withFilter inter
  next =>
    obtain rfl := Except.ok.inj h
    exact hv.withFilter f.complement

theorem groups_of_deriveAt {exprs : List (String × ExprSpec)} {p : Placement}
    (h : v.deriveAt exprs p = .ok w) : w.groups = v.groups := by
  unfold deriveAt at h
  obtain ⟨r, -, h⟩ := bind_eq_ok h
  obtain ⟨results, -, h⟩ := bind_eq_ok h
  obtain ⟨t, -, h⟩ := bind_eq_ok h
  obtain ⟨names, -, h⟩ := bind_eq_ok h
  simp only [] at h
  split at h
  · obtain rfl := Except.ok.inj h
    rfl
  · obtain ⟨u, -, h⟩ := bind_eq_ok h
    obtain rfl := Except.ok.inj h
    rfl

theorem groups_of_select {names : List String} (h : v.select names = .ok w) :
    w.groups = v.groups := by
  obtain ⟨t, -, h⟩ := bind_eq_ok h
  obtain rfl := Except.ok.inj h
  rfl

theorem groups_of_rename {renames : List (String × String)} (h : v.rename renames = .ok w) :
    w.groups = v.groups := by
  obtain ⟨-, -, h⟩ := bind_eq_ok h
  obtain ⟨t, -, h⟩ := bind_eq_ok h
  obtain rfl := Except.ok.inj h
  rfl

theorem groups_of_relocate {names : List String} {p : Placement}
    (h : v.relocate names p = .ok w) : w.groups = v.groups := by
  obtain ⟨-, -, h⟩ := bind_eq_ok h
  obtain ⟨order, -, h⟩ := bind_eq_ok h
  obtain ⟨t, -, h⟩ := bind_eq_ok h
  obtain rfl := Except.ok.inj h
  rfl

theorem groups_of_lookup {other : View} {c : JoinCondition} {names : List String}
    (h : v.lookup other c names = .ok w) : w.groups = v.groups := by
  obtain ⟨columns, -, h⟩ := bind_eq_ok h
  obtain ⟨m, -, h⟩ := bind_eq_ok h
  obtain ⟨found, -, h⟩ := bind_eq_ok h
  obtain ⟨t, -, h⟩ := bind_eq_ok h
  obtain rfl := Except.ok.inj h
  rfl

theorem groups_of_orderBy {keys : List OrderBy} (h : v.orderBy keys = .ok w) :
    w.groups = v.groups := by
  obtain ⟨r, -, h⟩ := bind_eq_ok h
  obtain ⟨o, -, rfl⟩ := Option.map_eq_some_iff.1 (QueryError.ofRead_eq_ok h)
  rfl

/-- New groups have the resolved keys and their names. -/
theorem groupsMade_of_groupByKeys {keys : List (String × ExprSpec)}
    (h : v.groupByKeys keys = .ok w) : w.GroupsMade := by
  unfold groupByKeys at h
  obtain ⟨r, -, h⟩ := bind_eq_ok h
  obtain ⟨hidden, -, h⟩ := Option.bind_eq_some_iff.1 (QueryError.ofRead_eq_ok h)
  obtain ⟨t, ht, h⟩ := Option.bind_eq_some_iff.1 h
  obtain rfl := Option.some.inj h
  have hmade : (Grouping.ofTable t).Made := .built (by simp) ht
  intro g hg
  obtain rfl := Option.some.inj hg
  split
  · exact .narrowed hmade _
  · exact hmade

theorem GroupsMade.of_takeRows (hv : v.GroupsMade) {rows : List Nat}
    (h : v.takeRows rows = some w) : w.GroupsMade := by
  obtain ⟨data, groups, -, hgroups, rfl⟩ := takeRows_eq_some h
  cases hold : v.groups with
  | none =>
    rw [hold] at hgroups
    exact groupsMade_of_none (Option.some.inj hgroups).symm
  | some old =>
    rw [hold] at hgroups
    obtain ⟨copy, hcopy, hsome⟩ := Option.map_eq_some_iff.1 hgroups
    intro g hg
    obtain rfl : copy = g := Option.some.inj (hsome.trans hg)
    exact .copied (hv old hold) hcopy

theorem GroupsMade.of_reify (hv : v.GroupsMade) (h : v.reify = some w) : w.GroupsMade := by
  rcases reify_eq_some h with ⟨-, rfl⟩ | ⟨-, rows, copy, order, -, hcopy, -, rfl⟩
  · exact hv
  · exact fun g hg => hv.of_takeRows hcopy g hg

theorem GroupsMade.of_reifyRows (hv : v.GroupsMade) {rows : List Nat}
    (h : v.reifyRows rows = .ok w) : w.GroupsMade := by
  unfold reifyRows at h
  split at h
  next => cases h
  next => exact hv.of_takeRows (QueryError.ofRead_eq_ok h)

theorem groups_of_rollup {exprs : List (String × ExprSpec)} (h : v.rollup exprs = .ok w) :
    w.groups = none := by
  obtain ⟨r, -, h⟩ := bind_eq_ok h
  obtain ⟨results, -, h⟩ := bind_eq_ok h
  obtain ⟨keys, -, h⟩ := bind_eq_ok h
  obtain ⟨t, -, h⟩ := bind_eq_ok h
  obtain rfl := Except.ok.inj h
  rfl

theorem groups_of_join {other : View} {c : JoinCondition} {columns : JoinColumns}
    {o : JoinOptions} (h : v.join other c columns o = .ok w) : w.groups = none := by
  obtain ⟨m, -, h⟩ := bind_eq_ok h
  obtain ⟨exprs, -, h⟩ := bind_eq_ok h
  obtain ⟨r, -, h⟩ := bind_eq_ok h
  obtain ⟨found, -, h⟩ := bind_eq_ok h
  obtain ⟨t, -, h⟩ := bind_eq_ok h
  obtain rfl := Except.ok.inj h
  rfl

theorem groups_of_concat {others : List View} (h : v.concat others = .ok w) :
    w.groups = none := by
  obtain ⟨parts, -, h⟩ := bind_eq_ok h
  obtain ⟨t, -, h⟩ := bind_eq_ok h
  obtain rfl := Except.ok.inj h
  rfl

end View

/-- Every verb leaves groups that verbs make. -/
theorem Verb.made_run {v w : View} (verb : Verb) (hv : v.GroupsMade) (h : verb.run v = .ok w) :
    w.GroupsMade := by
  have hsame : w.groups = v.groups → w.GroupsMade := fun hgroups g hg => hv g (hgroups ▸ hg)
  cases verb with
  | filter predicate =>
    obtain ⟨r, -, h⟩ := bind_eq_ok h
    obtain ⟨rows, -, h⟩ := bind_eq_ok h
    exact hv.of_keepRows h
  | slice start stop =>
    obtain ⟨parts, -, h⟩ := bind_eq_ok h
    exact hv.of_keepRows h
  | dedupe names => exact hv.of_dedupe h
  | derive exprs => exact hsame (View.groups_of_deriveAt h)
  | deriveAt exprs placement => exact hsame (View.groups_of_deriveAt h)
  | params values => exact Except.ok.inj h ▸ hv
  | select names => exact hsame (View.groups_of_select h)
  | rename renames => exact hsame (View.groups_of_rename h)
  | relocate names placement => exact hsame (View.groups_of_relocate h)
  | groupBy names => exact View.groupsMade_of_groupByKeys h
  | groupByKeys keys => exact View.groupsMade_of_groupByKeys h
  | ungroup => exact Except.ok.inj h ▸ View.groupsMade_of_none rfl
  | orderBy keys => exact hsame (View.groups_of_orderBy h)
  | unorder => exact Except.ok.inj h ▸ hv
  | rollup exprs => exact View.groupsMade_of_none (View.groups_of_rollup h)
  | count name => exact View.groupsMade_of_none (View.groups_of_rollup h)
  | reify => exact hv.of_reify (QueryError.ofRead_eq_ok h)
  | reifyRows rows => exact hv.of_reifyRows h
  | join other condition columns o => exact View.groupsMade_of_none (View.groups_of_join h)
  | cross other columns o => exact View.groupsMade_of_none (View.groups_of_join h)
  | semijoin other condition => exact hv.of_semijoin h
  | antijoin other condition => exact hv.of_antijoin h
  | lookup other condition names => exact hsame (View.groups_of_lookup h)
  | concat others => exact View.groupsMade_of_none (View.groups_of_concat h)
  | union others =>
    obtain ⟨stacked, hstacked, h⟩ := bind_eq_ok h
    exact (View.groupsMade_of_none (View.groups_of_concat hstacked)).of_dedupe h
  | intersect others =>
    obtain ⟨first, hfirst, h⟩ := bind_eq_ok h
    exact foldlM_except_keeps View.GroupsMade (fun _ _ _ _ hb hstep => hb.of_semijoin hstep)
      (hv.of_dedupe hfirst) h
  | except others =>
    obtain ⟨first, hfirst, h⟩ := bind_eq_ok h
    exact foldlM_except_keeps View.GroupsMade (fun _ _ _ _ hb hstep => hb.of_antijoin hstep)
      (hv.of_dedupe hfirst) h
  | setFilter rows => exact Except.ok.inj h ▸ hv.withFilter rows
  | clearFilter => exact Except.ok.inj h ▸ hv.withoutFilter

theorem groupsMade_of_reachable {v : View} {key : RowKey} (h : ReachableWith v key) :
    v.GroupsMade := by
  induction h with
  | table _ => exact View.groupsMade_of_none rfl
  | step verb _ _ _ _ _ hrun ih _ => exact verb.made_run ih hrun

/-- The groups of a reachable view have one value for each name of a key. -/
theorem complete_of_reachable {v : View} {key : RowKey} (h : ReachableWith v key) {g : Grouping}
    (hg : v.groups = some g) : g.shown.Complete :=
  (groupsMade_of_reachable h g hg).complete.1

end ColumnQuery
