/-
  Dictionaries along pipelines.

  Encoding texts gives every text one word, copied rows keep the words, and the columns that verbs
  compute are no dictionaries. So the dictionaries of a view have distinct words if those of the
  tables have, from which the pipeline started: a verb keeps them (`Verb.distinctWords_run`), and so
  does a run of verbs (`ReachableCoded.wellCoded`). The tables that other views bring in do not
  matter, since a verb copies no column from them.
-/
import ColumnQuery.Proofs.Formula.Encodings
import ColumnQuery.Proofs.View.Reachable

namespace ColumnQuery

/-- A column of computed cells is no dictionary. -/
theorem Column.distinctWords_ofCells (cells : List Value) : (ofCells cells).DistinctWords := by
  unfold ofCells
  dsimp only
  split <;> trivial

namespace Table

/-- No dictionary of a table has a word twice. -/
def DistinctWords (t : Table) : Prop := ∀ e ∈ t.columns, e.2.DistinctWords

variable {t u : Table} {name : String} {c : Column}

theorem distinctWords_withRows (n : Nat) : (withRows n).DistinctWords := by
  simp [DistinctWords, withRows]

theorem DistinctWords.add (ht : t.DistinctWords) (hc : c.DistinctWords)
    (h : t.add name c = .ok u) : u.DistinctWords := by
  obtain ⟨-, -, rfl⟩ := add_eq_ok h
  exact List.forall_mem_append.2 ⟨ht, List.forall_mem_singleton.2 hc⟩

theorem DistinctWords.set (ht : t.DistinctWords) (hc : c.DistinctWords)
    (h : t.set name c = .ok u) : u.DistinctWords := by
  rcases set_eq_ok h with hadd | ⟨-, -, rfl⟩
  · exact ht.add hc hadd
  · refine List.forall_mem_map.2 fun e he => ?_
    split
    next => exact hc
    next => exact ht e he

theorem DistinctWords.project (ht : t.DistinctWords) {columns : List (String × String)}
    (h : t.project columns = .ok u) : u.DistinctWords := by
  refine foldlM_except_keeps DistinctWords ?_ (distinctWords_withRows t.rowCount) h
  rintro b ⟨old, new⟩ b' - hb hstep
  cases hc : t.column? old with
  | none =>
    rw [hc] at hstep
    cases hstep
  | some c =>
    rw [hc] at hstep
    exact hb.add (ht _ (mem_of_column? hc)) hstep

theorem DistinctWords.of_take? (ht : t.DistinctWords) {rows : List Nat}
    (h : t.take? rows = some u) : u.DistinctWords := by
  intro e he
  obtain ⟨d, hd, hde⟩ := mem_of_mapM (take?_eq_some h).1 he
  obtain ⟨c, hc, rfl⟩ := Option.map_eq_some_iff.1 hde
  exact (ht d hd).of_take? hc

end Table

namespace View

variable {v w : View}

/-! ## Verbs that leave the table alone -/

theorem data_of_keepRows {rows : List Nat} (h : v.keepRows rows = .ok w) : w.data = v.data := by
  obtain ⟨f, -, rfl⟩ := Option.map_eq_some_iff.1 (QueryError.ofRead_eq_ok h)
  rfl

theorem data_of_filterBy {p : ExprSpec} (h : v.filterBy p = .ok w) : w.data = v.data := by
  obtain ⟨r, -, h⟩ := bind_eq_ok h
  obtain ⟨rows, -, h⟩ := bind_eq_ok h
  exact data_of_keepRows h

theorem data_of_slice {start : Int} {stop : Option Int} (h : v.slice start stop = .ok w) :
    w.data = v.data := by
  obtain ⟨parts, -, h⟩ := bind_eq_ok h
  exact data_of_keepRows h

theorem data_of_dedupe {names : List String} (h : v.dedupe names = .ok w) : w.data = v.data := by
  obtain ⟨columns, -, h⟩ := bind_eq_ok h
  obtain ⟨rows, -, h⟩ := bind_eq_ok h
  exact data_of_keepRows h

theorem data_of_semijoin {other : View} {c : JoinCondition} (h : v.semijoin other c = .ok w) :
    w.data = v.data := by
  obtain ⟨f, -, h⟩ := bind_eq_ok h
  obtain rfl := Except.ok.inj h
  rfl

theorem data_of_antijoin {other : View} {c : JoinCondition} (h : v.antijoin other c = .ok w) :
    w.data = v.data := by
  obtain ⟨f, -, h⟩ := bind_eq_ok h
  simp only [] at h
  split at h
  next =>
    obtain ⟨inter, -, h⟩ := bind_eq_ok h
    obtain rfl := Except.ok.inj h
    rfl
  next =>
    obtain rfl := Except.ok.inj h
    rfl

theorem data_of_intersect {others : List View} (h : v.intersect others = .ok w) :
    w.data = v.data := by
  obtain ⟨first, hfirst, h⟩ := bind_eq_ok h
  exact foldlM_except_keeps (fun w : View => w.data = v.data)
    (fun _ _ _ _ hb hstep => (data_of_semijoin hstep).trans hb) (data_of_dedupe hfirst) h

theorem data_of_except {others : List View} (h : v.except others = .ok w) : w.data = v.data := by
  obtain ⟨first, hfirst, h⟩ := bind_eq_ok h
  exact foldlM_except_keeps (fun w : View => w.data = v.data)
    (fun _ _ _ _ hb hstep => (data_of_antijoin hstep).trans hb) (data_of_dedupe hfirst) h

theorem data_of_groupByKeys {keys : List (String × ExprSpec)} (h : v.groupByKeys keys = .ok w) :
    w.data = v.data := by
  unfold groupByKeys at h
  obtain ⟨r, -, h⟩ := bind_eq_ok h
  obtain ⟨hidden, -, h⟩ := Option.bind_eq_some_iff.1 (QueryError.ofRead_eq_ok h)
  obtain ⟨t, -, h⟩ := Option.bind_eq_some_iff.1 h
  obtain rfl := Option.some.inj h
  rfl

theorem data_of_orderBy {keys : List OrderBy} (h : v.orderBy keys = .ok w) : w.data = v.data := by
  obtain ⟨r, -, h⟩ := bind_eq_ok h
  obtain ⟨o, -, rfl⟩ := Option.map_eq_some_iff.1 (QueryError.ofRead_eq_ok h)
  rfl

/-! ## Verbs that change the columns -/

/-- Columns of computed cells, set one after the other. -/
theorem distinctWords_foldlM_set {ι : Type} {name : ι → String} {cells : ι → Option (List Value)}
    {items : List ι} {t u : Table} (ht : t.DistinctWords)
    (h : items.foldlM (fun t i => do
      QueryError.ofTable (t.set (name i) (.ofCells (← QueryError.ofRead (cells i))))) t = .ok u) :
    u.DistinctWords := by
  refine foldlM_except_keeps Table.DistinctWords (fun b i b' _ hb hstep => ?_) ht h
  obtain ⟨values, -, hstep⟩ := bind_eq_ok hstep
  exact hb.set (Column.distinctWords_ofCells values) (QueryError.ofTable_eq_ok hstep)

theorem distinctWords_of_deriveAt (hv : v.data.DistinctWords) {exprs : List (String × ExprSpec)}
    {p : Placement} (h : v.deriveAt exprs p = .ok w) : w.data.DistinctWords := by
  unfold deriveAt at h
  obtain ⟨r, -, h⟩ := bind_eq_ok h
  obtain ⟨results, -, h⟩ := bind_eq_ok h
  obtain ⟨t, ht, h⟩ := bind_eq_ok h
  obtain ⟨names, -, h⟩ := bind_eq_ok h
  have htable : t.DistinctWords := by
    refine foldlM_except_keeps Table.DistinctWords (fun b e b' _ hb hstep => ?_) hv ht
    obtain ⟨cells, -, hstep⟩ := bind_eq_ok hstep
    exact hb.set (Column.distinctWords_ofCells cells.toList) (QueryError.ofTable_eq_ok hstep)
  simp only [] at h
  split at h
  · obtain rfl := Except.ok.inj h
    exact htable
  · obtain ⟨u, hu, h⟩ := bind_eq_ok h
    obtain rfl := Except.ok.inj h
    exact htable.project (QueryError.ofTable_eq_ok hu)

theorem distinctWords_of_select (hv : v.data.DistinctWords) {names : List String}
    (h : v.select names = .ok w) : w.data.DistinctWords := by
  obtain ⟨t, ht, h⟩ := bind_eq_ok h
  obtain rfl := Except.ok.inj h
  exact hv.project (QueryError.ofTable_eq_ok ht)

theorem distinctWords_of_rename (hv : v.data.DistinctWords) {renames : List (String × String)}
    (h : v.rename renames = .ok w) : w.data.DistinctWords := by
  obtain ⟨-, -, h⟩ := bind_eq_ok h
  obtain ⟨t, ht, h⟩ := bind_eq_ok h
  obtain rfl := Except.ok.inj h
  exact hv.project (QueryError.ofTable_eq_ok ht)

theorem distinctWords_of_relocate (hv : v.data.DistinctWords) {names : List String}
    {p : Placement} (h : v.relocate names p = .ok w) : w.data.DistinctWords := by
  obtain ⟨-, -, h⟩ := bind_eq_ok h
  obtain ⟨order, -, h⟩ := bind_eq_ok h
  obtain ⟨t, ht, h⟩ := bind_eq_ok h
  obtain rfl := Except.ok.inj h
  exact hv.project (QueryError.ofTable_eq_ok ht)

theorem distinctWords_of_lookup (hv : v.data.DistinctWords) {other : View} {c : JoinCondition}
    {names : List String} (h : v.lookup other c names = .ok w) : w.data.DistinctWords := by
  obtain ⟨columns, -, h⟩ := bind_eq_ok h
  obtain ⟨m, -, h⟩ := bind_eq_ok h
  obtain ⟨found, -, h⟩ := bind_eq_ok h
  obtain ⟨t, ht, h⟩ := bind_eq_ok h
  obtain rfl := Except.ok.inj h
  exact distinctWords_foldlM_set hv ht

/-! ## Verbs that copy rows -/

theorem distinctWords_of_takeRows (hv : v.data.DistinctWords) {rows : List Nat}
    (h : v.takeRows rows = some w) : w.data.DistinctWords := by
  obtain ⟨data, groups, hdata, -, rfl⟩ := takeRows_eq_some h
  exact hv.of_take? hdata

theorem distinctWords_of_reify (hv : v.data.DistinctWords) (h : v.reify = some w) :
    w.data.DistinctWords := by
  rcases reify_eq_some h with ⟨-, rfl⟩ | ⟨-, rows, copy, order, -, hcopy, -, rfl⟩
  · exact hv
  · have hcopied : copy.data.DistinctWords := distinctWords_of_takeRows hv hcopy
    exact hcopied

theorem distinctWords_of_reifyRows (hv : v.data.DistinctWords) {rows : List Nat}
    (h : v.reifyRows rows = .ok w) : w.data.DistinctWords := by
  unfold reifyRows at h
  split at h
  next => cases h
  next => exact distinctWords_of_takeRows hv (QueryError.ofRead_eq_ok h)

/-! ## Fresh tables -/

theorem distinctWords_of_rollup {exprs : List (String × ExprSpec)} (h : v.rollup exprs = .ok w) :
    w.data.DistinctWords := by
  obtain ⟨r, -, h⟩ := bind_eq_ok h
  obtain ⟨results, -, h⟩ := bind_eq_ok h
  obtain ⟨keys, hkeys, h⟩ := bind_eq_ok h
  obtain ⟨t, ht, h⟩ := bind_eq_ok h
  obtain rfl := Except.ok.inj h
  have hkeyWords : keys.DistinctWords := by
    unfold keyTable at hkeys
    split at hkeys
    next g _ =>
      refine foldlM_except_keeps Table.DistinctWords (fun b e b' _ hb hstep => ?_)
        (Table.distinctWords_withRows _) hkeys
      exact hb.add (Column.distinctWords_ofCells _) (QueryError.ofTable_eq_ok hstep)
    next =>
      obtain rfl := Except.ok.inj hkeys
      exact Table.distinctWords_withRows 1
  exact distinctWords_foldlM_set hkeyWords ht

theorem distinctWords_of_join {other : View} {c : JoinCondition} {columns : JoinColumns}
    {o : JoinOptions} (h : v.join other c columns o = .ok w) : w.data.DistinctWords := by
  obtain ⟨m, -, h⟩ := bind_eq_ok h
  obtain ⟨exprs, -, h⟩ := bind_eq_ok h
  obtain ⟨r, -, h⟩ := bind_eq_ok h
  obtain ⟨found, -, h⟩ := bind_eq_ok h
  obtain ⟨t, ht, h⟩ := bind_eq_ok h
  obtain rfl := Except.ok.inj h
  exact distinctWords_foldlM_set (Table.distinctWords_withRows _) ht

theorem distinctWords_of_concat {others : List View} (h : v.concat others = .ok w) :
    w.data.DistinctWords := by
  obtain ⟨parts, -, h⟩ := bind_eq_ok h
  obtain ⟨t, ht, h⟩ := bind_eq_ok h
  obtain rfl := Except.ok.inj h
  refine foldlM_except_keeps Table.DistinctWords (fun b e b' _ hb hstep => ?_)
    (Table.distinctWords_withRows _) ht
  obtain ⟨cells, -, hstep⟩ := bind_eq_ok hstep
  exact hb.add (Column.distinctWords_ofCells cells.flatten) (QueryError.ofTable_eq_ok hstep)

end View

/-! ## Pipelines -/

/-- Every verb keeps the words of the dictionaries distinct. -/
theorem Verb.distinctWords_run {v w : View} (verb : Verb) (hv : v.data.DistinctWords)
    (h : verb.run v = .ok w) : w.data.DistinctWords := by
  cases verb with
  | filter predicate => exact View.data_of_filterBy h ▸ hv
  | slice start stop => exact View.data_of_slice h ▸ hv
  | dedupe names => exact View.data_of_dedupe h ▸ hv
  | derive exprs => exact View.distinctWords_of_deriveAt hv h
  | deriveAt exprs placement => exact View.distinctWords_of_deriveAt hv h
  | params values => exact Except.ok.inj h ▸ hv
  | select names => exact View.distinctWords_of_select hv h
  | rename renames => exact View.distinctWords_of_rename hv h
  | relocate names placement => exact View.distinctWords_of_relocate hv h
  | groupBy names => exact View.data_of_groupByKeys h ▸ hv
  | groupByKeys keys => exact View.data_of_groupByKeys h ▸ hv
  | ungroup => exact Except.ok.inj h ▸ hv
  | orderBy keys => exact View.data_of_orderBy h ▸ hv
  | unorder => exact Except.ok.inj h ▸ hv
  | rollup exprs => exact View.distinctWords_of_rollup h
  | count name => exact View.distinctWords_of_rollup h
  | reify => exact View.distinctWords_of_reify hv (QueryError.ofRead_eq_ok h)
  | reifyRows rows => exact View.distinctWords_of_reifyRows hv h
  | join other condition columns o => exact View.distinctWords_of_join h
  | cross other columns o => exact View.distinctWords_of_join h
  | semijoin other condition => exact View.data_of_semijoin h ▸ hv
  | antijoin other condition => exact View.data_of_antijoin h ▸ hv
  | lookup other condition names => exact View.distinctWords_of_lookup hv h
  | concat others => exact View.distinctWords_of_concat h
  | union others =>
    obtain ⟨stacked, hstacked, h⟩ := bind_eq_ok h
    exact View.data_of_dedupe h ▸ View.distinctWords_of_concat hstacked
  | intersect others => exact View.data_of_intersect h ▸ hv
  | except others => exact View.data_of_except h ▸ hv
  | setFilter rows => exact Except.ok.inj h ▸ hv
  | clearFilter => exact Except.ok.inj h ▸ hv

/-- The views that pipelines reach from tables whose dictionaries have no word twice. -/
inductive ReachableCoded : View → Prop where
  | table {t : Table} (ht : t.WellCoded) : ReachableCoded (.ofTable t)
  | step {v w : View} (verb : Verb) (hv : ReachableCoded v)
      (hothers : ∀ other ∈ verb.others, ReachableCoded other) (hfits : verb.Fits v)
      (hrun : verb.run v = .ok w) : ReachableCoded w

namespace ReachableCoded

variable {v : View}

/-- Views that are reached have keys. -/
theorem exists_keyed {views : List View} (h : ∀ u ∈ views, Reachable u) :
    ∃ others : List (View × RowKey), views = others.map (·.1) ∧
      ∀ e ∈ others, ReachableWith e.1 e.2 := by
  induction views with
  | nil => exact ⟨[], rfl, by simp⟩
  | cons u views ih =>
    obtain ⟨⟨key, hu⟩, hrest⟩ := List.forall_mem_cons.1 h
    obtain ⟨others, rfl, hothers⟩ := ih hrest
    exact ⟨(u, key) :: others, rfl, List.forall_mem_cons.2 ⟨hu, hothers⟩⟩

theorem reachable (h : ReachableCoded v) : Reachable v := by
  induction h with
  | table ht => exact ⟨_, .table ht.wellFormed⟩
  | step verb _ _ hfits hrun hv hothers =>
    obtain ⟨key, hv⟩ := hv
    obtain ⟨others, hsame, hreach⟩ := exists_keyed hothers
    exact ⟨_, .step verb others hv hreach hsame hfits hrun⟩

theorem distinctWords (h : ReachableCoded v) : v.data.DistinctWords := by
  induction h with
  | table ht => exact ht.words
  | step verb _ _ _ hrun hv _ => exact verb.distinctWords_run hv hrun

theorem wellCoded (h : ReachableCoded v) : v.data.WellCoded := by
  obtain ⟨key, hreach⟩ := h.reachable
  exact ⟨(sound_of_reachable hreach).table, h.distinctWords⟩

end ReachableCoded

end ColumnQuery
