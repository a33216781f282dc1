/-
  Peers of a sorted view and rows that are put together by key.

  A view that is sorted by keys and one that is grouped by the same expressions evaluate the same
  keys, whatever the names of the expressions (`groupKey_eq`). Sorting goes by the order of the
  keys: rows of a partition are peers exactly if their keys are tied (`Sound.group_peers_iff`).
  Grouping, joins, dropping duplicates and counts of distinct values go by their equality. So the
  two agree about two rows exactly if order and equality agree about their keys, and where they
  differ it is for a zero that has lost its sign, for an object that has only its length or for an
  invalid item (`peers_and_groups_by_keys`).
-/
import ColumnQuery.Proofs.Aggregate.Fresh
import ColumnQuery.Proofs.View.Ordered
import ColumnQuery.Proofs.View.SetAlgebra
import ColumnQuery.Proofs.Window.Peers

namespace ColumnQuery

/-! ## Keys under any names -/

/-- Expressions resolve to the same formulas under other names. -/
theorem Resolve.formulas_of_named {ctx : ResolveContext} {exprs others : List (String × ExprSpec)}
    (h : exprs.map (·.2) = others.map (·.2)) {s s' : ResolveState} {es : List NamedFormula}
    (hrun : (named ctx exprs).run s = .ok (es, s')) : ∃ fs, (named ctx others).run s = .ok (fs, s') ∧
      fs.map (·.formula) = es.map (·.formula) := by
  induction exprs generalizing others s s' es with
  | nil =>
    obtain rfl : others = [] := List.map_eq_nil_iff.1 h.symm
    exact ⟨es, hrun, rfl⟩
  | cons e exprs ih =>
    obtain ⟨other, rest, rfl, he, hrest⟩ := List.map_eq_cons_iff.1 h.symm
    obtain ⟨r, t, more, hr, hmore, rfl⟩ := run_named_cons.1 hrun
    obtain ⟨fs, hfs, hformulas⟩ := ih hrest.symm hmore
    have hother : (spec ctx none other.2).run s = .ok (r, t) := by
      rw [he]
      exact hr
    exact ⟨⟨other.1, r.1, r.2⟩ :: fs, run_named_cons.2 ⟨r, t, fs, hother, hfs, rfl⟩,
      by simp [hformulas]⟩

namespace View

variable {v w g : View} {key : RowKey} {keys : List OrderBy} {named : List (String × ExprSpec)}
  {r : Resolution} {o : RowOrder}

theorem map_sortExprs (keys : List OrderBy) : (sortExprs keys).map (·.2) = keys.map (·.expr) := by
  unfold sortExprs
  rw [List.map_map]
  conv_rhs => rw [← List.zipIdx_map_fst 0 keys, List.map_map]
  rfl

/-- Grouping by the expressions of sort keys evaluates the same formulas. -/
theorem groupKey_eq (hnamed : named.map (·.2) = keys.map (·.expr))
    (hr : v.resolve (sortExprs keys) .rows = .ok r) :
    v.groupKey named = Formula.evalKey (r.exprs.map (·.formula)) := by
  obtain ⟨⟨es, s⟩, hrun, hr⟩ := bind_eq_ok hr
  cases hr
  obtain ⟨fs, hfs, hformulas⟩ :=
    Resolve.formulas_of_named ((map_sortExprs keys).trans hnamed.symm) hrun
  have hresolve : v.resolve named .rows = .ok ⟨fs, s.aggregates, s.windows, false⟩ := by
    unfold resolve ColumnQuery.resolve
    rw [hfs]
    rfl
  unfold groupKey
  rw [hresolve, ← hformulas]

/-- The key of a row in an order. -/
def rowKey (o : RowOrder) (row : Nat) : List Value := o.keys.map (·.valueAt row)

theorem OrderedBy.evalKey (ho : v.OrderedBy r.exprs keys o) {row : Nat} (hrow : row ∈ v.visible) :
    Formula.evalKey (r.exprs.map (·.formula)) row = some (rowKey o row) := by
  have hzip : r.exprs.map (·.formula) = (r.exprs.zip keys).map (·.1.formula) := by
    conv_lhs => rw [← List.map_fst_zip (Nat.le_of_eq ho.length), List.map_map]
    rfl
  unfold Formula.evalKey rowKey
  rw [mapM_eq_some_iff, hzip, List.map_map, List.map_map, ← List.forall₂_eq_eq_eq,
    List.forall₂_map_left_iff, List.forall₂_map_right_iff]
  exact ho.keys.imp fun e k hk => hk.listed row hrow

end View

/-! ## Peers -/

theorem SortKey.compare_eq_eq_iff {k : SortKey} {a b : Nat} :
    k.compare a b = .eq ↔ (k.valueAt a).order (k.valueAt b) = .eq := by
  unfold compare compareValues
  cases ha : (k.valueAt a).isValid <;> cases hb : (k.valueAt b).isValid
  · simp [Value.order_of_invalid ha hb]
  · simp [Value.order_of_invalid_left ha hb]
  · simp [Value.order_of_invalid_right ha hb]
  · cases k.descending with
    | false => simp
    | true =>
      show (k.valueAt b).order (k.valueAt a) = .eq ↔ _
      exact ⟨Std.OrientedCmp.eq_symm, Std.OrientedCmp.eq_symm⟩

namespace View

/-- Rows tie in some of the keys exactly if the values of these are tied. -/
theorem compareBy_eq_eq_iff_tied {ks : List SortKey} {i j : Nat} :
    RowOrder.compareBy ks i j = .eq ↔
      (Value.array (ks.map (·.valueAt i))).order (.array (ks.map (·.valueAt j))) = .eq := by
  show _ ↔ Value.orderItems (ks.map (·.valueAt i)) (ks.map (·.valueAt j)) = .eq
  rw [RowOrder.compareBy_eq_eq_iff, Value.orderItems_eq_eq_iff, List.forall₂_map_left_iff,
    List.forall₂_map_right_iff, List.forall₂_same]
  simp only [SortKey.compare_eq_eq_iff]

variable {v w g : View} {key : RowKey} {keys : List OrderBy} {named : List (String × ExprSpec)}
  {r : Resolution} {o : RowOrder}

theorem Sound.partitions_withOrder (hv : v.Sound key) (ho : o.Covers v.totalRows) :
    (v.withOrder o).partitions true = some (v.split (o.sort v.visible)) := by
  unfold partitions indices
  rw [if_pos rfl, hv.sorted_withOrder ho]
  rfl

/-- Rows of a partition are peers exactly if their keys are tied. -/
theorem Sound.group_peers_iff (hv : v.Sound key) {part : List Nat}
    (hpart : part ∈ v.split (o.sort v.visible)) {p q i j : Nat} (hi : part[p]? = some i)
    (hj : part[q]? = some j) :
    ((v.withOrder o).peers part).group p = ((v.withOrder o).peers part).group q ↔
      (Value.array (rowKey o i)).order (.array (rowKey o j)) = .eq := by
  obtain ⟨g, -, rfl⟩ := List.mem_map.1 hpart
  refine Iff.trans ?_ (compareBy_eq_eq_iff_tied : RowOrder.compareBy o.keys i j = .eq ↔ _)
  refine Peers.group_ofTies_eq_iff (((o.pairwise_sort hv.pairwise_visible).filter _).imp ?_) hi hj
  rintro a b (hlt | ⟨heq, -⟩)
  · rw [hlt]
    rfl
  · rw [heq]
    rfl

/-! ## Rows put together -/

theorem withGroups_of_groupByKeys (h : v.groupByKeys named = .ok g) :
    ∃ groups, g = v.withGroups groups := by
  obtain ⟨r, -, h⟩ := bind_eq_ok h
  obtain ⟨hidden, -, h⟩ := Option.bind_eq_some_iff.1 (QueryError.ofRead_eq_ok h)
  obtain ⟨t, -, h⟩ := Option.bind_eq_some_iff.1 h
  exact ⟨_, (Option.some.inj h).symm⟩

/-- Visible rows are in one group exactly if their keys are the same. -/
theorem Sound.groupOf_eq_iff (hv : v.Sound key) (h : v.groupByKeys named = .ok g) {i j : Nat}
    (hi : i ∈ v.visible) (hj : j ∈ v.visible) {k l : List Value}
    (hk : v.groupKey named i = some k) (hl : v.groupKey named j = some l) :
    g.groupOf i = g.groupOf j ↔ Value.sameItems k l = true := by
  have hg := hv.of_groupByKeys h
  obtain ⟨groups, rfl⟩ := withGroups_of_groupByKeys h
  obtain ⟨-, hnumbers, -⟩ := hg.groups groups rfl
  obtain ⟨a, -, ha⟩ := hg.exists_groupOf (show i ∈ (v.withGroups groups).visible from hi)
  obtain ⟨b, -, hb⟩ := hg.exists_groupOf (show j ∈ (v.withGroups groups).visible from hj)
  rw [ha, hb, Option.some.injEq]
  exact hnumbers.groupOf_eq_iff ha hb hk hl

/-- The keys of a join under the expressions of sort keys. -/
theorem resolveKeys_eq (hr : v.resolve (sortExprs keys) .rows = .ok r) :
    Matcher.resolveKeys v (keys.map (·.expr)) = .ok (r.exprs.map (·.formula)) := by
  unfold Matcher.resolveKeys
  rw [List.zipIdx_map, List.map_map]
  show (v.resolve (sortExprs keys) .rows >>= fun r => pure (r.exprs.map (·.formula))) = _
  rw [hr]
  rfl

/-- Visible rows match in these keys exactly if the keys are valid and the same. -/
theorem joins_iff (hr : v.resolve (sortExprs keys) .rows = .ok r) {m : Matcher}
    (hm : Matcher.resolveCondition v v (.keys (keys.map (·.expr)) (keys.map (·.expr))) = .ok m)
    {i j : Nat} {k l : List Value} (hk : Formula.evalKey (r.exprs.map (·.formula)) i = some k)
    (hl : Formula.evalKey (r.exprs.map (·.formula)) j = some l) :
    m.joins i j = true ↔ (∀ x ∈ k, x.isValid = true) ∧ Value.sameItems k l = true := by
  rw [Matcher.resolveCondition] at hm
  split at hm
  next => cases hm
  next =>
    unfold Matcher.ofKeys at hm
    rw [resolveKeys_eq hr] at hm
    cases hm
    rw [Matcher.joins_keys_iff, hk, hl, Value.sameItems_iff_forall₂]
    constructor
    · rintro ⟨_, _, ⟨⟩, ⟨⟩, hvalid, -, hsame⟩
      exact ⟨hvalid, hsame⟩
    · rintro ⟨hvalid, hsame⟩
      refine ⟨k, l, rfl, rfl, hvalid, fun y hy => ?_, hsame⟩
      obtain ⟨x, hx, hxy⟩ := exists_of_forall₂ hsame.flip hy
      rw [← Value.isValid_of_same hxy]
      exact hvalid x hx

/-- What verbs that compare keys make of two visible rows with the keys `k` and `l`: the view `w` is
    sorted by the expressions, the view `g` grouped by them. -/
structure ByKeys (v w g : View) (exprs : List ExprSpec) (i j : Nat) (k l : List Value) : Prop where
  peers : ∀ parts, w.partitions true = some parts → ∀ part ∈ parts, ∀ p q, part[p]? = some i →
    part[q]? = some j → ((w.peers part).group p = (w.peers part).group q ↔
      (Value.array k).order (.array l) = .eq)
  /-- The keys behind the first `n` decide exactly among rows that are tied in those. -/
  secondary : ∀ o, w.order = some o → ∀ n, o.compare i j =
      (RowOrder.compareBy (o.keys.take n) i j).then (RowOrder.compareBy (o.keys.drop n) i j) ∧
    (RowOrder.compareBy (o.keys.take n) i j = .eq ↔
      (Value.array (k.take n)).order (.array (l.take n)) = .eq)
  groups : g.groupOf i = g.groupOf j ↔ (Value.array k).same (.array l) = true
  /-- A key with an invalid value matches nothing. -/
  joins : ∀ m, Matcher.resolveCondition v v (.keys exprs exprs) = .ok m → (m.joins i j = true ↔
    (∀ x ∈ k, x.isValid = true) ∧ (Value.array k).same (.array l) = true)
  distinct : ∀ a b, k = [a] → l = [b] → a.isValid = true → b.isValid = true →
    AggregateOp.fresh ⟨.distinct, []⟩ [k, l] = .ofNat (if a.same b then 1 else 2)
  /-- A conflated pair may be all that tells the keys apart, a separated pair all that unties
      them. -/
  agree : ((Value.array k).order (.array l) = .eq ↔ (Value.array k).same (.array l) = true) ↔
    ¬ ((Value.array k).order (.array l) = .eq ∧ Value.Meet Value.Conflated (.array k) (.array l)) ∧
    ¬ ((Value.array k).same (.array l) = true ∧ Value.Meet Value.Separated (.array k) (.array l))

theorem Sound.byKeys (hv : v.Sound key) (hnamed : named.map (·.2) = keys.map (·.expr))
    (hr : v.resolve (sortExprs keys) .rows = .ok r) (ho : v.OrderedBy r.exprs keys o)
    (hg : v.groupByKeys named = .ok g) {i j : Nat} (hi : i ∈ v.visible) (hj : j ∈ v.visible) :
    v.ByKeys (v.withOrder o) g (keys.map (·.expr)) i j (rowKey o i) (rowKey o j) where
  peers parts hparts part hpart p q hp hq := by
    rw [hv.partitions_withOrder ho.covers] at hparts
    cases hparts
    exact hv.group_peers_iff hpart hp hq
  secondary o' ho' n := by
    cases ho'
    refine ⟨?_, ?_⟩
    · rw [← RowOrder.compareBy_append, List.take_append_drop]
      rfl
    · unfold rowKey
      rw [← List.map_take, ← List.map_take]
      exact compareBy_eq_eq_iff_tied
  groups := by
    have hkey := groupKey_eq hnamed hr
    exact hv.groupOf_eq_iff hg hi hj (by rw [hkey, ho.evalKey hi]) (by rw [hkey, ho.evalKey hj])
  joins m hm := joins_iff hr hm (ho.evalKey hi) (ho.evalKey hj)
  distinct a b hk hl ha hb := by
    rw [hk, hl]
    exact AggregateOp.fresh_distinct_pair ha hb
  agree := Value.agree_iff

end View

/-- Sorting, grouping and whatever else compares keys, by the same expressions. Peers are the rows
    whose keys are tied; groups, matches, first rows and distinct values are those whose keys are the
    same. Order and equality agree about two values unless a conflated pair is all that tells them
    apart, or a separated pair all that unties them. -/
theorem peers_and_groups_by_keys {v : View} (h : Reachable v) {keys : List OrderBy}
    {named : List (String × ExprSpec)} (hnamed : named.map (·.2) = keys.map (·.expr)) {w g : View}
    (hw : v.orderBy keys = .ok w) (hg : v.groupByKeys named = .ok g) :
    (∃ parts, w.partitions true = some parts ∧ ∀ row ∈ v.visible, ∃ part ∈ parts, row ∈ part) ∧
    (∀ i ∈ v.visible, ∀ j ∈ v.visible, ∃ k l, v.groupKey named i = some k ∧
      v.groupKey named j = some l ∧ v.ByKeys w g (keys.map (·.expr)) i j k l) ∧
    (∀ names d, names ≠ [] → names.map .column = keys.map (·.expr) → v.dedupe names = .ok d →
      ∀ row ∈ v.visible, (row ∈ d.visible ↔ v.FirstBy (v.groupKey named) row)) ∧
    ∀ a b : Value, (a.order b = .eq ↔ a.same b = true) ↔
      ¬ (a.order b = .eq ∧ Value.Meet Value.Conflated a b) ∧
      ¬ (a.same b = true ∧ Value.Meet Value.Separated a b) := by
  obtain ⟨key, hreach⟩ := h
  have hv := sound_of_reachable hreach
  obtain ⟨r, hr, -⟩ := bind_eq_ok hw
  obtain ⟨o, rfl, ho⟩ := hv.orderBy_spec hr hw
  have hkey := View.groupKey_eq hnamed hr
  refine ⟨⟨_, hv.partitions_withOrder ho.covers, fun row hrow => ?_⟩,
    fun i hi j hj => ⟨_, _, by rw [hkey, ho.evalKey hi], by rw [hkey, ho.evalKey hj],
      hv.byKeys hnamed hr ho hg hi hj⟩, fun names d hnames hcolumns hd row hrow => ?_,
    fun _ _ => Value.agree_iff⟩
  · -- the rows of a view are all in the partitions of their groups
    obtain ⟨n, hn, hgroup⟩ := hv.exists_groupOf hrow
    refine ⟨_, List.mem_map.2 ⟨n, List.mem_range.2 hn, rfl⟩, List.mem_filter.2 ⟨?_, ?_⟩⟩
    · exact (o.perm_sort v.visible).mem_iff.2 hrow
    · exact beq_iff_eq.2 hgroup
  · have hcells : v.cellsNamed names = v.groupKey named := by
      funext row
      rw [hkey]
      exact (Matcher.evalKey_of_resolveKeys (hcolumns ▸ View.resolveKeys_eq hr) row).symm
    rw [(hv.showsWhere_dedupe_named hnames hd).mem_visible, hcells]
    exact and_iff_right hrow

/-- Two zeros, two objects with one entry and a text twice. -/
def lookalikes : List Value :=
  [.number 0.0, .number (-0.0), .object [("k", .number 1.0)], .object [("k", .number 2.0)],
    .string "a", .string "a"]

def lookalikeRows : View := .ofTable ⟨[("x", .ofValues lookalikes)], 6⟩

theorem reachable_lookalikeRows : Reachable lookalikeRows :=
  ⟨_, .table (Table.wellFormed_ofValues [("x", lookalikes)] rfl)⟩

/-- The zeros are in one group and no peers, the objects are peers in two groups, and the texts are
    peers in one group. -/
theorem peers_and_groups_by_keys_lookalikes : ∃ w g parts,
    lookalikeRows.orderBy [⟨.column "x", false⟩] = .ok w ∧ lookalikeRows.groupBy ["x"] = .ok g ∧
    w.partitions true = some parts ∧ (∀ row < 6, ∃ part ∈ parts, row ∈ part) ∧
    (g.groupOf 0 = g.groupOf 1 ∧ g.groupOf 2 ≠ g.groupOf 3 ∧ g.groupOf 4 = g.groupOf 5) ∧
    ∀ part ∈ parts, ∀ p q,
      (part[p]? = some 0 → part[q]? = some 1 → (w.peers part).group p ≠ (w.peers part).group q) ∧
      (part[p]? = some 2 → part[q]? = some 3 → (w.peers part).group p = (w.peers part).group q) ∧
      (part[p]? = some 4 → part[q]? = some 5 → (w.peers part).group p = (w.peers part).group q) := by
  obtain ⟨w, hw, -⟩ := exists_ok (x := lookalikeRows.orderBy [⟨.column "x", false⟩])
    (p := fun _ => true) (by decide +kernel)
  obtain ⟨g, hg, -⟩ := exists_ok (x := lookalikeRows.groupBy ["x"])
    (p := fun _ => true) (by decide +kernel)
  obtain ⟨⟨parts, hparts, hlisted⟩, hrows, -, -⟩ :=
    peers_and_groups_by_keys reachable_lookalikeRows rfl hw hg
  have hkeys : ∀ i j a b, lookalikes[i]? = some a → lookalikes[j]? = some b →
      lookalikeRows.ByKeys w g [.column "x"] i j [a] [b] := by
    intro i j a b ha hb
    have hshown : ∀ {row x}, lookalikes[row]? = some x → row ∈ lookalikeRows.visible := fun h =>
      List.mem_range.2 (List.getElem?_eq_some_iff.1 h).1
    have hkey : ∀ {row x}, lookalikes[row]? = some x →
        lookalikeRows.groupKey [("x", .column "x")] row = some [x] := by
      intro row x hx
      match row, hx with
      | 0, rfl | 1, rfl | 2, rfl | 3, rfl | 4, rfl | 5, rfl => rfl
    obtain ⟨k, l, hk, hl, hrow⟩ := hrows i (hshown ha) j (hshown hb)
    cases (hkey ha).symm.trans hk
    cases (hkey hb).symm.trans hl
    exact hrow
  have hzeros := hkeys 0 1 _ _ rfl rfl
  have hobjects := hkeys 2 3 _ _ rfl rfl
  have htexts := hkeys 4 5 _ _ rfl rfl
  refine ⟨w, g, parts, hw, hg, hparts, fun row hrow => hlisted row (List.mem_range.2 hrow),
    ⟨hzeros.groups.2 (by decide +kernel), mt hobjects.groups.1 (by decide +kernel),
      htexts.groups.2 (by decide +kernel)⟩, fun part hpart p q => ⟨fun hp hq => ?_, fun hp hq => ?_,
        fun hp hq => ?_⟩⟩
  · exact mt (hzeros.peers parts hparts part hpart p q hp hq).1 (by decide +kernel)
  · exact (hobjects.peers parts hparts part hpart p q hp hq).2 (by decide +kernel)
  · exact (htexts.peers parts hparts part hpart p q hp hq).2 (by decide +kernel)

end ColumnQuery
