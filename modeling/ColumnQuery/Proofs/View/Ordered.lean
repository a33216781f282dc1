/-
  Views sorted by keys.

  `orderBy` evaluates its keys at the visible rows and sorts by them. It goes through exactly if
  the escaped functions among the keys answer at the visible rows (`Sound.orderBy_isOk_iff`), and
  then every sort key holds the values of its expression there, and null at the hidden rows
  (`orderBy_eq_ok_iff`).

  Rows compare by the first key that tells them apart. Within a key, rows with an invalid value
  come after all others in either direction. Together that is a total preorder whatever values the
  keys hold, and the rows of the sorted view are the visible rows in this order, ties as they stand
  in the table; each partition lists the rows of its group in the same way
  (`orderBy_sorts`).
-/
import ColumnQuery.Proofs.Overlay.Sorted
import ColumnQuery.Proofs.View.OwnGroup

namespace ColumnQuery

/-! ## Sort keys -/

namespace Formula

/-- Cells are placed exactly if the formula has a value at every listed row. -/
theorem exists_evalRows?_iff {f : Formula} {results : OpRef → Nat → Option Value} {rows : List Nat}
    {total : Nat} (hnodup : rows.Nodup) (hrows : ∀ row ∈ rows, row < total) :
    (∃ cells, f.evalRows? results rows total = some cells) ↔
      ∀ row ∈ rows, ∃ x, f.evalRow results row = some x := by
  constructor
  · rintro ⟨cells, hcells⟩ row hrow
    obtain ⟨values, hvalues, -⟩ := Option.bind_eq_some_iff.1 hcells
    obtain ⟨x, -, hx⟩ := exists_of_mapM hvalues hrow
    exact ⟨x, hx⟩
  · intro hvalue
    obtain ⟨cells, hcells, -⟩ := evalRows?_spec hnodup hrows hvalue
    exact ⟨cells, hcells⟩

end Formula

namespace SortKey

/-- A sort key has the values of a formula at the listed rows, and null at all others. -/
structure Holds (k : SortKey) (f : Formula) (descending : Bool) (rows : List Nat) : Prop where
  direction : k.descending = descending
  listed : ∀ row ∈ rows, f.evalRow Env.noResults row = some (k.valueAt row)
  others : ∀ row ∉ rows, k.valueAt row = .null

theorem holds_evalRows? {f : Formula} {descending : Bool} {rows : List Nat} {total : Nat}
    {cells : Array Value} (hnodup : rows.Nodup) (hrows : ∀ row ∈ rows, row < total)
    (h : f.evalRows? Env.noResults rows total = some cells) :
    Holds ⟨cells, descending⟩ f descending rows := by
  refine ⟨rfl, fun row hrow => ?_, fun row hrow => ?_⟩
  · have hvalue := (Formula.exists_evalRows?_iff hnodup hrows).1 ⟨cells, h⟩
    obtain ⟨cells', h', hread⟩ := Formula.evalRows?_spec hnodup hrows hvalue
    obtain rfl := Option.some.inj (h.symm.trans h')
    obtain ⟨x, hx⟩ := hvalue row hrow
    unfold valueAt
    rw [hread row hrow, hx, Option.getD_some]
  · obtain ⟨values, -, hplaced⟩ := Option.bind_eq_some_iff.1 h
    unfold valueAt
    rw [getElem?_placeCells?_of_notMem hplaced hrow, Array.getElem?_replicate]
    split <;> rfl

variable {k : SortKey} {a b : Nat}

theorem compare_of_last (ha : (k.valueAt a).isValid = true) (hb : (k.valueAt b).isValid = false) :
    k.compare a b = .lt := by
  unfold compare compareValues
  rw [ha, hb]

theorem compare_of_invalid (ha : (k.valueAt a).isValid = false)
    (hb : (k.valueAt b).isValid = false) : k.compare a b = .eq := by
  unfold compare compareValues
  rw [ha, hb]

theorem compare_of_valid (ha : (k.valueAt a).isValid = true) (hb : (k.valueAt b).isValid = true) :
    k.compare a b = directed k.descending (k.valueAt a) (k.valueAt b) := by
  unfold compare compareValues directed
  rw [ha, hb]

end SortKey

/-! ## Comparing key by key -/

namespace RowOrder

variable {o : RowOrder} {rows : List Nat}

instance decidable_before (o : RowOrder) (a b : Nat) : Decidable (o.Before a b) :=
  inferInstanceAs (Decidable (_ ∨ _))

theorem compareBy_append (ks ls : List SortKey) (a b : Nat) :
    compareBy (ks ++ ls) a b = (compareBy ks a b).then (compareBy ls a b) := by
  induction ks with
  | nil => rfl
  | cons k ks ih =>
    rw [List.cons_append, compareBy, compareBy, ih, Ordering.then_assoc]

theorem compareBy_eq_eq_iff {ks : List SortKey} {a b : Nat} :
    compareBy ks a b = .eq ↔ ∀ k ∈ ks, k.compare a b = .eq := by
  induction ks with
  | nil => simp [compareBy]
  | cons k ks ih => rw [compareBy, Ordering.then_eq_eq, ih, List.forall_mem_cons]

/-- A total preorder of rows, key by key, with the rows that lack a value last. -/
structure Arranges (o : RowOrder) (rows : List Nat) : Prop where
  answers : ∀ a ∈ rows, ∀ b ∈ rows, o.compare? a b = some (o.compare a b)
  refl : ∀ a ∈ rows, o.compare a a = .eq
  swap : ∀ a ∈ rows, ∀ b ∈ rows, o.compare b a = (o.compare a b).swap
  total : ∀ a ∈ rows, ∀ b ∈ rows, (o.compare a b).isLE = true ∨ (o.compare b a).isLE = true
  trans : ∀ a ∈ rows, ∀ b ∈ rows, ∀ c ∈ rows, (o.compare a b).isLE = true →
    (o.compare b c).isLE = true → (o.compare a c).isLE = true
  /-- Rows tie if no key tells them apart. -/
  tied : ∀ a ∈ rows, ∀ b ∈ rows, (o.compare a b = .eq ↔ ∀ k ∈ o.keys, k.compare a b = .eq)
  /-- The first key that tells them apart decides. -/
  decided : ∀ a ∈ rows, ∀ b ∈ rows, ∀ before k after, o.keys = before ++ k :: after →
    (∀ e ∈ before, e.compare a b = .eq) → k.compare a b ≠ .eq → o.compare a b = k.compare a b
  /-- For a key, invalid values come after valid ones, in either direction. -/
  last : ∀ a ∈ rows, ∀ b ∈ rows, ∀ k ∈ o.keys, (k.valueAt a).isValid = true →
    (k.valueAt b).isValid = false → k.compare a b = .lt
  lacking : ∀ a ∈ rows, ∀ b ∈ rows, ∀ k ∈ o.keys, (k.valueAt a).isValid = false →
    (k.valueAt b).isValid = false → k.compare a b = .eq
  directed : ∀ a ∈ rows, ∀ b ∈ rows, ∀ k ∈ o.keys, (k.valueAt a).isValid = true →
    (k.valueAt b).isValid = true → k.compare a b = if k.descending
      then (k.valueAt b).order (k.valueAt a) else (k.valueAt a).order (k.valueAt b)

/-- Sort keys of any values arrange the rows that they cover. -/
theorem Covers.arranges {total : Nat} (ho : o.Covers total) (hrows : ∀ row ∈ rows, row < total) :
    o.Arranges rows where
  answers a ha b hb := by
    unfold compare?
    rw [ho.covers (hrows a ha), ho.covers (hrows b hb)]
    rfl
  refl a _ := Std.ReflCmp.compare_self
  swap a _ b _ := o.compare_swap a b
  total a _ b _ := by
    rw [o.compare_swap a b]
    cases o.compare a b <;> simp
  trans a _ b _ c _ := Std.TransCmp.isLE_trans
  tied a _ b _ := compareBy_eq_eq_iff
  decided a _ b _ before k after hkeys hbefore hk := by
    unfold compare
    rw [hkeys, compareBy_append, compareBy_eq_eq_iff.2 hbefore, compareBy]
    cases hcompare : k.compare a b with
    | eq => exact absurd hcompare hk
    | lt | gt => rfl
  last a _ b _ k _ := SortKey.compare_of_last
  lacking a _ b _ k _ := SortKey.compare_of_invalid
  directed a _ b _ k _ := SortKey.compare_of_valid

theorem build?_spec {keys : List (Formula × Bool)} {total : Nat} (hnodup : rows.Nodup)
    (hrows : ∀ row ∈ rows, row < total) (h : build? keys rows total = some o) :
    List.Forall₂ (fun e k => SortKey.Holds k e.1 e.2 rows) keys o.keys := by
  obtain ⟨built, hbuilt, rfl⟩ := Option.map_eq_some_iff.1 h
  have hsame := mapM_eq_some_iff.1 hbuilt
  rw [← List.forall₂_eq_eq_eq, List.forall₂_map_left_iff, List.forall₂_map_right_iff] at hsame
  refine hsame.imp fun e k hk => ?_
  obtain ⟨cells, hcells, rfl⟩ := Option.map_eq_some_iff.1 hk
  exact SortKey.holds_evalRows? hnodup hrows hcells

/-- An order is built exactly if all keys have values at the listed rows. -/
theorem exists_build?_iff {keys : List (Formula × Bool)} {total : Nat} (hnodup : rows.Nodup)
    (hrows : ∀ row ∈ rows, row < total) : (∃ o, build? keys rows total = some o) ↔
      ∀ e ∈ keys, ∀ row ∈ rows, ∃ x, e.1.evalRow Env.noResults row = some x := by
  constructor
  · rintro ⟨o, ho⟩ e he row hrow
    obtain ⟨k, -, hk⟩ := exists_of_forall₂ (build?_spec hnodup hrows ho) he
    exact ⟨_, hk.listed row hrow⟩
  · intro hvalue
    obtain ⟨ks, hks⟩ := exists_mapM
      (fun e : Formula × Bool => (e.1.evalRows? Env.noResults rows total).map (SortKey.mk · e.2))
      keys fun e he => by
        obtain ⟨cells, hcells⟩ := (Formula.exists_evalRows?_iff hnodup hrows).2 (hvalue e he)
        exact ⟨_, Option.map_eq_some_iff.2 ⟨cells, hcells, rfl⟩⟩
    exact ⟨⟨ks⟩, Option.map_eq_some_iff.2 ⟨ks, hks, rfl⟩⟩

end RowOrder

namespace View

variable {v w : View} {key : RowKey} {keys : List OrderBy} {r : Resolution} {o : RowOrder}

/-! ## Sorting by keys -/

/-- The expressions of sort keys, under the names that they are resolved by. -/
def sortExprs (keys : List OrderBy) : List (String × ExprSpec) :=
  keys.zipIdx.map fun (k, i) => (s!"key{i}", k.expr)

theorem length_of_sortExprs (hr : v.resolve (sortExprs keys) .rows = .ok r) :
    r.exprs.length = keys.length := by
  have hnames := congrArg List.length (names_of_resolve hr)
  simpa [sortExprs] using hnames

/-- Sorting sets the order that the keys build over the visible rows. -/
theorem orderBy_eq_ok_iff (hr : v.resolve (sortExprs keys) .rows = .ok r) :
    v.orderBy keys = .ok w ↔ ∃ o, RowOrder.build?
      ((r.exprs.map (·.formula)).zip (keys.map (·.descending))) v.visible v.totalRows = some o ∧
      w = v.withOrder o := by
  have hsteps : v.orderBy keys = QueryError.ofRead ((RowOrder.build?
      ((r.exprs.map (·.formula)).zip (keys.map (·.descending))) v.visible v.totalRows).map
        v.withOrder) := by
    show (v.resolve (sortExprs keys) .rows >>= _) = _
    rw [hr]
    rfl
  rw [hsteps]
  constructor
  · intro h
    obtain ⟨o, ho, rfl⟩ := Option.map_eq_some_iff.1 (QueryError.ofRead_eq_ok h)
    exact ⟨o, ho, rfl⟩
  · rintro ⟨o, ho, rfl⟩
    rw [ho]
    rfl

/-- A key has a value at a row of the table exactly if the function answers there that it escapes
    to; without one it has a value at every row. -/
theorem Sound.exists_sortValue_iff (hv : v.Sound key) {e : ExprSpec} {f : Formula}
    (hf : Resolve.ResolvesTo ⟨[v.data], v.params, .rows⟩ e f) {row : Nat}
    (hrow : row < v.totalRows) : (∃ a, f.evalRow Env.noResults row = some a) ↔
      ∀ escaped ∈ e.escaped?, ∃ a, escaped ⟨[v.data], .row row⟩ v.params = some a :=
  hf.exists_eval_iff ⟨.row row, Env.noResults⟩ (List.forall_mem_singleton.2 hv.table)
    (fun _ => within_of_lt hrow) fun _ _ => rfl

/-- Sorting by keys that resolve goes through exactly if the escaped functions answer at all
    visible rows. -/
theorem Sound.orderBy_isOk_iff (hv : v.Sound key) (hr : v.resolve (sortExprs keys) .rows = .ok r) :
    (∃ w, v.orderBy keys = .ok w) ↔ ∀ row ∈ v.visible, v.EscapesAnswer (sortExprs keys) row := by
  have hbuilt : (∃ w, v.orderBy keys = .ok w) ↔ ∃ o, RowOrder.build?
      ((r.exprs.map (·.formula)).zip (keys.map (·.descending))) v.visible v.totalRows = some o := by
    constructor
    · rintro ⟨w, hw⟩
      obtain ⟨o, ho, -⟩ := (orderBy_eq_ok_iff hr).1 hw
      exact ⟨o, ho⟩
    · rintro ⟨o, ho⟩
      exact ⟨_, (orderBy_eq_ok_iff hr).2 ⟨o, ho, rfl⟩⟩
  have hlt : ∀ row ∈ v.visible, row < v.totalRows := fun row hrow => hv.lt_of_visible hrow
  have hlength := length_of_sortExprs hr
  have hresolved := resolvesTo_of_resolve hr
  rw [hbuilt, RowOrder.exists_build?_iff hv.nodup_visible hlt]
  constructor
  · intro hvalue row hrow e he
    obtain ⟨d, hd, hto⟩ := exists_of_forall₂ hresolved he
    refine (hv.exists_sortValue_iff hto (hlt row hrow)).1 ?_
    have hformula : d.formula ∈
        ((r.exprs.map (·.formula)).zip (keys.map (·.descending))).map (·.1) := by
      rw [List.map_fst_zip (by simp [hlength])]
      exact List.mem_map_of_mem hd
    obtain ⟨e', he', hsame⟩ := List.mem_map.1 hformula
    exact hsame ▸ hvalue e' he' row hrow
  · intro hanswer e he row hrow
    obtain ⟨d, hd, hsame⟩ := List.mem_map.1 (List.of_mem_zip he).1
    obtain ⟨e', he', hto⟩ := exists_of_forall₂ hresolved.flip hd
    rw [← hsame]
    exact (hv.exists_sortValue_iff hto (hlt row hrow)).2 (hanswer row hrow e' he')

/-- The sorting order that `orderBy` sets. -/
structure OrderedBy (v : View) (exprs : List NamedFormula) (keys : List OrderBy) (o : RowOrder) :
    Prop where
  length : exprs.length = keys.length
  keys : List.Forall₂ (fun e k => SortKey.Holds k e.1.formula e.2.descending v.visible)
    (exprs.zip keys) o.keys
  covers : o.Covers v.totalRows

theorem Sound.orderBy_spec (hv : v.Sound key) (hr : v.resolve (sortExprs keys) .rows = .ok r)
    (h : v.orderBy keys = .ok w) : ∃ o, w = v.withOrder o ∧ v.OrderedBy r.exprs keys o := by
  obtain ⟨o, ho, rfl⟩ := (orderBy_eq_ok_iff hr).1 h
  refine ⟨o, rfl, length_of_sortExprs hr, ?_, RowOrder.covers_build? ho⟩
  have hkeys := RowOrder.build?_spec hv.nodup_visible (fun row hrow => hv.lt_of_visible hrow) ho
  rw [List.zip_map, List.forall₂_map_left_iff] at hkeys
  exact hkeys

/-- A list of all visible rows in the order, ties as they stand in the table. -/
structure Sorts (o : RowOrder) (rows sorted : List Nat) : Prop where
  perm : sorted.Perm rows
  ordered : sorted.Pairwise o.Before

theorem Sorts.eq {rows sorted : List Nat} (h : Sorts o rows sorted) (other : List Nat)
    (h' : Sorts o rows other) : other = sorted :=
  (h'.perm.trans h.perm.symm).eq_of_pairwise (fun _ _ _ _ hab hba => absurd hba hab.asymm)
    h'.ordered h.ordered

theorem Sound.sorted_withOrder (hv : v.Sound key) (ho : o.Covers v.totalRows) :
    (v.withOrder o).sorted = some (o.sort v.visible) :=
  ho.sort?_eq fun _ hrow => hv.lt_of_visible hrow

end View

/-- Sorting a reachable view. Keys that resolve can be sorted by exactly if their escaped functions
    answer at the visible rows. The order then holds the values of the keys and arranges the
    visible rows by them; the sorted view lists them accordingly, as a whole and in every group, and
    leaves everything else as it is. -/
theorem orderBy_sorts {v : View} (h : Reachable v) {keys : List OrderBy} {r : Resolution}
    (hr : v.resolve (View.sortExprs keys) .rows = .ok r) :
    ((∃ w, v.orderBy keys = .ok w) ↔
      ∀ row ∈ v.visible, v.EscapesAnswer (View.sortExprs keys) row) ∧
    ∀ w, v.orderBy keys = .ok w → ∃ o, w = v.withOrder o ∧ v.OrderedBy r.exprs keys o ∧
      o.Arranges v.visible ∧
      (∃ rows, w.indices true = some rows ∧ View.Sorts o v.visible rows ∧
        ∀ other, View.Sorts o v.visible other → other = rows) ∧
      (∀ row ∈ v.visible, ∃ g < v.groupCount, v.groupOf row = some g) ∧
      ∃ parts, w.partitions true = some parts ∧ parts.length = v.groupCount ∧
        ∀ g part, parts[g]? = some part →
          View.Sorts o (v.visible.filter (v.groupOf · == some g)) part := by
  obtain ⟨key, hreach⟩ := h
  have hv := sound_of_reachable hreach
  refine ⟨hv.orderBy_isOk_iff hr, fun w hw => ?_⟩
  obtain ⟨o, rfl, ho⟩ := hv.orderBy_spec hr hw
  have hsorted := hv.sorted_withOrder ho.covers
  have hsorts : View.Sorts o v.visible (o.sort v.visible) :=
    ⟨o.perm_sort v.visible, o.pairwise_sort hv.pairwise_visible⟩
  have hindices : (v.withOrder o).indices true = some (o.sort v.visible) := hsorted
  refine ⟨o, rfl, ho, ho.covers.arranges fun row hrow => hv.lt_of_visible hrow,
    ⟨_, hindices, hsorts, hsorts.eq⟩,
    fun row hrow => hv.exists_groupOf hrow, v.split (o.sort v.visible), ?_, ?_, ?_⟩
  · unfold View.partitions
    rw [hindices]
    rfl
  · unfold View.split
    rw [List.length_map, List.length_range]
  · intro g part hpart
    obtain ⟨hg, rfl⟩ : g < v.groupCount ∧
        (o.sort v.visible).filter (v.groupOf · == some g) = part := by
      unfold View.split at hpart
      rw [List.getElem?_map] at hpart
      obtain ⟨n, hn, hfilter⟩ := Option.map_eq_some_iff.1 hpart
      obtain ⟨hlt, rfl⟩ := List.getElem?_eq_some_iff.1 hn
      rw [List.getElem_range] at hfilter
      exact ⟨by simpa using hlt, hfilter⟩
    exact ⟨hsorts.perm.filter _, hsorts.ordered.filter _⟩

/-- Grouped letters, sorted in descending order: the row with the greatest letter comes first, and
    the two rows with the same letter stay as they stand. -/
theorem orderBy_sorts_letters : ∃ v w, Reachable v ∧ v.orderBy [⟨.column "x", true⟩] = .ok w ∧
    w.indices true = some [3, 1, 0, 2] ∧ w.partitions true = some [[0, 2], [1], [3]] := by
  obtain ⟨v, hgrouped, hreach, -, -, -, -, hresolve⟩ := exists_groupBy_letters
  obtain ⟨r, hr⟩ : ∃ r, v.resolve (View.sortExprs [⟨.column "x", true⟩]) .rows = .ok r := by
    rw [hresolve]
    exact ⟨_, rfl⟩
  obtain ⟨hexists, hsorts⟩ := orderBy_sorts hreach hr
  obtain ⟨w, hw⟩ := hexists.2 fun row _ e he f hf => by
    obtain rfl : e = ("key0", .column "x") := List.mem_singleton.1 he
    cases hf
  obtain ⟨o, hview, -, -, ⟨rows, hrows, -, hother⟩, -, -⟩ := hsorts w hw
  have horder : w.order = some o := by rw [hview]; rfl
  have hparts : w.partitions true = some (w.split rows) := congrArg (Option.map w.split) hrows
  cases hgrouped
  cases hw
  cases horder
  have hlisted := hother [3, 1, 0, 2] ⟨by decide +kernel, by decide +kernel⟩
  subst hlisted
  exact ⟨_, _, hreach, rfl, hrows, hparts.trans (by decide +kernel)⟩

end ColumnQuery
