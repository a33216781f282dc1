/-
  Sorted views under another filter.

  Sort keys are evaluated at the rows that are visible when the view is sorted; hidden rows hold
  null. A later filter narrows the groups anew (`View.create`), but the keys stay as they are. So
  the rows that it shows are listed by a masked order, in which every row that was hidden lacks all
  keys: such rows stand as they do in the table, after all rows with a valid key.

  Setting the filter first and sorting then lists the same rows. The rows that were visible before
  come in the same order both ways, and a filter that shows no others is harmless. With others the
  two lists agree exactly if the rows that were hidden belong where the masked order puts them
  (`indices_refilter`).
-/
import ColumnQuery.Proofs.View.Ordered

namespace ColumnQuery

namespace RowOrder

variable {o p : RowOrder} {rows : List Nat}

/-- Of two rows, one comes before the other. -/
theorem before_iff_not_before {a b : Nat} (hne : a ≠ b) : o.Before a b ↔ ¬ o.Before b a := by
  refine ⟨Before.asymm, fun hba => ?_⟩
  unfold Before at hba ⊢
  rw [o.compare_swap a b] at hba
  cases hcompare : o.compare a b with
  | lt => exact .inl rfl
  | gt => simp [hcompare] at hba
  | eq =>
    have hle : ¬ b < a := by simpa [hcompare] using hba
    exact .inr ⟨rfl, by omega⟩

/-- Two orders list rows in the same way exactly if they put the same ones before the others. -/
theorem sort_eq_sort_iff (hrows : rows.Pairwise (· < ·)) :
    o.sort rows = p.sort rows ↔ ∀ a ∈ rows, ∀ b ∈ rows, (o.Before a b ↔ p.Before a b) := by
  constructor
  · intro hsame a ha b hb
    have ho := o.pairwise_sort hrows
    rw [hsame] at ho
    have hboth := ho.and (p.pairwise_sort hrows)
    have hself : ∀ row ∈ p.sort rows, (o.Before row row ↔ p.Before row row) := fun row _ =>
      iff_of_false (fun h => h.asymm h) fun h => h.asymm h
    exact List.Pairwise.forall_of_forall_of_flip hself
      (hboth.imp fun h => iff_of_true h.1 h.2)
      (hboth.imp fun h => iff_of_false h.1.asymm h.2.asymm)
      ((p.perm_sort rows).mem_iff.2 ha) ((p.perm_sort rows).mem_iff.2 hb)
  · intro hsame
    refine o.sort_eq_of_pairwise hrows (p.perm_sort rows).symm ?_
    refine (p.pairwise_sort hrows).imp_of_mem fun {a b} ha hb hab => ?_
    exact (hsame a ((p.perm_sort rows).mem_iff.1 ha) b ((p.perm_sort rows).mem_iff.1 hb)).2 hab

/-! ## Rows without a key -/

/-- No key has a valid value at the row. -/
def Lacks (o : RowOrder) (row : Nat) : Prop := ∀ k ∈ o.keys, (k.valueAt row).isValid = false

theorem Lacks.compare_eq {a b : Nat} (ha : o.Lacks a) (hb : o.Lacks b) : o.compare a b = .eq :=
  compareBy_eq_eq_iff.2 fun k hk => SortKey.compare_of_invalid (ha k hk) (hb k hk)

theorem Lacks.compare_gt {a b : Nat} (ha : o.Lacks a) (hb : ¬ o.Lacks b) :
    o.compare a b = .gt := by
  unfold Lacks at ha hb
  unfold compare
  generalize o.keys = ks at ha hb
  induction ks with
  | nil => exact absurd nofun hb
  | cons k ks ih =>
    obtain ⟨hk, hrest⟩ := List.forall_mem_cons.1 ha
    rw [compareBy]
    cases hvalid : (k.valueAt b).isValid with
    | true =>
      have hswap : k.compare a b = (k.compare b a).swap := Std.OrientedCmp.eq_swap
      rw [hswap, SortKey.compare_of_last hvalid hk]
      rfl
    | false =>
      rw [SortKey.compare_of_invalid hk hvalid]
      exact ih hrest fun hlacks => hb (List.forall_mem_cons.2 ⟨hvalid, hlacks⟩)

/-- A row without a key comes before another one only if that has none either, and then as they
    stand in the table. -/
theorem Lacks.before_iff {a b : Nat} (ha : o.Lacks a) : o.Before a b ↔ o.Lacks b ∧ a < b := by
  unfold Before
  by_cases hb : o.Lacks b
  · rw [ha.compare_eq hb]
    simp [hb]
  · rw [ha.compare_gt hb]
    simp [hb]

/-! ## Masked orders -/

/-- Among the listed rows, an order that compares those which are shown as another one does, and
    lacks all keys of the others. -/
structure Masks (o p : RowOrder) (shows : Nat → Bool) (rows : List Nat) : Prop where
  before : ∀ a ∈ rows, ∀ b ∈ rows, shows a = true → shows b = true → (o.Before a b ↔ p.Before a b)
  lacks : ∀ row ∈ rows, shows row = true → (o.Lacks row ↔ p.Lacks row)
  hidden : ∀ row ∈ rows, shows row = false → o.Lacks row

namespace Masks

variable {shows : Nat → Bool}

theorem lacks_iff (h : Masks o p shows rows) {row : Nat} (hrow : row ∈ rows) :
    o.Lacks row ↔ shows row = false ∨ p.Lacks row := by
  cases hshown : shows row with
  | true => simpa using h.lacks row hrow hshown
  | false => simpa using h.hidden row hrow hshown

/-- The rows that are shown come in the same order. -/
theorem filter_shown (h : Masks o p shows rows) (hrows : rows.Pairwise (· < ·)) :
    (o.sort rows).filter shows = (p.sort rows).filter shows := by
  rw [← o.sort_filter hrows, ← p.sort_filter hrows, sort_eq_sort_iff (hrows.filter shows)]
  intro a ha b hb
  obtain ⟨ha, hshown⟩ := List.mem_filter.1 ha
  obtain ⟨hb, hshown'⟩ := List.mem_filter.1 hb
  exact h.before a ha b hb hshown hshown'

/-- The other rows stay as they stand. -/
theorem filter_hidden (h : Masks o p shows rows) (hrows : rows.Pairwise (· < ·)) :
    (o.sort rows).filter (!shows ·) = rows.filter (!shows ·) := by
  have hhidden : ∀ row ∈ rows.filter (!shows ·), o.Lacks row := fun row hrow =>
    h.hidden row (List.mem_filter.1 hrow).1 (by simpa using (List.mem_filter.1 hrow).2)
  rw [← o.sort_filter hrows]
  refine o.sort_eq_of_pairwise (hrows.filter _) (List.Perm.refl _) ?_
  refine (hrows.filter _).imp_of_mem fun {a b} ha hb hlt => ?_
  exact (hhidden a ha).before_iff.2 ⟨hhidden b hb, hlt⟩

/-- The lists agree exactly if the rows that are not shown come where the masked order puts
    them. -/
theorem sort_eq_iff (h : Masks o p shows rows) (hrows : rows.Pairwise (· < ·)) :
    o.sort rows = p.sort rows ↔ ∀ a ∈ rows, shows a = false → ∀ b ∈ rows,
      (p.Before a b ↔ a < b ∧ (shows b = false ∨ p.Lacks b)) := by
  have hmasked : ∀ a ∈ rows, shows a = false → ∀ b ∈ rows,
      (o.Before a b ↔ a < b ∧ (shows b = false ∨ p.Lacks b)) := by
    intro a ha hhidden b hb
    rw [(h.hidden a ha hhidden).before_iff, h.lacks_iff hb, and_comm]
  rw [sort_eq_sort_iff hrows]
  constructor
  · intro hsame a ha hhidden b hb
    rw [← hsame a ha b hb]
    exact hmasked a ha hhidden b hb
  · intro hplaced
    have hfrom : ∀ a ∈ rows, shows a = false → ∀ b ∈ rows, (o.Before a b ↔ p.Before a b) :=
      fun a ha hhidden b hb => (hmasked a ha hhidden b hb).trans (hplaced a ha hhidden b hb).symm
    intro a ha b hb
    cases hshown : shows a with
    | false => exact hfrom a ha hshown b hb
    | true =>
      cases hshown' : shows b with
      | true => exact h.before a ha b hb hshown hshown'
      | false =>
        have hne : a ≠ b := by
          rintro rfl
          rw [hshown] at hshown'
          cases hshown'
        rw [before_iff_not_before hne, before_iff_not_before hne, hfrom b hb hshown' a ha]

theorem sort_eq (h : Masks o p shows rows) (hrows : rows.Pairwise (· < ·))
    (hall : ∀ row ∈ rows, shows row = true) : o.sort rows = p.sort rows :=
  (sort_eq_sort_iff hrows).2 fun a ha b hb => h.before a ha b hb (hall a ha) (hall b hb)

end Masks

theorem compareBy_congr {ks ls : List SortKey} {a b : Nat}
    (h : List.Forall₂ (fun k l : SortKey => k.compare a b = l.compare a b) ks ls) :
    compareBy ks a b = compareBy ls a b := by
  induction h with
  | nil => rfl
  | cons hfirst _ ih => rw [compareBy, compareBy, hfirst, ih]

/-- Keys over some rows, masked by those over other rows. -/
theorem masks_of_holds {α : Type} {f : α → Formula} {descending : α → Bool} {keys : List α}
    {shown : List Nat} {shows : Nat → Bool}
    (ho : List.Forall₂ (fun e k => SortKey.Holds k (f e) (descending e) shown) keys o.keys)
    (hp : List.Forall₂ (fun e k => SortKey.Holds k (f e) (descending e) rows) keys p.keys)
    (hshows : ∀ row ∈ rows, (row ∈ shown ↔ shows row = true)) : Masks o p shows rows := by
  have hkeys : List.Forall₂ (fun k l : SortKey => k.descending = l.descending ∧
      ∀ row ∈ rows, shows row = true → k.valueAt row = l.valueAt row) o.keys p.keys := by
    generalize o.keys = ks, p.keys = ls at ho hp
    induction ho generalizing ls with
    | nil =>
      cases hp
      exact .nil
    | cons hk _ ih =>
      cases hp with
      | cons hl hls =>
        refine .cons ⟨hk.direction.trans hl.direction.symm, fun row hrow hshown => ?_⟩ (ih _ hls)
        exact Option.some.inj
          ((hk.listed row ((hshows row hrow).2 hshown)).symm.trans (hl.listed row hrow))
  refine ⟨fun a ha b hb hshown hshown' => ?_, fun row hrow hshown => ⟨?_, ?_⟩,
    fun row hrow hhidden k hk => ?_⟩
  · have hcompare : o.compare a b = p.compare a b := by
      refine compareBy_congr (hkeys.imp fun k l hkl => ?_)
      unfold SortKey.compare
      rw [hkl.1, hkl.2 a ha hshown, hkl.2 b hb hshown']
    unfold Before
    rw [hcompare]
  · intro hlacks l hl
    obtain ⟨k, hk, hkl⟩ := exists_of_forall₂ hkeys.flip hl
    rw [← hkl.2 row hrow hshown]
    exact hlacks k hk
  · intro hlacks k hk
    obtain ⟨l, hl, hkl⟩ := exists_of_forall₂ hkeys hk
    rw [hkl.2 row hrow hshown]
    exact hlacks l hl
  · obtain ⟨e, -, hholds⟩ := exists_of_forall₂ ho.flip hk
    have hnot : row ∉ shown := by
      rw [hshows row hrow, hhidden]
      exact Bool.false_ne_true
    rw [hholds.others row hnot]
    rfl

end RowOrder

/-- A filter that is set is a set of rows of the table. -/
def Change.IsRowSet (c : Change BitSet) (total : Nat) : Prop :=
  ∀ f, c = .replace f → f.WellFormed ∧ f.length = total

namespace View

variable {v : View} {key : RowKey} {c : Change BitSet}

/-- The view under another filter, or under none. -/
def refilter (v : View) (c : Change BitSet) : View := v.create { filter := c }

theorem refilter_replace (v : View) (f : BitSet) : v.refilter (.replace f) =
    ⟨v.data, some f, v.groups.map (·.narrow f), v.order, v.params⟩ := rfl

theorem refilter_clear (v : View) : v.refilter .clear =
    ⟨v.data, none, v.groups.map (·.narrow (.full v.totalRows)), v.order, v.params⟩ := rfl

theorem withOrder_eq (v : View) (o : RowOrder) :
    v.withOrder o = ⟨v.data, v.filter, v.groups, some o, v.params⟩ := rfl

/-- A change of the filter leaves the order as it is. -/
theorem refilter_withOrder (v : View) (o : RowOrder) (c : Change BitSet) :
    (v.withOrder o).refilter c = (v.refilter c).withOrder o := by
  rw [withOrder_eq, withOrder_eq]
  cases c with
  | keep => rfl
  | clear => rw [refilter_clear, refilter_clear]; rfl
  | replace f => rw [refilter_replace, refilter_replace]

theorem Sound.refilter (hv : v.Sound key) (hc : c.IsRowSet v.totalRows) :
    (v.refilter c).Sound key := by
  cases c with
  | keep => exact hv
  | clear => exact hv.withoutFilter
  | replace f => exact hv.withFilter (hc f rfl).1 (hc f rfl).2

end View

/-- Sorting a reachable view and then changing its filter, beside changing the filter first. Both
    ways list the rows that the filter shows: the first way by the keys as they were evaluated
    before, the second one by all their keys. The rows that were visible before come in the same
    order, the others stand as in the table. The lists are the same exactly if each row that was
    hidden comes before just those rows that follow in the table and were hidden too or lack all
    keys, and so whenever the filter shows no such row. -/
theorem indices_refilter {v : View} (h : Reachable v) {c : Change BitSet}
    (hc : c.IsRowSet v.totalRows) {keys : List OrderBy} {r : Resolution}
    (hr : v.resolve (View.sortExprs keys) .rows = .ok r) :
    ((∃ x, v.orderBy keys = .ok x) ↔
      ∀ row ∈ v.visible, v.EscapesAnswer (View.sortExprs keys) row) ∧
    ((∃ y, (v.refilter c).orderBy keys = .ok y) ↔
      ∀ row ∈ (v.refilter c).visible, v.EscapesAnswer (View.sortExprs keys) row) ∧
    ∀ x y, v.orderBy keys = .ok x → (v.refilter c).orderBy keys = .ok y →
      ∃ o p kept anew, x = v.withOrder o ∧ y = (v.refilter c).withOrder p ∧
        (x.refilter c).indices true = some kept ∧ View.Sorts o (v.refilter c).visible kept ∧
        y.indices true = some anew ∧ View.Sorts p (v.refilter c).visible anew ∧
        kept.filter v.shows = anew.filter v.shows ∧
        kept.filter (!v.shows ·) = (v.refilter c).visible.filter (!v.shows ·) ∧
        ((∀ row ∈ (v.refilter c).visible, v.shows row = true) → kept = anew) ∧
        (kept = anew ↔ ∀ a ∈ (v.refilter c).visible, v.shows a = false →
          ∀ b ∈ (v.refilter c).visible,
            (p.Before a b ↔ a < b ∧ (v.shows b = false ∨ p.Lacks b))) := by
  obtain ⟨key, hreach⟩ := h
  have hv := sound_of_reachable hreach
  have hw := hv.refilter hc
  have hr' : (v.refilter c).resolve (View.sortExprs keys) .rows = .ok r := hr
  refine ⟨hv.orderBy_isOk_iff hr, hw.orderBy_isOk_iff hr', fun x y hx hy => ?_⟩
  obtain ⟨o, rfl, ho⟩ := hv.orderBy_spec hr hx
  obtain ⟨p, rfl, hp⟩ := hw.orderBy_spec hr' hy
  have hvisible := hw.pairwise_visible
  have hmasks : o.Masks p v.shows (v.refilter c).visible :=
    RowOrder.masks_of_holds ho.keys hp.keys fun row hrow =>
      (hv.mem_visible row).trans (and_iff_right (hw.lt_of_visible hrow))
  have hkept : ((v.withOrder o).refilter c).indices true
      = some (o.sort (v.refilter c).visible) := by
    rw [View.refilter_withOrder]
    exact hw.sorted_withOrder ho.covers
  refine ⟨o, p, _, _, rfl, rfl, hkept, ⟨o.perm_sort _, o.pairwise_sort hvisible⟩,
    hw.sorted_withOrder hp.covers, ⟨p.perm_sort _, p.pairwise_sort hvisible⟩,
    hmasks.filter_shown hvisible, hmasks.filter_hidden hvisible, hmasks.sort_eq hvisible,
    hmasks.sort_eq_iff hvisible⟩

/-- Letters of which the first row is hidden, sorted. When the filter is cleared the row comes last;
    sorted without a filter it comes first. -/
theorem indices_refilter_letters : ∃ v x y, Reachable v ∧
    v.orderBy [⟨.column "x", false⟩] = .ok x ∧
    (v.refilter .clear).orderBy [⟨.column "x", false⟩] = .ok y ∧
    (x.refilter .clear).indices true = some [2, 1, 3, 0] ∧ y.indices true = some [0, 2, 1, 3] := by
  obtain ⟨hwf, hlen, -⟩ := BitSet.ofPredicate_spec 4 (0 < ·)
  have hreach : Reachable ((View.ofTable letters).withFilter (.ofPredicate 4 (0 < ·))) :=
    ⟨_, .step (.setFilter _) [] (.table letters_wellFormed) (by simp) rfl ⟨hwf, hlen⟩ rfl⟩
  obtain ⟨r, hr⟩ : ∃ r, ((View.ofTable letters).withFilter (.ofPredicate 4 (0 < ·))).resolve
      (View.sortExprs [⟨.column "x", false⟩]) .rows = .ok r := ⟨_, rfl⟩
  have hcleared : Change.IsRowSet .clear 4 := nofun
  obtain ⟨hexists, hexists', hlists⟩ := indices_refilter hreach hcleared hr
  have hanswer : ∀ row, View.EscapesAnswer ((View.ofTable letters).withFilter
      (.ofPredicate 4 (0 < ·))) (View.sortExprs [⟨.column "x", false⟩]) row := by
    intro row e he f hf
    obtain rfl : e = ("key0", .column "x") := List.mem_singleton.1 he
    cases hf
  obtain ⟨x, hx⟩ := hexists.2 fun row _ => hanswer row
  obtain ⟨y, hy⟩ := hexists'.2 fun row _ => hanswer row
  obtain ⟨o, p, kept, anew, hview, hview', hkept, hsorts, hanew, hsorts', -⟩ := hlists x y hx hy
  have horder : x.order = some o := by rw [hview]; rfl
  have horder' : y.order = some p := by rw [hview']; rfl
  refine ⟨_, x, y, hreach, hx, hy, ?_⟩
  cases hx
  cases hy
  cases horder
  cases horder'
  obtain rfl := hsorts.eq [2, 1, 3, 0] ⟨by decide +kernel, by decide +kernel⟩
  obtain rfl := hsorts'.eq [0, 2, 1, 3] ⟨by decide +kernel, by decide +kernel⟩
  exact ⟨hkept, hanew⟩

end ColumnQuery
