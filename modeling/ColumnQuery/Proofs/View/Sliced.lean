/-
  Slices of a view.

  A slice keeps an interval of positions of every partition. Its bounds count from the start of the
  partition, or from its end if they are negative, and a bound outside is moved to the nearer end
  (`place`); so the rows at the positions from the one bound up to the other are kept, none if the
  bounds are crossed (`mem_interval`).

  The partitions of a view split its visible rows, and no row stands at two places of them
  (`Sound.places_of_partitions`). A slice is a set of rows of the table and says nothing of
  positions, but selected rows come in the same order by themselves, and groups that are left keep
  their order when they are numbered anew (`Sound.partitions_withFilter`). So the partitions of a
  slice are the intervals of those of the view, less the empty ones (`slice_of_reachable`).
-/
import ColumnQuery.Proofs.Mirror.Selection
import ColumnQuery.Proofs.View.Matched
import ColumnQuery.Proofs.View.Ranked

namespace ColumnQuery

namespace View

/-! ## Intervals of positions -/

/-- A bound among `n` positions. -/
def place (n : Nat) (i : Int) : Int := max 0 (min n (if i < 0 then n + i else i))

/-- The positions among `n` from `start` up to `stop`, or up to the end. -/
def Between (n : Nat) (start : Int) (stop : Option Int) (p : Nat) : Prop :=
  place n start ≤ p ∧ p < stop.elim (n : Int) (place n)

theorem boundAt_eq_place (n : Nat) (i : Int) : (boundAt n i : Int) = place n i := by
  unfold boundAt place
  split <;> omega

theorem mem_interval {start : Int} {stop : Option Int} {rows : List Nat} {row : Nat} :
    row ∈ interval start stop rows ↔
      ∃ p : Nat, rows[p]? = some row ∧ Between rows.length start stop p := by
  have hstop : interval start stop rows =
      (rows.take (stop.elim rows.length (boundAt rows.length))).drop
        (boundAt rows.length start) := by
    cases stop <;> rfl
  have hlast : ((stop.elim rows.length (boundAt rows.length) : Nat) : Int) =
      stop.elim (rows.length : Int) (place rows.length) := by
    cases stop with
    | none => rfl
    | some i => exact boundAt_eq_place rows.length i
  have hfirst := boundAt_eq_place rows.length start
  unfold Between
  rw [hstop, List.mem_iff_getElem?, ← hlast, ← hfirst]
  constructor
  · rintro ⟨i, hi⟩
    rw [List.getElem?_drop, List.getElem?_take] at hi
    split at hi
    next hlt => exact ⟨_, hi, by omega, by omega⟩
    next => cases hi
  · rintro ⟨p, hp, hle, hlt⟩
    refine ⟨p - boundAt rows.length start, ?_⟩
    rw [List.getElem?_drop, Nat.add_sub_cancel' (by omega), List.getElem?_take,
      if_pos (by omega), hp]

theorem sublist_interval (start : Int) (stop : Option Int) (rows : List Nat) :
    (interval start stop rows).Sublist rows :=
  (List.drop_sublist _ _).trans (List.take_sublist _ _)

/-- Rows that are listed once are picked out again by membership. -/
theorem filter_mem_of_sublist {xs ys : List Nat} (h : xs.Sublist ys) (hnodup : ys.Nodup) :
    ys.filter (· ∈ xs) = xs := by
  induction h with
  | slnil => rfl
  | cons y h ih =>
    obtain ⟨hy, hnodup⟩ := List.nodup_cons.1 hnodup
    rw [List.filter_cons_of_neg (by simpa using fun hmem => hy (h.subset hmem)), ih hnodup]
  | cons_cons y h ih =>
    obtain ⟨hy, hnodup⟩ := List.nodup_cons.1 hnodup
    rw [List.filter_cons_of_pos (by simp)]
    refine congrArg (y :: ·) (Eq.trans (List.filter_congr fun z hz => ?_) (ih hnodup))
    have hne : z ≠ y := fun heq => hy (heq ▸ hz)
    simp [hne]

theorem filter_interval (start : Int) (stop : Option Int) {rows : List Nat}
    (hnodup : rows.Nodup) :
    rows.filter (· ∈ interval start stop rows) = interval start stop rows :=
  filter_mem_of_sublist (sublist_interval start stop rows) hnodup

/-- Every position lies before a bound or from the bound on, and not both. -/
theorem between_zero_iff {n p : Nat} (hp : p < n) (k : Int) :
    Between n 0 (some k) p ↔ ¬ Between n k none p := by
  unfold Between place
  simp only [Option.elim]
  split <;> omega

/-! ## Classes of numbered rows -/

/-- Rows by their numbers, less the numbers of no row. -/
def classes (count : Nat) (number : Nat → Option Nat) (rows : List Nat) : List (List Nat) :=
  ((List.range count).map fun i => rows.filter (number · == some i)).filter (!·.isEmpty)

section Classes

variable {m n : Nat} {f g : Nat → Option Nat} {rows : List Nat}

theorem mem_classes (hf : ∀ row ∈ rows, ∃ i < m, f row = some i) {part : List Nat} :
    part ∈ classes m f rows ↔ ∃ a ∈ rows, part = rows.filter (f · == f a) := by
  unfold classes
  rw [List.mem_filter, List.mem_map, Bool.not_eq_true', List.isEmpty_eq_false_iff]
  constructor
  · rintro ⟨⟨i, -, rfl⟩, hne⟩
    obtain ⟨a, ha⟩ := List.exists_mem_of_ne_nil _ hne
    obtain ⟨hmem, hnumber⟩ := List.mem_filter.1 ha
    exact ⟨a, hmem, by rw [eq_of_beq hnumber]⟩
  · rintro ⟨a, ha, rfl⟩
    obtain ⟨i, hi, hnumber⟩ := hf a ha
    refine ⟨⟨i, List.mem_range.2 hi, by rw [hnumber]⟩, List.ne_nil_of_mem (a := a) ?_⟩
    exact List.mem_filter.2 ⟨ha, beq_self_eq_true _⟩

/-- All rows of the one class have smaller numbers than those of the other. -/
def Precedes (f : Nat → Option Nat) (p q : List Nat) : Prop :=
  p ≠ [] ∧ q ≠ [] ∧ ∀ a ∈ p, ∀ b ∈ q, ∃ i j, f a = some i ∧ f b = some j ∧ i < j

instance irrefl_precedes (f : Nat → Option Nat) : Std.Irrefl (Precedes f) where
  irrefl p h := by
    obtain ⟨hne, -, hlt⟩ := h
    obtain ⟨a, ha⟩ := List.exists_mem_of_ne_nil _ hne
    obtain ⟨i, j, hi, hj, hij⟩ := hlt a ha a ha
    obtain rfl := Option.some.inj (hi.symm.trans hj)
    omega

instance antisymm_precedes (f : Nat → Option Nat) : Std.Antisymm (Precedes f) where
  antisymm p q hpq hqp := by
    obtain ⟨hp, hq, hlt⟩ := hpq
    obtain ⟨a, ha⟩ := List.exists_mem_of_ne_nil _ hp
    obtain ⟨b, hb⟩ := List.exists_mem_of_ne_nil _ hq
    obtain ⟨i, j, hi, hj, hij⟩ := hlt a ha b hb
    obtain ⟨j', i', hj', hi', hji⟩ := hqp.2.2 b hb a ha
    obtain rfl := Option.some.inj (hi.symm.trans hi')
    obtain rfl := Option.some.inj (hj.symm.trans hj')
    omega

theorem pairwise_classes (count : Nat) (f : Nat → Option Nat) (rows : List Nat) :
    (classes count f rows).Pairwise (Precedes f) := by
  unfold classes
  rw [List.pairwise_filter, List.pairwise_map]
  refine List.pairwise_lt_range.imp fun {i j} hij hi hj => ?_
  rw [Bool.not_eq_true', List.isEmpty_eq_false_iff] at hi hj
  refine ⟨hi, hj, fun a ha b hb => ⟨i, j, ?_, ?_, hij⟩⟩
  · exact eq_of_beq (List.mem_filter.1 ha).2
  · exact eq_of_beq (List.mem_filter.1 hb).2

/-- The classes depend on the order of the numbers alone. -/
theorem classes_eq_classes (hf : ∀ row ∈ rows, ∃ i < m, f row = some i)
    (hg : ∀ row ∈ rows, ∃ j < n, g row = some j)
    (hordered : ∀ a ∈ rows, ∀ b ∈ rows, ∀ i i' j j', f a = some i → f b = some i' →
      g a = some j → g b = some j' → (j < j' ↔ i < i')) :
    classes m f rows = classes n g rows := by
  have hsame : ∀ a ∈ rows, ∀ b ∈ rows, (f b == f a) = (g b == g a) := by
    intro a ha b hb
    obtain ⟨i, -, hi⟩ := hf a ha
    obtain ⟨i', -, hi'⟩ := hf b hb
    obtain ⟨j, -, hj⟩ := hg a ha
    obtain ⟨j', -, hj'⟩ := hg b hb
    have hab := hordered a ha b hb i i' j j' hi hi' hj hj'
    have hba := hordered b hb a ha i' i j' j hi' hi hj' hj
    rw [hi, hi', hj, hj', Bool.eq_iff_iff, beq_iff_eq, beq_iff_eq, Option.some_inj,
      Option.some_inj]
    omega
  refine (pairwise_classes m f rows).eq_of_mem_iff
    ((pairwise_classes n g rows).imp_of_mem fun {p q} hp hq hpq => ?_) fun part => ?_
  · refine ⟨hpq.1, hpq.2.1, fun a ha b hb => ?_⟩
    obtain ⟨c, -, rfl⟩ := (mem_classes hg).1 hp
    obtain ⟨d, -, rfl⟩ := (mem_classes hg).1 hq
    have ha' := (List.mem_filter.1 ha).1
    have hb' := (List.mem_filter.1 hb).1
    obtain ⟨i, -, hi⟩ := hf a ha'
    obtain ⟨i', -, hi'⟩ := hf b hb'
    obtain ⟨j, j', hj, hj', hlt⟩ := hpq.2.2 a ha b hb
    exact ⟨i, i', hi, hi', (hordered a ha' b hb' i i' j j' hi hi' hj hj').1 hlt⟩
  · rw [mem_classes hf, mem_classes hg]
    refine exists_congr fun a => and_congr_right fun ha => ?_
    rw [List.filter_congr (hsame a ha)]

end Classes

/-! ## Partitions -/

variable {v : View} {key : RowKey} {sorted : List Nat} {parts : List (List Nat)}

/-- The partitions with rows. -/
def occupied (parts : List (List Nat)) : List (List Nat) := parts.filter (!·.isEmpty)

theorem occupied_split (v : View) (rows : List Nat) :
    occupied (v.split rows) = classes v.groupCount v.groupOf rows := rfl

/-- Of fewer rows, the partitions are what is left of those of all rows, in the same order. -/
theorem Sound.partitions_withFilter (hv : v.Sound key) (hn : v.Narrowed) {f : BitSet}
    (hf : v.Selects f) (hparts : v.partitions true = some parts) :
    ∃ left, (v.withFilter f).partitions true = some left ∧
      occupied left = occupied (parts.map (·.filter f.contains)) := by
  obtain ⟨sorted, hsorted, rfl⟩ := Option.map_eq_some_iff.1 hparts
  have hsorted : v.sorted = some sorted := hsorted
  have hkept := hv.sorted_withFilter hf hsorted
  have hw := hv.withFilter hf.wellFormed hf.length_eq
  refine ⟨_, congrArg (Option.map (v.withFilter f).split) hkept, ?_⟩
  have hcommute : (v.split sorted).map (·.filter f.contains)
      = v.split (sorted.filter f.contains) := by
    unfold split
    rw [List.map_map]
    refine List.map_congr_left fun i _ => ?_
    rw [Function.comp_apply, List.filter_filter, List.filter_filter]
    exact List.filter_congr fun row _ => Bool.and_comm _ _
  rw [hcommute, occupied_split, occupied_split]
  have hvisible : ∀ row ∈ sorted.filter f.contains, row ∈ v.visible ∧
      row ∈ (v.withFilter f).visible := by
    intro row hrow
    exact ⟨(perm_of_sorted hsorted).mem_iff.1 (List.mem_filter.1 hrow).1,
      (perm_of_sorted hkept).mem_iff.1 hrow⟩
  refine (classes_eq_classes (fun row hrow => hv.exists_groupOf (hvisible row hrow).1)
    (fun row hrow => hw.exists_groupOf (hvisible row hrow).2) ?_).symm
  intro a _ b _ i i' j j' hi hi' hj hj'
  have hgroups := (hv.restricts_withFilter hn hf).groups
  unfold groupOf at hi hi' hj hj'
  generalize v.groups = x, (v.withFilter f).groups = y at hgroups hi hi' hj hj'
  cases hgroups with
  | some hg => exact hg.ordered a b i i' j j' hi hi' hj hj'
  | none =>
    cases hi
    cases hi'
    cases hj
    cases hj'
    rfl

/-- Every visible row stands at one place of one partition. -/
theorem Sound.places_of_partitions (hv : v.Sound key) (hparts : v.partitions true = some parts) :
    (∀ row, row ∈ v.visible ↔ ∃ rows ∈ parts, row ∈ rows) ∧
    ∀ rows ∈ parts, ∀ other ∈ parts, ∀ p q row : Nat, rows[p]? = some row → other[q]? = some row →
      rows = other ∧ p = q := by
  obtain ⟨sorted, hsorted, rfl⟩ := Option.map_eq_some_iff.1 hparts
  have hperm : sorted.Perm v.visible := perm_of_sorted hsorted
  refine ⟨fun row => ⟨fun hrow => ?_, ?_⟩, fun rows hrows other hother p q row hp hq => ?_⟩
  · obtain ⟨g, hg, hgroup⟩ := hv.exists_groupOf hrow
    exact ⟨_, List.mem_map.2 ⟨g, List.mem_range.2 hg, rfl⟩,
      List.mem_filter.2 ⟨hperm.mem_iff.2 hrow, beq_iff_eq.2 hgroup⟩⟩
  · rintro ⟨rows, hrows, hrow⟩
    obtain ⟨g, -, rfl⟩ := List.mem_map.1 hrows
    exact hperm.mem_iff.1 (List.mem_filter.1 hrow).1
  · obtain ⟨g, -, rfl⟩ := List.mem_map.1 hrows
    obtain ⟨h, -, rfl⟩ := List.mem_map.1 hother
    have hg := eq_of_beq (List.mem_filter.1 (List.mem_of_getElem? hp)).2
    have hh := eq_of_beq (List.mem_filter.1 (List.mem_of_getElem? hq)).2
    obtain rfl : g = h := Option.some.inj (hg.symm.trans hh)
    have hnodup : (sorted.filter (v.groupOf · == some g)).Nodup :=
      (hperm.nodup_iff.2 hv.nodup_visible).filter _
    have hlt := (List.getElem?_eq_some_iff.1 hp).1
    exact ⟨rfl, (List.getElem?_inj hlt hnodup).1 (hp.trans hq.symm)⟩

/-! ## Slices -/

/-- The row stands at a position between the bounds in its partition. -/
def StandsBetween (parts : List (List Nat)) (start : Int) (stop : Option Int) (row : Nat) : Prop :=
  ∃ rows ∈ parts, ∃ p : Nat, rows[p]? = some row ∧ Between rows.length start stop p

theorem mem_flatMap_interval {start : Int} {stop : Option Int} {row : Nat} :
    row ∈ parts.flatMap (interval start stop) ↔ StandsBetween parts start stop row := by
  rw [List.mem_flatMap]
  exact exists_congr fun rows => and_congr_right fun _ => mem_interval

/-- A row up to a bound or from it on, and not both. -/
theorem Sound.standsBetween_iff (hv : v.Sound key) (hparts : v.partitions true = some parts)
    {row : Nat} (hrow : row ∈ v.visible) (k : Int) :
    StandsBetween parts 0 (some k) row ↔ ¬ StandsBetween parts k none row := by
  obtain ⟨hplaces, hunique⟩ := hv.places_of_partitions hparts
  obtain ⟨rows, hrows, hmem⟩ := (hplaces row).1 hrow
  obtain ⟨p, hp⟩ := List.mem_iff_getElem?.1 hmem
  have hone : ∀ start stop, StandsBetween parts start stop row ↔
      Between rows.length start stop p := by
    refine fun start stop => ⟨?_, fun h => ⟨rows, hrows, p, hp, h⟩⟩
    rintro ⟨other, hother, q, hq, h⟩
    obtain ⟨rfl, rfl⟩ := hunique rows hrows other hother p q row hp hq
    exact h
  rw [hone, hone]
  exact between_zero_iff (List.getElem?_eq_some_iff.1 hp).1 k

/-- A slice shows the rows between the bounds, and has the intervals as partitions. -/
theorem Sound.slice_spec (hv : v.Sound key) (hn : v.Narrowed)
    (hparts : v.partitions true = some parts) (start : Int) (stop : Option Int) :
    ∃ w, v.slice start stop = .ok w ∧
      (∀ row, row ∈ w.visible ↔ StandsBetween parts start stop row) ∧
      ∃ left, w.partitions true = some left ∧
        occupied left = occupied (parts.map (interval start stop)) := by
  obtain ⟨parts', hparts', hnodup, -, -⟩ := hv.partitions_spec
  obtain rfl : parts = parts' := Option.some.inj (hparts.symm.trans hparts')
  obtain ⟨hplaces, hunique⟩ := hv.places_of_partitions hparts
  have hvisible : ∀ row ∈ parts.flatMap (interval start stop), row ∈ v.visible := by
    intro row hrow
    obtain ⟨rows, hrows, hrow⟩ := List.mem_flatMap.1 hrow
    exact (hplaces row).2 ⟨rows, hrows, (sublist_interval start stop rows).subset hrow⟩
  obtain ⟨f, hset, hf, hcontains⟩ := hv.exists_rowSet hvisible
  have hslice : v.slice start stop = .ok (v.withFilter f) := by
    unfold slice
    rw [hparts]
    show v.keepRows _ = _
    unfold keepRows
    rw [hset]
    rfl
  have hinterval : ∀ rows ∈ parts, rows.filter f.contains = interval start stop rows := by
    intro rows hrows
    rw [← filter_interval start stop (hnodup rows hrows)]
    refine List.filter_congr fun row hrow => ?_
    obtain ⟨p, hp⟩ := List.mem_iff_getElem?.1 hrow
    rw [hcontains, decide_eq_decide, mem_flatMap_interval, mem_interval]
    constructor
    · rintro ⟨other, hother, q, hq, hbetween⟩
      obtain ⟨rfl, rfl⟩ := hunique rows hrows other hother p q row hp hq
      exact ⟨p, hp, hbetween⟩
    · rintro ⟨q, hq, hbetween⟩
      exact ⟨rows, hrows, q, hq, hbetween⟩
  obtain ⟨left, hleft, heq⟩ := hv.partitions_withFilter hn hf hparts
  rw [List.map_congr_left hinterval] at heq
  refine ⟨_, hslice, fun row => ?_, left, hleft, heq⟩
  rw [hv.visible_withFilter hf, List.mem_filter, hcontains, decide_eq_true_iff,
    ← mem_flatMap_interval]
  exact ⟨fun h => h.2, fun h => ⟨hvisible row h, h⟩⟩

/-- Slices of a reachable view. The partitions split the visible rows, each in the order of the
    view. For all bounds there is a slice, and its visible rows are exactly those that stand at a
    position between the bounds in their partition. What is left of the partitions are these
    intervals, in the same order. The rows before a bound and those from it on make up the visible
    rows. -/
theorem slice_of_reachable {v : View} (hv : Reachable v) : ∃ parts, v.partitions true = some parts ∧
    parts.flatten.Perm v.visible ∧
    (∀ rows ∈ parts, rows.Pairwise fun a b =>
      v.compareRows a b = .lt ∨ v.compareRows a b = .eq ∧ a < b) ∧
    (∀ start stop, ∃ w, v.slice start stop = .ok w ∧
      (∀ row, row ∈ w.visible ↔ StandsBetween parts start stop row) ∧
      ∃ left, w.partitions true = some left ∧
        occupied left = occupied (parts.map (interval start stop))) ∧
    ∀ k, ∃ a b, v.slice 0 (some k) = .ok a ∧ v.slice k none = .ok b ∧
      (a.visible ++ b.visible).Perm v.visible := by
  obtain ⟨key, hreach⟩ := hv
  have hsound := sound_of_reachable hreach
  have hn := narrowed_of_reachable hreach
  obtain ⟨parts, hparts, hnodup, -, hapart⟩ := hsound.partitions_spec
  obtain ⟨hplaces, -⟩ := hsound.places_of_partitions hparts
  have hslice := hsound.slice_spec hn hparts
  refine ⟨parts, hparts, ?_, fun rows hrows => hsound.partition_sorted hparts hrows, hslice,
    fun k => ?_⟩
  · refine (List.perm_ext_iff_of_nodup ?_ hsound.nodup_visible).2 fun row => ?_
    · exact List.nodup_flatten.2 ⟨hnodup, hapart⟩
    · rw [List.mem_flatten]
      exact (hplaces row).symm
  · obtain ⟨a, ha, hfirst, -⟩ := hslice 0 (some k)
    obtain ⟨b, hb, hrest, -⟩ := hslice k none
    have hwhole : ∀ {start stop row}, StandsBetween parts start stop row → row ∈ v.visible := by
      rintro start stop row ⟨rows, hrows, p, hp, -⟩
      exact (hplaces row).2 ⟨rows, hrows, List.mem_of_getElem? hp⟩
    have hsplit : ∀ row ∈ v.visible, row ∈ a.visible ↔ row ∉ b.visible := fun row hrow => by
      rw [hfirst, hrest]
      exact hsound.standsBetween_iff hparts hrow k
    refine ⟨a, b, ha, hb, ?_⟩
    refine (List.perm_ext_iff_of_nodup ?_ hsound.nodup_visible).2 fun row => ?_
    · refine List.nodup_append'.2 ⟨(hsound.of_slice ha).nodup_visible,
        (hsound.of_slice hb).nodup_visible, fun row hrow => ?_⟩
      exact (hsplit row (hwhole ((hfirst row).1 hrow))).1 hrow
    · rw [List.mem_append]
      constructor
      · rintro (hrow | hrow)
        · exact hwhole ((hfirst row).1 hrow)
        · exact hwhole ((hrest row).1 hrow)
      · intro hrow
        by_cases hb : row ∈ b.visible
        · exact .inr hb
        · exact .inl ((hsplit row hrow).2 hb)

/-- Of three groups of letters only one has a second row; every group has a last one. -/
theorem slice_of_reachable_letters : ∃ v, Reachable v ∧
    v.partitions true = some [[0, 2], [1], [3]] ∧
    (∃ w left, v.slice 1 (some 5) = .ok w ∧ (∀ row, row ∈ w.visible ↔ row = 2) ∧
      w.partitions true = some left ∧ occupied left = [[2]]) ∧
    ∃ a b, v.slice 0 (some (-1)) = .ok a ∧ v.slice (-1) none = .ok b ∧
      (∀ row, row ∈ b.visible ↔ row ∈ [2, 1, 3]) ∧ (a.visible ++ b.visible).Perm v.visible := by
  obtain ⟨v, hgrouped, hreach, -⟩ := exists_groupBy_letters
  have hparts : v.partitions true = some [[0, 2], [1], [3]] := by
    cases hgrouped
    decide +kernel
  obtain ⟨parts, hparts', -, -, hslice, hsplit⟩ := slice_of_reachable hreach
  obtain rfl : [[0, 2], [1], [3]] = parts := Option.some.inj (hparts.symm.trans hparts')
  obtain ⟨w, hw, hvisible, left, hleft, hoccupied⟩ := hslice 1 (some 5)
  obtain ⟨a, b, ha, hb, hperm⟩ := hsplit (-1)
  obtain ⟨b', hb', hlast, -⟩ := hslice (-1) none
  obtain rfl : b = b' := Except.ok.inj (hb.symm.trans hb')
  refine ⟨v, hreach, hparts, ⟨w, left, hw, fun row => ?_, hleft, hoccupied⟩, a, b, ha, hb,
    fun row => ?_, hperm⟩
  · rw [hvisible, ← mem_flatMap_interval]
    exact List.mem_singleton
  · rw [hlast, ← mem_flatMap_interval]
    rfl

end View

end ColumnQuery
