/-
  Ranks of rows in order.

  Only neighbours are compared to find where classes of tied rows start. Of rows that stand in
  order, what comes before a row stands before its class, and what comes after it stands behind its
  class (`filter_before`, `filter_upTo`). So the start, the end and the number of a class are counts
  over the whole partition: of the rows before a row, of those not after it, and of the classes that
  come before it (`first_ofTies`, `last_ofTies`, `group_ofTies`).
-/
import ColumnQuery.Proofs.Window.Peers
import ColumnQuery.Window.Values
import Mathlib.Data.List.Dedup

namespace ColumnQuery

/-! ## Rows at the head of a list -/

section Head

variable {α : Type} {p : α → Bool} {rows : List α} {k : Nat}

/-- What passes a test that the first entries pass, and no others. -/
theorem filter_eq_take (hk : k ≤ rows.length)
    (h : ∀ i a, rows[i]? = some a → (p a = true ↔ i < k)) : rows.filter p = rows.take k := by
  have hhead : ∀ a ∈ rows.take k, p a = true := by
    intro a ha
    obtain ⟨i, hi⟩ := List.mem_iff_getElem?.1 ha
    have hlt : i < k := by
      have := (List.getElem?_eq_some_iff.1 hi).1
      rw [List.length_take] at this
      omega
    rw [List.getElem?_take_of_lt hlt] at hi
    exact (h i a hi).2 hlt
  have htail : ∀ a ∈ rows.drop k, p a ≠ true := by
    intro a ha hp
    obtain ⟨i, hi⟩ := List.mem_iff_getElem?.1 ha
    rw [List.getElem?_drop] at hi
    have := (h (k + i) a hi).1 hp
    omega
  calc rows.filter p = (rows.take k ++ rows.drop k).filter p := by rw [List.take_append_drop]
    _ = rows.take k := by
      rw [List.filter_append, List.filter_eq_self.2 hhead, List.filter_eq_nil_iff.2 htail,
        List.append_nil]

end Head

namespace Peers

/-! ## Classes as intervals -/

variable {p : Peers} {i j : Nat}

/-- The positions of a class are those from its first one up to its last one. -/
theorem WellFormed.group_eq_iff_mem (h : p.WellFormed) (hi : i < p.size) (hj : j < p.size) :
    p.group j = p.group i ↔ p.first i ≤ j ∧ j < p.last i := by
  constructor
  · intro heq
    have hfirst := h.first_le hj
    have hlast := h.lt_last hj
    unfold first at hfirst ⊢
    unfold last at hlast ⊢
    rw [← heq]
    exact ⟨hfirst, hlast⟩
  · rintro ⟨hfirst, hlast⟩
    obtain ⟨hpos, hlt⟩ := h.group_lt hi
    obtain ⟨hpos', hlt'⟩ := h.group_lt hj
    have hreached : p.group i < p.starts.countP (· ≤ j) := by
      unfold first at hfirst
      rw [List.getElem?_eq_getElem hlt, Option.getD_some] at hfirst
      exact (lt_countP_iff h.ascending j _ hlt).2 hfirst
    have hnext : p.starts.countP (· ≤ j) ≤ p.group i + 1 := by
      by_contra hmore
      have hcount := List.countP_le_length (p := (· ≤ j)) (l := p.starts)
      have hstart := (lt_countP_iff h.ascending j (p.group i + 1) (by omega)).1 (by omega)
      unfold last at hlast
      rw [List.getElem?_eq_getElem (by omega : p.group i + 1 < p.starts.length),
        Option.getD_some] at hlast
      omega
    show p.starts.countP (· ≤ j) - 1 = p.group i
    omega

/-- A class starts at the first of its positions. -/
theorem WellFormed.first_mem (h : p.WellFormed) (hi : i < p.size) : p.first i ∈ p.starts := by
  have hlt := (h.group_lt hi).2
  unfold first
  rw [List.getElem?_eq_getElem hlt, Option.getD_some]
  exact List.getElem_mem hlt

theorem WellFormed.first_of_mem (h : p.WellFormed) (hi : i ∈ p.starts) : p.first i = i := by
  have hsize := h.lt_size i hi
  refine Nat.le_antisymm (h.first_le hsize) ?_
  have hle := h.first_le hsize
  have hgroup := (h.group_eq_iff_mem hsize (Nat.lt_of_le_of_lt hle hsize)).2
    ⟨Nat.le_refl _, Nat.lt_of_le_of_lt hle (h.lt_last hsize)⟩
  exact (h.group_eq_iff hle hsize).1 hgroup i hi (Nat.le_refl _)

/-- The classes before the class of a position are as many as its number says. -/
theorem WellFormed.take_starts (h : p.WellFormed) (hi : i < p.size) :
    p.starts.filter (· < p.first i) = p.starts.take (p.group i) := by
  have hlt := (h.group_lt hi).2
  refine filter_eq_take (Nat.le_of_lt hlt) fun k start hstart => ?_
  obtain ⟨hk, rfl⟩ := List.getElem?_eq_some_iff.1 hstart
  unfold first
  rw [List.getElem?_eq_getElem hlt, Option.getD_some, decide_eq_true_eq]
  rcases Nat.lt_trichotomy k (p.group i) with hkg | rfl | hkg
  · exact iff_of_true (List.pairwise_iff_getElem.1 h.ascending k _ hk hlt hkg) hkg
  · simp
  · have := List.pairwise_iff_getElem.1 h.ascending _ k hlt hk hkg
    exact iff_of_false (by omega) (by omega)

/-- Where no row ties with the one before, every row is a class of its own. -/
theorem ofTies_of_apart {α : Type} {tied : α → α → Bool} {rows : List α}
    (h : rows.Pairwise fun a b => tied a b = false) : ofTies tied rows = alone rows.length := by
  have hstarts : ∀ (rest : List α) (previous : Option α) (position : Nat),
      rest.Pairwise (fun a b => tied a b = false) →
      (∀ a ∈ previous, ∀ b ∈ rest, tied a b = false) →
      startsFrom tied previous position rest = List.range' position rest.length := by
    intro rest
    induction rest with
    | nil => exact fun _ _ _ _ => rfl
    | cons row rest ih =>
      intro previous position hrest hprevious
      obtain ⟨hrow, hrest⟩ := List.pairwise_cons.1 hrest
      have hapart : previous.any (tied · row) = false := by
        cases previous with
        | none => rfl
        | some last => exact hprevious last rfl row List.mem_cons_self
      have hlater := ih (some row) (position + 1) hrest fun a ha => Option.some.inj ha ▸ hrow
      rw [startsFrom, hapart, hlater, List.length_cons, List.range'_succ]
      rfl
  unfold ofTies alone
  rw [hstarts rows none 0 h (by simp), List.range_eq_range']

/-! ## Counts over a partition -/

section Counts

variable {α : Type} {cmp : α → α → Ordering} {rows : List α} {a b : α}

/-- The rows that tie with a row. -/
def classOf (cmp : α → α → Ordering) (rows : List α) (a : α) : List α :=
  rows.filter (cmp a · == .eq)

/-- The number of classes of tied rows that come before a row. -/
def classesBefore [DecidableEq α] (cmp : α → α → Ordering) (rows : List α) (a : α) : Nat :=
  ((rows.filter (cmp · a == .lt)).map (classOf cmp rows)).dedup.length

/-- The class of the row at a position. -/
def classAt (cmp : α → α → Ordering) (rows : List α) (i : Nat) : List α :=
  (rows[i]?.map (classOf cmp rows)).getD []

theorem classAt_eq (ha : rows[i]? = some a) : classAt cmp rows i = classOf cmp rows a := by
  unfold classAt
  rw [ha]
  rfl

variable [Std.TransCmp cmp]

theorem tied_iff (hrows : rows.Pairwise fun a b => (cmp a b).isLE = true)
    (ha : rows[i]? = some a) (hb : rows[j]? = some b) : cmp b a = .eq ↔
      (ofTies (cmp · · == .eq) rows).first i ≤ j ∧ j < (ofTies (cmp · · == .eq) rows).last i := by
  rw [← group_ofTies_eq_iff hrows hb ha]
  exact (wellFormed_ofTies _ rows).group_eq_iff_mem (List.getElem?_eq_some_iff.1 ha).1
    (List.getElem?_eq_some_iff.1 hb).1

theorem before_iff (hrows : rows.Pairwise fun a b => (cmp a b).isLE = true)
    (ha : rows[i]? = some a) (hb : rows[j]? = some b) :
    cmp b a = .lt ↔ j < (ofTies (cmp · · == .eq) rows).first i := by
  have hwf := wellFormed_ofTies (cmp · · == .eq) rows
  have hi : i < rows.length := (List.getElem?_eq_some_iff.1 ha).1
  have hfirst := hwf.first_le hi
  have hlast := hwf.lt_last hi
  have htied := tied_iff hrows ha hb
  constructor
  · intro hlt
    by_contra hge
    -- a row behind the class of another one does not come before it
    have hback : i ≤ j := by
      by_contra hji
      rw [htied.2 ⟨by omega, by omega⟩] at hlt
      cases hlt
    have hle := isLE_of_pairwise hrows hback ha hb
    have hswap : cmp a b = (cmp b a).swap := Std.OrientedCmp.eq_swap
    rw [hswap, hlt] at hle
    cases hle
  · intro hlt
    have hle := isLE_of_pairwise hrows (show j ≤ i by omega) hb ha
    have hne : cmp b a ≠ .eq := fun heq => by
      have := (htied.1 heq).1
      omega
    cases hcmp : cmp b a with
    | lt => rfl
    | eq => exact absurd hcmp hne
    | gt =>
      rw [hcmp] at hle
      cases hle

theorem upTo_iff (hrows : rows.Pairwise fun a b => (cmp a b).isLE = true)
    (ha : rows[i]? = some a) (hb : rows[j]? = some b) :
    (cmp b a).isLE = true ↔ j < (ofTies (cmp · · == .eq) rows).last i := by
  have hwf := wellFormed_ofTies (cmp · · == .eq) rows
  have hi : i < rows.length := (List.getElem?_eq_some_iff.1 ha).1
  have hfirst := hwf.first_le hi
  have hlast := hwf.lt_last hi
  have htied := tied_iff hrows ha hb
  have hbefore := before_iff hrows ha hb
  rw [Ordering.isLE_iff_eq_lt_or_eq_eq, hbefore, htied]
  omega

/-- The rows before a row stand before its class. -/
theorem filter_before (hrows : rows.Pairwise fun a b => (cmp a b).isLE = true)
    (ha : rows[i]? = some a) : rows.filter (cmp · a == .lt)
      = rows.take ((ofTies (cmp · · == .eq) rows).first i) := by
  have hi : i < rows.length := (List.getElem?_eq_some_iff.1 ha).1
  have hfirst := (wellFormed_ofTies (cmp · · == .eq) rows).first_le hi
  exact filter_eq_take (by omega) fun j b hb => beq_iff_eq.trans (before_iff hrows ha hb)

theorem filter_upTo (hrows : rows.Pairwise fun a b => (cmp a b).isLE = true)
    (ha : rows[i]? = some a) : rows.filter (fun b => (cmp b a).isLE)
      = rows.take ((ofTies (cmp · · == .eq) rows).last i) :=
  filter_eq_take ((wellFormed_ofTies _ rows).last_le i) fun _ _ hb => upTo_iff hrows ha hb

/-- The class of a row starts behind all rows that come before the row. -/
theorem first_ofTies (hrows : rows.Pairwise fun a b => (cmp a b).isLE = true)
    (ha : rows[i]? = some a) :
    (ofTies (cmp · · == .eq) rows).first i = rows.countP (cmp · a == .lt) := by
  have hi : i < rows.length := (List.getElem?_eq_some_iff.1 ha).1
  have hfirst := (wellFormed_ofTies (cmp · · == .eq) rows).first_le hi
  rw [List.countP_eq_length_filter, filter_before hrows ha, List.length_take]
  omega

/-- The class of a row ends behind all rows that do not come after the row. -/
theorem last_ofTies (hrows : rows.Pairwise fun a b => (cmp a b).isLE = true)
    (ha : rows[i]? = some a) :
    (ofTies (cmp · · == .eq) rows).last i = rows.countP fun b => (cmp b a).isLE := by
  have hlast : (ofTies (cmp · · == .eq) rows).last i ≤ rows.length :=
    (wellFormed_ofTies _ rows).last_le i
  rw [List.countP_eq_length_filter, filter_upTo hrows ha, List.length_take]
  omega

/-! ## Classes before a row -/

theorem classOf_congr (h : cmp a b = .eq) : classOf cmp rows a = classOf cmp rows b :=
  List.filter_congr fun c _ => by rw [Std.TransCmp.congr_left h]

/-- Rows whose classes are the same tie. -/
theorem tied_of_classOf (hb : b ∈ rows) (h : classOf cmp rows a = classOf cmp rows b) :
    cmp a b = .eq := by
  have hmem : b ∈ classOf cmp rows b :=
    List.mem_filter.2 ⟨hb, beq_iff_eq.2 Std.ReflCmp.compare_self⟩
  rw [← h] at hmem
  exact eq_of_beq (List.mem_filter.1 hmem).2

/-- No class starts twice. -/
theorem nodup_classAt (hrows : rows.Pairwise fun a b => (cmp a b).isLE = true) :
    ((ofTies (cmp · · == .eq) rows).starts.map (classAt cmp rows)).Nodup := by
  have hwf := wellFormed_ofTies (cmp · · == .eq) rows
  refine List.Nodup.map_on (fun s hs t ht heq => ?_) (hwf.ascending.imp Nat.ne_of_lt)
  obtain ⟨b, hb⟩ : ∃ b, rows[s]? = some b := ⟨_, List.getElem?_eq_getElem (hwf.lt_size s hs)⟩
  obtain ⟨c, hc⟩ : ∃ c, rows[t]? = some c := ⟨_, List.getElem?_eq_getElem (hwf.lt_size t ht)⟩
  rw [classAt_eq hb, classAt_eq hc] at heq
  have hgroup := (group_ofTies_eq_iff hrows hb hc).2
    (tied_of_classOf (List.mem_of_getElem? hc) heq)
  rw [← hwf.first_of_mem hs, ← hwf.first_of_mem ht]
  unfold first
  rw [hgroup]

/-- The classes of the rows before a row are those that start before its class. -/
theorem mem_classes_iff (hrows : rows.Pairwise fun a b => (cmp a b).isLE = true)
    (ha : rows[i]? = some a) (c : List α) :
    c ∈ (rows.filter (cmp · a == .lt)).map (classOf cmp rows) ↔
      c ∈ ((ofTies (cmp · · == .eq) rows).starts.filter
        (· < (ofTies (cmp · · == .eq) rows).first i)).map (classAt cmp rows) := by
  have hwf := wellFormed_ofTies (cmp · · == .eq) rows
  rw [List.mem_map, List.mem_map]
  constructor
  · rintro ⟨b, hb, rfl⟩
    obtain ⟨hmem, hlt⟩ := List.mem_filter.1 hb
    obtain ⟨j, hj⟩ := List.mem_iff_getElem?.1 hmem
    have hsize := (List.getElem?_eq_some_iff.1 hj).1
    have hfirst := hwf.first_le hsize
    have hbefore := (before_iff hrows ha hj).1 (eq_of_beq hlt)
    refine ⟨_, List.mem_filter.2 ⟨hwf.first_mem hsize, decide_eq_true (by omega)⟩, ?_⟩
    obtain ⟨d, hd⟩ : ∃ d, rows[(ofTies (cmp · · == .eq) rows).first j]? = some d :=
      ⟨_, List.getElem?_eq_getElem (by omega)⟩
    rw [classAt_eq hd]
    exact classOf_congr ((tied_iff hrows hj hd).2 ⟨Nat.le_refl _, by
      have := hwf.lt_last hsize
      omega⟩)
  · rintro ⟨s, hs, rfl⟩
    obtain ⟨hmem, hlt⟩ := List.mem_filter.1 hs
    obtain ⟨b, hb⟩ : ∃ b, rows[s]? = some b := ⟨_, List.getElem?_eq_getElem (hwf.lt_size s hmem)⟩
    refine ⟨b, List.mem_filter.2 ⟨List.mem_of_getElem? hb, beq_iff_eq.2 ?_⟩, (classAt_eq hb).symm⟩
    exact (before_iff hrows ha hb).2 (of_decide_eq_true hlt)

/-- The number of a class is the number of the classes before it. -/
theorem group_ofTies [DecidableEq α] (hrows : rows.Pairwise fun a b => (cmp a b).isLE = true)
    (ha : rows[i]? = some a) :
    (ofTies (cmp · · == .eq) rows).group i = classesBefore cmp rows a := by
  have hwf := wellFormed_ofTies (cmp · · == .eq) rows
  have hi : i < rows.length := (List.getElem?_eq_some_iff.1 ha).1
  have hperm := (List.perm_ext_iff_of_nodup (List.nodup_dedup _)
    ((nodup_classAt hrows).sublist (List.filter_sublist.map _))).2 fun c =>
      List.mem_dedup.trans (mem_classes_iff hrows ha c)
  have hgroup := (hwf.group_lt hi).2
  unfold classesBefore
  rw [hperm.length_eq, List.length_map, hwf.take_starts hi, List.length_take]
  omega

end Counts

end Peers

/-! ## Ranking functions -/

section Ranking

variable {α : Type} {cmp : α → α → Ordering} {rows : List α} {a : α} {i : Nat}

/-- The positions of the first and the last row that tie with a row of a partition. -/
structure TiedBetween (cmp : α → α → Ordering) (rows : List α) (a : α) (first last : Nat) :
    Prop where
  ordered : first ≤ last
  inside : last < rows.length
  tied : ∀ j b, rows[j]? = some b → (cmp b a = .eq ↔ first ≤ j ∧ j ≤ last)

/-- The result of a ranking function for the row at a position of a partition, by counts over the
    whole partition. Positions count from `0`, ranks from `1`. -/
def RankedAs [DecidableEq α] (cmp : α → α → Ordering) (rows : List α) (i : Nat) (a : α)
    (x : Value) : WindowFunction → Prop
  | .rowNumber => x = .ofNat (i + 1)
  | .rank => x = .ofNat (1 + rows.countP (cmp · a == .lt))
  | .denseRank => x = .ofNat (1 + Peers.classesBefore cmp rows a)
  | .avgRank => ∃ first last, TiedBetween cmp rows a first last ∧
      x = .number (Number.ofNat ((first + 1) + (last + 1)) / 2.0)
  | .percentRank => x = .number (if rows.length = 1 then 0.0
      else Number.ofNat (rows.countP (cmp · a == .lt)) / Number.ofNat (rows.length - 1))
  | .cumeDist => x = .number (Number.ofNat (rows.countP fun b => (cmp b a).isLE)
      / Number.ofNat rows.length)
  | _ => True

theorem getD_each (frame : Frame) (peers : Peers) (f : Nat → Nat → Nat → Value)
    (hi : i < peers.size) : (WindowFunction.each (frame.allBounds peers) f)[i]?.getD .null
      = f i (frame.bounds peers i).1 (frame.bounds peers i).2 := by
  unfold WindowFunction.each Frame.allBounds
  simp [hi]

theorem tiedBetween_ofTies [Std.TransCmp cmp]
    (hrows : rows.Pairwise fun a b => (cmp a b).isLE = true) (ha : rows[i]? = some a) :
    TiedBetween cmp rows a ((Peers.ofTies (cmp · · == .eq) rows).first i)
      ((Peers.ofTies (cmp · · == .eq) rows).last i - 1) := by
  have hwf := Peers.wellFormed_ofTies (cmp · · == .eq) rows
  have hi : i < rows.length := (List.getElem?_eq_some_iff.1 ha).1
  have hfirst := hwf.first_le hi
  have hlast := hwf.lt_last hi
  have hend : (Peers.ofTies (cmp · · == .eq) rows).last i ≤ rows.length := hwf.last_le i
  refine ⟨by omega, by omega, fun j b hb => ?_⟩
  rw [Peers.tied_iff hrows ha hb]
  omega

/-- Over rows in order the ranking functions count. -/
theorem rankedAs_values [DecidableEq α] [Std.TransCmp cmp]
    (hrows : rows.Pairwise fun a b => (cmp a b).isLE = true) (ha : rows[i]? = some a)
    (f : WindowFunction) {params : List Value} {frame : Frame} {field : Array Value} :
    RankedAs cmp rows i a ((f.values params (.ofTies (cmp · · == .eq) rows)
      (frame.allBounds (.ofTies (cmp · · == .eq) rows)) field)[i]?.getD .null) f := by
  have hi : i < rows.length := (List.getElem?_eq_some_iff.1 ha).1
  have heach := fun g => getD_each frame (.ofTies (cmp · · == .eq) rows) g hi
  cases f with
  | rowNumber => exact (heach fun i _ _ => .ofNat (i + 1))
  | rank =>
    dsimp only [RankedAs, WindowFunction.values]
    rw [heach, Peers.first_ofTies hrows ha, Nat.add_comm]
  | denseRank =>
    dsimp only [RankedAs, WindowFunction.values]
    rw [heach, Peers.group_ofTies hrows ha, Nat.add_comm]
  | avgRank =>
    have hlast := (Peers.wellFormed_ofTies (cmp · · == .eq) rows).lt_last hi
    refine ⟨_, _, tiedBetween_ofTies hrows ha, ?_⟩
    dsimp only [WindowFunction.values]
    rw [heach, Nat.sub_add_cancel (by omega)]
  | percentRank =>
    have hsize : (Peers.ofTies (cmp · · == .eq) rows).size = rows.length := rfl
    dsimp only [RankedAs, WindowFunction.values]
    rw [heach, Peers.first_ofTies hrows ha, hsize]
    by_cases hone : rows.length = 1
    · rw [if_pos (by omega), if_pos hone]
    · rw [if_neg (by omega), if_neg hone]
  | cumeDist =>
    dsimp only [RankedAs, WindowFunction.values, WindowFunction.distribution]
    rw [heach, Peers.last_ofTies hrows ha]
    rfl
  | _ => trivial

end Ranking

end ColumnQuery
