/-
  Groups stand for the keys of their rows.

  `Numbers total key shown` says that a table of groups numbers the shown ones among `total`
  rows by `key`: every shown row is in a group whose values are the row's key, the other rows
  are in none, and no two groups have the same values. So two rows share a group exactly if
  their keys are the same (`groupOf_eq_iff`). `LeastRows` says that every group lists its least
  row, hence has one.

  Building adds the rows one by one (`add?_spec` is the step, `build?_spec` the run). Narrowing
  and copying both renumber the groups that occur among given ids (`numbers_restrict`,
  `leastRows_restrict`).
-/
import ColumnQuery.Overlay.Grouping
import ColumnQuery.Proofs.BitSet
import ColumnQuery.Proofs.Lists
import ColumnQuery.Proofs.Value.Same

namespace ColumnQuery

/-- The key of every row; none for a row without one. -/
abbrev RowKey := Nat → Option (List Value)

namespace GroupTable

/-- The groups of the shown ones among `total` rows, by key. -/
structure Numbers (t : GroupTable) (total : Nat) (key : RowKey) (shown : Nat → Bool) :
    Prop where
  keys_size : t.keys.size = total
  values_length : t.values.length = t.size
  isSome_groupOf : ∀ row, (t.groupOf row).isSome = (decide (row < total) && shown row)
  value_of : ∀ row g, t.groupOf row = some g →
    ∃ k v, key row = some k ∧ t.values[g]? = some v ∧ Value.sameItems v k = true
  distinct : t.values.Pairwise fun v w => Value.sameItems v w = false

/-- Every group lists the least of its rows. -/
structure LeastRows (t : GroupTable) : Prop where
  rows_length : t.rows.length = t.size
  least : ∀ g < t.size, ∃ row, t.rows[g]? = some row ∧ t.groupOf row = some g ∧
    ∀ other, t.groupOf other = some g → row ≤ other

theorem groupOf_eq_some_iff {t : GroupTable} {row g : Nat} :
    t.groupOf row = some g ↔ t.keys[row]? = some (some g) := by
  unfold groupOf
  exact Option.join_eq_some_iff

/-- No two of pairwise different values are the same. -/
theorem eq_of_sameItems {values : List (List Value)}
    (hdistinct : values.Pairwise fun v w => Value.sameItems v w = false) {g h : Nat}
    {v w : List Value} (hv : values[g]? = some v) (hw : values[h]? = some w)
    (hsame : Value.sameItems v w = true) : g = h := by
  obtain ⟨hg, rfl⟩ := List.getElem?_eq_some_iff.1 hv
  obtain ⟨hh, rfl⟩ := List.getElem?_eq_some_iff.1 hw
  rw [List.pairwise_iff_getElem] at hdistinct
  rcases Nat.lt_trichotomy g h with hlt | heq | hgt
  · rw [hdistinct g h hg hh hlt] at hsame
    cases hsame
  · exact heq
  · have hsymm := Value.sameItems_symm hsame
    rw [hdistinct h g hh hg hgt] at hsymm
    cases hsymm

namespace Numbers

variable {t : GroupTable} {total : Nat} {key : RowKey} {shown : Nat → Bool}

theorem lt_size (h : t.Numbers total key shown) {row g : Nat} (hg : t.groupOf row = some g) :
    g < t.size := by
  obtain ⟨-, v, -, hv, -⟩ := h.value_of row g hg
  rw [← h.values_length]
  exact (List.getElem?_eq_some_iff.1 hv).1

theorem exists_groupOf (h : t.Numbers total key shown) {row : Nat} (hrow : row < total)
    (hshown : shown row = true) : ∃ g, t.groupOf row = some g := by
  have hsome := h.isSome_groupOf row
  rw [decide_eq_true hrow, hshown] at hsome
  exact Option.isSome_iff_exists.1 hsome

theorem groupOf_eq_none (h : t.Numbers total key shown) {row : Nat} (hshown : shown row = false) :
    t.groupOf row = none := by
  have hsome := h.isSome_groupOf row
  rw [hshown, Bool.and_false] at hsome
  exact Option.isSome_eq_false_iff.1 hsome |> Option.isNone_iff_eq_none.1

/-- Rows share a group exactly if their keys are the same. -/
theorem groupOf_eq_iff (h : t.Numbers total key shown) {a b g i : Nat} {k l : List Value}
    (ha : t.groupOf a = some g) (hb : t.groupOf b = some i) (hk : key a = some k)
    (hl : key b = some l) : g = i ↔ Value.sameItems k l = true := by
  obtain ⟨k', v, hk', hv, hvk⟩ := h.value_of a g ha
  obtain ⟨l', w, hl', hw, hwl⟩ := h.value_of b i hb
  obtain rfl : k = k' := Option.some.inj (hk.symm.trans hk')
  obtain rfl : l = l' := Option.some.inj (hl.symm.trans hl')
  constructor
  · rintro rfl
    obtain rfl : v = w := Option.some.inj (hv.symm.trans hw)
    exact Value.sameItems_trans (Value.sameItems_symm hvk) hwl
  · intro hkl
    refine eq_of_sameItems h.distinct hv hw ?_
    exact Value.sameItems_trans hvk (Value.sameItems_trans hkl (Value.sameItems_symm hwl))

end Numbers

/-! ## Building -/

/-- The groups of the rows gone through so far; in ascending order every group lists its least
    row. -/
structure Building (t : GroupTable) (total : Nat) (key : RowKey) (done : List Nat) :
    Prop where
  numbers : t.Numbers total key fun row => decide (row ∈ done)
  below : ∀ row ∈ done, row < total
  rows_length : t.rows.length = t.size
  least : done.Pairwise (· < ·) → t.LeastRows

theorem building_empty (names : List String) (total : Nat) (key : RowKey) :
    (empty names total).Building total key [] := by
  have hnone : ∀ row, (empty names total).groupOf row = none := by
    intro row
    unfold groupOf empty
    rw [Array.getElem?_replicate]
    split <;> rfl
  refine ⟨⟨by simp [empty], rfl, ?_, ?_, List.Pairwise.nil⟩, by simp, rfl, fun _ => ⟨rfl, ?_⟩⟩
  · intro row
    simp [hnone row]
  · intro row g hg
    rw [hnone row] at hg
    cases hg
  · intro g hg
    exact absurd hg (Nat.not_lt_zero g)

/-- A row is put into a group, and the others stay where they are. -/
theorem groupOf_of_set {t u : GroupTable} {row g : Nat} (hrow : row < t.keys.size)
    (hu : u.keys = t.keys.setIfInBounds row (some g)) (other : Nat) :
    u.groupOf other = if other = row then some g else t.groupOf other := by
  unfold groupOf
  rw [hu, Array.getElem?_setIfInBounds]
  by_cases h : other = row
  · subst h
    simp [hrow]
  · have hne : ¬ row = other := fun heq => h heq.symm
    simp [h, hne]

namespace Building

variable {t : GroupTable} {total row : Nat} {key : RowKey} {done : List Nat} {k : List Value}

theorem mem_of_groupOf (ht : t.Building total key done) {other g : Nat}
    (hg : t.groupOf other = some g) : other ∈ done := by
  have hs := ht.numbers.isSome_groupOf other
  rw [hg] at hs
  simp only [Option.isSome_some, Bool.true_eq, Bool.and_eq_true, decide_eq_true_eq] at hs
  exact hs.2

theorem below_append (ht : t.Building total key done) (hrow : row < t.keys.size) :
    ∀ other ∈ done ++ [row], other < total := by
  intro other hother
  rcases List.mem_append.1 hother with hother | hother
  · exact ht.below other hother
  · rw [List.mem_singleton.1 hother, ← ht.numbers.keys_size]
    exact hrow

/-- One more row gets a group, and the others keep theirs. -/
theorem isSome_groupOf_append (ht : t.Building total key done) (hrow : row < t.keys.size)
    {u : GroupTable} {g : Nat}
    (hu : ∀ other, u.groupOf other = if other = row then some g else t.groupOf other)
    (other : Nat) :
    (u.groupOf other).isSome = (decide (other < total) && decide (other ∈ done ++ [row])) := by
  rw [ht.numbers.keys_size] at hrow
  rw [hu]
  by_cases ho : other = row
  · subst ho
    simp [hrow]
  · rw [if_neg ho, ht.numbers.isSome_groupOf]
    simp [ho]

/-- A group that has its least row keeps it when later rows come. -/
theorem least_append (ht : t.Building total key done)
    (hsorted : (done ++ [row]).Pairwise (· < ·)) {u : GroupTable} {g : Nat}
    (hu : ∀ other, u.groupOf other = if other = row then some g else t.groupOf other)
    (hrows : ∀ i least : Nat, t.rows[i]? = some least → u.rows[i]? = some least)
    {i : Nat} (hi : i < t.size) :
    ∃ least, u.rows[i]? = some least ∧ u.groupOf least = some i ∧
      ∀ other, u.groupOf other = some i → least ≤ other := by
  obtain ⟨hdone, -, hlast⟩ := List.pairwise_append.1 hsorted
  obtain ⟨least, hleast, hgroup, hle⟩ := (ht.least hdone).least i hi
  have hlt : least < row := hlast least (ht.mem_of_groupOf hgroup) row (by simp)
  refine ⟨least, hrows i least hleast, ?_, fun other hother => ?_⟩
  · rw [hu, if_neg (by omega)]
    exact hgroup
  · rw [hu] at hother
    by_cases ho : other = row
    · omega
    · rw [if_neg ho] at hother
      exact hle other hother

/-- A row whose key is that of a group. -/
theorem addTo (ht : t.Building total key done) (hk : key row = some k) (hrow : row < t.keys.size)
    {g : Nat} (hfind : t.values.findIdx? (Value.sameItems · k) = some g) :
    Building { t with keys := t.keys.setIfInBounds row (some g) } total key (done ++ [row]) := by
  obtain ⟨hg, hsame, -⟩ := List.findIdx?_eq_some_iff_getElem.1 hfind
  have hgroup := groupOf_of_set (u := { t with keys := t.keys.setIfInBounds row (some g) }) hrow rfl
  refine ⟨⟨by simpa using ht.numbers.keys_size, ht.numbers.values_length,
    ht.isSome_groupOf_append hrow hgroup, ?_, ht.numbers.distinct⟩, ht.below_append hrow,
    ht.rows_length, fun hsorted =>
      ⟨ht.rows_length, fun i hi => ht.least_append hsorted hgroup (fun _ _ h => h) hi⟩⟩
  intro other i hi
  rw [hgroup] at hi
  by_cases ho : other = row
  · rw [if_pos ho] at hi
    obtain rfl := Option.some.inj hi
    exact ⟨k, t.values[g], by rw [ho, hk], List.getElem?_eq_getElem hg, hsame⟩
  · rw [if_neg ho] at hi
    exact ht.numbers.value_of other i hi

/-- A row whose key is new. -/
theorem addNew (ht : t.Building total key done) (hk : key row = some k) (hrow : row < t.keys.size)
    (hfind : t.values.findIdx? (Value.sameItems · k) = none) :
    Building ⟨t.names, t.size + 1, t.values ++ [k], t.rows ++ [row],
      t.keys.setIfInBounds row (some t.size)⟩ total key (done ++ [row]) := by
  have hnew : ∀ v ∈ t.values, Value.sameItems v k = false := List.findIdx?_eq_none_iff.1 hfind
  have hgroup := groupOf_of_set (u := ⟨t.names, t.size + 1, t.values ++ [k], t.rows ++ [row],
    t.keys.setIfInBounds row (some t.size)⟩) hrow rfl
  have hvalues : (t.values ++ [k]).length = t.size + 1 := by
    rw [List.length_append, ht.numbers.values_length, List.length_singleton]
  have hrows : (t.rows ++ [row]).length = t.size + 1 := by
    rw [List.length_append, ht.rows_length, List.length_singleton]
  refine ⟨⟨by simpa using ht.numbers.keys_size, hvalues, ht.isSome_groupOf_append hrow hgroup, ?_,
    ?_⟩, ht.below_append hrow, hrows, fun hsorted => ⟨hrows, fun i hi => ?_⟩⟩
  · intro other i hi
    rw [hgroup] at hi
    by_cases ho : other = row
    · rw [if_pos ho] at hi
      obtain rfl := Option.some.inj hi
      exact ⟨k, k, by rw [ho, hk], by simp [← ht.numbers.values_length], Value.sameItems_refl k⟩
    · rw [if_neg ho] at hi
      obtain ⟨l, v, hl, hv, hsame⟩ := ht.numbers.value_of other i hi
      refine ⟨l, v, hl, ?_, hsame⟩
      rw [List.getElem?_append_left (List.getElem?_eq_some_iff.1 hv).1]
      exact hv
  · refine List.pairwise_append.2 ⟨ht.numbers.distinct, List.pairwise_singleton _ _, ?_⟩
    intro v hv w hw
    rw [List.mem_singleton.1 hw]
    exact hnew v hv
  · rcases Nat.lt_or_eq_of_le (Nat.le_of_lt_succ hi) with hlt | rfl
    · refine ht.least_append hsorted hgroup (fun j least hj => ?_) hlt
      rw [List.getElem?_append_left (List.getElem?_eq_some_iff.1 hj).1]
      exact hj
    · refine ⟨row, by simp [← ht.rows_length], by rw [hgroup, if_pos rfl], ?_⟩
      intro other hother
      rw [hgroup] at hother
      by_cases ho : other = row
      · omega
      · rw [if_neg ho] at hother
        exact absurd (ht.numbers.lt_size hother) (Nat.lt_irrefl _)

end Building

/-- Taking in one more row with its key. -/
theorem add?_spec {t u : GroupTable} {total row : Nat} {key : RowKey} {done : List Nat}
    {k : List Value} (ht : t.Building total key done) (hk : key row = some k)
    (h : t.add? row k = some u) : u.Building total key (done ++ [row]) := by
  unfold add? groupFor at h
  split at h
  case isFalse => cases h
  case isTrue hrow =>
  obtain rfl := Option.some.inj h
  cases hfind : t.values.findIdx? (Value.sameItems · k) with
  | some g =>
    -- a group that is there already does not have the next number
    have hold : g < t.size := by
      rw [← ht.numbers.values_length]
      exact (List.findIdx?_eq_some_iff_getElem.1 hfind).1
    dsimp only
    rw [if_neg (Nat.ne_of_lt hold)]
    exact ht.addTo hk hrow hfind
  | none =>
    dsimp only
    rw [if_pos rfl]
    exact ht.addNew hk hrow hfind

/-- Taking in rows one by one. -/
theorem building_foldlM {keys : List Formula} {total : Nat} (rows : List Nat) {t u : GroupTable}
    {done : List Nat} (ht : t.Building total (Formula.evalKey keys) done)
    (h : rows.foldlM (fun t row => do t.add? row (← Formula.evalKey keys row)) t = some u) :
    u.Building total (Formula.evalKey keys) (done ++ rows) := by
  induction rows generalizing t done with
  | nil =>
    obtain rfl := Option.some.inj h
    rw [List.append_nil]
    exact ht
  | cons row rest ih =>
    rw [List.foldlM_cons] at h
    obtain ⟨w, hw, h⟩ := Option.bind_eq_some_iff.1 h
    obtain ⟨k, hk, hadd⟩ := Option.bind_eq_some_iff.1 hw
    have hstep := ih (add?_spec ht hk hadd) h
    rwa [List.append_assoc, List.singleton_append] at hstep

/-- The groups built from rows are the groups of these rows by key. -/
theorem build?_spec {names : List String} {keys : List Formula} {rows : List Nat} {total : Nat}
    {t : GroupTable} (h : build? names keys rows total = some t) :
    t.Building total (Formula.evalKey keys) rows := by
  have hb := building_foldlM rows (building_empty names total (Formula.evalKey keys)) h
  rwa [List.nil_append] at hb

/-! ## Renumbering -/

theorem mem_occurring {t : GroupTable} {ids : Array (Option Nat)} {g first : Nat} :
    (g, first) ∈ t.occurring ids ↔ g < t.size ∧ ids.findIdx? (· == some g) = some first := by
  unfold occurring
  rw [List.mem_filterMap]
  constructor
  · rintro ⟨h, hh, heq⟩
    obtain ⟨place, hplace, hpair⟩ := Option.map_eq_some_iff.1 heq
    obtain ⟨rfl, rfl⟩ := Prod.mk.injEq .. ▸ hpair
    exact ⟨List.mem_range.1 hh, hplace⟩
  · rintro ⟨hg, hfirst⟩
    exact ⟨g, List.mem_range.2 hg, by rw [hfirst]; rfl⟩

/-- Groups that occur are listed once, in their order. -/
theorem pairwise_occurring (t : GroupTable) (ids : Array (Option Nat)) :
    (t.occurring ids).Pairwise fun a b => a.1 < b.1 := by
  unfold occurring
  rw [List.pairwise_filterMap]
  refine List.pairwise_lt_range.imp ?_
  intro g h hlt a ha b hb
  obtain ⟨-, -, rfl⟩ := Option.map_eq_some_iff.1 ha
  obtain ⟨-, -, rfl⟩ := Option.map_eq_some_iff.1 hb
  exact hlt

/-- An entry of a list of distinct groups is where its group is found. -/
theorem findIdx?_of_pairwise {kept : List (Nat × Nat)} (hkept : kept.Pairwise fun a b => a.1 < b.1)
    {j : Nat} {e : Nat × Nat} (hj : kept[j]? = some e) :
    kept.findIdx? (·.1 == e.1) = some j := by
  obtain ⟨hlt, rfl⟩ := List.getElem?_eq_some_iff.1 hj
  rw [List.findIdx?_eq_some_iff_getElem]
  refine ⟨hlt, beq_self_eq_true _, fun i hi => ?_⟩
  have hless := List.pairwise_iff_getElem.1 hkept i j (by omega) hlt hi
  simp
  omega

/-- The values of the groups kept. -/
theorem values_restrict {t : GroupTable} (hlength : t.values.length = t.size)
    (ids : Array (Option Nat)) :
    (t.restrict ids).values.map some = (t.occurring ids).map fun e => t.values[e.1]? := by
  show ((t.occurring ids).filterMap fun e => t.values[e.1]?).map some = _
  have hall : ∀ kept : List (Nat × Nat), (∀ e ∈ kept, e.1 < t.size) →
      (kept.filterMap fun e => t.values[e.1]?).map some = kept.map fun e => t.values[e.1]? := by
    intro kept hkept
    induction kept with
    | nil => rfl
    | cons e rest ih =>
      have hlt : e.1 < t.values.length := by
        rw [hlength]
        exact hkept e List.mem_cons_self
      rw [List.filterMap_cons, List.map_cons, List.getElem?_eq_getElem hlt]
      simp only [List.map_cons]
      rw [ih fun d hd => hkept d (List.mem_cons_of_mem _ hd)]
  exact hall _ fun e he => (mem_occurring.1 he).1

/-- The groups kept are counted, and all of them have their values. -/
theorem length_values_restrict {t : GroupTable} (hlength : t.values.length = t.size)
    (ids : Array (Option Nat)) : (t.restrict ids).values.length = (t.restrict ids).size := by
  have h := congrArg List.length (values_restrict hlength ids)
  rwa [List.length_map, List.length_map] at h

theorem getElem?_values_restrict {t : GroupTable} (hlength : t.values.length = t.size)
    {ids : Array (Option Nat)} {j : Nat} {e : Nat × Nat} (hj : (t.occurring ids)[j]? = some e) :
    (t.restrict ids).values[j]? = t.values[e.1]? := by
  have h := congrArg (·[j]?) (values_restrict hlength ids)
  simp only [List.getElem?_map, hj, Option.map_some] at h
  cases hv : (t.restrict ids).values[j]? with
  | none => simp [hv] at h
  | some v => simpa [hv] using h

/-- A row is in the group that its old group has become. -/
theorem groupOf_restrict (t : GroupTable) (ids : Array (Option Nat)) {row j : Nat}
    (h : (t.restrict ids).groupOf row = some j) :
    ∃ e, (t.occurring ids)[j]? = some e ∧ ids[row]? = some (some e.1) := by
  have hkeys := groupOf_eq_some_iff.1 h
  have hrow : (ids.map fun id => id.bind fun g => (t.occurring ids).findIdx? (·.1 == g))[row]?
      = some (some j) := hkeys
  rw [Array.getElem?_map] at hrow
  obtain ⟨id, hid, hbind⟩ := Option.map_eq_some_iff.1 hrow
  obtain ⟨g, rfl, hfind⟩ := Option.bind_eq_some_iff.1 hbind
  obtain ⟨hj, heq, -⟩ := List.findIdx?_eq_some_iff_getElem.1 hfind
  refine ⟨_, List.getElem?_eq_getElem hj, ?_⟩
  rw [hid, eq_of_beq heq]

theorem groupOf_restrict_of_kept {t : GroupTable} {ids : Array (Option Nat)} {row j : Nat}
    {e : Nat × Nat} (hj : (t.occurring ids)[j]? = some e) (hid : ids[row]? = some (some e.1)) :
    (t.restrict ids).groupOf row = some j := by
  rw [groupOf_eq_some_iff]
  show (ids.map fun id => id.bind fun g => (t.occurring ids).findIdx? (·.1 == g))[row]? = _
  rw [Array.getElem?_map, hid]
  show some ((t.occurring ids).findIdx? (·.1 == e.1)) = _
  rw [findIdx?_of_pairwise (pairwise_occurring t ids) hj]

/-- A group that a row is in occurs. -/
theorem exists_occurring {t : GroupTable} {ids : Array (Option Nat)} {row g : Nat}
    (hid : ids[row]? = some (some g)) (hg : g < t.size) :
    ∃ (j : Nat) (e : Nat × Nat), (t.occurring ids)[j]? = some e ∧ e.1 = g := by
  have hfind : ∃ first, ids.findIdx? (· == some g) = some first := by
    cases hf : ids.findIdx? (· == some g) with
    | some first => exact ⟨first, rfl⟩
    | none =>
      obtain ⟨hrow, hval⟩ := Array.getElem?_eq_some_iff.1 hid
      have hno := Array.findIdx?_eq_none_iff.1 hf ids[row] (Array.getElem_mem hrow)
      rw [hval] at hno
      simp at hno
  obtain ⟨first, hfirst⟩ := hfind
  obtain ⟨j, hj, heq⟩ := List.getElem_of_mem (mem_occurring.2 ⟨hg, hfirst⟩)
  exact ⟨j, (g, first), by rw [List.getElem?_eq_getElem hj, heq], rfl⟩

/-- Renumbering the groups that occur among `ids` groups the rows that have an id, if every
    id is a group of the row's key. -/
theorem numbers_restrict {t : GroupTable} {ids : Array (Option Nat)} {key : RowKey}
    (hlength : t.values.length = t.size)
    (hdistinct : t.values.Pairwise fun v w => Value.sameItems v w = false)
    (hids : ∀ row g : Nat, ids[row]? = some (some g) →
      ∃ k v, key row = some k ∧ t.values[g]? = some v ∧ Value.sameItems v k = true) :
    (t.restrict ids).Numbers ids.size key (fun row => (ids[row]?).join.isSome) := by
  have hlt : ∀ row g : Nat, ids[row]? = some (some g) → g < t.size := by
    intro row g hid
    obtain ⟨-, v, -, hv, -⟩ := hids row g hid
    rw [← hlength]
    exact (List.getElem?_eq_some_iff.1 hv).1
  have hcount := length_values_restrict hlength ids
  refine ⟨by simp [restrict], hcount, ?_, ?_, ?_⟩
  · intro row
    rw [Bool.eq_iff_iff, Option.isSome_iff_exists, Bool.and_eq_true, decide_eq_true_eq,
      Option.isSome_iff_exists]
    constructor
    · rintro ⟨j, hj⟩
      obtain ⟨e, -, hid⟩ := groupOf_restrict t ids hj
      exact ⟨(Array.getElem?_eq_some_iff.1 hid).1, e.1, by rw [hid]; rfl⟩
    · rintro ⟨-, g, hg⟩
      have hid := Option.join_eq_some_iff.1 hg
      obtain ⟨j, e, hj, rfl⟩ := exists_occurring hid (hlt row g hid)
      exact ⟨j, groupOf_restrict_of_kept hj hid⟩
  · intro row j hj
    obtain ⟨e, he, hid⟩ := groupOf_restrict t ids hj
    obtain ⟨k, v, hk, hv, hsame⟩ := hids row e.1 hid
    exact ⟨k, v, hk, by rw [getElem?_values_restrict hlength he, hv], hsame⟩
  · rw [List.pairwise_iff_getElem]
    intro i j hi hj hij
    by_contra hsame
    rw [Bool.not_eq_false] at hsame
    have hi' : i < (t.occurring ids).length := Nat.lt_of_lt_of_eq hi hcount
    have hj' : j < (t.occurring ids).length := Nat.lt_of_lt_of_eq hj hcount
    have hless := List.pairwise_iff_getElem.1 (pairwise_occurring t ids) i j hi' hj' hij
    have hvi := getElem?_values_restrict hlength (List.getElem?_eq_getElem hi')
    have hvj := getElem?_values_restrict hlength (List.getElem?_eq_getElem hj')
    rw [List.getElem?_eq_getElem hi] at hvi
    rw [List.getElem?_eq_getElem hj] at hvj
    have heq := eq_of_sameItems hdistinct hvi.symm hvj.symm hsame
    omega

/-- Each group that is left is given by the first row that has its id. -/
theorem leastRows_restrict (t : GroupTable) (ids : Array (Option Nat)) :
    (t.restrict ids).LeastRows := by
  refine ⟨List.length_map .., ?_⟩
  · intro j hj
    have hkept := List.getElem?_eq_getElem hj
    have hmem : ((t.occurring ids)[j].1, (t.occurring ids)[j].2) ∈ t.occurring ids :=
      List.getElem_mem hj
    obtain ⟨-, hfirst⟩ := mem_occurring.1 hmem
    obtain ⟨hin, hval, hbefore⟩ := Array.findIdx?_eq_some_iff_getElem.1 hfirst
    refine ⟨(t.occurring ids)[j].2, ?_, groupOf_restrict_of_kept hkept ?_, ?_⟩
    · show ((t.occurring ids).map (·.2))[j]? = _
      rw [List.getElem?_map, hkept]
      rfl
    · rw [Array.getElem?_eq_getElem hin, eq_of_beq hval]
    · intro other hother
      obtain ⟨e, he, hid⟩ := groupOf_restrict t ids hother
      obtain rfl : (t.occurring ids)[j] = e := Option.some.inj (hkept.symm.trans he)
      refine Nat.le_of_not_lt fun hless => ?_
      obtain ⟨hrow, heq⟩ := Array.getElem?_eq_some_iff.1 hid
      exact hbefore other hless (by rw [heq]; exact beq_self_eq_true _)

/-! ### Groups that occur -/

/-- Which groups occur depends on nothing but the ids there are. -/
theorem fst_occurring_congr (t : GroupTable) {ids ids' : Array (Option Nat)}
    (h : ∀ g, some g ∈ ids ↔ some g ∈ ids') :
    (t.occurring ids).map (·.1) = (t.occurring ids').map (·.1) := by
  have hfound : ∀ (ids : Array (Option Nat)) (g : Nat),
      (ids.findIdx? (· == some g)).isSome = decide (some g ∈ ids) := by
    intro ids g
    rw [Bool.eq_iff_iff, decide_eq_true_eq, Array.findIdx?_isSome, Array.any_eq_true']
    simp
  unfold occurring
  rw [List.map_filterMap, List.map_filterMap]
  refine List.filterMap_congr fun g _ => ?_
  have hsame : (ids.findIdx? (· == some g)).isSome = (ids'.findIdx? (· == some g)).isSome := by
    rw [hfound, hfound, decide_eq_decide]
    exact h g
  generalize ids.findIdx? (· == some g) = x, ids'.findIdx? (· == some g) = y at hsame
  cases x <;> cases y <;> first | rfl | cases hsame

theorem values_restrict_congr (t : GroupTable) {ids ids' : Array (Option Nat)}
    (h : ∀ g, some g ∈ ids ↔ some g ∈ ids') :
    (t.restrict ids).values = (t.restrict ids').values := by
  have hvalues : ∀ ids : Array (Option Nat), (t.restrict ids).values
      = ((t.occurring ids).map (·.1)).filterMap (t.values[·]?) := fun ids => by
    rw [List.filterMap_map]
    rfl
  rw [hvalues, hvalues, t.fst_occurring_congr h]

theorem size_restrict_congr (t : GroupTable) {ids ids' : Array (Option Nat)}
    (h : ∀ g, some g ∈ ids ↔ some g ∈ ids') : (t.restrict ids).size = (t.restrict ids').size := by
  have hlength := congrArg List.length (t.fst_occurring_congr h)
  rwa [List.length_map, List.length_map] at hlength

/-- Rows that had the same id are in the same group. -/
theorem groupOf_restrict_congr (t : GroupTable) {ids ids' : Array (Option Nat)}
    (h : ∀ g, some g ∈ ids ↔ some g ∈ ids') {row row' : Nat}
    (hrow : (ids[row]?).join = (ids'[row']?).join) :
    (t.restrict ids).groupOf row = (t.restrict ids').groupOf row' := by
  have hgroup : ∀ (ids : Array (Option Nat)) (row : Nat), (t.restrict ids).groupOf row
      = (ids[row]?).join.bind fun g => ((t.occurring ids).map (·.1)).findIdx? (· == g) := by
    intro ids row
    show ((ids.map _)[row]?).join = _
    rw [Array.getElem?_map]
    cases ids[row]? with
    | none => rfl
    | some id =>
      cases id with
      | none => rfl
      | some g =>
        rw [Option.join_some, Option.bind_some, List.findIdx?_map]
        rfl
  rw [hgroup, hgroup, hrow, t.fst_occurring_congr h]

/-- The groups of the visible rows. -/
theorem groupOf_visible (t : GroupTable) (rows : BitSet) (row : Nat) :
    ((t.visible rows)[row]?).join = if rows.contains row then t.groupOf row else none := by
  unfold visible groupOf
  rw [Array.getElem?_mapIdx]
  cases t.keys[row]? with
  | none => simp
  | some id => simp

end GroupTable

/-! ## Groupings of a view -/

namespace Grouping

/-- All `total` rows are grouped by key, and the shown ones are numbered with the least row of
    every group. -/
structure Groups (g : Grouping) (total : Nat) (key : RowKey) (shown : Nat → Bool) :
    Prop where
  whole : g.whole.Numbers total key fun _ => true
  numbers : g.shown.Numbers total key shown
  least : g.shown.LeastRows

variable {g : Grouping} {total : Nat} {key : RowKey} {shown : Nat → Bool}

theorem Groups.congr {shown' : Nat → Bool} (hg : g.Groups total key shown)
    (h : ∀ row < total, shown row = shown' row) : g.Groups total key shown' := by
  refine ⟨hg.whole, ⟨hg.numbers.keys_size, hg.numbers.values_length, fun row => ?_,
    hg.numbers.value_of, hg.numbers.distinct⟩, hg.least⟩
  rw [hg.numbers.isSome_groupOf]
  by_cases hrow : row < total
  · rw [h row hrow]
  · simp [hrow]

theorem groups_ofTable {t : GroupTable} (ht : t.Numbers total key fun _ => true)
    (hleast : t.LeastRows) : (ofTable t).Groups total key fun _ => true :=
  ⟨ht, ht, hleast⟩

/-- The groups of the rows in a set. -/
theorem groups_narrow (hwhole : g.whole.Numbers total key fun _ => true) (rows : BitSet) :
    (g.narrow rows).Groups total key rows.contains := by
  have hids : ∀ row i : Nat, (g.whole.visible rows)[row]? = some (some i) →
      ∃ k v, key row = some k ∧ g.whole.values[i]? = some v ∧ Value.sameItems v k = true := by
    intro row i hid
    have hgroup := g.whole.groupOf_visible rows row
    rw [hid] at hgroup
    split at hgroup
    · exact hwhole.value_of row i hgroup.symm
    · cases hgroup
  have hnumbers := GroupTable.numbers_restrict hwhole.values_length hwhole.distinct hids
  have hsize : (g.whole.visible rows).size = total := by
    rw [← hwhole.keys_size]
    exact Array.size_mapIdx
  refine ⟨hwhole, ⟨?_, hnumbers.values_length, ?_, hnumbers.value_of, hnumbers.distinct⟩,
    GroupTable.leastRows_restrict _ _⟩
  · rw [← hsize]
    exact hnumbers.keys_size
  · intro row
    have hsome := hnumbers.isSome_groupOf row
    rw [hsize, g.whole.groupOf_visible] at hsome
    show ((g.narrow rows).shown.groupOf row).isSome = _
    rw [show (g.narrow rows).shown = g.whole.restrict (g.whole.visible rows) from rfl, hsome]
    cases rows.contains row with
    | false => simp
    | true =>
      rw [if_pos rfl, hwhole.isSome_groupOf]
      simp

/-- The groups of copied rows: a copy is in the group of its row. -/
theorem groups_take? (hwhole : g.whole.Numbers total key fun _ => true) {rows : List Nat}
    {h : Grouping} (htake : g.take? rows = some h) :
    h.Groups rows.length (fun i => rows[i]?.bind key) fun _ => true := by
  obtain ⟨ids, hmap, rfl⟩ := Option.map_eq_some_iff.1 htake
  have hget : ∀ i : Nat, ids.toArray[i]? = rows[i]?.bind fun row => g.whole.keys[row]? := by
    intro i
    rw [List.getElem?_toArray]
    exact getElem?_of_mapM hmap i
  have hlength : ids.toArray.size = rows.length := by
    rw [List.size_toArray, length_of_mapM hmap]
  have hids : ∀ i j : Nat, ids.toArray[i]? = some (some j) →
      ∃ k v, (rows[i]?.bind key) = some k ∧ g.whole.values[j]? = some v ∧
        Value.sameItems v k = true := by
    intro i j hid
    rw [hget] at hid
    obtain ⟨row, hrow, hkey⟩ := Option.bind_eq_some_iff.1 hid
    rw [hrow]
    exact hwhole.value_of row j (GroupTable.groupOf_eq_some_iff.2 hkey)
  have hnumbers := GroupTable.numbers_restrict hwhole.values_length hwhole.distinct hids
  rw [hlength] at hnumbers
  refine groups_ofTable ⟨hnumbers.keys_size, hnumbers.values_length, fun i => ?_,
    hnumbers.value_of, hnumbers.distinct⟩ (GroupTable.leastRows_restrict _ _)
  rw [hnumbers.isSome_groupOf, hget]
  by_cases hi : i < rows.length
  · have hrow := List.getElem?_eq_getElem hi
    obtain ⟨id, -, hid⟩ := exists_of_mapM hmap (List.getElem_mem hi)
    have hlt : rows[i] < total := by
      rw [← hwhole.keys_size]
      exact (Array.getElem?_eq_some_iff.1 hid).1
    have hsome := hwhole.isSome_groupOf rows[i]
    rw [decide_eq_true hlt] at hsome
    unfold GroupTable.groupOf at hsome
    rw [hrow, Option.bind_some, hsome, Bool.and_self]
  · simp [hi]

/-- Copying rows that all have a group succeeds. -/
theorem exists_take? (hwhole : g.whole.Numbers total key fun _ => true) {rows : List Nat}
    (hrows : ∀ row ∈ rows, row < total) : ∃ h, g.take? rows = some h := by
  obtain ⟨ids, hids⟩ := exists_mapM (fun row => g.whole.keys[row]?) rows
    fun row hrow => by
      have hlt : row < g.whole.keys.size := by
        rw [hwhole.keys_size]
        exact hrows row hrow
      exact ⟨_, Array.getElem?_eq_getElem hlt⟩
  exact ⟨_, Option.map_eq_some_iff.2 ⟨ids, hids, rfl⟩⟩

end Grouping

end ColumnQuery
