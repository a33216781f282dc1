/-
  Rows with and without a match.

  A semijoin keeps the visible rows that match something and an antijoin those that match nothing.
  Both hide rows and change nothing else (`Restricts`): the groups that are left are those of the
  view among fewer rows, in the same order and with the same keys, although they are narrowed from
  the groups of all rows and not from those shown (`Sound.restricts_withFilter`).

  Matches that are found at all are the pairs of a nested loop, whichever way they were looked for
  (`Matcher.pairs_eq_of_some`), so a row matches something exactly if it is in a pair of rows of the
  inner join (`Matches.mem_matchedLeft`). Both verbs look for the matches first, and nothing can go
  wrong after that: they are refused together, or split the visible rows
  (`semijoin_antijoin_split`).
-/
import ColumnQuery.Proofs.Join.Completion
import ColumnQuery.Proofs.Mirror.Join
import ColumnQuery.Proofs.View.Narrowed

namespace ColumnQuery

/-! ## Groups of fewer rows -/

namespace GroupTable

/-- The groups that are left among the kept rows, numbered anew in their order. -/
structure Restricts (t : GroupTable) (kept : Nat → Prop) (u : GroupTable) : Prop where
  names : u.names = t.names
  keys_size : u.keys.size = t.keys.size
  values_length : u.values.length = u.size
  grouped : ∀ row, (∃ j, u.groupOf row = some j) ↔ kept row ∧ ∃ i, t.groupOf row = some i
  values : ∀ row i j, t.groupOf row = some i → u.groupOf row = some j →
    ∃ key, t.values[i]? = some key ∧ u.values[j]? = some key
  ordered : ∀ a b i i' j j', t.groupOf a = some i → t.groupOf b = some i' →
    u.groupOf a = some j → u.groupOf b = some j' → (j < j' ↔ i < i')
  least : u.LeastRows

variable {t : GroupTable} {shown kept : Nat → Bool}

/-- A shown row is in the group that its old group has become. -/
theorem groupOf_restrict_shownKeys {row j : Nat}
    (h : (t.restrict (t.shownKeys shown)).groupOf row = some j) :
    ∃ e, (t.occurring (t.shownKeys shown))[j]? = some e ∧ t.groupOf row = some e.1 := by
  obtain ⟨e, he, hid⟩ := t.groupOf_restrict _ h
  refine ⟨e, he, ?_⟩
  rw [getElem?_shownKeys] at hid
  obtain ⟨id, hkey, hid⟩ := Option.map_eq_some_iff.1 hid
  split at hid
  next => exact groupOf_eq_some_iff.2 (hid ▸ hkey)
  next => cases hid

/-- New numbers are in the order of the old ones. -/
theorem lt_iff_of_occurring {ids : Array (Option Nat)} {j j' : Nat} {e e' : Nat × Nat}
    (hj : (t.occurring ids)[j]? = some e) (hj' : (t.occurring ids)[j']? = some e') :
    j < j' ↔ e.1 < e'.1 := by
  obtain ⟨hlt, rfl⟩ := List.getElem?_eq_some_iff.1 hj
  obtain ⟨hlt', rfl⟩ := List.getElem?_eq_some_iff.1 hj'
  have hmono := List.pairwise_iff_getElem.1 (t.pairwise_occurring ids)
  constructor
  · exact hmono j j' hlt hlt'
  · intro hless
    rcases Nat.lt_trichotomy j j' with h | rfl | h
    · exact h
    · omega
    · have := hmono j' j hlt' hlt h
      omega

/-- Restricted to more or to fewer rows, a row is in a group with the same keys. -/
theorem values_restrict_shownKeys (hlength : t.values.length = t.size) {row i j : Nat}
    (hi : (t.restrict (t.shownKeys shown)).groupOf row = some i)
    (hj : (t.restrict (t.shownKeys kept)).groupOf row = some j) :
    (t.restrict (t.shownKeys kept)).values[j]? = (t.restrict (t.shownKeys shown)).values[i]? := by
  obtain ⟨e, he, hgroup⟩ := groupOf_restrict_shownKeys hi
  obtain ⟨d, hd, hgroup'⟩ := groupOf_restrict_shownKeys hj
  rw [getElem?_values_restrict hlength he, getElem?_values_restrict hlength hd,
    Option.some.inj (hgroup.symm.trans hgroup')]

/-- Restricted to more or to fewer rows, groups are numbered in the same order. -/
theorem lt_iff_restrict_shownKeys {a b i i' j j' : Nat}
    (hi : (t.restrict (t.shownKeys shown)).groupOf a = some i)
    (hi' : (t.restrict (t.shownKeys shown)).groupOf b = some i')
    (hj : (t.restrict (t.shownKeys kept)).groupOf a = some j)
    (hj' : (t.restrict (t.shownKeys kept)).groupOf b = some j') : j < j' ↔ i < i' := by
  obtain ⟨e, he, hgroup⟩ := groupOf_restrict_shownKeys hi
  obtain ⟨e', he', hgroup'⟩ := groupOf_restrict_shownKeys hi'
  obtain ⟨d, hd, hsame⟩ := groupOf_restrict_shownKeys hj
  obtain ⟨d', hd', hsame'⟩ := groupOf_restrict_shownKeys hj'
  rw [lt_iff_of_occurring hd hd', lt_iff_of_occurring he he',
    Option.some.inj (hgroup.symm.trans hsame), Option.some.inj (hgroup'.symm.trans hsame')]

end GroupTable

namespace View

variable {v w : View} {key : RowKey}

/-- The same view with fewer visible rows. -/
structure Restricts (v u : View) : Prop where
  visible : ∀ row ∈ u.visible, row ∈ v.visible
  data : u.data = v.data
  order : u.order = v.order
  params : u.params = v.params
  groups : Option.Rel (fun g h => g.shown.Restricts (· ∈ u.visible) h.shown) v.groups u.groups

/-- Hiding rows restricts the groups that a view shows. -/
theorem Sound.restricts_withFilter (hv : v.Sound key) (hn : v.Narrowed) {f : BitSet}
    (hf : v.Selects f) : v.Restricts (v.withFilter f) := by
  have hu := hv.withFilter hf.wellFormed hf.length_eq
  have hvisible : ∀ row ∈ (v.withFilter f).visible, row ∈ v.visible := by
    intro row hrow
    rw [hv.visible_withFilter hf] at hrow
    exact (List.mem_filter.1 hrow).1
  refine ⟨hvisible, rfl, rfl, rfl, ?_⟩
  cases hg : v.groups with
  | none => rw [show (v.withFilter f).groups = none from congrArg (Option.map _) hg]; exact .none
  | some g =>
    have hnarrow : (v.withFilter f).groups = some (g.narrow f) := congrArg (Option.map _) hg
    rw [hnarrow]
    refine .some ?_
    have hold := hv.groups g hg
    have hnew := hu.groups _ hnarrow
    have hshown : g.shown = g.whole.restrict (g.whole.shownKeys v.shows) := hn g hg
    have hshown' : (g.narrow f).shown = g.whole.restrict (g.whole.shownKeys f.contains) := rfl
    have hgrouped : ∀ row, (∃ i, g.shown.groupOf row = some i) ↔ row ∈ v.visible := by
      intro row
      rw [← Option.isSome_iff_exists, hold.numbers.isSome_groupOf, Bool.and_eq_true,
        decide_eq_true_iff, hv.mem_visible]
    have hgrouped' : ∀ row, (∃ j, (g.narrow f).shown.groupOf row = some j) ↔
        row ∈ (v.withFilter f).visible := by
      intro row
      rw [← Option.isSome_iff_exists, hnew.numbers.isSome_groupOf, Bool.and_eq_true,
        decide_eq_true_iff, hu.mem_visible]
    refine ⟨by rw [hshown, hshown']; rfl, ?_, hnew.numbers.values_length, fun row => ?_,
      fun row i j hi hj => ?_, fun a b i i' j j' hi hi' hj hj' => ?_, hnew.least⟩
    · rw [hold.numbers.keys_size, hnew.numbers.keys_size]
      rfl
    · rw [hgrouped, hgrouped']
      exact ⟨fun h => ⟨h, hvisible row h⟩, fun h => h.1⟩
    · have hlt : i < g.shown.values.length := hold.numbers.values_length ▸ hold.numbers.lt_size hi
      have hvalues := List.getElem?_eq_getElem hlt
      refine ⟨_, hvalues, ?_⟩
      rw [← hvalues]
      rw [hshown] at hi ⊢
      exact GroupTable.values_restrict_shownKeys hold.whole.values_length hi hj
    · rw [hshown] at hi hi'
      exact GroupTable.lt_iff_restrict_shownKeys hi hi' hj hj'

end View

/-! ## Matches that are found -/

/-- What a partial map that drops items lists has an outcome for every item. -/
theorem exists_of_filterMapM {α β : Type} {f : α → Option (Option β)} {xs : List α} {ys : List β}
    (h : xs.filterMapM f = some ys) : ∀ x ∈ xs, ∃ item, f x = some item := by
  induction xs generalizing ys with
  | nil => simp
  | cons x xs ih =>
    rw [List.filterMapM_cons] at h
    obtain ⟨item, hitem, h⟩ := Option.bind_eq_some_iff.1 h
    refine List.forall_mem_cons.2 ⟨⟨item, hitem⟩, ?_⟩
    cases item with
    | none => exact ih h
    | some z =>
      obtain ⟨zs, hzs, -⟩ := Option.bind_eq_some_iff.1 h
      exact ih hzs

namespace Matcher

theorem exists_evalKey_of_rowKeys {keys : List Formula} {rows : List Nat}
    {found : List (Option (List Value))} (h : rowKeys keys rows = some found) :
    ∀ row ∈ rows, ∃ k, Formula.evalKey keys row = some k := by
  intro row hrow
  obtain ⟨k, -, hk⟩ := exists_of_mapM h hrow
  obtain ⟨l, hl, -⟩ := Option.map_eq_some_iff.1 hk
  exact ⟨l, hl⟩

theorem exists_holds_of_satisfyingPairs {f : Formula} {left right : List Nat}
    {ps : List (Nat × Nat)} (h : satisfyingPairs f left right = some ps) :
    ∀ l ∈ left, ∀ r ∈ right, ∃ b, holds f l r = some b := by
  intro l hl r hr
  obtain ⟨byRow, hbyRow, -⟩ := Option.bind_eq_some_iff.1 h
  obtain ⟨i, hi⟩ := List.mem_iff_getElem?.1 hl
  obtain ⟨j, hj⟩ := List.mem_iff_getElem?.1 hr
  have hplace : (l, i) ∈ left.zipIdx := List.mem_zipIdx_iff_getElem?.2 hi
  have hplace' : (r, j) ∈ right.zipIdx := List.mem_zipIdx_iff_getElem?.2 hj
  obtain ⟨own, -, hown⟩ := exists_of_mapM hbyRow hplace
  obtain ⟨item, hitem⟩ := exists_of_filterMapM hown _ hplace'
  obtain ⟨b, hb, -⟩ := Option.bind_eq_some_iff.1 hitem
  exact ⟨b, hb⟩

/-- Matches that are found are those of a nested loop. -/
theorem pairs_eq_of_some {m : Matcher} {left right : List Nat} {ps : List (Nat × Nat)}
    (h : m.pairs left right = some ps) : ps = nestedLoop m.joins left right := by
  cases m with
  | keys leftKeys rightKeys shared =>
    obtain ⟨lefts, hlefts, h⟩ := Option.bind_eq_some_iff.1 h
    obtain ⟨rights, hrights, h⟩ := Option.bind_eq_some_iff.1 h
    rw [rowKeys_eq (exists_evalKey_of_rowKeys hlefts)] at hlefts
    rw [rowKeys_eq (exists_evalKey_of_rowKeys hrights)] at hrights
    rw [← Option.some.inj h, ← Option.some.inj hlefts, ← Option.some.inj hrights,
      KeyIndex.pairs_eq_nestedLoop, nestedLoop_map]
    rfl
  | predicate f =>
    have hloop := satisfyingPairs_eq (exists_holds_of_satisfyingPairs h)
    exact Option.some.inj (h.symm.trans hloop)

end Matcher

theorem mem_completedRows_inner {α β : Type} {test : α → β → Bool} {left : List α} {right : List β}
    {a : α} {b : β} : (some a, some b) ∈ completedRows test false false left right ↔
      a ∈ left ∧ b ∈ right ∧ test a b = true := by
  simp [completedRows, ownRows, and_assoc]

namespace Matches

variable {v w : View} {m : Matcher} {found : Matches}

theorem of_find? (h : find? v w m = some found) : v.sorted = some found.left ∧
    w.sorted = some found.right ∧ found.pairs = nestedLoop m.joins found.left found.right := by
  obtain ⟨left, hleft, h⟩ := Option.bind_eq_some_iff.1 h
  obtain ⟨right, hright, h⟩ := Option.bind_eq_some_iff.1 h
  obtain ⟨ps, hps, h⟩ := Option.bind_eq_some_iff.1 h
  obtain rfl := Option.some.inj h
  exact ⟨hleft, hright, Matcher.pairs_eq_of_some hps⟩

/-- The left rows that match something. -/
theorem mem_matchedLeft (h : find? v w m = some found) (row : Nat) : row ∈ found.matchedLeft ↔
    row ∈ v.visible ∧ ∃ other ∈ w.visible, m.joins row other = true := by
  obtain ⟨hleft, hright, hpairs⟩ := of_find? h
  have hvisible := (View.perm_of_sorted hleft).mem_iff (a := row)
  unfold matchedLeft
  rw [List.mem_filterMap, hpairs, ← hvisible]
  constructor
  · rintro ⟨p, hp, hrow⟩
    obtain ⟨a, b, ha, hb, hjoins⟩ := mem_nestedLoop.1 hp
    obtain rfl : a = row := Option.some.inj (ha.symm.trans hrow)
    exact ⟨List.mem_of_getElem? ha, b,
      (View.perm_of_sorted hright).mem_iff.1 (List.mem_of_getElem? hb), hjoins⟩
  · rintro ⟨hrow, b, hb, hjoins⟩
    obtain ⟨i, hi⟩ := List.mem_iff_getElem?.1 hrow
    obtain ⟨j, hj⟩ := List.mem_iff_getElem?.1 ((View.perm_of_sorted hright).mem_iff.2 hb)
    exact ⟨(i, j), mem_nestedLoop.2 ⟨row, b, hi, hj, hjoins⟩, hi⟩

/-- They are the left rows of an inner join. -/
theorem mem_matchedLeft_iff_outputRows (h : find? v w m = some found) (row : Nat) :
    row ∈ found.matchedLeft ↔ ∃ other, (some row, some other) ∈ found.outputRows false false := by
  obtain ⟨hleft, hright, hpairs⟩ := of_find? h
  rw [mem_matchedLeft h, outputRows_eq hpairs]
  simp only [mem_completedRows_inner, (View.perm_of_sorted hleft).mem_iff,
    (View.perm_of_sorted hright).mem_iff, exists_and_left]

end Matches

namespace View

variable {v w : View} {key : RowKey} {condition : JoinCondition}

/-! ## Semijoins and antijoins -/

/-- Once the matches are found, their rows are marked. -/
theorem Sound.exists_matchedRows (hv : v.Sound key) {m : Matcher} {found : Matches}
    (hm : Matcher.resolveCondition v w condition = .ok m)
    (hfound : Matches.find? v w m = some found) :
    ∃ f, v.matchedRows w condition = .ok f ∧ v.Selects f ∧
      ∀ row, f.contains row = true ↔ row ∈ found.matchedLeft := by
  obtain ⟨f, hset, hf, hcontains⟩ := hv.exists_rowSet fun row hrow =>
    ((Matches.mem_matchedLeft hfound row).1 hrow).1
  refine ⟨f, ?_, hf, fun row => ?_⟩
  · unfold View.matchedRows View.matching
    rw [hm]
    show (QueryError.ofRead (Matches.find? v w m) >>= _) = _
    rw [hfound]
    show QueryError.ofRead (v.rowSet? found.matchedLeft) = _
    rw [hset]
    rfl
  · rw [hcontains, decide_eq_true_iff]

/-- The condition resolves and its matches are found, or no rows are marked. -/
theorem exists_found_of_matchedRows {f : BitSet} (h : v.matchedRows w condition = .ok f) :
    ∃ m found, Matcher.resolveCondition v w condition = .ok m ∧
      Matches.find? v w m = some found := by
  obtain ⟨found, hfound, -⟩ := bind_eq_ok h
  obtain ⟨m, hm, hfound⟩ := bind_eq_ok hfound
  exact ⟨m, found, hm, QueryError.ofRead_eq_ok hfound⟩

/-- A semijoin succeeds if its condition resolves and has an outcome at all rows. -/
theorem Sound.exists_semijoin {key' : RowKey} (hv : v.Sound key) (hw : w.Sound key')
    (hanswers : condition.Answers v w) {m : Matcher}
    (hm : Matcher.resolveCondition v w condition = .ok m) :
    ∃ kept, v.semijoin w condition = .ok kept := by
  obtain ⟨hanswers, -⟩ := Matcher.answers_of_resolveCondition hv hw hanswers hm
  obtain ⟨found, hfound, -⟩ := Matches.exists_find? hv hw hanswers
  obtain ⟨f, hf, -⟩ := hv.exists_matchedRows hm hfound
  exact ⟨v.withFilter f, by rw [View.semijoin, hf]; rfl⟩

/-- A semijoin and an antijoin are refused for the same reason, or split the visible rows. -/
theorem Sound.split_matched (hv : v.Sound key) (w : View) (condition : JoinCondition) :
    (∃ e, v.semijoin w condition = .error e ∧ v.antijoin w condition = .error e) ∨
      ∃ m found matched rest, Matcher.resolveCondition v w condition = .ok m ∧
        Matches.find? v w m = some found ∧
        v.semijoin w condition = .ok (v.withFilter matched) ∧
        v.antijoin w condition = .ok (v.withFilter rest) ∧ v.Selects matched ∧ v.Selects rest ∧
        (∀ row, matched.contains row = true ↔ row ∈ found.matchedLeft) ∧
        ∀ row ∈ v.visible, rest.contains row = !matched.contains row := by
  cases hmatched : v.matchedRows w condition with
  | error e =>
    refine .inl ⟨e, ?_, ?_⟩
    · rw [View.semijoin, hmatched]
      rfl
    · rw [View.antijoin, hmatched]
      rfl
  | ok f =>
    obtain ⟨m, found, hm, hfound⟩ := exists_found_of_matchedRows hmatched
    obtain ⟨f', hf', hselects, hcontains⟩ := hv.exists_matchedRows hm hfound
    obtain rfl : f = f' := Except.ok.inj (hmatched.symm.trans hf')
    obtain ⟨rest, hrest, hcomplement, hantijoin⟩ := hv.antijoin_eq hmatched hselects
    refine .inr ⟨m, found, f, rest, hm, hfound, ?_, hantijoin, hselects, hrest, hcontains,
      hcomplement⟩
    rw [View.semijoin, hmatched]
    rfl

end View

/-- Semijoin and antijoin are refused together, for the same reason, or split the visible rows of
    the view: the one keeps the rows that are in a pair of the inner join, the other keeps the
    rest. Nothing else changes, and groups are restricted to the rows that are kept. -/
theorem semijoin_antijoin_split {v : View} (hv : Reachable v) (w : View)
    (condition : JoinCondition) :
    (∃ e, v.semijoin w condition = .error e ∧ v.antijoin w condition = .error e) ∨
      ∃ kept rest m found, v.semijoin w condition = .ok kept ∧ v.antijoin w condition = .ok rest ∧
        Matcher.resolveCondition v w condition = .ok m ∧ Matches.find? v w m = some found ∧
        v.Restricts kept ∧ v.Restricts rest ∧
        (∀ row ∈ kept.visible, row ∉ rest.visible) ∧
        (∀ row, row ∈ v.visible ↔ row ∈ kept.visible ∨ row ∈ rest.visible) ∧
        (∀ row, row ∈ kept.visible ↔
          ∃ other, (some row, some other) ∈ found.outputRows false false) ∧
        ∀ row, row ∈ kept.visible ↔
          row ∈ v.visible ∧ ∃ other ∈ w.visible, m.joins row other = true := by
  obtain ⟨key, hreach⟩ := hv
  have hv := sound_of_reachable hreach
  have hn := narrowed_of_reachable hreach
  rcases hv.split_matched w condition with hrefused | ⟨m, found, matched, rest, hm, hfound,
    hsemijoin, hantijoin, hmatched, hrest, hcontains, hcomplement⟩
  · exact .inl hrefused
  have hkept : ∀ row, row ∈ (v.withFilter matched).visible ↔ row ∈ found.matchedLeft := by
    intro row
    rw [hv.visible_withFilter hmatched, List.mem_filter, hcontains]
    exact ⟨fun h => h.2, fun h => ⟨((Matches.mem_matchedLeft hfound row).1 h).1, h⟩⟩
  refine .inr ⟨_, _, m, found, hsemijoin, hantijoin, hm, hfound,
    hv.restricts_withFilter hn hmatched, hv.restricts_withFilter hn hrest, ?_, fun row => ?_,
    fun row => (hkept row).trans (Matches.mem_matchedLeft_iff_outputRows hfound row),
    fun row => (hkept row).trans (Matches.mem_matchedLeft hfound row)⟩
  · intro row hrow
    rw [hv.visible_withFilter hmatched, List.mem_filter] at hrow
    rw [hv.visible_withFilter hrest, List.mem_filter, hcomplement row hrow.1, hrow.2]
    simp
  · rw [hv.visible_withFilter hmatched, hv.visible_withFilter hrest, List.mem_filter,
      List.mem_filter, ← and_or_left]
    refine ⟨fun hrow => ⟨hrow, ?_⟩, fun h => h.1⟩
    rw [hcomplement row hrow]
    cases matched.contains row <;> simp

/-- The first of the letters by itself. -/
def firstLetter : View := (View.ofTable letters).withFilter (.ofPredicate 4 (· == 0))

theorem sound_firstLetter : firstLetter.Sound fun _ => none := by
  obtain ⟨hwf, hlen, -⟩ := BitSet.ofPredicate_spec 4 (· == 0)
  exact (View.sound_ofTable letters_wellFormed fun _ => none).withFilter hwf hlen

theorem visible_firstLetter : firstLetter.visible = [0] := by decide +kernel

/-- Grouped letters, of which the first one is hidden, matched with that letter: only the third row
    has it too, so it is kept by the semijoin and the others by the antijoin. -/
theorem semijoin_antijoin_split_letters : ∃ v w kept rest, Reachable v ∧ v.visible = [1, 2, 3] ∧
    v.groups.isSome = true ∧ w.visible = [0] ∧ v.semijoin w (.columns ["x"]) = .ok kept ∧
    v.antijoin w (.columns ["x"]) = .ok rest ∧ v.Restricts kept ∧ v.Restricts rest ∧
    (∀ row, row ∈ kept.visible ↔ row = 2) ∧
    ∀ row, row ∈ v.visible ↔ row ∈ kept.visible ∨ row ∈ rest.visible := by
  obtain ⟨hwf, hlen, -⟩ := BitSet.ofPredicate_spec 4 (0 < ·)
  obtain ⟨grouped, hgrouped, ⟨key, hgroups⟩, -⟩ := exists_groupBy_letters
  have hlast : ReachableWith (grouped.withFilter (.ofPredicate 4 (0 < ·))) _ :=
    .step (.setFilter _) [] hgroups (by simp) rfl ⟨hwf, by cases hgrouped; exact hlen⟩ rfl
  obtain ⟨m, hm, hjoins⟩ := exists_ok
    (x := Matcher.resolveCondition (grouped.withFilter (.ofPredicate 4 (0 < ·))) firstLetter
      (.columns ["x"]))
    (p := fun m => !m.joins 1 0 && m.joins 2 0 && !m.joins 3 0)
    (by cases hgrouped; decide +kernel)
  simp only [Bool.and_eq_true, Bool.not_eq_true'] at hjoins
  obtain ⟨⟨h1, h2⟩, h3⟩ := hjoins
  obtain ⟨x, hx⟩ := (sound_of_reachable hlast).exists_semijoin sound_firstLetter
    (show JoinCondition.Answers _ _ (.columns ["x"]) from trivial) hm
  have hvisible : (grouped.withFilter (.ofPredicate 4 (0 < ·))).visible = [1, 2, 3] := by
    cases hgrouped
    decide +kernel
  rcases semijoin_antijoin_split ⟨_, hlast⟩ firstLetter (.columns ["x"]) with ⟨e, hrefused, -⟩ |
    ⟨kept, rest, m', -, hkept, hrest, hm', -, hrestricts, hrestricts', -, hsplit, -, hmatched⟩
  · cases hx.symm.trans hrefused
  obtain rfl : m = m' := Except.ok.inj (hm.symm.trans hm')
  refine ⟨_, _, kept, rest, ⟨_, hlast⟩, hvisible, ?_, visible_firstLetter, hkept, hrest,
    hrestricts, hrestricts', fun row => ?_, hsplit⟩
  · cases hgrouped
    rfl
  · rw [hmatched, hvisible, visible_firstLetter]
    simp only [List.mem_cons, List.not_mem_nil, or_false, exists_eq_left]
    constructor
    · rintro ⟨rfl | rfl | rfl, hjoin⟩
      · exact absurd hjoin (by rw [h1]; exact Bool.false_ne_true)
      · rfl
      · exact absurd hjoin (by rw [h3]; exact Bool.false_ne_true)
    · rintro rfl
      exact ⟨by simp, h2⟩

end ColumnQuery
