/-
  The rows of two views that match.

  A condition that resolves is a test of pairs of rows (`Matcher.joins`): the keys of both rows are
  valid and the same, or a predicate is true of them. At the rows of two sound views the test has
  an outcome, unless an escaped function has none (`Matcher.answers_of_resolveCondition`). Both ways
  of finding matches then list the pairs of a nested loop over the sorted visible rows
  (`Matcher.Answers.pairs_eq`), the index of keys no less than the loop that asks a predicate.

  Hence a match by keys is a pair of rows with valid keys that are equal component by component,
  listed once and in order, and it makes no difference which side is indexed
  (`matches_of_keys`).
-/
import ColumnQuery.Proofs.Formula.Allowed
import ColumnQuery.Proofs.Join.Pairs
import ColumnQuery.Proofs.Value.Ties
import ColumnQuery.Proofs.View.Reachable
import ColumnQuery.Proofs.View.Windows

namespace ColumnQuery

/-! ## Expressions with escaped functions -/

/-- The escaped function of an expression, if it has one, answers at all rows of the tables. -/
def ExprSpec.Answers (tables : List Table) (params : Params) : ExprSpec → Prop
  | escape f => ∀ p, Formula.Within tables p → (f ⟨tables, p⟩ params).isSome = true
  | rolling e _ => e.Answers tables params
  | source _ | tree _ | value _ | column _ => True

theorem ExprSpec.Answers.isSome {tables : List Table} {params : Params} {e : ExprSpec}
    (h : e.Answers tables params) {f : EscapedFunction} (hf : e.escaped? = some f) :
    ∀ p, Formula.Within tables p → (f ⟨tables, p⟩ params).isSome = true := by
  induction e with
  | escape g =>
    cases hf
    exact h
  | rolling e _ ih => exact ih h hf
  | source _ | tree _ | value _ | column _ => cases hf

/-- A value at all rows of the tables, where no calls of operators are expected. -/
def Formula.Valued (tables : List Table) (f : Formula) : Prop :=
  ∀ p, Formula.Within tables p → ∃ x, f.eval (.ofPosition p) = some x

theorem Formula.valued_escape {tables : List Table} {params : Params} {f : EscapedFunction}
    (h : ∀ p, Formula.Within tables p → (f ⟨tables, p⟩ params).isSome = true) :
    (Formula.escape f tables params).Valued tables := by
  intro p hp
  obtain ⟨x, hx⟩ := Option.isSome_iff_exists.1 (h p hp)
  refine ⟨x, ?_⟩
  rw [eval, evalWith]
  show ((f ⟨tables, p⟩ params).map (·, #[])).map (·.1) = some x
  rw [hx]
  rfl

theorem Resolve.Reads.valued {ctx : ResolveContext} {f : Formula} (hf : Reads ctx false f)
    (htables : ∀ table ∈ ctx.tables, table.WellFormed) : f.Valued ctx.tables :=
  fun _ hp => hf.exists_eval htables (fun _ => hp) fun _ _ => rfl

/-- Whatever resolves has values, if its escaped functions have. -/
theorem valued_of_resolve {ctx : ResolveContext} {exprs : List (String × ExprSpec)}
    (htables : ∀ table ∈ ctx.tables, table.WellFormed)
    (hexprs : ∀ e ∈ exprs, e.2.Answers ctx.tables ctx.params) {r : Resolution}
    (h : resolve ctx exprs = .ok r) : ∀ e ∈ r.exprs, e.formula.Valued ctx.tables := by
  have hvalued : List.Forall₂ (fun _ f => f.formula.Valued ctx.tables) exprs r.exprs := by
    refine forall₂_of_resolve (fun e he _ _ r hrun => ?_) h
    have hread := Resolve.escape_or_reads_of_spec hrun
    obtain ⟨f, tree⟩ := r
    rcases hread with ⟨g, hg, rfl⟩ | ⟨-, hreads⟩
    · exact Formula.valued_escape ((hexprs e he).isSome hg)
    · exact hreads.valued htables
  intro f hf
  obtain ⟨_, _, hf⟩ := exists_of_forall₂ hvalued.flip hf
  exact hf

namespace JoinCondition

/-- An equality of keys. -/
def isEquality : JoinCondition → Bool
  | shared | columns _ | keys _ _ => true
  | predicate _ => false

/-- The escaped functions of a condition answer at all rows of the tables that they see. -/
def Answers (left right : View) : JoinCondition → Prop
  | shared | columns _ => True
  | keys leftKeys rightKeys =>
    (∀ k ∈ leftKeys, k.Answers [left.data] left.params) ∧
      ∀ k ∈ rightKeys, k.Answers [right.data] right.params
  | predicate e => e.Answers [left.data, right.data] left.params

end JoinCondition

namespace Matcher

/-! ## The test of a pair of rows -/

/-- The key of a row, if all of its components are valid. -/
def keyOf? (keys : List Formula) (row : Nat) : Option (List Value) :=
  (Formula.evalKey keys row).bind validKey

/-- Whether two rows match. -/
def joins : Matcher → Nat → Nat → Bool
  | keys leftKeys rightKeys _, left, right =>
    KeyIndex.keysMatch (keyOf? leftKeys left) (keyOf? rightKeys right)
  | predicate f, left, right => holds f left right == some true

/-- The test has an outcome at all rows of two views. -/
def Answers (left right : View) : Matcher → Prop
  | keys leftKeys rightKeys _ =>
    (∀ row < left.totalRows, ∃ k, Formula.evalKey leftKeys row = some k) ∧
      (∀ row < right.totalRows, ∃ k, Formula.evalKey rightKeys row = some k) ∧
      leftKeys.length = rightKeys.length
  | predicate f => ∀ l < left.totalRows, ∀ r < right.totalRows, ∃ b, holds f l r = some b

variable {v w : View} {key key' : RowKey} {m : Matcher}

theorem validKey_eq_some_iff {k l : List Value} :
    validKey k = some l ↔ k = l ∧ ∀ x ∈ l, x.isValid = true := by
  unfold validKey
  rw [Option.ite_none_right_eq_some, List.all_eq_true, Option.some.injEq]
  constructor
  · rintro ⟨hvalid, rfl⟩
    exact ⟨rfl, hvalid⟩
  · rintro ⟨rfl, hvalid⟩
    exact ⟨hvalid, rfl⟩

theorem keyOf?_eq_some_iff {keys : List Formula} {row : Nat} {k : List Value} :
    keyOf? keys row = some k ↔
      Formula.evalKey keys row = some k ∧ ∀ x ∈ k, x.isValid = true := by
  unfold keyOf?
  rw [Option.bind_eq_some_iff]
  constructor
  · rintro ⟨l, hl, hvalid⟩
    obtain ⟨rfl, hk⟩ := validKey_eq_some_iff.1 hvalid
    exact ⟨hl, hk⟩
  · rintro ⟨hk, hvalid⟩
    exact ⟨k, hk, validKey_eq_some_iff.2 ⟨rfl, hvalid⟩⟩

/-- Rows match by their keys if the keys are valid and equal component by component. -/
theorem joins_keys_iff {leftKeys rightKeys : List Formula} {shared : List String}
    {left right : Nat} : (keys leftKeys rightKeys shared).joins left right = true ↔
      ∃ k l, Formula.evalKey leftKeys left = some k ∧ Formula.evalKey rightKeys right = some l ∧
        (∀ x ∈ k, x.isValid = true) ∧ (∀ x ∈ l, x.isValid = true) ∧
        List.Forall₂ (fun x y => x.same y = true) k l := by
  show KeyIndex.keysMatch (keyOf? leftKeys left) (keyOf? rightKeys right) = true ↔ _
  constructor
  · intro h
    cases hk : keyOf? leftKeys left with
    | none =>
      rw [hk] at h
      cases h
    | some k =>
      cases hl : keyOf? rightKeys right with
      | none =>
        rw [hk, hl] at h
        cases h
      | some l =>
        rw [hk, hl] at h
        obtain ⟨hevalk, hvalidk⟩ := keyOf?_eq_some_iff.1 hk
        obtain ⟨hevall, hvalidl⟩ := keyOf?_eq_some_iff.1 hl
        exact ⟨k, l, hevalk, hevall, hvalidk, hvalidl, Value.sameItems_iff_forall₂.1 h⟩
  · rintro ⟨k, l, hevalk, hevall, hvalidk, hvalidl, hsame⟩
    rw [keyOf?_eq_some_iff.2 ⟨hevalk, hvalidk⟩, keyOf?_eq_some_iff.2 ⟨hevall, hvalidl⟩]
    exact Value.sameItems_iff_forall₂.2 hsame

/-! ## Conditions that resolve -/

theorem exists_of_resolveKeys (hv : v.Sound key) {specs : List ExprSpec}
    (hanswers : ∀ k ∈ specs, k.Answers [v.data] v.params) {formulas : List Formula}
    (h : resolveKeys v specs = .ok formulas) : formulas.length = specs.length ∧
      ∀ row < v.totalRows, ∃ k, Formula.evalKey formulas row = some k := by
  obtain ⟨r, hr, h⟩ := bind_eq_ok h
  obtain rfl := Except.ok.inj h
  constructor
  · have hnames := congrArg List.length (names_of_resolve hr)
    simpa using hnames
  · intro row hrow
    have hvalued := valued_of_resolve (List.forall_mem_singleton.2 hv.table)
      (fun e he => ?_) hr
    · refine exists_mapM _ _ fun f hf => ?_
      obtain ⟨e, he, rfl⟩ := List.mem_map.1 hf
      exact hvalued e he _ (View.within_of_lt hrow)
    · obtain ⟨k, hk, rfl⟩ := List.mem_map.1 he
      exact hanswers _ (List.fst_mem_of_mem_zipIdx hk)

theorem exists_of_ofKeys (hv : v.Sound key) (hw : w.Sound key') {leftKeys rightKeys : List ExprSpec}
    (hleft : ∀ k ∈ leftKeys, k.Answers [v.data] v.params)
    (hright : ∀ k ∈ rightKeys, k.Answers [w.data] w.params)
    (hlength : leftKeys.length = rightKeys.length) {shared : List String}
    (h : ofKeys v w leftKeys rightKeys shared = .ok m) :
    m.Answers v w ∧ ∃ lefts rights names, m = keys lefts rights names := by
  obtain ⟨lefts, hlefts, h⟩ := bind_eq_ok h
  obtain ⟨rights, hrights, h⟩ := bind_eq_ok h
  obtain rfl := Except.ok.inj h
  obtain ⟨hcount, hvalues⟩ := exists_of_resolveKeys hv hleft hlefts
  obtain ⟨hcount', hvalues'⟩ := exists_of_resolveKeys hw hright hrights
  exact ⟨⟨hvalues, hvalues', by rw [hcount, hcount', hlength]⟩, lefts, rights, shared, rfl⟩

theorem exists_of_ofColumns (hv : v.Sound key) (hw : w.Sound key') {names : List String}
    (h : ofColumns v w names = .ok m) :
    m.Answers v w ∧ ∃ lefts rights names, m = keys lefts rights names := by
  have hcolumns : ∀ (tables : List Table) (params : Params),
      ∀ k ∈ names.map ExprSpec.column, k.Answers tables params := by
    intro tables params k hk
    obtain ⟨n, -, rfl⟩ := List.mem_map.1 hk
    trivial
  exact exists_of_ofKeys hv hw (hcolumns _ _) (hcolumns _ _) rfl h

theorem within_pair {l r : Option Nat} (hl : ∀ row ∈ l, row < v.totalRows)
    (hr : ∀ row ∈ r, row < w.totalRows) : Formula.Within [v.data, w.data] ⟨l, r⟩ := by
  intro t table row htable hrow
  match t with
  | 0 =>
    cases htable
    exact hl row hrow
  | 1 =>
    cases htable
    exact hr row hrow
  | t + 2 => cases htable

/-- A condition that resolves has an outcome at all rows; an equality is one of keys. -/
theorem answers_of_resolveCondition (hv : v.Sound key) (hw : w.Sound key')
    {condition : JoinCondition} (hanswers : condition.Answers v w)
    (h : resolveCondition v w condition = .ok m) : m.Answers v w ∧
      (condition.isEquality = true → ∃ lefts rights names, m = keys lefts rights names) := by
  cases condition with
  | shared =>
    rw [resolveCondition] at h
    split at h
    next => cases h
    next =>
      obtain ⟨hm, hkeys⟩ := exists_of_ofColumns hv hw h
      exact ⟨hm, fun _ => hkeys⟩
  | columns names =>
    rw [resolveCondition] at h
    split at h
    next => cases h
    next =>
      obtain ⟨hm, hkeys⟩ := exists_of_ofColumns hv hw h
      exact ⟨hm, fun _ => hkeys⟩
  | keys leftKeys rightKeys =>
    rw [resolveCondition] at h
    split at h
    next => cases h
    next hlength =>
      obtain ⟨hm, hkeys⟩ := exists_of_ofKeys hv hw hanswers.1 hanswers.2 (by tauto) h
      exact ⟨hm, fun _ => hkeys⟩
  | predicate e =>
    refine ⟨?_, fun hequality => Bool.noConfusion hequality⟩
    obtain ⟨r, hr, h⟩ := bind_eq_ok h
    have htables : ∀ table ∈ [v.data, w.data], table.WellFormed :=
      List.forall_mem_cons.2 ⟨hv.table, List.forall_mem_singleton.2 hw.table⟩
    have hexprs : ∀ e' ∈ [("on", e)], e'.2.Answers [v.data, w.data] v.params :=
      List.forall_mem_singleton.2 hanswers
    have hvalued := valued_of_resolve htables hexprs hr
    split at h
    next named hnamed =>
      obtain rfl := Except.ok.inj h
      intro l hl r' hr'
      have hwithin : Formula.Within [v.data, w.data] ⟨some l, some r'⟩ :=
        within_pair (fun _ h => Option.some.inj h ▸ hl) fun _ h => Option.some.inj h ▸ hr'
      obtain ⟨x, hx⟩ := hvalued named (List.mem_of_head? hnamed) _ hwithin
      exact ⟨x.truthy, by rw [holds, hx]; rfl⟩
    next => cases h

/-! ## Matches by a nested loop -/

theorem rowKeys_eq {keys : List Formula} {rows : List Nat}
    (h : ∀ row ∈ rows, ∃ k, Formula.evalKey keys row = some k) :
    rowKeys keys rows = some (rows.map (keyOf? keys)) := by
  unfold rowKeys
  rw [mapM_eq_some_iff, List.map_map]
  refine List.map_congr_left fun row hrow => ?_
  obtain ⟨k, hk⟩ := h row hrow
  rw [Function.comp_apply, keyOf?, hk]
  rfl

theorem satisfyingPairs_eq {f : Formula} {left right : List Nat}
    (h : ∀ l ∈ left, ∀ r ∈ right, ∃ b, holds f l r = some b) :
    satisfyingPairs f left right
      = some (nestedLoop (fun l r => holds f l r == some true) left right) := by
  have hrow : ∀ a ∈ left.zipIdx, (right.zipIdx.filterMapM fun b => do
      return if ← holds f a.1 b.1 then some (a.2, b.2) else none)
      = some ((right.zipIdx.filter fun b => holds f a.1 b.1 == some true).map
          fun b => (a.2, b.2)) := by
    intro a ha
    refine filterMapM_eq fun b hb => ?_
    obtain ⟨outcome, houtcome⟩ := h a.1 (List.fst_mem_of_mem_zipIdx ha) b.1
      (List.fst_mem_of_mem_zipIdx hb)
    rw [houtcome]
    cases outcome <;> rfl
  have hrows : left.zipIdx.mapM (fun a => right.zipIdx.filterMapM fun b => do
      return if ← holds f a.1 b.1 then some (a.2, b.2) else none)
      = some (left.zipIdx.map fun a =>
          (right.zipIdx.filter fun b => holds f a.1 b.1 == some true).map
            fun b => (a.2, b.2)) := by
    rw [mapM_eq_some_iff, List.map_map]
    exact List.map_congr_left hrow
  unfold satisfyingPairs nestedLoop
  rw [List.flatMap_def]
  show Option.bind (left.zipIdx.mapM _) _ = _
  rw [hrows]
  rfl

/-- Either way of finding matches lists the pairs of a nested loop. -/
theorem Answers.pairs_eq (hm : m.Answers v w) {left right : List Nat}
    (hleft : ∀ l ∈ left, l < v.totalRows) (hright : ∀ r ∈ right, r < w.totalRows) :
    m.pairs left right = some (nestedLoop m.joins left right) := by
  cases m with
  | keys leftKeys rightKeys shared =>
    obtain ⟨hl, hr, -⟩ := hm
    show (do return KeyIndex.pairs (← rowKeys leftKeys left) (← rowKeys rightKeys right)) = _
    rw [rowKeys_eq fun l h => hl l (hleft l h), rowKeys_eq fun r h => hr r (hright r h)]
    show some (KeyIndex.pairs _ _) = _
    rw [KeyIndex.pairs_eq_nestedLoop, nestedLoop_map]
    rfl
  | predicate f =>
    exact satisfyingPairs_eq fun l hl r hr => hm l (hleft l hl) r (hright r hr)

end Matcher

/-- The matches of two sound views are those of a nested loop over their sorted visible rows. -/
theorem Matches.exists_find? {v w : View} {key key' : RowKey} {m : Matcher} (hv : v.Sound key)
    (hw : w.Sound key') (hm : m.Answers v w) : ∃ found, Matches.find? v w m = some found ∧
      v.sorted = some found.left ∧ w.sorted = some found.right ∧
      found.pairs = nestedLoop m.joins found.left found.right := by
  obtain ⟨left, hleft, -⟩ := hv.exists_sorted
  obtain ⟨right, hright, -⟩ := hw.exists_sorted
  have hpairs := hm.pairs_eq (fun l hl => hv.lt_of_sorted hleft hl)
    fun r hr => hw.lt_of_sorted hright hr
  refine ⟨⟨left, right, nestedLoop m.joins left right⟩, ?_, hleft, hright, rfl⟩
  unfold Matches.find?
  rw [hleft, hright]
  show (m.pairs left right).bind _ = _
  rw [hpairs]
  rfl

/-- Rows match by an equality exactly if their keys are valid and equal component by component.
    Each match is listed once, in the order of the left rows and then of the right ones, whichever
    side is indexed. -/
theorem matches_of_keys {v w : View} (hv : Reachable v) (hw : Reachable w)
    {condition : JoinCondition} (hequality : condition.isEquality = true)
    (hanswers : condition.Answers v w) {m : Matcher}
    (hm : Matcher.resolveCondition v w condition = .ok m) :
    ∃ leftKeys rightKeys shared found, m = .keys leftKeys rightKeys shared ∧
      leftKeys.length = rightKeys.length ∧ Matches.find? v w m = some found ∧
      v.sorted = some found.left ∧ w.sorted = some found.right ∧
      (∀ i j, (i, j) ∈ found.pairs ↔ ∃ row row' k l, found.left[i]? = some row ∧
        found.right[j]? = some row' ∧ Formula.evalKey leftKeys row = some k ∧
        Formula.evalKey rightKeys row' = some l ∧ (∀ x ∈ k, x.isValid = true) ∧
        (∀ x ∈ l, x.isValid = true) ∧ List.Forall₂ (fun x y => x.same y = true) k l) ∧
      found.pairs.Pairwise (Prod.Lex (· < ·) (· < ·)) ∧
      ∃ lefts rights, Matcher.rowKeys leftKeys found.left = some lefts ∧
        Matcher.rowKeys rightKeys found.right = some rights ∧
        KeyIndex.sortPairs (KeyIndex.probe (.ofKeys rights) lefts) = found.pairs ∧
        KeyIndex.sortPairs ((KeyIndex.probe (.ofKeys lefts) rights).map Prod.swap)
          = found.pairs := by
  obtain ⟨key, hv⟩ := hv
  obtain ⟨key', hw⟩ := hw
  have hv := sound_of_reachable hv
  have hw := sound_of_reachable hw
  obtain ⟨hm, hkeys⟩ := Matcher.answers_of_resolveCondition hv hw hanswers hm
  obtain ⟨leftKeys, rightKeys, shared, rfl⟩ := hkeys hequality
  obtain ⟨found, hfound, hleft, hright, hpairs⟩ := Matches.exists_find? hv hw hm
  obtain ⟨hleftKeys, hrightKeys, hlength⟩ := hm
  have hlefts := Matcher.rowKeys_eq fun row h => hleftKeys row (hv.lt_of_sorted hleft h)
  have hrights := Matcher.rowKeys_eq fun row h => hrightKeys row (hw.lt_of_sorted hright h)
  have hloop : nestedLoop KeyIndex.keysMatch (found.left.map (Matcher.keyOf? leftKeys))
      (found.right.map (Matcher.keyOf? rightKeys)) = found.pairs := by
    rw [nestedLoop_map, hpairs]
    rfl
  refine ⟨leftKeys, rightKeys, shared, found, rfl, hlength, hfound, hleft, hright, fun i j => ?_,
    ?_, _, _, hlefts, hrights, ?_, ?_⟩
  · rw [hpairs, mem_nestedLoop]
    constructor
    · rintro ⟨row, row', hrow, hrow', hjoins⟩
      obtain ⟨k, l, h⟩ := Matcher.joins_keys_iff.1 hjoins
      exact ⟨row, row', k, l, hrow, hrow', h⟩
    · rintro ⟨row, row', k, l, hrow, hrow', h⟩
      exact ⟨row, row', hrow, hrow', Matcher.joins_keys_iff.2 ⟨k, l, h⟩⟩
  · rw [hpairs]
    exact pairwise_nestedLoop _ _ _
  · rw [KeyIndex.sortPairs_probe, hloop]
  · rw [KeyIndex.sortPairs_probe_swap, hloop]

/-- Keys of which one is absent and two are the same zero, written with either sign. -/
def zeroKeys : Table :=
  ⟨[("k", .ofValues [.number 0.0, .number 1.0, .number (-0.0), .null])], 4⟩

theorem zeroKeys_wellFormed : zeroKeys.WellFormed :=
  Table.wellFormed_ofValues [("k", [.number 0.0, .number 1.0, .number (-0.0), .null])] rfl

/-- Three numbers and not-a-number. -/
def numberKeys : Table :=
  ⟨[("k", .ofValues [.number 1.0, .number 2.0, .number 0.0, .number Number.notANumber])], 4⟩

theorem numberKeys_wellFormed : numberKeys.WellFormed :=
  Table.wellFormed_ofValues
    [("k", [.number 1.0, .number 2.0, .number 0.0, .number Number.notANumber])] rfl

/-- Both zeros match the same row, invalid keys none. -/
theorem matches_of_zeroKeys : ∃ leftKeys rightKeys shared found,
    Matcher.resolveCondition (.ofTable zeroKeys) (.ofTable numberKeys) (.columns ["k"])
      = .ok (.keys leftKeys rightKeys shared) ∧
    Matches.find? (.ofTable zeroKeys) (.ofTable numberKeys) (.keys leftKeys rightKeys shared)
      = some found ∧
    (∀ i j, (i, j) ∈ found.pairs ↔ (i, j) ∈ [(0, 2), (1, 0), (2, 2)]) ∧
    found.pairs.Pairwise (Prod.Lex (· < ·) (· < ·)) := by
  obtain ⟨m, hm, hloop⟩ := exists_ok
    (x := Matcher.resolveCondition (.ofTable zeroKeys) (.ofTable numberKeys) (.columns ["k"]))
    (p := fun m => nestedLoop m.joins [0, 1, 2, 3] [0, 1, 2, 3] == [(0, 2), (1, 0), (2, 2)])
    (by decide +kernel)
  obtain ⟨leftKeys, rightKeys, shared, found, rfl, -, hfound, hleft, hright, hpairs, hlex, -⟩ :=
    matches_of_keys ⟨_, .table zeroKeys_wellFormed⟩ ⟨_, .table numberKeys_wellFormed⟩ rfl
      (show JoinCondition.Answers _ _ (.columns ["k"]) from trivial) hm
  have hrows : [0, 1, 2, 3] = found.left ∧ [0, 1, 2, 3] = found.right :=
    ⟨Option.some.inj hleft, Option.some.inj hright⟩
  refine ⟨leftKeys, rightKeys, shared, found, hm, hfound, fun i j => ?_, hlex⟩
  rw [hpairs, ← beq_iff_eq.1 hloop, mem_nestedLoop, ← hrows.1, ← hrows.2]
  simp only [Matcher.joins_keys_iff, exists_and_left]

end ColumnQuery
