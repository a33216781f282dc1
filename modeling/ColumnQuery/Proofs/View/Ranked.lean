/-
  Ranks over a view.

  The rows of a partition stand in the order of the view, and where the view has no order they stand
  as in the table (`Sound.partition_sorted`). Its peers are the rows that tie in this comparison
  (`peers_eq_ofTies`). So the ranking functions, which read the start, the end and the number of the
  class of a row, give every visible row counts over its partition: of the rows before it, of those
  not after it, and of the classes before it (`ranks_of_reachable`).
-/
import ColumnQuery.Proofs.Overlay.Sorted
import ColumnQuery.Proofs.View.Among
import ColumnQuery.Proofs.View.Rolling
import ColumnQuery.Proofs.Window.Ranks

namespace ColumnQuery

namespace View

variable {v : View} {key : RowKey} {aggregates : List AggregateCall} {calls : List WindowCall}
  {parts : List (List Nat)} {rows : List Nat}

/-! ## Rows in the order of the view -/

/-- Two rows in the order of the view; without an order, as they stand in the table. -/
def compareRows (v : View) : Nat → Nat → Ordering :=
  match v.order with
  | some o => o.compare
  | none => compare

instance transCmp_compareRows (v : View) : Std.TransCmp v.compareRows := by
  unfold compareRows
  cases v.order with
  | none => exact inferInstanceAs (Std.TransCmp (compare : Nat → Nat → Ordering))
  | some o => exact RowOrder.transCmp_compare o

/-- Rows that tie in the order of the view stand as in the table. -/
theorem Sound.partition_sorted (hv : v.Sound key) (hparts : v.partitions true = some parts)
    (hrows : rows ∈ parts) :
    rows.Pairwise fun a b => v.compareRows a b = .lt ∨ v.compareRows a b = .eq ∧ a < b := by
  obtain ⟨sorted, hsorted, rfl⟩ := Option.map_eq_some_iff.1 hparts
  obtain ⟨g, -, rfl⟩ := List.mem_map.1 hrows
  refine List.Pairwise.filter _ ?_
  have hsorted : v.sorted = some sorted := hsorted
  unfold View.sorted at hsorted
  unfold compareRows
  cases horder : v.order with
  | none =>
    rw [horder] at hsorted
    obtain rfl := Option.some.inj hsorted
    exact hv.pairwise_visible.imp fun hlt => .inl (Nat.compare_eq_lt.2 hlt)
  | some o =>
    rw [horder] at hsorted
    obtain rfl : o.sort v.visible = sorted := Option.some.inj
      (((hv.order o horder).sort?_eq fun _ hrow => hv.lt_of_visible hrow).symm.trans hsorted)
    exact o.pairwise_sort hv.pairwise_visible

theorem Sound.partition_ascends (hv : v.Sound key) (hparts : v.partitions true = some parts)
    (hrows : rows ∈ parts) : rows.Pairwise fun a b => (v.compareRows a b).isLE = true := by
  refine (hv.partition_sorted hparts hrows).imp ?_
  rintro a b (hlt | ⟨heq, -⟩)
  · rw [hlt]
    rfl
  · rw [heq]
    rfl

/-- Partitions are split from the visible rows as they stand in the order of the view. -/
theorem Sound.partitions_of_sorted (hv : v.Sound key) (hperm : rows.Perm v.visible)
    (hsorted : rows.Pairwise fun a b => v.compareRows a b = .lt ∨ v.compareRows a b = .eq ∧ a < b) :
    v.partitions true = some (v.split rows) := by
  have hrows : v.sorted = some rows := by
    unfold View.sorted
    unfold compareRows at hsorted
    cases horder : v.order with
    | none =>
      rw [horder] at hsorted
      refine congrArg some (hperm.symm.eq_of_pairwise (fun a b _ _ hab hba => by omega)
        hv.pairwise_visible (hsorted.imp fun {a b} h => ?_))
      rw [Nat.compare_eq_lt, Nat.compare_eq_eq] at h
      omega
    | some o =>
      rw [horder] at hsorted
      exact ((hv.order o horder).sort?_eq fun _ hrow => hv.lt_of_visible hrow).trans
        (congrArg some (o.sort_eq_of_pairwise hv.pairwise_visible hperm.symm hsorted))
  show v.sorted.map v.split = _
  rw [hrows]
  rfl

/-- Without an order the rows of a partition are compared by their positions alone. -/
theorem Sound.compareRows_of_unordered (hv : v.Sound key) (hparts : v.partitions true = some parts)
    (hrows : rows ∈ parts) (horder : v.order = none) {i j a b : Nat} (ha : rows[i]? = some a)
    (hb : rows[j]? = some b) : v.compareRows a b = compare i j := by
  have hcompare : v.compareRows = compare := by
    unfold compareRows
    rw [horder]
  have hpairwise : rows.Pairwise (· < ·) := (hv.partition_sorted hparts hrows).imp fun h => by
    rw [hcompare, Nat.compare_eq_lt, Nat.compare_eq_eq] at h
    omega
  obtain ⟨hi, rfl⟩ := List.getElem?_eq_some_iff.1 ha
  obtain ⟨hj, rfl⟩ := List.getElem?_eq_some_iff.1 hb
  rw [hcompare]
  rcases Nat.lt_trichotomy i j with hlt | rfl | hgt
  · have hbefore := List.pairwise_iff_getElem.1 hpairwise i j hi hj hlt
    rw [Nat.compare_eq_lt.2 hlt, Nat.compare_eq_lt.2 hbefore]
  · rw [Nat.compare_eq_eq.2 rfl, Nat.compare_eq_eq.2 rfl]
  · have hbehind := List.pairwise_iff_getElem.1 hpairwise j i hj hi hgt
    rw [Nat.compare_eq_gt.2 hgt, Nat.compare_eq_gt.2 hbehind]

/-- The peers of a partition are the rows that tie. -/
theorem Sound.peers_eq_ofTies (hv : v.Sound key) (hparts : v.partitions true = some parts)
    (hrows : rows ∈ parts) : v.peers rows = .ofTies (v.compareRows · · == .eq) rows := by
  have hsorted := hv.partition_sorted hparts hrows
  unfold peers
  unfold compareRows at hsorted ⊢
  cases horder : v.order with
  | some o => rfl
  | none =>
    rw [horder] at hsorted
    refine (Peers.ofTies_of_apart (hsorted.imp fun {a b} h => ?_)).symm
    rw [Nat.compare_eq_lt, Nat.compare_eq_eq] at h
    rw [beq_eq_false_iff_ne, ne_eq, Nat.compare_eq_eq]
    omega

/-! ## Window calls -/

/-- The result of a window call at a row is what its partition answers for its position. -/
theorem Sound.windowAt?_eq (hv : v.Sound key) (hcalls : Registered [v.data] aggregates calls)
    (hparts : v.partitions true = some parts) (hrows : rows ∈ parts) (hne : rows ≠ []) :
    ∃ entries, v.partitionValues calls rows = some entries ∧ ∀ n < calls.length, ∀ i row,
      rows[i]? = some row → v.windowAt? calls n row = some (answerAt entries n i) := by
  obtain ⟨parts', results, hparts', hresults, -, hcells⟩ := hv.windows_cells hcalls
  obtain rfl : parts = parts' := Option.some.inj (hparts.symm.trans hparts')
  obtain ⟨entries, hentries, hcells⟩ := hcells rows hrows hne
  refine ⟨entries, hentries, fun n hn i row hrow => ?_⟩
  obtain ⟨cells, hn, hcells⟩ := hcells n hn
  unfold windowAt?
  rw [hresults, Option.bind_eq_bind, Option.bind_some, hn, Option.bind_eq_bind, Option.bind_some,
    hcells i row hrow]

/-- The results of a window function over a partition are its values. -/
theorem Sound.windowAt?_function (hv : v.Sound key) (hcalls : Registered [v.data] aggregates calls)
    (hparts : v.partitions true = some parts) (hrows : rows ∈ parts) (hne : rows ≠ []) {n : Nat}
    {call : WindowCall} {f : WindowFunction} (hcall : calls[n]? = some call)
    (hf : call.operator = .function f) : ∃ field : Array Value, ∀ i row : Nat, rows[i]? = some row →
      v.windowAt? calls n row = some ((f.values call.params (v.peers rows)
        (call.frame.allBounds (v.peers rows)) field)[i]?.getD .null) := by
  obtain ⟨entries, hentries, hanswer⟩ := hv.windowAt?_eq hcalls hparts hrows hne
  obtain ⟨values, hvalues, fields, -, rfl⟩ := lookup_function hcalls hentries hcall hf
  refine ⟨(fields.head?.getD []).toArray, fun i row hrow => ?_⟩
  rw [hanswer n (List.getElem?_eq_some_iff.1 hcall).1 i row hrow, answerAt, hvalues,
    Option.getD_some]

/-- The ranking functions over a reachable view. In every partition a row has its position, the
    number of rows before it, the number of classes before it, the middle of its class, and the
    shares of the rows before it and of those not after it. -/
theorem ranks_of_reachable {v : View} (hv : Reachable v) {exprs : List (String × ExprSpec)}
    {options : ResolveOptions} {r : Resolution} (hr : v.resolve exprs options = .ok r) :
    ∃ parts, v.partitions true = some parts ∧ ∀ rows ∈ parts,
      (v.order = none → ∀ i j a b : Nat, rows[i]? = some a → rows[j]? = some b →
        v.compareRows a b = compare i j) ∧
      ∀ (i row n : Nat) call f, rows[i]? = some row → r.windows[n]? = some call →
        call.operator = .function f →
        ∃ x, v.windowAt? r.windows n row = some x ∧ RankedAs v.compareRows rows i row x f := by
  obtain ⟨key, hreach⟩ := hv
  have hsound := sound_of_reachable hreach
  have hcalls : Registered [v.data] r.aggregates r.windows := registered_of_resolve hr
  obtain ⟨parts, hparts, -⟩ := hsound.partitions_spec
  refine ⟨parts, hparts, fun rows hrows => ⟨?_, fun i row n call f hrow hcall hf => ?_⟩⟩
  · exact fun horder i j a b ha hb => hsound.compareRows_of_unordered hparts hrows horder ha hb
  have hne : rows ≠ [] := by
    rintro rfl
    cases hrow
  obtain ⟨field, hvalue⟩ := hsound.windowAt?_function hcalls hparts hrows hne hcall hf
  refine ⟨_, hvalue i row hrow, ?_⟩
  rw [hsound.peers_eq_ofTies hparts hrows]
  exact rankedAs_values (hsound.partition_ascends hparts hrows) hrow f

/-- An ordered table has one partition: its rows, sorted. -/
theorem partitions_orderBy {t : Table} (ht : t.WellFormed) {keys : List OrderBy} {w : View}
    (hw : (View.ofTable t).orderBy keys = .ok w) (hperm : rows.Perm w.visible)
    (hsorted : rows.Pairwise fun a b => w.compareRows a b = .lt ∨ w.compareRows a b = .eq ∧ a < b) :
    Reachable w ∧ w.partitions true = some (w.split rows) := by
  have hreach := ReachableWith.step (.orderBy keys) [] (.table ht) (by simp) rfl trivial hw
  exact ⟨⟨_, hreach⟩, (sound_of_reachable hreach).partitions_of_sorted hperm hsorted⟩

/-- A number twice, a smaller one, and a row without one. -/
def scores : Table :=
  ⟨[("x", .ofValues [.number 20.0, .number 10.0, .number 20.0, .null])], 4⟩

theorem scores_wellFormed : scores.WellFormed :=
  Table.wellFormed_ofValues [("x", [.number 20.0, .number 10.0, .number 20.0, .null])] rfl

def rankings : List WindowFunction :=
  [.rowNumber, .rank, .denseRank, .avgRank, .percentRank, .cumeDist]

def rankingExprs : List (String × ExprSpec) :=
  rankings.map fun f => (f.name, .tree (.call (.identifier f.name) []))

/-- The second of the two tied rows is the third of four, behind one row and one class. -/
theorem ranks_of_reachable_scores : ∃ w r,
    (View.ofTable scores).orderBy [⟨.column "x", false⟩] = .ok w ∧ Reachable w ∧
    w.resolve rankingExprs .derive = .ok r ∧
    w.windowAt? r.windows 0 2 = some (.ofNat 3) ∧ w.windowAt? r.windows 1 2 = some (.ofNat 2) ∧
    w.windowAt? r.windows 2 2 = some (.ofNat 2) ∧
    w.windowAt? r.windows 3 2 = some (.number (Number.ofNat 5 / 2.0)) ∧
    w.windowAt? r.windows 4 2 = some (.number (Number.ofNat 1 / Number.ofNat 3)) ∧
    w.windowAt? r.windows 5 2 = some (.number (Number.ofNat 3 / Number.ofNat 4)) := by
  obtain ⟨⟨w, r⟩, hrun, hseen⟩ := exists_ok
    (x := do
      let w ← (View.ofTable scores).orderBy [⟨.column "x", false⟩]
      let r ← w.resolve rankingExprs .derive
      return (w, r))
    (p := fun (w, r) => w.visible == [0, 1, 2, 3] && w.split [1, 0, 2, 3] == [[1, 0, 2, 3]] &&
      decide ([1, 0, 2, 3].Pairwise fun a b =>
        w.compareRows a b = .lt ∨ w.compareRows a b = .eq ∧ a < b) &&
      r.windows.map (·.operator) == rankings.map .function &&
      [1, 0, 2, 3].map (w.compareRows · 2) == [.lt, .eq, .eq, .gt] &&
      Peers.classesBefore w.compareRows [1, 0, 2, 3] 2 == 1)
    (by decide +kernel)
  obtain ⟨w', hw, hrun⟩ := bind_eq_ok hrun
  obtain ⟨r', hr, hrun⟩ := bind_eq_ok hrun
  cases hrun
  simp only [Bool.and_eq_true, beq_iff_eq, decide_eq_true_eq] at hseen
  obtain ⟨⟨⟨⟨⟨hvisible, hsplit⟩, hsorted⟩, hoperators⟩, hcompare⟩, hclasses⟩ := hseen
  have hperm : [1, 0, 2, 3].Perm w.visible := by
    rw [hvisible]
    decide
  obtain ⟨hreach, hpartitions⟩ := partitions_orderBy scores_wellFormed hw hperm hsorted
  obtain ⟨parts, hparts, hranks⟩ := ranks_of_reachable hreach hr
  obtain rfl : [[1, 0, 2, 3]] = parts :=
    Option.some.inj ((hpartitions.trans (congrArg some hsplit)).symm.trans hparts)
  obtain ⟨-, hranks⟩ := hranks [1, 0, 2, 3] List.mem_cons_self
  have hranked : ∀ n f, rankings[n]? = some f → ∃ x, w.windowAt? r.windows n 2 = some x ∧
      RankedAs w.compareRows [1, 0, 2, 3] 2 2 x f := by
    intro n f hf
    have hoperator : (r.windows.map (·.operator))[n]? = some (.function f) := by
      rw [hoperators, List.getElem?_map, hf]
      rfl
    rw [List.getElem?_map] at hoperator
    obtain ⟨call, hcall, hf⟩ := Option.map_eq_some_iff.1 hoperator
    exact hranks 2 2 n call f rfl hcall hf
  simp only [List.map_cons, List.map_nil, List.cons.injEq, and_true] at hcompare
  obtain ⟨h1, h0, h2, h3⟩ := hcompare
  have hbefore : [1, 0, 2, 3].countP (w.compareRows · 2 == .lt) = 1 := by
    simp [h0, h1, h2, h3]
  have hupTo : [1, 0, 2, 3].countP (fun b => (w.compareRows b 2).isLE) = 3 := by
    simp [h0, h1, h2, h3]
  obtain ⟨x0, hx0, hrank0⟩ := hranked 0 _ rfl
  obtain ⟨x1, hx1, hrank1⟩ := hranked 1 _ rfl
  obtain ⟨x2, hx2, hrank2⟩ := hranked 2 _ rfl
  obtain ⟨x3, hx3, first, last, hbetween, hrank3⟩ := hranked 3 _ rfl
  obtain ⟨x4, hx4, hrank4⟩ := hranked 4 _ rfl
  obtain ⟨x5, hx5, hrank5⟩ := hranked 5 _ rfl
  -- the class of the row is read off the comparisons of the four rows with it
  have hlast : last < 4 := hbetween.inside
  have hordered := hbetween.ordered
  have htied0 := hbetween.tied 0 1 rfl
  have htied1 := hbetween.tied 1 0 rfl
  have htied2 := hbetween.tied 2 2 rfl
  have htied3 := hbetween.tied 3 3 rfl
  rw [h1] at htied0
  rw [h0] at htied1
  rw [h2] at htied2
  rw [h3] at htied3
  simp only [reduceCtorEq, true_iff, false_iff] at htied0 htied1 htied2 htied3
  obtain rfl : first = 1 := by omega
  obtain rfl : last = 2 := by omega
  simp only [RankedAs, hbefore, hupTo, hclasses] at hrank0 hrank1 hrank2 hrank4 hrank5
  subst hrank0 hrank1 hrank2 hrank3 hrank4 hrank5
  exact ⟨w, r, hw, hreach, hr, hx0, hx1, hx2, hx3, hx4, hx5⟩

end View

end ColumnQuery
