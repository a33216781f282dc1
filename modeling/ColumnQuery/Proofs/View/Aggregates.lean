/-
  Aggregate calls over a view.

  Every visible row has a group, and the values of a group are read off its rows alone, in order
  (`groupAnswers`). Fields are plain, so they have values at all rows: aggregate calls that were
  registered always have results (`aggregates_cells`). The calls whose fields have the same trees
  share a reducer, which reads the fields of the first of them, the leader. Rows only come in, so
  the value of a call in a group is the one computed afresh from the leader's fields
  (`lookup_groupAnswers`).
-/
import ColumnQuery.Proofs.Aggregate.Alone
import ColumnQuery.Proofs.View.Windows

namespace ColumnQuery

/-! ## Calls -/

namespace AggregateCall

variable {tables : List Table} {calls : List AggregateCall} {windows : List WindowCall}

/-- The first call whose fields have the same trees. -/
def leader (calls : List AggregateCall) (c : AggregateCall) : AggregateCall :=
  (calls.find? fun d => Node.sameList d.key c.key).getD c

/-- A call by itself is its own leader. -/
theorem leader_singleton (c : AggregateCall) : c.leader [c] = c := by
  unfold leader
  rw [List.find?_singleton]
  split <;> rfl

/-- No call has more parameters than its aggregate takes. -/
theorem fits_reducerCall (h : Registered tables calls windows) :
    ∀ c ∈ calls.map reducerCall, c.op.Fits := by
  intro c hc
  obtain ⟨call, hcall, rfl⟩ := List.mem_map.1 hc
  exact (h.aggregates_suit call hcall).params_length

/-- No aggregate is asked for twice over the same key. -/
theorem differ_reducerCall (h : Registered tables calls windows) :
    (calls.map reducerCall).Pairwise fun d c =>
      Node.sameList d.key c.key = true → d.op.same c.op = false := by
  rw [List.pairwise_map]
  refine h.aggregates_differ.imp fun hdiffer hkey => ?_
  rw [Bool.eq_false_iff]
  intro hsame
  unfold AggregateOp.same at hsame
  rw [Bool.and_eq_true] at hsame
  exact hdiffer ⟨eq_of_beq hsame.1, hkey, hsame.2⟩

end AggregateCall

namespace View

variable {v : View} {key : RowKey} {calls : List AggregateCall} {windows : List WindowCall}

/-! ## Groups -/

/-- Every visible row has a group. -/
theorem Sound.exists_groupOf (hv : v.Sound key) {row : Nat} (hrow : row ∈ v.visible) :
    ∃ g < v.groupCount, v.groupOf row = some g := by
  unfold groupOf groupCount
  cases hgroups : v.groups with
  | none => exact ⟨0, Nat.zero_lt_one, rfl⟩
  | some groups =>
    obtain ⟨-, hnumbers, -⟩ := hv.groups groups hgroups
    obtain ⟨hlt, hshown⟩ := (hv.mem_visible row).1 hrow
    obtain ⟨g, hg⟩ := hnumbers.exists_groupOf hlt hshown
    exact ⟨g, hnumbers.lt_size hg, hg⟩

/-- What the calls answer over the rows of a group. -/
def groupAnswers (calls : List AggregateCall) (rows : List Nat) : Option (List (Nat × Value)) := do
  let reducers := Reducer.build Node.sameList false (calls.map AggregateCall.reducerCall)
  return (← reducers.mapM (groupValues · rows)).flatten

/-- Rows of the table have answers for all calls. -/
theorem Sound.exists_groupAnswers (hv : v.Sound key)
    (hcalls : Registered [v.data] calls windows) {rows : List Nat}
    (hrows : ∀ row ∈ rows, row < v.totalRows) :
    ∃ answers, groupAnswers calls rows = some answers := by
  have hreducers : ∀ r ∈ Reducer.build Node.sameList false (calls.map AggregateCall.reducerCall),
      ∃ part, groupValues r rows = some part := by
    intro r hr
    obtain ⟨-, ⟨c, hc, hfields⟩, -⟩ := Reducer.build_spec Node.equivalence_sameList
      (AggregateCall.fits_reducerCall hcalls) (AggregateCall.differ_reducerCall hcalls) hr
    obtain ⟨call, hcall, rfl⟩ := List.mem_map.1 hc
    have hobserve : ∀ row ∈ rows, ∃ vs, r.observe row = some vs := by
      intro row hrow
      unfold Reducer.observe
      rw [hfields]
      exact hv.exists_evalKey (hcalls.aggregates_suit call hcall).plain (hrows row hrow)
    obtain ⟨observed, hobserved⟩ := exists_mapM r.observe rows hobserve
    exact ⟨_, Option.bind_eq_some_iff.2 ⟨observed, hobserved, rfl⟩⟩
  obtain ⟨parts, hparts⟩ := exists_mapM _ _ hreducers
  exact ⟨_, Option.bind_eq_some_iff.2 ⟨parts, hparts, rfl⟩⟩

/-! ## Values -/

/-- The value of a call over rows, computed afresh from the fields of its leader. -/
def FreshOver (calls : List AggregateCall) (c : AggregateCall) (rows : List Nat) (x : Value) :
    Prop :=
  ∃ observed, rows.mapM (Formula.evalKey (c.leader calls).fields) = some observed ∧
    x = AggregateOp.fresh ⟨c.aggregate, c.params⟩ observed

/-- Whatever is answered for a call is its value computed afresh. -/
theorem freshOver_of_mem (hcalls : Registered [v.data] calls windows) {rows : List Nat}
    {answers : List (Nat × Value)} (h : groupAnswers calls rows = some answers) {n : Nat}
    {x : Value} (hn : (n, x) ∈ answers) :
    ∃ c, calls[n]? = some c ∧ FreshOver calls c rows x := by
  obtain ⟨parts, hparts, hflat⟩ := Option.bind_eq_some_iff.1 h
  obtain rfl : parts.flatten = answers := Option.some.inj hflat
  obtain ⟨part, hpart, hn⟩ := List.mem_flatten.1 hn
  obtain ⟨r, hr, hpart⟩ := mem_of_mapM hparts hpart
  obtain ⟨observed, hobserved, hpart⟩ := Option.bind_eq_some_iff.1 hpart
  obtain rfl := Option.some.inj hpart
  obtain ⟨⟨index, place⟩, houtput, heq⟩ := List.mem_map.1 hn
  obtain ⟨rfl, rfl⟩ := Prod.mk.injEq .. ▸ heq
  obtain ⟨hordered, -, houtputs⟩ := Reducer.build_spec Node.equivalence_sameList
    (AggregateCall.fits_reducerCall hcalls) (AggregateCall.differ_reducerCall hcalls) hr
  obtain ⟨call, leader, hcall, hleader, hfields, hop⟩ := houtputs index place houtput
  rw [List.getElem?_map] at hcall
  obtain ⟨c, hc, rfl⟩ := Option.map_eq_some_iff.1 hcall
  -- the leader among the calls of reducers is the leader among the calls
  have hown : leader.fields = (c.leader calls).fields := by
    rw [List.find?_map] at hleader
    obtain ⟨d, hd, rfl⟩ := Option.map_eq_some_iff.1 hleader
    have hfind : calls.find? (fun d => Node.sameList d.key c.key) = some d := hd
    unfold AggregateCall.leader
    rw [hfind]
    rfl
  refine ⟨c, hc, observed, ?_, Reducer.valueAt_addAll_eq_fresh hordered hop observed⟩
  rw [← hown, ← hfields]
  exact hobserved

/-- What a group answers for a call is its value computed afresh. -/
theorem lookup_groupAnswers (hcalls : Registered [v.data] calls windows) {rows : List Nat}
    {answers : List (Nat × Value)} (h : groupAnswers calls rows = some answers) {n : Nat}
    {c : AggregateCall} (hc : calls[n]? = some c) :
    ∃ x, answers.lookup n = some x ∧ FreshOver calls c rows x := by
  have hcall : (calls.map AggregateCall.reducerCall)[n]? = some c.reducerCall := by
    rw [List.getElem?_map, hc]
    rfl
  obtain ⟨r, hr, place, houtput⟩ := Reducer.exists_output_of_call false Node.equivalence_sameList
    (AggregateCall.fits_reducerCall hcalls) hcall
  -- the reducer answers for the call, so the look-up finds an answer
  obtain ⟨parts, hparts, hflat⟩ := Option.bind_eq_some_iff.1 h
  obtain rfl : parts.flatten = answers := Option.some.inj hflat
  obtain ⟨part, hpart, hvalues⟩ := exists_of_mapM hparts hr
  obtain ⟨observed, -, hvalues⟩ := Option.bind_eq_some_iff.1 hvalues
  obtain rfl := Option.some.inj hvalues
  have hmem : (n, r.valueAt (r.addAll r.start observed) place) ∈ parts.flatten :=
    List.mem_flatten.2 ⟨_, hpart, List.mem_map.2 ⟨(n, place), houtput, rfl⟩⟩
  obtain ⟨x, hx, hin⟩ := exists_lookup_of_mem hmem
  obtain ⟨d, hd, hfresh⟩ := freshOver_of_mem hcalls h hin
  obtain rfl : c = d := Option.some.inj (hc.symm.trans hd)
  exact ⟨x, hx, hfresh⟩

/-! ## Results -/

/-- The rows of a group, in order. -/
def groupRows (v : View) (rows : List Nat) (g : Nat) : List Nat :=
  rows.filter (v.groupOf · == some g)

theorem groupRows_mem_partitions {rows : List Nat} {parts : List (List Nat)} {g : Nat}
    (hrows : v.sorted = some rows) (hparts : v.partitions true = some parts)
    (hg : g < v.groupCount) : v.groupRows rows g ∈ parts := by
  have hindices : v.indices true = some rows := hrows
  unfold partitions at hparts
  rw [hindices] at hparts
  obtain rfl : v.split rows = parts := Option.some.inj hparts
  exact List.mem_map.2 ⟨g, List.mem_range.2 hg, rfl⟩

/-- Registered aggregate calls have results, and the cell of a group is what its rows answer. -/
theorem Sound.aggregates_cells (hv : v.Sound key) (hcalls : Registered [v.data] calls windows) :
    ∃ rows results, v.sorted = some rows ∧ v.aggregates calls = some results ∧
      results.length = calls.length ∧
      ∀ g < v.groupCount, ∃ answers, groupAnswers calls (v.groupRows rows g) = some answers ∧
        ∀ n < calls.length, ∃ cells, results[n]? = some cells ∧
          cells[g]? = some (.ofOption (answers.lookup n)) := by
  obtain ⟨rows, hrows, hperm⟩ := hv.exists_sorted
  have hlt : ∀ g, ∀ row ∈ v.groupRows rows g, row < v.totalRows := fun g row hrow =>
    hv.lt_of_sorted hrows (List.mem_filter.1 hrow).1
  have hanswers : ∀ g, ∃ answers, groupAnswers calls (v.groupRows rows g) = some answers :=
    fun g => hv.exists_groupAnswers hcalls (hlt g)
  cases hempty : calls.isEmpty with
  | true =>
    rw [List.isEmpty_iff.1 hempty]
    refine ⟨rows, [], hrows, rfl, rfl, fun g _ => ⟨[], rfl, fun n hn => ?_⟩⟩
    exact absurd hn (Nat.not_lt_zero n)
  | false =>
    have hgrouped : (rows.all fun row => (v.groupOf row).isSome) = true := by
      rw [List.all_eq_true]
      intro row hrow
      obtain ⟨g, -, hg⟩ := hv.exists_groupOf (hperm.mem_iff.1 hrow)
      rw [hg]
      rfl
    obtain ⟨groups, hgroups⟩ := exists_mapM (groupAnswers calls) (v.split rows) fun part hpart => by
      obtain ⟨g, -, rfl⟩ := List.mem_map.1 hpart
      exact hanswers g
    have hresults : v.aggregates calls = some ((List.range calls.length).map fun n =>
        groups.map fun answers => .ofOption (answers.lookup n)) := by
      unfold aggregates
      rw [if_neg (by rw [hempty]; exact Bool.false_ne_true), hrows, Option.bind_eq_bind,
        Option.bind_some, guard, if_pos hgrouped]
      exact Option.bind_eq_some_iff.2 ⟨(), rfl, Option.bind_eq_some_iff.2 ⟨groups, hgroups, rfl⟩⟩
    refine ⟨rows, _, hrows, hresults, by rw [List.length_map, List.length_range],
      fun g hg => ?_⟩
    obtain ⟨answers, hg'⟩ := hanswers g
    refine ⟨answers, hg', fun n hn =>
      ⟨groups.map fun answers => .ofOption (answers.lookup n), ?_, ?_⟩⟩
    · rw [List.getElem?_map, List.getElem?_range hn]
      rfl
    · have hpart : (v.split rows)[g]? = some (v.groupRows rows g) := by
        unfold split groupRows
        rw [List.getElem?_map, List.getElem?_range hg]
        rfl
      rw [List.getElem?_map, getElem?_of_mapM hgroups g, hpart, Option.bind_some, hg']
      rfl

end View

end ColumnQuery
