/-
  Calls among others.

  The results of calls are computed together, and a reducer reads the fields of the first of its
  calls, the leader. So among others an aggregate is computed from the fields of its leader
  (`among`); a window function has fields of its own. Apart from that the others do not matter, nor
  do the trees of the fields: calls of one operator with the same parameters and the same frame
  that are computed from the same fields have the same results, whichever calls they stand among
  (`Sound.read_alike`). In particular a call has the results that the call over the fields of its
  leader has by itself (`Sound.read_among`).

  What calls are compared by tells them apart if their trees tell their fields and if they do not
  differ in the signs of zeros alone (`ToldApart`). Then the fields of a leader are those of the
  call, and calls that are the same are alike (`alike_of_same`).
-/
import ColumnQuery.Proofs.Formula.Beside
import ColumnQuery.Proofs.Formula.FieldTrees
import ColumnQuery.Proofs.View.Computed

namespace ColumnQuery

/-! ## The fields that a call is computed from -/

namespace AggregateCall

variable {tables : List Table} {calls : List AggregateCall} {windows : List WindowCall}
  {c : AggregateCall}

/-- The call over the fields that it is computed from among others. -/
def among (calls : List AggregateCall) (c : AggregateCall) : AggregateCall :=
  { c with fields := (c.leader calls).fields }

theorem among_singleton (c : AggregateCall) : c.among [c] = c := by
  unfold among
  rw [leader_singleton]

/-- The same but for the trees of the fields. -/
def Alike (c d : AggregateCall) : Prop :=
  c.aggregate = d.aggregate ∧ c.fields = d.fields ∧ c.params = d.params

/-- The leader of a call is a call with the same trees. -/
theorem leader_spec (hc : c ∈ calls) :
    c.leader calls ∈ calls ∧ Node.sameList (c.leader calls).key c.key = true := by
  unfold leader
  cases hfind : calls.find? fun d => Node.sameList d.key c.key with
  | none => exact absurd (Node.equivalence_sameList.refl c.key) (List.find?_eq_none.1 hfind c hc)
  | some d =>
    have hkey := List.find?_some hfind
    exact ⟨List.mem_of_find?_eq_some hfind, hkey⟩

theorem suits_among (hcalls : Registered tables calls windows) (hc : c ∈ calls) :
    (c.among calls).Suits tables := by
  obtain ⟨hleader, hkey⟩ := leader_spec hc
  have hown := hcalls.aggregates_suit c hc
  have hled := hcalls.aggregates_suit _ hleader
  have hlength : (c.leader calls).fields.length = c.fields.length := by
    rw [← hled.key_length, Node.length_eq_of_sameList hkey, hown.key_length]
  exact ⟨hled.plain, hlength.trans hown.fields_length, hown.key_length.trans hlength.symm,
    hown.params_length⟩

end AggregateCall

namespace WindowCall

variable {tables : List Table} {aggregates : List AggregateCall} {calls : List WindowCall}
  {c : WindowCall}

/-- The call over the fields that it is computed from among others. -/
def among (calls : List WindowCall) (c : WindowCall) : WindowCall :=
  { c with fields := match c.operator with
    | .aggregate _ => (c.leader calls).fields
    | .function _ => c.fields }

theorem among_aggregate {a : Aggregate} (ha : c.operator = .aggregate a) :
    c.among calls = { c with fields := (c.leader calls).fields } := by
  unfold among
  rw [ha]

theorem among_function {f : WindowFunction} (hf : c.operator = .function f) :
    c.among calls = c := by
  cases c
  cases hf
  rfl

theorem among_singleton (c : WindowCall) : c.among [c] = c := by
  cases hoperator : c.operator with
  | aggregate a => rw [among_aggregate hoperator, leader_singleton]
  | function f => exact among_function hoperator

@[simp] theorem operator_among (calls : List WindowCall) (c : WindowCall) :
    (c.among calls).operator = c.operator := rfl

/-- The same but for the trees of the fields. -/
def Alike (c d : WindowCall) : Prop :=
  c.operator = d.operator ∧ c.fields = d.fields ∧ c.params = d.params ∧ c.frame = d.frame

theorem suits_among (hcalls : Registered tables aggregates calls) (hc : c ∈ calls) :
    (c.among calls).Suits tables := by
  have hown := hcalls.windows_suit c hc
  cases hoperator : c.operator with
  | function f =>
    rw [among_function hoperator]
    exact hown
  | aggregate a =>
    obtain ⟨hleader, -, hkey⟩ := leader_spec hc hoperator
    have hled := hcalls.windows_suit _ hleader
    have hlength : (c.leader calls).fields.length = c.fields.length := by
      rw [← hled.key_length, Node.length_eq_of_sameList hkey, hown.key_length]
    rw [among_aggregate hoperator]
    exact ⟨hled.plain, hlength.trans hown.fields_length, hown.key_length.trans hlength.symm,
      hown.params_length⟩

end WindowCall

namespace OperatorCall

/-- The call over the fields that it is computed from among the calls of a resolution. -/
def among (r : Resolution) : OperatorCall → OperatorCall
  | .aggregate c => .aggregate (c.among r.aggregates)
  | .window c => .window (c.among r.windows)

/-- The same but for the trees of the fields. -/
def Alike : OperatorCall → OperatorCall → Prop
  | .aggregate c, .aggregate d => c.Alike d
  | .window c, .window d => c.Alike d
  | _, _ => False

/-- A resolution with a call, and nothing else. -/
def only : OperatorCall → Resolution
  | .aggregate c => ⟨[], [c], [], false⟩
  | .window c => ⟨[], [], [c], false⟩

/-- The place of the only call. -/
def ref : OperatorCall → OpRef
  | .aggregate _ => .aggregate 0
  | .window _ => .window 0

theorem call?_only (c : OperatorCall) : c.only.call? c.ref = some c := by
  cases c <;> rfl

theorem among_only (c : OperatorCall) : c.among c.only = c := by
  cases c with
  | aggregate c => exact congrArg aggregate c.among_singleton
  | window c => exact congrArg window c.among_singleton

theorem Alike.refl (c : OperatorCall) : c.Alike c := by
  cases c with
  | aggregate c => exact ⟨rfl, rfl, rfl⟩
  | window c => exact ⟨rfl, rfl, rfl, rfl⟩

theorem registered_only {tables : List Table} {c : OperatorCall} (h : c.Suits tables) :
    Registered tables c.only.aggregates c.only.windows := by
  cases c with
  | aggregate c =>
    exact ⟨List.forall_mem_singleton.2 h, List.pairwise_singleton _ _, by simp [only], .nil⟩
  | window c =>
    exact ⟨by simp [only], .nil, List.forall_mem_singleton.2 h, List.pairwise_singleton _ _⟩

theorem suits_among {tables : List Table} {r : Resolution}
    (hcalls : Registered tables r.aggregates r.windows) {ref : OpRef} {c : OperatorCall}
    (hc : r.call? ref = some c) : (c.among r).Suits tables := by
  cases ref with
  | aggregate n =>
    obtain ⟨a, ha, rfl⟩ := Option.map_eq_some_iff.1 hc
    exact AggregateCall.suits_among hcalls (List.mem_of_getElem? ha)
  | window n =>
    obtain ⟨w, hw, rfl⟩ := Option.map_eq_some_iff.1 hc
    exact WindowCall.suits_among hcalls (List.mem_of_getElem? hw)

end OperatorCall

/-! ## Calls that are told apart -/

section ToldApart

variable {ctx : ResolveContext} {own r : Resolution}

theorem AggregateCall.told_among {calls : List AggregateCall} {c : AggregateCall}
    (htold : ∀ d ∈ calls, List.Forall₂ (Resolve.Told ctx) d.fields d.key)
    (hkeys : ∀ d ∈ calls, Node.sameList d.key c.key = true → d.key = c.key) (hc : c ∈ calls) :
    List.Forall₂ (Resolve.Told ctx) (c.among calls).fields c.key := by
  obtain ⟨hleader, hkey⟩ := leader_spec hc
  have hled := htold _ hleader
  rw [hkeys _ hleader hkey] at hled
  exact hled

theorem WindowCall.told_among {calls : List WindowCall} {c : WindowCall}
    (htold : ∀ d ∈ calls, List.Forall₂ (Resolve.Told ctx) d.fields d.key)
    (hkeys : ∀ d ∈ calls, Node.sameList d.key c.key = true → d.key = c.key) (hc : c ∈ calls) :
    List.Forall₂ (Resolve.Told ctx) (c.among calls).fields c.key := by
  cases hoperator : c.operator with
  | function f =>
    rw [among_function hoperator]
    exact htold c hc
  | aggregate a =>
    obtain ⟨hleader, -, hkey⟩ := leader_spec hc hoperator
    have hled := htold _ hleader
    rw [hkeys _ hleader hkey] at hled
    rw [among_aggregate hoperator]
    exact hled

namespace OperatorCall

def key : OperatorCall → List Node
  | .aggregate c => c.key
  | .window c => c.key

def params : OperatorCall → List Value
  | .aggregate c => c.params
  | .window c => c.params

def fields : OperatorCall → List Formula
  | .aggregate c => c.fields
  | .window c => c.fields

theorem Same.key {c d : OperatorCall} (h : c.Same d) : Node.sameList c.key d.key = true := by
  cases c <;> cases d
  case aggregate.aggregate | window.window => exact h.2.1
  all_goals cases h

theorem Same.params {c d : OperatorCall} (h : c.Same d) :
    Value.sameItems c.params d.params = true := by
  cases c <;> cases d
  case aggregate.aggregate => exact h.2.2
  case window.window => exact h.2.2.1
  all_goals cases h

/-- Calls that are told apart by what they are compared by: the trees of their fields tell the
    fields, and no two of them differ only in the signs of zeros. -/
structure ToldApart (calls : List OperatorCall) : Prop where
  plain : ∀ c ∈ calls, ∀ t ∈ c.key, t.plainMathKeys = true
  keys : ∀ c ∈ calls, ∀ d ∈ calls, Node.sameList c.key d.key = true → c.key = d.key
  params : ∀ c ∈ calls, ∀ d ∈ calls, Value.sameItems c.params d.params = true →
    c.params = d.params

end OperatorCall

/-- All calls of a resolution. -/
def Resolution.calls (r : Resolution) : List OperatorCall :=
  r.aggregates.map .aggregate ++ r.windows.map .window

theorem Resolution.mem_calls {ref : OpRef} {c : OperatorCall} (h : r.call? ref = some c) :
    c ∈ r.calls := by
  cases ref with
  | aggregate n =>
    obtain ⟨a, ha, rfl⟩ := Option.map_eq_some_iff.1 h
    exact List.mem_append_left _ (List.mem_map_of_mem (List.mem_of_getElem? ha))
  | window n =>
    obtain ⟨w, hw, rfl⟩ := Option.map_eq_some_iff.1 h
    exact List.mem_append_right _ (List.mem_map_of_mem (List.mem_of_getElem? hw))

namespace OperatorCall

theorem told_among (htold : Resolve.CallsTold ctx r.aggregates r.windows) {ref : OpRef}
    {c : OperatorCall} (hc : r.call? ref = some c)
    (hkeys : ∀ d ∈ r.calls, Node.sameList d.key c.key = true → d.key = c.key) :
    List.Forall₂ (Resolve.Told ctx) (c.among r).fields c.key := by
  cases ref with
  | aggregate n =>
    obtain ⟨a, ha, rfl⟩ := Option.map_eq_some_iff.1 hc
    refine AggregateCall.told_among htold.aggregates (fun d hd => ?_) (List.mem_of_getElem? ha)
    exact hkeys (.aggregate d) (List.mem_append_left _ (List.mem_map_of_mem hd))
  | window n =>
    obtain ⟨w, hw, rfl⟩ := Option.map_eq_some_iff.1 hc
    refine WindowCall.told_among htold.windows (fun d hd => ?_) (List.mem_of_getElem? hw)
    exact hkeys (.window d) (List.mem_append_right _ (List.mem_map_of_mem hd))

/-- Calls that are told apart are the same only if they are computed from the same fields and have
    the same parameters. -/
theorem alike_of_same (hown : Resolve.CallsTold ctx own.aggregates own.windows)
    (hr : Resolve.CallsTold ctx r.aggregates r.windows) (hapart : ToldApart (own.calls ++ r.calls))
    {ref ref' : OpRef} {c d : OperatorCall} (hc : own.call? ref = some c)
    (hd : r.call? ref' = some d) (hsame : d.Same c) : (c.among own).Alike (d.among r) := by
  have hleft : ∀ {e : OperatorCall}, e ∈ own.calls → e ∈ own.calls ++ r.calls :=
    List.mem_append_left _
  have hright : ∀ {e : OperatorCall}, e ∈ r.calls → e ∈ own.calls ++ r.calls :=
    List.mem_append_right _
  have hmemc := hleft (Resolution.mem_calls hc)
  have hmemd := hright (Resolution.mem_calls hd)
  have hkey : d.key = c.key := hapart.keys d hmemd c hmemc hsame.key
  have hparams : d.params = c.params := hapart.params d hmemd c hmemc hsame.params
  have htold := told_among hown hc fun e he => hapart.keys e (hleft he) c hmemc
  have htold' := told_among hr hd fun e he => hapart.keys e (hright he) d hmemd
  rw [hkey] at htold'
  have hfields := Resolve.eq_of_told htold htold' (hapart.plain c hmemc)
  cases c with
  | aggregate c =>
    cases d with
    | aggregate d => exact ⟨hsame.1.symm, hfields, hparams.symm⟩
    | window d => cases hsame
  | window c =>
    cases d with
    | aggregate d => cases hsame
    | window d => exact ⟨hsame.1.symm, hfields, hparams.symm, hsame.2.2.2.symm⟩

end OperatorCall

/-- Where calls are told apart, those that an expression shares with others are alike. -/
theorem Together.alike {e : String × ExprSpec} {f : NamedFormula} {formula : Formula}
    {place : OpRef → OpRef} (h : Together ctx r e f own formula place)
    (hr : Resolve.CallsTold ctx r.aggregates r.windows)
    (hapart : OperatorCall.ToldApart (own.calls ++ r.calls)) (ref : OpRef) (c d : OperatorCall)
    (hc : own.call? ref = some c) (hd : r.call? (place ref) = some d) :
    (c.among own).Alike (d.among r) := by
  obtain ⟨d', hd', hsame⟩ := h.shared ref c hc
  obtain rfl : d = d' := Option.some.inj (hd.symm.trans hd')
  exact OperatorCall.alike_of_same (callsTold_of_resolve h.alone) hr hapart hc hd hsame

end ToldApart

namespace View

variable {v : View} {key : RowKey} {aggregates aggregates' : List AggregateCall}
  {calls calls' : List WindowCall} {n n' : Nat}

/-! ## Aggregates -/

section Aggregates

variable {c c' : AggregateCall}

/-- Alike aggregates have the same value over rows. -/
theorem lookup_groupAnswers_alike (h : Registered [v.data] aggregates calls)
    (h' : Registered [v.data] aggregates' calls') {rows : List Nat}
    {answers answers' : List (Nat × Value)} (hanswers : groupAnswers aggregates rows = some answers)
    (hanswers' : groupAnswers aggregates' rows = some answers') (hc : aggregates[n]? = some c)
    (hc' : aggregates'[n']? = some c') (halike : (c.among aggregates).Alike (c'.among aggregates')) :
    answers.lookup n = answers'.lookup n' := by
  obtain ⟨haggregate, hfields, hparams⟩ := halike
  obtain ⟨x, hx, observed, hobserved, rfl⟩ := lookup_groupAnswers h hanswers hc
  obtain ⟨y, hy, observed', hobserved', rfl⟩ := lookup_groupAnswers h' hanswers' hc'
  have haggregate : c.aggregate = c'.aggregate := haggregate
  have hfields : (c.leader aggregates).fields = (c'.leader aggregates').fields := hfields
  have hparams : c.params = c'.params := hparams
  rw [hfields, hobserved'] at hobserved
  obtain rfl := Option.some.inj hobserved
  rw [hx, hy, haggregate, hparams]

/-- Alike aggregates have the same results in every group. -/
theorem Sound.aggregates_alike (hv : v.Sound key) (h : Registered [v.data] aggregates calls)
    (h' : Registered [v.data] aggregates' calls') (hc : aggregates[n]? = some c)
    (hc' : aggregates'[n']? = some c') (halike : (c.among aggregates).Alike (c'.among aggregates')) :
    ∃ results results', v.aggregates aggregates = some results ∧
      v.aggregates aggregates' = some results' ∧ ∀ g < v.groupCount,
        ∃ (cells cells' : List Value) (x : Value), results[n]? = some cells ∧
          results'[n']? = some cells' ∧ cells[g]? = some x ∧ cells'[g]? = some x := by
  obtain ⟨rows, results, hrows, hresults, -, hcells⟩ := hv.aggregates_cells h
  obtain ⟨rows', results', hrows', hresults', -, hcells'⟩ := hv.aggregates_cells h'
  obtain rfl : rows = rows' := Option.some.inj (hrows.symm.trans hrows')
  refine ⟨results, results', hresults, hresults', fun g hg => ?_⟩
  obtain ⟨answers, hanswers, hcells⟩ := hcells g hg
  obtain ⟨answers', hanswers', hcells'⟩ := hcells' g hg
  obtain ⟨cells, hn, hx⟩ := hcells n (List.getElem?_eq_some_iff.1 hc).1
  obtain ⟨cells', hn', hx'⟩ := hcells' n' (List.getElem?_eq_some_iff.1 hc').1
  have hsame := lookup_groupAnswers_alike h h' hanswers hanswers' hc hc' halike
  exact ⟨cells, cells', _, hn, hn', hx, by rw [hx', hsame]⟩

end Aggregates

/-! ## Window calls -/

section Windows

variable {c c' : WindowCall}

/-- The values of a rolling call over a partition: those of its aggregate by itself, over the
    fields of the leader. -/
theorem eq_of_slidesOver {a : Aggregate} {peers : Peers} {rows : List Nat}
    {values : List Value} (h : WindowStream.SlidesOver calls c a peers rows values) :
    ∃ observed, rows.mapM (Formula.evalKey (c.leader calls).fields) = some observed ∧
      values = (List.range peers.size).map fun i =>
        a.value c.params (a.keeper.alone (c.frame.events peers observed.toArray i)) := by
  obtain ⟨observed, r, place, hobserved, hordered, hop, rfl⟩ := h
  refine ⟨observed, hobserved, List.map_congr_left fun i _ => ?_⟩
  exact Reducer.valueAt_run_eq_alone hordered hop _

/-- The values of a window function over a partition. -/
def AppliesOver (c : WindowCall) (f : WindowFunction) (peers : Peers) (rows : List Nat)
    (values : List Value) : Prop :=
  ∃ fields, c.fields.mapM (fun field => rows.mapM (field.evalRow Env.noResults)) = some fields ∧
    values = f.values c.params peers (c.frame.allBounds peers) (fields.head?.getD []).toArray

theorem functionValues_eq_some {peers : Peers} {rows : List Nat} {e : WindowCall × Nat}
    {part : List (Nat × List Value)}
    (h : WindowCall.functionValues peers rows e = some part) {values : List Value}
    (hmem : (n, values) ∈ part) :
    n = e.2 ∧ ∃ f, e.1.operator = .function f ∧ AppliesOver e.1 f peers rows values := by
  unfold WindowCall.functionValues at h
  split at h
  next =>
    cases h
    cases hmem
  next f hf =>
    obtain ⟨fields, hfields, h⟩ := Option.bind_eq_some_iff.1 h
    cases h
    cases List.mem_singleton.1 hmem
    exact ⟨rfl, f, hf, fields, hfields, rfl⟩

/-- What a partition answers for a window function are its values. -/
theorem lookup_function (hcalls : Registered [v.data] aggregates calls) {rows : List Nat}
    {entries : List (Nat × List Value)} (h : v.partitionValues calls rows = some entries)
    {f : WindowFunction} (hc : calls[n]? = some c) (hf : c.operator = .function f) :
    ∃ values, entries.lookup n = some values ∧ AppliesOver c f (v.peers rows) rows values := by
  unfold partitionValues at h
  dsimp only at h
  obtain ⟨slid, hslid, h⟩ := Option.bind_eq_some_iff.1 h
  obtain ⟨applied, happlied, h⟩ := Option.bind_eq_some_iff.1 h
  obtain rfl : slid.flatten ++ applied.flatten = entries := Option.some.inj h
  -- no stream answers for the call, so the look-up passes over the streams
  have hnone : slid.flatten.lookup n = none := by
    cases hlookup : slid.flatten.lookup n with
    | none => rfl
    | some values =>
      obtain ⟨part, hpart, hin⟩ := List.mem_flatten.1 (mem_of_lookup hlookup)
      obtain ⟨w, hw, hvalues⟩ := mem_of_mapM hslid hpart
      obtain ⟨other, a, hother, ha, -⟩ := WindowStream.slidesOver_of_mem hcalls hw hvalues hin
      obtain rfl : c = other := Option.some.inj (hc.symm.trans hother)
      rw [hf] at ha
      cases ha
  have hnumbered : (c, n) ∈ calls.zipIdx := List.mem_zipIdx_iff_getElem?.2 hc
  obtain ⟨part, hpart, hvalues⟩ := exists_of_mapM happlied hnumbered
  have hfirst : ∃ values, (n, values) ∈ part := by
    unfold WindowCall.functionValues at hvalues
    rw [hf] at hvalues
    obtain ⟨fields, -, hvalues⟩ := Option.bind_eq_some_iff.1 hvalues
    cases hvalues
    exact ⟨_, List.mem_singleton_self _⟩
  obtain ⟨values, hmem⟩ := hfirst
  obtain ⟨found, hfound, hin⟩ := exists_lookup_of_mem (List.mem_flatten.2 ⟨part, hpart, hmem⟩)
  refine ⟨found, by rw [List.lookup_append, hnone, hfound]; rfl, ?_⟩
  obtain ⟨part, hpart, hin⟩ := List.mem_flatten.1 hin
  obtain ⟨e, he, hvalues⟩ := mem_of_mapM happlied hpart
  obtain ⟨rfl, g, hg, happlies⟩ := functionValues_eq_some hvalues hin
  obtain rfl : c = e.1 :=
    Option.some.inj (hc.symm.trans (List.mem_zipIdx_iff_getElem?.1 he))
  obtain rfl : f = g := WindowOperator.function.inj (hf.symm.trans hg)
  exact happlies

/-- A partition answers the same for alike calls. -/
theorem lookup_partitionValues_alike (h : Registered [v.data] aggregates calls)
    (h' : Registered [v.data] aggregates' calls') {rows : List Nat}
    {entries entries' : List (Nat × List Value)}
    (hentries : v.partitionValues calls rows = some entries)
    (hentries' : v.partitionValues calls' rows = some entries') (hc : calls[n]? = some c)
    (hc' : calls'[n']? = some c') (halike : (c.among calls).Alike (c'.among calls')) :
    entries.lookup n = entries'.lookup n' := by
  obtain ⟨hoperator, hfields, hparams, hframe⟩ := halike
  rw [WindowCall.operator_among, WindowCall.operator_among] at hoperator
  cases hown : c.operator with
  | function f =>
    rw [hown] at hoperator
    rw [WindowCall.among_function hown, WindowCall.among_function hoperator.symm]
      at hfields hparams hframe
    obtain ⟨values, hvalues, fields, hread, rfl⟩ := lookup_function h hentries hc hown
    obtain ⟨values', hvalues', fields', hread', rfl⟩ :=
      lookup_function h' hentries' hc' hoperator.symm
    rw [hfields, hread'] at hread
    obtain rfl := Option.some.inj hread
    rw [hvalues, hvalues', hparams, hframe]
  | aggregate a =>
    rw [hown] at hoperator
    rw [WindowCall.among_aggregate hown, WindowCall.among_aggregate hoperator.symm]
      at hfields hparams hframe
    dsimp only at hfields hparams hframe
    obtain ⟨values, hvalues, hslides⟩ := lookup_partitionValues h hentries hc hown
    obtain ⟨values', hvalues', hslides'⟩ :=
      lookup_partitionValues h' hentries' hc' hoperator.symm
    obtain ⟨observed, hobserved, rfl⟩ := eq_of_slidesOver hslides
    obtain ⟨observed', hobserved', rfl⟩ := eq_of_slidesOver hslides'
    rw [hfields, hobserved'] at hobserved
    obtain rfl := Option.some.inj hobserved
    rw [hvalues, hvalues', hparams, hframe]

/-- Alike window calls have the same results at the visible rows. -/
theorem Sound.windows_alike (hv : v.Sound key) (h : Registered [v.data] aggregates calls)
    (h' : Registered [v.data] aggregates' calls') (hc : calls[n]? = some c)
    (hc' : calls'[n']? = some c') (halike : (c.among calls).Alike (c'.among calls')) :
    ∃ results results', v.windows calls = some results ∧ v.windows calls' = some results' ∧
      ∀ row ∈ v.visible, ∃ (cells cells' : Array Value) (x : Value), results[n]? = some cells ∧
        results'[n']? = some cells' ∧ cells[row]? = some x ∧ cells'[row]? = some x := by
  obtain ⟨rows, hrows, hperm⟩ := hv.exists_sorted
  obtain ⟨parts, results, hparts, hresults, -, hcells⟩ := hv.windows_cells h
  obtain ⟨parts', results', hparts', hresults', -, hcells'⟩ := hv.windows_cells h'
  obtain rfl : parts = parts' := Option.some.inj (hparts.symm.trans hparts')
  refine ⟨results, results', hresults, hresults', fun row hrow => ?_⟩
  -- the row stands somewhere in the partition of its group
  obtain ⟨g, hg, hgroup⟩ := hv.exists_groupOf hrow
  have hmem : row ∈ v.groupRows rows g :=
    List.mem_filter.2 ⟨hperm.mem_iff.2 hrow, beq_iff_eq.2 hgroup⟩
  have hpart := groupRows_mem_partitions hrows hparts hg
  have hne := List.ne_nil_of_mem hmem
  obtain ⟨i, hi⟩ := List.mem_iff_getElem?.1 hmem
  obtain ⟨entries, hentries, hcells⟩ := hcells _ hpart hne
  obtain ⟨entries', hentries', hcells'⟩ := hcells' _ hpart hne
  obtain ⟨cells, hn, hx⟩ := hcells n (List.getElem?_eq_some_iff.1 hc).1
  obtain ⟨cells', hn', hx'⟩ := hcells' n' (List.getElem?_eq_some_iff.1 hc').1
  refine ⟨cells, cells', _, hn, hn', hx i row hi, ?_⟩
  rw [hx' i row hi]
  unfold answerAt
  rw [lookup_partitionValues_alike h h' hentries hentries' hc hc' halike]

end Windows

/-! ## Results -/

variable {r r' : Resolution} {results results' : OperatorResults}

theorem operators_eq_some {group : Nat → Option Nat} (h : v.operators r group = some results) :
    v.aggregates r.aggregates = some results.aggregates ∧
      v.windows r.windows = some results.windows ∧ results.group = group := by
  obtain ⟨aggregates, haggregates, h⟩ := Option.bind_eq_some_iff.1 h
  obtain ⟨windows, hwindows, h⟩ := Option.bind_eq_some_iff.1 h
  obtain rfl := Option.some.inj h
  exact ⟨haggregates, hwindows, rfl⟩

/-- Registered calls have results. -/
theorem Sound.exists_operators (hv : v.Sound key)
    (h : Registered [v.data] r.aggregates r.windows) :
    ∃ results, v.operators r v.groupOf = some results := by
  obtain ⟨-, aggregates, -, haggregates, -⟩ := hv.aggregates_cells h
  obtain ⟨-, windows, -, hwindows, -⟩ := hv.windows_cells h
  exact ⟨_, operators_eq haggregates hwindows v.groupOf⟩

/-- Alike calls have the same results, whichever calls they stand among. -/
theorem Sound.read_alike (hv : v.Sound key) (h : Registered [v.data] r.aggregates r.windows)
    (h' : Registered [v.data] r'.aggregates r'.windows)
    (hresults : v.operators r v.groupOf = some results)
    (hresults' : v.operators r' v.groupOf = some results') {ref ref' : OpRef}
    {c c' : OperatorCall} (hc : r.call? ref = some c) (hc' : r'.call? ref' = some c')
    (halike : (c.among r).Alike (c'.among r')) {row : Nat} (hrow : row ∈ v.visible) :
    results.read ref row = results'.read ref' row := by
  obtain ⟨haggregates, hwindows, hgroups⟩ := operators_eq_some hresults
  obtain ⟨haggregates', hwindows', hgroups'⟩ := operators_eq_some hresults'
  cases ref with
  | aggregate n =>
    obtain ⟨a, ha, rfl⟩ := Option.map_eq_some_iff.1 hc
    cases ref' with
    | window n' =>
      obtain ⟨w, -, rfl⟩ := Option.map_eq_some_iff.1 hc'
      cases halike
    | aggregate n' =>
      obtain ⟨a', ha', rfl⟩ := Option.map_eq_some_iff.1 hc'
      obtain ⟨found, found', hfound, hfound', hcells⟩ := hv.aggregates_alike h h' ha ha' halike
      obtain rfl := Option.some.inj (haggregates.symm.trans hfound)
      obtain rfl := Option.some.inj (haggregates'.symm.trans hfound')
      obtain ⟨g, hg, hgroup⟩ := hv.exists_groupOf hrow
      obtain ⟨cells, cells', x, hn, hn', hx, hx'⟩ := hcells g hg
      rw [read_aggregate hn (hgroups ▸ hgroup) hx, read_aggregate hn' (hgroups' ▸ hgroup) hx']
  | window n =>
    obtain ⟨w, hw, rfl⟩ := Option.map_eq_some_iff.1 hc
    cases ref' with
    | aggregate n' =>
      obtain ⟨a, -, rfl⟩ := Option.map_eq_some_iff.1 hc'
      cases halike
    | window n' =>
      obtain ⟨w', hw', rfl⟩ := Option.map_eq_some_iff.1 hc'
      obtain ⟨found, found', hfound, hfound', hcells⟩ := hv.windows_alike h h' hw hw' halike
      obtain rfl := Option.some.inj (hwindows.symm.trans hfound)
      obtain rfl := Option.some.inj (hwindows'.symm.trans hfound')
      obtain ⟨cells, cells', x, hn, hn', hx, hx'⟩ := hcells row hrow
      rw [read_window hn hx, read_window hn' hx']

/-- The result of a call at a row, if it is the only call. -/
def alone (v : View) (c : OperatorCall) (row : Nat) : Option Value :=
  (v.operators c.only v.groupOf).map (·.read c.ref row)

/-- A call has the results of the call by itself, over the fields of its leader. -/
theorem Sound.read_among (hv : v.Sound key) (h : Registered [v.data] r.aggregates r.windows)
    (hresults : v.operators r v.groupOf = some results) {ref : OpRef} {c : OperatorCall}
    (hc : r.call? ref = some c) {row : Nat} (hrow : row ∈ v.visible) :
    v.alone (c.among r) row = some (results.read ref row) := by
  have hsuits := OperatorCall.suits_among h hc
  have honly := OperatorCall.registered_only hsuits
  obtain ⟨results', hresults'⟩ := hv.exists_operators honly
  unfold alone
  rw [hresults']
  refine congrArg some (hv.read_alike honly h hresults' hresults (OperatorCall.call?_only _) hc ?_
    hrow)
  rw [OperatorCall.among_only]
  exact .refl _

/-- By themselves, alike calls have the same results. -/
theorem Sound.alone_alike (hv : v.Sound key) {c c' : OperatorCall} (hc : c.Suits [v.data])
    (hc' : c'.Suits [v.data]) (halike : c.Alike c') {row : Nat} (hrow : row ∈ v.visible) :
    v.alone c row = v.alone c' row := by
  have honly := OperatorCall.registered_only hc
  have honly' := OperatorCall.registered_only hc'
  obtain ⟨results, hresults⟩ := hv.exists_operators honly
  obtain ⟨results', hresults'⟩ := hv.exists_operators honly'
  unfold alone
  rw [hresults, hresults']
  refine congrArg some (hv.read_alike honly honly' hresults hresults' c.call?_only c'.call?_only ?_
    hrow)
  rw [OperatorCall.among_only, OperatorCall.among_only]
  exact halike

end View

end ColumnQuery
