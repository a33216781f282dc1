/-
  The results of the aggregate and window calls of resolved expressions over a view.

  An aggregate has a value for every group, from the visible rows of the group in order. A
  window call has a value for every row of the table: partition by partition, a window function
  is applied to the partition and an aggregate slides over it; hidden rows have null. Aggregate
  calls with one frame share their reducers.
-/
import ColumnQuery.View.Basic
import ColumnQuery.Window.Slide
import ColumnQuery.Window.Values

namespace ColumnQuery

/-- The fields of a reducer at a row. -/
def Reducer.observe (r : Reducer Formula) (row : Nat) : Option (List Value) :=
  Formula.evalKey r.fields row

/-! ## Aggregates -/

namespace AggregateCall

def reducerCall (c : AggregateCall) : ReducerCall Formula (List Node) :=
  ⟨⟨c.aggregate, c.params⟩, c.fields, c.key⟩

end AggregateCall

namespace View

/-- The values of the calls of a reducer over the rows of a group. -/
def groupValues (r : Reducer Formula) (rows : List Nat) : Option (List (Nat × Value)) := do
  let observed ← rows.mapM r.observe
  return r.values (r.addAll r.start observed)

/-- The value of every call in every group; none if a visible row is in no group. -/
def aggregates (v : View) (calls : List AggregateCall) : Option (List (List Value)) := do
  if calls.isEmpty then return []
  let rows ← v.sorted
  guard (rows.all fun row => (v.groupOf row).isSome)
  let reducers := Reducer.build Node.sameList false (calls.map AggregateCall.reducerCall)
  let groups ← (v.split rows).mapM fun part => do
    return (← reducers.mapM (groupValues · part)).flatten
  return (List.range calls.length).map fun call =>
    groups.map fun values => .ofOption (values.lookup call)

end View

/-! ## Window calls -/

/-- The aggregate calls of one frame. -/
structure WindowStream where
  frame : Frame
  /-- The numbers of the calls. -/
  members : List Nat
  reducers : List (Reducer Formula)

namespace WindowStream

/-- A numbered call of an aggregate over a frame. -/
def framed? (e : WindowCall × Nat) : Option (Frame × Nat × ReducerCall Formula (List Node)) :=
  match e.1.operator with
  | .aggregate a => some (e.1.frame, e.2, ⟨⟨a, e.1.params⟩, e.1.fields, e.1.key⟩)
  | .function _ => none

/-- The aggregate calls among window calls, by frame. -/
def ofCalls (calls : List WindowCall) : List WindowStream :=
  let framed := calls.zipIdx.filterMap framed?
  (framed.map (·.1)).eraseDups.map fun frame =>
    let own := (framed.filter (·.1 == frame)).map (·.2)
    ⟨frame, own.map (·.1), Reducer.build Node.sameList true (own.map (·.2))⟩

/-- The values of the calls of a reducer at every position of a partition. -/
def reducerValues (w : WindowStream) (bounds : List (Nat × Nat)) (rows : List Nat)
    (r : Reducer Formula) : Option (List (Nat × List Value)) := do
  let observed ← rows.mapM r.observe
  let states := r.slide observed.toArray bounds
  return r.outputs.filterMap fun (index, place) =>
    (w.members[index]?).map (·, states.map (r.valueAt · place))

/-- The values of the calls at every position of a partition. -/
def values (w : WindowStream) (peers : Peers) (rows : List Nat) :
    Option (List (Nat × List Value)) := do
  return (← w.reducers.mapM (w.reducerValues (w.frame.allBounds peers) rows)).flatten

end WindowStream

namespace WindowCall

/-- The values of a numbered call of a window function at every position of a partition. -/
def functionValues (peers : Peers) (rows : List Nat) (e : WindowCall × Nat) :
    Option (List (Nat × List Value)) :=
  match e.1.operator with
  | .aggregate _ => some []
  | .function f => do
    let fields ← e.1.fields.mapM fun field => rows.mapM (field.evalRow Env.noResults)
    let field := (fields.head?.getD []).toArray
    return [(e.2, f.values e.1.params peers (e.1.frame.allBounds peers) field)]

end WindowCall

namespace View

/-- The tied rows of a partition. -/
def peers (v : View) (rows : List Nat) : Peers :=
  match v.order with
  | some o => .ofTies o.tied rows
  | none => .alone rows.length

/-- The values of every call at every position of a partition. -/
def partitionValues (v : View) (calls : List WindowCall) (rows : List Nat) :
    Option (List (Nat × List Value)) := do
  let peers := v.peers rows
  let slid ← (WindowStream.ofCalls calls).mapM (·.values peers rows)
  let applied ← calls.zipIdx.mapM (WindowCall.functionValues peers rows)
  return slid.flatten ++ applied.flatten

/-- The value of every call at every row of the table. -/
def windows (v : View) (calls : List WindowCall) : Option (List (Array Value)) := do
  if calls.isEmpty then return []
  let parts := (← v.partitions true).filter (!·.isEmpty)
  let results ← parts.mapM (v.partitionValues calls)
  (List.range calls.length).mapM fun call =>
    (parts.zip results).foldlM (fun cells (rows, values) =>
      placeCells? cells rows ((values.lookup call).getD [])) (Array.replicate v.totalRows .null)

end View

/-! ## Results -/

/-- The results of calls: aggregates by group, window calls by row. -/
structure OperatorResults where
  aggregates : List (List Value)
  windows : List (Array Value)
  /-- The group whose aggregates a row reads. -/
  group : Nat → Option Nat

namespace OperatorResults

/-- The result of a call at a row; null where there is none. -/
def read (r : OperatorResults) (op : OpRef) (row : Nat) : Value :=
  .ofOption (match op with
    | .aggregate i => do (← r.aggregates[i]?)[← r.group row]?
    | .window i => do (← r.windows[i]?)[row]?)

/-- The results as an environment provides them. -/
def lookup (r : OperatorResults) (op : OpRef) (row : Nat) : Option Value := some (r.read op row)

end OperatorResults

/-- The results of the calls of resolved expressions. -/
def View.operators (v : View) (r : Resolution) (group : Nat → Option Nat) :
    Option OperatorResults := do
  return ⟨← v.aggregates r.aggregates, ← v.windows r.windows, group⟩

end ColumnQuery
