/-
  Reducers: the aggregate calls over one list of fields, run on one shared state.

  A reducer lists the aggregates that it keeps up, each after everything it requires and each
  once per list of parameters, and for every call the place of its aggregate. Calls are grouped
  by a key of their fields, in the order in which the keys come up.
-/
import ColumnQuery.Aggregate.State

namespace ColumnQuery

/-- An aggregate with its parameters. -/
structure AggregateOp where
  aggregate : Aggregate
  params : List Value

namespace AggregateOp

def same (a b : AggregateOp) : Bool :=
  a.aggregate == b.aggregate && Value.sameItems a.params b.params

/-- An aggregate with everything it requires before it. -/
def expansion (removing : Bool) (a : AggregateOp) : List AggregateOp :=
  (a.aggregate.dependencies removing).map (⟨·, []⟩) ++ [a]

end AggregateOp

/-- The aggregates over one list of fields of type `F`. -/
structure Reducer (F : Type) where
  fields : List F
  ops : List AggregateOp
  /-- The number of every call, with the place of its aggregate among `ops`. -/
  outputs : List (Nat × Nat)

/-- A call of an aggregate on fields that are known by a key. -/
structure ReducerCall (F K : Type) where
  op : AggregateOp
  fields : List F
  key : K

namespace Reducer

variable {F K : Type}

/-- Adds aggregates that are not kept up yet. -/
def withOps (ops : List AggregateOp) : List AggregateOp → List AggregateOp
  | [] => ops
  | a :: rest => withOps (if ops.any (·.same a) then ops else ops ++ [a]) rest

/-- Takes a call in, under its number. -/
def addCall (removing : Bool) (r : Reducer F) (index : Nat) (op : AggregateOp) : Reducer F :=
  let ops := withOps r.ops (op.expansion removing)
  let place := (ops.findIdx? (·.same op)).getD 0
  { r with ops := ops, outputs := r.outputs ++ [(index, place)] }

/-- Takes a call into the reducer of its key, or into a new one. -/
def place (sameKey : K → K → Bool) (removing : Bool) (index : Nat) (c : ReducerCall F K) :
    List (K × Reducer F) → List (K × Reducer F)
  | [] => [(c.key, addCall removing ⟨c.fields, [], []⟩ index c.op)]
  | (key, r) :: rest =>
    if sameKey key c.key then (key, r.addCall removing index c.op) :: rest
    else (key, r) :: place sameKey removing index c rest

/-- The reducers of a list of calls. With `removing`, rows can be released again. -/
def build (sameKey : K → K → Bool) (removing : Bool) (calls : List (ReducerCall F K)) :
    List (Reducer F) :=
  (calls.zipIdx.foldl (fun rs (c, i) => place sameKey removing i c rs) []).map (·.2)

variable {N : Type} [Quantity N]

/-- The state before the first row. -/
def start (r : Reducer F) : AggregateState N :=
  r.ops.foldl (fun s op => op.aggregate.start s) AggregateState.empty

/-- Takes in the fields of a row. -/
def add (r : Reducer F) (s : AggregateState N) (fields : List Value) : AggregateState N :=
  let s := { s with count := s.count + 1 }
  if fields.all Value.isValid then
    r.ops.foldl (fun s op => op.aggregate.absorb s fields) { s with valid := s.valid + 1 }
  else s

/-- Releases the fields of the oldest row, which must be one that was taken in: the counts do not go
    below zero. -/
def remove (r : Reducer F) (s : AggregateState N) (fields : List Value) : AggregateState N :=
  let s := { s with count := s.count - 1 }
  if fields.all Value.isValid then
    r.ops.foldl (fun s op => op.aggregate.release s fields) { s with valid := s.valid - 1 }
  else s

/-- Takes in the fields of several rows. -/
def addAll (r : Reducer F) (s : AggregateState N) (rows : List (List Value)) : AggregateState N :=
  rows.foldl r.add s

/-- Releases the fields of several rows, the oldest first. -/
def removeAll (r : Reducer F) (s : AggregateState N) (rows : List (List Value)) :
    AggregateState N :=
  rows.foldl r.remove s

/-- The value of the aggregate at a place. -/
def valueAt (r : Reducer F) (s : AggregateState Float) (place : Nat) : Value :=
  match r.ops[place]? with
  | some op => op.aggregate.value op.params s
  | none => .null

/-- The value of every call, with its number. -/
def values (r : Reducer F) (s : AggregateState Float) : List (Nat × Value) :=
  r.outputs.map fun (index, place) => (index, r.valueAt s place)

end Reducer

end ColumnQuery
