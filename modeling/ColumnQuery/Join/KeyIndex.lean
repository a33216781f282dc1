/-
  Matching rows by equal keys.

  A key is a list of values; a row whose key has an invalid value has no key and matches
  nothing. An index lists, for every distinct key of one side, the positions where it stands;
  the other side is then looked up position by position. Either side can be the indexed one:
  `pairs` indexes the side with fewer positions, and sorts what it finds.
-/
import ColumnQuery.Value.Order

namespace ColumnQuery

/-- The positions of every distinct key, in the order in which keys and positions come up. -/
abbrev KeyIndex := List (List Value × List Nat)

namespace KeyIndex

/-- Adds a position to its key. -/
def insert (key : List Value) (position : Nat) : KeyIndex → KeyIndex
  | [] => [(key, [position])]
  | (k, positions) :: rest =>
    if Value.sameItems k key then (k, positions ++ [position]) :: rest
    else (k, positions) :: insert key position rest

/-- The index of the keys of consecutive positions; positions without a key are left out. -/
def ofKeys (keys : List (Option (List Value))) : KeyIndex :=
  keys.zipIdx.foldl (fun index (key, position) =>
    match key with
    | some key => insert key position index
    | none => index) []

/-- The positions of a key. -/
def positions (index : KeyIndex) (key : List Value) : List Nat :=
  match index.find? fun e => Value.sameItems e.1 key with
  | some e => e.2
  | none => []

/-- Every position of the probing side with the positions of the same key. -/
def probe (index : KeyIndex) (keys : List (Option (List Value))) : List (Nat × Nat) :=
  keys.zipIdx.flatMap fun (key, position) =>
    match key with
    | some key => (index.positions key).map (position, ·)
    | none => []

/-- Pairs come by their first position, then by their second one. -/
def pairLE (a b : Nat × Nat) : Bool := a.1 < b.1 || (a.1 == b.1 && a.2 ≤ b.2)

def sortPairs (pairs : List (Nat × Nat)) : List (Nat × Nat) := pairs.mergeSort pairLE

/-- The pairs of positions with the same key, in order. -/
def pairs (left right : List (Option (List Value))) : List (Nat × Nat) :=
  sortPairs <|
    if right.length ≤ left.length then probe (ofKeys right) left
    else (probe (ofKeys left) right).map Prod.swap

end KeyIndex

end ColumnQuery
