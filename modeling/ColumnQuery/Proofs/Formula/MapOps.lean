/-
  Results of operators, read at other places.

  A formula refers to a call of an operator by its place in a list of calls. The same formula over
  another list, in which the calls stand at other places, is the formula with its references moved
  (`mapOps`). It evaluates to what the formula does on results that are looked up at the places
  that it is moved to (`evalWith_mapOps`). Nothing else about it changes: a formula that refers to
  no call stays as it is (`mapOps_of_opFree`), and equalities with texts are turned into comparisons
  of keys before or after, with the same outcome (`binary_mapOps`).
-/
import ColumnQuery.Proofs.Formula.Derivation

namespace ColumnQuery

namespace Formula

/-! ## Moved references -/

mutual

/-- The formula with its references to calls moved. -/
def mapOps (place : OpRef → OpRef) : Formula → Formula
  | literal v => literal v
  | column t c => column t c
  | dictionaryEq t c key negated => dictionaryEq t c key negated
  | slot i => slot i
  | op ref => op (place ref)
  | unary o a => unary o (mapOps place a)
  | binary o l r => binary o (mapOps place l) (mapOps place r)
  | logical o l r => logical o (mapOps place l) (mapOps place r)
  | conditional t c a => conditional (mapOps place t) (mapOps place c) (mapOps place a)
  | array items => array (mapOpsList place items)
  | object entries => object (mapOpsEntries place entries)
  | member o p => member (mapOps place o) (mapOps place p)
  | call f args => call f (mapOpsList place args)
  | block body => block (mapOpsBody place body)
  | escape f tables params => escape f tables params

def mapOpsList (place : OpRef → OpRef) : List Formula → List Formula
  | [] => []
  | f :: fs => mapOps place f :: mapOpsList place fs

def mapOpsEntries (place : OpRef → OpRef) : List (String × Formula) → List (String × Formula)
  | [] => []
  | (k, f) :: es => (k, mapOps place f) :: mapOpsEntries place es

def mapOpsStatement (place : OpRef → OpRef) : Statement → Statement
  | .assign i init => .assign i (mapOps place init)
  | .expression f => .expression (mapOps place f)
  | .returns none => .returns none
  | .returns (some f) => .returns (some (mapOps place f))
  | .branch t c a => .branch (mapOps place t) (mapOpsBody place c) (mapOpsBody place a)
  | .block body => .block (mapOpsBody place body)

def mapOpsBody (place : OpRef → OpRef) : List Statement → List Statement
  | [] => []
  | s :: rest => mapOpsStatement place s :: mapOpsBody place rest

end

variable {place : OpRef → OpRef}

theorem mapOpsList_eq (fs : List Formula) : mapOpsList place fs = fs.map (mapOps place) := by
  induction fs with
  | nil => rfl
  | cons f fs ih => rw [mapOpsList, ih, List.map_cons]

theorem mapOpsEntries_eq (es : List (String × Formula)) :
    mapOpsEntries place es = es.map fun e => (e.1, mapOps place e.2) := by
  induction es with
  | nil => rfl
  | cons e es ih => rw [mapOpsEntries, ih, List.map_cons]

theorem mapOpsBody_eq (body : List Statement) :
    mapOpsBody place body = body.map (mapOpsStatement place) := by
  induction body with
  | nil => rfl
  | cons s body ih => rw [mapOpsBody, ih, List.map_cons]

/-! ## Evaluation -/

section Evaluation

variable {position : Position} {results : OpRef → Nat → Option Value}

mutual

/-- Moved references read the results at the places that they are moved to. -/
theorem evalWith_mapOps : ∀ (f : Formula) (s : Slots),
    evalWith ⟨position, results⟩ (mapOps place f) s
      = evalWith ⟨position, fun ref => results (place ref)⟩ f s
  | literal _, _ | column _ _, _ | dictionaryEq _ _ _ _, _ | slot _, _ | op _, _
  | escape _ _ _, _ => by rw [mapOps, evalWith, evalWith]
  | unary o a, s => by rw [mapOps, evalWith, evalWith, evalWith_mapOps a]
  | binary o l r, s => by
    rw [mapOps, evalWith, evalWith, evalWith_mapOps l]
    simp only [evalWith_mapOps r]
  | logical o l r, s => by
    rw [mapOps, evalWith, evalWith, evalWith_mapOps l]
    simp only [evalWith_mapOps r]
  | conditional t c a, s => by
    rw [mapOps, evalWith, evalWith, evalWith_mapOps t]
    simp only [evalWith_mapOps c, evalWith_mapOps a]
  | array items, s => by rw [mapOps, evalWith, evalWith, evalList_mapOps items]
  | object entries, s => by rw [mapOps, evalWith, evalWith, evalEntries_mapOps entries]
  | member o p, s => by
    rw [mapOps, evalWith, evalWith, evalWith_mapOps o]
    simp only [evalWith_mapOps p]
  | call f args, s => by rw [mapOps, evalWith, evalWith, evalList_mapOps args]
  | block body, s => by rw [mapOps, evalWith, evalWith, exec_mapOps body]

theorem evalList_mapOps : ∀ (fs : List Formula) (s : Slots),
    evalList ⟨position, results⟩ (mapOpsList place fs) s
      = evalList ⟨position, fun ref => results (place ref)⟩ fs s
  | [], _ => by rw [mapOpsList, evalList, evalList]
  | f :: fs, s => by
    rw [mapOpsList, evalList, evalList, evalWith_mapOps f]
    simp only [evalList_mapOps fs]

theorem evalEntries_mapOps : ∀ (es : List (String × Formula)) (s : Slots),
    evalEntries ⟨position, results⟩ (mapOpsEntries place es) s
      = evalEntries ⟨position, fun ref => results (place ref)⟩ es s
  | [], _ => by rw [mapOpsEntries, evalEntries, evalEntries]
  | (k, f) :: es, s => by
    rw [mapOpsEntries, evalEntries, evalEntries, evalWith_mapOps f]
    simp only [evalEntries_mapOps es]

theorem exec_mapOps : ∀ (body : List Statement) (s : Slots),
    exec ⟨position, results⟩ (mapOpsBody place body) s
      = exec ⟨position, fun ref => results (place ref)⟩ body s
  | [], _ => by rw [mapOpsBody, exec, exec]
  | .assign i init :: rest, s => by
    rw [mapOpsBody, mapOpsStatement, exec, exec, evalWith_mapOps init]
    simp only [exec_mapOps rest]
  | .expression f :: rest, s => by
    rw [mapOpsBody, mapOpsStatement, exec, exec, evalWith_mapOps f]
    simp only [exec_mapOps rest]
  | .returns none :: rest, s => by rw [mapOpsBody, mapOpsStatement, exec, exec]
  | .returns (some f) :: rest, s => by
    rw [mapOpsBody, mapOpsStatement, exec, exec, evalWith_mapOps f]
  | .branch t c a :: rest, s => by
    rw [mapOpsBody, mapOpsStatement, exec, exec, evalWith_mapOps t]
    simp only [exec_mapOps c, exec_mapOps a, exec_mapOps rest]
  | .block body :: rest, s => by
    rw [mapOpsBody, mapOpsStatement, exec, exec, exec_mapOps body]
    simp only [exec_mapOps rest]

end

theorem evalRow_mapOps (f : Formula) (row : Nat) :
    (f.mapOps place).evalRow results row = f.evalRow (fun ref => results (place ref)) row := by
  unfold evalRow eval
  rw [evalWith_mapOps]

end Evaluation

/-! ## Formulas that stay as they are -/

mutual

/-- A formula without references to calls stays as it is. -/
theorem mapOps_of_opFree : ∀ f : Formula, f.OpFree → f.mapOps place = f
  | literal _, _ | column _ _, _ | dictionaryEq _ _ _ _, _ | slot _, _ | escape _ _ _, _ => by
    rw [mapOps]
  | op ref, h => absurd rfl (h ref)
  | unary o a, h => by rw [mapOps, mapOps_of_opFree a h]
  | binary o l r, h => by rw [mapOps, mapOps_of_opFree l h.1, mapOps_of_opFree r h.2]
  | logical o l r, h => by rw [mapOps, mapOps_of_opFree l h.1, mapOps_of_opFree r h.2]
  | conditional t c a, h => by
    rw [mapOps, mapOps_of_opFree t h.1, mapOps_of_opFree c h.2.1, mapOps_of_opFree a h.2.2]
  | array items, h => by rw [mapOps, mapOpsList_of_opFree items h]
  | object entries, h => by rw [mapOps, mapOpsEntries_of_opFree entries h]
  | member o p, h => by rw [mapOps, mapOps_of_opFree o h.1, mapOps_of_opFree p h.2]
  | call f args, h => by rw [mapOps, mapOpsList_of_opFree args h]
  | block body, h => by rw [mapOps, mapOpsBody_of_opFree body h]

theorem mapOpsList_of_opFree : ∀ fs : List Formula,
    LeavesList (fun leaf => ∀ ref, leaf ≠ .op ref) fs → mapOpsList place fs = fs
  | [], _ => by rw [mapOpsList]
  | f :: fs, h => by rw [mapOpsList, mapOps_of_opFree f h.1, mapOpsList_of_opFree fs h.2]

theorem mapOpsEntries_of_opFree : ∀ es : List (String × Formula),
    LeavesEntries (fun leaf => ∀ ref, leaf ≠ .op ref) es → mapOpsEntries place es = es
  | [], _ => by rw [mapOpsEntries]
  | (k, f) :: es, h => by
    rw [mapOpsEntries, mapOps_of_opFree f h.1, mapOpsEntries_of_opFree es h.2]

theorem mapOpsBody_of_opFree : ∀ body : List Statement,
    LeavesBody (fun leaf => ∀ ref, leaf ≠ .op ref) body → mapOpsBody place body = body
  | [], _ => by rw [mapOpsBody]
  | .assign i init :: rest, h => by
    rw [mapOpsBody, mapOpsStatement, mapOps_of_opFree init h.1, mapOpsBody_of_opFree rest h.2]
  | .expression f :: rest, h => by
    rw [mapOpsBody, mapOpsStatement, mapOps_of_opFree f h.1, mapOpsBody_of_opFree rest h.2]
  | .returns none :: rest, h => by
    rw [mapOpsBody, mapOpsStatement, mapOpsBody_of_opFree rest h]
  | .returns (some f) :: rest, h => by
    rw [mapOpsBody, mapOpsStatement, mapOps_of_opFree f h.1, mapOpsBody_of_opFree rest h.2]
  | .branch t c a :: rest, h => by
    rw [mapOpsBody, mapOpsStatement, mapOps_of_opFree t h.1, mapOpsBody_of_opFree c h.2.1,
      mapOpsBody_of_opFree a h.2.2.1, mapOpsBody_of_opFree rest h.2.2.2]
  | .block body :: rest, h => by
    rw [mapOpsBody, mapOpsStatement, mapOpsBody_of_opFree body h.1, mapOpsBody_of_opFree rest h.2]

end

theorem mapOps_of_isReference {f : Formula} (h : f.IsReference) : f.mapOps place = f := by
  cases f with
  | column _ _ | literal _ => rfl
  | _ => cases h

theorem mapOps_of_constant? {f : Formula} {v : Value} (h : f.constant? = some v) :
    f.mapOps place = f :=
  mapOps_of_opFree f (opFree_of_constant? h)

end Formula

/-! ## Equality with texts -/

namespace Resolve

variable {place : OpRef → OpRef}

/-- What becomes of an equality with a text refers to no call. -/
theorem mapOps_of_textEquality {l r f : Formula} (h : TextEquality l r f) : f.mapOps place = f := by
  obtain ⟨t, c, s, negated, -, ⟨key, rfl⟩ | rfl⟩ := h
  · rfl
  · rfl

theorem dictionaryEquality?_mapOps (col lit : Formula) (negated : Bool) :
    dictionaryEquality? (col.mapOps place) (lit.mapOps place) negated
      = dictionaryEquality? col lit negated := by
  cases col with
  | column t c => cases lit <;> rfl
  | _ => rfl

theorem binary_mapOps (op : BinaryOp) (l r : Formula) :
    Resolve.binary op (l.mapOps place) (r.mapOps place) = (Resolve.binary op l r).mapOps place := by
  unfold Resolve.binary
  simp only [dictionaryEquality?_mapOps]
  cases hequality : (do
    let negated ← equality? op
    dictionaryEquality? l r negated <|> dictionaryEquality? r l negated) with
  | none => rfl
  | some f => exact (mapOps_of_textEquality (textEquality_of_eq_some hequality)).symm

end Resolve

end ColumnQuery
