/-
  Formulas: expressions with every name resolved, ready to be evaluated.

  A formula reads columns directly; the local constants of blocks live in numbered slots;
  aggregate and window calls are references to results that are computed ahead of the rows.
  Equality with a text in a dictionary column is a comparison of keys (`dictionaryEq`).
-/
import ColumnQuery.Function.Scalar
import ColumnQuery.Formula.Operator
import ColumnQuery.Table.Basic

namespace ColumnQuery

/-- Parameters by name, in ascending order of the names. -/
abbrev Params := List (String × Value)

namespace Params

def get? (p : Params) (name : String) : Option Value := p.lookup name

/-- Adds or replaces a parameter. -/
def insert (p : Params) (name : String) (v : Value) : Params := Value.insertField p name v

def ofList (entries : List (String × Value)) : Params :=
  entries.foldl (fun p e => p.insert e.1 e.2) []

end Params

/-- The current rows of the one or two input tables; a row may be absent. -/
structure Position where
  left : Option Nat
  right : Option Nat
deriving DecidableEq, Repr, Inhabited

namespace Position

def none : Position := ⟨.none, .none⟩

def row (i : Nat) : Position := ⟨some i, .none⟩

/-- The row of an input table. -/
def rowOf (p : Position) (table : Nat) : Option Nat :=
  match table with
  | 0 => p.left
  | 1 => p.right
  | _ => .none

end Position

/-- What an escaped function sees of a row. -/
structure RowView where
  tables : List Table
  position : Position

namespace RowView

/-- The cell of a named column in an input table; null if there is no such table, row or
    column. None if the row lies outside the column. -/
def cell? (r : RowView) (table : Nat) (column : String) : Option Value :=
  match r.tables[table]?, r.position.rowOf table with
  | some t, some row =>
    match t.column? column with
    | some c => c.get? row
    | none => some .null
  | _, _ => some .null

def index? (r : RowView) : Option Nat := r.position.left

end RowView

/-- A function of a row that is not written as an expression. -/
abbrev EscapedFunction := RowView → Params → Option Value

/-- A reference to an aggregate or window call, by its place in the list of calls. -/
inductive OpRef where
  | aggregate (index : Nat)
  | window (index : Nat)
deriving DecidableEq, Repr

mutual

/-- Resolved expressions. -/
inductive Formula where
  | literal (value : Value)
  | column (table : Nat) (column : Column)
  | dictionaryEq (table : Nat) (column : Column) (key : Nat) (negated : Bool)
  | slot (index : Nat)
  | op (ref : OpRef)
  | unary (operator : UnaryOp) (argument : Formula)
  | binary (operator : BinaryOp) (left right : Formula)
  | logical (operator : LogicalOp) (left right : Formula)
  | conditional (test consequent alternate : Formula)
  | array (items : List Formula)
  | object (entries : List (String × Formula))
  | member (object property : Formula)
  | call (function : ScalarFunction) (arguments : List Formula)
  | block (body : List Statement)
  | escape (function : EscapedFunction) (tables : List Table) (params : Params)

/-- Resolved statements of a block. -/
inductive Statement where
  | assign (index : Nat) (init : Formula)
  | expression (formula : Formula)
  | returns (argument : Option Formula)
  | branch (test : Formula) (consequent alternate : List Statement)
  | block (body : List Statement)

end

instance : Inhabited Formula := ⟨.literal .null⟩

namespace Formula

mutual

/-- Whether a formula reads no row, slot or result of an operator. -/
def isConstant : Formula → Bool
  | literal _ => true
  | unary _ a => isConstant a
  | binary _ l r | logical _ l r => isConstant l && isConstant r
  | conditional t c a => isConstant t && isConstant c && isConstant a
  | array items => areConstant items
  | object entries => areConstantEntries entries
  | member o p => isConstant o && isConstant p
  | call _ args => areConstant args
  | column _ _ | dictionaryEq _ _ _ _ | slot _ | op _ | block _ | escape _ _ _ => false

def areConstant : List Formula → Bool
  | [] => true
  | f :: fs => isConstant f && areConstant fs

def areConstantEntries : List (String × Formula) → Bool
  | [] => true
  | (_, f) :: es => isConstant f && areConstantEntries es

end

end Formula

end ColumnQuery
