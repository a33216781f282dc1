/-
  The columns of a join.

  By default a join has all columns of both tables; a column that matching rows agree in comes
  once, with the left value or else the right one. Otherwise columns are chosen on both sides,
  or computed from both rows. A name that stands on both sides gets a suffix.
-/
import ColumnQuery.Join.Matches

namespace ColumnQuery

/-- Which columns a join has. -/
inductive JoinColumns where
  | all
  | selected (left right : List String)
  | computed (exprs : List (String × ExprSpec))

/-- Which rows without a match a join keeps, and the suffixes of ambiguous names. -/
structure JoinOptions where
  keepLeft : Bool
  keepRight : Bool
  leftSuffix : String
  rightSuffix : String
deriving DecidableEq, Repr

namespace JoinOptions

/-- Only matching rows. -/
def inner : JoinOptions := ⟨false, false, "_1", "_2"⟩

end JoinOptions

/-- The names chosen on both sides, and those among them that come once for both sides. -/
structure JoinSchema where
  left : List String
  right : List String
  merged : List String
deriving DecidableEq, Repr

namespace JoinSchema

/-- All columns of both tables. -/
def ofTables (left right : Table) (shared : List String) : JoinSchema :=
  ⟨left.names, right.names.filter (!shared.contains ·), shared⟩

/-- A left column, or the first of the two values of a merged one that is not null. -/
def leftNode (s : JoinSchema) (name : String) : Node :=
  if s.merged.contains name then .logical .nullish (.column 0 name) (.column 1 name)
  else .column 0 name

/-- The name of a left column in the join. -/
def leftName (s : JoinSchema) (suffix name : String) : String :=
  if s.right.contains name && !s.merged.contains name then name ++ suffix else name

/-- The name of a right column in the join. -/
def rightName (s : JoinSchema) (suffix name : String) : String :=
  if s.left.contains name then name ++ suffix else name

/-- The columns of the join as expressions over both tables. -/
def exprs (s : JoinSchema) (o : JoinOptions) : List (String × ExprSpec) :=
  (s.left.map fun n => (s.leftName o.leftSuffix n, .tree (s.leftNode n)))
    ++ s.right.map fun n => (s.rightName o.rightSuffix n, .tree (.column 1 n))

/-- The first name that its table lacks, on the left before the right. -/
def missing? (s : JoinSchema) (left right : Table) : Option String :=
  (s.left.find? fun n => (left.column? n).isNone)
    <|> s.right.find? fun n => (right.column? n).isNone

/-- The columns as expressions, unless a name is no column. -/
def checkedExprs (s : JoinSchema) (left right : Table) (o : JoinOptions) :
    Except QueryError (List (String × ExprSpec)) :=
  match s.missing? left right with
  | some n => .error (.unknownColumn n)
  | none => .ok (s.exprs o)

end JoinSchema

/-- The columns of a join as expressions over both tables. -/
def JoinColumns.exprs (c : JoinColumns) (left right : Table) (shared : List String)
    (o : JoinOptions) : Except QueryError (List (String × ExprSpec)) :=
  match c with
  | all => (JoinSchema.ofTables left right shared).checkedExprs left right o
  | selected l r => (JoinSchema.mk l r []).checkedExprs left right o
  | computed exprs => .ok exprs

end ColumnQuery
