/-
  Why a query is refused.

  Every refusal is a cause with the data that its message names; a syntax tree at fault is
  shown as text. `outOfBounds` is no refusal but a broken promise of the caller: a row was read
  outside its table. It has no message.
-/
import ColumnQuery.Syntax.Node.Printer
import ColumnQuery.Table.Basic

namespace ColumnQuery

/-- Constructs that expressions may not contain. -/
inductive RefusedConstruct where
  | destructuring
  | missingInitializer
  | functionDefinition
  | misplacedStatement
  | loop
  | assignment
  | awaitOrYield
  | nestedRolling
deriving DecidableEq, Repr

namespace RefusedConstruct

def text : RefusedConstruct → String
  | destructuring => "destructuring declarations"
  | missingInitializer => "declarations without an initializer"
  | functionDefinition => "function definitions"
  | misplacedStatement => "statements outside a function body"
  | loop => "loops"
  | assignment => "assignments"
  | awaitOrYield => "await and yield"
  | nestedRolling => "nested rolling windows"

def hint? : RefusedConstruct → Option String
  | destructuring => some "declare each value with its own const"
  | missingInitializer => none
  | functionDefinition => some "use escape() to run custom functions"
  | misplacedStatement => none
  | loop => some "use aggregate functions or escape() instead"
  | assignment => some "declare a new const instead of reassigning"
  | awaitOrYield => none
  | nestedRolling => some "wrap the whole expression in rolling()"

end RefusedConstruct

/-- What is wrong with a reference. -/
inductive ReferenceFault where
  | localInOperator (name : String)
  | bareTable (name : String)
  | bareParams (name : String)
  | undefined (name : String)
  | noTable (position : Nat)
  | unknownColumn (name : String)
  | outsideAggregate (name : String)
  | unknownParameter (name : String)
deriving DecidableEq, Repr

namespace ReferenceFault

def message : ReferenceFault → String
  | localInOperator name =>
    "local variable '" ++ name ++ "' cannot be used inside an aggregate or window function"
  | bareTable name => "table row '" ++ name ++ "' can only be used to access columns"
  | bareParams name => "parameter object '" ++ name ++ "' can only be used to access parameters"
  | undefined name => "'" ++ name ++ "' is not defined"
  | noTable position => "no input table at position " ++ toString position
  | unknownColumn name => "unknown column '" ++ name ++ "'"
  | outsideAggregate name => "column '" ++ name ++ "' is referenced outside an aggregate function"
  | unknownParameter name => "unknown parameter '" ++ name ++ "'"

def hint? : ReferenceFault → Option String
  | bareTable _ => some "write d.column or d[\"column\"]"
  | bareParams _ => some "write $.name"
  | undefined _ =>
    some "reference columns as d.name and parameters as $.name, or use escape()"
  | outsideAggregate _ => some "wrap it in an aggregate such as any(d.x)"
  | unknownParameter _ => some "declare it with params()"
  | localInOperator _ | noTable _ | unknownColumn _ => none

end ReferenceFault

/-- What is wrong with a call. -/
inductive CallFault where
  | malformedRolling
  | notCallable
  | unsupportedMath (name : String)
  | unknownFunction (name : String)
  | argumentCount (name : String) (least : Nat) (most : Option Nat) (actual : Nat)
  | nestedOperator (name : String)
  | operandCount (name : String) (fields params actual : Nat)
  | variableParameter (name : String)
  | rollingAggregate (name : String)
  | aggregate (name : String)
  | window (name : String)
deriving DecidableEq, Repr

namespace CallFault

/-- The number that stands for "any number of arguments". -/
def unlimited : Nat := Number.maxNat64

def message : CallFault → String
  | malformedRolling => "rolling expects an expression, a frame and an optional peers flag"
  | notCallable => "only registered functions can be called"
  | unsupportedMath name => "unsupported Math function '" ++ name ++ "'"
  | unknownFunction name => "unknown function '" ++ name ++ "'"
  | argumentCount name least most actual =>
    let most := most.getD unlimited
    s!"{name} expects between {least} and {most} arguments, got {actual}"
  | nestedOperator name => name ++ " is nested inside another aggregate or window function"
  | operandCount name fields params actual =>
    name ++ " expects " ++ toString fields ++ " field argument(s) and up to " ++ toString params
      ++ " parameter(s), got " ++ toString actual ++ " argument(s)"
  | variableParameter name => "parameters of " ++ name ++ " must be constant"
  | rollingAggregate name => "rolling aggregate " ++ name ++ " is not allowed here"
  | aggregate name => "aggregate function " ++ name ++ " is not allowed here"
  | window name => "window function " ++ name ++ " is not allowed here"

def hint? : CallFault → Option String
  | malformedRolling =>
    some "write rolling(expr, [start, end], peers) with null for an unbounded side"
  | notCallable => some "use escape() to run custom functions"
  | unknownFunction _ => some "register it as a scalar function or use escape()"
  | variableParameter _ => some "pass row-dependent values as field arguments or use $.name"
  | aggregate _ => some "aggregates are supported in derive, filter and rollup"
  | window _ => some "window functions are supported in derive and filter"
  | unsupportedMath _ | argumentCount _ _ _ _ | nestedOperator _ | operandCount _ _ _ _
  | rollingAggregate _ => none

end CallFault

/-- What is wrong with a member access. -/
inductive MemberFault where
  | variableKey
  | unknownConstant (name : String)
deriving DecidableEq, Repr

def MemberFault.message : MemberFault → String
  | variableKey => "column and parameter names must be constant"
  | unknownConstant name => "unknown Math constant '" ++ name ++ "'"

/-- Why a query is refused. -/
inductive QueryError where
  | table (cause : TableError)
  | parse (cause : SyntaxError) (source : String)
  | refused (construct : RefusedConstruct) (node : Node)
  | reference (fault : ReferenceFault) (node : Node)
  | call (fault : CallFault) (node : Node)
  | member (fault : MemberFault) (node : Node)
  | unknownColumn (name : String)
  | conflictingPlacement
  | joinKeyMismatch (left right : Nat)
  | rowOutOfRange (row rows : Nat)
  | outOfBounds

namespace QueryError

def hintText : Option String → String
  | some hint => " (" ++ hint ++ ")"
  | none => ""

/-- The place of a fault: the text of the tree. -/
def place (node : Node) : String := " in " ++ Text.quoted node.text

def message : QueryError → String
  | table cause => cause.message
  | parse cause source => "parse error: " ++ cause.message ++ " in " ++ Text.quoted source
  | refused construct node =>
    "unsupported syntax: " ++ construct.text ++ place node ++ hintText construct.hint?
  | reference fault node =>
    "invalid reference: " ++ fault.message ++ place node ++ hintText fault.hint?
  | call fault node => "invalid call: " ++ fault.message ++ place node ++ hintText fault.hint?
  | member fault node => "invalid member expression: " ++ fault.message ++ place node
  | unknownColumn name => "unknown column: " ++ name
  | conflictingPlacement => "placement accepts either \x60before\x60 or \x60after\x60, not both"
  | joinKeyMismatch left right =>
    s!"join key count mismatch: {left} left keys vs {right} right keys"
  | rowOutOfRange row rows => s!"row {row} out of range for a table of {rows} row(s)"
  | outOfBounds => ""

/-- A table operation as part of a query. -/
def ofTable (r : Except TableError α) : Except QueryError α := r.mapError .table

/-- A reading of rows as part of a query. -/
def ofRead (r : Option α) : Except QueryError α :=
  match r with
  | some a => .ok a
  | none => .error .outOfBounds

end QueryError

end ColumnQuery
