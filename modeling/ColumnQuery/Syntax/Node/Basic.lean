/-
  Syntax trees of expressions.

  The trees cover the whole surface grammar, also the constructs that resolution refuses later
  (loops, assignments, nested functions), so that a refusal can show the construct at fault.
  Three kinds of node come from resolution: `column` and `parameter` are resolved references,
  and `rolling` runs the operators in its body over a sliding frame.

  Two trees are equal (`Node.same`) when they agree up to the equality of numbers in literals.
-/
import ColumnQuery.Frame
import ColumnQuery.Value.Basic

namespace ColumnQuery

inductive UnaryOp where
  | negate | plus | not | bitNot | typeOf
deriving DecidableEq, Repr

inductive BinaryOp where
  | add | subtract | multiply | divide | modulo | power
  | equals | notEquals | strictEquals | strictNotEquals
  | less | lessEquals | greater | greaterEquals
  | bitAnd | bitOr | bitXor | shiftLeft | shiftRight | unsignedShiftRight
  | isIn
deriving DecidableEq, Repr

inductive LogicalOp where
  | and | or | nullish
deriving DecidableEq, Repr

inductive DeclarationKind where
  | const | «let» | var
deriving DecidableEq, Repr

inductive LoopKind where
  | for | while | doWhile
deriving DecidableEq, Repr

def UnaryOp.symbol : UnaryOp → String
  | negate => "-"
  | plus => "+"
  | not => "!"
  | bitNot => "~"
  | typeOf => "typeof"

def BinaryOp.symbol : BinaryOp → String
  | add => "+"
  | subtract => "-"
  | multiply => "*"
  | divide => "/"
  | modulo => "%"
  | power => "**"
  | equals => "=="
  | notEquals => "!="
  | strictEquals => "==="
  | strictNotEquals => "!=="
  | less => "<"
  | lessEquals => "<="
  | greater => ">"
  | greaterEquals => ">="
  | bitAnd => "&"
  | bitOr => "|"
  | bitXor => "^"
  | shiftLeft => "<<"
  | shiftRight => ">>"
  | unsignedShiftRight => ">>>"
  | isIn => "in"

def LogicalOp.symbol : LogicalOp → String
  | and => "&&"
  | or => "||"
  | nullish => "??"

def DeclarationKind.word : DeclarationKind → String
  | const => "const"
  | «let» => "let"
  | var => "var"

def LoopKind.word : LoopKind → String
  | .for => "for"
  | .while => "while"
  | .doWhile => "dowhile"

/-- Constants that have a spelling of their own. -/
inductive Literal where
  | null
  | boolean (b : Bool)
  | number (x : Float)
  | string (s : String)
deriving Inhabited

namespace Literal

def same : Literal → Literal → Bool
  | null, null => true
  | boolean a, boolean b => a == b
  | number a, number b => Number.same a b
  | string a, string b => a == b
  | _, _ => false

def toValue : Literal → Value
  | null => .null
  | boolean b => .boolean b
  | number x => .number x
  | string s => .string s

/-- The literal of a value; only finite numbers are spelled. -/
def ofValue? : Value → Option Literal
  | .null => some null
  | .boolean b => some (boolean b)
  | .number x =>
    match Binary64.ofFloat x with
    | .finite _ _ _ => some (number x)
    | _ => none
  | .string s => some (string s)
  | _ => none

end Literal

/-- The binding of a function parameter or a declaration: a name, or the names under which
    keys of an object are taken apart. -/
inductive Pattern where
  | name (name : String)
  | object (bindings : List (String × String))
deriving DecidableEq, Repr, Inhabited

/-- Syntax trees. -/
inductive Node where
  | literal (value : Literal)
  | identifier (name : String)
  | member (object property : Node) (computed : Bool)
  | call (callee : Node) (arguments : List Node)
  | unary (operator : UnaryOp) (argument : Node)
  | binary (operator : BinaryOp) (left right : Node)
  | logical (operator : LogicalOp) (left right : Node)
  | conditional (test consequent alternate : Node)
  | array (elements : List Node)
  | object (properties : List (String × Node))
  | arrow (params : List Pattern) (body : Node)
  | function (name : Option String) (params : List Pattern) (body : Node)
  | block (body : List Node)
  | declaration (kind : DeclarationKind) (declarations : List (Pattern × Option Node))
  | returns (argument : Option Node)
  | branch (test consequent : Node) (alternate : Option Node)
  | loop (kind : LoopKind) (body : Node)
  | assignment (operator : String) (target value : Node)
  | update (operator : String) (leading : Bool) (argument : Node)
  | await (argument : Node)
  | yield (argument : Option Node)
  | column (table : Nat) (name : String)
  | parameter (name : String)
  | rolling (frame : Frame) (body : Node)
deriving Inhabited

namespace Node

/-- The construct's name in messages. -/
def kind : Node → String
  | literal _ => "literal"
  | identifier _ => "identifier"
  | member _ _ _ => "member expression"
  | call _ _ => "call"
  | unary _ _ => "unary expression"
  | binary _ _ _ => "binary expression"
  | logical _ _ _ => "logical expression"
  | conditional _ _ _ => "conditional expression"
  | array _ => "array literal"
  | object _ => "object literal"
  | arrow _ _ => "arrow function"
  | function _ _ _ => "function definition"
  | block _ => "block"
  | declaration _ _ => "declaration"
  | returns _ => "return statement"
  | branch _ _ _ => "if statement"
  | loop _ _ => "loop"
  | assignment _ _ _ => "assignment"
  | update _ _ _ => "update expression"
  | await _ => "await expression"
  | yield _ => "yield expression"
  | column _ _ => "column reference"
  | parameter _ => "parameter reference"
  | rolling _ _ => "rolling window"

mutual

/-- Equality of trees, with numbers compared as numbers. -/
def same : Node → Node → Bool
  | literal a, literal b => a.same b
  | identifier a, identifier b => a == b
  | member o p c, member o' p' c' => same o o' && same p p' && c == c'
  | call f as, call f' as' => same f f' && sameList as as'
  | unary o a, unary o' a' => o == o' && same a a'
  | binary o l r, binary o' l' r' => o == o' && same l l' && same r r'
  | logical o l r, logical o' l' r' => o == o' && same l l' && same r r'
  | conditional t c a, conditional t' c' a' => same t t' && same c c' && same a a'
  | array es, array es' => sameList es es'
  | object ps, object ps' => sameProperties ps ps'
  | arrow ps b, arrow ps' b' => ps == ps' && same b b'
  | function n ps b, function n' ps' b' => n == n' && ps == ps' && same b b'
  | block ss, block ss' => sameList ss ss'
  | declaration k ds, declaration k' ds' => k == k' && sameDeclarations ds ds'
  | returns a, returns a' => sameOption a a'
  | branch t c a, branch t' c' a' => same t t' && same c c' && sameOption a a'
  | loop k b, loop k' b' => k == k' && same b b'
  | assignment o t v, assignment o' t' v' => o == o' && same t t' && same v v'
  | update o l a, update o' l' a' => o == o' && l == l' && same a a'
  | await a, await a' => same a a'
  | yield a, yield a' => sameOption a a'
  | column t n, column t' n' => t == t' && n == n'
  | parameter n, parameter n' => n == n'
  | rolling f b, rolling f' b' => f == f' && same b b'
  | _, _ => false

def sameList : List Node → List Node → Bool
  | [], [] => true
  | a :: as, b :: bs => same a b && sameList as bs
  | _, _ => false

def sameOption : Option Node → Option Node → Bool
  | none, none => true
  | some a, some b => same a b
  | _, _ => false

def sameProperties : List (String × Node) → List (String × Node) → Bool
  | [], [] => true
  | (k, a) :: as, (l, b) :: bs => k == l && same a b && sameProperties as bs
  | _, _ => false

def sameDeclarations :
    List (Pattern × Option Node) → List (Pattern × Option Node) → Bool
  | [], [] => true
  | (p, a) :: as, (q, b) :: bs => p == q && sameOption a b && sameDeclarations as bs
  | _, _ => false

end

end Node

end ColumnQuery
