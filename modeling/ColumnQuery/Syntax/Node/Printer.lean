/-
  Syntax trees as expression text.

  Compound operands stand in parentheses, so that the text never hangs on binding strengths.
  Resolved columns and parameters are written as accesses to the names that a `Spelling` gives
  to the input tables and to the parameters.
-/
import ColumnQuery.Syntax.Node.Basic
import ColumnQuery.Syntax.Token.Basic

namespace ColumnQuery

/-- The names of the input tables, by position, and of the parameters. -/
structure Spelling where
  tables : List String
  params : String

namespace Spelling

/-- The names used in messages. -/
def standard : Spelling := ⟨["d", "d2"], "$"⟩

def table (s : Spelling) (i : Nat) : String := s.tables[i]?.getD "d"

end Spelling

namespace Node

/-- A character inside a string literal. -/
def literalChar (c : Char) : String :=
  if c = '"' then "\\\""
  else if c = '\\' then "\\\\"
  else if c = '\n' then "\\n"
  else if c = '\t' then "\\t"
  else if c = '\r' then "\\r"
  else c.toString

/-- A string literal. -/
def stringLiteral (s : String) : String :=
  "\"" ++ String.join (s.toList.map literalChar) ++ "\""

/-- The access to a key: after a point if the key is a name, else in brackets. -/
def accessText (object key : String) : String :=
  if Token.isName key then object ++ "." ++ key else object ++ "[" ++ stringLiteral key ++ "]"

def keyText (key : String) : String := if Token.isName key then key else stringLiteral key

def literalText : Literal → String
  | .null => "null"
  | .boolean b => if b then "true" else "false"
  | .number x => Number.text x
  | .string s => stringLiteral s

/-- Whether a tree can be an operand without parentheses. -/
def isAtom : Node → Bool
  | literal (.number x) => !(x < 0.0)
  | literal _ | identifier _ | member _ _ _ | call _ _ | array _ | column _ _ | parameter _
  | rolling _ _ => true
  | _ => false

/-- The text of a tree as an operand. -/
def enclosed (n : Node) (text : String) : String := if n.isAtom then text else "(" ++ text ++ ")"

/-- Whether a statement needs no semicolon. -/
def closesItself : Node → Bool
  | block _ | branch _ _ _ | loop _ _ | function _ _ _ => true
  | _ => false

def ended (n : Node) (text : String) : String := if n.closesItself then text else text ++ ";"

def isObject : Node → Bool
  | object _ => true
  | _ => false

def commaSeparated (texts : List String) : String := String.intercalate ", " texts

def bindingText (b : String × String) : String := if b.1 == b.2 then b.1 else b.1 ++ ": " ++ b.2

def patternText : Pattern → String
  | .name n => n
  | .object bs => "\x7b " ++ commaSeparated (bs.map bindingText) ++ " \x7d"

def paramsText (ps : List Pattern) : String := "(" ++ commaSeparated (ps.map patternText) ++ ")"

def boundText : Option Int → String
  | none => "null"
  | some n => toString n

def frameText (f : Frame) : String :=
  "[" ++ boundText f.start ++ ", " ++ boundText f.stop ++ "], "
    ++ (if f.peers then "true" else "false")

def unaryText (op : UnaryOp) : String := if op = .typeOf then "typeof " else op.symbol

def loopText (kind : LoopKind) (body : String) : String :=
  match kind with
  | .for => "for (;;) " ++ body
  | .while => "while (true) " ++ body
  | .doWhile => "do " ++ body ++ " while (true)"

mutual

/-- The text of a tree. -/
def textWith (s : Spelling) : Node → String
  | literal v => literalText v
  | identifier n => n
  | member o (identifier n) false => enclosed o (textWith s o) ++ "." ++ n
  | member o p _ => enclosed o (textWith s o) ++ "[" ++ textWith s p ++ "]"
  | call f as => enclosed f (textWith s f) ++ "(" ++ commaSeparated (textsWith s as) ++ ")"
  | unary op a => unaryText op ++ enclosed a (textWith s a)
  | binary op l r =>
    enclosed l (textWith s l) ++ " " ++ op.symbol ++ " " ++ enclosed r (textWith s r)
  | logical op l r =>
    enclosed l (textWith s l) ++ " " ++ op.symbol ++ " " ++ enclosed r (textWith s r)
  | conditional t c a =>
    enclosed t (textWith s t) ++ " ? " ++ enclosed c (textWith s c) ++ " : "
      ++ enclosed a (textWith s a)
  | array es => "[" ++ commaSeparated (textsWith s es) ++ "]"
  | object ps => "(\x7b " ++ commaSeparated (propertyTexts s ps) ++ " \x7d)"
  | arrow ps b =>
    paramsText ps ++ " => " ++ (if b.isObject then textWith s b else enclosed b (textWith s b))
  | function n ps b =>
    "function" ++ (match n with | some n => " " ++ n | none => "") ++ paramsText ps ++ " "
      ++ textWith s b
  | block ss => "\x7b " ++ String.join (statementTexts s ss) ++ "\x7d"
  | declaration k ds => k.word ++ " " ++ commaSeparated (declarationTexts s ds)
  | returns none => "return"
  | returns (some a) => "return " ++ textWith s a
  | branch t c none => "if (" ++ textWith s t ++ ") " ++ ended c (textWith s c)
  | branch t c (some a) =>
    "if (" ++ textWith s t ++ ") " ++ ended c (textWith s c) ++ " else " ++ ended a (textWith s a)
  | loop k b => loopText k (ended b (textWith s b))
  | assignment op t v => textWith s t ++ " " ++ op ++ " " ++ textWith s v
  | update op leading a =>
    if leading then op ++ enclosed a (textWith s a) else enclosed a (textWith s a) ++ op
  | await a => "await " ++ enclosed a (textWith s a)
  | yield none => "yield"
  | yield (some a) => "yield " ++ enclosed a (textWith s a)
  | column t n => accessText (s.table t) n
  | parameter n => accessText s.params n
  | rolling f b => "rolling(" ++ textWith s b ++ ", " ++ frameText f ++ ")"

def textsWith (s : Spelling) : List Node → List String
  | [] => []
  | n :: ns => textWith s n :: textsWith s ns

def propertyTexts (s : Spelling) : List (String × Node) → List String
  | [] => []
  | (k, n) :: ps => (keyText k ++ ": " ++ textWith s n) :: propertyTexts s ps

def statementTexts (s : Spelling) : List Node → List String
  | [] => []
  | n :: ns => (ended n (textWith s n) ++ " ") :: statementTexts s ns

def declarationTexts (s : Spelling) : List (Pattern × Option Node) → List String
  | [] => []
  | (p, none) :: ds => patternText p :: declarationTexts s ds
  | (p, some n) :: ds => (patternText p ++ " = " ++ textWith s n) :: declarationTexts s ds

end

/-- The text of a tree with the standard names. -/
def text (n : Node) : String := n.textWith .standard

end Node

end ColumnQuery
