/-
  Expression text as a syntax tree.

  Grammar, loosest first: arrow functions, `yield`, assignments; conditionals; infix operators
  by binding strength (all group to the left but `**`); leading operators; trailing `++` and
  `--`; calls and member accesses; primaries. A block holds statements. Whether a parenthesis
  opens the parameters of an arrow function is decided by what follows its closing partner.

  Every reader takes the tokens at hand and answers what it read with those after it. The
  mutually recursive readers count down a depth; each takes a token after a bounded number of
  calls, so that `Node.parse` can give a depth that no text exhausts.
-/
import ColumnQuery.Syntax.Node.Basic
import ColumnQuery.Syntax.Token.Lexer

namespace ColumnQuery

namespace Node

/-- What was read, with the tokens after it. -/
abbrev Rest (α : Type) := α × List Token

/-! ## Single tokens -/

/-- The tokens after a symbol, if it stands at the head. -/
def eat? (s : String) : List Token → Option (List Token)
  | .symbol t :: ts => if t = s then some ts else none
  | _ => none

def starts (s : String) (ts : List Token) : Bool := (eat? s ts).isSome

/-- The tokens after a symbol, which may be missing. -/
def skip (s : String) (ts : List Token) : List Token := (eat? s ts).getD ts

def expect (s : String) (ts : List Token) : Except SyntaxError (List Token) :=
  match eat? s ts with
  | some rest => .ok rest
  | none => .error (.expected s ts)

/-- The tokens after a name that serves as a keyword. -/
def eatWord? (w : String) : List Token → Option (List Token)
  | .identifier n :: ts => if n = w then some ts else none
  | _ => none

def expectWord (w : String) (ts : List Token) : Except SyntaxError (List Token) :=
  match eatWord? w ts with
  | some rest => .ok rest
  | none => .error (.expected w ts)

def readName : List Token → Except SyntaxError (Rest String)
  | .identifier n :: ts => .ok (n, ts)
  | ts => .error (.expectedName ts)

/-- After an element of a list: a comma, unless the list closes here. -/
def separator (close : String) (ts : List Token) : Except SyntaxError (List Token) :=
  if starts close ts then .ok ts else expect "," ts

/-- The tokens after the parenthesis that closes the first one still open, given how many are
    open. -/
def afterClosing? : Nat → List Token → Option (List Token)
  | _, [] => none
  | depth, .symbol s :: ts =>
    if s = "(" then afterClosing? (depth + 1) ts
    else if s = ")" then
      match depth with
      | 0 => none
      | 1 => some ts
      | n + 1 => afterClosing? n ts
    else afterClosing? depth ts
  | depth, _ :: ts => afterClosing? depth ts

/-- Skips to the end of the next group in parentheses. -/
def skipGroup (ts : List Token) : Except SyntaxError (List Token) :=
  match afterClosing? 0 ts with
  | some rest => .ok rest
  | none => .error .unbalancedParentheses

/-- Whether an arrow function starts here. -/
def atArrow : List Token → Bool
  | .identifier _ :: ts => starts "=>" ts
  | .symbol s :: ts => s = "(" && (afterClosing? 1 ts).any (starts "=>")
  | _ => false

/-! ## Patterns -/

/-- The bindings of an object pattern up to its closing brace. -/
def readBindings : Nat → List Token → Except SyntaxError (Rest (List (String × String)))
  | 0, _ => .error .tooDeep
  | n + 1, ts => do
    match eat? "\x7d" ts with
    | some rest => .ok ([], rest)
    | none =>
      let (key, rest) ← match ts with
        | .identifier k :: rest => .ok (k, rest)
        | .string k :: rest => .ok (k, rest)
        | _ => .error (.destructuringKey ts)
      let (name, rest) ← match eat? ":" rest with
        | some rest => readName rest
        | none => .ok (key, rest)
      let rest ← separator "\x7d" rest
      let (more, rest) ← readBindings n rest
      .ok ((key, name) :: more, rest)

def readPattern (ts : List Token) : Except SyntaxError (Rest Pattern) :=
  match eat? "\x7b" ts with
  | some rest => (readBindings (rest.length + 1) rest).map fun (bs, rest) => (.object bs, rest)
  | none => (readName ts).map fun (n, rest) => (.name n, rest)

/-- The patterns up to the closing parenthesis. -/
def readPatterns : Nat → List Token → Except SyntaxError (Rest (List Pattern))
  | 0, _ => .error .tooDeep
  | n + 1, ts => do
    match eat? ")" ts with
    | some rest => .ok ([], rest)
    | none =>
      let (p, rest) ← readPattern ts
      let rest ← separator ")" rest
      let (ps, rest) ← readPatterns n rest
      .ok (p :: ps, rest)

/-- The parameters after an opening parenthesis. -/
def readParams (ts : List Token) : Except SyntaxError (Rest (List Pattern)) :=
  readPatterns (ts.length + 1) ts

/-! ## Operators -/

/-- Infix operators: relational and arithmetic ones, or logical ones. -/
inductive InfixOp where
  | binary (op : BinaryOp)
  | logical (op : LogicalOp)
deriving DecidableEq, Repr

namespace InfixOp

/-- Binding strength; a higher one binds tighter. -/
def strength : InfixOp → Nat
  | logical .nullish => 1
  | logical .or => 2
  | logical .and => 3
  | binary .bitOr => 4
  | binary .bitXor => 5
  | binary .bitAnd => 6
  | binary .equals | binary .notEquals | binary .strictEquals | binary .strictNotEquals => 7
  | binary .less | binary .lessEquals | binary .greater | binary .greaterEquals
  | binary .isIn => 8
  | binary .shiftLeft | binary .shiftRight | binary .unsignedShiftRight => 9
  | binary .add | binary .subtract => 10
  | binary .multiply | binary .divide | binary .modulo => 11
  | binary .power => 12

/-- Whether a chain of the operator groups to the right. -/
def groupsRight (op : InfixOp) : Bool := op == binary .power

def node (op : InfixOp) (left right : Node) : Node :=
  match op with
  | binary o => .binary o left right
  | logical o => .logical o left right

def symbol : InfixOp → String
  | binary o => o.symbol
  | logical o => o.symbol

/-- The operators that are written as symbols. -/
def symbolic : List InfixOp :=
  [logical .nullish, logical .or, logical .and, binary .bitOr, binary .bitXor, binary .bitAnd,
    binary .equals, binary .notEquals, binary .strictEquals, binary .strictNotEquals,
    binary .less, binary .greater, binary .lessEquals, binary .greaterEquals,
    binary .shiftLeft, binary .shiftRight, binary .unsignedShiftRight, binary .add,
    binary .subtract, binary .multiply, binary .divide, binary .modulo, binary .power]

/-- The operator at the head; `in` is a name that serves as one. -/
def read? : List Token → Option (InfixOp × List Token)
  | .symbol s :: ts => (symbolic.find? (·.symbol == s)).map (·, ts)
  | .identifier n :: ts => if n = "in" then some (binary .isIn, ts) else none
  | _ => none

end InfixOp

/-- The leading operator at the head. -/
def readUnary? : List Token → Option (UnaryOp × List Token)
  | .symbol s :: ts =>
    ([.negate, .plus, .not, .bitNot].find? (·.symbol == s) : Option UnaryOp).map (·, ts)
  | .identifier n :: ts => if n = "typeof" then some (.typeOf, ts) else none
  | _ => none

/-- `++` or `--` at the head. -/
def readStep? : List Token → Option (String × List Token)
  | .symbol s :: ts => if s = "++" ∨ s = "--" then some (s, ts) else none
  | _ => none

def assignmentOps : List String :=
  ["=", "+=", "-=", "*=", "/=", "%=", "**=", "<<=", ">>=", ">>>=", "&=", "|=", "^="]

def readAssignmentOp? : List Token → Option (String × List Token)
  | .symbol s :: ts => if assignmentOps.contains s then some (s, ts) else none
  | _ => none

def readDeclarationKind? : List Token → Option (DeclarationKind × List Token)
  | .identifier n :: ts =>
    ([.const, .let, .var].find? (·.word == n) : Option DeclarationKind).map (·, ts)
  | _ => none

/-- Whether `yield` stands without an argument. -/
def endsYield (ts : List Token) : Bool :=
  ts.isEmpty || starts ")" ts || starts "]" ts || starts "\x7d" ts || starts "," ts || starts ";" ts

/-- The key of an object property; the flag tells a name, which can stand for its value. -/
def readKey : List Token → Except SyntaxError (Rest (String × Bool))
  | .identifier n :: ts => .ok ((n, true), ts)
  | .string s :: ts => .ok ((s, false), ts)
  | .number x :: ts => .ok ((Number.text x, false), ts)
  | ts => .error (if starts "[" ts then .computedKey else .objectKey ts)

/-! ## Expressions and statements -/

mutual

/-- An expression of any kind. -/
def readExpression : Nat → List Token → Except SyntaxError (Rest Node)
  | 0, _ => .error .tooDeep
  | n + 1, ts =>
    if atArrow ts then readArrow n ts
    else match eatWord? "yield" ts with
      | some rest =>
        if endsYield rest then .ok (.yield none, rest)
        else (readExpression n rest).map fun (a, rest) => (.yield (some a), rest)
      | none => do
        let (target, rest) ← readConditional n ts
        match readAssignmentOp? rest with
        | some (op, rest) =>
          let (value, rest) ← readExpression n rest
          .ok (.assignment op target value, rest)
        | none => .ok (target, rest)

def readArrow : Nat → List Token → Except SyntaxError (Rest Node)
  | 0, _ => .error .tooDeep
  | n + 1, ts => do
    let (params, rest) ← match eat? "(" ts with
      | some rest => readParams rest
      | none => (readName ts).map fun (name, rest) => ([.name name], rest)
    let rest ← expect "=>" rest
    let (body, rest) ← if starts "\x7b" rest then readBlock n rest else readExpression n rest
    .ok (.arrow params body, rest)

def readConditional : Nat → List Token → Except SyntaxError (Rest Node)
  | 0, _ => .error .tooDeep
  | n + 1, ts => do
    let (test, rest) ← readInfix n 0 ts
    match eat? "?" rest with
    | some rest =>
      let (consequent, rest) ← readExpression n rest
      let rest ← expect ":" rest
      let (alternate, rest) ← readExpression n rest
      .ok (.conditional test consequent alternate, rest)
    | none => .ok (test, rest)

/-- Operands joined by infix operators of at least the given strength. -/
def readInfix : Nat → Nat → List Token → Except SyntaxError (Rest Node)
  | 0, _, _ => .error .tooDeep
  | n + 1, least, ts => do
    let (left, rest) ← readLeading n ts
    readInfixAfter n least left rest

/-- Goes on after a left operand. -/
def readInfixAfter : Nat → Nat → Node → List Token → Except SyntaxError (Rest Node)
  | 0, _, _, _ => .error .tooDeep
  | n + 1, least, left, ts =>
    match InfixOp.read? ts with
    | some (op, rest) =>
      if op.strength < least then .ok (left, ts)
      else do
        let next := if op.groupsRight then op.strength else op.strength + 1
        let (right, rest) ← readInfix n next rest
        readInfixAfter n least (op.node left right) rest
    | none => .ok (left, ts)

/-- An operand with its leading operators. -/
def readLeading : Nat → List Token → Except SyntaxError (Rest Node)
  | 0, _ => .error .tooDeep
  | n + 1, ts =>
    match readUnary? ts with
    | some (op, rest) => (readLeading n rest).map fun (a, rest) => (.unary op a, rest)
    | none => match readStep? ts with
      | some (op, rest) => (readLeading n rest).map fun (a, rest) => (.update op true a, rest)
      | none => match eatWord? "await" ts with
        | some rest => (readLeading n rest).map fun (a, rest) => (.await a, rest)
        | none => do
          let (a, rest) ← readAccess n ts
          match readStep? rest with
          | some (op, rest) => .ok (.update op false a, rest)
          | none => .ok (a, rest)

/-- A primary with its accesses and calls. -/
def readAccess : Nat → List Token → Except SyntaxError (Rest Node)
  | 0, _ => .error .tooDeep
  | n + 1, ts => do
    let (head, rest) ← readPrimary n ts
    readAccessAfter n head rest

/-- Goes on after an object or a callee. -/
def readAccessAfter : Nat → Node → List Token → Except SyntaxError (Rest Node)
  | 0, _, _ => .error .tooDeep
  | n + 1, head, ts =>
    match eat? "." ts with
    | some rest => do
      let (name, rest) ← readName rest
      readAccessAfter n (.member head (.identifier name) false) rest
    | none => match eat? "[" ts with
      | some rest => do
        let (property, rest) ← readExpression n rest
        let rest ← expect "]" rest
        readAccessAfter n (.member head property true) rest
      | none => match eat? "(" ts with
        | some rest => do
          let (arguments, rest) ← readList n ")" rest
          readAccessAfter n (.call head arguments) rest
        | none => .ok (head, ts)

/-- Expressions between commas, up to a closing symbol. -/
def readList : Nat → String → List Token → Except SyntaxError (Rest (List Node))
  | 0, _, _ => .error .tooDeep
  | n + 1, close, ts =>
    match eat? close ts with
    | some rest => .ok ([], rest)
    | none => do
      let (a, rest) ← readExpression n ts
      let rest ← separator close rest
      let (as, rest) ← readList n close rest
      .ok (a :: as, rest)

def readPrimary : Nat → List Token → Except SyntaxError (Rest Node)
  | 0, _ => .error .tooDeep
  | n + 1, ts =>
    match ts with
    | [] => .error (.noExpression ts)
    | .number x :: rest => .ok (.literal (.number x), rest)
    | .string s :: rest => .ok (.literal (.string s), rest)
    | .identifier name :: rest =>
      if name = "function" then readFunction n ts
      else if name = "true" then .ok (.literal (.boolean true), rest)
      else if name = "false" then .ok (.literal (.boolean false), rest)
      else if name = "null" then .ok (.literal .null, rest)
      else .ok (.identifier name, rest)
    | .symbol s :: rest =>
      if s = "(" then do
        let (a, rest) ← readExpression n rest
        let rest ← expect ")" rest
        .ok (a, rest)
      else if s = "[" then
        (readList n "]" rest).map fun (as, rest) => (.array as, rest)
      else if s = "\x7b" then
        (readProperties n rest).map fun (ps, rest) => (.object ps, rest)
      else .error (.noExpression ts)

/-- The properties of an object up to its closing brace. -/
def readProperties : Nat → List Token → Except SyntaxError (Rest (List (String × Node)))
  | 0, _ => .error .tooDeep
  | n + 1, ts =>
    match eat? "\x7d" ts with
    | some rest => .ok ([], rest)
    | none => do
      let ((key, isNamed), rest) ← readKey ts
      let (value, rest) ← match eat? ":" rest with
        | some rest => readExpression n rest
        | none =>
          if isNamed then .ok (.identifier key, rest) else .error (.colonAfterKey key)
      let rest ← separator "\x7d" rest
      let (more, rest) ← readProperties n rest
      .ok ((key, value) :: more, rest)

def readFunction : Nat → List Token → Except SyntaxError (Rest Node)
  | 0, _ => .error .tooDeep
  | n + 1, ts => do
    let rest ← expectWord "function" ts
    let (name, rest) := match rest with
      | .identifier name :: rest => (some name, rest)
      | _ => (none, rest)
    let rest ← expect "(" rest
    let (params, rest) ← readParams rest
    let (body, rest) ← readBlock n rest
    .ok (.function name params body, rest)

def readBlock : Nat → List Token → Except SyntaxError (Rest Node)
  | 0, _ => .error .tooDeep
  | n + 1, ts => do
    let rest ← expect "\x7b" ts
    let (body, rest) ← readStatements n rest
    .ok (.block body, rest)

/-- The statements of a block up to its closing brace. -/
def readStatements : Nat → List Token → Except SyntaxError (Rest (List Node))
  | 0, _ => .error .tooDeep
  | n + 1, ts =>
    match eat? "\x7d" ts with
    | some rest => .ok ([], rest)
    | none => match eat? ";" ts with
      | some rest => readStatements n rest
      | none =>
        if ts.isEmpty then .error .unterminatedBlock
        else do
          let (s, rest) ← readStatement n ts
          let (ss, rest) ← readStatements n rest
          .ok (s :: ss, rest)

def readStatement : Nat → List Token → Except SyntaxError (Rest Node)
  | 0, _ => .error .tooDeep
  | n + 1, ts =>
    if starts "\x7b" ts then readBlock n ts
    else match readDeclarationKind? ts with
    | some (kind, rest) => do
      let (declarations, rest) ← readDeclarations n rest
      .ok (.declaration kind declarations, skip ";" rest)
    | none => match eatWord? "return" ts with
    | some rest =>
      if starts ";" rest || starts "\x7d" rest then .ok (.returns none, skip ";" rest)
      else do
        let (a, rest) ← readExpression n rest
        .ok (.returns (some a), skip ";" rest)
    | none => match eatWord? "if" ts with
    | some rest => do
      let rest ← expect "(" rest
      let (test, rest) ← readExpression n rest
      let rest ← expect ")" rest
      let (consequent, rest) ← readStatement n rest
      let rest := skip ";" rest
      match eatWord? "else" rest with
      | some rest =>
        let (alternate, rest) ← readStatement n rest
        .ok (.branch test consequent (some alternate), rest)
      | none => .ok (.branch test consequent none, rest)
    | none => match eatWord? "for" ts with
    | some rest => do
      let rest ← skipGroup rest
      let (body, rest) ← readStatement n rest
      .ok (.loop .for body, rest)
    | none => match eatWord? "while" ts with
    | some rest => do
      let rest ← skipGroup rest
      let (body, rest) ← readStatement n rest
      .ok (.loop .while body, rest)
    | none => match eatWord? "do" ts with
    | some rest => do
      let (body, rest) ← readStatement n rest
      let rest ← expectWord "while" rest
      let rest ← skipGroup rest
      .ok (.loop .doWhile body, skip ";" rest)
    | none => match eatWord? "function" ts with
    | some _ => readFunction n ts
    | none => do
      let (a, rest) ← readExpression n ts
      .ok (a, skip ";" rest)

/-- Declarations between commas. -/
def readDeclarations : Nat → List Token → Except SyntaxError (Rest (List (Pattern × Option Node)))
  | 0, _ => .error .tooDeep
  | n + 1, ts => do
    let (p, rest) ← readPattern ts
    let (init, rest) ← match eat? "=" rest with
      | some rest => (readExpression n rest).map fun (a, rest) => (some a, rest)
      | none => .ok (none, rest)
    match eat? "," rest with
    | some rest =>
      let (more, rest) ← readDeclarations n rest
      .ok ((p, init) :: more, rest)
    | none => .ok ([(p, init)], rest)

end

/-- A whole list of tokens as an expression, which a semicolon may end. Between two tokens
    the readers nest at most nine deep. -/
def ofTokens (ts : List Token) : Except SyntaxError Node := do
  let (a, rest) ← readExpression (10 * (ts.length + 2)) ts
  let rest := skip ";" rest
  if rest.isEmpty then .ok a else .error (.trailing rest)

/-- A text as an expression. -/
def parse (s : String) : Except SyntaxError Node := do
  let ts ← Token.scan s.toList
  ofTokens ts

end Node

end ColumnQuery
