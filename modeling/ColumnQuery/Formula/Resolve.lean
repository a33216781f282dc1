/-
  From syntax trees to formulas.

  Resolution binds the names of an expression, refuses what may not be evaluated, and sets
  aggregate and window calls aside as lists of calls. With every formula comes the tree it was
  resolved from, rewritten so that references to columns and parameters stand for themselves;
  the rewritten tree can be resolved again.

  Names are looked up innermost first: block constants, destructured columns, destructured
  parameters, the names of tables and of the parameters, numeric constants. A function literal
  at the root binds the tables by position and then the parameters; without one the tables are
  `d` (or `d1` and `d2`) and the parameters `$`. A `rolling` form at the root gives the
  operators in it a frame.

  Calls of one operator with equal fields, equal parameters and the same frame are one call.
-/
import ColumnQuery.Aggregate.Basic
import ColumnQuery.Error
import ColumnQuery.Formula.Eval
import ColumnQuery.Syntax.Node.Parser
import ColumnQuery.Window.Function

namespace ColumnQuery

/-! ## What is resolved, and into what -/

/-- Everything that can stand where an expression is expected. -/
inductive ExprSpec where
  | source (text : String)
  | tree (node : Node)
  | escape (function : EscapedFunction)
  | value (value : Value)
  | column (name : String)
  | rolling (spec : ExprSpec) (frame : Frame)

/-- What expressions may contain. -/
structure ResolveOptions where
  /-- Aggregate calls. -/
  aggregate : Bool
  /-- Window calls, and aggregates over a frame. -/
  window : Bool
  /-- Columns only inside of aggregate calls. -/
  aggregateOnly : Bool
  /-- Two input tables. -/
  join : Bool
deriving DecidableEq, Repr

namespace ResolveOptions

def rows : ResolveOptions := ⟨false, false, false, false⟩

def derive : ResolveOptions := ⟨true, true, false, false⟩

def rollup : ResolveOptions := ⟨true, false, true, false⟩

def joined : ResolveOptions := ⟨false, false, false, true⟩

end ResolveOptions

/-- A call of an aggregate over whole groups. -/
structure AggregateCall where
  aggregate : Aggregate
  fields : List Formula
  /-- The rewritten fields. -/
  key : List Node
  params : List Value

/-- What is computed row by row over partitions. -/
inductive WindowOperator where
  | function (f : WindowFunction)
  | aggregate (a : Aggregate)
deriving DecidableEq, Repr

def WindowOperator.name : WindowOperator → String
  | function f => f.name
  | aggregate a => a.name

/-- A call of a window function, or of an aggregate over a frame. -/
structure WindowCall where
  operator : WindowOperator
  fields : List Formula
  key : List Node
  params : List Value
  frame : Frame

/-- A resolved expression under its name. Values that no literal spells and escaped functions
    have no tree. -/
structure NamedFormula where
  name : String
  formula : Formula
  tree : Option Node

/-- The outcome of resolving a list of named expressions. -/
structure Resolution where
  exprs : List NamedFormula
  aggregates : List AggregateCall
  windows : List WindowCall
  join : Bool

/-- What expressions are resolved against. -/
structure ResolveContext where
  tables : List Table
  params : Params
  options : ResolveOptions

/-! ## Names -/

/-- The names that the header of an expression binds. -/
structure Scope where
  /-- The names of the tables, by position. -/
  tables : List (Option String)
  /-- Destructured columns: a name, the position of its table and the column. -/
  columns : List (String × Nat × String)
  /-- The name of the parameters. -/
  params : Option String
  /-- Destructured parameters: a name and its parameter. -/
  paramNames : List (String × String)
deriving Inhabited

namespace Scope

/-- The names without a header. -/
def standard (tables : Nat) : Scope :=
  ⟨if 1 < tables then [some "d1", some "d2"] else [some "d"], [], some "$", []⟩

/-- Binds one parameter of a header; of two bindings of a name the later one holds. -/
def bindOne (tables : Nat) (s : Scope) (p : Pattern) (i : Nat) : Scope :=
  if i < tables then
    match p with
    | .name n => { s with tables := s.tables.set i (some n) }
    | .object bs => { s with columns := (bs.map fun b => (b.2, i, b.1)).reverse ++ s.columns }
  else if i = tables then
    match p with
    | .name n => { s with params := some n }
    | .object bs => { s with paramNames := (bs.map fun b => (b.2, b.1)).reverse ++ s.paramNames }
  else s

/-- The names that a header binds. -/
def bind (patterns : List Pattern) (tables : Nat) : Scope :=
  patterns.zipIdx.foldl (fun s (p, i) => bindOne tables s p i)
    ⟨List.replicate tables none, [], none, []⟩

/-- The position of the table of a name. -/
def tableOf? (s : Scope) (name : String) : Option Nat := s.tables.findIdx? (· == some name)

end Scope

namespace Constants

/-- The numeric constants of `Math`. -/
def math : List (String × Float) :=
  [("E", 2.718281828459045), ("LN2", 0.6931471805599453), ("LN10", 2.302585092994046),
    ("LOG2E", 1.4426950408889634), ("LOG10E", 0.4342944819032518), ("PI", 3.141592653589793),
    ("SQRT1_2", 0.7071067811865476), ("SQRT2", 1.4142135623730951)]

def math? (name : String) : Option Value := (math.lookup name).map .number

/-- Constants that need no prefix. -/
def global? (name : String) : Option Value :=
  if name = "undefined" then some .null
  else if name = "NaN" then some (.number Number.notANumber)
  else if name = "Infinity" then some (.number Number.infinity)
  else math? name

end Constants

/-! ## The state of resolution -/

/-- What resolution has gathered so far. -/
structure ResolveState where
  /-- Block constants with their slots, by block, innermost first. -/
  locals : List (List (String × Nat))
  nextSlot : Nat
  aggregates : List AggregateCall
  windows : List WindowCall

namespace ResolveState

def empty : ResolveState := ⟨[], 0, [], []⟩

def local? (s : ResolveState) (name : String) : Option Nat :=
  s.locals.findSome? (·.lookup name)

def isLocal (s : ResolveState) (name : String) : Bool := (s.local? name).isSome

/-- Opens a block. -/
def enter (s : ResolveState) : ResolveState := { s with locals := [] :: s.locals }

/-- Closes the innermost block. -/
def leave (s : ResolveState) : ResolveState := { s with locals := s.locals.drop 1 }

/-- Declares a constant in the innermost block, in a slot of its own. -/
def declare (s : ResolveState) (name : String) : ResolveState :=
  { s with
    locals := match s.locals with
      | block :: outer => ((name, s.nextSlot) :: block) :: outer
      | [] => []
    nextSlot := s.nextSlot + 1 }

end ResolveState

abbrev Resolve := StateT ResolveState (Except QueryError)

/-- Where in an expression resolution stands. -/
structure Site where
  scope : Scope
  /-- The frame of the operators. -/
  frame : Option Frame
  /-- Inside the arguments of an operator. -/
  inOperator : Bool

namespace Resolve

/-! ## References -/

def column (ctx : ResolveContext) (site : Site) (node : Node) (table : Nat) (name : String) :
    Except QueryError (Formula × Node) :=
  match ctx.tables[table]? with
  | none => .error (.reference (.noTable table) node)
  | some t =>
    match t.column? name with
    | none => .error (.reference (.unknownColumn name) node)
    | some c =>
      if ctx.options.aggregateOnly && !site.inOperator then
        .error (.reference (.outsideAggregate name) node)
      else .ok (.column table c, .column table name)

def parameter (ctx : ResolveContext) (node : Node) (name : String) :
    Except QueryError (Formula × Node) :=
  match ctx.params.get? name with
  | some v => .ok (.literal v, .parameter name)
  | none => .error (.reference (.unknownParameter name) node)

def identifier (ctx : ResolveContext) (site : Site) (node : Node) (name : String)
    (s : ResolveState) : Except QueryError (Formula × Node) :=
  match s.local? name with
  | some slot =>
    if site.inOperator then .error (.reference (.localInOperator name) node)
    else .ok (.slot slot, node)
  | none =>
    match site.scope.columns.lookup name, site.scope.paramNames.lookup name with
    | some (table, col), _ => column ctx site node table col
    | none, some param => parameter ctx node param
    | none, none =>
      if (site.scope.tableOf? name).isSome then .error (.reference (.bareTable name) node)
      else if site.scope.params = some name then .error (.reference (.bareParams name) node)
      else
        match Constants.global? name with
        | some v => .ok (.literal v, node)
        | none => .error (.reference (.undefined name) node)

/-- What a name before a member access stands for. -/
inductive Owner where
  | table (position : Nat)
  | params
  | math
  | other

/-- Block constants hide the names of tables and parameters. -/
def ownerOf (site : Site) (s : ResolveState) : Node → Owner
  | .identifier name =>
    if s.isLocal name then .other
    else match site.scope.tableOf? name with
      | some t => .table t
      | none =>
        if site.scope.params = some name then .params
        else if name = "Math" then .math
        else .other
  | _ => .other

/-- The key of a member access that needs no resolution. -/
def plainKey? : Bool → Node → Option String
  | false, .identifier name => some name
  | true, .literal v => some v.toValue.text
  | _, _ => none

def mathConstant (node : Node) (key : String) : Except QueryError (Formula × Node) :=
  match Constants.math? key with
  | some v => .ok (.literal v, node)
  | none => .error (.member (.unknownConstant key) node)

/-- The column, parameter or constant of a key. -/
def owned (ctx : ResolveContext) (site : Site) (node : Node) (owner : Owner) (key : String) :
    Except QueryError (Formula × Node) :=
  match owner with
  | .table t => column ctx site node t key
  | .params => parameter ctx node key
  | .math => mathConstant node key
  | .other => .error (.member .variableKey node)

/-! ## Equality with dictionary texts -/

/-- Equality of a dictionary column with a text; a text that the dictionary lacks equals no
    cell. -/
def dictionaryEquality? (col lit : Formula) (negated : Bool) : Option Formula :=
  match col, lit with
  | .column table c, .literal (.string s) =>
    (c.lookup (.string s)).map fun
      | .present key => .dictionaryEq table c key negated
      | .absent => .literal (.boolean negated)
  | _, _ => none

/-- Whether an operator is an equality, and if so whether a negated one. -/
def equality? : BinaryOp → Option Bool
  | .equals | .strictEquals => some false
  | .notEquals | .strictNotEquals => some true
  | _ => none

def binary (op : BinaryOp) (l r : Formula) : Formula :=
  (do
    let negated ← equality? op
    dictionaryEquality? l r negated <|> dictionaryEquality? r l negated).getD (.binary op l r)

/-! ## Calls -/

/-- What a callee stands for. -/
inductive Callee where
  | scalar (f : ScalarFunction)
  | aggregate (a : Aggregate)
  | window (f : WindowFunction)

/-- The function of a name: an aggregate before a window function before a scalar one. -/
def functionOf? (name : String) : Option Callee :=
  (Aggregate.lookup? name).map .aggregate
    <|> (WindowFunction.lookup? name).map .window
    <|> (ScalarFunction.lookup? name).map .scalar

def namedCallee (node : Node) (name : String) : Except QueryError Callee :=
  match functionOf? name with
  | some c => .ok c
  | none => .error (.call (.unknownFunction name) node)

def mathCallee (node : Node) (name : String) : Except QueryError Callee :=
  match ScalarFunction.lookupMath? name with
  | some f => .ok (.scalar f)
  | none => .error (.call (.unsupportedMath name) node)

/-- The function that is called: a bare name, or a member of `op` or `Math`. -/
def callee (node callee : Node) (s : ResolveState) : Except QueryError Callee :=
  match callee with
  | .identifier name =>
    if s.isLocal name then .error (.call .notCallable node) else namedCallee node name
  | .member (.identifier ns) (.identifier name) false =>
    if s.isLocal ns then .error (.call .notCallable node)
    else if ns = "op" then namedCallee node name
    else if ns = "Math" then mathCallee node name
    else .error (.call .notCallable node)
  | .arrow _ _ | .function _ _ _ => .error (.refused .functionDefinition callee)
  | _ => .error (.call .notCallable node)

/-- Refuses an operator call in the arguments of another, or with a wrong number of
    arguments. -/
def checkOperands (site : Site) (node : Node) (name : String) (fields params actual : Nat) :
    Except QueryError Unit :=
  if site.inOperator then .error (.call (.nestedOperator name) node)
  else if actual < fields ∨ fields + params < actual then
    .error (.call (.operandCount name fields params actual) node)
  else .ok ()

/-- Refuses an aggregate call where none is allowed. -/
def checkAggregate (ctx : ResolveContext) (site : Site) (node : Node) (a : Aggregate) :
    Except QueryError Unit :=
  match site.frame with
  | some _ =>
    if ctx.options.window then .ok () else .error (.call (.rollingAggregate a.name) node)
  | none =>
    if ctx.options.aggregate then .ok () else .error (.call (.aggregate a.name) node)

/-- The resolved arguments of an operator call. -/
structure Operands where
  fields : List (Formula × Node)
  params : List (Value × Node)

namespace Operands

def formulas (o : Operands) : List Formula := o.fields.map (·.1)

def key (o : Operands) : List Node := o.fields.map (·.2)

def values (o : Operands) : List Value := o.params.map (·.1)

/-- The rewritten arguments. -/
def nodes (o : Operands) : List Node := o.key ++ o.params.map (·.2)

end Operands

/-- The place of an aggregate call, which is added unless there is an equal one. -/
def registerAggregate (a : Aggregate) (o : Operands) : Resolve OpRef := do
  let s ← get
  match s.aggregates.findIdx? fun c =>
      c.aggregate == a && Node.sameList c.key o.key && Value.sameItems c.params o.values with
  | some i => return .aggregate i
  | none =>
    let call : AggregateCall := ⟨a, o.formulas, o.key, o.values⟩
    set { s with aggregates := s.aggregates ++ [call] }
    return .aggregate s.aggregates.length

/-- The place of a window call, which is added unless there is an equal one. -/
def registerWindow (w : WindowOperator) (o : Operands) (frame : Frame) : Resolve OpRef := do
  let s ← get
  match s.windows.findIdx? fun c =>
      c.operator == w && Node.sameList c.key o.key && Value.sameItems c.params o.values
        && c.frame == frame with
  | some i => return .window i
  | none =>
    let call : WindowCall := ⟨w, o.formulas, o.key, o.values, frame⟩
    set { s with windows := s.windows ++ [call] }
    return .window s.windows.length

/-- An aggregate goes over its whole group, or over the frame of the site. -/
def registerAggregateAt (site : Site) (a : Aggregate) (o : Operands) : Resolve OpRef :=
  match site.frame with
  | some frame => registerWindow (.aggregate a) o frame
  | none => registerAggregate a o

/-! ## Expressions and statements -/

mutual

/-- The formula of an expression and its rewritten tree. -/
def expression (ctx : ResolveContext) (site : Site) : Node → Resolve (Formula × Node)
  | .literal v => return (.literal v.toValue, .literal v)
  | .identifier name => do identifier ctx site (.identifier name) name (← get)
  | .column t name => column ctx site (.column t name) t name
  | .parameter name => parameter ctx (.parameter name) name
  | .member object property computed => do
    let node := Node.member object property computed
    match ownerOf site (← get) object with
    | .other =>
      let (o, oNode) ← expression ctx site object
      match computed, property with
      | false, .identifier name =>
        return (.member o (.literal (.string name)), .member oNode (.identifier name) false)
      | computed, property =>
        let (p, pNode) ← expression ctx site property
        return (.member o p, .member oNode pNode computed)
    | owner =>
      match plainKey? computed property with
      | some key => owned ctx site node owner key
      | none =>
        let (p, _) ← expression ctx site property
        match p.constant? with
        | some v => owned ctx site node owner v.text
        | none => throw (.member .variableKey node)
  | .call f args => do
    let node := Node.call f args
    match ← callee node f (← get) with
    | .scalar g =>
      unless g.admits args.length do
        throw (.call (.argumentCount g.name g.arity.1 g.arity.2 args.length) node)
      let as ← expressions ctx site args
      return (.call g (as.map (·.1)), .call f (as.map (·.2)))
    | .aggregate a =>
      checkAggregate ctx site node a
      checkOperands site node a.name a.fieldCount a.paramCount args.length
      let o ← operands ctx { site with inOperator := true } node a.name a.fieldCount args
      return (.op (← registerAggregateAt site a o), .call f o.nodes)
    | .window w =>
      unless ctx.options.window do throw (.call (.window w.name) node)
      checkOperands site node w.name w.fieldCount w.paramCount args.length
      let o ← operands ctx { site with inOperator := true } node w.name w.fieldCount args
      return (.op (← registerWindow (.function w) o (site.frame.getD .whole)), .call f o.nodes)
  | .unary op a => do
    let (a, aNode) ← expression ctx site a
    return (.unary op a, .unary op aNode)
  | .binary op l r => do
    let (l, lNode) ← expression ctx site l
    let (r, rNode) ← expression ctx site r
    return (binary op l r, .binary op lNode rNode)
  | .logical op l r => do
    let (l, lNode) ← expression ctx site l
    let (r, rNode) ← expression ctx site r
    return (.logical op l r, .logical op lNode rNode)
  | .conditional t c a => do
    let (t, tNode) ← expression ctx site t
    let (c, cNode) ← expression ctx site c
    let (a, aNode) ← expression ctx site a
    return (.conditional t c a, .conditional tNode cNode aNode)
  | .array es => do
    let es ← expressions ctx site es
    return (.array (es.map (·.1)), .array (es.map (·.2)))
  | .object ps => do
    let ps ← properties ctx site ps
    return (.object (ps.map fun p => (p.1, p.2.1)), .object (ps.map fun p => (p.1, p.2.2)))
  | .arrow ps b => throw (.refused .functionDefinition (.arrow ps b))
  | .function n ps b => throw (.refused .functionDefinition (.function n ps b))
  | .block ss => throw (.refused .misplacedStatement (.block ss))
  | .declaration k ds => throw (.refused .misplacedStatement (.declaration k ds))
  | .returns a => throw (.refused .misplacedStatement (.returns a))
  | .branch t c a => throw (.refused .misplacedStatement (.branch t c a))
  | .loop k b => throw (.refused .loop (.loop k b))
  | .assignment o t v => throw (.refused .assignment (.assignment o t v))
  | .update o l a => throw (.refused .assignment (.update o l a))
  | .await a => throw (.refused .awaitOrYield (.await a))
  | .yield a => throw (.refused .awaitOrYield (.yield a))
  | .rolling f b => throw (.refused .nestedRolling (.rolling f b))

def expressions (ctx : ResolveContext) (site : Site) : List Node → Resolve (List (Formula × Node))
  | [] => return []
  | n :: ns => do
    let e ← expression ctx site n
    let es ← expressions ctx site ns
    return e :: es

def properties (ctx : ResolveContext) (site : Site) :
    List (String × Node) → Resolve (List (String × Formula × Node))
  | [] => return []
  | (k, n) :: ps => do
    let e ← expression ctx site n
    let es ← properties ctx site ps
    return (k, e) :: es

/-- The arguments of an operator call: so many fields, and then constant parameters. -/
def operands (ctx : ResolveContext) (site : Site) (node : Node) (name : String) :
    Nat → List Node → Resolve Operands
  | _, [] => return ⟨[], []⟩
  | fields + 1, n :: ns => do
    let e ← expression ctx site n
    let o ← operands ctx site node name fields ns
    return { o with fields := e :: o.fields }
  | 0, n :: ns => do
    let (p, pNode) ← expression ctx site n
    match p.constant? with
    | some v =>
      let o ← operands ctx site node name 0 ns
      return { o with params := (v, pNode) :: o.params }
    | none => throw (.call (.variableParameter name) node)

/-- The statements of a statement tree and its rewritten tree. -/
def statement (ctx : ResolveContext) (site : Site) : Node → Resolve (List Statement × Node)
  | .declaration kind ds => do
    let ds ← declarations ctx site (.declaration kind ds) ds
    return (ds.map (·.1), .declaration kind (ds.map (·.2)))
  | .returns none => return ([.returns none], .returns none)
  | .returns (some a) => do
    let (a, aNode) ← expression ctx site a
    return ([.returns (some a)], .returns (some aNode))
  | .branch t c none => do
    let (t, tNode) ← expression ctx site t
    let (c, cNode) ← branch ctx site c
    return ([.branch t c []], .branch tNode cNode none)
  | .branch t c (some a) => do
    let (t, tNode) ← expression ctx site t
    let (c, cNode) ← branch ctx site c
    let (a, aNode) ← branch ctx site a
    return ([.branch t c a], .branch tNode cNode (some aNode))
  | .block ss => do
    modify (·.enter)
    let (ss, nodes) ← statements ctx site ss
    modify (·.leave)
    return ([.block ss], .block nodes)
  | n => do
    let (e, eNode) ← expression ctx site n
    return ([.expression e], eNode)

/-- A branch of a condition, which has a block of its own. -/
def branch (ctx : ResolveContext) (site : Site) : Node → Resolve (List Statement × Node)
  | .block ss => do
    modify (·.enter)
    let (ss, nodes) ← statements ctx site ss
    modify (·.leave)
    return (ss, .block nodes)
  | n => do
    modify (·.enter)
    let r ← statement ctx site n
    modify (·.leave)
    return r

def statements (ctx : ResolveContext) (site : Site) :
    List Node → Resolve (List Statement × List Node)
  | [] => return ([], [])
  | n :: ns => do
    let (ss, node) ← statement ctx site n
    let (more, nodes) ← statements ctx site ns
    return (ss ++ more, node :: nodes)

/-- Declarations of constants; each sees those before it. -/
def declarations (ctx : ResolveContext) (site : Site) (node : Node) :
    List (Pattern × Option Node) → Resolve (List (Statement × Pattern × Option Node))
  | [] => return []
  | (.object _, _) :: _ => throw (.refused .destructuring node)
  | (.name _, none) :: _ => throw (.refused .missingInitializer node)
  | (.name name, some init) :: ds => do
    let (e, eNode) ← expression ctx site init
    let slot := (← get).nextSlot
    modify (·.declare name)
    let more ← declarations ctx site node ds
    return (.assign slot e, .name name, some eNode) :: more

end

/-! ## Roots -/

/-- The offset that a bound of a frame stands for: null, or a whole number. -/
def bound? : Node → Option (Option Int)
  | .literal .null => some none
  | .literal (.number x) => if Number.isIntegral x then some (some (Number.toInt64 x)) else none
  | .unary .negate (.literal (.number x)) =>
    if Number.isIntegral x then some (some (Number.toInt64 (-x))) else none
  | _ => none

def peers? : List Node → Option Bool
  | [] => some false
  | [.literal (.boolean b)] => some b
  | _ => none

/-- The frame and the body of the arguments of `rolling(body, [start, end], peers)`. -/
def rollingArguments? : List Node → Option (Frame × Node)
  | body :: .array [start, stop] :: rest => do
    let start ← bound? start
    let stop ← bound? stop
    let peers ← peers? rest
    return (⟨start, stop, peers⟩, body)
  | _ => none

/-- The frame and the body of a root in rolling form. -/
def rollingRoot (node : Node) : Except QueryError (Option (Frame × Node)) :=
  match node with
  | .rolling frame body => .ok (some (frame, body))
  | .call (.identifier "rolling") arguments =>
    match rollingArguments? arguments with
    | some r => .ok (some r)
    | none => .error (.call .malformedRolling node)
  | _ => .ok none

/-- A function body: a block, or an expression. -/
def body (ctx : ResolveContext) (site : Site) : Node → Resolve (Formula × Node)
  | .block ss => do
    modify (·.enter)
    let (ss, nodes) ← statements ctx site ss
    modify (·.leave)
    return (.block ss, .block nodes)
  | n => expression ctx site n

/-- The names that a root binds, and its body. -/
def header (tables : Nat) : Node → Scope × Node
  | .arrow ps b => (Scope.bind ps tables, b)
  | .function _ ps b => (Scope.bind ps tables, b)
  | n => (Scope.standard tables, n)

/-- A whole expression, under the frame that stands around it. -/
def root (ctx : ResolveContext) (frame : Option Frame) (node : Node) :
    Resolve (Formula × Node) := do
  let (scope, inner) := header ctx.tables.length node
  modify fun s => { s with locals := [], nextSlot := 0 }
  match ← rollingRoot inner with
  | some (frame, inner) =>
    let (f, tree) ← body ctx ⟨scope, some frame, false⟩ inner
    return (f, .rolling frame tree)
  | none => body ctx ⟨scope, frame, false⟩ inner

/-- Whatever stands for an expression. -/
def spec (ctx : ResolveContext) (frame : Option Frame) : ExprSpec → Resolve (Formula × Option Node)
  | .source text => do
    let node ← (Node.parse text).mapError (QueryError.parse · text)
    let (f, tree) ← root ctx frame node
    return (f, some tree)
  | .tree node => do
    let (f, tree) ← root ctx frame node
    return (f, some tree)
  | .escape f => return (.escape f ctx.tables ctx.params, none)
  | .value v => return (.literal v, (Literal.ofValue? v).map .literal)
  | .column name => do
    let (f, tree) ← root ctx frame (.column 0 name)
    return (f, some tree)
  | .rolling inner frame => do
    let (f, tree) ← spec ctx (some frame) inner
    return (f, tree.map (.rolling frame))

def named (ctx : ResolveContext) : List (String × ExprSpec) → Resolve (List NamedFormula)
  | [] => return []
  | (name, e) :: es => do
    let (f, tree) ← spec ctx none e
    let more ← named ctx es
    return ⟨name, f, tree⟩ :: more

end Resolve

/-- Resolves named expressions together. -/
def resolve (ctx : ResolveContext) (exprs : List (String × ExprSpec)) :
    Except QueryError Resolution := do
  let (es, s) ← (Resolve.named ctx exprs).run .empty
  return ⟨es, s.aggregates, s.windows, ctx.options.join⟩

namespace Resolution

def hasOps (r : Resolution) : Bool := !r.aggregates.isEmpty || !r.windows.isEmpty

/-- The names of the tables in exported text. -/
def tableNames (r : Resolution) : List String := if r.join then ["d1", "d2"] else ["d"]

/-- The text of an expression as a function of the tables and the parameters. -/
def source? (r : Resolution) (i : Nat) : Option String := do
  let e ← r.exprs[i]?
  let tree ← e.tree
  return (Node.arrow (r.tableNames.map .name ++ [.name "$"]) tree).textWith ⟨r.tableNames, "$"⟩

end Resolution

end ColumnQuery
