/-
  The rules of resolution.

  `Derives` says by rules, one for every construct that is admitted, what a part of a tree is
  resolved to: from a state, at a place, to a formula and a rewritten tree, or to statements. What
  holds of everything that resolves is shown by one induction on derivations, with one case for
  each rule, whether it is about expressions, arguments, statements or declarations.

  Two such inductions are made here once for all uses. The lists of calls change only where a call
  is registered (`Derives.steps`), and formulas are put together from cells, slots and results of
  calls (`Derives.leaves`). So inside of an operator no call is registered, nor is one by an
  expression whose formula reads none (`Derives.unchanged`).
-/
import ColumnQuery.Proofs.Formula.Places
import ColumnQuery.Proofs.Formula.References

namespace ColumnQuery

namespace Node

/-- Neither a statement nor a form that is refused or belongs to roots. -/
def isExpression : Node → Bool
  | literal _ | identifier _ | member _ _ _ | call _ _ | unary _ _ | binary _ _ _ | logical _ _ _
  | conditional _ _ _ | array _ | object _ | column _ _ | parameter _ => true
  | _ => false

end Node

/-- Reads no result of an operator. -/
def Formula.OpFree (f : Formula) : Prop := f.Leaves fun leaf => ∀ ref, leaf ≠ .op ref

theorem Formula.opFree_of_constant? {f : Formula} {v : Value} (h : f.constant? = some v) :
    f.OpFree := by
  unfold constant? at h
  split at h
  next hconstant => exact leaves_of_isConstant f hconstant
  next => cases h

namespace Resolve

/-- A part of a tree with what it is resolved to. -/
inductive Part where
  | expression (node : Node) (e : Formula × Node)
  | expressions (nodes : List Node) (es : List (Formula × Node))
  | properties (ps : List (String × Node)) (es : List (String × Formula × Node))
  /-- The arguments of an operator, of which the first ones are its fields. -/
  | operands (fields : Nat) (nodes : List Node) (o : Operands)
  | statement (node : Node) (r : List Statement × Node)
  | branch (node : Node) (r : List Statement × Node)
  | statements (nodes : List Node) (r : List Statement × List Node)
  | declarations (ds : List (Pattern × Option Node)) (r : List (Statement × Pattern × Option Node))
  | body (node : Node) (e : Formula × Node)

/-- The place of the arguments of an operator. -/
def inside (site : Site) : Site := { site with inOperator := true }

/-- The rules by which parts of a tree are resolved. The key of a member of a table, of the
    parameters or of `Math` and the arguments of an operator leave the state as it was. -/
inductive Derives (ctx : ResolveContext) : Site → ResolveState → Part → ResolveState → Prop where
  | literal {site : Site} {s : ResolveState} (v : Literal) :
    Derives ctx site s (.expression (.literal v) (.literal v.toValue, .literal v)) s
  | identifier {site : Site} {s : ResolveState} {name : String} {e : Formula × Node}
    (h : Resolve.identifier ctx site (.identifier name) name s = .ok e) :
    Derives ctx site s (.expression (.identifier name) e) s
  | column {site : Site} {s : ResolveState} {t : Nat} {name : String} {e : Formula × Node}
    (h : Resolve.column ctx site (.column t name) t name = .ok e) :
    Derives ctx site s (.expression (.column t name) e) s
  | parameter {site : Site} {s : ResolveState} {name : String} {e : Formula × Node}
    (h : Resolve.parameter ctx (.parameter name) name = .ok e) :
    Derives ctx site s (.expression (.parameter name) e) s
  /-- A member of a table, of the parameters or of `Math`, by a key that is written out. -/
  | owned {site : Site} {s : ResolveState} {object property : Node} {computed : Bool}
    {owner : Owner} {key : String} {e : Formula × Node}
    (howner : ownerOf site s object = owner) (hother : owner ≠ .other)
    (hkey : plainKey? computed property = some key)
    (h : Resolve.owned ctx site (.member object property computed) owner key = .ok e) :
    Derives ctx site s (.expression (.member object property computed) e) s
  /-- Such a member by a key that is resolved to a constant. -/
  | resolvedKey {site : Site} {s : ResolveState} {object property : Node} {computed : Bool}
    {owner : Owner} {p e : Formula × Node} {v : Value}
    (howner : ownerOf site s object = owner) (hother : owner ≠ .other)
    (hplain : plainKey? computed property = none)
    (hp : Derives ctx site s (.expression property p) s) (hv : p.1.constant? = some v)
    (h : Resolve.owned ctx site (.member object property computed) owner v.text = .ok e) :
    Derives ctx site s (.expression (.member object property computed) e) s
  /-- A member of another value by its name. -/
  | dotted {site : Site} {s s' : ResolveState} {object : Node} {name : String} {o : Formula × Node}
    (howner : ownerOf site s object = .other)
    (ho : Derives ctx site s (.expression object o) s') :
    Derives ctx site s (.expression (.member object (.identifier name) false)
      (.member o.1 (.literal (.string name)), .member o.2 (.identifier name) false)) s'
  | member {site : Site} {s t s' : ResolveState} {object property : Node} {computed : Bool}
    {o p : Formula × Node} (howner : ownerOf site s object = .other)
    (hname : computed = false → ∀ name, property ≠ .identifier name)
    (ho : Derives ctx site s (.expression object o) t)
    (hp : Derives ctx site t (.expression property p) s') :
    Derives ctx site s (.expression (.member object property computed)
      (.member o.1 p.1, .member o.2 p.2 computed)) s'
  | scalar {site : Site} {s s' : ResolveState} {f : Node} {args : List Node} {g : ScalarFunction}
    {as : List (Formula × Node)} (hcallee : callee (.call f args) f s = .ok (.scalar g))
    (hadmits : g.admits args.length = true) (has : Derives ctx site s (.expressions args as) s') :
    Derives ctx site s
      (.expression (.call f args) (.call g (as.map (·.1)), .call f (as.map (·.2)))) s'
  | aggregate {site : Site} {s : ResolveState} {f : Node} {args : List Node} {a : Aggregate}
    {o : Operands} (hcallee : callee (.call f args) f s = .ok (.aggregate a))
    (hallowed : checkAggregate ctx site (.call f args) a = .ok ())
    (hplace : site.inOperator = false)
    (hcount : a.fieldCount ≤ args.length ∧ args.length ≤ a.fieldCount + a.paramCount)
    (ho : Derives ctx (inside site) s (.operands a.fieldCount args o) s) :
    Derives ctx site s (.expression (.call f args)
      (.op (s.placeOf (o.aggregateCall site.frame a)), .call f o.nodes))
      (s.register (o.aggregateCall site.frame a))
  | window {site : Site} {s : ResolveState} {f : Node} {args : List Node} {w : WindowFunction}
    {o : Operands} (hcallee : callee (.call f args) f s = .ok (.window w))
    (hallowed : ctx.options.window = true) (hplace : site.inOperator = false)
    (hcount : w.fieldCount ≤ args.length ∧ args.length ≤ w.fieldCount + w.paramCount)
    (ho : Derives ctx (inside site) s (.operands w.fieldCount args o) s) :
    Derives ctx site s (.expression (.call f args)
      (.op (s.placeOf (o.windowCall site.frame w)), .call f o.nodes))
      (s.register (o.windowCall site.frame w))
  | unary {site : Site} {s s' : ResolveState} {op : UnaryOp} {a : Node} {e : Formula × Node}
    (ha : Derives ctx site s (.expression a e) s') :
    Derives ctx site s (.expression (.unary op a) (.unary op e.1, .unary op e.2)) s'
  | binary {site : Site} {s t s' : ResolveState} {op : BinaryOp} {l r : Node}
    {el er : Formula × Node} (hl : Derives ctx site s (.expression l el) t)
    (hr : Derives ctx site t (.expression r er) s') :
    Derives ctx site s
      (.expression (.binary op l r) (Resolve.binary op el.1 er.1, .binary op el.2 er.2)) s'
  | logical {site : Site} {s t s' : ResolveState} {op : LogicalOp} {l r : Node}
    {el er : Formula × Node} (hl : Derives ctx site s (.expression l el) t)
    (hr : Derives ctx site t (.expression r er) s') :
    Derives ctx site s
      (.expression (.logical op l r) (.logical op el.1 er.1, .logical op el.2 er.2)) s'
  | conditional {site : Site} {s₁ s₂ s₃ s₄ : ResolveState} {t c a : Node}
    {et ec ea : Formula × Node} (ht : Derives ctx site s₁ (.expression t et) s₂)
    (hc : Derives ctx site s₂ (.expression c ec) s₃)
    (ha : Derives ctx site s₃ (.expression a ea) s₄) :
    Derives ctx site s₁ (.expression (.conditional t c a)
      (.conditional et.1 ec.1 ea.1, .conditional et.2 ec.2 ea.2)) s₄
  | array {site : Site} {s s' : ResolveState} {nodes : List Node} {es : List (Formula × Node)}
    (hes : Derives ctx site s (.expressions nodes es) s') :
    Derives ctx site s
      (.expression (.array nodes) (.array (es.map (·.1)), .array (es.map (·.2)))) s'
  | object {site : Site} {s s' : ResolveState} {ps : List (String × Node)}
    {es : List (String × Formula × Node)} (hes : Derives ctx site s (.properties ps es) s') :
    Derives ctx site s (.expression (.object ps) (.object (es.map fun p => (p.1, p.2.1)),
      .object (es.map fun p => (p.1, p.2.2)))) s'
  | noExpressions {site : Site} {s : ResolveState} : Derives ctx site s (.expressions [] []) s
  | moreExpressions {site : Site} {s t s' : ResolveState} {n : Node} {ns : List Node}
    {e : Formula × Node} {es : List (Formula × Node)} (he : Derives ctx site s (.expression n e) t)
    (hes : Derives ctx site t (.expressions ns es) s') :
    Derives ctx site s (.expressions (n :: ns) (e :: es)) s'
  | noProperties {site : Site} {s : ResolveState} : Derives ctx site s (.properties [] []) s
  | moreProperties {site : Site} {s t s' : ResolveState} {key : String} {n : Node}
    {ps : List (String × Node)} {e : Formula × Node} {es : List (String × Formula × Node)}
    (he : Derives ctx site s (.expression n e) t) (hes : Derives ctx site t (.properties ps es) s') :
    Derives ctx site s (.properties ((key, n) :: ps) ((key, e) :: es)) s'
  | noOperands {site : Site} {s : ResolveState} {fields : Nat} :
    Derives ctx site s (.operands fields [] ⟨[], []⟩) s
  | field {site : Site} {s t s' : ResolveState} {fields : Nat} {n : Node} {ns : List Node}
    {e : Formula × Node} {o : Operands} (he : Derives ctx site s (.expression n e) t)
    (ho : Derives ctx site t (.operands fields ns o) s') :
    Derives ctx site s (.operands (fields + 1) (n :: ns) ⟨e :: o.fields, o.params⟩) s'
  | constant {site : Site} {s t s' : ResolveState} {n : Node} {ns : List Node}
    {p : Formula × Node} {v : Value} {o : Operands} (hp : Derives ctx site s (.expression n p) t)
    (hv : p.1.constant? = some v) (ho : Derives ctx site t (.operands 0 ns o) s') :
    Derives ctx site s (.operands 0 (n :: ns) ⟨o.fields, (v, p.2) :: o.params⟩) s'
  | declaration {site : Site} {s s' : ResolveState} {kind : DeclarationKind}
    {ds : List (Pattern × Option Node)} {more : List (Statement × Pattern × Option Node)}
    (hds : Derives ctx site s (.declarations ds more) s') :
    Derives ctx site s (.statement (.declaration kind ds)
      (more.map (·.1), .declaration kind (more.map (·.2)))) s'
  | returnsNothing {site : Site} {s : ResolveState} :
    Derives ctx site s (.statement (.returns none) ([.returns none], .returns none)) s
  | returns {site : Site} {s s' : ResolveState} {a : Node} {e : Formula × Node}
    (ha : Derives ctx site s (.expression a e) s') :
    Derives ctx site s
      (.statement (.returns (some a)) ([.returns (some e.1)], .returns (some e.2))) s'
  | branchAlone {site : Site} {s t s' : ResolveState} {test c : Node} {e : Formula × Node}
    {rc : List Statement × Node} (ht : Derives ctx site s (.expression test e) t)
    (hc : Derives ctx site t (.branch c rc) s') :
    Derives ctx site s
      (.statement (.branch test c none) ([.branch e.1 rc.1 []], .branch e.2 rc.2 none)) s'
  | branchElse {site : Site} {s₁ s₂ s₃ s₄ : ResolveState} {test c a : Node} {e : Formula × Node}
    {rc ra : List Statement × Node} (ht : Derives ctx site s₁ (.expression test e) s₂)
    (hc : Derives ctx site s₂ (.branch c rc) s₃) (ha : Derives ctx site s₃ (.branch a ra) s₄) :
    Derives ctx site s₁ (.statement (.branch test c (some a))
      ([.branch e.1 rc.1 ra.1], .branch e.2 rc.2 (some ra.2))) s₄
  | block {site : Site} {s t : ResolveState} {nodes : List Node} {r : List Statement × List Node}
    (hss : Derives ctx site s.enter (.statements nodes r) t) :
    Derives ctx site s (.statement (.block nodes) ([.block r.1], .block r.2)) t.leave
  | evaluated {site : Site} {s s' : ResolveState} {n : Node} {e : Formula × Node}
    (he : Derives ctx site s (.expression n e) s') :
    Derives ctx site s (.statement n ([.expression e.1], e.2)) s'
  | branchBlock {site : Site} {s t : ResolveState} {nodes : List Node}
    {r : List Statement × List Node} (hss : Derives ctx site s.enter (.statements nodes r) t) :
    Derives ctx site s (.branch (.block nodes) (r.1, .block r.2)) t.leave
  | branchStatement {site : Site} {s t : ResolveState} {n : Node} {r : List Statement × Node}
    (hblock : ∀ nodes, n ≠ .block nodes) (hn : Derives ctx site s.enter (.statement n r) t) :
    Derives ctx site s (.branch n r) t.leave
  | noStatements {site : Site} {s : ResolveState} : Derives ctx site s (.statements [] ([], [])) s
  | moreStatements {site : Site} {s t s' : ResolveState} {n : Node} {ns : List Node}
    {r : List Statement × Node} {more : List Statement × List Node}
    (hn : Derives ctx site s (.statement n r) t) (hns : Derives ctx site t (.statements ns more) s') :
    Derives ctx site s (.statements (n :: ns) (r.1 ++ more.1, r.2 :: more.2)) s'
  | noDeclarations {site : Site} {s : ResolveState} : Derives ctx site s (.declarations [] []) s
  | moreDeclarations {site : Site} {s t s' : ResolveState} {name : String} {init : Node}
    {ds : List (Pattern × Option Node)} {e : Formula × Node}
    {more : List (Statement × Pattern × Option Node)}
    (hinit : Derives ctx site s (.expression init e) t)
    (hds : Derives ctx site (t.declare name) (.declarations ds more) s') :
    Derives ctx site s (.declarations ((.name name, some init) :: ds)
      ((.assign t.nextSlot e.1, .name name, some e.2) :: more)) s'
  | bodyBlock {site : Site} {s t : ResolveState} {nodes : List Node}
    {r : List Statement × List Node} (hss : Derives ctx site s.enter (.statements nodes r) t) :
    Derives ctx site s (.body (.block nodes) (.block r.1, .block r.2)) t.leave
  | bodyExpression {site : Site} {s s' : ResolveState} {n : Node} {e : Formula × Node}
    (he : Derives ctx site s (.expression n e) s') : Derives ctx site s (.body n e) s'

variable {ctx : ResolveContext} {site : Site} {s t : ResolveState}

/-- Everything that is resolved as an expression is one. -/
theorem Derives.isExpression {node : Node} {e : Formula × Node}
    (h : Derives ctx site s (.expression node e) t) : node.isExpression = true := by
  cases h <;> rfl

/-! ## The lists of calls -/

/-- The lists of calls change only where a call is registered. So the states before and after a part
    are related as those before and after a registration are, if whatever leaves the lists as they
    are keeps to the relation. -/
theorem Derives.steps {R : ResolveState → ResolveState → Prop}
    (hstay : ∀ {s t}, s.aggregates = t.aggregates → s.windows = t.windows → R s t)
    (htrans : ∀ {s t u}, R s t → R t u → R s u)
    (haggregate : ∀ {site s node a nodes o}, checkAggregate ctx site node a = .ok () →
      (a.fieldCount ≤ nodes.length ∧ nodes.length ≤ a.fieldCount + a.paramCount) →
      Derives ctx (inside site) s (.operands a.fieldCount nodes o) s →
        R s (s.register (o.aggregateCall site.frame a)))
    (hwindow : ∀ {site s w nodes o}, ctx.options.window = true →
      (w.fieldCount ≤ nodes.length ∧ nodes.length ≤ w.fieldCount + w.paramCount) →
      Derives ctx (inside site) s (.operands w.fieldCount nodes o) s →
        R s (s.register (o.windowCall site.frame w)))
    {part : Part} (h : Derives ctx site s part t) : R s t := by
  have hdeclare : ∀ (s : ResolveState) (name : String), R s (s.declare name) :=
    fun _ _ => hstay rfl rfl
  have henter : ∀ s : ResolveState, R s s.enter := fun _ => hstay rfl rfl
  have hleave : ∀ s : ResolveState, R s s.leave := fun _ => hstay rfl rfl
  induction h with
  | literal _ | identifier _ | column _ | parameter _ | owned _ _ _ _ | noExpressions
  | noProperties | noOperands | returnsNothing | noStatements | noDeclarations =>
    exact hstay rfl rfl
  | resolvedKey _ _ _ _ _ _ _ => exact hstay rfl rfl
  | dotted _ _ ih | scalar _ _ _ ih | unary _ ih | array _ ih | object _ ih | declaration _ ih
  | returns _ ih | evaluated _ ih | bodyExpression _ ih => exact ih
  | member _ _ _ _ ih ih' | binary _ _ ih ih' | logical _ _ ih ih' | moreExpressions _ _ ih ih'
  | moreProperties _ _ ih ih' | field _ _ ih ih' | constant _ _ _ ih ih' | branchAlone _ _ ih ih'
  | moreStatements _ _ ih ih' => exact htrans ih ih'
  | conditional _ _ _ ih ih' ih'' | branchElse _ _ _ ih ih' ih'' =>
    exact htrans (htrans ih ih') ih''
  | moreDeclarations _ _ ih ih' => exact htrans ih (htrans (hdeclare _ _) ih')
  | aggregate _ hallowed _ hcount ho _ => exact haggregate hallowed hcount ho
  | window _ hallowed _ hcount ho _ => exact hwindow hallowed hcount ho
  | block _ ih | branchBlock _ ih | branchStatement _ _ ih | bodyBlock _ ih =>
    exact htrans (htrans (henter _) ih) (hleave _)

/-- The lists of calls have grown at their ends. -/
theorem Derives.later {part : Part} (h : Derives ctx site s part t) : s.Later t :=
  h.steps ResolveState.later_of_eq ResolveState.Later.trans
    (fun _ _ _ => ResolveState.later_register _ _) fun _ _ _ => ResolveState.later_register _ _

/-! ## The leaves of formulas -/

/-- All leaves of the formulas of a part have a property. -/
def Part.Leaves (P : Formula → Prop) : Part → Prop
  | expression _ e | body _ e => e.1.Leaves P
  | expressions _ es => ∀ e ∈ es, e.1.Leaves P
  | properties _ es => ∀ e ∈ es, e.2.1.Leaves P
  | operands _ _ o => ∀ e ∈ o.fields, e.1.Leaves P
  | statement _ r | branch _ r => Formula.LeavesBody P r.1
  | statements _ r => Formula.LeavesBody P r.1
  | declarations _ r => Formula.LeavesBody P (r.map (·.1))

theorem Part.Leaves.imp {P Q : Formula → Prop} (h : ∀ leaf, P leaf → Q leaf) :
    ∀ {part : Part}, part.Leaves P → part.Leaves Q
  | expression _ e, hp | body _ e, hp => Formula.Leaves.imp h e.1 hp
  | expressions _ _, hp => fun e he => Formula.Leaves.imp h e.1 (hp e he)
  | properties _ _, hp => fun e he => Formula.Leaves.imp h e.2.1 (hp e he)
  | operands _ _ _, hp => fun e he => Formula.Leaves.imp h e.1 (hp e he)
  | statement _ r, hp | branch _ r, hp => Formula.LeavesBody.imp h r.1 hp
  | statements _ r, hp => Formula.LeavesBody.imp h r.1 hp
  | declarations _ _, hp => Formula.LeavesBody.imp h _ hp

theorem leavesList_of_forall {P : Formula → Prop} {es : List (Formula × Node)}
    (h : ∀ e ∈ es, e.1.Leaves P) : Formula.LeavesList P (es.map (·.1)) := by
  refine Formula.leavesList_iff.2 fun f hf => ?_
  obtain ⟨e, he, rfl⟩ := List.mem_map.1 hf
  exact h e he

theorem leavesEntries_of_forall {P : Formula → Prop} {es : List (String × Formula × Node)}
    (h : ∀ e ∈ es, e.2.1.Leaves P) :
    Formula.LeavesEntries P (es.map fun p => (p.1, p.2.1)) := by
  refine Formula.leavesEntries_iff.2 fun f hf => ?_
  obtain ⟨e, he, rfl⟩ := List.mem_map.1 hf
  exact h e he

/-- What the rules put into formulas has a property, and keeps it while the lists of calls grow. -/
structure HoldsOfLeaves (ctx : ResolveContext) (P : Site → ResolveState → Formula → Prop) :
    Prop where
  later : ∀ {site : Site} {s t : ResolveState} {leaf : Formula}, s.Later t → P site s leaf →
    P site t leaf
  cell : ∀ {site : Site} {s : ResolveState} {t : Nat} {c : Column}, Cell ctx site (.column t c) →
    P site s (.column t c)
  dictionary : ∀ {site : Site} {s : ResolveState} {t : Nat} {c : Column} {key : Nat}
    {negated : Bool}, P site s (.column t c) → P site s (.dictionaryEq t c key negated)
  slot : ∀ {site : Site} {s : ResolveState} {slot : Nat}, site.inOperator = false →
    P site s (.slot slot)
  aggregate : ∀ {site : Site} {s : ResolveState} {node : Node} {a : Aggregate} (o : Operands),
    site.inOperator = false → checkAggregate ctx site node a = .ok () →
      P site (s.register (o.aggregateCall site.frame a))
        (.op (s.placeOf (o.aggregateCall site.frame a)))
  window : ∀ {site : Site} {s : ResolveState} {w : WindowFunction} (o : Operands),
    site.inOperator = false → ctx.options.window = true →
      P site (s.register (o.windowCall site.frame w)) (.op (s.placeOf (o.windowCall site.frame w)))

/-- All leaves of what a part is resolved to have a property that what the rules put there has. -/
theorem Derives.leaves {P : Site → ResolveState → Formula → Prop} (hP : HoldsOfLeaves ctx P)
    {part : Part} (h : Derives ctx site s part t) : part.Leaves (P site t) := by
  have hcell : ∀ {site : Site} {t : ResolveState} {f : Formula}, Cell ctx site f →
      f.Leaves (P site t) := fun hf => hf.leaves fun _ _ => hP.cell
  have hlater : ∀ {site : Site} {s t : ResolveState} {f : Formula}, s.Later t →
      f.Leaves (P site s) → f.Leaves (P site t) :=
    fun hst => Formula.Leaves.imp (fun _ => hP.later hst) _
  have hbody : ∀ {site : Site} {s t : ResolveState} {body : List Statement}, s.Later t →
      Formula.LeavesBody (P site s) body → Formula.LeavesBody (P site t) body :=
    fun hst => Formula.LeavesBody.imp (fun _ => hP.later hst) _
  induction h with
  | literal _ | returnsNothing | noStatements | noDeclarations => trivial
  | noExpressions | noProperties | noOperands => exact fun _ he => absurd he List.not_mem_nil
  | identifier he =>
    rcases formula_of_identifier he with ⟨slot, -, hsite, hslot⟩ | ⟨-, hname⟩
    · rw [Part.Leaves, hslot]
      exact hP.slot hsite
    · exact hcell hname
  | column he => exact hcell (cell_of_column he)
  | parameter he => exact hcell (cell_of_parameter he)
  | owned _ _ _ he | resolvedKey _ _ _ _ _ he _ => exact hcell (cell_of_owned he)
  | dotted _ _ ih => exact ⟨ih, trivial⟩
  | member _ _ _ hp ih ih' => exact ⟨hlater hp.later ih, ih'⟩
  | scalar _ _ _ ih | array _ ih => exact leavesList_of_forall ih
  | object _ ih => exact leavesEntries_of_forall ih
  | aggregate _ hallowed hplace _ _ _ => exact hP.aggregate _ hplace hallowed
  | window _ hallowed hplace _ _ _ => exact hP.window _ hplace hallowed
  | unary _ ih => exact ih
  | binary _ hr ih ih' =>
    exact leaves_binary (fun _ _ _ _ => hP.dictionary) (hlater hr.later ih) ih'
  | logical _ hr ih ih' => exact ⟨hlater hr.later ih, ih'⟩
  | conditional _ hc ha ih ih' ih'' =>
    exact ⟨hlater (hc.later.trans ha.later) ih, hlater ha.later ih', ih''⟩
  | moreExpressions _ hes ih ih' | moreProperties _ hes ih ih' | field _ hes ih ih' =>
    exact List.forall_mem_cons.2 ⟨hlater hes.later ih, ih'⟩
  | constant _ _ _ _ ih' => exact ih'
  | evaluated _ ih | returns _ ih => exact ⟨ih, trivial⟩
  | block _ ih => exact ⟨hbody (ResolveState.later_leave _) ih, trivial⟩
  | branchAlone _ hc ih ih' => exact ⟨hlater hc.later ih, ih', trivial, trivial⟩
  | branchElse _ hc ha ih ih' ih'' =>
    exact ⟨hlater (hc.later.trans ha.later) ih, hbody ha.later ih', ih'', trivial⟩
  | branchBlock _ ih | branchStatement _ _ ih | bodyBlock _ ih =>
    exact hbody (ResolveState.later_leave _) ih
  | bodyExpression _ ih | declaration _ ih => exact ih
  | moreStatements _ hns ih ih' =>
    exact Formula.leavesBody_append.2 ⟨hbody hns.later ih, ih'⟩
  | moreDeclarations _ hds ih ih' =>
    exact ⟨hlater ((ResolveState.later_declare _ _).trans hds.later) ih, ih'⟩

/-! ## Parts that register nothing -/

/-- No formula of a part reads a result of an operator. -/
def Part.OpFree (part : Part) : Prop := part.Leaves fun leaf => ∀ ref, leaf ≠ .op ref

/-- Inside of an operator no result of an operator is read. -/
theorem Derives.opFree {part : Part} (h : Derives ctx site s part t)
    (hsite : site.inOperator = true) : part.OpFree := by
  have hholds : HoldsOfLeaves ctx fun site _ leaf =>
      site.inOperator = true → ∀ ref, leaf ≠ .op ref :=
    { later := fun _ hleaf => hleaf
      cell := fun _ _ _ => nofun
      dictionary := fun _ _ _ => nofun
      slot := fun _ _ _ => nofun
      aggregate := fun _ hplace _ hsite => absurd hsite (Bool.eq_false_iff.1 hplace)
      window := fun _ hplace _ hsite => absurd hsite (Bool.eq_false_iff.1 hplace) }
  exact Part.Leaves.imp (fun _ hleaf => hleaf hsite) (h.leaves hholds)

/-- The expressions that arguments of operators are made of. -/
def Part.IsArgument : Part → Prop
  | expression _ _ | expressions _ _ | properties _ _ => True
  | _ => False

theorem opFree_of_binary {op : BinaryOp} {l r : Formula} (h : (binary op l r).OpFree) :
    l.OpFree ∧ r.OpFree := by
  rcases binary_cases op l r with hbinary | ⟨t, c, s, negated, hsides, -⟩
  · rw [hbinary] at h
    exact h
  · have hcol : (Formula.column t c).OpFree := fun ref heq => by cases heq
    have htext : (Formula.literal (.string s)).OpFree := trivial
    rcases hsides with ⟨rfl, rfl⟩ | ⟨rfl, rfl⟩
    · exact ⟨hcol, htext⟩
    · exact ⟨htext, hcol⟩

/-- Expressions whose formulas read no operator leave the state as it was. -/
theorem Derives.unchanged {part : Part} (h : Derives ctx site s part t) (hpart : part.IsArgument)
    (hfree : part.OpFree) : t = s := by
  induction h with
  | literal _ | identifier _ | column _ | parameter _ | owned _ _ _ _ | noExpressions
  | noProperties => rfl
  | resolvedKey _ _ _ _ _ _ _ => rfl
  | aggregate _ _ _ _ _ _ | window _ _ _ _ _ _ => exact absurd rfl (hfree _)
  | dotted _ _ ih => exact ih trivial hfree.1
  | member _ _ _ _ ih ih' | logical _ _ ih ih' =>
    exact (ih' trivial hfree.2).trans (ih trivial hfree.1)
  | binary _ _ ih ih' =>
    obtain ⟨hl, hr⟩ := opFree_of_binary hfree
    exact (ih' trivial hr).trans (ih trivial hl)
  | conditional _ _ _ ih ih' ih'' =>
    exact (ih'' trivial hfree.2.2).trans ((ih' trivial hfree.2.1).trans (ih trivial hfree.1))
  | unary _ ih => exact ih trivial hfree
  | scalar _ _ _ ih | array _ ih =>
    exact ih trivial fun e he => Formula.leavesList_iff.1 hfree _ (List.mem_map_of_mem he)
  | @object site s t ps es _ ih =>
    exact ih trivial fun e he =>
      Formula.leavesEntries_iff.1 hfree (e.1, e.2.1) (List.mem_map.2 ⟨e, he, rfl⟩)
  | moreExpressions _ _ ih ih' | moreProperties _ _ ih ih' =>
    obtain ⟨hfirst, hrest⟩ := List.forall_mem_cons.1 hfree
    exact (ih' trivial hrest).trans (ih trivial hfirst)
  | _ => exact hpart.elim

/-- The arguments of an operator register nothing. -/
theorem Derives.unchanged_operands (hsite : site.inOperator = true) {fields : Nat}
    {nodes : List Node} {o : Operands} (h : Derives ctx site s (.operands fields nodes o) t) :
    t = s := by
  induction nodes generalizing s fields o with
  | nil =>
    cases h
    rfl
  | cons n ns ih =>
    cases h with
    | field he ho => exact (ih ho).trans (he.unchanged trivial (he.opFree hsite))
    | constant hp _ ho => exact (ih ho).trans (hp.unchanged trivial (hp.opFree hsite))

/-! ## The arguments of operators -/

/-- The first arguments are the fields, as many as there are, and the rest the parameters. -/
theorem Derives.length_operands {fields : Nat} {nodes : List Node} {o : Operands}
    (h : Derives ctx site s (.operands fields nodes o) t) :
    o.fields.length = min fields nodes.length ∧ o.params.length = nodes.length - fields := by
  induction nodes generalizing s fields o with
  | nil =>
    cases h
    simp
  | cons n ns ih =>
    cases h with
    | field _ ho | constant _ _ ho =>
      have hrest := ih ho
      simp only [List.length_cons]
      omega

theorem Derives.length_nodes {fields : Nat} {nodes : List Node} {o : Operands}
    (h : Derives ctx site s (.operands fields nodes o) t) : o.nodes.length = nodes.length := by
  have hlength := h.length_operands
  unfold Operands.nodes Operands.key
  rw [List.length_append, List.length_map, List.length_map]
  omega

end Resolve

end ColumnQuery
