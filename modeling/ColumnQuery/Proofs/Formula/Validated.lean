/-
  What resolution lets through.

  Whatever resolves has been looked at in all its parts. Apart from a function literal at the root,
  a rolling form right inside of it and a block as its body, every part of the tree is an
  expression where an expression is expected, or a statement where one is (`Node.Fits`): there are
  no loops, assignments or functions anywhere, not even where nothing is evaluated. Every call is
  one of a known function with as many arguments as it takes, every declaration gives a value to a
  plain name, and every name stands for a constant, an existing column or a declared parameter
  (`Node.Refers`).

  Keys, callees and frames are not resolved like other parts, so both properties are shown by
  induction on the rules, where each of them has a rule of its own.
-/
import ColumnQuery.Proofs.Formula.Exported
import ColumnQuery.Proofs.Formula.Locals

namespace ColumnQuery

/-! ## Forms -/

namespace Resolve

/-- A function takes so many arguments. -/
def Callee.Admits (count : Nat) : Callee → Prop
  | scalar g => g.admits count = true
  | aggregate a => a.fieldCount ≤ count ∧ count ≤ a.fieldCount + a.paramCount
  | window w => w.fieldCount ≤ count ∧ count ≤ w.fieldCount + w.paramCount

/-- The function that a callee names: a bare name, or a member of `op` or `Math`. -/
def called? : Node → Option Callee
  | .identifier name => functionOf? name
  | .member (.identifier "op") (.identifier name) false => functionOf? name
  | .member (.identifier "Math") (.identifier name) false =>
    (ScalarFunction.lookupMath? name).map .scalar
  | _ => none

end Resolve

namespace ResolveContext

/-- The input table at a position has a column of a name. -/
def HasColumn (ctx : ResolveContext) (table : Nat) (name : String) : Prop :=
  ∃ t, ctx.tables[table]? = some t ∧ (t.column? name).isSome = true

/-- A parameter of a name is declared. -/
def HasParam (ctx : ResolveContext) (name : String) : Prop :=
  (ctx.params.get? name).isSome = true

end ResolveContext

namespace Node

/-- What may stand where a statement is expected. -/
def isStatement : Node → Bool
  | block _ | declaration _ _ | returns _ | branch _ _ _ => true
  | n => n.isExpression

/-- A body of a function: a block, or an expression. -/
def isBody : Node → Bool
  | block _ => true
  | n => n.isExpression

/-- A node is of an admitted kind, and so are the nodes right inside of it where they stand. -/
def Fits (ctx : ResolveContext) : Node → Prop
  | literal _ | identifier _ => True
  | column t name => ctx.HasColumn t name
  | parameter name => ctx.HasParam name
  | member o p _ => o.isExpression = true ∧ p.isExpression = true
  | call f args => (∃ c, Resolve.called? f = some c ∧ c.Admits args.length) ∧
    ∀ a ∈ args, a.isExpression = true
  | unary _ a => a.isExpression = true
  | binary _ l r | logical _ l r => l.isExpression = true ∧ r.isExpression = true
  | conditional t c a => t.isExpression = true ∧ c.isExpression = true ∧ a.isExpression = true
  | array es => ∀ e ∈ es, e.isExpression = true
  | object ps => ∀ p ∈ ps, p.2.isExpression = true
  | block ss => ∀ n ∈ ss, n.isStatement = true
  | declaration _ ds => ∀ d ∈ ds, ∃ name init, d = (.name name, some init) ∧
    init.isExpression = true
  | returns a => ∀ e ∈ a, e.isExpression = true
  | branch t c a => t.isExpression = true ∧ c.isStatement = true ∧ ∀ n ∈ a, n.isStatement = true
  | arrow _ _ | function _ _ _ | loop _ _ | assignment _ _ _ | update _ _ _ | await _ | yield _
  | rolling _ _ => False

theorem isStatement_of_isExpression {n : Node} (h : n.isExpression = true) :
    n.isStatement = true := by
  cases n with
  | block _ | declaration _ _ | returns _ | branch _ _ _ => rfl
  | _ => exact h

theorem isBody_of_isExpression {n : Node} (h : n.isExpression = true) : n.isBody = true := by
  cases n with
  | block _ => rfl
  | _ => exact h

end Node

namespace Resolve

variable {ctx : ResolveContext} {site : Site} {s t : ResolveState}

/-- All of some nodes are admitted. -/
def AllFit (ctx : ResolveContext) (nodes : List Node) : Prop := ∀ n ∈ nodes, n.Fits ctx

theorem allFit_append {xs ys : List Node} :
    AllFit ctx (xs ++ ys) ↔ AllFit ctx xs ∧ AllFit ctx ys := List.forall_mem_append

theorem allFit_cons {n : Node} {ns : List Node} :
    AllFit ctx (n :: ns) ↔ n.Fits ctx ∧ AllFit ctx ns := List.forall_mem_cons

/-- The trees of a part are of the kind that belongs there, and everything in them is admitted. -/
def Part.Fits (ctx : ResolveContext) : Part → Prop
  | expression n _ => n.isExpression = true ∧ AllFit ctx n.parts
  | expressions ns _ | operands _ ns _ =>
    (∀ n ∈ ns, n.isExpression = true) ∧ AllFit ctx (Node.partsList ns)
  | properties ps _ => (∀ p ∈ ps, p.2.isExpression = true) ∧ AllFit ctx (Node.partsProperties ps)
  | statement n _ | branch n _ => n.isStatement = true ∧ AllFit ctx n.parts
  | statements ns _ => (∀ n ∈ ns, n.isStatement = true) ∧ AllFit ctx (Node.partsList ns)
  | declarations ds _ =>
    (∀ d ∈ ds, ∃ name init, d = (.name name, some init) ∧ init.isExpression = true) ∧
      AllFit ctx (Node.partsDeclarations ds)
  | body n _ => n.isBody = true ∧ AllFit ctx n.parts

theorem called?_of_callee {node f : Node} {c : Callee} (h : callee node f s = .ok c) :
    called? f = some c := by
  unfold callee at h
  split at h
  next =>
    split at h
    next => cases h
    next => exact namedCallee_eq_ok_iff.1 h
  next ns name =>
    split at h
    next => cases h
    next =>
      split at h
      next hop =>
        subst hop
        exact namedCallee_eq_ok_iff.1 h
      next =>
        split at h
        next hmath =>
          subst hmath
          obtain ⟨g, hg, rfl⟩ := mathCallee_eq_ok_iff.1 h
          exact Option.map_eq_some_iff.2 ⟨g, hg, rfl⟩
        next => cases h
  next => cases h
  next => cases h
  next => cases h

theorem allFit_of_called? {f : Node} {c : Callee} (h : called? f = some c) :
    AllFit ctx f.parts := by
  unfold called? at h
  split at h
  next => exact allFit_cons.2 ⟨trivial, nofun⟩
  next =>
    exact allFit_cons.2 ⟨⟨rfl, rfl⟩, allFit_cons.2 ⟨trivial, allFit_cons.2 ⟨trivial, nofun⟩⟩⟩
  next =>
    exact allFit_cons.2 ⟨⟨rfl, rfl⟩, allFit_cons.2 ⟨trivial, allFit_cons.2 ⟨trivial, nofun⟩⟩⟩
  next => cases h

theorem hasColumn_of_column {node : Node} {table : Nat} {name : String} {e : Formula × Node}
    (h : Resolve.column ctx site node table name = .ok e) : ctx.HasColumn table name := by
  obtain ⟨t, c, ht, hc, -, -⟩ := column_eq_ok_iff.1 h
  exact ⟨t, ht, Option.isSome_iff_exists.2 ⟨c, hc⟩⟩

theorem hasParam_of_parameter {node : Node} {name : String} {e : Formula × Node}
    (h : Resolve.parameter ctx node name = .ok e) : ctx.HasParam name := by
  obtain ⟨v, hv, -⟩ := parameter_eq_ok_iff.1 h
  exact Option.isSome_iff_exists.2 ⟨v, hv⟩

theorem eq_identifier_of_ownerOf {object : Node} (h : ownerOf site s object ≠ .other) :
    ∃ name, object = .identifier name := by
  cases object with
  | identifier name => exact ⟨name, rfl⟩
  | _ => exact absurd rfl h

theorem fits_of_plainKey? {computed : Bool} {property : Node} {key : String}
    (h : plainKey? computed property = some key) :
    property.isExpression = true ∧ AllFit ctx property.parts := by
  unfold plainKey? at h
  split at h
  next => exact ⟨rfl, allFit_cons.2 ⟨trivial, nofun⟩⟩
  next => exact ⟨rfl, allFit_cons.2 ⟨trivial, nofun⟩⟩
  next => cases h

/-- Everything in a part that resolves is admitted where it stands. -/
theorem Derives.fits {part : Part} (h : Derives ctx site s part t) : part.Fits ctx := by
  induction h with
  | literal _ | identifier _ => exact ⟨rfl, allFit_cons.2 ⟨trivial, nofun⟩⟩
  | column he => exact ⟨rfl, allFit_cons.2 ⟨hasColumn_of_column he, nofun⟩⟩
  | parameter he => exact ⟨rfl, allFit_cons.2 ⟨hasParam_of_parameter he, nofun⟩⟩
  | owned howner hother hkey _ =>
    obtain ⟨name, rfl⟩ := eq_identifier_of_ownerOf (howner ▸ hother)
    obtain ⟨hproperty, hparts⟩ := fits_of_plainKey? hkey
    exact ⟨rfl, allFit_cons.2 ⟨⟨rfl, hproperty⟩, allFit_cons.2 ⟨trivial, hparts⟩⟩⟩
  | resolvedKey howner hother _ _ _ _ ih =>
    obtain ⟨name, rfl⟩ := eq_identifier_of_ownerOf (howner ▸ hother)
    exact ⟨rfl, allFit_cons.2 ⟨⟨rfl, ih.1⟩, allFit_cons.2 ⟨trivial, ih.2⟩⟩⟩
  | dotted _ _ ih =>
    exact ⟨rfl, allFit_cons.2 ⟨⟨ih.1, rfl⟩,
      allFit_append.2 ⟨ih.2, allFit_cons.2 ⟨trivial, nofun⟩⟩⟩⟩
  | member _ _ _ _ iho ihp =>
    exact ⟨rfl, allFit_cons.2 ⟨⟨iho.1, ihp.1⟩, allFit_append.2 ⟨iho.2, ihp.2⟩⟩⟩
  | scalar hcallee hadmits _ ih =>
    have hcalled := called?_of_callee hcallee
    exact ⟨rfl, allFit_cons.2 ⟨⟨⟨_, hcalled, hadmits⟩, ih.1⟩,
      allFit_append.2 ⟨allFit_of_called? hcalled, ih.2⟩⟩⟩
  | aggregate hcallee _ _ hcount _ ih | window hcallee _ _ hcount _ ih =>
    have hcalled := called?_of_callee hcallee
    exact ⟨rfl, allFit_cons.2 ⟨⟨⟨_, hcalled, hcount⟩, ih.1⟩,
      allFit_append.2 ⟨allFit_of_called? hcalled, ih.2⟩⟩⟩
  | unary _ ih => exact ⟨rfl, allFit_cons.2 ⟨ih.1, ih.2⟩⟩
  | binary _ _ ihl ihr | logical _ _ ihl ihr =>
    exact ⟨rfl, allFit_cons.2 ⟨⟨ihl.1, ihr.1⟩, allFit_append.2 ⟨ihl.2, ihr.2⟩⟩⟩
  | conditional _ _ _ iht ihc iha =>
    exact ⟨rfl, allFit_cons.2 ⟨⟨iht.1, ihc.1, iha.1⟩,
      allFit_append.2 ⟨allFit_append.2 ⟨iht.2, ihc.2⟩, iha.2⟩⟩⟩
  | array _ ih | object _ ih => exact ⟨rfl, allFit_cons.2 ⟨ih.1, ih.2⟩⟩
  | noExpressions | noProperties | noOperands | noStatements | noDeclarations =>
    exact ⟨nofun, nofun⟩
  | moreExpressions _ _ ihe ihes | moreProperties _ _ ihe ihes | field _ _ ihe ihes
  | constant _ _ _ ihe ihes | moreStatements _ _ ihe ihes =>
    exact ⟨List.forall_mem_cons.2 ⟨ihe.1, ihes.1⟩, allFit_append.2 ⟨ihe.2, ihes.2⟩⟩
  | declaration _ ih | block _ ih | branchBlock _ ih | bodyBlock _ ih =>
    exact ⟨rfl, allFit_cons.2 ⟨ih.1, ih.2⟩⟩
  | returnsNothing => exact ⟨rfl, allFit_cons.2 ⟨nofun, nofun⟩⟩
  | returns _ ih => exact ⟨rfl, allFit_cons.2 ⟨fun _ he => Option.some.inj he ▸ ih.1, ih.2⟩⟩
  | branchAlone _ _ iht ihc =>
    exact ⟨rfl, allFit_cons.2 ⟨⟨iht.1, ihc.1, nofun⟩,
      allFit_append.2 ⟨allFit_append.2 ⟨iht.2, ihc.2⟩, nofun⟩⟩⟩
  | branchElse _ _ _ iht ihc iha =>
    exact ⟨rfl, allFit_cons.2 ⟨⟨iht.1, ihc.1, fun _ hn => Option.some.inj hn ▸ iha.1⟩,
      allFit_append.2 ⟨allFit_append.2 ⟨iht.2, ihc.2⟩, iha.2⟩⟩⟩
  | evaluated _ ih => exact ⟨Node.isStatement_of_isExpression ih.1, ih.2⟩
  | branchStatement _ _ ih => exact ih
  | moreDeclarations _ _ ih ihds =>
    exact ⟨List.forall_mem_cons.2 ⟨⟨_, _, rfl, ih.1⟩, ihds.1⟩,
      allFit_append.2 ⟨ih.2, ihds.2⟩⟩
  | bodyExpression _ ih => exact ⟨Node.isBody_of_isExpression ih.1, ih.2⟩

end Resolve

/-! ## Names -/

namespace Resolve

/-- What a name before a member access stands for, where some constants of blocks are known. -/
def ownerAmong (S : Scope) (known : List String) : Node → Owner
  | .identifier name =>
    if name ∈ known then .other
    else match S.tableOf? name with
      | some t => .table t
      | none =>
        if S.params = some name then .params
        else if name = "Math" then .math
        else .other
  | _ => .other

/-- The table, the parameters or `Math` have a member of a key. -/
def Owner.Has (ctx : ResolveContext) (key : String) : Owner → Prop
  | table t => ctx.HasColumn t key
  | params => ctx.HasParam key
  | math => (Constants.math? key).isSome = true
  | other => False

/-- The key of a member access, as it stands or as the constant that it is resolved to. -/
def HasKey (ctx : ResolveContext) (site : Site) (s : ResolveState) (computed : Bool)
    (property : Node) (key : String) : Prop :=
  plainKey? computed property = some key ∨
    plainKey? computed property = none ∧ ∃ p v, (expression ctx site property).run s = .ok (p, s) ∧
      p.1.constant? = some v ∧ v.text = key

end Resolve

/-- The known constants are those of some names. -/
def ResolveState.Knows (s : ResolveState) (known : List String) : Prop :=
  ∀ name, s.isLocal name = true ↔ name ∈ known

/-- A name that the header binds to an existing column or a declared parameter, or the name of a
    numeric constant. -/
def Scope.Names (ctx : ResolveContext) (S : Scope) (name : String) : Prop :=
  match S.columns.lookup name, S.paramNames.lookup name with
  | some (table, col), _ => ctx.HasColumn table col
  | none, some param => ctx.HasParam param
  | none, none => S.tableOf? name = none ∧ S.params ≠ some name ∧
    (Constants.global? name).isSome = true

namespace Node

/-- The name that a callee starts with. -/
def head? : Node → Option String
  | identifier name => some name
  | member (identifier name) _ _ => some name
  | _ => none

mutual

/-- Every name in a tree stands for something, and so does every key of a table, of the parameters
    or of `Math`: it is written out, or it is the text of a constant that it resolves to. Statements
    see the constants that are declared before them. -/
def Refers (ctx : ResolveContext) (S : Scope) (known : List String) : Node → Prop
  | literal _ => True
  | identifier name => name ∈ known ∨ S.Names ctx name
  | column t name => ctx.HasColumn t name
  | parameter name => ctx.HasParam name
  | member o p computed =>
    match Resolve.ownerAmong S known o with
    | .other => Refers ctx S known o ∧
      ((computed = false → ∀ name, p ≠ identifier name) → Refers ctx S known p)
    | owner => (∃ site s key, site.scope = S ∧ s.Knows known ∧
        Resolve.HasKey ctx site s computed p key ∧ owner.Has ctx key) ∧
      (Resolve.plainKey? computed p = none → Refers ctx S known p)
  | call f args => (∀ name, f.head? = some name → name ∉ known) ∧ RefersList ctx S known args
  | unary _ a => Refers ctx S known a
  | binary _ l r | logical _ l r => Refers ctx S known l ∧ Refers ctx S known r
  | conditional t c a => Refers ctx S known t ∧ Refers ctx S known c ∧ Refers ctx S known a
  | array es => RefersList ctx S known es
  | object ps => RefersProperties ctx S known ps
  | block ss => RefersInTurn ctx S known ss
  | declaration _ ds => RefersDeclarations ctx S known ds
  | returns a => RefersOption ctx S known a
  | branch t c a => Refers ctx S known t ∧ Refers ctx S known c ∧ RefersOption ctx S known a
  | arrow _ _ | function _ _ _ | loop _ _ | assignment _ _ _ | update _ _ _ | await _ | yield _
  | rolling _ _ => False

def RefersList (ctx : ResolveContext) (S : Scope) (known : List String) : List Node → Prop
  | [] => True
  | n :: ns => Refers ctx S known n ∧ RefersList ctx S known ns

def RefersOption (ctx : ResolveContext) (S : Scope) (known : List String) : Option Node → Prop
  | none => True
  | some n => Refers ctx S known n

def RefersProperties (ctx : ResolveContext) (S : Scope) (known : List String) :
    List (String × Node) → Prop
  | [] => True
  | (_, n) :: ps => Refers ctx S known n ∧ RefersProperties ctx S known ps

def RefersInTurn (ctx : ResolveContext) (S : Scope) (known : List String) : List Node → Prop
  | [] => True
  | n :: ns => Refers ctx S known n ∧ RefersInTurn ctx S (n.declares ++ known) ns

def RefersDeclarations (ctx : ResolveContext) (S : Scope) (known : List String) :
    List (Pattern × Option Node) → Prop
  | [] => True
  | (p, init) :: ds =>
    RefersOption ctx S known init ∧ RefersDeclarations ctx S (p.declares ++ known) ds

end

end Node

namespace ResolveState

variable {s t : ResolveState} {known names : List String}

theorem knows_nil (h : s.locals = []) : s.Knows [] := by
  intro name
  rw [isLocal_iff, ResolveState.known, h]
  simp

theorem Knows.ite_eq {α : Type} (h : s.Knows known) (name : String) (x y : α) :
    (if s.isLocal name = true then x else y) = if name ∈ known then x else y := by
  by_cases hname : name ∈ known
  · rw [if_pos hname, if_pos ((h name).2 hname)]
  · rw [if_neg hname, if_neg fun hlocal => hname ((h name).1 hlocal)]

/-- What has been declared is known. -/
theorem Declared.knows (h : s.Declared t names) (hs : names = [] ∨ s.locals ≠ [])
    (hknown : s.Knows known) : t.Knows (names ++ known) := by
  intro name
  have hbefore := hknown name
  rw [isLocal_iff] at hbefore ⊢
  rcases hs with rfl | hs
  · have hsame : t.known = s.known := congrArg List.flatten h.locals_eq
    rw [hsame, hbefore, List.nil_append]
  · obtain ⟨-, new, hnames, hlocals, -⟩ := h
    rw [known_inFront hlocals hs, List.map_append, hnames, List.mem_append, List.mem_reverse,
      hbefore, List.mem_append]

theorem Declared.knows_of_nil (h : s.Declared t []) (hknown : s.Knows known) : t.Knows known :=
  h.knows (.inl rfl) hknown

end ResolveState

namespace Resolve

variable {ctx : ResolveContext} {site : Site} {s t : ResolveState} {known : List String}

theorem ownerOf_eq_ownerAmong (hknown : s.Knows known) (object : Node) :
    ownerOf site s object = ownerAmong site.scope known object := by
  cases object with
  | identifier name => exact hknown.ite_eq name _ _
  | _ => rfl

theorem has_of_owned {node : Node} {owner : Owner} {key : String} {e : Formula × Node}
    (h : owned ctx site node owner key = .ok e) : owner.Has ctx key := by
  rcases owned_cases h with ⟨t, rfl, hcolumn⟩ | ⟨rfl, hparam⟩ | ⟨rfl, v, hv, -⟩
  · exact hasColumn_of_column hcolumn
  · exact hasParam_of_parameter hparam
  · exact Option.isSome_iff_exists.2 ⟨v, hv⟩

theorem names_of_identifier {node : Node} {name : String} {e : Formula × Node}
    (h : identifier ctx site node name s = .ok e) :
    s.isLocal name = true ∨ site.scope.Names ctx name := by
  unfold ResolveState.isLocal
  unfold identifier at h
  split at h
  next slot hslot =>
    rw [hslot]
    exact .inl rfl
  next =>
    refine .inr ?_
    unfold Scope.Names
    cases hcolumn : site.scope.columns.lookup name with
    | some place =>
      simp only [hcolumn] at h
      exact hasColumn_of_column h
    | none =>
      cases hparam : site.scope.paramNames.lookup name with
      | some param =>
        simp only [hcolumn, hparam] at h
        exact hasParam_of_parameter h
      | none =>
        simp only [hcolumn, hparam] at h
        split at h
        next => cases h
        next htable =>
          split at h
          next => cases h
          next hparams =>
            split at h
            next v hv =>
              exact ⟨Option.not_isSome_iff_eq_none.1 htable, hparams,
                Option.isSome_iff_exists.2 ⟨v, hv⟩⟩
            next => cases h

/-- What is called is no constant of a block. -/
theorem head_of_callee {node f : Node} {c : Callee} (h : callee node f s = .ok c) {name : String}
    (hhead : f.head? = some name) : s.isLocal name = false := by
  unfold callee at h
  split at h
  next =>
    split at h
    next => cases h
    next hlocal =>
      cases hhead
      exact Bool.eq_false_iff.2 hlocal
  next =>
    split at h
    next => cases h
    next hlocal =>
      cases hhead
      exact Bool.eq_false_iff.2 hlocal
  next => cases h
  next => cases h
  next => cases h

/-- The names in a part stand for something, if some constants are known before it. -/
def Part.Refers (ctx : ResolveContext) (S : Scope) (known : List String) : Part → Prop
  | expression n _ | statement n _ | branch n _ | body n _ => n.Refers ctx S known
  | expressions ns _ | operands _ ns _ => Node.RefersList ctx S known ns
  | properties ps _ => Node.RefersProperties ctx S known ps
  | statements ns _ => Node.RefersInTurn ctx S known ns
  | declarations ds _ => Node.RefersDeclarations ctx S known ds

theorem refers_owned {object property : Node} {computed : Bool} {key : String} {owner : Owner}
    (hknown : s.Knows known) (howner : ownerOf site s object = owner) (hother : owner ≠ .other)
    (hkey : HasKey ctx site s computed property key) (hhas : owner.Has ctx key)
    (hproperty : plainKey? computed property = none → property.Refers ctx site.scope known) :
    Node.Refers ctx site.scope known (.member object property computed) := by
  rw [ownerOf_eq_ownerAmong hknown] at howner
  unfold Node.Refers
  rw [howner]
  cases owner with
  | other => exact absurd rfl hother
  | _ => exact ⟨⟨site, s, key, rfl, hknown, hkey, hhas⟩, hproperty⟩

theorem refers_member {object property : Node} {computed : Bool} (hknown : s.Knows known)
    (howner : ownerOf site s object = .other) (hobject : object.Refers ctx site.scope known)
    (hproperty : (computed = false → ∀ name, property ≠ .identifier name) →
      property.Refers ctx site.scope known) :
    Node.Refers ctx site.scope known (.member object property computed) := by
  rw [ownerOf_eq_ownerAmong hknown] at howner
  unfold Node.Refers
  rw [howner]
  exact ⟨hobject, hproperty⟩

theorem refers_call {f : Node} {args : List Node} {c : Callee} (hknown : s.Knows known)
    (hcallee : callee (.call f args) f s = .ok c)
    (hargs : Node.RefersList ctx site.scope known args) :
    Node.Refers ctx site.scope known (.call f args) := by
  refine ⟨fun name hhead hname => ?_, hargs⟩
  have hlocal := head_of_callee hcallee hhead
  rw [(hknown name).2 hname] at hlocal
  cases hlocal

/-- Every name in a part that resolves stands for something. -/
theorem Derives.refers {part : Part} (h : Derives ctx site s part t) : ∀ known : List String,
    s.Knows known → part.declares = [] ∨ s.locals ≠ [] → part.Refers ctx site.scope known := by
  induction h with
  | literal _ | noExpressions | noProperties | noOperands | returnsNothing | noStatements
  | noDeclarations => exact fun _ _ _ => trivial
  | @identifier site s name e he =>
    intro known hknown _
    exact (names_of_identifier he).imp_left (hknown name).1
  | column he => exact fun _ _ _ => hasColumn_of_column he
  | parameter he => exact fun _ _ _ => hasParam_of_parameter he
  | owned howner hother hkey he =>
    intro known hknown _
    refine refers_owned hknown howner hother (.inl hkey) (has_of_owned he) fun hplain => ?_
    rw [hkey] at hplain
    cases hplain
  | @resolvedKey site s object property computed owner p e v howner hother hplain hp hv he ih =>
    intro known hknown _
    have hkey : HasKey ctx site s computed property v.text :=
      .inr ⟨hplain, p, v, hp.runs, hv, rfl⟩
    exact refers_owned hknown howner hother hkey (has_of_owned he)
      fun _ => ih known hknown (.inl rfl)
  | dotted howner _ ih =>
    intro known hknown _
    exact refers_member hknown howner (ih known hknown (.inl rfl))
      fun hname => absurd rfl (hname rfl _)
  | member howner _ ho _ iho ihp =>
    intro known hknown _
    exact refers_member hknown howner (iho known hknown (.inl rfl))
      fun _ => ihp known (ho.declared.knows_of_nil hknown) (.inl rfl)
  | scalar hcallee _ _ ih =>
    exact fun known hknown _ => refers_call hknown hcallee (ih known hknown (.inl rfl))
  | aggregate hcallee _ _ _ _ ih | window hcallee _ _ _ _ ih =>
    exact fun known hknown _ => refers_call hknown hcallee (ih known hknown (.inl rfl))
  | unary _ ih | array _ ih | object _ ih | returns _ ih | evaluated _ ih | bodyExpression _ ih =>
    exact fun known hknown _ => ih known hknown (.inl rfl)
  | binary hl _ ihl ihr | logical hl _ ihl ihr | moreExpressions hl _ ihl ihr
  | moreProperties hl _ ihl ihr | field hl _ ihl ihr | constant hl _ _ ihl ihr =>
    exact fun known hknown _ => ⟨ihl known hknown (.inl rfl),
      ihr known (hl.declared.knows_of_nil hknown) (.inl rfl)⟩
  | branchAlone ht _ iht ihc =>
    exact fun known hknown _ => ⟨iht known hknown (.inl rfl),
      ihc known (ht.declared.knows_of_nil hknown) (.inl rfl), trivial⟩
  | conditional ht hc _ iht ihc iha | branchElse ht hc _ iht ihc iha =>
    intro known hknown _
    have hknown' := ht.declared.knows_of_nil hknown
    exact ⟨iht known hknown (.inl rfl), ihc known hknown' (.inl rfl),
      iha known (hc.declared.knows_of_nil hknown') (.inl rfl)⟩
  | declaration _ ih => exact ih
  | block _ ih | branchBlock _ ih | bodyBlock _ ih =>
    exact fun known hknown _ => ih known hknown (.inr (List.cons_ne_nil _ _))
  | branchStatement _ _ ih =>
    exact fun known hknown _ => ih known hknown (.inr (List.cons_ne_nil _ _))
  | @moreStatements site s t s' n ns r more hn hns ihn ihns =>
    intro known hknown hopen
    have hsplit : (n.declares = [] ∧ ns.flatMap Node.declares = []) ∨ s.locals ≠ [] :=
      hopen.imp_left List.append_eq_nil_iff.1
    exact ⟨ihn known hknown (hsplit.imp_left (·.1)),
      ihns _ (hn.declared.knows (hsplit.imp_left (·.1)) hknown)
        (hsplit.imp (·.2) hn.declared.locals_ne)⟩
  | @moreDeclarations site s t s' name init ds e more hinit hds ih ihds =>
    intro known hknown hopen
    have hne : s.locals ≠ [] := hopen.resolve_left (List.cons_ne_nil _ _)
    have hne' := hinit.declared.locals_ne hne
    have hdeclared := ResolveState.declared_declare t name
    exact ⟨ih known hknown (.inl rfl), ihds ([name] ++ known)
      (hdeclared.knows (.inr hne') (hinit.declared.knows_of_nil hknown))
      (.inr (hdeclared.locals_ne hne'))⟩

end Resolve

/-! ## Around the body -/

namespace Node

/-- A form that runs its body over a frame. -/
def IsRollingForm (n : Node) : Prop := ∃ g inner, Resolve.rollingRoot n = .ok (some (g, inner))

/-- What such a form is made of apart from its body: its name, literals and the two bounds. -/
def isFramePart : Node → Bool
  | identifier name => name == "rolling"
  | literal _ | unary .negate (literal _) => true
  | array bounds => bounds.length == 2
  | _ => false

/-- What stands around the body of an expression: a function literal, and a rolling form right
    inside of it. -/
def Surrounds (tables : Nat) (root n : Node) : Prop :=
  (n = root ∧ n.isFunction = true) ∨ (n = (Resolve.header tables root).2 ∧ n.IsRollingForm) ∨
    n.isFramePart = true

end Node

namespace Resolve

theorem isFramePart_of_bound? {n : Node} {bound : Option Int} (h : bound? n = some bound) :
    ∀ m ∈ n.parts, m.isFramePart = true := by
  unfold bound? at h
  split at h
  next => exact List.forall_mem_cons.2 ⟨rfl, nofun⟩
  next => exact List.forall_mem_cons.2 ⟨rfl, nofun⟩
  next => exact List.forall_mem_cons.2 ⟨rfl, List.forall_mem_cons.2 ⟨rfl, nofun⟩⟩
  next => cases h

theorem isFramePart_of_peers? {ns : List Node} {peers : Bool} (h : peers? ns = some peers) :
    ∀ m ∈ Node.partsList ns, m.isFramePart = true := by
  unfold peers? at h
  split at h
  next => exact nofun
  next => exact List.forall_mem_cons.2 ⟨rfl, nofun⟩
  next => cases h

theorem parts_of_rollingArguments? {args : List Node} {g : Frame} {inner : Node}
    (h : rollingArguments? args = some (g, inner)) :
    ∀ n ∈ Node.partsList args, n ∈ inner.parts ∨ n.isFramePart = true := by
  unfold rollingArguments? at h
  split at h
  next body start stop rest =>
    obtain ⟨_, hstart, h⟩ := Option.bind_eq_some_iff.1 h
    obtain ⟨_, hstop, h⟩ := Option.bind_eq_some_iff.1 h
    obtain ⟨_, hpeers, h⟩ := Option.bind_eq_some_iff.1 h
    cases h
    intro n hn
    simp only [Node.partsList, Node.parts, List.mem_append, List.mem_cons, List.append_nil] at hn
    rcases hn with hn | (rfl | hn | hn) | hn
    · exact .inl hn
    · exact .inr rfl
    · exact .inr (isFramePart_of_bound? hstart n hn)
    · exact .inr (isFramePart_of_bound? hstop n hn)
    · exact .inr (isFramePart_of_peers? hpeers n hn)
  next => cases h

/-- A rolling form is made of its body and the frame. -/
theorem parts_of_rollingRoot {node : Node} {g : Frame} {inner : Node}
    (h : rollingRoot node = .ok (some (g, inner))) :
    ∀ n ∈ node.parts, n ∈ inner.parts ∨ n = node ∨ n.isFramePart = true := by
  unfold rollingRoot at h
  split at h
  next =>
    cases h
    intro n hn
    exact (List.mem_cons.1 hn).elim (fun heq => .inr (.inl heq)) .inl
  next args =>
    split at h
    next r harguments =>
      cases h
      intro n hn
      rcases List.mem_cons.1 hn with heq | hn
      · exact .inr (.inl heq)
      · rcases List.mem_append.1 hn with hn | hn
        · exact .inr (.inr (List.mem_singleton.1 hn ▸ rfl))
        · exact (parts_of_rollingArguments? harguments n hn).imp_right .inr
    next => cases h
  next => cases h

theorem parts_of_header (tables : Nat) (node : Node) :
    ∀ n ∈ node.parts, n ∈ (header tables node).2.parts ∨ (n = node ∧ n.isFunction = true) := by
  intro n hn
  cases node with
  | arrow _ _ | function _ _ _ =>
    refine (List.mem_cons.1 hn).elim (fun heq => .inr ⟨heq, ?_⟩) .inl
    rw [heq]
    rfl
  | _ => exact .inl hn

theorem parts_of_placed? {tables : Nat} {frame : Option Frame} {node inner : Node} {site : Site}
    (h : placed? tables frame node = some (site, inner)) :
    ∀ n ∈ node.parts, n ∈ inner.parts ∨ node.Surrounds tables n := by
  intro n hn
  rcases parts_of_header tables node n hn with hn | hfunction
  · unfold placed? at h
    split at h
    next g body hroot =>
      cases h
      rcases parts_of_rollingRoot hroot n hn with hn | heq | hframe
      · exact .inl hn
      · exact .inr (.inr (.inl ⟨heq, heq ▸ ⟨g, inner, hroot⟩⟩))
      · exact .inr (.inr (.inr hframe))
    next =>
      cases h
      exact .inl hn
    next => cases h
  · exact .inr (.inl hfunction)

end Resolve

theorem ExprSpec.placed?_innermost {tables : Nat} {e : ExprSpec} {node inner : Node} {site : Site}
    (hnode : e.innermost? = some node) {frame : Option Frame}
    (h : e.placed? tables frame = some (site, inner)) :
    ∃ frame', Resolve.placed? tables frame' node = some (site, inner) := by
  induction e generalizing frame with
  | source text | tree n =>
    obtain ⟨n', hn', hplaced⟩ := Option.bind_eq_some_iff.1 h
    obtain rfl : n' = node := Option.some.inj (hn'.symm.trans hnode)
    exact ⟨frame, hplaced⟩
  | rolling inner g ih => exact ih hnode h
  | _ => cases hnode

/-- In an expression that resolves, every part is that of a body, or a function literal or a rolling
    form around it. In the body everything is of a kind that belongs where it stands, calls and
    declarations are as they should be, and every name stands for something that exists. -/
theorem validated_of_resolve {ctx : ResolveContext} {exprs : List (String × ExprSpec)}
    {r : Resolution} (h : resolve ctx exprs = .ok r) {name : String} {e : ExprSpec}
    (he : (name, e) ∈ exprs) {node : Node} (hnode : e.innermost? = some node) :
    ∃ site inner, e.placed? ctx.tables.length none = some (site, inner) ∧
      (∀ n ∈ node.parts, n ∈ inner.parts ∨ node.Surrounds ctx.tables.length n) ∧
      inner.isBody = true ∧ (∀ n ∈ inner.parts, n.Fits ctx) ∧ inner.Refers ctx site.scope [] := by
  obtain ⟨es, s, hnamed, -⟩ := resolve_eq_ok_iff.1 h
  obtain ⟨i, hi⟩ := List.mem_iff_getElem?.1 he
  obtain ⟨b, t, t', -, hrun⟩ := Resolve.run_named_getElem hnamed hi
  obtain ⟨site, inner, tree, hplaced, hbody⟩ := Resolve.derives_of_spec hnode hrun
  obtain ⟨frame, hplaced'⟩ := ExprSpec.placed?_innermost hnode hplaced
  obtain ⟨hkind, hfit⟩ := hbody.fits
  have hrefers := hbody.refers [] (ResolveState.knows_nil rfl) (.inl rfl)
  exact ⟨site, inner, hplaced, Resolve.parts_of_placed? hplaced', hkind, hfit, hrefers⟩

theorem validated_headed : ∃ r node site inner, resolve numbered [("a", headed)] = .ok r ∧
    headed.innermost? = some node ∧ headed.placed? 1 none = some (site, inner) ∧
    (∀ n ∈ node.parts, n ∈ inner.parts ∨ node.Surrounds 1 n) ∧ inner.isBody = true ∧
    (∀ n ∈ inner.parts, n.Fits numbered) ∧ inner.Refers numbered site.scope [] := by
  obtain ⟨r, hr, -⟩ := exists_ok (x := resolve numbered [("a", headed)]) (p := fun _ => true)
    (by decide +kernel)
  have hparsed : headed.innermost?.isSome = true := by decide +kernel
  obtain ⟨node, hnode⟩ := Option.isSome_iff_exists.1 hparsed
  obtain ⟨site, inner, hvalidated⟩ := validated_of_resolve hr (List.mem_singleton.2 rfl) hnode
  exact ⟨r, node, site, inner, hr, hnode, hvalidated⟩

end ColumnQuery
