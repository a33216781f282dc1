/-
  Parts of trees at two places.

  What a part of a tree resolves to depends on the scope only through the names that occur in it, and
  inside of an operator it depends neither on the options nor on the frame: where two places agree
  on the rest, what succeeds at the one succeeds alike at the other (`Derives.alike`). The names
  that need no header, `d` and `$`, stand in no one's way: they hide no numeric constant
  (`standard_of_ne`).
-/
import ColumnQuery.Proofs.Formula.Derivation

namespace ColumnQuery

/-! ## The trees in a tree -/

namespace Node

mutual

/-- The tree and all trees in it. -/
def parts : Node → List Node
  | literal v => [literal v]
  | identifier name => [identifier name]
  | member o p c => member o p c :: (parts o ++ parts p)
  | call f as => call f as :: (parts f ++ partsList as)
  | unary o a => unary o a :: parts a
  | binary o l r => binary o l r :: (parts l ++ parts r)
  | logical o l r => logical o l r :: (parts l ++ parts r)
  | conditional t c a => conditional t c a :: (parts t ++ parts c ++ parts a)
  | array es => array es :: partsList es
  | object ps => object ps :: partsProperties ps
  | arrow ps b => arrow ps b :: parts b
  | function n ps b => function n ps b :: parts b
  | block ss => block ss :: partsList ss
  | declaration k ds => declaration k ds :: partsDeclarations ds
  | returns a => returns a :: partsOption a
  | branch t c a => branch t c a :: (parts t ++ parts c ++ partsOption a)
  | loop k b => loop k b :: parts b
  | assignment o t v => assignment o t v :: (parts t ++ parts v)
  | update o l a => update o l a :: parts a
  | await a => await a :: parts a
  | yield a => yield a :: partsOption a
  | column t n => [column t n]
  | parameter n => [parameter n]
  | rolling f b => rolling f b :: parts b

def partsList : List Node → List Node
  | [] => []
  | n :: ns => parts n ++ partsList ns

def partsOption : Option Node → List Node
  | none => []
  | some n => parts n

def partsProperties : List (String × Node) → List Node
  | [] => []
  | (_, n) :: ps => parts n ++ partsProperties ps

def partsDeclarations : List (Pattern × Option Node) → List Node
  | [] => []
  | (_, a) :: ds => partsOption a ++ partsDeclarations ds

end

theorem self_mem_parts (n : Node) : n ∈ n.parts := by
  cases n <;> simp [parts]

end Node

/-! ## Scopes that agree -/

namespace Scope

/-- A name stands for the same in both scopes. -/
structure AgreeOn (S T : Scope) (name : String) : Prop where
  table : S.tableOf? name = T.tableOf? name
  params : S.params = some name ↔ T.params = some name
  column : S.columns.lookup name = T.columns.lookup name
  param : S.paramNames.lookup name = T.paramNames.lookup name

/-- All names in a list of trees stand for the same in both scopes. -/
def AgreeIn (S T : Scope) (nodes : List Node) : Prop :=
  ∀ name, .identifier name ∈ nodes → S.AgreeOn T name

theorem AgreeIn.left {S T : Scope} {xs ys : List Node} (h : S.AgreeIn T (xs ++ ys)) :
    S.AgreeIn T xs := fun name hname => h name (List.mem_append_left ys hname)

theorem AgreeIn.right {S T : Scope} {xs ys : List Node} (h : S.AgreeIn T (xs ++ ys)) :
    S.AgreeIn T ys := fun name hname => h name (List.mem_append_right xs hname)

theorem AgreeIn.tail {S T : Scope} {x : Node} {xs : List Node} (h : S.AgreeIn T (x :: xs)) :
    S.AgreeIn T xs := fun name hname => h name (List.mem_cons_of_mem x hname)

theorem AgreeIn.refl (S : Scope) (nodes : List Node) : S.AgreeIn S nodes :=
  fun _ _ => ⟨rfl, Iff.rfl, rfl, rfl⟩

end Scope

namespace Resolve

/-- Resolution goes alike at two places, as far as names do: the tables and the parameters are the
    same, and so are the options and the frame, unless operators are refused at both places. -/
structure Alike (ctx ctx' : ResolveContext) (site site' : Site) : Prop where
  tables : ctx'.tables = ctx.tables
  params : ctx'.params = ctx.params
  inOperator : site'.inOperator = site.inOperator
  outside : site.inOperator = false → ctx'.options = ctx.options ∧ site'.frame = site.frame

/-- All names in a list of trees stand for the same at both places. -/
abbrev AgreeIn (site site' : Site) (nodes : List Node) : Prop :=
  site.scope.AgreeIn site'.scope nodes

variable {ctx ctx' : ResolveContext} {site site' : Site}

/-- Places that differ in their names only. -/
theorem Alike.scopes (ctx : ResolveContext) (site : Site) (T : Scope) :
    Alike ctx ctx site { site with scope := T } where
  tables := rfl
  params := rfl
  inOperator := rfl
  outside _ := ⟨rfl, rfl⟩

theorem Alike.inside (h : Alike ctx ctx' site site') :
    Alike ctx ctx' { site with inOperator := true } { site' with inOperator := true } where
  tables := h.tables
  params := h.params
  inOperator := rfl
  outside := nofun

theorem column_alike (h : Alike ctx ctx' site site') (node : Node) (table : Nat) (name : String) :
    column ctx' site' node table name = column ctx site node table name := by
  have honly : (ctx'.options.aggregateOnly && !site'.inOperator)
      = (ctx.options.aggregateOnly && !site.inOperator) := by
    rw [h.inOperator]
    cases hplace : site.inOperator with
    | true => simp
    | false => rw [(h.outside hplace).1]
  unfold column
  rw [h.tables, honly]

theorem parameter_alike (h : Alike ctx ctx' site site') (node : Node) (name : String) :
    parameter ctx' node name = parameter ctx node name := by
  unfold parameter
  rw [h.params]

theorem identifier_alike (h : Alike ctx ctx' site site') (node : Node) {name : String}
    (s : ResolveState) (hname : site.scope.AgreeOn site'.scope name) :
    identifier ctx' site' node name s = identifier ctx site node name s := by
  unfold identifier
  simp only [h.inOperator, ← hname.table, ← hname.column, ← hname.param, ← hname.params,
    column_alike h, parameter_alike h]

theorem ownerOf_alike (s : ResolveState) {object : Node}
    (hagree : AgreeIn site site' object.parts) :
    ownerOf site' s object = ownerOf site s object := by
  cases object with
  | identifier name =>
    have hname := hagree name (Node.self_mem_parts _)
    simp only [ownerOf, ← hname.table, ← hname.params]
  | _ => rfl

theorem owned_alike (h : Alike ctx ctx' site site') (node : Node) (owner : Owner) (key : String) :
    owned ctx' site' node owner key = owned ctx site node owner key := by
  cases owner with
  | table t => exact column_alike h node t key
  | params => exact parameter_alike h node key
  | math | other => rfl

theorem checkAggregate_alike (h : Alike ctx ctx' site site') (hplace : site.inOperator = false)
    (node : Node) (a : Aggregate) :
    checkAggregate ctx' site' node a = checkAggregate ctx site node a := by
  obtain ⟨hoptions, hframe⟩ := h.outside hplace
  unfold checkAggregate
  rw [hoptions, hframe]

/-- The trees in a part, as they are before it is resolved. -/
def Part.parts : Part → List Node
  | expression n _ | statement n _ | branch n _ | body n _ => n.parts
  | expressions ns _ | operands _ ns _ | statements ns _ => Node.partsList ns
  | properties ps _ => Node.partsProperties ps
  | declarations ds _ => Node.partsDeclarations ds

/-- A part in which all names stand for the same is resolved alike. -/
theorem Derives.alike {s t : ResolveState} {part : Part} (h : Derives ctx site s part t) :
    ∀ {site' : Site}, Alike ctx ctx' site site' → AgreeIn site site' part.parts →
      Derives ctx' site' s part t := by
  induction h with
  | literal v => exact fun _ _ => .literal v
  | @identifier site s name e he =>
    intro site' h hagree
    have hname := hagree name (Node.self_mem_parts _)
    exact .identifier ((identifier_alike h _ s hname).trans he)
  | column he => exact fun h _ => .column ((column_alike h _ _ _).trans he)
  | parameter he => exact fun h _ => .parameter ((parameter_alike h _ _).trans he)
  | owned howner hother hkey he =>
    intro site' h hagree
    have howner' := (ownerOf_alike _ hagree.tail.left).trans howner
    exact .owned howner' hother hkey ((owned_alike h _ _ _).trans he)
  | resolvedKey howner hother hplain _ hv he ih =>
    intro site' h hagree
    have howner' := (ownerOf_alike _ hagree.tail.left).trans howner
    exact .resolvedKey howner' hother hplain (ih h hagree.tail.right) hv
      ((owned_alike h _ _ _).trans he)
  | dotted howner _ ih =>
    intro site' h hagree
    exact .dotted ((ownerOf_alike _ hagree.tail.left).trans howner) (ih h hagree.tail.left)
  | member howner hname _ _ iho ihp =>
    intro site' h hagree
    exact .member ((ownerOf_alike _ hagree.tail.left).trans howner) hname (iho h hagree.tail.left)
      (ihp h hagree.tail.right)
  | scalar hcallee hadmits _ ih =>
    exact fun h hagree => .scalar hcallee hadmits (ih h hagree.tail.right)
  | aggregate hcallee hallowed hplace hcount _ ih =>
    -- operators are only admitted where the options and the frame are the same
    intro site' h hagree
    have hcall := Derives.aggregate hcallee ((checkAggregate_alike h hplace _ _).trans hallowed)
      (h.inOperator.trans hplace) hcount (ih h.inside hagree.tail.right)
    rw [(h.outside hplace).2] at hcall
    exact hcall
  | window hcallee hallowed hplace hcount _ ih =>
    intro site' h hagree
    obtain ⟨hoptions, hframe⟩ := h.outside hplace
    have hcall := Derives.window hcallee (hoptions ▸ hallowed) (h.inOperator.trans hplace) hcount
      (ih h.inside hagree.tail.right)
    rw [hframe] at hcall
    exact hcall
  | unary _ ih => exact fun h hagree => .unary (ih h hagree.tail)
  | binary _ _ ihl ihr =>
    exact fun h hagree => .binary (ihl h hagree.tail.left) (ihr h hagree.tail.right)
  | logical _ _ ihl ihr =>
    exact fun h hagree => .logical (ihl h hagree.tail.left) (ihr h hagree.tail.right)
  | conditional _ _ _ iht ihc iha =>
    exact fun h hagree => .conditional (iht h hagree.tail.left.left)
      (ihc h hagree.tail.left.right) (iha h hagree.tail.right)
  | array _ ih => exact fun h hagree => .array (ih h hagree.tail)
  | object _ ih => exact fun h hagree => .object (ih h hagree.tail)
  | noExpressions => exact fun _ _ => .noExpressions
  | moreExpressions _ _ ih ih' =>
    exact fun h hagree => .moreExpressions (ih h hagree.left) (ih' h hagree.right)
  | noProperties => exact fun _ _ => .noProperties
  | moreProperties _ _ ih ih' =>
    exact fun h hagree => .moreProperties (ih h hagree.left) (ih' h hagree.right)
  | noOperands => exact fun _ _ => .noOperands
  | field _ _ ih ih' => exact fun h hagree => .field (ih h hagree.left) (ih' h hagree.right)
  | constant _ hv _ ih ih' =>
    exact fun h hagree => .constant (ih h hagree.left) hv (ih' h hagree.right)
  | declaration _ ih => exact fun h hagree => .declaration (ih h hagree.tail)
  | returnsNothing => exact fun _ _ => .returnsNothing
  | returns _ ih => exact fun h hagree => .returns (ih h hagree.tail)
  | branchAlone _ _ iht ihc =>
    exact fun h hagree => .branchAlone (iht h hagree.tail.left.left)
      (ihc h hagree.tail.left.right)
  | branchElse _ _ _ iht ihc iha =>
    exact fun h hagree => .branchElse (iht h hagree.tail.left.left)
      (ihc h hagree.tail.left.right) (iha h hagree.tail.right)
  | block _ ih => exact fun h hagree => .block (ih h hagree.tail)
  | evaluated _ ih => exact fun h hagree => .evaluated (ih h hagree)
  | branchBlock _ ih => exact fun h hagree => .branchBlock (ih h hagree.tail)
  | branchStatement hblock _ ih => exact fun h hagree => .branchStatement hblock (ih h hagree)
  | noStatements => exact fun _ _ => .noStatements
  | moreStatements _ _ ih ih' =>
    exact fun h hagree => .moreStatements (ih h hagree.left) (ih' h hagree.right)
  | noDeclarations => exact fun _ _ => .noDeclarations
  | moreDeclarations _ _ ih ih' =>
    exact fun h hagree => .moreDeclarations (ih h hagree.left) (ih' h hagree.right)
  | bodyBlock _ ih => exact fun h hagree => .bodyBlock (ih h hagree.tail)
  | bodyExpression _ ih => exact fun h hagree => .bodyExpression (ih h hagree)

end Resolve

/-! ## The names without a header -/

theorem Constants.mem_of_global? {name : String} {v : Value} (h : global? name = some v) :
    name ∈ ["undefined", "NaN", "Infinity", "E", "LN2", "LN10", "LOG2E", "LOG10E", "PI", "SQRT1_2",
      "SQRT2"] := by
  unfold global? at h
  split at h
  next heq => simp [heq]
  next =>
    split at h
    next heq => simp [heq]
    next =>
      split at h
      next heq => simp [heq]
      next =>
        obtain ⟨x, hx, -⟩ := Option.map_eq_some_iff.1 h
        have hmem : name ∈ Constants.math.map (·.1) := List.mem_map_of_mem (mem_of_lookup hx)
        revert hmem
        unfold Constants.math
        simp only [List.map_cons, List.map_nil]
        intro hmem
        exact List.mem_cons_of_mem _ (List.mem_cons_of_mem _ (List.mem_cons_of_mem _ hmem))

/-- No constant has the name of a table, of the parameters or of `Math`. -/
theorem Constants.names_of_global? {name : String} {v : Value} (h : global? name = some v) :
    name ≠ "Math" ∧ name ∉ ["d", "d1", "d2", "$"] := by
  have hconstant := mem_of_global? h
  simp only [List.mem_cons, List.not_mem_nil, or_false] at hconstant
  rcases hconstant with rfl | rfl | rfl | rfl | rfl | rfl | rfl | rfl | rfl | rfl | rfl <;>
    exact ⟨by decide, by decide⟩

theorem Scope.standard_of_ne {name : String} (tables : Nat)
    (h : name ∉ ["d", "d1", "d2", "$"]) :
    (standard tables).tableOf? name = none ∧ (standard tables).params ≠ some name := by
  simp only [List.mem_cons, List.not_mem_nil, or_false, not_or] at h
  obtain ⟨hd, hd1, hd2, hparams⟩ := h
  refine ⟨?_, ?_⟩
  · unfold tableOf? standard
    rw [List.findIdx?_eq_none_iff]
    split <;> simp [Ne.symm hd, Ne.symm hd1, Ne.symm hd2]
  · simp [standard, Ne.symm hparams]

end ColumnQuery
