/-
  The surface of a rewritten tree.

  A text has no nodes for columns, parameters and windows, and no negative numbers. The surface of
  a tree (`Node.surface`) is the tree that its text is the text of: an access to a name for a column
  or a parameter, a call of `rolling` for a window, a negation for a negative number.
-/
import ColumnQuery.Proofs.Syntax.Spelled

namespace ColumnQuery

namespace Node

/-! ## Trees -/

/-- Access to a key of a name: after a point if the key is a name. -/
def access (object key : String) : Node :=
  if Token.isName key then member (identifier object) (identifier key) false
  else member (identifier object) (literal (.string key)) true

def boundSurface : Option Int → Node
  | none => literal .null
  | some (.ofNat n) => literal (.number (Number.ofNat n))
  | some (.negSucc n) => unary .negate (literal (.number (Number.ofNat (n + 1))))

def numberSurface (x : Float) : Node :=
  if x < 0.0 then unary .negate (literal (.number (-x))) else literal (.number x)

def literalSurface : Literal → Node
  | .number x => numberSurface x
  | v => literal v

mutual

/-- The tree of the text of a tree. -/
def surface (s : Spelling) : Node → Node
  | literal v => literalSurface v
  | identifier n => identifier n
  | member o (identifier n) false => member (surface s o) (identifier n) false
  | member o p _ => member (surface s o) (surface s p) true
  | call f as => call (surface s f) (surfaces s as)
  | unary op a => unary op (surface s a)
  | binary op l r => binary op (surface s l) (surface s r)
  | logical op l r => logical op (surface s l) (surface s r)
  | conditional t c a => conditional (surface s t) (surface s c) (surface s a)
  | array es => array (surfaces s es)
  | object ps => object (surfaceProperties s ps)
  | column t n => access (s.table t) n
  | parameter n => access s.params n
  | rolling f b => call (identifier "rolling")
      [surface s b, array [boundSurface f.start, boundSurface f.stop], literal (.boolean f.peers)]
  | n => n

def surfaces (s : Spelling) : List Node → List Node
  | [] => []
  | n :: ns => surface s n :: surfaces s ns

def surfaceProperties (s : Spelling) : List (String × Node) → List (String × Node)
  | [] => []
  | (k, n) :: ps => (k, surface s n) :: surfaceProperties s ps

end

theorem surfaces_eq (s : Spelling) (ns : List Node) : surfaces s ns = ns.map (surface s) := by
  induction ns with
  | nil => rfl
  | cons n ns ih => rw [surfaces, ih, List.map_cons]

theorem surfaceProperties_eq (s : Spelling) (ps : List (String × Node)) :
    surfaceProperties s ps = ps.map fun p => (p.1, surface s p.2) := by
  induction ps with
  | nil => rfl
  | cons p ps ih => rw [surfaceProperties, ih, List.map_cons]

variable {s : Spelling} {n o p : Node}

/-- A member access that is not written with a point is written with brackets. -/
theorem surface_member {computed : Bool}
    (h : computed = false → ∀ name, p ≠ .identifier name) :
    surface s (member o p computed) = member (surface s o) (surface s p) true := by
  rw [surface]
  intro name hname hcomputed
  exact h hcomputed name hname

/-- The surface of a tree stands in parentheses exactly if the tree does, and is an object or a
    number if the tree is one. -/
theorem shape_surface (s : Spelling) (n : Node) : (surface s n).isAtom = n.isAtom ∧
    (surface s n).isObject = n.isObject ∧
    (surface s n).isNumber = (n.isNumber && n.isAtom) := by
  cases n with
  | literal v =>
    rw [surface]
    cases v with
    | number x =>
      show (numberSurface x).isAtom = _ ∧ (numberSurface x).isObject = _
        ∧ (numberSurface x).isNumber = _
      unfold numberSurface
      split
      next hx => simp [isAtom, isObject, isNumber, hx]
      next hx => simp [isAtom, isObject, isNumber, hx]
    | _ => exact ⟨rfl, rfl, rfl⟩
  | member o p computed =>
    unfold surface
    split <;> first | exact ⟨rfl, rfl, rfl⟩ | simp_all
  | column t name | parameter name =>
    rw [surface]
    unfold access
    split <;> exact ⟨rfl, rfl, rfl⟩
  | _ => exact ⟨rfl, rfl, rfl⟩

theorem enclosed_surface (s : Spelling) (n : Node) (text : String) :
    (surface s n).enclosed text = n.enclosed text := by
  unfold enclosed
  rw [(shape_surface s n).1]

/-- Only a name has a name for its surface. -/
theorem surface_eq_identifier {name : String} (h : surface s n = .identifier name) :
    n = .identifier name := by
  cases n with
  | identifier other =>
    rw [surface] at h
    exact h
  | literal v =>
    rw [surface] at h
    cases v with
    | number x =>
      have hx : numberSurface x = .identifier name := h
      unfold numberSurface at hx
      split at hx <;> cases hx
    | _ => cases h
  | member o p computed =>
    unfold surface at h
    split at h
    all_goals first | cases h; done | simp_all
  | column t key | parameter key =>
    rw [surface] at h
    unfold access at h
    split at h <;> cases h
  | _ => cases h

/-! ## Accesses -/

theorem text_access (object key : String) (s : Spelling) :
    (access object key).textWith s = accessText object key := by
  unfold access accessText
  split
  next =>
    rw [textWith, textWith]
    rfl
  next =>
    rw [textWith_member (fun h => Bool.noConfusion h), textWith, textWith]
    rfl

theorem spellable_access {P : Float → Prop} {object : String} (hname : Token.isName object = true)
    (hword : object ∉ reservedWords) (key : String) : Spellable P (access object key) := by
  unfold access
  split
  next hkey => exact .dotted (.identifier hname hword) rfl hkey
  next => exact .computed (.identifier hname hword) (.string key)

/-! ## Numbers -/

theorem text_negate {x : Float} (hx : Number.Legible x) (s : Spelling) :
    (unary .negate (literal (.number x))).textWith s = "-" ++ Number.text x := by
  have hatom : (literal (.number x)).isAtom = true := by
    have hnonnegative := of_decide_eq_false hx.nonnegative
    simp [isAtom, hnonnegative]
  rw [textWith, textWith]
  unfold enclosed
  rw [hatom]
  rfl

theorem text_literalSurface {v : Literal} (hv : ∀ x, v = .number x → Number.isSpelled x = true)
    (s : Spelling) : (literalSurface v).textWith s = literalText v := by
  cases v with
  | number x =>
    have hx := hv x rfl
    show (numberSurface x).textWith s = Number.text x
    unfold numberSurface
    split
    next hneg =>
      rw [text_negate (Number.legible_neg_of_isSpelled hx hneg),
        Number.text_negative hneg (Number.isHeld_of_isSpelled hx)]
    next => rw [textWith]; rfl
  | _ => rfl

theorem spellable_literalSurface {v : Literal}
    (hv : ∀ x, v = .number x → Number.isSpelled x = true) :
    Spellable Number.Legible (literalSurface v) := by
  cases v with
  | null => exact .null
  | boolean b => exact .boolean b
  | string t => exact .string t
  | number x =>
    have hx := hv x rfl
    show Spellable Number.Legible (numberSurface x)
    unfold numberSurface
    split
    next hneg => exact .unary _ (.number (Number.legible_neg_of_isSpelled hx hneg))
    next hneg => exact .number (Number.legible_of_isSpelled hx hneg)

/-! ## Windows -/

theorem text_boundSurface {b : Option Int} (hb : b.all Number.isBound = true) (s : Spelling) :
    (boundSurface b).textWith s = boundText b := by
  cases b with
  | none => rfl
  | some n =>
    have hdouble := Number.isBound_natAbs hb
    have htext : Number.text (Number.ofNat n.natAbs) = toString n.natAbs := by
      refine String.toList_inj.1 ?_
      rw [Number.text_of_isBound hdouble]
      exact Nat.toList_repr.symm
    cases n with
    | ofNat k =>
      rw [boundSurface, textWith]
      exact htext
    | negSucc k =>
      have hlegible : Number.Legible (Number.ofNat (k + 1)) := Number.legible_of_isBound hdouble
      rw [boundSurface, text_negate hlegible]
      exact congrArg ("-" ++ ·) htext

theorem spellable_boundSurface {b : Option Int} (hb : b.all Number.isBound = true) :
    Spellable Number.Legible (boundSurface b) := by
  cases b with
  | none => exact .null
  | some n =>
    have hlegible := Number.legible_of_isBound (Number.isBound_natAbs hb)
    cases n with
    | ofNat k => exact .number hlegible
    | negSucc k => exact .unary _ (.number hlegible)

end Node

end ColumnQuery
