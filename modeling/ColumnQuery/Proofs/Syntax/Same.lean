/-
  Sameness of syntax trees is an equivalence.

  Two trees are the same if they differ in nothing but the representation of numbers in
  literals. So each tree has a canonical form, in which every number is a chosen one among those
  that are the same, and two trees are the same exactly if their canonical forms are equal
  (`same_iff`, by induction on the first tree; trees with different roots are told apart at once,
  by `iff_of_apart`). The three laws follow.
-/
import ColumnQuery.Proofs.Value.Same
import ColumnQuery.Syntax.Node.Basic
import Mathlib.Data.Quot

namespace ColumnQuery

namespace Number

/-- Numbers that are the same. -/
def sameSetoid : Setoid Float where
  r x y := same x y = true
  iseqv := ⟨same_refl, same_symm, same_trans⟩

/-- A chosen number among those that are the same. -/
noncomputable def chosen (x : Float) : Float := (Quotient.mk sameSetoid x).out

theorem same_iff_chosen (x y : Float) : same x y = true ↔ chosen x = chosen y := by
  constructor
  · intro h
    have hclass : Quotient.mk sameSetoid x = Quotient.mk sameSetoid y := Quotient.sound h
    unfold chosen
    rw [hclass]
  · intro h
    have hclass : Quotient.mk sameSetoid x = Quotient.mk sameSetoid y := by
      rw [← Quotient.out_eq (Quotient.mk sameSetoid x),
        ← Quotient.out_eq (Quotient.mk sameSetoid y)]
      exact congrArg _ h
    exact Quotient.exact hclass

end Number

namespace Literal

noncomputable def canonical : Literal → Literal
  | number x => number (Number.chosen x)
  | l => l

theorem same_iff (a b : Literal) : a.same b = true ↔ a.canonical = b.canonical := by
  cases a <;> cases b <;> simp [same, canonical, Number.same_iff_chosen]

end Literal

namespace Node

mutual

/-- The tree with every number replaced by the chosen one. -/
noncomputable def canonical : Node → Node
  | literal v => literal v.canonical
  | identifier n => identifier n
  | member o p c => member (canonical o) (canonical p) c
  | call f as => call (canonical f) (canonicalList as)
  | unary o a => unary o (canonical a)
  | binary o l r => binary o (canonical l) (canonical r)
  | logical o l r => logical o (canonical l) (canonical r)
  | conditional t c a => conditional (canonical t) (canonical c) (canonical a)
  | array es => array (canonicalList es)
  | object ps => object (canonicalProperties ps)
  | arrow ps b => arrow ps (canonical b)
  | function n ps b => function n ps (canonical b)
  | block ss => block (canonicalList ss)
  | declaration k ds => declaration k (canonicalDeclarations ds)
  | returns a => returns (canonicalOption a)
  | branch t c a => branch (canonical t) (canonical c) (canonicalOption a)
  | loop k b => loop k (canonical b)
  | assignment o t v => assignment o (canonical t) (canonical v)
  | update o l a => update o l (canonical a)
  | await a => await (canonical a)
  | yield a => yield (canonicalOption a)
  | column t n => column t n
  | parameter n => parameter n
  | rolling f b => rolling f (canonical b)

noncomputable def canonicalList : List Node → List Node
  | [] => []
  | a :: as => canonical a :: canonicalList as

noncomputable def canonicalOption : Option Node → Option Node
  | none => none
  | some a => some (canonical a)

noncomputable def canonicalProperties : List (String × Node) → List (String × Node)
  | [] => []
  | (k, a) :: as => (k, canonical a) :: canonicalProperties as

noncomputable def canonicalDeclarations :
    List (Pattern × Option Node) → List (Pattern × Option Node)
  | [] => []
  | (p, a) :: as => (p, canonicalOption a) :: canonicalDeclarations as

end

/-- Trees that are the same have the same root. -/
theorem ctorIdx_eq_of_same {a b : Node} (h : same a b = true) : a.ctorIdx = b.ctorIdx := by
  unfold same at h
  split at h
  all_goals first | rfl | cases h

theorem ctorIdx_canonical (a : Node) : (canonical a).ctorIdx = a.ctorIdx := by
  cases a <;> rw [canonical] <;> rfl

/-- Trees with different roots are not the same, and neither are their canonical forms. -/
theorem iff_of_apart {a b : Node} (h : (a.ctorIdx == b.ctorIdx) = false) :
    same a b = true ↔ canonical a = canonical b := by
  have hne : a.ctorIdx ≠ b.ctorIdx := by simpa using h
  refine iff_of_false (fun hsame => hne (ctorIdx_eq_of_same hsame)) fun heq => hne ?_
  rw [← ctorIdx_canonical a, heq, ctorIdx_canonical]

mutual

theorem same_iff : ∀ a b : Node, same a b = true ↔ canonical a = canonical b
  | literal v, b => by
    cases b with
    | literal _ => simp [same, canonical, Literal.same_iff]
    | _ => exact iff_of_apart rfl
  | identifier n, b => by
    cases b with
    | identifier _ => simp [same, canonical]
    | _ => exact iff_of_apart rfl
  | member o p c, b => by
    cases b with
    | member _ _ _ => simp [same, canonical, same_iff o, same_iff p, and_assoc]
    | _ => exact iff_of_apart rfl
  | call f as, b => by
    cases b with
    | call _ _ => simp [same, canonical, same_iff f, sameList_iff as]
    | _ => exact iff_of_apart rfl
  | unary o a, b => by
    cases b with
    | unary _ _ => simp [same, canonical, same_iff a]
    | _ => exact iff_of_apart rfl
  | binary o l r, b => by
    cases b with
    | binary _ _ _ => simp [same, canonical, same_iff l, same_iff r, and_assoc]
    | _ => exact iff_of_apart rfl
  | logical o l r, b => by
    cases b with
    | logical _ _ _ => simp [same, canonical, same_iff l, same_iff r, and_assoc]
    | _ => exact iff_of_apart rfl
  | conditional t c a, b => by
    cases b with
    | conditional _ _ _ => simp [same, canonical, same_iff t, same_iff c, same_iff a, and_assoc]
    | _ => exact iff_of_apart rfl
  | array es, b => by
    cases b with
    | array _ => simp [same, canonical, sameList_iff es]
    | _ => exact iff_of_apart rfl
  | object ps, b => by
    cases b with
    | object _ => simp [same, canonical, sameProperties_iff ps]
    | _ => exact iff_of_apart rfl
  | arrow ps body, b => by
    cases b with
    | arrow _ _ => simp [same, canonical, same_iff body]
    | _ => exact iff_of_apart rfl
  | function n ps body, b => by
    cases b with
    | function _ _ _ => simp [same, canonical, same_iff body, and_assoc]
    | _ => exact iff_of_apart rfl
  | block ss, b => by
    cases b with
    | block _ => simp [same, canonical, sameList_iff ss]
    | _ => exact iff_of_apart rfl
  | declaration k ds, b => by
    cases b with
    | declaration _ _ => simp [same, canonical, sameDeclarations_iff ds]
    | _ => exact iff_of_apart rfl
  | returns a, b => by
    cases b with
    | returns _ => simp [same, canonical, sameOption_iff a]
    | _ => exact iff_of_apart rfl
  | branch t c a, b => by
    cases b with
    | branch _ _ _ => simp [same, canonical, same_iff t, same_iff c, sameOption_iff a, and_assoc]
    | _ => exact iff_of_apart rfl
  | loop k body, b => by
    cases b with
    | loop _ _ => simp [same, canonical, same_iff body]
    | _ => exact iff_of_apart rfl
  | assignment o t v, b => by
    cases b with
    | assignment _ _ _ => simp [same, canonical, same_iff t, same_iff v, and_assoc]
    | _ => exact iff_of_apart rfl
  | update o l a, b => by
    cases b with
    | update _ _ _ => simp [same, canonical, same_iff a, and_assoc]
    | _ => exact iff_of_apart rfl
  | await a, b => by
    cases b with
    | await _ => simp [same, canonical, same_iff a]
    | _ => exact iff_of_apart rfl
  | yield a, b => by
    cases b with
    | yield _ => simp [same, canonical, sameOption_iff a]
    | _ => exact iff_of_apart rfl
  | column t n, b => by
    cases b with
    | column _ _ => simp [same, canonical]
    | _ => exact iff_of_apart rfl
  | parameter n, b => by
    cases b with
    | parameter _ => simp [same, canonical]
    | _ => exact iff_of_apart rfl
  | rolling f body, b => by
    cases b with
    | rolling _ _ => simp [same, canonical, same_iff body]
    | _ => exact iff_of_apart rfl

theorem sameList_iff : ∀ as bs : List Node,
    sameList as bs = true ↔ canonicalList as = canonicalList bs
  | [], bs => by cases bs <;> simp [sameList, canonicalList]
  | a :: as, bs => by
    cases bs <;> simp [sameList, canonicalList, same_iff a, sameList_iff as]

theorem sameOption_iff : ∀ a b : Option Node,
    sameOption a b = true ↔ canonicalOption a = canonicalOption b
  | none, b => by cases b <;> simp [sameOption, canonicalOption]
  | some a, b => by cases b <;> simp [sameOption, canonicalOption, same_iff a]

theorem sameProperties_iff : ∀ as bs : List (String × Node),
    sameProperties as bs = true ↔ canonicalProperties as = canonicalProperties bs
  | [], bs => by cases bs <;> simp [sameProperties, canonicalProperties]
  | (k, a) :: as, [] => by simp [sameProperties, canonicalProperties]
  | (k, a) :: as, (l, b) :: bs => by
    simp [sameProperties, canonicalProperties, same_iff a, sameProperties_iff as]

theorem sameDeclarations_iff : ∀ as bs : List (Pattern × Option Node),
    sameDeclarations as bs = true ↔ canonicalDeclarations as = canonicalDeclarations bs
  | [], bs => by cases bs <;> simp [sameDeclarations, canonicalDeclarations]
  | (p, a) :: as, [] => by simp [sameDeclarations, canonicalDeclarations]
  | (p, a) :: as, (q, b) :: bs => by
    simp [sameDeclarations, canonicalDeclarations, sameOption_iff a, sameDeclarations_iff as]

end

theorem equivalence_sameList : Equivalence fun as bs : List Node => sameList as bs = true where
  refl as := (sameList_iff as as).2 rfl
  symm h := (sameList_iff _ _).2 ((sameList_iff _ _).1 h).symm
  trans hab hbc :=
    (sameList_iff _ _).2 (((sameList_iff _ _).1 hab).trans ((sameList_iff _ _).1 hbc))

/-- Lists of trees that are the same are of one length. -/
theorem length_eq_of_sameList {as bs : List Node} (h : sameList as bs = true) :
    as.length = bs.length := by
  induction as generalizing bs with
  | nil =>
    cases bs with
    | nil => rfl
    | cons b bs => simp [sameList] at h
  | cons a as ih =>
    cases bs with
    | nil => simp [sameList] at h
    | cons b bs =>
      rw [sameList, Bool.and_eq_true] at h
      exact congrArg (· + 1) (ih h.2)

end Node

end ColumnQuery
