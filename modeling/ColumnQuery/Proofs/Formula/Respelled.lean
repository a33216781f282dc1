/-
  Formulas that are spelled otherwise.

  A text has no negative number, only the negation of a number. Two formulas of which one has the
  negation where the other one has the number are worth the same everywhere (`Respells`), and
  resolution treats them alike: they are constants together, and neither is a column or a text,
  which are all that equality with a dictionary text looks for (`Respells.binary`).
-/
import ColumnQuery.Formula.Resolve
import ColumnQuery.Proofs.Number.Negated
import Mathlib.Data.List.Forall2

namespace ColumnQuery

/-- What equality with a dictionary text looks for. -/
def Formula.isTextual : Formula → Bool
  | column _ _ | literal (.string _) => true
  | _ => false

/-- Worth the same wherever it is evaluated, and resolved alike in a larger formula. -/
structure Formula.Respells (f f' : Formula) : Prop where
  eval : ∀ env s, f'.evalWith env s = f.evalWith env s
  constant : f'.isConstant = f.isConstant
  shape : f' = f ∨ (f.isTextual = false ∧ f'.isTextual = false)

namespace Formula.Respells

open Formula

variable {f f' g g' h h' : Formula}

theorem refl (f : Formula) : f.Respells f := ⟨fun _ _ => rfl, rfl, .inl rfl⟩

theorem constant? (hf : f.Respells f') : f'.constant? = f.constant? := by
  unfold Formula.constant? Formula.eval
  rw [hf.constant, hf.eval]

/-- The negation of the opposite number. -/
theorem negative {x : Float} (hx : x < 0.0) :
    (Formula.literal (.number x)).Respells (.unary .negate (.literal (.number (-x)))) where
  eval env s := by
    rw [evalWith, evalWith, evalWith]
    show some (Value.number (- -x), s) = some (Value.number x, s)
    rw [Number.neg_neg (Number.ofFloat_of_lt_zero hx).1]
  constant := rfl
  shape := .inr ⟨rfl, rfl⟩

theorem unary (op : UnaryOp) (hf : f.Respells f') : (Formula.unary op f).Respells (.unary op f') where
  eval env s := by rw [evalWith, evalWith, hf.eval]
  constant := hf.constant
  shape := .inr ⟨rfl, rfl⟩

theorem plain_binary (op : BinaryOp) (hf : f.Respells f') (hg : g.Respells g') :
    (Formula.binary op f g).Respells (.binary op f' g') where
  eval env s := by
    rw [evalWith, evalWith, hf.eval]
    simp only [hg.eval]
  constant := congrArg₂ (· && ·) hf.constant hg.constant
  shape := .inr ⟨rfl, rfl⟩

theorem dictionaryEquality?_left (hf : f.isTextual = false) (g : Formula) (negated : Bool) :
    Resolve.dictionaryEquality? f g negated = none ∧
      Resolve.dictionaryEquality? g f negated = none := by
  unfold Resolve.dictionaryEquality?
  constructor
  · split
    next => cases hf
    next => rfl
  · split
    next => cases hf
    next => rfl

theorem binary_of_not_textual (op : BinaryOp) (hf : f.isTextual = false ∨ g.isTextual = false) :
    Resolve.binary op f g = .binary op f g := by
  have hnone : ∀ negated, Resolve.dictionaryEquality? f g negated = none ∧
      Resolve.dictionaryEquality? g f negated = none := by
    intro negated
    rcases hf with hf | hg
    · exact dictionaryEquality?_left hf g negated
    · exact (dictionaryEquality?_left hg f negated).symm
  unfold Resolve.binary
  cases Resolve.equality? op with
  | none => rfl
  | some negated =>
    show (Resolve.dictionaryEquality? f g negated <|> Resolve.dictionaryEquality? g f negated).getD _
      = _
    rw [(hnone negated).1, (hnone negated).2]
    rfl

theorem binary (op : BinaryOp) (hf : f.Respells f') (hg : g.Respells g') :
    (Resolve.binary op f g).Respells (Resolve.binary op f' g') := by
  rcases hf.shape with rfl | ⟨hplain, hplain'⟩
  · rcases hg.shape with rfl | ⟨hplain, hplain'⟩
    · exact refl _
    · rw [binary_of_not_textual op (.inr hplain), binary_of_not_textual op (.inr hplain')]
      exact plain_binary op hf hg
  · rw [binary_of_not_textual op (.inl hplain), binary_of_not_textual op (.inl hplain')]
    exact plain_binary op hf hg

theorem logical (op : LogicalOp) (hf : f.Respells f') (hg : g.Respells g') :
    (Formula.logical op f g).Respells (.logical op f' g') where
  eval env s := by
    rw [evalWith, evalWith, hf.eval]
    simp only [hg.eval]
  constant := congrArg₂ (· && ·) hf.constant hg.constant
  shape := .inr ⟨rfl, rfl⟩

theorem conditional (hf : f.Respells f') (hg : g.Respells g') (hh : h.Respells h') :
    (Formula.conditional f g h).Respells (.conditional f' g' h') where
  eval env s := by
    rw [evalWith, evalWith, hf.eval]
    simp only [hg.eval, hh.eval]
  constant := congrArg₂ (· && ·) (congrArg₂ (· && ·) hf.constant hg.constant) hh.constant
  shape := .inr ⟨rfl, rfl⟩

theorem member (hf : f.Respells f') (hg : g.Respells g') :
    (Formula.member f g).Respells (.member f' g') where
  eval env s := by
    rw [evalWith, evalWith, hf.eval]
    simp only [hg.eval]
  constant := congrArg₂ (· && ·) hf.constant hg.constant
  shape := .inr ⟨rfl, rfl⟩

/-! ## Lists -/

variable {fs fs' : List Formula} {es es' : List (String × Formula)}

theorem evalList (hfs : List.Forall₂ Respells fs fs') (env : Env) (s : Slots) :
    Formula.evalList env fs' s = Formula.evalList env fs s := by
  induction hfs generalizing s with
  | nil => rfl
  | cons hf _ ih =>
    rw [Formula.evalList, Formula.evalList, hf.eval]
    simp only [ih]

theorem areConstant (hfs : List.Forall₂ Respells fs fs') :
    Formula.areConstant fs' = Formula.areConstant fs := by
  induction hfs with
  | nil => rfl
  | cons hf _ ih => exact congrArg₂ (· && ·) hf.constant ih

theorem array (hfs : List.Forall₂ Respells fs fs') : (Formula.array fs).Respells (.array fs') where
  eval env s := by rw [evalWith, evalWith, evalList hfs]
  constant := areConstant hfs
  shape := .inr ⟨rfl, rfl⟩

theorem call (g : ScalarFunction) (hfs : List.Forall₂ Respells fs fs') :
    (Formula.call g fs).Respells (.call g fs') where
  eval env s := by rw [evalWith, evalWith, evalList hfs]
  constant := areConstant hfs
  shape := .inr ⟨rfl, rfl⟩

/-- Entries under the same keys. -/
def Entry (e e' : String × Formula) : Prop := e'.1 = e.1 ∧ e.2.Respells e'.2

theorem object (hes : List.Forall₂ Entry es es') : (Formula.object es).Respells (.object es') where
  eval env s := by
    have heval : ∀ s, evalEntries env es' s = evalEntries env es s := by
      induction hes with
      | nil => exact fun _ => rfl
      | cons he _ ih =>
        intro s
        rw [evalEntries, evalEntries, he.1, he.2.eval]
        simp only [ih]
    rw [evalWith, evalWith, heval]
  constant := by
    show areConstantEntries es' = areConstantEntries es
    induction hes with
    | nil => rfl
    | cons he _ ih => exact congrArg₂ (· && ·) he.2.constant ih
  shape := .inr ⟨rfl, rfl⟩

end Formula.Respells

end ColumnQuery
