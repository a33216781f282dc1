/-
  Constants of blocks.

  Only declarations change which constants are known, and only in the innermost block: each puts a
  name in front, with a slot that no constant before it has (`Declared`). Expressions declare
  nothing, and blocks and branches forget at their end what was declared in them, so the constants
  after any part of a tree are those before it and the ones that the part itself declares
  (`Derives.declared`).
-/
import ColumnQuery.Proofs.Formula.Derivation

namespace ColumnQuery

/-! ## Names that are declared -/

/-- The names that a declaration of a plain name declares. -/
def Pattern.declares : Pattern → List String
  | name n => [n]
  | object _ => []

/-- The names that declarations declare, in their order. -/
def declaredNames (ds : List (Pattern × Option Node)) : List String :=
  ds.flatMap fun d => d.1.declares

/-- The names that a statement declares in the block around it. -/
def Node.declares : Node → List String
  | declaration _ ds => declaredNames ds
  | _ => []

/-- The names that a part declares in the block around it. -/
def Resolve.Part.declares : Part → List String
  | statement node _ => node.declares
  | statements nodes _ => nodes.flatMap Node.declares
  | declarations ds _ => declaredNames ds
  | _ => []

theorem Node.declares_of_isExpression {n : Node} (h : n.isExpression = true) : n.declares = [] := by
  cases n with
  | declaration _ _ => cases h
  | _ => rfl

/-! ## Slots -/

/-- Constants put in front of the innermost block. -/
def inFront (new : List (String × Nat)) : List (List (String × Nat)) → List (List (String × Nat))
  | [] => []
  | block :: outer => (new ++ block) :: outer

theorem inFront_nil (blocks : List (List (String × Nat))) : inFront [] blocks = blocks := by
  cases blocks <;> rfl

theorem inFront_inFront (new newer : List (String × Nat)) (blocks : List (List (String × Nat))) :
    inFront newer (inFront new blocks) = inFront (newer ++ new) blocks := by
  cases blocks with
  | nil => rfl
  | cons block outer => exact congrArg (· :: outer) (List.append_assoc newer new block).symm

namespace ResolveState

variable {s t u : ResolveState} {names more : List String}

/-- Between two states names are declared in the innermost block, in slots that were not given out
    before. -/
def Declared (s t : ResolveState) (names : List String) : Prop :=
  s.nextSlot ≤ t.nextSlot ∧ ∃ new : List (String × Nat), new.map (·.1) = names.reverse ∧
    t.locals = inFront new s.locals ∧ ∀ b ∈ new, s.nextSlot ≤ b.2 ∧ b.2 < t.nextSlot

theorem declared_of_eq (hlocals : t.locals = s.locals) (hslot : t.nextSlot = s.nextSlot) :
    s.Declared t [] :=
  ⟨Nat.le_of_eq hslot.symm, [], rfl, hlocals.trans (inFront_nil s.locals).symm, by simp⟩

theorem Declared.refl (s : ResolveState) : s.Declared s [] := declared_of_eq rfl rfl

theorem Declared.trans (h : s.Declared t names) (h' : t.Declared u more) :
    s.Declared u (names ++ more) := by
  obtain ⟨hslot, new, hnames, hlocals, hnew⟩ := h
  obtain ⟨hslot', newer, hnames', hlocals', hnewer⟩ := h'
  refine ⟨Nat.le_trans hslot hslot', newer ++ new, ?_, ?_, ?_⟩
  · rw [List.map_append, hnames, hnames', List.reverse_append]
  · rw [hlocals', hlocals, inFront_inFront]
  · intro b hb
    rcases List.mem_append.1 hb with hb | hb
    · exact ⟨Nat.le_trans hslot (hnewer b hb).1, (hnewer b hb).2⟩
    · exact ⟨(hnew b hb).1, Nat.lt_of_lt_of_le (hnew b hb).2 hslot'⟩

theorem declared_declare (s : ResolveState) (name : String) :
    s.Declared (s.declare name) [name] := by
  refine ⟨Nat.le_succ _, [(name, s.nextSlot)], rfl, ?_, ?_⟩
  · unfold declare
    cases s.locals <;> rfl
  · intro b hb
    rw [List.mem_singleton.1 hb]
    exact ⟨Nat.le_refl _, Nat.lt_succ_self _⟩

/-- What is declared in a block is forgotten at its end. -/
theorem Declared.block (h : s.enter.Declared t names) : s.Declared t.leave [] := by
  obtain ⟨hslot, new, -, hlocals, -⟩ := h
  refine ⟨hslot, [], rfl, ?_, by simp⟩
  unfold leave
  rw [hlocals, inFront_nil]
  rfl

/-- The constants after an expression are those before it. -/
theorem Declared.locals_eq (h : s.Declared t []) : t.locals = s.locals := by
  obtain ⟨-, new, hnames, hlocals, -⟩ := h
  rw [List.map_eq_nil_iff.1 hnames, inFront_nil] at hlocals
  exact hlocals

theorem Declared.locals_ne (h : s.Declared t names) (hs : s.locals ≠ []) : t.locals ≠ [] := by
  obtain ⟨-, new, -, hlocals, -⟩ := h
  rw [hlocals]
  cases hblocks : s.locals with
  | nil => exact absurd hblocks hs
  | cons block outer => exact List.cons_ne_nil _ _

/-! ## Known constants -/

/-- The constants that are known, innermost first, with their slots. -/
def known (s : ResolveState) : List (String × Nat) := s.locals.flatten

theorem local?_eq (s : ResolveState) (name : String) : s.local? name = s.known.lookup name := by
  unfold local? known
  induction s.locals with
  | nil => rfl
  | cons block outer ih =>
    rw [List.findSome?_cons, List.flatten_cons, List.lookup_append, ih]
    cases block.lookup name <;> rfl

theorem isLocal_iff {s : ResolveState} {name : String} :
    s.isLocal name = true ↔ name ∈ s.known.map (·.1) := by
  unfold isLocal
  rw [local?_eq, List.lookup_isSome_iff, List.mem_map]
  refine exists_congr fun b => and_congr_right fun _ => ?_
  rw [beq_iff_eq, eq_comm]

theorem known_inFront {new : List (String × Nat)} (h : t.locals = inFront new s.locals)
    (hs : s.locals ≠ []) : t.known = new ++ s.known := by
  unfold known
  rw [h]
  cases hlocals : s.locals with
  | nil => exact absurd hlocals hs
  | cons block outer =>
    rw [inFront, List.flatten_cons, List.flatten_cons, List.append_assoc]

theorem mem_known_inFront {new : List (String × Nat)} (h : t.locals = inFront new s.locals)
    {b : String × Nat} (hb : b ∈ t.known) : b ∈ new ∨ b ∈ s.known := by
  by_cases hs : s.locals = []
  · unfold known at hb
    rw [h, hs] at hb
    cases hb
  · rw [known_inFront h hs] at hb
    exact List.mem_append.1 hb

end ResolveState

namespace Resolve

variable {ctx : ResolveContext} {site : Site} {s t : ResolveState}

/-- A part declares its names, and everything else is as before. -/
theorem Derives.declared {part : Part} (h : Derives ctx site s part t) :
    s.Declared t part.declares := by
  induction h with
  | literal _ | identifier _ | column _ | parameter _ | owned _ _ _ _ | resolvedKey _ _ _ _ _ _ _
  | noExpressions | noProperties | noOperands | returnsNothing | noStatements | noDeclarations =>
    exact .refl _
  | dotted _ _ ih | scalar _ _ _ ih | unary _ ih | array _ ih | object _ ih | declaration _ ih
  | returns _ ih | bodyExpression _ ih => exact ih
  | member _ _ _ _ ih ih' | binary _ _ ih ih' | logical _ _ ih ih' | moreExpressions _ _ ih ih'
  | moreProperties _ _ ih ih' | field _ _ ih ih' | constant _ _ _ ih ih' | branchAlone _ _ ih ih'
  | moreStatements _ _ ih ih' => exact ih.trans ih'
  | conditional _ _ _ ih ih' ih'' | branchElse _ _ _ ih ih' ih'' => exact (ih.trans ih').trans ih''
  | moreDeclarations _ _ ih ih' =>
    exact (ih.trans (ResolveState.declared_declare _ _)).trans ih'
  | @aggregate site s f args a o _ _ _ _ _ _ =>
    exact ResolveState.declared_of_eq (ResolveState.locals_register s _)
      (ResolveState.nextSlot_register s _)
  | @window site s f args w o _ _ _ _ _ _ =>
    exact ResolveState.declared_of_eq (ResolveState.locals_register s _)
      (ResolveState.nextSlot_register s _)
  | evaluated he ih =>
    rw [Part.declares, Node.declares_of_isExpression he.isExpression]
    exact ih
  | block _ ih | branchBlock _ ih | branchStatement _ _ ih | bodyBlock _ ih => exact ih.block

end Resolve

end ColumnQuery
