/-
  Formulas that evaluate alike.

  Two formulas, each with its own tables, evaluate alike in pairs of environments that correspond
  (`SameIn`): they give the same value and leave the same slots. Every constructor keeps this, and
  so do statements, if what comes after them runs alike (`SameBody`).

  `Agree` adds what resolution asks of a formula before it goes on: whether it is constant, and
  whether it is a column or a text, which together may become a test of a dictionary. One of two
  formulas that agree may be constant without the other being so, but only if a text is lacking
  from one dictionary that another one has.
-/
import ColumnQuery.Proofs.Formula.Readings
import ColumnQuery.Proofs.Formula.Resolve

namespace ColumnQuery

namespace Formula

/-! ## Values -/

/-- Two formulas give the same values, and leave the same slots, where environments correspond. -/
def SameIn (E : Env → Env → Prop) (f f' : Formula) : Prop :=
  ∀ env env', E env env' → ∀ s, f.evalWith env s = f'.evalWith env' s

/-- Statements run alike if what comes after them does. -/
def SameBody (E : Env → Env → Prop) (body body' : List Statement) : Prop :=
  ∀ env env', E env env' → ∀ rest rest', (∀ s, exec env rest s = exec env' rest' s) →
    ∀ s, exec env (body ++ rest) s = exec env' (body' ++ rest') s

variable {E : Env → Env → Prop} {f f' l l' r r' t t' c c' a a' : Formula}

theorem SameIn.eval (h : SameIn E f f') {env env' : Env} (he : E env env') :
    f.eval env = f'.eval env' := by
  rw [Formula.eval, Formula.eval, h env env' he]

theorem SameIn.mono (h : SameIn E f f') {E' : Env → Env → Prop}
    (hE : ∀ env env', E' env env' → E env env') : SameIn E' f f' :=
  fun env env' he => h env env' (hE env env' he)

theorem sameIn_literal (v : Value) : SameIn E (literal v) (literal v) := by
  intro env env' _ s
  rw [evalWith, evalWith]

theorem sameIn_slot (i : Nat) : SameIn E (slot i) (slot i) := by
  intro env env' _ s
  rw [evalWith, evalWith]

theorem SameIn.unary (op : UnaryOp) (ha : SameIn E a a') :
    SameIn E (.unary op a) (.unary op a') := by
  intro env env' he s
  rw [evalWith, evalWith, ha env env' he]

theorem SameIn.binary (op : BinaryOp) (hl : SameIn E l l') (hr : SameIn E r r') :
    SameIn E (.binary op l r) (.binary op l' r') := by
  intro env env' he s
  simp only [evalWith, hl env env' he, hr env env' he]

theorem SameIn.logical (op : LogicalOp) (hl : SameIn E l l') (hr : SameIn E r r') :
    SameIn E (.logical op l r) (.logical op l' r') := by
  intro env env' he s
  simp only [evalWith, hl env env' he, hr env env' he]

theorem SameIn.conditional (ht : SameIn E t t') (hc : SameIn E c c') (ha : SameIn E a a') :
    SameIn E (.conditional t c a) (.conditional t' c' a') := by
  intro env env' he s
  simp only [evalWith, ht env env' he, hc env env' he, ha env env' he]

theorem SameIn.member (hl : SameIn E l l') (hr : SameIn E r r') :
    SameIn E (.member l r) (.member l' r') := by
  intro env env' he s
  simp only [evalWith, hl env env' he, hr env env' he]

theorem evalList_of_sameIn {fs fs' : List Formula} (h : List.Forall₂ (SameIn E) fs fs')
    {env env' : Env} (he : E env env') (s : Slots) : evalList env fs s = evalList env' fs' s := by
  induction h generalizing s with
  | nil => rw [evalList, evalList]
  | cons hf _ ih => simp only [evalList, hf env env' he, ih]

theorem sameIn_array {fs fs' : List Formula} (h : List.Forall₂ (SameIn E) fs fs') :
    SameIn E (.array fs) (.array fs') := by
  intro env env' he s
  rw [evalWith, evalWith, evalList_of_sameIn h he]

theorem sameIn_call (g : ScalarFunction) {fs fs' : List Formula}
    (h : List.Forall₂ (SameIn E) fs fs') : SameIn E (.call g fs) (.call g fs') := by
  intro env env' he s
  rw [evalWith, evalWith, evalList_of_sameIn h he]

theorem evalEntries_of_sameIn {es es' : List (String × Formula)}
    (h : List.Forall₂ (fun e e' => e.1 = e'.1 ∧ SameIn E e.2 e'.2) es es') {env env' : Env}
    (he : E env env') (s : Slots) : evalEntries env es s = evalEntries env' es' s := by
  induction h generalizing s with
  | nil => rw [evalEntries, evalEntries]
  | @cons e e' _ _ hf _ ih =>
    obtain ⟨k, f⟩ := e
    obtain ⟨k', f'⟩ := e'
    obtain ⟨rfl, hf⟩ := hf
    simp only [evalEntries, hf env env' he, ih]

theorem sameIn_object {es es' : List (String × Formula)}
    (h : List.Forall₂ (fun e e' => e.1 = e'.1 ∧ SameIn E e.2 e'.2) es es') :
    SameIn E (.object es) (.object es') := by
  intro env env' he s
  rw [evalWith, evalWith, evalEntries_of_sameIn h he]

/-! ## Statements -/

variable {body body' more more' : List Statement}

theorem SameBody.exec (h : SameBody E body body') {env env' : Env} (he : E env env') (s : Slots) :
    Formula.exec env body s = Formula.exec env' body' s := by
  have hrun := h env env' he [] [] (fun _ => rfl) s
  rwa [List.append_nil, List.append_nil] at hrun

theorem sameBody_nil : SameBody E [] [] := fun _ _ _ _ _ hrest => hrest

theorem SameBody.append (h : SameBody E body body') (hmore : SameBody E more more') :
    SameBody E (body ++ more) (body' ++ more') := by
  intro env env' he rest rest' hrest s
  rw [List.append_assoc, List.append_assoc]
  exact h env env' he _ _ (hmore env env' he rest rest' hrest) s

theorem sameBody_assign (i : Nat) (h : SameIn E f f') :
    SameBody E [.assign i f] [.assign i f'] := by
  intro env env' he rest rest' hrest s
  simp only [List.singleton_append, Formula.exec, h env env' he, hrest]

theorem sameBody_expression (h : SameIn E f f') :
    SameBody E [.expression f] [.expression f'] := by
  intro env env' he rest rest' hrest s
  simp only [List.singleton_append, Formula.exec, h env env' he, hrest]

theorem sameBody_returns (h : SameIn E f f') :
    SameBody E [.returns (some f)] [.returns (some f')] := by
  intro env env' he rest rest' hrest s
  simp only [List.singleton_append, Formula.exec, h env env' he]

theorem sameBody_returnsNone : SameBody E [.returns none] [.returns none] := by
  intro env env' he rest rest' hrest s
  simp only [List.singleton_append, Formula.exec]

theorem sameBody_branch (ht : SameIn E t t') (h : SameBody E body body')
    (hmore : SameBody E more more') :
    SameBody E [.branch t body more] [.branch t' body' more'] := by
  intro env env' he rest rest' hrest s
  simp only [List.singleton_append, Formula.exec, ht env env' he, h.exec he, hmore.exec he, hrest]

theorem sameBody_block (h : SameBody E body body') :
    SameBody E [.block body] [.block body'] := by
  intro env env' he rest rest' hrest s
  simp only [List.singleton_append, Formula.exec, h.exec he, hrest]

theorem sameIn_block (h : SameBody E body body') : SameIn E (.block body) (.block body') := by
  intro env env' he s
  rw [evalWith, evalWith, h.exec he]

end Formula

/-! ## What resolution looks at -/

/-- How two sides are compared. -/
structure Comparison where
  /-- Environments that correspond, in the arguments of operators or outside of them. -/
  envs : Bool → Env → Env → Prop
  /-- Dictionaries on the left may lack texts that are there on the right. -/
  leftLacks : Prop
  /-- Dictionaries on the right may lack texts that are there on the left. -/
  rightLacks : Prop

/-- The same comparison in the arguments of operators, and of fewer environments outside of
    them. -/
structure Comparison.Narrows (k' k : Comparison) : Prop where
  operators : k'.envs true = k.envs true
  rows : ∀ env env', k'.envs false env env' → k.envs false env env'

theorem Comparison.Narrows.refl (k : Comparison) : k.Narrows k := ⟨rfl, fun _ _ h => h⟩

/-- A dictionary without a text. -/
def Column.Lacks (c : Column) (s : String) : Prop := c.lookup (.string s) = some .absent

/-- Two columns of a table, one on each side. -/
structure Column.Counterpart (k : Comparison) (inOperator : Bool) (table : Nat) (c c' : Column) :
    Prop where
  alike : ∀ env env', k.envs inOperator env env' →
    c.Alike (env.position.rowOf table) c' (env'.position.rowOf table)
  lacks : ∀ s, c.Lacks s → c'.Lacks s ∨ k.leftLacks
  lacks' : ∀ s, c'.Lacks s → c.Lacks s ∨ k.rightLacks

namespace Formula

/-- What an equality looks for in its operands. -/
inductive Operand where
  | column (table : Nat) (c : Column)
  | text (s : String)
  | other

def operand : Formula → Operand
  | .column t c => .column t c
  | .literal (.string s) => .text s
  | _ => .other

theorem eq_column_of_operand {f : Formula} {t : Nat} {c : Column} (h : f.operand = .column t c) :
    f = .column t c := by
  unfold operand at h
  split at h
  next => cases h; rfl
  next => cases h
  next => cases h

theorem eq_text_of_operand {f : Formula} {s : String} (h : f.operand = .text s) :
    f = .literal (.string s) := by
  unfold operand at h
  split at h
  next => cases h
  next => cases h; rfl
  next => cases h

/-- The same column or text on both sides, or neither on both. -/
def Operand.Paired (k : Comparison) (inOperator : Bool) : Operand → Operand → Prop
  | .column t c, .column t' c' => t = t' ∧ c.Counterpart k inOperator t c'
  | .text s, .text s' => s = s'
  | .other, .other => True
  | _, _ => False

/-- Two formulas that resolution does not tell apart, unless dictionaries lack texts. -/
structure Agree (k : Comparison) (inOperator : Bool) (f f' : Formula) : Prop where
  same : SameIn (k.envs inOperator) f f'
  constant : f.isConstant = true → f'.isConstant = true ∨ k.leftLacks
  constant' : f'.isConstant = true → f.isConstant = true ∨ k.rightLacks
  operand : f.operand.Paired k inOperator f'.operand

variable {k : Comparison} {inOperator : Bool} {f f' l l' r r' t t' c c' a a' : Formula}

theorem agree_literal (v : Value) : Agree k inOperator (.literal v) (.literal v) := by
  refine ⟨sameIn_literal v, fun _ => .inl rfl, fun _ => .inl rfl, ?_⟩
  cases v with
  | string s => exact rfl
  | _ => exact trivial

theorem agree_slot (i : Nat) : Agree k inOperator (.slot i) (.slot i) :=
  ⟨sameIn_slot i, nofun, nofun, trivial⟩

theorem agree_column {table : Nat} {c c' : Column} (h : c.Counterpart k inOperator table c') :
    Agree k inOperator (.column table c) (.column table c') :=
  ⟨fun env env' he s => h.alike env env' he .cell table env env' rfl rfl s, nofun, nofun, rfl, h⟩

theorem agree_op (ref : OpRef) (h : ∀ env env', k.envs inOperator env env' →
    env.results ref (env.position.left.getD 0) = env'.results ref (env'.position.left.getD 0)) :
    Agree k inOperator (.op ref) (.op ref) := by
  refine ⟨fun env env' he s => ?_, nofun, nofun, trivial⟩
  rw [evalWith, evalWith, h env env' he]

theorem agree_block {body body' : List Statement} (h : SameBody (k.envs inOperator) body body') :
    Agree k inOperator (.block body) (.block body') :=
  ⟨sameIn_block h, nofun, nofun, trivial⟩

theorem Agree.unary (op : UnaryOp) (ha : Agree k inOperator a a') :
    Agree k inOperator (.unary op a) (.unary op a') :=
  ⟨ha.same.unary op, ha.constant, ha.constant', trivial⟩

/-- Two conditions carry over if both do. -/
theorem carries_and {p q p' q' : Bool} {P : Prop} (hp : p = true → p' = true ∨ P)
    (hq : q = true → q' = true ∨ P) (h : (p && q) = true) : (p' && q') = true ∨ P := by
  obtain ⟨hpt, hqt⟩ := Bool.and_eq_true_iff.1 h
  rcases hp hpt with hp | hp
  · rcases hq hqt with hq | hq
    · exact .inl (Bool.and_eq_true_iff.2 ⟨hp, hq⟩)
    · exact .inr hq
  · exact .inr hp

theorem Agree.plainBinary (op : BinaryOp) (hl : Agree k inOperator l l')
    (hr : Agree k inOperator r r') : Agree k inOperator (.binary op l r) (.binary op l' r') :=
  ⟨hl.same.binary op hr.same, carries_and hl.constant hr.constant,
    carries_and hl.constant' hr.constant', trivial⟩

theorem Agree.logical (op : LogicalOp) (hl : Agree k inOperator l l')
    (hr : Agree k inOperator r r') : Agree k inOperator (.logical op l r) (.logical op l' r') :=
  ⟨hl.same.logical op hr.same, carries_and hl.constant hr.constant,
    carries_and hl.constant' hr.constant', trivial⟩

theorem Agree.member (hl : Agree k inOperator l l') (hr : Agree k inOperator r r') :
    Agree k inOperator (.member l r) (.member l' r') :=
  ⟨hl.same.member hr.same, carries_and hl.constant hr.constant,
    carries_and hl.constant' hr.constant', trivial⟩

theorem Agree.conditional (ht : Agree k inOperator t t') (hc : Agree k inOperator c c')
    (ha : Agree k inOperator a a') :
    Agree k inOperator (.conditional t c a) (.conditional t' c' a') :=
  ⟨ht.same.conditional hc.same ha.same,
    carries_and (carries_and ht.constant hc.constant) ha.constant,
    carries_and (carries_and ht.constant' hc.constant') ha.constant', trivial⟩

theorem carries_areConstant {fs fs' : List Formula} (h : List.Forall₂ (Agree k inOperator) fs fs') :
    (areConstant fs = true → areConstant fs' = true ∨ k.leftLacks) ∧
      (areConstant fs' = true → areConstant fs = true ∨ k.rightLacks) := by
  induction h with
  | nil => exact ⟨.inl, .inl⟩
  | cons hf _ ih => exact ⟨carries_and hf.constant ih.1, carries_and hf.constant' ih.2⟩

theorem agree_array {fs fs' : List Formula} (h : List.Forall₂ (Agree k inOperator) fs fs') :
    Agree k inOperator (.array fs) (.array fs') :=
  ⟨sameIn_array (h.imp fun _ _ hf => hf.same), (carries_areConstant h).1, (carries_areConstant h).2,
    trivial⟩

theorem agree_call (g : ScalarFunction) {fs fs' : List Formula}
    (h : List.Forall₂ (Agree k inOperator) fs fs') :
    Agree k inOperator (.call g fs) (.call g fs') :=
  ⟨sameIn_call g (h.imp fun _ _ hf => hf.same), (carries_areConstant h).1,
    (carries_areConstant h).2, trivial⟩

theorem carries_areConstantEntries {es es' : List (String × Formula)}
    (h : List.Forall₂ (fun e e' => e.1 = e'.1 ∧ Agree k inOperator e.2 e'.2) es es') :
    (areConstantEntries es = true → areConstantEntries es' = true ∨ k.leftLacks) ∧
      (areConstantEntries es' = true → areConstantEntries es = true ∨ k.rightLacks) := by
  induction h with
  | nil => exact ⟨.inl, .inl⟩
  | cons hf _ ih => exact ⟨carries_and hf.2.constant ih.1, carries_and hf.2.constant' ih.2⟩

theorem agree_object {es es' : List (String × Formula)}
    (h : List.Forall₂ (fun e e' => e.1 = e'.1 ∧ Agree k inOperator e.2 e'.2) es es') :
    Agree k inOperator (.object es) (.object es') :=
  ⟨sameIn_object (h.imp fun _ _ hf => ⟨hf.1, hf.2.same⟩), (carries_areConstantEntries h).1,
    (carries_areConstantEntries h).2, trivial⟩

/-! ## Equalities -/

/-- Without a column and a text to compare, an operator stands as it is. -/
theorem binary_of_operands {op : BinaryOp}
    (h : ∀ t c s, l.operand = .column t c → r.operand ≠ .text s)
    (h' : ∀ t c s, r.operand = .column t c → l.operand ≠ .text s) :
    Resolve.binary op l r = .binary op l r := by
  have hnone : ∀ {f g : Formula} {negated : Bool},
      (∀ t c s, f.operand = .column t c → g.operand ≠ .text s) →
      Resolve.dictionaryEquality? f g negated = none := by
    intro f g negated hfg
    unfold Resolve.dictionaryEquality?
    split
    next t c s => exact absurd rfl (hfg t c s rfl)
    next => rfl
  unfold Resolve.binary
  cases Resolve.equality? op with
  | none => rfl
  | some negated =>
    show (Resolve.dictionaryEquality? l r negated
      <|> Resolve.dictionaryEquality? r l negated).getD _ = _
    rw [hnone h, hnone h']
    rfl

/-- A comparison with a text is constant if it is an equality with one that is lacking. -/
theorem isConstant_comparison (table : Nat) (c : Column) (op : BinaryOp) (s : String) :
    ((Resolve.binary op (.column table c) (.literal (.string s))).isConstant = true ↔
      (Resolve.equality? op).isSome ∧ c.Lacks s) ∧
    ((Resolve.binary op (.literal (.string s)) (.column table c)).isConstant = true ↔
      (Resolve.equality? op).isSome ∧ c.Lacks s) := by
  rw [binary_column_text, binary_text_column]
  unfold Column.Lacks
  cases Resolve.equality? op with
  | none => exact ⟨⟨nofun, nofun⟩, nofun, nofun⟩
  | some negated =>
    rw [Option.bind_some, Resolve.dictionaryEquality?]
    cases c.lookup (.string s) with
    | none => exact ⟨⟨nofun, nofun⟩, nofun, nofun⟩
    | some entry =>
      cases entry with
      | present key => exact ⟨⟨nofun, nofun⟩, nofun, nofun⟩
      | absent => exact ⟨⟨fun _ => ⟨rfl, rfl⟩, fun _ => rfl⟩, fun _ => ⟨rfl, rfl⟩, fun _ => rfl⟩

theorem operand_binary (op : BinaryOp) (l r : Formula) :
    (Resolve.binary op l r).operand = .other := by
  rcases Resolve.binary_cases op l r with h | ⟨t, c, s, negated, -, ⟨key, h⟩ | h⟩
  · rw [h]
    rfl
  · rw [h]
    rfl
  · rw [h]
    rfl

theorem Operand.Paired.exists_column {o : Operand} {t : Nat} {c' : Column}
    (h : o.Paired k inOperator (.column t c')) : ∃ c, o = .column t c := by
  cases o with
  | column t₁ c =>
    obtain ⟨rfl, -⟩ := h
    exact ⟨c, rfl⟩
  | text _ => exact h.elim
  | other => exact h.elim

theorem Operand.Paired.exists_counterpart {o' : Operand} {t : Nat} {c : Column}
    (h : Operand.Paired k inOperator (.column t c) o') :
    ∃ c', o' = .column t c' ∧ c.Counterpart k inOperator t c' := by
  cases o' with
  | column t₁ c' =>
    obtain ⟨rfl, h⟩ := h
    exact ⟨c', rfl, h⟩
  | text _ => exact h.elim
  | other => exact h.elim

theorem Operand.Paired.text_iff {o o' : Operand} (h : o.Paired k inOperator o') (s : String) :
    o = .text s ↔ o' = .text s := by
  cases o with
  | column _ _ => cases o' <;> simp_all [Operand.Paired]
  | text _ =>
    cases o' with
    | text _ =>
      obtain rfl : _ = _ := h
      rfl
    | column _ _ => exact h.elim
    | other => exact h.elim
  | other => cases o' <;> simp_all [Operand.Paired]

/-- Comparisons of a column with a text agree, whether or not they became tests of
    dictionaries. -/
theorem agree_comparison {table : Nat} {c c' : Column}
    (h : c.Counterpart k inOperator table c') (op : BinaryOp) (s : String) :
    Agree k inOperator (Resolve.binary op (.column table c) (.literal (.string s)))
        (Resolve.binary op (.column table c') (.literal (.string s))) ∧
      Agree k inOperator (Resolve.binary op (.literal (.string s)) (.column table c))
        (Resolve.binary op (.literal (.string s)) (.column table c')) := by
  obtain ⟨hleft, hright⟩ := isConstant_comparison table c op s
  obtain ⟨hleft', hright'⟩ := isConstant_comparison table c' op s
  have hlacks : (Resolve.equality? op).isSome ∧ c.Lacks s →
      ((Resolve.equality? op).isSome ∧ c'.Lacks s) ∨ k.leftLacks :=
    fun ⟨hop, hc⟩ => (h.lacks s hc).imp (⟨hop, ·⟩) id
  have hlacks' : (Resolve.equality? op).isSome ∧ c'.Lacks s →
      ((Resolve.equality? op).isSome ∧ c.Lacks s) ∨ k.rightLacks :=
    fun ⟨hop, hc⟩ => (h.lacks' s hc).imp (⟨hop, ·⟩) id
  constructor
  · refine ⟨fun env env' he => h.alike env env' he (.compared op s) table env env' rfl rfl, ?_, ?_,
      ?_⟩
    · rwa [hleft, hleft']
    · rwa [hleft, hleft']
    · rw [operand_binary, operand_binary]
      trivial
  · refine ⟨fun env env' he => h.alike env env' he (.comparedFrom s op) table env env' rfl rfl, ?_,
      ?_, ?_⟩
    · rwa [hright, hright']
    · rwa [hright, hright']
    · rw [operand_binary, operand_binary]
      trivial

/-- Operators on operands that agree do, whichever of them became tests of dictionaries. -/
theorem Agree.binary (op : BinaryOp) (hl : Agree k inOperator l l') (hr : Agree k inOperator r r') :
    Agree k inOperator (Resolve.binary op l r) (Resolve.binary op l' r') := by
  by_cases hleft : ∃ t c s, l.operand = .column t c ∧ r.operand = .text s
  · obtain ⟨t, c, s, hlc, hrs⟩ := hleft
    obtain ⟨c', hlc', hcounterpart⟩ := (hlc ▸ hl.operand).exists_counterpart
    rw [eq_column_of_operand hlc, eq_text_of_operand hrs, eq_column_of_operand hlc',
      eq_text_of_operand ((hr.operand.text_iff s).1 hrs)]
    exact (agree_comparison hcounterpart op s).1
  by_cases hright : ∃ t c s, r.operand = .column t c ∧ l.operand = .text s
  · obtain ⟨t, c, s, hrc, hls⟩ := hright
    obtain ⟨c', hrc', hcounterpart⟩ := (hrc ▸ hr.operand).exists_counterpart
    rw [eq_column_of_operand hrc, eq_text_of_operand hls, eq_column_of_operand hrc',
      eq_text_of_operand ((hl.operand.text_iff s).1 hls)]
    exact (agree_comparison hcounterpart op s).2
  -- neither side has a column and a text, so both operators stand as they are
  have hplain : Resolve.binary op l r = .binary op l r :=
    binary_of_operands (fun t c s hc hs => hleft ⟨t, c, s, hc, hs⟩)
      fun t c s hc hs => hright ⟨t, c, s, hc, hs⟩
  have hplain' : Resolve.binary op l' r' = .binary op l' r' := by
    refine binary_of_operands (fun t c' s hc hs => ?_) fun t c' s hc hs => ?_
    · obtain ⟨c, hlc⟩ := (hc ▸ hl.operand).exists_column
      exact hleft ⟨t, c, s, hlc, (hr.operand.text_iff s).2 hs⟩
    · obtain ⟨c, hrc⟩ := (hc ▸ hr.operand).exists_column
      exact hright ⟨t, c, s, hrc, (hl.operand.text_iff s).2 hs⟩
  rw [hplain, hplain']
  exact hl.plainBinary op hr

end Formula

end ColumnQuery
