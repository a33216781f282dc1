/-
  Reading the tokens of a tree.

  The tokens of a spellable tree are read as the tree (`Spellable.ofTokens_tokens`), so that its
  text parses back to it (`Spellable.parse_textWith`). Operands stand in parentheses unless they are atoms, so
  binding strengths never matter, and no arrow function is ever taken to start, as no arrow occurs
  among the tokens.

  Two statements carry the induction. An expression is read off its tokens before whatever closes
  it (`ReadsExpression`); an operand is read off its tokens up to where its accesses go on, and
  what they then give is what the whole gives (`ReadsOperand`). Both hold for every depth from ten
  times the number of tokens on.
-/
import ColumnQuery.Proofs.Syntax.Spelled

namespace ColumnQuery

namespace Node

/-! ## Symbols -/

theorem eat?_symbol (s : String) (ts : List Token) : eat? s (.symbol s :: ts) = some ts :=
  if_pos rfl

theorem eat?_of_ne {s other : String} (h : other ≠ s) (ts : List Token) :
    eat? s (.symbol other :: ts) = none := if_neg h

theorem expect_symbol (s : String) (ts : List Token) : expect s (.symbol s :: ts) = .ok ts := by
  unfold expect
  rw [eat?_symbol]

/-! ## What follows -/

/-- No arrow among the tokens. -/
def NoArrow (ts : List Token) : Prop := Token.symbol "=>" ∉ ts

theorem NoArrow.append {ts us : List Token} (hts : NoArrow ts) (hus : NoArrow us) :
    NoArrow (ts ++ us) := fun h => (List.mem_append.1 h).elim hts hus

theorem NoArrow.symbol {s : String} {ts : List Token} (hs : s ≠ "=>") (hts : NoArrow ts) :
    NoArrow (.symbol s :: ts) := fun h =>
  (List.mem_cons.1 h).elim (fun heq => hs (Token.symbol.inj heq).symm) hts

theorem NoArrow.cons {t : Token} {ts : List Token} (ht : t ≠ .symbol "=>") (hts : NoArrow ts) :
    NoArrow (t :: ts) := fun h => (List.mem_cons.1 h).elim (fun heq => ht heq.symm) hts

/-- The symbols that close an expression. -/
def closers : List String := [")", "]", "\x7d", ",", ";", ":"]

/-- An expression ends here. -/
def Ends (rest : List Token) : Prop :=
  NoArrow rest ∧ (rest = [] ∨ ∃ s ts, rest = .symbol s :: ts ∧ s ∈ closers)

/-- Neither an access nor a step goes on from an operand. -/
structure AfterOperand (rest : List Token) : Prop where
  noArrow : NoArrow rest
  point : eat? "." rest = none
  bracket : eat? "[" rest = none
  parenthesis : eat? "(" rest = none
  step : readStep? rest = none

variable {rest ts us : List Token} {n : Node}

/-- What is none at the end and at every closing symbol is none where an expression ends. -/
theorem Ends.eq_none {α : Type} {f : List Token → Option α} (h : Ends rest) (hnil : f [] = none)
    (hclose : ∀ s ∈ closers, ∀ ts, f (.symbol s :: ts) = none) : f rest = none := by
  rcases h.2 with rfl | ⟨s, ts, rfl, hs⟩
  · exact hnil
  · exact hclose s hs ts

theorem forall_closers {p : String → Prop} (h : p ")" ∧ p "]" ∧ p "\x7d" ∧ p "," ∧ p ";" ∧ p ":") :
    ∀ s ∈ closers, p s := by
  obtain ⟨h₁, h₂, h₃, h₄, h₅, h₆⟩ := h
  simp [closers, h₁, h₂, h₃, h₄, h₅, h₆]

theorem Ends.afterOperand (h : Ends rest) : AfterOperand rest where
  noArrow := h.1
  point := h.eq_none rfl (forall_closers (by simp [eat?]))
  bracket := h.eq_none rfl (forall_closers (by simp [eat?]))
  parenthesis := h.eq_none rfl (forall_closers (by simp [eat?]))
  step := h.eq_none rfl (forall_closers (by simp [readStep?]))

theorem Ends.noOperator (h : Ends rest) : InfixOp.read? rest = none :=
  h.eq_none rfl (forall_closers ⟨fun _ => rfl, fun _ => rfl, fun _ => rfl, fun _ => rfl,
    fun _ => rfl, fun _ => rfl⟩)

theorem Ends.question (h : Ends rest) : eat? "?" rest = none :=
  h.eq_none rfl (forall_closers (by simp [eat?]))

theorem Ends.assignment (h : Ends rest) : readAssignmentOp? rest = none :=
  h.eq_none rfl (forall_closers (by simp [readAssignmentOp?, assignmentOps]))

theorem Ends.close {s : String} (hs : s ∈ closers) (h : NoArrow rest) :
    Ends (.symbol s :: rest) := by
  refine ⟨.symbol ?_ h, .inr ⟨s, rest, rfl, hs⟩⟩
  rintro rfl
  simp [closers] at hs

/-! ## What comes first -/

theorem suffix_of_afterClosing? {depth : Nat} (h : afterClosing? depth ts = some rest) :
    rest <:+ ts := by
  induction ts generalizing depth with
  | nil => cases depth <;> cases h
  | cons t ts ih =>
    refine List.IsSuffix.trans ?_ (List.suffix_cons t ts)
    cases t with
    | symbol s =>
      unfold afterClosing? at h
      split at h
      next => exact ih h
      next =>
        split at h
        next =>
          split at h
          next => cases h
          next =>
            obtain rfl := Option.some.inj h
            exact List.suffix_rfl
          next => exact ih h
        next => exact ih h
    | identifier w => exact ih h
    | number x => exact ih h
    | string s => exact ih h

/-- Without an arrow among the tokens, no arrow function starts. -/
theorem atArrow_eq_false (h : NoArrow ts) : atArrow ts = false := by
  have hstarts : ∀ us, NoArrow us → starts "=>" us = false := by
    intro us hus
    unfold starts eat?
    split
    next s us =>
      have hs : s ≠ "=>" := by
        rintro rfl
        exact hus List.mem_cons_self
      rw [if_neg hs]
      rfl
    next => rfl
  cases ts with
  | nil => rfl
  | cons t ts =>
    have hts : NoArrow ts := fun hmem => h (List.mem_cons_of_mem t hmem)
    cases t with
    | identifier w => exact hstarts ts hts
    | symbol s =>
      have hclosing : (afterClosing? 1 ts).any (starts "=>") = false := by
        cases heq : afterClosing? 1 ts with
        | none => rfl
        | some rest =>
          exact hstarts rest fun hmem => hts ((suffix_of_afterClosing? heq).subset hmem)
      show (_ && _) = false
      rw [hclosing, Bool.and_false]
    | number x => rfl
    | string s => rfl

/-- How an operand opens: a name that is no operator, a number, a string or a bracket. -/
def headsOperand : Token → Bool
  | .identifier w => w ≠ "typeof" && w ≠ "await" && w ≠ "yield"
  | .number _ | .string _ => true
  | .symbol s => s = "(" || s = "["

/-- How a primary opens: as an operand or with the brace of an object. -/
def headsPrimary (t : Token) : Bool :=
  match t with
  | .symbol s => s = "(" || s = "[" || s = "\x7b"
  | t => headsOperand t

/-- How an expression opens: as a primary or with a leading operator. -/
def HeadsExpression (t : Token) : Prop := headsPrimary t = true ∨ ∃ op, t = unaryToken op

theorem headsPrimary_of_headsOperand {t : Token} (h : headsOperand t = true) :
    headsPrimary t = true := by
  cases t with
  | symbol s =>
    unfold headsPrimary
    exact Bool.or_eq_true_iff.2 (.inl h)
  | _ => exact h

theorem ne_brace_of_headsOperand {t : Token} (h : headsOperand t = true) :
    t ≠ .symbol "\x7b" := by
  rintro rfl
  cases h

/-- An operand starts here. -/
structure AtOperand (ts : List Token) : Prop where
  unary : readUnary? ts = none
  step : readStep? ts = none
  await : eatWord? "await" ts = none

theorem atOperand_of_headsPrimary {t : Token} (h : headsPrimary t = true) (ts : List Token) :
    AtOperand (t :: ts) := by
  cases t with
  | identifier w =>
    unfold headsPrimary headsOperand at h
    simp only [Bool.and_eq_true, decide_eq_true_eq] at h
    obtain ⟨⟨htypeof, hawait⟩, -⟩ := h
    exact ⟨if_neg htypeof, rfl, if_neg hawait⟩
  | number x => exact ⟨rfl, rfl, rfl⟩
  | string s => exact ⟨rfl, rfl, rfl⟩
  | symbol s =>
    have hs : (s = "(" ∨ s = "[") ∨ s = "\x7b" := by simpa [headsPrimary] using h
    rcases hs with (rfl | rfl) | rfl <;> exact ⟨rfl, rfl, rfl⟩

theorem HeadsExpression.yield {t : Token} (h : HeadsExpression t) (ts : List Token) :
    eatWord? "yield" (t :: ts) = none := by
  rcases h with h | ⟨op, rfl⟩
  · cases t with
    | identifier w =>
      unfold headsPrimary headsOperand at h
      simp only [Bool.and_eq_true, decide_eq_true_eq] at h
      exact if_neg h.2
    | number x => rfl
    | string s => rfl
    | symbol s => rfl
  · cases op <;> rfl

theorem HeadsExpression.closer {t : Token} (h : HeadsExpression t) {s : String} (hs : s ∈ closers)
    (ts : List Token) : eat? s (t :: ts) = none := by
  have hsymbol : ∀ {w}, t = .symbol w → w ∈ ["(", "[", "\x7b", "-", "+", "!", "~"] := by
    rintro w rfl
    rcases h with h | ⟨op, hop⟩
    · have hw : (w = "(" ∨ w = "[") ∨ w = "\x7b" := by simpa [headsPrimary] using h
      rcases hw with (rfl | rfl) | rfl <;> decide
    · cases op <;> first | cases hop; decide | cases hop
  cases t with
  | identifier w => rfl
  | number x => rfl
  | string v => rfl
  | symbol w =>
    refine if_neg ?_
    rintro rfl
    have hdisjoint : ∀ v ∈ closers, v ∉ ["(", "[", "\x7b", "-", "+", "!", "~"] := by decide
    exact hdisjoint w hs (hsymbol rfl)

/-! ## What the readers answer -/

/-- How a part of the grammar is read before tokens with a property; some depth may be missing
    to ten times the number of tokens. -/
def ReadsBefore (read : Nat → List Token → Except SyntaxError (Rest Node))
    (p : List Token → Prop) (missing : Nat) (n : Node) (ts : List Token) : Prop :=
  ∀ rest k, p rest → 10 * ts.length ≤ k + missing → read k (ts ++ rest) = .ok (n, rest)

/-- The tokens are read as the tree before whatever ends an expression. -/
def ReadsExpression : Node → List Token → Prop := ReadsBefore readExpression Ends 0

/-- Neither an infix operator goes on from an operand. -/
def AfterOperands (rest : List Token) : Prop := AfterOperand rest ∧ InfixOp.read? rest = none

/-- The tokens are read as the tree up to where its accesses go on. -/
def ReadsOperand (n : Node) (ts : List Token) : Prop :=
  ∀ rest least out, NoArrow rest → (∀ j, least ≤ j → readAccessAfter j n rest = .ok out) →
    ∀ k, least + 10 * ts.length ≤ k + 6 → readAccess k (ts ++ rest) = .ok out

variable {t : Token}

theorem ReadsOperand.leading (h : ReadsOperand n (t :: ts)) (ht : headsPrimary t = true) :
    ReadsBefore readLeading AfterOperand 4 n (t :: ts) := by
  intro rest k hrest hk
  have hat := atOperand_of_headsPrimary ht (ts ++ rest)
  obtain ⟨k, rfl⟩ : ∃ j, k = j + 1 := ⟨k - 1, by simp only [List.length_cons] at hk; omega⟩
  have hafter : ∀ j, 1 ≤ j → readAccessAfter j n rest = .ok (n, rest) := by
    intro j hj
    obtain ⟨j, rfl⟩ : ∃ i, j = i + 1 := ⟨j - 1, by omega⟩
    rw [readAccessAfter, hrest.point, hrest.bracket, hrest.parenthesis]
  have hread := h rest 1 (n, rest) hrest.noArrow hafter k (by omega)
  rw [List.cons_append] at hread ⊢
  rw [readLeading, hat.unary, hat.step, hat.await, hread]
  dsimp only
  rw [ok_bind]
  dsimp only
  rw [hrest.step]

theorem ReadsBefore.unary {a : Node} (op : UnaryOp)
    (h : ReadsBefore readLeading AfterOperand 4 a ts) :
    ReadsBefore readLeading AfterOperand 4 (unary op a) (unaryToken op :: ts) := by
  intro rest k hrest hk
  rw [List.length_cons] at hk
  obtain ⟨k, rfl⟩ : ∃ j, k = j + 1 := ⟨k - 1, by omega⟩
  have hop : readUnary? (unaryToken op :: (ts ++ rest)) = some (op, ts ++ rest) := by
    cases op <;> rfl
  rw [List.cons_append, readLeading, hop]
  show Except.map _ (readLeading k (ts ++ rest)) = _
  rw [h rest k hrest (by omega)]
  rfl

theorem ReadsBefore.operation (h : ReadsBefore readLeading AfterOperand 4 n ts)
    (hts : ts ≠ []) (least : Nat) :
    ReadsBefore (readInfix · least) AfterOperands 3 n ts := by
  intro rest k hrest hk
  have hlength := List.length_pos_iff.2 hts
  obtain ⟨k, rfl⟩ : ∃ j, k = j + 2 := ⟨k - 2, by omega⟩
  show Node.readInfix (k + 1 + 1) least (ts ++ rest) = _
  rw [Node.readInfix, h rest (k + 1) hrest.1 (by omega)]
  show readInfixAfter (k + 1) least n rest = _
  rw [readInfixAfter, hrest.2]

theorem AfterOperand.of_symbol {s : String} (hs : s ∉ ["=>", ".", "[", "(", "++", "--"])
    (h : NoArrow ts) : AfterOperand (.symbol s :: ts) := by
  simp only [List.mem_cons, List.not_mem_nil, or_false, not_or] at hs
  obtain ⟨harrow, hpoint, hbracket, hparenthesis, hplus, hminus⟩ := hs
  exact ⟨.symbol harrow h, if_neg hpoint, if_neg hbracket,
    if_neg hparenthesis, if_neg (not_or.2 ⟨hplus, hminus⟩)⟩

theorem AfterOperand.of_operator (op : InfixOp) (h : NoArrow ts) : AfterOperand (op.token :: ts) := by
  by_cases hin : op = .binary .isIn
  · subst hin
    exact ⟨.cons Token.noConfusion h, rfl, rfl, rfl, rfl⟩
  · have htoken : op.token = .symbol op.symbol := if_neg hin
    rw [htoken]
    refine .of_symbol ?_ h
    rcases op with op | op <;> cases op <;> decide

theorem read?_token (op : InfixOp) (ts : List Token) :
    InfixOp.read? (op.token :: ts) = some (op, ts) := by
  rcases op with op | op <;> cases op <;> rfl

theorem ReadsBefore.between {l r : Node} {ls rs : List Token} (op : InfixOp)
    (hl : ReadsBefore readLeading AfterOperand 4 l ls)
    (hr : ReadsBefore readLeading AfterOperand 4 r rs) (harrow : NoArrow rs) (hrs : rs ≠ []) :
    ReadsBefore (readInfix · 0) AfterOperands 3 (op.node l r) (ls ++ op.token :: rs) := by
  intro rest k hrest hk
  simp only [List.length_append, List.length_cons] at hk
  obtain ⟨k, rfl⟩ : ∃ j, k = j + 3 := ⟨k - 3, by omega⟩
  have hafter := AfterOperand.of_operator op (harrow.append hrest.1.noArrow)
  rw [List.append_assoc, List.cons_append]
  show readInfix (k + 2 + 1) 0 _ = _
  rw [readInfix, hl _ (k + 2) hafter (by omega)]
  show readInfixAfter (k + 1 + 1) 0 l (op.token :: (rs ++ rest)) = _
  have hright : readInfix (k + 1) (if op.groupsRight then op.strength else op.strength + 1)
      (rs ++ rest) = .ok (r, rest) := hr.operation hrs _ rest (k + 1) hrest (by omega)
  rw [readInfixAfter, read?_token]
  simp only [Nat.not_lt_zero, if_false]
  rw [hright]
  show readInfixAfter (k + 1) 0 (op.node l r) rest = _
  rw [readInfixAfter, hrest.2]

theorem ReadsBefore.conditional_test (h : ReadsBefore (readInfix · 0) AfterOperands 3 n ts)
    (hts : ts ≠ []) : ReadsBefore readConditional Ends 2 n ts := by
  intro rest k hrest hk
  have hlength := List.length_pos_iff.2 hts
  obtain ⟨k, rfl⟩ : ∃ j, k = j + 1 := ⟨k - 1, by omega⟩
  have hread : readInfix k 0 (ts ++ rest) = .ok (n, rest) :=
    h rest k ⟨hrest.afterOperand, hrest.noOperator⟩ (by omega)
  rw [readConditional, hread, ok_bind]
  dsimp only
  rw [hrest.question]

theorem ReadsBefore.conditional {t c a : Node} {ts cs as : List Token}
    (ht : ReadsBefore (readInfix · 0) AfterOperands 3 t ts) (hc : ReadsExpression c cs)
    (ha : ReadsExpression a as) (harrow : NoArrow cs) (harrow' : NoArrow as) :
    ReadsBefore readConditional Ends 2 (conditional t c a)
      (ts ++ .symbol "?" :: (cs ++ .symbol ":" :: as)) := by
  intro rest k hrest hk
  simp only [List.length_append, List.length_cons] at hk
  obtain ⟨k, rfl⟩ : ∃ j, k = j + 1 := ⟨k - 1, by omega⟩
  have hlast : NoArrow (as ++ rest) := harrow'.append hrest.1
  have hcolon : Ends (.symbol ":" :: (as ++ rest)) := .close (by decide) hlast
  have hquestion : AfterOperands (.symbol "?" :: (cs ++ .symbol ":" :: (as ++ rest))) :=
    ⟨.of_symbol (by decide) (harrow.append hcolon.1), rfl⟩
  simp only [List.append_assoc, List.cons_append]
  rw [readConditional]
  have htest : readInfix k 0 (ts ++ _) = .ok (t, _) := ht _ k hquestion (by omega)
  have hconsequent := hc _ k hcolon (by omega)
  have halternate := ha _ k hrest (by omega)
  rw [htest, ok_bind]
  dsimp only
  rw [eat?_symbol]
  dsimp only
  rw [hconsequent, ok_bind]
  dsimp only
  rw [expect_symbol, ok_bind, halternate]
  rfl

theorem ReadsBefore.expression (h : ReadsBefore readConditional Ends 2 n (t :: ts))
    (ht : HeadsExpression t) (harrow : NoArrow (t :: ts)) : ReadsExpression n (t :: ts) := by
  intro rest k hrest hk
  obtain ⟨k, rfl⟩ : ∃ j, k = j + 1 := ⟨k - 1, by simp only [List.length_cons] at hk; omega⟩
  have hread := h rest k hrest (by omega)
  have hatArrow := atArrow_eq_false (harrow.append hrest.1)
  rw [List.cons_append] at hread hatArrow ⊢
  rw [readExpression, hatArrow, if_neg Bool.false_ne_true, ht.yield, hread, ok_bind]
  dsimp only
  rw [hrest.assignment]

theorem ReadsOperand.expression (h : ReadsOperand n (t :: ts)) (ht : headsPrimary t = true)
    (harrow : NoArrow (t :: ts)) : ReadsExpression n (t :: ts) :=
  (((h.leading ht).operation (List.cons_ne_nil t ts) 0).conditional_test
    (List.cons_ne_nil t ts)).expression (.inl ht) harrow

/-! ## Primaries and accesses -/

/-- A primary is read as an operand. -/
theorem ReadsOperand.of_primary
    (h : ∀ rest k, NoArrow rest → 10 * ts.length ≤ k + 8 → readPrimary k (ts ++ rest) = .ok (n, rest))
    (hts : ts ≠ []) : ReadsOperand n ts := by
  intro rest least out hrest hout k hk
  have hlength := List.length_pos_iff.2 hts
  obtain ⟨k, rfl⟩ : ∃ j, k = j + 1 := ⟨k - 1, by omega⟩
  rw [readAccess, h rest k hrest (by omega)]
  exact hout k (by omega)

theorem ReadsOperand.enclosed (h : ReadsExpression n ts) :
    ReadsOperand n (.symbol "(" :: (ts ++ [.symbol ")"])) := by
  refine .of_primary ?_ (List.cons_ne_nil _ _)
  intro rest k hrest hk
  simp only [List.length_cons, List.length_append, List.length_nil] at hk
  obtain ⟨k, rfl⟩ : ∃ j, k = j + 1 := ⟨k - 1, by omega⟩
  have hread := h (.symbol ")" :: rest) k (.close (by decide) hrest) (by omega)
  rw [List.cons_append, List.append_assoc, List.singleton_append, readPrimary, if_pos rfl, hread]
  rfl

theorem ReadsOperand.dotted {o : Node} (ho : ReadsOperand o ts) (name : String) :
    ReadsOperand (member o (.identifier name) false) (ts ++ [.symbol ".", .identifier name]) := by
  intro rest least out hrest hout k hk
  simp only [List.length_append, List.length_cons, List.length_nil] at hk
  rw [List.append_assoc]
  refine ho _ (least + 1) out (.symbol (by decide) (.cons Token.noConfusion hrest)) ?_ k (by omega)
  intro j hj
  obtain ⟨j, rfl⟩ : ∃ i, j = i + 1 := ⟨j - 1, by omega⟩
  rw [readAccessAfter]
  exact hout j (by omega)

theorem ReadsOperand.computed {o p : Node} {ps : List Token} (ho : ReadsOperand o ts)
    (hp : ReadsExpression p ps) (harrow : NoArrow ps) :
    ReadsOperand (member o p true) (ts ++ .symbol "[" :: (ps ++ [.symbol "]"])) := by
  intro rest least out hrest hout k hk
  simp only [List.length_append, List.length_cons, List.length_nil] at hk
  have hclose : Ends (.symbol "]" :: rest) := .close (by decide) hrest
  rw [List.append_assoc, List.cons_append, List.append_assoc, List.singleton_append]
  refine ho _ (least + 10 * ps.length + 1) out (.symbol (by decide) (harrow.append hclose.1)) ?_ k
    (by omega)
  intro j hj
  obtain ⟨j, rfl⟩ : ∃ i, j = i + 1 := ⟨j - 1, by omega⟩
  have hread := hp _ j hclose (by omega)
  rw [readAccessAfter, eat?_of_ne (by decide), eat?_symbol]
  dsimp only
  rw [hread, ok_bind]
  dsimp only
  rw [expect_symbol]
  exact hout j (by omega)

/-! ## Lists -/

/-- What carries the induction on a tree. -/
structure Reads (n : Node) : Prop where
  noArrow : NoArrow n.tokens
  heads : ∃ t us, n.tokens = t :: us ∧ HeadsExpression t
  operandHeads : ∃ t us, n.enclosedTokens n.tokens = t :: us ∧ headsOperand t = true
  expression : ReadsExpression n n.tokens
  operand : ReadsOperand n (n.enclosedTokens n.tokens)

theorem NoArrow.separated {lists : List (List Token)} (h : ∀ l ∈ lists, NoArrow l) :
    NoArrow (separatedTokens lists) := by
  unfold separatedTokens
  induction lists with
  | nil => exact List.not_mem_nil
  | cons l lists ih =>
    obtain ⟨hl, hlists⟩ := List.forall_mem_cons.1 h
    cases lists with
    | nil => rwa [List.intercalate_singleton]
    | cons m lists =>
      rw [List.intercalate_cons_cons]
      exact (hl.append (.symbol (by decide) List.not_mem_nil)).append (ih hlists)

theorem Reads.elements_noArrow {ns : List Node} (h : ∀ n ∈ ns, Reads n) :
    ∀ l ∈ ns.map tokens, NoArrow l := by
  intro l hl
  obtain ⟨n, hn, rfl⟩ := List.mem_map.1 hl
  exact (h n hn).noArrow

theorem Reads.properties_noArrow {ps : List (String × Node)} (h : ∀ p ∈ ps, Reads p.2) :
    ∀ l ∈ propertyTokens ps, NoArrow l := by
  rw [propertyTokens_eq]
  intro l hl
  obtain ⟨p, hp, rfl⟩ := List.mem_map.1 hl
  refine .cons ?_ (.symbol (by decide) (h p hp).noArrow)
  unfold keyToken
  split <;> exact Token.noConfusion

/-- What closes a list. -/
structure ClosesList (close : String) : Prop where
  closer : close ∈ closers
  comma : close ≠ ","

/-- The first of some lists between commas stands before what ends an expression; past the
    separator the others follow. -/
theorem separatedTokens_cons {l : List Token} {lists : List (List Token)} {close : String}
    (hclose : ClosesList close) (hlists : ∀ m ∈ lists, NoArrow m) (hrest : NoArrow rest) :
    ∃ after, separatedTokens (l :: lists) ++ .symbol close :: rest = l ++ after ∧ Ends after
      ∧ separator close after = .ok (separatedTokens lists ++ .symbol close :: rest)
      ∧ l.length + (separatedTokens lists).length ≤ (separatedTokens (l :: lists)).length := by
  have hends : Ends (.symbol close :: rest) := .close hclose.closer hrest
  unfold separator starts expect
  cases lists with
  | nil =>
    refine ⟨.symbol close :: rest, ?_, hends, ?_, ?_⟩
    · rw [separatedTokens, List.intercalate_singleton]
    · rw [eat?_symbol]
      rfl
    · simp [separatedTokens]
  | cons m lists =>
    have htail : NoArrow (separatedTokens (m :: lists)) := .separated hlists
    refine ⟨.symbol "," :: (separatedTokens (m :: lists) ++ .symbol close :: rest), ?_,
      .close (by decide) (htail.append hends.1), ?_, ?_⟩
    · simp [separatedTokens, List.intercalate_cons_cons]
    · rw [eat?_of_ne hclose.comma.symm]
      rfl
    · simp [separatedTokens, List.intercalate_cons_cons]

theorem Reads.readList {ns : List Node} (h : ∀ n ∈ ns, Reads n) {close : String}
    (hclose : ClosesList close) {rest : List Token} (hrest : NoArrow rest) :
    ∀ k, 10 * (separatedTokens (ns.map tokens)).length + 1 ≤ k →
      readList k close (separatedTokens (ns.map tokens) ++ .symbol close :: rest)
        = .ok (ns, rest) := by
  induction ns with
  | nil =>
    intro k hk
    obtain ⟨k, rfl⟩ : ∃ j, k = j + 1 := ⟨k - 1, by omega⟩
    have hnone : separatedTokens (([] : List Node).map tokens) ++ .symbol close :: rest
        = .symbol close :: rest := rfl
    rw [hnone, Node.readList, eat?_symbol]
  | cons n ns ih =>
    intro k hk
    obtain ⟨hn, hns⟩ := List.forall_mem_cons.1 h
    obtain ⟨t, us, htokens, ht⟩ := hn.heads
    obtain ⟨after, htext, hends, hseparator, hlength⟩ :=
      separatedTokens_cons (l := n.tokens) hclose (elements_noArrow hns) hrest
    have hpositive : 1 ≤ n.tokens.length := by simp [htokens]
    rw [List.map_cons] at hk ⊢
    obtain ⟨k, rfl⟩ : ∃ j, k = j + 1 := ⟨k - 1, by omega⟩
    have hhead : eat? close (n.tokens ++ after) = none := by
      rw [htokens]
      exact ht.closer hclose.closer _
    -- the first element, what separates it from the others, and the others
    rw [htext, Node.readList, hhead]
    dsimp only
    rw [hn.expression after k hends (by omega), ok_bind]
    dsimp only
    rw [hseparator, ok_bind, ih hns k (by omega)]
    rfl

theorem ReadsOperand.call {f : Node} {as : List Node} (hf : ReadsOperand f ts)
    (has : ∀ a ∈ as, Reads a) :
    ReadsOperand (call f as)
      (ts ++ .symbol "(" :: (separatedTokens (as.map tokens) ++ [.symbol ")"])) := by
  intro rest least out hrest hout k hk
  simp only [List.length_append, List.length_cons, List.length_nil] at hk
  have harrow : NoArrow (separatedTokens (as.map tokens) ++ .symbol ")" :: rest) :=
    (NoArrow.separated (Reads.elements_noArrow has)).append (.symbol (by decide) hrest)
  rw [List.append_assoc, List.cons_append, List.append_assoc, List.singleton_append]
  refine hf _ (least + 10 * (separatedTokens (as.map tokens)).length + 2) out
    (.symbol (by decide) harrow) ?_ k (by omega)
  intro j hj
  obtain ⟨j, rfl⟩ : ∃ i, j = i + 1 := ⟨j - 1, by omega⟩
  have hclose : ClosesList ")" := ⟨by decide, by decide⟩
  have hread := Reads.readList has hclose hrest j (by omega)
  rw [readAccessAfter, eat?_of_ne (by decide), eat?_of_ne (by decide), eat?_symbol]
  dsimp only
  rw [hread]
  exact hout j (by omega)

theorem readKey_keyToken (key : String) (ts : List Token) :
    readKey (keyToken key :: ts) = .ok ((key, Token.isName key), ts) := by
  unfold keyToken
  split
  next h => rw [h]; rfl
  next h => rw [Bool.not_eq_true] at h; rw [h]; rfl

theorem Reads.readProperties {ps : List (String × Node)} (h : ∀ p ∈ ps, Reads p.2)
    {rest : List Token} (hrest : NoArrow rest) :
    ∀ k, 10 * (separatedTokens (propertyTokens ps)).length + 1 ≤ k →
      readProperties k (separatedTokens (propertyTokens ps) ++ .symbol "\x7d" :: rest)
        = .ok (ps, rest) := by
  induction ps with
  | nil =>
    intro k hk
    obtain ⟨k, rfl⟩ : ∃ j, k = j + 1 := ⟨k - 1, by omega⟩
    rw [Node.readProperties]
    rfl
  | cons p ps ih =>
    intro k hk
    obtain ⟨key, n⟩ := p
    have hn : Reads n := h _ List.mem_cons_self
    have hps : ∀ p ∈ ps, Reads p.2 := fun p hp => h p (List.mem_cons_of_mem _ hp)
    have hclose : ClosesList "\x7d" := ⟨by decide, by decide⟩
    obtain ⟨after, htext, hends, hseparator, hlength⟩ :=
      separatedTokens_cons (l := keyToken key :: .symbol ":" :: n.tokens)
        hclose (properties_noArrow hps) hrest
    simp only [List.length_cons] at hlength
    rw [propertyTokens] at hk ⊢
    obtain ⟨k, rfl⟩ : ∃ j, k = j + 1 := ⟨k - 1, by omega⟩
    have hhead : eat? "\x7d" (keyToken key :: .symbol ":" :: (n.tokens ++ after)) = none := by
      unfold keyToken
      split <;> rfl
    -- the key, its value, what separates the property from the others, and the others
    rw [htext, List.cons_append, List.cons_append, Node.readProperties, hhead, readKey_keyToken]
    dsimp only
    rw [ok_bind]
    dsimp only
    rw [eat?_symbol]
    dsimp only
    rw [hn.expression after k hends (by omega), ok_bind]
    dsimp only
    rw [hseparator, ok_bind, ih hps k (by omega)]
    rfl

/-! ## Trees -/

namespace Reads

theorem of_atom (hatom : n.isAtom = true) (harrow : NoArrow n.tokens)
    (hheads : ∃ t us, n.tokens = t :: us ∧ headsOperand t = true)
    (hoperand : ReadsOperand n n.tokens) : Reads n := by
  have htokens : n.enclosedTokens n.tokens = n.tokens := if_pos hatom
  obtain ⟨t, us, heq, ht⟩ := hheads
  refine ⟨harrow, ⟨t, us, heq, .inl (headsPrimary_of_headsOperand ht)⟩,
    ⟨t, us, htokens.trans heq, ht⟩, ?_, ?_⟩
  · rw [heq] at hoperand harrow ⊢
    exact hoperand.expression (headsPrimary_of_headsOperand ht) harrow
  · rwa [htokens]

theorem of_compound (hatom : n.isAtom = false) (harrow : NoArrow n.tokens)
    (hheads : ∃ t us, n.tokens = t :: us ∧ HeadsExpression t)
    (h : ReadsBefore readConditional Ends 2 n n.tokens) : Reads n := by
  have htokens : n.enclosedTokens n.tokens = .symbol "(" :: (n.tokens ++ [.symbol ")"]) := by
    unfold enclosedTokens
    rw [hatom, if_neg Bool.false_ne_true]
  have hexpression : ReadsExpression n n.tokens := by
    obtain ⟨t, us, heq, ht⟩ := hheads
    rw [heq] at h harrow ⊢
    exact h.expression ht harrow
  refine ⟨harrow, hheads, ⟨_, _, htokens, rfl⟩, hexpression, ?_⟩
  rw [htokens]
  exact .enclosed hexpression

theorem operand_noArrow (h : Reads n) : NoArrow (n.enclosedTokens n.tokens) := by
  unfold enclosedTokens
  split
  · exact h.noArrow
  · exact .symbol (by decide) (h.noArrow.append (.symbol (by decide) List.not_mem_nil))

theorem operand_ne_nil (h : Reads n) : n.enclosedTokens n.tokens ≠ [] := by
  obtain ⟨t, us, heq, -⟩ := h.operandHeads
  rw [heq]
  exact List.cons_ne_nil t us

theorem leading (h : Reads n) :
    ReadsBefore readLeading AfterOperand 4 n (n.enclosedTokens n.tokens) := by
  obtain ⟨t, us, heq, ht⟩ := h.operandHeads
  have hoperand := h.operand
  rw [heq] at hoperand ⊢
  exact hoperand.leading (headsPrimary_of_headsOperand ht)

theorem operand_expression (h : Reads n) : ReadsExpression n (n.enclosedTokens n.tokens) := by
  obtain ⟨t, us, heq, ht⟩ := h.operandHeads
  have hoperand := h.operand
  have harrow := h.operand_noArrow
  rw [heq] at hoperand harrow ⊢
  exact hoperand.expression (headsPrimary_of_headsOperand ht) harrow

/-! ### One rule for each construct -/

/-- A primary of one token. -/
theorem of_token (hatom : n.isAtom = true) (htokens : n.tokens = [t])
    (ht : headsOperand t = true)
    (h : ∀ k rest, readPrimary (k + 1) (t :: rest) = .ok (n, rest)) : Reads n := by
  have harrow : t ≠ .symbol "=>" := by
    rintro rfl
    cases ht
  refine of_atom hatom ?_ ⟨t, [], htokens, ht⟩ ?_
  · rw [htokens]
    exact .cons harrow List.not_mem_nil
  · rw [htokens]
    refine .of_primary ?_ (List.cons_ne_nil t [])
    intro rest k _ hk
    obtain ⟨k, rfl⟩ : ∃ j, k = j + 1 := ⟨k - 1, by simp only [List.length_singleton] at hk; omega⟩
    exact h k rest

theorem literal {v : Literal} (hatom : (literal v).isAtom = true) : Reads (literal v) := by
  refine of_token hatom rfl ?_ ?_
  · cases v with
    | boolean b => cases b <;> rfl
    | _ => rfl
  · intro k rest
    cases v with
    | boolean b => cases b <;> rfl
    | _ => rfl

theorem identifier {name : String} (hword : name ∉ reservedWords) :
    Reads (identifier name) := by
  simp only [reservedWords, List.mem_cons, List.not_mem_nil, or_false, not_or] at hword
  obtain ⟨htrue, hfalse, hnull, hfunction, htypeof, hawait, hyield, -⟩ := hword
  refine of_token rfl rfl ?_ ?_
  · simp [headsOperand, htypeof, hawait, hyield]
  · intro k rest
    rw [readPrimary, if_neg hfunction, if_neg htrue, if_neg hfalse, if_neg hnull]

theorem dotted {o : Node} (ho : Reads o) (name : String) :
    Reads (member o (.identifier name) false) := by
  obtain ⟨t, us, heq, ht⟩ := ho.operandHeads
  refine of_atom rfl ?_ ⟨t, us ++ [.symbol ".", .identifier name], ?_, ht⟩ ?_
  · rw [tokens]
    exact ho.operand_noArrow.append
      (.symbol (by decide) (.cons Token.noConfusion List.not_mem_nil))
  · rw [tokens, heq]
    rfl
  · rw [tokens]
    exact ho.operand.dotted name

theorem computed {o p : Node} (ho : Reads o) (hp : Reads p) : Reads (member o p true) := by
  obtain ⟨t, us, heq, ht⟩ := ho.operandHeads
  refine of_atom rfl ?_ ⟨t, us ++ .symbol "[" :: (p.tokens ++ [.symbol "]"]), ?_, ht⟩ ?_
  · rw [tokens_computed]
    exact ho.operand_noArrow.append
      (.symbol (by decide) (hp.noArrow.append (.symbol (by decide) List.not_mem_nil)))
  · rw [tokens_computed, heq]
    rfl
  · rw [tokens_computed]
    exact ho.operand.computed hp.expression hp.noArrow

theorem call {f : Node} {as : List Node} (hf : Reads f) (has : ∀ a ∈ as, Reads a) :
    Reads (call f as) := by
  obtain ⟨t, us, heq, ht⟩ := hf.operandHeads
  refine of_atom rfl ?_ ⟨t, us ++ _, by rw [tokens_call, heq]; rfl, ht⟩ ?_
  · rw [tokens_call]
    exact hf.operand_noArrow.append
      (.symbol (by decide) ((NoArrow.separated (elements_noArrow has)).append
        (.symbol (by decide) List.not_mem_nil)))
  · rw [tokens_call]
    exact hf.operand.call has

theorem array {es : List Node} (hes : ∀ e ∈ es, Reads e) : Reads (array es) := by
  refine of_atom rfl ?_ ⟨_, _, tokens_array es, rfl⟩ ?_
  · rw [tokens_array]
    exact .symbol (by decide) ((NoArrow.separated (elements_noArrow hes)).append
      (.symbol (by decide) List.not_mem_nil))
  · rw [tokens_array]
    refine .of_primary ?_ (List.cons_ne_nil _ _)
    intro rest k hrest hk
    simp only [List.length_cons, List.length_append, List.length_nil] at hk
    obtain ⟨k, rfl⟩ : ∃ j, k = j + 1 := ⟨k - 1, by omega⟩
    have hclose : ClosesList "]" := ⟨by decide, by decide⟩
    have hread := readList hes hclose hrest k (by omega)
    rw [List.cons_append, List.append_assoc, List.singleton_append, readPrimary,
      if_neg (by decide), if_pos rfl, hread]
    rfl

theorem object {ps : List (String × Node)} (hps : ∀ p ∈ ps, Reads p.2) : Reads (object ps) := by
  have harrow : NoArrow (.symbol "\x7b" :: (separatedTokens (propertyTokens ps)
      ++ [.symbol "\x7d"])) :=
    .symbol (by decide) ((NoArrow.separated (properties_noArrow hps)).append
      (.symbol (by decide) List.not_mem_nil))
  have hbraces : ReadsOperand (Node.object ps) (.symbol "\x7b" :: (separatedTokens (propertyTokens ps)
      ++ [.symbol "\x7d"])) := by
    refine .of_primary ?_ (List.cons_ne_nil _ _)
    intro rest k hrest hk
    simp only [List.length_cons, List.length_append, List.length_nil] at hk
    obtain ⟨k, rfl⟩ : ∃ j, k = j + 1 := ⟨k - 1, by omega⟩
    have hread := readProperties hps hrest k (by omega)
    rw [List.cons_append, List.append_assoc, List.singleton_append, readPrimary,
      if_neg (by decide), if_neg (by decide), if_pos rfl, hread]
    rfl
  have htokens : (Node.object ps).tokens = .symbol "(" :: ((.symbol "\x7b" ::
      (separatedTokens (propertyTokens ps) ++ [.symbol "\x7d"])) ++ [.symbol ")"]) := by
    rw [tokens, List.cons_append, List.append_assoc]
    rfl
  have hoperand : ReadsOperand (Node.object ps) (Node.object ps).tokens := by
    rw [htokens]
    exact .enclosed (hbraces.expression rfl harrow)
  have hlast : NoArrow [.symbol ")"] := .symbol (by decide) List.not_mem_nil
  refine of_compound rfl ?_ ⟨_, _, htokens, .inl rfl⟩ ?_
  · rw [htokens]
    exact .symbol (by decide) (harrow.append hlast)
  · rw [htokens] at hoperand ⊢
    exact ((hoperand.leading rfl).operation (List.cons_ne_nil _ _) 0).conditional_test
      (List.cons_ne_nil _ _)

theorem unary (op : UnaryOp) {a : Node} (ha : Reads a) : Reads (unary op a) := by
  refine of_compound rfl ?_ ⟨unaryToken op, _, by rw [tokens], .inr ⟨op, rfl⟩⟩ ?_
  · rw [tokens]
    refine .cons ?_ ha.operand_noArrow
    cases op <;> simp [unaryToken, UnaryOp.symbol]
  · rw [tokens]
    exact ((ha.leading.unary op).operation (List.cons_ne_nil _ _) 0).conditional_test
      (List.cons_ne_nil _ _)

theorem heads_append (h : Reads n) (us : List Token) :
    ∃ t vs, n.enclosedTokens n.tokens ++ us = t :: vs ∧ HeadsExpression t := by
  obtain ⟨t, vs, heq, ht⟩ := h.operandHeads
  exact ⟨t, vs ++ us, by rw [heq]; rfl, .inl (headsPrimary_of_headsOperand ht)⟩

theorem between {l r : Node} (hl : Reads l) (hr : Reads r) (op : InfixOp)
    (hatom : (op.node l r).isAtom = false)
    (htokens : (op.node l r).tokens
      = l.enclosedTokens l.tokens ++ op.token :: r.enclosedTokens r.tokens) :
    Reads (op.node l r) := by
  refine of_compound hatom ?_ ?_ ?_
  · rw [htokens]
    exact hl.operand_noArrow.append (AfterOperand.of_operator op hr.operand_noArrow).noArrow
  · rw [htokens]
    exact hl.heads_append _
  · rw [htokens]
    exact (hl.leading.between op hr.leading hr.operand_noArrow hr.operand_ne_nil).conditional_test
      (List.append_ne_nil_of_left_ne_nil hl.operand_ne_nil _)

theorem conditional {t c a : Node} (ht : Reads t) (hc : Reads c) (ha : Reads a) :
    Reads (conditional t c a) := by
  have harrow : NoArrow (.symbol "?" :: (c.enclosedTokens c.tokens
      ++ .symbol ":" :: a.enclosedTokens a.tokens)) :=
    .symbol (by decide) (hc.operand_noArrow.append (.symbol (by decide) ha.operand_noArrow))
  refine of_compound rfl ?_ ?_ ?_
  · rw [tokens]
    exact ht.operand_noArrow.append harrow
  · rw [tokens]
    exact ht.heads_append _
  · rw [tokens]
    exact (ht.leading.operation ht.operand_ne_nil 0).conditional hc.operand_expression
      ha.operand_expression hc.operand_noArrow ha.operand_noArrow

end Reads

theorem Spellable.reads {P : Float → Prop} (hP : ∀ x, P x → Number.Legible x) (hn : Spellable P n) :
    Reads n := by
  induction hn with
  | null => exact .literal rfl
  | boolean b => exact .literal rfl
  | string s => exact .literal rfl
  | number hx =>
    refine .literal ?_
    have hnonnegative := of_decide_eq_false (hP _ hx).nonnegative
    simp [isAtom, hnonnegative]
  | identifier _ hword => exact .identifier hword
  | dotted _ _ _ ho => exact .dotted ho _
  | computed _ _ ho hp => exact .computed ho hp
  | call _ _ hf has => exact .call hf has
  | unary op _ ha => exact .unary op ha
  | binary op _ _ hl hr =>
    exact .between hl hr (.binary op) rfl (by rw [InfixOp.node, tokens])
  | logical op _ _ hl hr =>
    exact .between hl hr (.logical op) rfl (by rw [InfixOp.node, tokens])
  | conditional _ _ _ ht hc ha => exact .conditional ht hc ha
  | array _ hes => exact .array hes
  | object _ hps => exact .object hps

/-- The tokens of a spellable tree are read as the tree. -/
theorem Spellable.ofTokens_tokens {P : Float → Prop} (hP : ∀ x, P x → Number.Legible x)
    (hn : Spellable P n) : ofTokens n.tokens = .ok n := by
  have hread := (hn.reads hP).expression [] (10 * (n.tokens.length + 2))
    ⟨List.not_mem_nil, .inl rfl⟩ (by omega)
  rw [List.append_nil] at hread
  rw [ofTokens, hread]
  rfl

/-- Texts of spellable trees are parsed back to them. -/
theorem Spellable.parse_textWith {P : Float → Prop} (hP : ∀ x, P x → Number.Legible x)
    (s : Spelling) (hn : Spellable P n) : parse (n.textWith s) = .ok n := by
  rw [parse, hn.scan_text hP s]
  exact hn.ofTokens_tokens hP

/-- A natural number that doubles hold exactly, together with all below it. -/
def IsNatural (x : Float) : Prop := ∃ k < 2 ^ 53, x = Number.ofNat k

theorem IsNatural.legible {x : Float} (h : IsNatural x) : Number.Legible x := by
  obtain ⟨k, hk, rfl⟩ := h
  exact Number.legible_ofNat hk

/-- Printing an expression and parsing it back is the identity. -/
theorem parse_text (hn : Spellable IsNatural n) : parse n.text = .ok n :=
  hn.parse_textWith (fun _ => IsNatural.legible) .standard

/-- `(price["net \"of\" tax"] * 2) > f(true, [-(10)]) ? null : ({ "a b": x.in })` -/
def nestedChoice : Node :=
  conditional
    (binary .greater
      (binary .multiply
        (member (identifier "price") (literal (.string "net \"of\" tax")) true)
        (literal (.number (Number.ofNat 2))))
      (call (identifier "f")
        [literal (.boolean true), array [unary .negate (literal (.number (Number.ofNat 10)))]]))
    (literal .null)
    (object [("a b", member (identifier "x") (identifier "in") false)])

theorem parse_text_nestedChoice : parse nestedChoice.text = .ok nestedChoice := by
  refine parse_text ?_
  have hnatural : ∀ k < 2 ^ 53, Spellable IsNatural (literal (.number (Number.ofNat k))) :=
    fun k hk => .number ⟨k, hk, rfl⟩
  have hprice : Spellable IsNatural (identifier "price") := .identifier (by decide) (by decide)
  have harray : Spellable IsNatural (array [unary .negate (literal (.number (Number.ofNat 10)))]) :=
    .array (List.forall_mem_singleton.2 (.unary _ (hnatural 10 (by decide))))
  have hcall := Spellable.call (f := identifier "f") (.identifier (by decide) (by decide))
    (List.forall_mem_cons.2 ⟨.boolean true, List.forall_mem_singleton.2 harray⟩)
  have htwice := Spellable.binary .multiply (.computed hprice (.string "net \"of\" tax"))
    (hnatural 2 (by decide))
  have hmember : Spellable IsNatural (member (identifier "x") (identifier "in") false) :=
    .dotted (.identifier (by decide) (by decide)) rfl (by decide)
  exact .conditional (.binary .greater htwice hcall) .null
    (.object (List.forall_mem_singleton.2 hmember))

end Node

end ColumnQuery
