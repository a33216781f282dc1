/-
  Chains of infix operators.

  A chain is a text of operands with operators between them, blanks around the operators. Operands
  are names, literals and expressions in parentheses (`Operand`). A chain is parsed as the tree
  whose order is the chain and in which the operators are grouped by their strength, equal ones to
  the left, but `**` to the right; there is no other such tree (`parse_chain`).

  The tree is built from the left, one operator after the other (`Tree.ofChain`): a new operator
  goes under those on the right edge that hold it and over the others. Whatever tree is grouped is
  built in this way from its order (`Tree.Grouped.ofChain_inOrder`). The reader finds it by
  induction on the tree (`Tree.Grouped.readInfix`): what it leaves after an operand is what the
  operators above take up, as none of those below may have it on its right.
-/
import ColumnQuery.Proofs.Syntax.Framed

namespace ColumnQuery

namespace Node

open Token (Scans Lexes)

/-! ## Operators -/

namespace InfixOp

/-- Whether the first operator may have the second one at the root of its left part. -/
def HoldsLeft (op q : InfixOp) : Prop :=
  op.strength < q.strength ∨ op.strength = q.strength ∧ op.groupsRight = false

/-- Whether the first operator may have the second one at the root of its right part. -/
def HoldsRight (op q : InfixOp) : Prop :=
  op.strength < q.strength ∨ op.strength = q.strength ∧ op.groupsRight = true

instance (op q : InfixOp) : Decidable (op.HoldsRight q) :=
  inferInstanceAs (Decidable (_ ∨ _))

variable {op q s : InfixOp}

/-- Operators of the same strength group to the same side. -/
theorem groupsRight_eq (op : InfixOp) : op.groupsRight = decide (op.strength = 12) := by
  rcases op with op | op <;> cases op <;> rfl

/-- Of two operators that follow each other, one holds the other. -/
theorem holdsLeft_of_not (h : ¬ q.HoldsRight op) : op.HoldsLeft q := by
  simp only [HoldsRight, HoldsLeft, groupsRight_eq, decide_eq_true_eq, decide_eq_false_iff_not]
    at h ⊢
  omega

theorem HoldsLeft.not (h : op.HoldsLeft q) : ¬ q.HoldsRight op := by
  simp only [HoldsRight, HoldsLeft, groupsRight_eq, decide_eq_true_eq, decide_eq_false_iff_not]
    at h ⊢
  omega

theorem HoldsLeft.le (h : op.HoldsLeft q) : op.strength ≤ q.strength :=
  h.elim Nat.le_of_lt fun h => Nat.le_of_eq h.1

theorem HoldsRight.trans (h : op.HoldsRight q) (h' : q.HoldsRight s) : op.HoldsRight s := by
  simp only [HoldsRight, groupsRight_eq, decide_eq_true_eq] at h h' ⊢
  omega

/-- What may stand right of an operator may have on its left what may stand there, too. -/
theorem HoldsRight.trans_left (h : op.HoldsRight q) (h' : q.HoldsLeft s) : op.HoldsRight s := by
  simp only [HoldsRight, HoldsLeft, groupsRight_eq, decide_eq_true_eq, decide_eq_false_iff_not]
    at h h' ⊢
  omega

/-- What comes after the right part of an operator goes over that part if it goes over the
    operator. -/
theorem HoldsLeft.trans_right (h : op.HoldsLeft q) (h' : q.HoldsRight s) : op.HoldsLeft s := by
  simp only [HoldsRight, HoldsLeft, groupsRight_eq, decide_eq_true_eq, decide_eq_false_iff_not]
    at h h' ⊢
  omega

/-- The least strength that is read on the right of an operator. -/
def next (op : InfixOp) : Nat := if op.groupsRight then op.strength else op.strength + 1

theorem next_le_iff : op.next ≤ q.strength ↔ op.HoldsRight q := by
  unfold next HoldsRight
  cases op.groupsRight with
  | true =>
    simp only [if_true, and_true]
    omega
  | false =>
    simp only [Bool.false_eq_true, if_false, and_false, or_false]
    omega

theorem HoldsLeft.lt_next (h : q.HoldsLeft op) : q.strength < op.next :=
  Nat.lt_of_not_le fun hle => h.not (next_le_iff.1 hle)

end InfixOp

/-! ## Operands -/

/-- Words that are not read as names where an operand is read. -/
def operandWords : List String :=
  ["true", "false", "null", "function", "typeof", "await", "yield"]

/-- The tokens of an operand, with the tree that they stand for: a literal, a name or an expression
    in parentheses. A semicolon may end a whole text but no expression inside of one. -/
inductive IsOperand : List Token → Node → Prop where
  | null : IsOperand [.identifier "null"] (literal .null)
  | boolean (b : Bool) : IsOperand [literalToken (.boolean b)] (literal (.boolean b))
  | number (x : Float) : IsOperand [.number x] (literal (.number x))
  | string (s : String) : IsOperand [.string s] (literal (.string s))
  | name {w : String} (hw : w ∉ operandWords) : IsOperand [.identifier w] (identifier w)
  | group {body : List Token} {a : Node} (h : ofTokens body = .ok a)
    (hlast : body.getLast? ≠ some (.symbol ";")) :
    IsOperand (.symbol "(" :: (body ++ [.symbol ")"])) a

/-- A text that an operand fills. -/
structure Operand where
  text : String
  tokens : List Token
  node : Node
  lexes : Lexes text.toList tokens
  isOperand : IsOperand tokens node

/-- A name by itself. -/
def Operand.ofName (w : String) (hname : Token.isName w = true) (hw : w ∉ operandWords) : Operand :=
  ⟨w, [.identifier w], identifier w, .name hname, .name hw⟩

/-- Operands with operators between them. -/
structure Chain where
  first : Operand
  rest : List (InfixOp × Operand)

namespace Chain

/-- The text of a chain, with blanks around its operators. -/
def text (c : Chain) : String :=
  c.first.text ++ String.join (c.rest.map fun p => " " ++ p.1.symbol ++ " " ++ p.2.text)

def tokens (c : Chain) : List Token :=
  c.first.tokens ++ c.rest.flatMap fun p => p.1.token :: p.2.tokens

theorem scan_text (c : Chain) : Token.scan c.text.toList = .ok c.tokens := by
  have hrest : ∀ {cs ts}, Scans (· == ' ') cs ts → ∀ rest : List (InfixOp × Operand),
      Scans (· == ' ')
        (cs ++ (String.join (rest.map fun p => " " ++ p.1.symbol ++ " " ++ p.2.text)).toList)
        (ts ++ rest.flatMap fun p => p.1.token :: p.2.tokens) := by
    intro cs ts h rest
    induction rest generalizing cs ts with
    | nil => simpa using h
    | cons p rest ih =>
      have hop := (Spelled.scans_operator p.1).append_cons
        (Scans.blank.append_any p.2.lexes.scans) rfl
      have hlater := ih (h.append_cons (Scans.blank.append_any hop) rfl)
      simpa [String.toList_join, List.append_assoc] using hlater
  rw [text, String.toList_append]
  exact (hrest c.first.lexes.scans c.rest).scan_eq

end Chain

/-! ## Trees -/

/-- Operands joined by infix operators. -/
inductive Tree where
  | leaf (o : Operand)
  | fork (op : InfixOp) (left right : Tree)

namespace Tree

def node : Tree → Node
  | leaf o => o.node
  | fork op l r => op.node l.node r.node

/-- The operands and operators from left to right. -/
def inOrder : Tree → Chain
  | leaf o => ⟨o, []⟩
  | fork op l r => ⟨l.inOrder.first, l.inOrder.rest ++ (op, r.inOrder.first) :: r.inOrder.rest⟩

/-- The operator at the root, unless the tree is a single operand. -/
def root? : Tree → Option InfixOp
  | leaf _ => none
  | fork op _ _ => some op

/-- Every operator may have what it has on either side. -/
inductive Grouped : Tree → Prop where
  | leaf (o : Operand) : Grouped (leaf o)
  | fork {op : InfixOp} {l r : Tree} (hl : Grouped l) (hr : Grouped r)
    (hleft : ∀ q ∈ l.root?, op.HoldsLeft q) (hright : ∀ q ∈ r.root?, op.HoldsRight q) :
    Grouped (fork op l r)

/-! ### The tree of a chain -/

/-- One more operator, with the operand after it. -/
def attach (op : InfixOp) (o : Operand) : Tree → Tree
  | leaf a => fork op (leaf a) (leaf o)
  | fork q l r =>
    if q.HoldsRight op then fork q l (attach op o r) else fork op (fork q l r) (leaf o)

def attachAll (t : Tree) (rest : List (InfixOp × Operand)) : Tree :=
  rest.foldl (fun t p => attach p.1 p.2 t) t

/-- The tree that is built from the left. -/
def ofChain (c : Chain) : Tree := attachAll (leaf c.first) c.rest

variable {t u l r : Tree} {op q : InfixOp} {o : Operand} {rest : List (InfixOp × Operand)}

theorem root?_attach (op : InfixOp) (o : Operand) (t : Tree) :
    (attach op o t).root? = some op ∨ (attach op o t).root? = t.root? := by
  cases t with
  | leaf a => exact .inl rfl
  | fork q l r =>
    rw [attach]
    split
    next => exact .inr rfl
    next => exact .inl rfl

theorem inOrder_attach (op : InfixOp) (o : Operand) (t : Tree) :
    (attach op o t).inOrder = ⟨t.inOrder.first, t.inOrder.rest ++ [(op, o)]⟩ := by
  induction t with
  | leaf a => rfl
  | fork q l r _ ih =>
    rw [attach]
    split
    next =>
      rw [inOrder, ih, inOrder]
      simp
    next => rfl

theorem Grouped.attach (h : t.Grouped) (op : InfixOp) (o : Operand) :
    (attach op o t).Grouped := by
  induction h with
  | leaf a => exact .fork (.leaf a) (.leaf o) nofun nofun
  | @fork q l r hl hr hleft hright _ ih =>
    rw [Tree.attach]
    split
    next hop =>
      refine .fork hl ih hleft fun s hs => ?_
      rcases root?_attach op o r with hroot | hroot
      · obtain rfl := Option.some.inj (hroot.symm.trans hs)
        exact hop
      · exact hright s (hroot ▸ hs)
    next hop =>
      refine .fork (.fork hl hr hleft hright) (.leaf o) ?_ nofun
      rintro s ⟨⟩
      exact InfixOp.holdsLeft_of_not hop

theorem inOrder_attachAll (t : Tree) (rest : List (InfixOp × Operand)) :
    (attachAll t rest).inOrder = ⟨t.inOrder.first, t.inOrder.rest ++ rest⟩ := by
  induction rest generalizing t with
  | nil => simp [attachAll]
  | cons p rest ih =>
    show (attachAll (attach p.1 p.2 t) rest).inOrder = _
    rw [ih, inOrder_attach]
    simp

theorem inOrder_ofChain (c : Chain) : (ofChain c).inOrder = c := inOrder_attachAll _ _

theorem Grouped.attachAll (h : t.Grouped) (rest : List (InfixOp × Operand)) :
    (attachAll t rest).Grouped := by
  induction rest generalizing t with
  | nil => exact h
  | cons p rest ih => exact ih (h.attach p.1 p.2)

theorem grouped_ofChain (c : Chain) : (ofChain c).Grouped := (Grouped.leaf c.first).attachAll c.rest

/-! ### No other tree -/

/-- What may have the root of a tree on its right may have any operator of the tree there. -/
theorem Grouped.holdsRight_of_mem (h : t.Grouped) (hroot : ∀ s ∈ t.root?, q.HoldsRight s) :
    ∀ p ∈ t.inOrder.rest, q.HoldsRight p.1 := by
  induction h with
  | leaf a => exact fun p hp => absurd hp List.not_mem_nil
  | @fork op l r _ _ hleft hright ihl ihr =>
    have hop : q.HoldsRight op := hroot op rfl
    intro p hp
    rcases List.mem_append.1 hp with hp | hp
    · exact ihl (fun s hs => hop.trans_left (hleft s hs)) p hp
    · rcases List.mem_cons.1 hp with rfl | hp
      · exact hop
      · exact ihr (fun s hs => hop.trans (hright s hs)) p hp

theorem attach_of_holdsLeft (h : ∀ s ∈ t.root?, op.HoldsLeft s) :
    attach op o t = fork op t (leaf o) := by
  cases t with
  | leaf a => rfl
  | fork q l r => exact if_neg (h q rfl).not

theorem attachAll_fork (h : ∀ p ∈ rest, q.HoldsRight p.1) (r : Tree) :
    attachAll (fork q l r) rest = fork q l (attachAll r rest) := by
  induction rest generalizing r with
  | nil => rfl
  | cons p rest ih =>
    obtain ⟨hp, hrest⟩ := List.forall_mem_cons.1 h
    show attachAll (attach p.1 p.2 (fork q l r)) rest = _
    rw [attach, if_pos hp]
    exact ih hrest _

/-- A grouped tree is the one that is built from its order. -/
theorem Grouped.ofChain_inOrder (h : t.Grouped) : ofChain t.inOrder = t := by
  induction h with
  | leaf a => rfl
  | @fork op l r _ hr hleft hright ihl ihr =>
    have hjoined : ofChain (Tree.fork op l r).inOrder
        = Tree.attachAll (Tree.attach op r.inOrder.first (ofChain l.inOrder)) r.inOrder.rest :=
      List.foldl_append
    rw [hjoined, ihl, attach_of_holdsLeft hleft, attachAll_fork (hr.holdsRight_of_mem hright)]
    exact congrArg (Tree.fork op l) ihr

theorem Grouped.unique (h : t.Grouped) (h' : u.Grouped) (horder : t.inOrder = u.inOrder) :
    t = u := by
  rw [← h.ofChain_inOrder, horder, h'.ofChain_inOrder]

/-! ### Tokens -/

def tokens : Tree → List Token
  | leaf o => o.tokens
  | fork op l r => l.tokens ++ op.token :: r.tokens

theorem tokens_inOrder (t : Tree) : t.inOrder.tokens = t.tokens := by
  induction t with
  | leaf o => simp [inOrder, Chain.tokens, tokens]
  | fork op l r ihl ihr =>
    rw [tokens, ← ihl, ← ihr]
    simp [inOrder, Chain.tokens]

end Tree

/-! ## What follows an operand -/

/-- What can follow an operand of a chain. -/
inductive Follows : List Token → Prop where
  | nil : Follows []
  | operator (op : InfixOp) (ts : List Token) : Follows (op.token :: ts)

variable {ts us : List Token} {a : Node} {k : Nat}

theorem Follows.eq_none {α : Type} {f : List Token → Option α} (h : Follows us)
    (hnil : f [] = none) (hop : ∀ (op : InfixOp) ts, f (op.token :: ts) = none) : f us = none := by
  cases h with
  | nil => exact hnil
  | operator op ts => exact hop op ts

theorem Follows.eat? {s : String} (h : Follows us) (hs : ∀ op : InfixOp, op.symbol ≠ s) :
    eat? s us = none := by
  refine h.eq_none rfl fun op ts => ?_
  unfold InfixOp.token
  split
  next => rfl
  next => exact if_neg (hs op)

theorem Follows.noStep (h : Follows us) : readStep? us = none := by
  refine h.eq_none rfl fun op ts => ?_
  rcases op with op | op <;> cases op <;> rfl

theorem Chain.tokens_first (c : Chain) : ∃ us, c.tokens = c.first.tokens ++ us ∧ Follows us := by
  refine ⟨_, rfl, ?_⟩
  cases c.rest with
  | nil => exact .nil
  | cons p rest => exact .operator p.1 _

/-! ## Reading operands -/

theorem skip_eq_nil {s : String} (h : skip s ts = []) : ts = [] ∨ ts = [.symbol s] := by
  rcases ts with _ | ⟨w | x | w | w, ts⟩
  · exact .inl rfl
  · cases h
  · cases h
  · cases h
  · by_cases hw : w = s
    · subst hw
      rw [skip, eat?_symbol] at h
      exact .inr (congrArg _ h)
    · rw [skip, eat?_of_ne hw] at h
      cases h

/-- What a text is without a semicolon at its end is an expression to the end. -/
theorem readExpression_of_ofTokens (h : ofTokens ts = .ok a)
    (hlast : ts.getLast? ≠ some (.symbol ";")) :
    readExpression (10 * (ts.length + 2)) ts = .ok (a, []) := by
  unfold ofTokens at h
  obtain ⟨⟨b, rest⟩, hread, h⟩ := bind_eq_ok h
  dsimp only at h
  split at h
  next hskip =>
    obtain rfl := Except.ok.inj h
    rcases skip_eq_nil (List.isEmpty_iff.1 hskip) with rfl | rfl
    · exact hread
    · obtain ⟨before, rfl⟩ := (leaves_of_readExpression hread).suffix
      exact absurd List.getLast?_concat hlast
  next => cases h

namespace IsOperand

theorem heads (h : IsOperand ts a) : ∃ t vs, ts = t :: vs ∧ headsPrimary t = true := by
  cases h with
  | null => exact ⟨_, _, rfl, rfl⟩
  | boolean b => exact ⟨_, _, rfl, by cases b <;> rfl⟩
  | number x => exact ⟨_, _, rfl, rfl⟩
  | string s => exact ⟨_, _, rfl, rfl⟩
  | @name w hw =>
    simp only [operandWords, List.mem_cons, List.not_mem_nil, or_false, not_or] at hw
    obtain ⟨-, -, -, -, htypeof, hawait, hyield⟩ := hw
    exact ⟨_, _, rfl, by simp [headsPrimary, headsOperand, htypeof, hawait, hyield]⟩
  | group h hlast => exact ⟨_, _, rfl, rfl⟩

theorem readPrimary (h : IsOperand ts a) (us : List Token) (hk : 10 * ts.length + 1 ≤ k) :
    readPrimary k (ts ++ us) = .ok (a, us) := by
  obtain ⟨k, rfl⟩ : ∃ j, k = j + 1 := ⟨k - 1, by omega⟩
  cases h with
  | null => rfl
  | boolean b => cases b <;> rfl
  | number x => rfl
  | string s => rfl
  | @name w hw =>
    simp only [operandWords, List.mem_cons, List.not_mem_nil, or_false, not_or] at hw
    obtain ⟨htrue, hfalse, hnull, hfunction, -⟩ := hw
    rw [List.singleton_append, Node.readPrimary, if_neg hfunction, if_neg htrue, if_neg hfalse,
      if_neg hnull]
  | @group body a h hlast =>
    simp only [List.length_cons, List.length_append, List.length_nil] at hk
    have hread := readExpression_framed (readExpression_of_ofTokens h hlast) (k := k) (by omega) us
    rw [List.cons_append, List.append_assoc, List.singleton_append, Node.readPrimary, if_pos rfl,
      hread]
    rfl

theorem readLeading (h : IsOperand ts a) (hus : Follows us) (hk : 10 * ts.length + 3 ≤ k) :
    readLeading k (ts ++ us) = .ok (a, us) := by
  obtain ⟨k, rfl⟩ : ∃ j, k = j + 3 := ⟨k - 3, by omega⟩
  have hat : AtOperand (ts ++ us) := by
    obtain ⟨t, vs, rfl, ht⟩ := h.heads
    exact atOperand_of_headsPrimary ht (vs ++ us)
  have haccess : readAccess (k + 2) (ts ++ us) = .ok (a, us) := by
    rw [readAccess, h.readPrimary us (by omega), ok_bind]
    dsimp only
    rw [readAccessAfter, hus.eat? (by rintro (op | op) <;> cases op <;> decide),
      hus.eat? (by rintro (op | op) <;> cases op <;> decide),
      hus.eat? (by rintro (op | op) <;> cases op <;> decide)]
  rw [Node.readLeading, hat.unary, hat.step, hat.await, haccess]
  dsimp only
  rw [ok_bind]
  dsimp only
  rw [hus.noStep]

/-- No function starts with an operand of a chain: what stands in the parentheses is an
    expression to the closing one, and no arrow follows it. -/
theorem not_atArrow (h : IsOperand ts a) (hus : Follows us) : atArrow (ts ++ us) = false := by
  have hstarts : starts "=>" us = false := by
    rw [starts, hus.eat? (by rintro (op | op) <;> cases op <;> decide)]
    rfl
  cases h with
  | null => exact hstarts
  | boolean b => exact hstarts
  | number x => rfl
  | string s => rfl
  | name hw => exact hstarts
  | @group body a h hlast =>
    have hclosing := afterClosing?_expression (readExpression_of_ofTokens h hlast) us
    rw [List.cons_append, List.append_assoc, List.singleton_append, atArrow, hclosing]
    exact hstarts

end IsOperand

/-! ## Reading chains -/

variable {least : Nat} {t : Tree}

/-- After a tree that holds its own, the reader goes on as after one operand. -/
theorem Tree.Grouped.readInfix (h : t.Grouped) {out : Rest Node} {b : Nat} (hus : Follows us)
    (hleast : ∀ q ∈ t.root?, least ≤ q.strength)
    (hnext : ∀ op vs, InfixOp.read? us = some (op, vs) → ∀ q ∈ t.root?, op.HoldsLeft q)
    (hout : ∀ j, b ≤ j → readInfixAfter j least t.node us = .ok out)
    (hk : b + 10 * t.tokens.length + 4 ≤ k) : readInfix k least (t.tokens ++ us) = .ok out := by
  induction h generalizing least us out b k with
  | leaf o =>
    rw [Tree.tokens] at hk ⊢
    obtain ⟨k, rfl⟩ : ∃ j, k = j + 1 := ⟨k - 1, by omega⟩
    rw [Node.readInfix, o.isOperand.readLeading hus (by omega), ok_bind]
    exact hout k (by omega)
  | @fork op l r hl hr hleft hright ihl ihr =>
    rw [Tree.tokens, List.length_append, List.length_cons] at hk
    rw [Tree.tokens, List.append_assoc, List.cons_append]
    have hop : least ≤ op.strength := hleast op rfl
    -- the right part is read up to where the tree ends
    have hstop : ∀ j, 1 ≤ j → readInfixAfter j op.next r.node us = .ok (r.node, us) := by
      intro j hj
      obtain ⟨j, rfl⟩ : ∃ i, j = i + 1 := ⟨j - 1, by omega⟩
      rw [readInfixAfter]
      cases hread : InfixOp.read? us with
      | none => rfl
      | some p => exact if_pos (hnext p.1 p.2 hread op rfl).lt_next
    have hr' : ∀ j, 10 * r.tokens.length + 5 ≤ j →
        Node.readInfix j op.next (r.tokens ++ us) = .ok (r.node, us) := fun j hj =>
      ihr hus (fun q hq => InfixOp.next_le_iff.2 (hright q hq))
        (fun p vs hp q hq => (hnext p vs hp op rfl).trans_right (hright q hq)) hstop (by omega)
    -- after the left part, the operator takes it up
    have hafter : ∀ j, b + 10 * r.tokens.length + 6 ≤ j →
        readInfixAfter j least l.node (op.token :: (r.tokens ++ us)) = .ok out := by
      intro j hj
      obtain ⟨j, rfl⟩ : ∃ i, j = i + 1 := ⟨j - 1, by omega⟩
      rw [readInfixAfter, read?_token]
      dsimp only
      rw [if_neg (Nat.not_lt.2 hop)]
      show (Node.readInfix j op.next (r.tokens ++ us) >>= _) = _
      rw [hr' j (by omega), ok_bind]
      exact hout j (by omega)
    refine ihl (.operator op _) (fun q hq => hop.trans (hleft q hq).le) ?_ hafter (by omega)
    intro p vs hp q hq
    obtain ⟨rfl, -⟩ := Prod.mk.inj (Option.some.inj ((read?_token op _).symm.trans hp))
    exact hleft q hq

theorem Tree.Grouped.ofTokens_tokens (h : t.Grouped) : ofTokens t.tokens = .ok t.node := by
  obtain ⟨us, htokens, hus⟩ := t.inOrder.tokens_first
  have hoperand := t.inOrder.first.isOperand
  rw [tokens_inOrder] at htokens
  have hend : ∀ j, 1 ≤ j → readInfixAfter j 0 t.node [] = .ok (t.node, []) := by
    intro j hj
    obtain ⟨j, rfl⟩ : ∃ i, j = i + 1 := ⟨j - 1, by omega⟩
    rfl
  have hchain : Node.readInfix (10 * t.tokens.length + 18) 0 (t.tokens ++ []) = .ok (t.node, []) :=
    h.readInfix .nil (fun _ _ => Nat.zero_le _) nofun hend (by omega)
  rw [List.append_nil] at hchain
  have hyield : eatWord? "yield" t.tokens = none := by
    obtain ⟨s, vs, hs, hheads⟩ := hoperand.heads
    rw [htokens, hs]
    exact HeadsExpression.yield (.inl hheads) (vs ++ us)
  have hexpression : readExpression (10 * (t.tokens.length + 2)) t.tokens = .ok (t.node, []) := by
    show readExpression (10 * t.tokens.length + 19 + 1) _ = _
    rw [readExpression, htokens, hoperand.not_atArrow hus, ← htokens, if_neg Bool.false_ne_true,
      hyield]
    show (readConditional (10 * t.tokens.length + 18 + 1) _ >>= _) = _
    rw [readConditional, hchain]
    rfl
  rw [ofTokens, hexpression]
  rfl

/-- A chain is parsed as the tree with its operands and operators in their order whose operators
    are grouped by strength, and there is only one such tree. -/
theorem parse_chain (c : Chain) : ∃ t : Tree, parse c.text = .ok t.node ∧ t.inOrder = c ∧
    t.Grouped ∧ ∀ u : Tree, u.inOrder = c → u.Grouped → u = t := by
  have hgrouped := Tree.grouped_ofChain c
  refine ⟨Tree.ofChain c, ?_, Tree.inOrder_ofChain c, hgrouped, fun u hu h => ?_⟩
  · have htokens := Tree.tokens_inOrder (Tree.ofChain c)
    rw [Tree.inOrder_ofChain] at htokens
    rw [parse, c.scan_text, ok_bind, htokens]
    exact hgrouped.ofTokens_tokens
  · exact h.unique hgrouped (hu.trans (Tree.inOrder_ofChain c).symm)

/-- The operands and operators of `a - b ** c ** d`. -/
def differenceOfPowers : Chain where
  first := .ofName "a" (by decide) (by decide)
  rest := [(.binary .subtract, .ofName "b" (by decide) (by decide)),
    (.binary .power, .ofName "c" (by decide) (by decide)),
    (.binary .power, .ofName "d" (by decide) (by decide))]

theorem parse_chain_differenceOfPowers : parse "a - b ** c ** d"
    = .ok (binary .subtract (identifier "a")
        (binary .power (identifier "b") (binary .power (identifier "c") (identifier "d")))) := by
  obtain ⟨t, hparse, -, -, hunique⟩ := parse_chain differenceOfPowers
  obtain rfl := hunique _ (Tree.inOrder_ofChain _) (Tree.grouped_ofChain _)
  exact hparse

end Node

end ColumnQuery
