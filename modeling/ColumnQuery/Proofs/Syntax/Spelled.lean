/-
  The tokens of the text of a tree.

  `Node.tokens` lists the tokens that the text of a tree is made of; the lists mirror the texts,
  parentheses around compound operands included. They are the ones that the text is scanned as,
  for every tree of expressions that a text can spell (`Node.Spellable`): literals with legible
  numbers, names that the reader has no other use for, member accesses, calls, operators, arrays
  and objects (`Spellable.scan_text`).

  Three facts about a tree carry the induction (`Node.Spelled`): its text is scanned before
  whatever can follow an expression, its text as an operand even before an access (a number not
  before a point), and an operand opens with a character that no operator before it takes in.
-/
import ColumnQuery.Proofs.Number.Legible
import ColumnQuery.Proofs.Syntax.Lexemes

namespace ColumnQuery

namespace Node

open Token (Scans Before endsName endsNumber opensName opensOperand)

/-! ## Trees that texts spell -/

/-- Names that the reader takes for something else. -/
def reservedWords : List String :=
  ["true", "false", "null", "function", "typeof", "await", "yield", "in"]

def isNumber : Node → Bool
  | literal (.number _) => true
  | _ => false

/-- Trees of expressions whose number literals have a property. A name after a point is no
    number's, and it follows the number literal of no access. -/
inductive Spellable (P : Float → Prop) : Node → Prop where
  | null : Spellable P (literal .null)
  | boolean (b : Bool) : Spellable P (literal (.boolean b))
  | string (s : String) : Spellable P (literal (.string s))
  | number {x : Float} (hx : P x) : Spellable P (literal (.number x))
  | identifier {name : String} (hname : Token.isName name = true) (hword : name ∉ reservedWords) :
    Spellable P (identifier name)
  | dotted {o : Node} {name : String} (ho : Spellable P o) (hnumber : o.isNumber = false)
    (hname : Token.isName name = true) : Spellable P (member o (.identifier name) false)
  | computed {o p : Node} (ho : Spellable P o) (hp : Spellable P p) : Spellable P (member o p true)
  | call {f : Node} {as : List Node} (hf : Spellable P f) (has : ∀ a ∈ as, Spellable P a) :
    Spellable P (call f as)
  | unary (op : UnaryOp) {a : Node} (ha : Spellable P a) : Spellable P (unary op a)
  | binary (op : BinaryOp) {l r : Node} (hl : Spellable P l) (hr : Spellable P r) :
    Spellable P (binary op l r)
  | logical (op : LogicalOp) {l r : Node} (hl : Spellable P l) (hr : Spellable P r) :
    Spellable P (logical op l r)
  | conditional {t c a : Node} (ht : Spellable P t) (hc : Spellable P c) (ha : Spellable P a) :
    Spellable P (conditional t c a)
  | array {es : List Node} (hes : ∀ e ∈ es, Spellable P e) : Spellable P (array es)
  | object {ps : List (String × Node)} (hps : ∀ p ∈ ps, Spellable P p.2) : Spellable P (object ps)

/-! ## Tokens of trees -/

def enclosedTokens (n : Node) (ts : List Token) : List Token :=
  if n.isAtom then ts else .symbol "(" :: (ts ++ [.symbol ")"])

def separatedTokens (lists : List (List Token)) : List Token := [.symbol ","].intercalate lists

def keyToken (key : String) : Token :=
  if Token.isName key then .identifier key else .string key

def literalToken : Literal → Token
  | .null => .identifier "null"
  | .boolean b => .identifier (if b then "true" else "false")
  | .number x => .number x
  | .string s => .string s

def unaryToken (op : UnaryOp) : Token :=
  if op = .typeOf then .identifier "typeof" else .symbol op.symbol

def InfixOp.token (op : InfixOp) : Token :=
  if op = .binary .isIn then .identifier "in" else .symbol op.symbol

mutual

/-- The tokens of a tree; none for constructs that are not spellable. -/
def tokens : Node → List Token
  | literal v => [literalToken v]
  | identifier n => [.identifier n]
  | member o (identifier n) false => enclosedTokens o (tokens o) ++ [.symbol ".", .identifier n]
  | member o p _ => enclosedTokens o (tokens o) ++ .symbol "[" :: (tokens p ++ [.symbol "]"])
  | call f as =>
    enclosedTokens f (tokens f) ++ .symbol "(" :: (separatedTokens (tokenLists as) ++ [.symbol ")"])
  | unary op a => unaryToken op :: enclosedTokens a (tokens a)
  | binary op l r =>
    enclosedTokens l (tokens l) ++ (InfixOp.binary op).token :: enclosedTokens r (tokens r)
  | logical op l r =>
    enclosedTokens l (tokens l) ++ (InfixOp.logical op).token :: enclosedTokens r (tokens r)
  | conditional t c a =>
    enclosedTokens t (tokens t) ++ .symbol "?" :: (enclosedTokens c (tokens c)
      ++ .symbol ":" :: enclosedTokens a (tokens a))
  | array es => .symbol "[" :: (separatedTokens (tokenLists es) ++ [.symbol "]"])
  | object ps =>
    .symbol "(" :: .symbol "\x7b" :: (separatedTokens (propertyTokens ps)
      ++ [.symbol "\x7d", .symbol ")"])
  | _ => []

def tokenLists : List Node → List (List Token)
  | [] => []
  | n :: ns => tokens n :: tokenLists ns

def propertyTokens : List (String × Node) → List (List Token)
  | [] => []
  | (k, n) :: ps => (keyToken k :: .symbol ":" :: tokens n) :: propertyTokens ps

end

theorem tokenLists_eq (ns : List Node) : tokenLists ns = ns.map tokens := by
  induction ns with
  | nil => rfl
  | cons n ns ih => rw [tokenLists, ih, List.map_cons]

theorem propertyTokens_eq (ps : List (String × Node)) :
    propertyTokens ps = ps.map fun p => keyToken p.1 :: .symbol ":" :: p.2.tokens := by
  induction ps with
  | nil => rfl
  | cons p ps ih => rw [propertyTokens, ih, List.map_cons]

theorem textsWith_eq (s : Spelling) (ns : List Node) : textsWith s ns = ns.map (textWith s) := by
  induction ns with
  | nil => rfl
  | cons n ns ih => rw [textsWith, ih, List.map_cons]

theorem propertyTexts_eq (s : Spelling) (ps : List (String × Node)) :
    propertyTexts s ps = ps.map fun p => keyText p.1 ++ ": " ++ p.2.textWith s := by
  induction ps with
  | nil => rfl
  | cons p ps ih => rw [propertyTexts, ih, List.map_cons]

theorem tokens_computed (o p : Node) : (member o p true).tokens
    = o.enclosedTokens o.tokens ++ .symbol "[" :: (p.tokens ++ [.symbol "]"]) := by
  rw [tokens]
  exact fun _ _ h => Bool.noConfusion h

theorem tokens_call (f : Node) (as : List Node) : (call f as).tokens = f.enclosedTokens f.tokens
    ++ .symbol "(" :: (separatedTokens (as.map tokens) ++ [.symbol ")"]) := by
  rw [tokens, tokenLists_eq]

theorem tokens_array (es : List Node) : (array es).tokens
    = .symbol "[" :: (separatedTokens (es.map tokens) ++ [.symbol "]"]) := by
  rw [tokens, tokenLists_eq]

/-- A member access that is not written with a point is written with brackets. -/
theorem textWith_member {s : Spelling} {o p : Node} {computed : Bool}
    (h : computed = false → ∀ name, p ≠ .identifier name) :
    textWith s (member o p computed)
      = o.enclosed (textWith s o) ++ "[" ++ textWith s p ++ "]" := by
  rw [textWith]
  intro name hname hcomputed
  exact h hcomputed name hname

/-! ## Texts of trees -/

/-- What can follow an expression. -/
def endsExpression (c : Char) : Bool := [' ', ')', ']', ',', '[', '('].contains c

theorem endsName_of_endsExpression {c : Char} (h : endsExpression c = true) :
    endsName c = true := by
  have hall : [' ', ')', ']', ',', '[', '('].all endsName = true := by decide
  exact List.all_eq_true.1 hall c (List.contains_iff_mem.1 h)

theorem endsNumber_of_endsExpression {c : Char} (h : endsExpression c = true) :
    endsNumber c = true := by
  have hall : [' ', ')', ']', ',', '[', '('].all endsNumber = true := by decide
  exact List.all_eq_true.1 hall c (List.contains_iff_mem.1 h)

/-- What can follow an operand. -/
def follow (n : Node) : Char → Bool := if n.isNumber then endsNumber else endsName

theorem follow_of_endsExpression (n : Node) {c : Char} (h : endsExpression c = true) :
    n.follow c = true := by
  unfold follow
  split
  · exact endsNumber_of_endsExpression h
  · exact endsName_of_endsExpression h

/-- The text of a tree is scanned as its tokens, alone and as an operand. -/
structure Spelled (s : Spelling) (n : Node) : Prop where
  text : Scans endsExpression (n.textWith s).toList n.tokens
  operand : Scans n.follow (n.enclosed (n.textWith s)).toList (n.enclosedTokens n.tokens)
  opens : ∃ c cs, (n.enclosed (n.textWith s)).toList = c :: cs ∧ opensOperand c = true

namespace Spelled

variable {s : Spelling} {n : Node}

theorem of_atom (hatom : n.isAtom = true) (h : Scans n.follow (n.textWith s).toList n.tokens)
    (hopens : ∃ c cs, (n.textWith s).toList = c :: cs ∧ opensOperand c = true) : Spelled s n := by
  have htext : n.enclosed (n.textWith s) = n.textWith s := if_pos hatom
  have htokens : n.enclosedTokens n.tokens = n.tokens := if_pos hatom
  refine ⟨h.imp fun c hc => n.follow_of_endsExpression hc, ?_, ?_⟩
  · rwa [htext, htokens]
  · rwa [htext]

theorem of_compound (hatom : n.isAtom = false)
    (h : Scans endsExpression (n.textWith s).toList n.tokens) : Spelled s n := by
  have htext : (n.enclosed (n.textWith s)).toList = '(' :: ((n.textWith s).toList ++ [')']) := by
    unfold enclosed
    rw [hatom, if_neg Bool.false_ne_true, String.toList_append, String.toList_append]
    rfl
  have htokens : n.enclosedTokens n.tokens = .symbol "(" :: (n.tokens ++ [.symbol ")"]) := by
    unfold enclosedTokens
    rw [hatom, if_neg Bool.false_ne_true]
  refine ⟨h, ?_, _, _, htext, by decide⟩
  rw [htext, htokens]
  have hclosed := h.append_cons (Scans.bracket (s := ")") rfl) rfl
  exact ((Scans.bracket (s := "(") rfl).append_any hclosed).imp fun _ _ => rfl

/-! ### Parts of texts -/

theorem opensName_of_isName {name : String} (h : Token.isName name = true) :
    ∃ c cs, name.toList = c :: cs ∧ opensName c = true := by
  obtain ⟨c, cs, heq, hc, -⟩ := Token.isName_cases h
  exact ⟨c, cs, heq, hc⟩

theorem opensOperand_of_opensName {c : Char} (h : opensName c = true) : opensOperand c = true := by
  unfold opensOperand
  rw [h]
  rfl

/-- Texts between commas. -/
theorem scans_separated {α : Type} {text : α → String} {tokens : α → List Token} {xs : List α}
    (h : ∀ x ∈ xs, Scans endsExpression (text x).toList (tokens x)) :
    Scans endsExpression (commaSeparated (xs.map text)).toList (separatedTokens (xs.map tokens)) := by
  unfold commaSeparated separatedTokens
  induction xs with
  | nil => exact ⟨by simp, fun k rest out _ hout => hout⟩
  | cons x xs ih =>
    obtain ⟨hx, hxs⟩ := List.forall_mem_cons.1 h
    cases xs with
    | nil =>
      simp only [List.map_cons, List.map_nil, String.intercalate_singleton,
        List.intercalate_singleton]
      exact hx
    | cons y ys =>
      simp only [List.map_cons, String.intercalate_cons_cons, List.intercalate_cons_cons,
        String.toList_append, List.append_assoc]
      exact hx.append_cons ((Scans.bracket (s := ",") rfl).append_any
        (Scans.blank.append_any (ih hxs))) rfl

theorem scans_key (key : String) : Scans endsName (keyText key).toList [keyToken key] := by
  unfold keyText keyToken
  split
  next hname => exact Scans.name hname
  next => exact (Scans.string key).imp fun _ _ => rfl

/-- A symbolic operator or `in` between blanks. -/
theorem scans_operator (op : InfixOp) : Scans (· == ' ') op.symbol.toList [op.token] := by
  unfold InfixOp.token
  split
  next h =>
    subst h
    exact (Scans.name (w := "in") (by decide)).imp fun c hc => by
      obtain rfl := beq_iff_eq.1 hc
      rfl
  next h =>
    have hsymbolic : op ∈ InfixOp.symbolic := by
      rcases op with op | op
      · cases op <;> first | decide | exact absurd rfl h
      · cases op <;> decide
    exact Scans.infixSymbol hsymbolic

/-- Two operands with an infix operator. -/
theorem scans_between {l r : Node} (hl : Spelled s l) (hr : Spelled s r) (op : InfixOp) :
    Scans endsExpression ((l.enclosed (l.textWith s)) ++ " " ++ op.symbol ++ " "
        ++ (r.enclosed (r.textWith s))).toList
      (l.enclosedTokens l.tokens ++ op.token :: r.enclosedTokens r.tokens) := by
  simp only [String.toList_append, List.append_assoc]
  have hright := Scans.blank.append_any
    (hr.operand.imp fun c hc => r.follow_of_endsExpression hc)
  have hop := (scans_operator op).append_cons hright rfl
  exact hl.operand.append_cons (Scans.blank.append_any hop)
    (l.follow_of_endsExpression (by decide))

/-! ### One rule for each construct -/

theorem word {n : Node} {w : String} (hatom : n.isAtom = true) (hnumber : n.isNumber = false)
    (htext : n.textWith s = w) (htokens : n.tokens = [.identifier w])
    (hname : Token.isName w = true) : Spelled s n := by
  obtain ⟨c, cs, hlist, hc⟩ := opensName_of_isName hname
  have hfollow : n.follow = endsName := by
    unfold follow
    rw [hnumber, if_neg Bool.false_ne_true]
  refine of_atom hatom ?_ ⟨c, cs, by rw [htext, hlist], opensOperand_of_opensName hc⟩
  rw [htext, htokens, hfollow]
  exact Scans.name hname

theorem number {x : Float} (hx : Number.Legible x) : Spelled s (literal (.number x)) := by
  obtain ⟨c, cs, hlist⟩ : ∃ c cs, (Number.text x).toList = c :: cs := by
    cases hlist : (Number.text x).toList with
    | nil =>
      have h := hx.opens
      rw [hlist] at h
      cases h
    | cons c cs => exact ⟨c, cs, rfl⟩
  have hdigit : c.isDigit = true := by
    have h := hx.opens
    rwa [hlist] at h
  have hatom : (literal (.number x)).isAtom = true := by
    have hpositive := of_decide_eq_false hx.nonnegative
    simp [isAtom, hpositive]
  refine of_atom hatom ?_ ⟨c, cs, hlist, ?_⟩
  · exact Scans.number hx.opens hx.plain hx.reads
  · unfold opensOperand
    rw [hdigit]
    simp

theorem string (v : String) : Spelled s (literal (.string v)) := by
  refine of_atom rfl ((Scans.string v).imp fun _ _ => rfl) ?_
  exact ⟨_, _, Token.toList_stringLiteral v, rfl⟩

theorem dotted {o : Node} {name : String} (ho : Spelled s o) (hnumber : o.isNumber = false)
    (hname : Token.isName name = true) : Spelled s (member o (.identifier name) false) := by
  have htext : ((member o (.identifier name) false).textWith s).toList
      = (o.enclosed (o.textWith s)).toList ++ '.' :: name.toList := by
    rw [textWith, String.toList_append, String.toList_append, List.append_assoc]
    rfl
  obtain ⟨c, cs, hlist, hc⟩ := opensName_of_isName hname
  obtain ⟨d, ds, hopen, hd⟩ := ho.opens
  have hfollow : o.follow = endsName := by
    unfold follow
    rw [hnumber, if_neg Bool.false_ne_true]
  refine of_atom rfl ?_ ⟨d, ds ++ '.' :: name.toList, by rw [htext, hopen]; rfl, hd⟩
  have haccess : Scans endsName ('.' :: name.toList) [.symbol ".", .identifier name] := by
    have h := Scans.name hname
    rw [hlist] at h ⊢
    exact Scans.point.append_cons h hc
  have hoperand := ho.operand
  rw [hfollow] at hoperand
  rw [htext, tokens]
  exact hoperand.append_cons haccess rfl

theorem computed {o p : Node} (ho : Spelled s o) (hp : Spelled s p) :
    Spelled s (member o p true) := by
  have htext : ((member o p true).textWith s).toList
      = (o.enclosed (o.textWith s)).toList ++ '[' :: ((p.textWith s).toList ++ [']']) := by
    rw [textWith_member (fun h => Bool.noConfusion h), String.toList_append,
      String.toList_append, String.toList_append, List.append_assoc, List.append_assoc]
    rfl
  obtain ⟨d, ds, hopen, hd⟩ := ho.opens
  refine of_atom rfl ?_ ⟨d, _, by rw [htext, hopen]; rfl, hd⟩
  have hclose := hp.text.append_cons (Scans.bracket (s := "]") rfl) rfl
  have haccess := (Scans.bracket (s := "[") rfl).append_any hclose
  rw [htext, tokens_computed]
  exact (ho.operand.append_cons haccess (o.follow_of_endsExpression rfl)).imp fun _ _ => rfl

theorem call {f : Node} {as : List Node} (hf : Spelled s f) (has : ∀ a ∈ as, Spelled s a) :
    Spelled s (call f as) := by
  have htext : ((Node.call f as).textWith s).toList = (f.enclosed (f.textWith s)).toList
      ++ '(' :: ((commaSeparated (as.map (textWith s))).toList ++ [')']) := by
    rw [textWith, textsWith_eq, String.toList_append, String.toList_append, String.toList_append,
      List.append_assoc, List.append_assoc]
    rfl
  obtain ⟨d, ds, hopen, hd⟩ := hf.opens
  refine of_atom rfl ?_ ⟨d, _, by rw [htext, hopen]; rfl, hd⟩
  have hlist := scans_separated fun a ha => (has a ha).text
  have harguments := (Scans.bracket (s := "(") rfl).append_any
    (hlist.append_cons (Scans.bracket (s := ")") rfl) rfl)
  rw [htext, tokens_call]
  exact (hf.operand.append_cons harguments (f.follow_of_endsExpression rfl)).imp fun _ _ => rfl

theorem unary (op : UnaryOp) {a : Node} (ha : Spelled s a) : Spelled s (unary op a) := by
  obtain ⟨d, ds, hopen, hd⟩ := ha.opens
  have hoperand := ha.operand.imp fun c hc => a.follow_of_endsExpression hc
  refine of_compound rfl ?_
  rw [textWith, tokens, String.toList_append]
  unfold unaryText unaryToken
  split
  next =>
    have hword := Scans.name (w := "typeof") (by decide)
    exact hword.append_cons (Scans.blank.append_any hoperand) rfl
  next hop =>
    rw [hopen] at hoperand ⊢
    exact (Scans.unary hop).append_cons hoperand hd

theorem conditional {t c a : Node} (ht : Spelled s t) (hc : Spelled s c) (ha : Spelled s a) :
    Spelled s (conditional t c a) := by
  have htext : ((Node.conditional t c a).textWith s).toList
      = (t.enclosed (t.textWith s)).toList ++ ' ' :: '?' :: ' ' ::
        ((c.enclosed (c.textWith s)).toList ++ ' ' :: ':' :: ' ' ::
          (a.enclosed (a.textWith s)).toList) := by
    simp only [textWith, String.toList_append, List.append_assoc]
    rfl
  refine of_compound rfl ?_
  rw [htext, tokens]
  have hlast := Scans.blank.append_any (ha.operand.imp fun _ h => a.follow_of_endsExpression h)
  have hcolon := Scans.blank.append_any ((Scans.bracket (s := ":") rfl).append_any hlast)
  have hmiddle := hc.operand.append_cons hcolon (c.follow_of_endsExpression rfl)
  have hquestion := Scans.blank.append_any
    ((Scans.mark (.inl rfl)).append_cons (Scans.blank.append_any hmiddle) rfl)
  exact ht.operand.append_cons hquestion (t.follow_of_endsExpression rfl)

theorem array {es : List Node} (hes : ∀ e ∈ es, Spelled s e) : Spelled s (array es) := by
  have htext : ((Node.array es).textWith s).toList
      = '[' :: ((commaSeparated (es.map (textWith s))).toList ++ [']']) := by
    rw [textWith, textsWith_eq, String.toList_append, String.toList_append, List.append_assoc]
    rfl
  refine of_atom rfl ?_ ⟨_, _, htext, rfl⟩
  have hlist := scans_separated fun e he => (hes e he).text
  rw [htext, tokens_array]
  exact ((Scans.bracket (s := "[") rfl).append_any
    (hlist.append_cons (Scans.bracket (s := "]") rfl) rfl)).imp fun _ _ => rfl

theorem object {ps : List (String × Node)} (hps : ∀ p ∈ ps, Spelled s p.2) :
    Spelled s (object ps) := by
  have htext : ((Node.object ps).textWith s).toList
      = '(' :: '\x7b' :: ' ' :: ((commaSeparated (ps.map fun p =>
          keyText p.1 ++ ": " ++ p.2.textWith s)).toList ++ [' ', '\x7d', ')']) := by
    rw [textWith, propertyTexts_eq, String.toList_append, String.toList_append, List.append_assoc]
    rfl
  have hproperty : ∀ p ∈ ps, Scans endsExpression
      (keyText p.1 ++ ": " ++ p.2.textWith s).toList (keyToken p.1 :: .symbol ":" :: p.2.tokens) := by
    intro p hp
    rw [String.toList_append, String.toList_append, List.append_assoc]
    exact (scans_key p.1).append_cons ((Scans.bracket (s := ":") rfl).append_any
      (Scans.blank.append_any (hps p hp).text)) rfl
  have hclose := Scans.blank.append_any ((Scans.bracket (s := "\x7d") rfl).append_any
    (Scans.bracket (s := ")") rfl))
  have hlist := (scans_separated hproperty).append_cons hclose rfl
  have hopen := (Scans.bracket (s := "(") rfl).append_any
    ((Scans.bracket (s := "\x7b") rfl).append_any (Scans.blank.append_any hlist))
  refine of_compound rfl ?_
  rw [htext, tokens, propertyTokens_eq]
  exact hopen.imp fun _ _ => rfl

end Spelled

/-- The texts of spellable trees are scanned as their tokens. -/
theorem Spellable.spelled {P : Float → Prop} (hP : ∀ x, P x → Number.Legible x) (s : Spelling)
    {n : Node} (hn : Spellable P n) : Spelled s n := by
  induction hn with
  | null => exact .word (w := "null") rfl rfl rfl rfl (by decide)
  | boolean b =>
    cases b with
    | false => exact .word (w := "false") rfl rfl rfl rfl (by decide)
    | true => exact .word (w := "true") rfl rfl rfl rfl (by decide)
  | string v => exact .string v
  | number hx => exact .number (hP _ hx)
  | identifier hname _ => exact .word rfl rfl rfl rfl hname
  | dotted _ hnumber hname ho => exact .dotted ho hnumber hname
  | computed _ _ ho hp => exact .computed ho hp
  | call _ _ hf has => exact .call hf has
  | unary op _ ha => exact .unary op ha
  | binary op _ _ hl hr => exact .of_compound rfl (Spelled.scans_between hl hr (.binary op))
  | logical op _ _ hl hr => exact .of_compound rfl (Spelled.scans_between hl hr (.logical op))
  | conditional _ _ _ ht hc ha => exact .conditional ht hc ha
  | array _ hes => exact .array hes
  | object _ hps => exact .object hps

theorem Spellable.scan_text {P : Float → Prop} (hP : ∀ x, P x → Number.Legible x) (s : Spelling)
    {n : Node} (hn : Spellable P n) : Token.scan (n.textWith s).toList = .ok n.tokens :=
  (hn.spelled hP s).text.scan_eq

end Node

end ColumnQuery
