/-
  The texts of single tokens.

  `Scans p cs ts` says that the characters `cs` are scanned as the tokens `ts`, before whatever
  opens with a character that passes `p`, or before nothing. Texts that are scanned this way can
  be put one after the other if each may follow the one before (`Scans.append`), and a whole text
  is scanned as its tokens (`Scans.scan_eq`). There is a rule for every kind of token that the
  text of a tree is made of: names, strings, numbers, brackets, and operators with what follows
  them there.
-/
import ColumnQuery.Proofs.Lists
import ColumnQuery.Syntax.Node.Parser
import ColumnQuery.Syntax.Node.Printer
import Mathlib.Data.List.TakeWhile

namespace ColumnQuery

/-! ## Classes of characters -/

namespace Text

/-- No range of one table meets one of another. -/
def apart (a b : CodePoints) : Bool :=
  a.all fun r => b.all fun q => r.2 < q.1 || q.2 < r.1

theorem not_has_of_apart {a b : CodePoints} (h : apart a b = true) {c : Char} (hc : b.has c = true) :
    a.has c = false := by
  obtain ⟨q, hq, hin⟩ := List.any_eq_true.1 hc
  refine List.any_eq_false.2 fun r hr hin' => ?_
  have hrq := List.all_eq_true.1 (List.all_eq_true.1 h r hr) q hq
  simp at hin hin' hrq
  omega

/-- No letter is white space. -/
theorem apart_blanks_letters : apart wideBlanks wideLetters = true := by decide +kernel

/-- What holds of the first 128 code points holds of ASCII. -/
theorem forall_ascii {p : Char → Bool} (h : ∀ n < 128, p (Char.ofNat n) = true) {c : Char}
    (hc : isAscii c = true) : p c = true := by
  have hn := h c.toNat (of_decide_eq_true hc)
  rwa [Char.ofNat_toNat] at hn

/-- Digits are in ASCII. -/
theorem isAscii_of_isDigit {c : Char} (h : c.isDigit = true) : isAscii c = true := by
  have hle : c.toNat ≤ 57 :=
    UInt32.le_iff_toNat_le.1 (of_decide_eq_true (Bool.and_eq_true_iff.1 h).2)
  exact decide_eq_true (by omega)

end Text

namespace Token

variable {p q : Char → Bool} {cs ds rest : List Char} {ts us : List Token} {c : Char}

/-! ## First characters -/

/-- A character that opens a token without being part of one that is read in a way of its own:
    no quote, point, slash or digit, and no white space. -/
def isOrdinary (c : Char) : Bool :=
  !(c == '"' || c == '\'' || c == '/' || c == '.' || c.toNat == 0x60 || c.isDigit || Text.isBlank c)

theorem isOrdinary_of_opensName (h : opensName c = true) : isOrdinary c = true := by
  by_cases hc : Text.isAscii c = true
  · have hall := Text.forall_ascii (p := fun c => !opensName c || isOrdinary c) (by decide) hc
    rw [h] at hall
    exact hall
  · have hwide : Text.wideLetters.has c = true := by
      unfold opensName Text.isLetter at h
      rw [if_neg hc] at h
      rcases Bool.or_eq_true_iff.1 h with h | h
      · rcases Bool.or_eq_true_iff.1 h with h | h
        · exact h
        · obtain rfl := beq_iff_eq.1 h
          exact absurd rfl hc
      · obtain rfl := beq_iff_eq.1 h
        exact absurd rfl hc
    have hblank : Text.isBlank c = false := by
      unfold Text.isBlank
      rw [if_neg hc]
      exact Text.not_has_of_apart Text.apart_blanks_letters hwide
    refine Bool.not_eq_true' _ ▸ Bool.eq_false_iff.2 fun hother => hc ?_
    simp only [hblank, Bool.or_false, Bool.or_eq_true, beq_iff_eq] at hother
    rcases hother with ((((rfl | rfl) | rfl) | rfl) | hquote) | hdigit
    · rfl
    · rfl
    · rfl
    · rfl
    · exact decide_eq_true (by omega)
    · exact Text.isAscii_of_isDigit hdigit

/-! ## Texts of tokens -/

/-- What follows starts, if at all, with a character that may stand there. -/
def Before (p : Char → Bool) (rest : List Char) : Prop := ∀ c ∈ rest.head?, p c = true

theorem Before.cons (h : p c = true) : Before p (c :: cs) := by
  rintro _ ⟨⟩
  exact h

theorem Before.nil : Before p [] := nofun

theorem Before.imp (h : ∀ c, q c = true → p c = true) (hrest : Before q rest) : Before p rest :=
  fun c hc => h c (hrest c hc)

/-- The characters are scanned as the tokens, before whatever may follow them. -/
structure Scans (p : Char → Bool) (cs : List Char) (ts : List Token) : Prop where
  length_le : ts.length ≤ cs.length
  scan : ∀ k rest out, Before p rest → scanUpTo k rest = .ok out →
    scanUpTo (k + ts.length) (cs ++ rest) = .ok (ts ++ out)

namespace Scans

theorem imp (h : Scans p cs ts) (hq : ∀ c, q c = true → p c = true) : Scans q cs ts :=
  ⟨h.length_le, fun k rest out hrest => h.scan k rest out (hrest.imp hq)⟩

/-- One text after the other. -/
theorem append (h : Scans p cs ts) (h' : Scans q ds us)
    (hmeet : ∀ rest, Before q rest → Before p (ds ++ rest)) : Scans q (cs ++ ds) (ts ++ us) := by
  refine ⟨?_, fun k rest out hrest hout => ?_⟩
  · rw [List.length_append, List.length_append]
    exact Nat.add_le_add h.length_le h'.length_le
  · have hlater := h.scan (k + us.length) (ds ++ rest) (us ++ out) (hmeet rest hrest)
      (h'.scan k rest out hrest hout)
    rw [List.length_append, List.append_assoc, List.append_assoc]
    rwa [Nat.add_assoc, Nat.add_comm us.length] at hlater

/-- One text after the other, if the second one opens with a character that may follow. -/
theorem append_cons (h : Scans p cs ts) (h' : Scans q (c :: ds) us) (hc : p c = true) :
    Scans q (cs ++ c :: ds) (ts ++ us) :=
  h.append h' fun _ _ => Before.cons hc

/-- One text after another one that anything may follow. -/
theorem append_any (h : Scans (fun _ => true) cs ts) (h' : Scans q ds us) :
    Scans q (cs ++ ds) (ts ++ us) :=
  h.append h' fun _ _ _ _ => rfl

/-- A text of which nothing follows is scanned whole. -/
theorem scan_eq (h : Scans p cs ts) : Token.scan cs = .ok ts := by
  have hempty : ∀ k, scanUpTo k [] = .ok [] := by
    intro k
    cases k <;> rfl
  have hall := h.scan (cs.length + 1 - ts.length) [] [] .nil (hempty _)
  have hlength := h.length_le
  have hcount : cs.length + 1 - ts.length + ts.length = cs.length + 1 := by omega
  rw [hcount, List.append_nil, List.append_nil] at hall
  exact hall

/-- The rule for a single token. -/
theorem token {t : Token} (hskip : ∀ rest, Before p rest →
      skipTrivia (c :: (cs ++ rest)) = .ok (c :: (cs ++ rest)))
    (hread : ∀ rest, Before p rest → readToken c (cs ++ rest) = .ok (t, rest)) :
    Scans p (c :: cs) [t] := by
  refine ⟨by simp, fun k rest out hrest hout => ?_⟩
  show scanUpTo (k + 1) (c :: (cs ++ rest)) = _
  rw [scanUpTo, hskip rest hrest]
  show (readToken c (cs ++ rest) >>= _) = _
  rw [hread rest hrest]
  show (scanUpTo k rest >>= _) = _
  rw [hout]
  rfl

/-- The rule for a token of one character. -/
theorem single {t : Token} (hskip : ∀ rest, Before p rest →
      skipTrivia (c :: rest) = .ok (c :: rest))
    (hread : ∀ rest, Before p rest → readToken c rest = .ok (t, rest)) : Scans p [c] [t] :=
  token hskip hread

end Scans

theorem skipTrivia_of_isOrdinary (h : isOrdinary c = true) (cs : List Char) :
    skipTrivia (c :: cs) = .ok (c :: cs) := by
  unfold isOrdinary at h
  simp only [Bool.not_eq_true', Bool.or_eq_false_iff, beq_eq_false_iff_ne] at h
  rw [skipTrivia]
  · rw [h.2]
    rfl
  · rintro _ rfl
    exact absurd rfl h.1.1.1.1.2
  · rintro _ rfl
    exact absurd rfl h.1.1.1.1.2

/-- A blank between tokens. -/
theorem Scans.blank : Scans (fun _ => true) [' '] [] := by
  refine ⟨by simp, fun k rest out _ hout => ?_⟩
  show scanUpTo k (' ' :: rest) = .ok out
  rw [← hout]
  cases k <;> rfl

/-! ## Names -/

/-- What follows does not go on with a name. -/
def endsName (c : Char) : Bool := !continuesName c

theorem continuesName_of_opensName (h : opensName c = true) : continuesName c = true := by
  unfold opensName at h
  unfold continuesName Text.isLetterOrNumeral
  rw [Bool.or_assoc] at h ⊢
  rcases Bool.or_eq_true_iff.1 h with h | h
  · rw [h]
    rfl
  · rw [h, Bool.or_true]

theorem takeWhile_append_of_before {cs : List Char} (hcs : ∀ c ∈ cs, p c = true)
    (hrest : Before (fun c => !p c) rest) :
    (cs ++ rest).takeWhile p = cs ∧ (cs ++ rest).dropWhile p = rest := by
  rw [List.takeWhile_append_of_pos hcs, List.dropWhile_append_of_pos hcs]
  cases rest with
  | nil => simp
  | cons c rest =>
    have hc : ¬ p c = true := by
      have := hrest c rfl
      simpa using this
    rw [List.takeWhile_cons_of_neg hc, List.dropWhile_cons_of_neg hc]
    simp

theorem isName_cases {w : String} (h : isName w = true) :
    ∃ c cs, w.toList = c :: cs ∧ opensName c = true ∧ ∀ d ∈ cs, continuesName d = true := by
  unfold isName at h
  split at h
  next => cases h
  next c cs heq =>
    obtain ⟨hc, hcs⟩ := Bool.and_eq_true_iff.1 h
    exact ⟨c, cs, heq, hc, List.all_eq_true.1 hcs⟩

theorem readToken_name (hc : opensName c = true) (hcs : ∀ d ∈ cs, continuesName d = true)
    (hrest : Before endsName rest) :
    readToken c (cs ++ rest) = .ok (.identifier (String.ofList (c :: cs)), rest) := by
  have hall : ∀ d ∈ c :: cs, continuesName d = true :=
    List.forall_mem_cons.2 ⟨continuesName_of_opensName hc, hcs⟩
  obtain ⟨htake, hdrop⟩ := takeWhile_append_of_before hall hrest
  have hordinary := isOrdinary_of_opensName hc
  unfold isOrdinary at hordinary
  simp only [Bool.not_eq_true', Bool.or_eq_false_iff, beq_eq_false_iff_ne] at hordinary
  obtain ⟨⟨⟨⟨⟨⟨hdouble, hsingle⟩, -⟩, hpoint⟩, htemplate⟩, hdigit⟩, -⟩ := hordinary
  have hnumber : (c.isDigit || atPointNumber (c :: (cs ++ rest))) = false := by
    rw [hdigit, Bool.false_or, atPointNumber]
    intro _ _ heq
    exact absurd (List.cons.inj heq).1 hpoint
  unfold readToken
  rw [if_neg (by simp [hdouble, hsingle]), if_neg htemplate, if_neg (by simp [hnumber]),
    if_pos hc]
  show Except.ok (Token.identifier (String.ofList ((c :: cs ++ rest).takeWhile continuesName)),
    (c :: cs ++ rest).dropWhile continuesName) = _
  rw [htake, hdrop]

theorem Scans.name {w : String} (h : isName w = true) :
    Scans endsName w.toList [.identifier w] := by
  obtain ⟨c, cs, hword, hc, hcs⟩ := isName_cases h
  have hstring : String.ofList (c :: cs) = w := by
    rw [← hword, String.ofList_toList]
  rw [hword]
  refine Scans.token (fun rest _ => ?_) fun rest hrest => ?_
  · exact skipTrivia_of_isOrdinary (isOrdinary_of_opensName hc) _
  · rw [readToken_name hc hcs hrest, hstring]

/-! ## Strings -/

theorem toList_stringLiteral (s : String) : (Node.stringLiteral s).toList
    = '"' :: (s.toList.flatMap (fun c => (Node.literalChar c).toList) ++ ['"']) := by
  unfold Node.stringLiteral
  simp only [String.toList_append, String.toList_join, List.flatMap_map]
  rfl

/-- A character of a literal is an escape of its own or stands for itself. -/
theorem literalChar_cases (c : Char) :
    (∃ e, (Node.literalChar c).toList = ['\\', e] ∧ e ≠ 'u' ∧ escaped e = c) ∨
      ((Node.literalChar c).toList = [c] ∧ c ≠ '"' ∧ c ≠ '\\') := by
  unfold Node.literalChar
  split
  next h => exact .inl ⟨'"', rfl, by decide, h.symm⟩
  next hquote =>
    split
    next h => exact .inl ⟨'\\', rfl, by decide, h.symm⟩
    next hslash =>
      split
      next h => exact .inl ⟨'n', rfl, by decide, h.symm⟩
      next =>
        split
        next h => exact .inl ⟨'t', rfl, by decide, h.symm⟩
        next =>
          split
          next h => exact .inl ⟨'r', rfl, by decide, h.symm⟩
          next => exact .inr ⟨by simp, hquote, hslash⟩

theorem readString_escape {e : Char} (h : e ≠ 'u') (quote : Char) (cs : List Char) :
    readString quote ('\\' :: e :: cs)
      = (readString quote cs).map fun (s, rest) => (escaped e :: s, rest) := by
  rw [readString] <;> simp [h]

theorem readString_plain {c quote : Char} (hslash : c ≠ '\\') (hquote : c ≠ quote)
    (cs : List Char) :
    readString quote (c :: cs) = (readString quote cs).map fun (s, rest) => (c :: s, rest) := by
  rw [readString, if_neg hquote] <;> simp [hslash]

/-- The characters of a literal are read back, up to the closing quote. -/
theorem readString_literal (s rest : List Char) :
    readString '"' (s.flatMap (fun c => (Node.literalChar c).toList) ++ '"' :: rest)
      = .ok (s, rest) := by
  induction s with
  | nil => simp [readString]
  | cons c s ih =>
    rw [List.flatMap_cons, List.append_assoc]
    rcases literalChar_cases c with ⟨e, htext, he, hescaped⟩ | ⟨htext, hquote, hslash⟩
    · rw [htext, List.cons_append, List.singleton_append, readString_escape he, ih, ← hescaped]
      rfl
    · rw [htext, List.singleton_append, readString_plain hslash hquote, ih]
      rfl

theorem Scans.string (s : String) : Scans (fun _ => true) (Node.stringLiteral s).toList [.string s] := by
  rw [toList_stringLiteral]
  refine Scans.token (fun rest _ => by rw [skipTrivia] <;> first | rfl | simp) fun rest _ => ?_
  unfold readToken
  rw [if_pos (.inl rfl), List.append_assoc]
  show (readString '"' (_ ++ '"' :: rest)).map _ = _
  rw [readString_literal]
  show Except.ok (Token.string (String.ofList s.toList), rest) = _
  rw [String.ofList_toList]

/-! ## Numbers -/

/-- What follows does not go on with a number. -/
def endsNumber (c : Char) : Bool :=
  !(c.isDigit || c == '.' || c == 'e' || c == 'E' || c == 'x' || c == 'X')

theorem spanNumber_eq {cs : List Char} (hplain : ∀ c ∈ cs, (c.isDigit || c == '.') = true)
    (hrest : Before endsNumber rest) : spanNumber (cs ++ rest) = .ok (cs, rest) := by
  have hstop : Before (fun c => !(c.isDigit || c == '.')) rest := hrest.imp fun c hc => by
    unfold endsNumber at hc
    simp_all
  obtain ⟨htake, hdrop⟩ := takeWhile_append_of_before hplain hstop
  unfold spanNumber
  dsimp only
  rw [htake, hdrop]
  cases rest with
  | nil => rfl
  | cons e rest =>
    have he := hrest e rfl
    unfold endsNumber at he
    simp only [Bool.not_eq_true', Bool.or_eq_false_iff, beq_eq_false_iff_ne] at he
    exact if_neg fun h => h.elim he.1.1.1.2 he.1.1.2

theorem readNumber_eq {cs : List Char} (hplain : ∀ c ∈ cs, (c.isDigit || c == '.') = true)
    (hne : cs ≠ []) (hrest : Before endsNumber rest) :
    readNumber (cs ++ rest) = readDecimal (cs ++ rest) := by
  -- the second character, if any, is no radix mark
  have hmark : ∀ a d ds, cs ++ rest = a :: d :: ds → d ≠ 'x' ∧ d ≠ 'X' := by
    intro a d ds heq
    obtain ⟨c, cs, rfl⟩ := List.exists_cons_of_ne_nil hne
    have htail : cs ++ rest = d :: ds := (List.cons.inj heq).2
    cases cs with
    | nil =>
      have hd := hrest d (congrArg List.head? htail)
      constructor <;> rintro rfl <;> cases hd
    | cons b cs =>
      obtain ⟨rfl, -⟩ := List.cons.inj htail
      have hb := hplain b (by simp)
      constructor <;> rintro rfl <;> cases hb
  unfold readNumber
  split
  next heq => exact absurd rfl (hmark _ _ _ heq).1
  next heq => exact absurd rfl (hmark _ _ _ heq).2
  next => rfl

/-- A text of digits, perhaps with a point, that reads as a number. -/
theorem Scans.number {cs : List Char} {x : Float} (hfirst : cs.head?.any Char.isDigit = true)
    (hplain : ∀ c ∈ cs, (c.isDigit || c == '.') = true)
    (hreads : (Decimal.read? cs).map Decimal.toFloat = some x) :
    Scans endsNumber cs [.number x] := by
  obtain ⟨c, cs, rfl⟩ : ∃ c cs', cs = c :: cs' := by
    cases cs with
    | nil => cases hfirst
    | cons c cs => exact ⟨c, cs, rfl⟩
  have hdigit : c.isDigit = true := hfirst
  obtain ⟨d, hd, rfl⟩ := Option.map_eq_some_iff.1 hreads
  have hfacts := Text.forall_ascii
    (p := fun c => !c.isDigit ||
      (c != '"' && c != '\'' && c != '/' && !Text.isBlank c && c.toNat != 0x60))
    (by decide) (Text.isAscii_of_isDigit hdigit)
  rw [hdigit] at hfacts
  simp only [Bool.not_true, Bool.false_or, Bool.and_eq_true, bne_iff_ne, Bool.not_eq_true']
    at hfacts
  obtain ⟨⟨⟨⟨hdouble, hsingle⟩, hslash⟩, hblank⟩, htemplate⟩ := hfacts
  refine Scans.token (fun rest _ => ?_) fun rest hrest => ?_
  · rw [skipTrivia, hblank]
    · rfl
    · exact fun _ h => absurd h hslash
    · exact fun _ h => absurd h hslash
  · unfold readToken
    rw [if_neg (by simp [hdouble, hsingle]), if_neg htemplate, hdigit, Bool.true_or, if_pos rfl,
      ← List.cons_append, readNumber_eq hplain (List.cons_ne_nil _ _) hrest]
    unfold readDecimal
    rw [spanNumber_eq hplain hrest, ok_bind]
    dsimp only
    rw [hd]

/-! ## Symbols -/

/-- The symbols that no longer symbol begins with. -/
def isBracket (s : String) : Bool := ["(", ")", "[", "]", "\x7b", "\x7d", ",", ":"].contains s

theorem Scans.bracket {s : String} (h : isBracket s = true) :
    Scans (fun _ => true) s.toList [.symbol s] := by
  have hs : s = "(" ∨ s = ")" ∨ s = "[" ∨ s = "]" ∨ s = "\x7b" ∨ s = "\x7d" ∨ s = "," ∨ s = ":" := by
    simpa [isBracket] using h
  rcases hs with rfl | rfl | rfl | rfl | rfl | rfl | rfl | rfl <;>
    exact Scans.single (fun _ _ => rfl) fun _ _ => rfl

/-- The rule for a symbol that a blank follows, or nothing. -/
theorem Scans.beforeBlank {s : String}
    (hskip : ∀ rest, rest = [] ∨ rest.head? = some ' ' →
      skipTrivia (c :: (cs ++ rest)) = .ok (c :: (cs ++ rest)))
    (hread : ∀ rest, rest = [] ∨ rest.head? = some ' ' →
      readToken c (cs ++ rest) = .ok (.symbol s, rest)) : Scans (· == ' ') (c :: cs) [.symbol s] := by
  have hblank : ∀ rest, Before (· == ' ') rest → rest = [] ∨ rest.head? = some ' ' := by
    intro rest hrest
    cases rest with
    | nil => exact .inl rfl
    | cons d rest => exact .inr (congrArg some (beq_iff_eq.1 (hrest d rfl)))
  exact Scans.token (fun rest h => hskip rest (hblank rest h)) fun rest h => hread rest (hblank rest h)

/-- An infix operator, which a blank follows. -/
theorem Scans.infixSymbol {op : Node.InfixOp} (h : op ∈ Node.InfixOp.symbolic) :
    Scans (· == ' ') op.symbol.toList [.symbol op.symbol] := by
  unfold Node.InfixOp.symbolic at h
  simp only [List.mem_cons, List.not_mem_nil, or_false] at h
  rcases h with rfl | rfl | rfl | rfl | rfl | rfl | rfl | rfl | rfl | rfl | rfl | rfl | rfl | rfl |
    rfl | rfl | rfl | rfl | rfl | rfl | rfl | rfl | rfl
  all_goals
    refine Scans.beforeBlank (fun rest hrest => ?_) fun rest hrest => ?_
    all_goals
      rcases rest with _ | ⟨d, rest⟩
      · rfl
      · obtain rfl : d = ' ' := by simpa using hrest
        rfl

/-- The marks of conditionals and functions, which a blank follows. -/
theorem Scans.mark {s : String} (h : s = "?" ∨ s = "=>") : Scans (· == ' ') s.toList [.symbol s] := by
  rcases h with rfl | rfl
  all_goals
    refine Scans.beforeBlank (fun _ _ => rfl) fun rest hrest => ?_
    rcases rest with _ | ⟨d, rest⟩
    · rfl
    · obtain rfl : d = ' ' := by simpa using hrest
      rfl

/-- How an operand opens: with a name, a number, a string or a bracket. -/
def opensOperand (c : Char) : Bool :=
  opensName c || c.isDigit || c == '"' || c == '(' || c == '['

/-- Where an operand comes next, only a symbol of one character can be read. -/
theorem isPrefixOf_single {s : String} (hs : s ∈ symbols) (hc : opensOperand c = true) (a : Char)
    (rest : List Char) : s.toList.isPrefixOf (a :: c :: rest) = (s.toList == [a]) := by
  have hshape : symbols.all (fun s => match s.toList with
      | [] => false
      | [_] => true
      | _ :: e :: _ => !opensOperand e) = true := by
    decide +kernel
  have hsecond := List.all_eq_true.1 hshape s hs
  cases hlist : s.toList with
  | nil =>
    rw [hlist] at hsecond
    cases hsecond
  | cons b tail =>
    cases tail with
    | nil => simp [List.isPrefixOf]
    | cons e tail =>
      rw [hlist] at hsecond
      have he : opensOperand e = false := (Bool.not_eq_true' _).mp hsecond
      have hne : (e == c) = false := by
        refine beq_eq_false_iff_ne.2 ?_
        rintro rfl
        rw [hc] at he
        cases he
      simp [List.isPrefixOf, hne]

theorem readSymbol?_single {s : String} {a : Char} (hc : opensOperand c = true)
    (hs : symbols.find? (·.toList == [a]) = some s) (rest : List Char) :
    readSymbol? (a :: c :: rest) = some (.symbol s, c :: rest) := by
  have hlist : s.toList = [a] :=
    beq_iff_eq.1 (List.find?_some (p := fun s : String => s.toList == [a]) hs)
  unfold readSymbol?
  rw [← List.head?_filter, List.filter_congr fun s hs => isPrefixOf_single hs hc a rest,
    List.head?_filter, hs]
  show some (Token.symbol s, (a :: c :: rest).drop s.toList.length) = _
  rw [hlist]
  rfl

/-- A character that opens neither a string nor a number nor a name. -/
def opensSymbol (c : Char) : Bool :=
  !(c == '"' || c == '\'' || c.toNat == 0x60 || c.isDigit || c == '.' || opensName c)

theorem readToken_of_opensSymbol {s : String} (h : opensSymbol c = true)
    (hread : readSymbol? (c :: cs) = some (.symbol s, rest)) :
    readToken c cs = .ok (.symbol s, rest) := by
  unfold opensSymbol at h
  simp only [Bool.not_eq_true', Bool.or_eq_false_iff, beq_eq_false_iff_ne] at h
  obtain ⟨⟨⟨⟨⟨hdouble, hsingle⟩, htemplate⟩, hdigit⟩, hpoint⟩, hname⟩ := h
  have hnumber : (c.isDigit || atPointNumber (c :: cs)) = false := by
    rw [hdigit, Bool.false_or, atPointNumber]
    intro _ _ heq
    exact absurd (List.cons.inj heq).1 hpoint
  unfold readToken
  rw [if_neg (by simp [hdouble, hsingle]), if_neg htemplate, if_neg (by simp [hnumber]),
    if_neg (by simp [hname]), hread]

/-- A leading operator, which its operand follows. -/
theorem Scans.unary {op : UnaryOp} (hop : op ≠ .typeOf) :
    Scans opensOperand op.symbol.toList [.symbol op.symbol] := by
  cases op with
  | typeOf => exact absurd rfl hop
  | _ =>
    refine Scans.single (fun _ _ => rfl) fun rest hrest => ?_
    rcases rest with _ | ⟨d, rest⟩
    · rfl
    · exact readToken_of_opensSymbol rfl (readSymbol?_single (hrest d rfl) rfl rest)

/-- The point of an access, which a name follows. -/
theorem Scans.point : Scans opensName ['.'] [.symbol "."] := by
  refine Scans.single (fun _ _ => rfl) fun rest hrest => ?_
  rcases rest with _ | ⟨d, rest⟩
  · rfl
  · have hdigit : d.isDigit = false := by
      have hordinary := isOrdinary_of_opensName (hrest d rfl)
      unfold isOrdinary at hordinary
      simp_all
    unfold readToken
    rw [if_neg (by decide), if_neg (by decide)]
    show (if d.isDigit = true then _ else _) = _
    rw [hdigit]
    rfl

end Token

end ColumnQuery
