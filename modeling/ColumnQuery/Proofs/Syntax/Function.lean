/-
  Printing a function and parsing it back.

  The text of a function of named parameters whose body is a spellable tree parses back to the
  function (`Spellable.parse_arrow`). The names stand in parentheses, and the arrow after their
  closing one tells that a function starts (`atArrow_paramTokens`); the body is no block, as no
  operand opens with a brace.
-/
import ColumnQuery.Proofs.Syntax.Reading

namespace ColumnQuery

namespace Node

open Token (Scans Before endsName)

/-! ## Tokens -/

def nameTokens (names : List String) : List Token :=
  separatedTokens (names.map fun name => [.identifier name])

/-- The parameters, with the tokens after them. -/
def paramTokens (names : List String) (ts : List Token) : List Token :=
  .symbol "(" :: (nameTokens names ++ .symbol ")" :: ts)

def bodyTokens (n : Node) : List Token :=
  if n.isObject then n.tokens else n.enclosedTokens n.tokens

def arrowTokens (names : List String) (n : Node) : List Token :=
  paramTokens names (.symbol "=>" :: n.bodyTokens)

variable {names : List String} {n : Node} {ts : List Token}

theorem nameTokens_cons_cons (name other : String) (names : List String) :
    nameTokens (name :: other :: names)
      = .identifier name :: .symbol "," :: nameTokens (other :: names) := by
  unfold nameTokens separatedTokens
  rw [List.map_cons, List.map_cons, List.intercalate_cons_cons]
  rfl

/-! ## Scanning -/

theorem scans_params (hnames : ∀ name ∈ names, Token.isName name = true) :
    Scans (fun _ => true) (paramsText (names.map .name)).toList (paramTokens names []) := by
  have htext : (paramsText (names.map .name)).toList
      = '(' :: ((commaSeparated (names.map id)).toList ++ [')']) := by
    unfold paramsText
    rw [List.map_map, String.toList_append, String.toList_append, List.append_assoc]
    rfl
  have hlist : Scans endsExpression (commaSeparated (names.map id)).toList (nameTokens names) :=
    Spelled.scans_separated fun name hname =>
      (Scans.name (hnames name hname)).imp fun _ => endsName_of_endsExpression
  rw [htext]
  exact (Scans.bracket (s := "(") rfl).append_any
    (hlist.append_cons (Scans.bracket (s := ")") rfl) rfl)

theorem Spelled.body {s : Spelling} (hn : Spelled s n) :
    Scans endsExpression
      (if n.isObject then n.textWith s else n.enclosed (n.textWith s)).toList n.bodyTokens := by
  unfold bodyTokens
  split
  · exact hn.text
  · exact hn.operand.imp fun _ => n.follow_of_endsExpression

theorem Spelled.scan_arrow {s : Spelling} (hn : Spelled s n)
    (hnames : ∀ name ∈ names, Token.isName name = true) :
    Token.scan ((arrow (names.map .name) n).textWith s).toList = .ok (arrowTokens names n) := by
  have harrow := (Scans.mark (s := "=>") (.inr rfl)).append_cons
    (Scans.blank.append_any hn.body) rfl
  have hall := (scans_params hnames).append_any (Scans.blank.append_any harrow)
  have htokens : paramTokens names [] ++ ([] ++ ([.symbol "=>"] ++ ([] ++ n.bodyTokens)))
      = arrowTokens names n := by
    simp [paramTokens, arrowTokens]
  rw [textWith, String.toList_append, String.toList_append, List.append_assoc]
  rw [htokens] at hall
  exact hall.scan_eq

/-! ## Reading -/

theorem afterClosing?_names (names : List String) (ts : List Token) :
    afterClosing? 1 (nameTokens names ++ .symbol ")" :: ts) = some ts := by
  induction names with
  | nil => rfl
  | cons name names ih =>
    cases names with
    | nil => rfl
    | cons other names =>
      rw [nameTokens_cons_cons]
      exact ih

theorem atArrow_paramTokens (names : List String) (ts : List Token) :
    atArrow (paramTokens names (.symbol "=>" :: ts)) = true := by
  unfold paramTokens atArrow
  dsimp only
  rw [afterClosing?_names]
  rfl

theorem readPatterns_name {name : String} {k : Nat} {after rest us : List Token}
    {ps : List Pattern} (hseparator : separator ")" after = .ok rest)
    (hrest : readPatterns k rest = .ok (ps, us)) :
    readPatterns (k + 1) (.identifier name :: after) = .ok (.name name :: ps, us) := by
  have hnone : eat? ")" (.identifier name :: after) = none := rfl
  have hname : readPattern (.identifier name :: after) = .ok (.name name, after) := rfl
  rw [readPatterns, hnone]
  dsimp only
  rw [hname, ok_bind]
  dsimp only
  rw [hseparator, ok_bind, hrest]
  rfl

theorem readPatterns_names {k : Nat} (hk : names.length < k) :
    readPatterns k (nameTokens names ++ .symbol ")" :: ts) = .ok (names.map .name, ts) := by
  induction names generalizing k with
  | nil =>
    obtain ⟨k, rfl⟩ : ∃ j, k = j + 1 := ⟨k - 1, by omega⟩
    rfl
  | cons name names ih =>
    rw [List.length_cons] at hk
    obtain ⟨k, rfl⟩ : ∃ j, k = j + 1 := ⟨k - 1, by omega⟩
    have hmore := ih (k := k) (by omega)
    cases names with
    | nil => exact readPatterns_name rfl hmore
    | cons other names =>
      rw [nameTokens_cons_cons]
      exact readPatterns_name rfl hmore

theorem length_nameTokens (names : List String) : names.length ≤ (nameTokens names).length := by
  induction names with
  | nil => exact Nat.zero_le _
  | cons name names ih =>
    cases names with
    | nil => exact Nat.le_refl _
    | cons other names =>
      rw [nameTokens_cons_cons]
      simp only [List.length_cons] at ih ⊢
      omega

theorem Reads.body (hn : Reads n) : ReadsExpression n n.bodyTokens := by
  unfold bodyTokens
  split
  · exact hn.expression
  · exact hn.operand_expression

/-- A body opens no block. -/
theorem Reads.starts_body (hn : Reads n) : starts "\x7b" n.bodyTokens = false := by
  unfold bodyTokens
  split
  next hobject =>
    cases n with
    | object ps =>
      rw [tokens]
      rfl
    | _ => cases hobject
  next =>
    obtain ⟨t, us, heq, ht⟩ := hn.operandHeads
    rw [heq]
    cases t with
    | symbol s =>
      have hs : s ≠ "\x7b" := fun hs => ne_brace_of_headsOperand ht (congrArg _ hs)
      exact congrArg Option.isSome (if_neg hs)
    | _ => rfl

theorem Reads.ofTokens_arrow (hn : Reads n) (names : List String) :
    ofTokens (arrowTokens names n) = .ok (arrow (names.map .name) n) := by
  have hlength : (arrowTokens names n).length
      = (nameTokens names).length + n.bodyTokens.length + 3 := by
    simp only [arrowTokens, paramTokens, List.length_cons, List.length_append]
    omega
  obtain ⟨k, hk⟩ : ∃ k, 10 * ((arrowTokens names n).length + 2) = k + 2 :=
    ⟨10 * ((arrowTokens names n).length + 2) - 2, by omega⟩
  have hparams : readParams (nameTokens names ++ .symbol ")" :: .symbol "=>" :: n.bodyTokens)
      = .ok (names.map .name, .symbol "=>" :: n.bodyTokens) := by
    refine readPatterns_names ?_
    have hnames := length_nameTokens names
    rw [List.length_append]
    omega
  have hbody := hn.body [] k ⟨List.not_mem_nil, .inl rfl⟩ (by omega)
  rw [List.append_nil] at hbody
  have hread : readArrow (k + 1) (arrowTokens names n) = .ok (arrow (names.map .name) n, []) := by
    unfold arrowTokens paramTokens
    rw [readArrow, eat?_symbol]
    dsimp only
    rw [hparams, ok_bind]
    dsimp only
    rw [expect_symbol, ok_bind, hn.starts_body, if_neg Bool.false_ne_true, hbody]
    rfl
  have harrow : atArrow (arrowTokens names n) = true := atArrow_paramTokens names n.bodyTokens
  unfold ofTokens
  rw [hk, readExpression, if_pos harrow, hread]
  rfl

/-- Printing a function of named parameters and parsing it back is the identity. -/
theorem Spellable.parse_arrow {P : Float → Prop} (hP : ∀ x, P x → Number.Legible x) (s : Spelling)
    (hn : Spellable P n) (hnames : ∀ name ∈ names, Token.isName name = true) :
    parse ((arrow (names.map .name) n).textWith s) = .ok (arrow (names.map .name) n) := by
  rw [parse, (hn.spelled hP s).scan_arrow hnames]
  exact (hn.reads hP).ofTokens_arrow names

end Node

end ColumnQuery
