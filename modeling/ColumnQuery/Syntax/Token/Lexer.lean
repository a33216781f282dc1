/-
  Expression text as a list of tokens.

  Every reader takes the characters at hand and answers what it read with those after it.
  White space, `//` comments to the end of the line and `/* … */` comments separate tokens.
-/
import ColumnQuery.Syntax.Token.Basic
import ColumnQuery.Text.Blank

namespace ColumnQuery

namespace Token

/-! ## What separates tokens -/

mutual

/-- Drops white space and comments. -/
def skipTrivia : List Char → Except SyntaxError (List Char)
  | [] => .ok []
  | '/' :: '/' :: cs => skipLine cs
  | '/' :: '*' :: cs => skipComment cs
  | c :: cs => if Text.isBlank c then skipTrivia cs else .ok (c :: cs)

/-- Drops the rest of a line comment. -/
def skipLine : List Char → Except SyntaxError (List Char)
  | [] => .ok []
  | c :: cs => if c = '\n' then skipTrivia cs else skipLine cs

/-- Drops the rest of a comment that has to be closed. -/
def skipComment : List Char → Except SyntaxError (List Char)
  | [] => .error .unterminatedComment
  | '*' :: '/' :: cs => skipTrivia cs
  | _ :: cs => skipComment cs

end

/-! ## Strings -/

/-- The character that hexadecimal digits name; a plus sign may precede them. -/
def charOfHex? (ds : List Char) : Option Char :=
  let digits := match ds with
    | '+' :: rest => rest
    | _ => ds
  (Number.natOfRadix? 16 digits).bind fun n =>
    if h : n.isValidChar then some (Char.ofNatAux n h) else none

/-- The character that a letter after a backslash stands for. -/
def escaped (c : Char) : Char :=
  if c = 'n' then '\n' else if c = 't' then '\t' else if c = 'r' then '\r'
  else if c = '0' then Char.ofNat 0 else c

/-- The rest of a string up to its closing quote. -/
def readString (quote : Char) : List Char → Except SyntaxError (List Char × List Char)
  | [] => .error .unterminatedString
  | ['\\'] => .error .unterminatedString
  | '\\' :: 'u' :: a :: b :: c :: d :: cs =>
    match charOfHex? [a, b, c, d] with
    | some x => (readString quote cs).map fun (s, rest) => (x :: s, rest)
    | none => .error (.escape [a, b, c, d])
  | '\\' :: 'u' :: cs =>
    if (charOfHex? cs).isSome then .error .unterminatedString else .error (.escape cs)
  | '\\' :: c :: cs => (readString quote cs).map fun (s, rest) => (escaped c :: s, rest)
  | c :: cs =>
    if c = quote then .ok ([], cs)
    else (readString quote cs).map fun (s, rest) => (c :: s, rest)

/-! ## Numbers -/

def isHexDigit (c : Char) : Bool := (Number.digitValue? 16 c).isSome

/-- The digits after `0x`. -/
def readHex (cs : List Char) : Except SyntaxError (Token × List Char) :=
  let digits := cs.takeWhile isHexDigit
  match (Number.natOfRadix? 16 digits).filter (· ≤ Number.maxNat64) with
  | some n => .ok (.number (Number.ofNat n), cs.dropWhile isHexDigit)
  | none => .error (.hexNumber digits)

/-- Digits and points, and an exponent mark with its digits. -/
def spanNumber (cs : List Char) : Except SyntaxError (List Char × List Char) :=
  let plain (c : Char) : Bool := c.isDigit || c == '.'
  let body := cs.takeWhile plain
  match cs.dropWhile plain with
  | [] => .ok (body, [])
  | e :: rest =>
    if e = 'e' ∨ e = 'E' then
      let (sign, rest) := match rest with
        | '+' :: more => (['+'], more)
        | '-' :: more => (['-'], more)
        | _ => ([], rest)
      let digits := rest.takeWhile Char.isDigit
      if digits.isEmpty then .error .exponentDigits
      else .ok (body ++ e :: sign ++ digits, rest.dropWhile Char.isDigit)
    else .ok (body, e :: rest)

def readDecimal (cs : List Char) : Except SyntaxError (Token × List Char) := do
  let (text, rest) ← spanNumber cs
  match Decimal.read? text with
  | some d => .ok (.number d.toFloat, rest)
  | none => .error (.number text)

def readNumber : List Char → Except SyntaxError (Token × List Char)
  | '0' :: 'x' :: cs => readHex cs
  | '0' :: 'X' :: cs => readHex cs
  | cs => readDecimal cs

/-! ## Tokens -/

/-- The longest symbol at the head. -/
def readSymbol? (cs : List Char) : Option (Token × List Char) :=
  (symbols.find? fun s => s.toList.isPrefixOf cs).map fun s =>
    (.symbol s, cs.drop s.toList.length)

/-- Whether a number starts here with its point. -/
def atPointNumber : List Char → Bool
  | '.' :: c :: _ => c.isDigit
  | _ => false

/-- The token that starts with the first character. -/
def readToken (c : Char) (cs : List Char) : Except SyntaxError (Token × List Char) :=
  if c = '"' ∨ c = '\'' then
    (readString c cs).map fun (s, rest) => (.string (String.ofList s), rest)
  else if c.toNat = 0x60 then .error .templateLiteral
  else if c.isDigit || atPointNumber (c :: cs) then readNumber (c :: cs)
  else if opensName c then
    .ok (.identifier (String.ofList ((c :: cs).takeWhile continuesName)),
      (c :: cs).dropWhile continuesName)
  else match readSymbol? (c :: cs) with
    | some r => .ok r
    | none => .error (.unexpectedCharacter c)

/-- The tokens of a text, with a bound on their number. -/
def scanUpTo : Nat → List Char → Except SyntaxError (List Token)
  | 0, _ => .ok []
  | n + 1, cs => do
    match ← skipTrivia cs with
    | [] => .ok []
    | c :: cs =>
      let (t, rest) ← readToken c cs
      let ts ← scanUpTo n rest
      .ok (t :: ts)

/-- The tokens of a text. Every token takes at least one character, so their number is below
    the bound. -/
def scan (cs : List Char) : Except SyntaxError (List Token) := scanUpTo (cs.length + 1) cs

end Token

end ColumnQuery
