/-
  Tokens of expression text, and what can be wrong with such a text.

  Symbols are matched longest first. A name starts with a letter, `_` or `$` and goes on with
  these and numerals.
-/
import ColumnQuery.Number.Text
import ColumnQuery.Text.Letter
import ColumnQuery.Text.Quoted

namespace ColumnQuery

inductive Token where
  | identifier (name : String)
  | number (x : Float)
  | string (s : String)
  | symbol (s : String)
deriving Inhabited

namespace Token

/-- How a token shows in messages. -/
def text : Token → String
  | identifier name => "Identifier(" ++ Text.quoted name ++ ")"
  | number x => "Number(" ++ Number.tokenText x ++ ")"
  | string s => "String(" ++ Text.quoted s ++ ")"
  | symbol s => "Punct(" ++ Text.quoted s ++ ")"

/-- How the first of the remaining tokens shows; past the last one that is the end. -/
def headText : List Token → String
  | [] => "Eof"
  | t :: _ => t.text

/-- The symbols, those of more characters first. -/
def symbols : List String :=
  [">>>=", "===", "!==", "**=", ">>>", "<<=", ">>=", "=>", "==", "!=", "<=", ">=", "&&", "||",
    "??", "**", "++", "--", "+=", "-=", "*=", "/=", "%=", "&=", "|=", "^=", "<<", ">>", "(", ")",
    "[", "]", "\x7b", "\x7d", ",", ";", ":", ".", "?", "+", "-", "*", "/", "%", "!", "~", "<",
    ">", "=", "&", "|", "^"]

def opensName (c : Char) : Bool := Text.isLetter c || c == '_' || c == '$'

def continuesName (c : Char) : Bool := Text.isLetterOrNumeral c || c == '_' || c == '$'

/-- Whether a text is a name. -/
def isName (s : String) : Bool :=
  match s.toList with
  | [] => false
  | c :: cs => opensName c && cs.all continuesName

end Token

/-- What is wrong with an expression text. -/
inductive SyntaxError where
  | unterminatedComment
  | unterminatedString
  | templateLiteral
  | unexpectedCharacter (c : Char)
  | hexNumber (digits : List Char)
  | exponentDigits
  | number (text : List Char)
  | escape (digits : List Char)
  | expected (what : String) (found : List Token)
  | expectedName (found : List Token)
  | trailing (found : List Token)
  | noExpression (found : List Token)
  | destructuringKey (found : List Token)
  | unterminatedBlock
  | unbalancedParentheses
  | computedKey
  | objectKey (found : List Token)
  | colonAfterKey (key : String)
  | tooDeep

namespace SyntaxError

def message : SyntaxError → String
  | unterminatedComment => "unterminated comment"
  | unterminatedString => "unterminated string"
  | templateLiteral => "template literals are not supported"
  | unexpectedCharacter c => "unexpected character " ++ Text.quotedSingle c
  | hexNumber digits => "invalid hex literal 0x" ++ String.ofList digits
  | exponentDigits => "invalid number (expected exponent digits)"
  | number text => "invalid number " ++ Text.quoted (String.ofList text)
  | escape digits => "invalid escape \\u" ++ String.ofList digits
  | expected what found => "expected \x60" ++ what ++ "\x60, found " ++ Token.headText found
  | expectedName found => "expected identifier, found " ++ Token.headText found
  | trailing found => "unexpected token " ++ Token.headText found
  | noExpression found => "unexpected token in expression: " ++ Token.headText found
  | destructuringKey found => "invalid destructuring key " ++ Token.headText found
  | unterminatedBlock => "unterminated block"
  | unbalancedParentheses => "unbalanced parentheses"
  | computedKey => "computed object keys are not supported"
  | objectKey found => "invalid object key " ++ Token.headText found
  | colonAfterKey key => "expected \x60:\x60 after object key " ++ Text.quoted key
  | tooDeep => "expression too deep"

end SyntaxError

end ColumnQuery
