/-
  The scalar functions: functions of the values of one row.

  Every function takes any arguments: missing ones read as null, and what makes no sense gives
  null or not-a-number. Functions are looked up without regard to the case of ASCII letters.
-/
import ColumnQuery.Function.Text
import ColumnQuery.Number.Arithmetic
import ColumnQuery.Text.LetterCase
import ColumnQuery.Value.Order
import ColumnQuery.Value.Text

namespace ColumnQuery

inductive ScalarFunction where
  | abs | ceil | floor | round | trunc | sqrt | cbrt | exp | log | log10 | log2 | sign | pow
  | greatest | least
  | isNaN | isFinite | isValid | isNull | coalesce | equal
  | lower | upper | trim | length | substring | replace | startsWith | endsWith | includes
  | padStart | padEnd | split | parseFloat | parseInt
  | join | slice | has | keys | values | object
  | date | parseDate | year | month | dateOfMonth | dayOfWeek | hours | minutes | seconds
  | formatDate
deriving DecidableEq, Repr

namespace ScalarFunction

def all : List ScalarFunction :=
  [abs, ceil, floor, round, trunc, sqrt, cbrt, exp, log, log10, log2, sign, pow, greatest, least,
    isNaN, isFinite, isValid, isNull, coalesce, equal, lower, upper, trim, length, substring,
    replace, startsWith, endsWith, includes, padStart, padEnd, split, parseFloat, parseInt, join,
    slice, has, keys, values, object, date, parseDate, year, month, dateOfMonth, dayOfWeek, hours,
    minutes, seconds, formatDate]

def name : ScalarFunction → String
  | abs => "abs"
  | ceil => "ceil"
  | floor => "floor"
  | round => "round"
  | trunc => "trunc"
  | sqrt => "sqrt"
  | cbrt => "cbrt"
  | exp => "exp"
  | log => "log"
  | log10 => "log10"
  | log2 => "log2"
  | sign => "sign"
  | pow => "pow"
  | greatest => "greatest"
  | least => "least"
  | isNaN => "is_nan"
  | isFinite => "is_finite"
  | isValid => "is_valid"
  | isNull => "is_null"
  | coalesce => "coalesce"
  | equal => "equal"
  | lower => "lower"
  | upper => "upper"
  | trim => "trim"
  | length => "length"
  | substring => "substring"
  | replace => "replace"
  | startsWith => "startswith"
  | endsWith => "endswith"
  | includes => "includes"
  | padStart => "padstart"
  | padEnd => "padend"
  | split => "split"
  | parseFloat => "parse_float"
  | parseInt => "parse_int"
  | join => "join"
  | slice => "slice"
  | has => "has"
  | keys => "keys"
  | values => "values"
  | object => "object"
  | date => "date"
  | parseDate => "parse_date"
  | year => "year"
  | month => "month"
  | dateOfMonth => "date_of_month"
  | dayOfWeek => "dayofweek"
  | hours => "hours"
  | minutes => "minutes"
  | seconds => "seconds"
  | formatDate => "format_date"

/-- The least and the greatest number of arguments; without a greatest any number will do. -/
def arity : ScalarFunction → Nat × Option Nat
  | abs | ceil | floor | round | trunc | sqrt | cbrt | exp | log | log10 | log2 | sign =>
    (1, some 1)
  | pow => (2, some 2)
  | greatest | least => (0, none)
  | isNaN | isFinite | isValid | isNull => (1, some 1)
  | coalesce => (1, none)
  | equal => (2, some 2)
  | lower | upper | trim | length => (1, some 1)
  | substring => (2, some 3)
  | replace => (3, some 3)
  | startsWith | endsWith | includes => (2, some 2)
  | padStart | padEnd => (2, some 3)
  | split => (2, some 2)
  | parseFloat => (1, some 1)
  | parseInt => (1, some 2)
  | join => (1, some 2)
  | slice => (2, some 3)
  | has => (2, some 2)
  | keys | values | object => (1, some 1)
  | date => (1, some 7)
  | parseDate | year | month | dateOfMonth | dayOfWeek | hours | minutes | seconds => (1, some 1)
  | formatDate => (1, some 2)

/-- Whether a function takes `n` arguments. -/
def admits (f : ScalarFunction) (n : Nat) : Bool := f.arity.1 ≤ n && f.arity.2.all (n ≤ ·)

def lookup? (name : String) : Option ScalarFunction :=
  let lowered := String.ofList (name.toList.map Char.toLower)
  all.find? (·.name == lowered)

/-- The function that `Math.name` stands for. -/
def lookupMath? (name : String) : Option ScalarFunction :=
  if name = "max" then some greatest
  else if name = "min" then some least
  else if name = "random" then none
  else lookup? name

/-! ## Readings of arguments -/

def arg (args : List Value) (i : Nat) : Value := args[i]?.getD .null

/-- The text of an argument that is not null. -/
def text? (args : List Value) (i : Nat) : Option String :=
  match arg args i with
  | .null => none
  | v => some v.text

/-- The integer part of an argument that reads as a finite number. -/
def integer? (args : List Value) (i : Nat) : Option Int :=
  (arg args i).number?.bind fun x =>
    (Number.truncated? x).map fun _ => Number.toInt64 x

/-- A function of one number; null stays null. -/
def numeric (args : List Value) (f : Float → Float) : Value :=
  match arg args 0 with
  | .null => .null
  | v => .number (f v.toFloat)

def mapText (args : List Value) (f : String → Value) : Value :=
  match text? args 0 with
  | some s => f s
  | none => .null

def testText (args : List Value) (f : List Char → List Char → Bool) : Value :=
  match text? args 0, text? args 1 with
  | some s, some t => .boolean (f s.toList t.toList)
  | _, _ => .null

/-- The first valid argument that no other one precedes in the wanted direction. -/
def extreme (args : List Value) (wanted : Ordering) : Value :=
  let best := (args.filter Value.isValid).foldl (fun best v =>
    match best with
    | some b => if v.order b == wanted then some v else some b
    | none => some v) (none : Option Value)
  .ofOption best

/-! ## Texts and lists -/

/-- A position held between `0` and a length. -/
def clampPosition (length : Nat) (n : Int) : Nat := (max 0 (min (length : Int) n)).toNat

/-- A position that counts from the end if it is negative, held within a length. -/
def resolvePosition (length : Nat) (n : Int) : Nat :=
  if n < 0 then (max 0 ((length : Int) + n)).toNat else min n.toNat length

def substringOf (args : List Value) (s : String) : Value :=
  let cs := s.toList
  let start := ((integer? args 1).map (clampPosition cs.length)).getD 0
  let stop := ((integer? args 2).map (clampPosition cs.length)).getD cs.length
  .string (String.ofList (Text.between cs start stop))

/-- The items between two resolved positions. -/
def sliceOf (args : List Value) (items : List α) : List α :=
  let start := ((integer? args 1).map (resolvePosition items.length)).getD 0
  let stop := ((integer? args 2).map (resolvePosition items.length)).getD items.length
  (items.take (max start stop)).drop start

def padded (args : List Value) (atStart : Bool) (s : String) : Value :=
  let width := ((integer? args 1).getD 0).toNat
  let fill := (text? args 2).getD " "
  .string (String.ofList (Text.pad atStart width fill.toList s.toList))

def replaced (args : List Value) : Value :=
  match text? args 0, text? args 1, text? args 2 with
  | some s, some needle, some replacement =>
    .string (String.ofList (Text.replaceFirst needle.toList replacement.toList s.toList))
  | _, _, _ => .null

def splitText (args : List Value) : Value :=
  match text? args 0, text? args 1 with
  | some s, some sep =>
    .array ((Text.split sep.toList s.toList).map fun cs => .string (String.ofList cs))
  | _, _ => .null

def parsedInteger (args : List Value) (s : String) : Value :=
  let radix := (integer? args 1).getD 10
  if 2 ≤ radix ∧ radix ≤ 36 then
    .number (Text.leadingInteger radix.toNat (Text.trim s.toList))
  else .number Number.notANumber

def joinedText (args : List Value) : Value :=
  match arg args 0 with
  | .array items =>
    .string (String.intercalate ((text? args 1).getD ",")
      (items.map fun v => if v.isNull then "" else v.text))
  | _ => .null

/-- An object from a list of pairs of key and value; what is no pair is passed over. -/
def objectOf (entries : List Value) : Value :=
  .ofFields (entries.filterMap fun
    | .array (key :: rest) => some (key.text, rest.head?.getD .null)
    | _ => none)

/-! ## Dates -/

/-- The moment that an argument stands for. -/
def moment? (args : List Value) : Option Int :=
  match arg args 0 with
  | .date ms => some ms
  | .number x => (Number.truncated? x).map fun _ => Number.toInt64 x
  | .string s => Calendar.readMoment? s
  | _ => none

def dateTime? (args : List Value) : Option Calendar.DateTime :=
  (moment? args).bind Calendar.dateTime?

def datePart (args : List Value) (f : Calendar.DateTime → Int) : Value :=
  match dateTime? args with
  | some t => .number (Number.ofInt (f t))
  | none => .null

/-- A date from year, month (from `0`), day and time of day; each may overflow into the next
    larger one. All of it is 64-bit arithmetic, in which sums and products wrap around. -/
def dateOf (args : List Value) : Value :=
  let part (i : Nat) (default : Int) : Option Int :=
    match arg args i with
    | .null => some default
    | _ => integer? args i
  let moment := do
    let year ← integer? args 0
    let month ← part 1 0
    let day ← part 2 1
    let hours ← part 3 0
    let minutes ← part 4 0
    let seconds ← part 5 0
    let millis ← part 6 0
    let first ← Calendar.civilDate? (Number.wrapInt64 (year + month / 12))
      ((month % 12).toNat + 1) 1
    let offset := (day - 1) * 86400000 + hours * 3600000 + minutes * 60000 + seconds * 1000 + millis
    return Number.wrapInt64 (Calendar.startOfDay first + offset)
  match moment with
  | some ms => .date ms
  | none => .null

def formattedDate (args : List Value) : Value :=
  match dateTime? args with
  | some t => .string (if (arg args 1).truthy then t.date.text else t.text)
  | none => .null

/-! ## Application -/

def apply (f : ScalarFunction) (args : List Value) : Value :=
  match f with
  | abs => numeric args Float.abs
  | ceil => numeric args Float.ceil
  | floor => numeric args Float.floor
  | round => numeric args Number.round
  | trunc => numeric args Number.trunc
  | sqrt => numeric args Float.sqrt
  | cbrt => numeric args Number.cubeRoot
  | exp => numeric args Float.exp
  | log => numeric args Float.log
  | log10 => numeric args Float.log10
  | log2 => numeric args Float.log2
  | sign => numeric args Number.sign
  | pow =>
    match arg args 0, arg args 1 with
    | .null, _ | _, .null => .null
    | a, b => .number (Float.pow a.toFloat b.toFloat)
  | greatest => extreme args .gt
  | least => extreme args .lt
  | isNaN =>
    match arg args 0 with
    | .number x => .boolean x.isNaN
    | _ => .boolean false
  | isFinite =>
    match arg args 0 with
    | .number x => .boolean (Number.truncated? x).isSome
    | _ => .boolean false
  | isValid => .boolean (arg args 0).isValid
  | isNull => .boolean (arg args 0).isNull
  | coalesce => .ofOption (args.find? fun v => !v.isNull)
  | equal => .boolean ((arg args 0).same (arg args 1))
  | lower => mapText args fun s => .string (Text.lower s)
  | upper => mapText args fun s => .string (Text.upper s)
  | trim => mapText args fun s => .string (String.ofList (Text.trim s.toList))
  | length =>
    match arg args 0 with
    | .null => .null
    | .array items => .ofNat items.length
    | v => .ofNat v.text.length
  | substring => mapText args (substringOf args)
  | replace => replaced args
  | startsWith => testText args fun s t => t.isPrefixOf s
  | endsWith => testText args fun s t => t.isSuffixOf s
  | includes =>
    match arg args 0 with
    | .null => .null
    | .array items => .boolean ((arg args 1).occursIn items)
    | _ => testText args fun s t => Text.occursIn t s
  | padStart => mapText args (padded args true)
  | padEnd => mapText args (padded args false)
  | split => splitText args
  | parseFloat => mapText args fun s => .number (Text.leadingNumber (Text.trimLeft s.toList))
  | parseInt => mapText args (parsedInteger args)
  | join => joinedText args
  | slice =>
    match arg args 0 with
    | .null => .null
    | .array items => .array (sliceOf args items)
    | v => .string (String.ofList (sliceOf args v.text.toList))
  | has =>
    match arg args 0, text? args 1 with
    | .object entries, some key => .boolean (Value.field? entries key).isSome
    | .null, _ => .null
    | _, _ => .boolean false
  | keys =>
    match arg args 0 with
    | .object entries => .array (entries.map fun e => .string e.1)
    | _ => .null
  | values =>
    match arg args 0 with
    | .object entries => .array (entries.map fun e => e.2)
    | _ => .null
  | object =>
    match arg args 0 with
    | .array entries => objectOf entries
    | _ => .null
  | date => dateOf args
  | parseDate =>
    match (text? args 0).bind Calendar.readMoment? with
    | some ms => .date ms
    | none => .null
  | year => datePart args fun t => t.date.year
  | month => datePart args fun t => t.date.month - 1
  | dateOfMonth => datePart args fun t => t.date.day
  | dayOfWeek => datePart args fun t => t.weekday
  | hours => datePart args fun t => t.hour
  | minutes => datePart args fun t => t.minute
  | seconds => datePart args fun t => t.second
  | formatDate => formattedDate args

end ScalarFunction

end ColumnQuery
