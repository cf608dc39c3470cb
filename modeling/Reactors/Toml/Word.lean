import Reactors.Document
import Reactors.Decimal.Rounding
import Reactors.Text.Numeral

/-!
# The unquoted values of TOML

Truth values, numbers, dates and times are written without quotes.  Underscores may
stand between digits; whole numbers come in four bases and fit 64 bits with sign.  Dates and
times are checked, but no value of this library is one, so that they are illegible.

## Main definitions

* `isMoment` — dates and times.
* `integer?`, `float?` — numbers.
* `word?` — the value of a word.
-/

namespace Reactors
namespace Toml

open Text (isDigit isHexDigit valueOfDigits)

/-! ### Dates and times -/

/-- The number written by a text of exactly `count` digits. -/
def fixedDigits? (count : Nat) (s : List Char) : Option Nat :=
  if s.length = count ∧ s.all isDigit then some (valueOfDigits 10 s) else none

/-- Whether two digits write a number between two bounds. -/
def twoDigits (low high : Nat) (a b : Char) : Bool :=
  (fixedDigits? 2 [a, b]).any fun n => low ≤ n && n ≤ high

/-- A leap year has a 29th of February. -/
def isLeapYear (year : Nat) : Bool := year % 4 == 0 && (year % 100 != 0 || year % 400 == 0)

/-- How many days a month has. -/
def daysOfMonth (year month : Nat) : Nat :=
  if month = 2 then if isLeapYear year then 29 else 28
  else if month = 4 ∨ month = 6 ∨ month = 9 ∨ month = 11 then 30
  else 31

/-- A date: year, month and day. -/
def isDate : List Char → Bool
  | [a, b, c, d, '-', m, n, '-', x, y] =>
    match fixedDigits? 4 [a, b, c, d], fixedDigits? 2 [m, n] with
    | some year, some month =>
      1 ≤ month && month ≤ 12 && twoDigits 1 (daysOfMonth year month) x y
    | _, _ => false
  | _ => false

/-- A time of day: hours, minutes, seconds and a fraction. -/
def isTime : List Char → Bool
  | h :: i :: ':' :: m :: n :: ':' :: s :: t :: fraction =>
    twoDigits 0 23 h i && twoDigits 0 59 m n && twoDigits 0 60 s t &&
      match fraction with
      | [] => true
      | '.' :: digits => !digits.isEmpty && digits.all isDigit
      | _ => false
  | _ => false

/-- The distance from universal time: none, or hours and minutes behind a sign. -/
def isOffset : List Char → Bool
  | [] => true
  | ['Z'] => true
  | ['z'] => true
  | [sign, h, i, ':', m, n] =>
    (sign == '+' || sign == '-') && twoDigits 0 23 h i && twoDigits 0 59 m n
  | _ => false

/-- What a time of day is made of. -/
def isTimeChar (c : Char) : Bool := isDigit c || c == ':' || c == '.'

/-- A time of day with its distance from universal time. -/
def isZonedTime (s : List Char) : Bool :=
  isTime (s.takeWhile isTimeChar) && isOffset (s.dropWhile isTimeChar)

/-- A date, a time of day, or both. -/
def isMoment (s : List Char) : Bool :=
  isTime s ||
    (isDate (s.take 10) &&
      match s.drop 10 with
      | [] => true
      | c :: r => (c == 'T' || c == 't' || c == ' ') && isZonedTime r)

/-! ### Numbers -/

/-- The digits of a text in which single underscores may stand between digits. -/
def digits? (isDigit : Char → Bool) : List Char → Option (List Char)
  | [] => none
  | [c] => if isDigit c then some [c] else none
  | c :: '_' :: r => if isDigit c then (digits? isDigit r).map (c :: ·) else none
  | c :: r => if isDigit c then (digits? isDigit r).map (c :: ·) else none

/-- A sign in front of a number, and the text behind it. -/
def splitSign : List Char → Bool × List Char
  | '-' :: r => (true, r)
  | '+' :: r => (false, r)
  | s => (false, s)

/-- The digits of a decimal number in front of its fraction; no zero stands in front of others. -/
def whole? (s : List Char) : Option (List Char) := do
  let ds ← digits? isDigit s
  if ds.head? = some '0' ∧ ds ≠ ['0'] then none else some ds

/-- A whole number in another base, without sign. -/
def inBase? (base : Nat) (isDigit : Char → Bool) (s : List Char) : Option Int :=
  (digits? isDigit s).map fun ds => valueOfDigits base ds

/-- A whole number. -/
def integer? : List Char → Option Int
  | '0' :: 'x' :: r => inBase? 16 isHexDigit r
  | '0' :: 'o' :: r => inBase? 8 (fun c => '0' ≤ c && c ≤ '7') r
  | '0' :: 'b' :: r => inBase? 2 (fun c => c == '0' || c == '1') r
  | s =>
    let (negative, r) := splitSign s
    (whole? r).map fun ds =>
      if negative then -(valueOfDigits 10 ds : Int) else valueOfDigits 10 ds

/-- The digits of a fraction behind the point; a number without a point has none. -/
def fraction? : List Char → Option (List Char)
  | [] => some []
  | '.' :: r => digits? isDigit r
  | _ => none

/-- The exponent behind its letter, zero if there is none. -/
def exponent? : List Char → Option Int
  | [] => some 0
  | _ :: r =>
    let (negative, ds) := splitSign r
    (digits? isDigit ds).map fun ds =>
      if negative then -(valueOfDigits 10 ds : Int) else valueOfDigits 10 ds

/-- A number with a fraction or an exponent. -/
def decimal? (s : List Char) : Option Binary64 := do
  let (negative, r) := splitSign s
  let isMark (c : Char) : Bool := c == 'e' || c == 'E'
  let mantissa := r.takeWhile (!isMark ·)
  let whole ← whole? (mantissa.takeWhile (· != '.'))
  let fraction ← fraction? (mantissa.dropWhile (· != '.'))
  let exponent ← exponent? (r.dropWhile (!isMark ·))
  return Decimal.nearest negative (valueOfDigits 10 (whole ++ fraction))
    (exponent - fraction.length)

/-- A floating point number.  A positive number beyond the largest finite one is refused, a
negative one is negative infinity. -/
def float? (s : List Char) : Option Binary64 :=
  let (negative, r) := splitSign s
  if r = ['i', 'n', 'f'] then some (.infinity negative)
  else if r = ['n', 'a', 'n'] then some (.nan negative)
  else match decimal? s with
    | some x => if x = .infinity false then none else some x
    | none => none

/-! ### Words -/

/-- The value of a word. -/
def word? (s : List Char) : Option Document :=
  if s = ['t', 'r', 'u', 'e'] then some (.bool true)
  else if s = ['f', 'a', 'l', 's', 'e'] then some (.bool false)
  else if isMoment s then some .illegible
  else match integer? s with
    | some n => (Text.int64? n).map fun w => .integer w.toInt
    | none => (float? s).map .float

end Toml
end Reactors
