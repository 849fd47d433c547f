import MisuseSlice.Document.Token
import MisuseSlice.Number.Binary64
import MisuseSlice.Text.Base64

/-!
What a scalar means. A plain scalar may be null, a truth value, an integer, a floating point number
or a date; every other scalar is text. A tag can ask for one of these readings, or say that bytes are written in
base 64.
-/
namespace MisuseSlice.Document

/-- The meaning of a scalar. -/
inductive ScalarValue where
  | null
  | bool (b : Bool)
  | int (n : Int)
  /-- A number, or `none` for the upper infinity or a quantity that is no number. -/
  | float (q : Option Rat)
  /-- The infinity below all numbers. -/
  | lowest
  | date
  | text
  /-- Bytes that need not be a text. -/
  | binary (bs : Text.Bytes)
  deriving DecidableEq

private def isDigit (c : Char) : Bool := Number.isDecimal c

/-- The floating point number that a decimal text with an optional sign is rounded to. -/
private def floatOf? (cs : List Char) : Option Rat :=
  match cs with
  | '+' :: '-' :: _ => none
  | '+' :: r => Number.binary64? r
  | _ => Number.binary64? cs

/-- An unsigned or signed integer of at most 64 bits. -/
private def wordIn? (base : Nat) (cs : List Char) : Option Int :=
  match Number.integer base 64 cs with
  | .ok n => some n
  | .error _ =>
    match Number.natural base cs with
    | .ok n => if n < 0x10000000000000000 then some n else none
    | .error _ => none

/-- An integer of at most 64 bits with an optional base mark; the sign may also follow the mark of
base two or eight. -/
private def wordOf? (cs : List Char) : Option Int :=
  match wordIn? 0 cs with
  | some n => some n
  | none =>
    match cs with
    | '0' :: 'b' :: digits => wordIn? 2 digits
    | '0' :: 'o' :: digits => wordIn? 8 digits
    | _ => none

/-- A number of one or two digits within bounds. -/
private def shortNumber? (low high : Nat) (cs : List Char) : Bool :=
  (cs.length == 1 || cs.length == 2) && cs.all isDigit &&
    (let n := Number.decimalValue cs
     low ≤ n && n ≤ high)

private def daysIn (year month : Nat) : Nat :=
  if month == 2 then
    (if year % 4 == 0 && (year % 100 != 0 || year % 400 == 0) then 29 else 28)
  else if month == 4 || month == 6 || month == 9 || month == 11 then 30
  else 31

/-- A time of day with optional fractional seconds. -/
private def isTime (cs : List Char) : Bool :=
  match cs.splitOn ':' with
  | [h, m, s] =>
    let seconds := s.takeWhile isDigit
    let fraction :=
      match s.dropWhile isDigit with
      | [] => true
      | c :: r => (c == '.' || c == ',') && !r.isEmpty && r.all isDigit
    shortNumber? 0 23 h && shortNumber? 0 59 m && shortNumber? 0 59 seconds && fraction
  | _ => false

/-- What stands before a zone: `Z`, or a sign with hours and minutes, of which 24 and 60 are still allowed. -/
private def splitZone? (cs : List Char) : Option (List Char) :=
  match cs.reverse with
  | 'Z' :: r => some r.reverse
  | d :: c :: ':' :: b :: a :: s :: r =>
    if (s == '+' || s == '-') && shortNumber? 0 24 [a, b] && shortNumber? 0 60 [c, d] then some r.reverse else none
  | _ => none

/-- A date of the form `2006-1-2`, or one with a time after `T`, `t` or spaces. A time has a zone unless it comes
after spaces. -/
def isDate (s : String) : Bool :=
  let cs := s.toList
  let year := cs.takeWhile isDigit
  match cs.dropWhile isDigit with
  | '-' :: r =>
    let month := r.takeWhile isDigit
    match r.dropWhile isDigit with
    | '-' :: r =>
      let day := r.takeWhile isDigit
      let clock :=
        match r.dropWhile isDigit with
        | [] => true
        | ' ' :: t => isTime (t.dropWhile (· == ' '))
        | 'T' :: t => (match splitZone? t with | some t => isTime t | none => false)
        | 't' :: t => (match splitZone? t with | some t => isTime t | none => false)
        | _ => false
      year.length == 4 && shortNumber? 1 12 month &&
        shortNumber? 1 (daysIn (Number.decimalValue year) (Number.decimalValue month)) day && clock
    | _ => false
  | _ => false

/-- The meaning of a plain scalar without a tag. -/
def plainValue (s : String) : ScalarValue :=
  if ["", "~", "null", "Null", "NULL"].contains s then .null
  else if ["true", "True", "TRUE"].contains s then .bool true
  else if ["false", "False", "FALSE"].contains s then .bool false
  else if [".nan", ".NaN", ".NAN", ".inf", ".Inf", ".INF", "+.inf", "+.Inf", "+.INF"].contains s
  then .float none
  else if ["-.inf", "-.Inf", "-.INF"].contains s then .lowest
  else
    match s.toList with
    | [] => .null
    | c :: _ =>
      if c == '.' then
        match if Number.underscoresSeparate s.toList then floatOf? (s.toList.filter (· != '_')) else none with
        | some q => .float (some q)
        | none => .text
      else if isDigit c || c == '+' || c == '-' then
        if isDate s then .date
        else
          let cs := s.toList.filter (· != '_')
          match wordOf? cs with
          | some n => .int n
          | none =>
            match floatOf? cs with
            | some q => .float (some q)
            | none => .text
      else .text

/-- The tag of a meaning. -/
def ScalarValue.tag : ScalarValue → String
  | .null => "!!null"
  | .bool _ => "!!bool"
  | .int _ => "!!int"
  | .float _ | .lowest => "!!float"
  | .date => "!!timestamp"
  | .text => "!!str"
  | .binary _ => "!!binary"

/-- The tags that ask for a reading other than text. -/
def readingTags : List String := ["!!bool", "!!int", "!!float", "!!null", "!!timestamp"]

/-- The bytes of a scalar in base 64, in which line ends do not count. -/
def binary? (text : String) : Option Text.Bytes :=
  Text.base64? (text.toList.filter fun c => c != '\r' && c != '\n')

/-- The meaning of a scalar with its style and tag; `none` where the tag asks for another reading
than the text has. -/
def scalarValue? (text : String) (style : Style) (tag : String) : Option ScalarValue :=
  if tag == "" then some (if style == .plain then plainValue text else .text)
  else if tag == "!!binary" then (binary? text).map .binary
  else if !readingTags.contains tag then some .text
  else
    let v := plainValue text
    if v.tag == tag then some v
    else
      match v with
      | .int n => if tag == "!!float" && n < 0x8000000000000000 then some (.float (Number.nearestBinary64? n)) else none
      | _ => none

end MisuseSlice.Document
