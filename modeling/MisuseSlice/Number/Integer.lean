import MisuseSlice.Text.Basic

/-!
Reading integers. A numeral may carry a sign; with base 0 the base is told by a mark at its start
(`0x`, `0o`, `0b`, or a plain `0` for octal), and underscores may then stand between digits.
-/
namespace MisuseSlice.Number

/-- Why a text is no integer of the wanted size. -/
inductive IntegerError where
  | malformed
  | outOfRange
  | badBase
  deriving DecidableEq, Repr

/-- The value of a digit or letter as a digit: `0`-`9`, then `a`-`z` in either case. -/
def digit? (c : Char) : Option Nat :=
  if '0' ≤ c ∧ c ≤ '9' then some (c.toNat - 48)
  else if 'a' ≤ c ∧ c ≤ 'z' then some (c.toNat - 87)
  else if 'A' ≤ c ∧ c ≤ 'Z' then some (c.toNat - 55)
  else none

/-- A decimal digit. -/
def isDecimal (c : Char) : Bool :=
  '0' ≤ c && c ≤ '9'

/-- The number that the digits denote in the base, or `none` when one is no digit of it. -/
def digitsValue? (base : Nat) (cs : List Char) : Option Nat :=
  cs.foldl (fun acc c =>
    match acc, digit? c with
    | some n, some d => if d < base then some (n * base + d) else none
    | _, _ => none) (some 0)

/-- The number that decimal digits denote. -/
def decimalValue (cs : List Char) : Nat :=
  cs.foldl (fun n c => n * 10 + (c.toNat - 48)) 0

/-- What the last character read was, when checking underscores. -/
private inductive Seen where
  | start | digit | underscore | other
  deriving DecidableEq

/-- Underscores stand between digits only; a base mark counts as a digit. -/
def underscoresSeparate (cs : List Char) : Bool :=
  let body (hex : Bool) (before : Seen) (rest : List Char) : Bool :=
    let step (acc : Bool × Seen) (c : Char) : Bool × Seen :=
      let (ok, last) := acc
      let isDigit := isDecimal c || (hex && (match digit? c with | some d => d < 16 | none => false))
      if isDigit then (ok, .digit)
      else if c = '_' then (ok && last == .digit, .underscore)
      else (ok && last != .underscore, .other)
    let (ok, last) := rest.foldl step (true, before)
    ok && last != .underscore
  match cs with
  | '0' :: m :: rest =>
    if m = 'b' ∨ m = 'B' ∨ m = 'o' ∨ m = 'O' then body false .digit rest
    else if m = 'x' ∨ m = 'X' then body true .digit rest
    else body false .start cs
  | _ => body false .start cs

/-- The base that a mark at the start tells, and the digits after it. -/
def markedBase (cs : List Char) : Nat × List Char :=
  match cs with
  | '0' :: m :: d :: rest =>
    if m = 'b' ∨ m = 'B' then (2, d :: rest)
    else if m = 'o' ∨ m = 'O' then (8, d :: rest)
    else if m = 'x' ∨ m = 'X' then (16, d :: rest)
    else (8, m :: d :: rest)
  | '0' :: rest => (8, rest)
  | _ => (10, cs)

/-- Reads an unsigned numeral of any size. -/
def natural (base : Int) (cs : List Char) : Except IntegerError Nat :=
  if cs.isEmpty then .error .malformed
  else if base = 0 then
    let (b, digits) := markedBase cs
    match digitsValue? b (digits.filter (· ≠ '_')) with
    | none => .error .malformed
    | some n => if underscoresSeparate cs then .ok n else .error .malformed
  else if base < 2 ∨ 36 < base then .error .badBase
  else
    match digitsValue? base.toNat cs with
    | none => .error .malformed
    | some n => .ok n

/-- Reads a signed numeral that fits in `bits` bits of two's complement. -/
def integer (base : Int) (bits : Nat) (s : List Char) : Except IntegerError Int :=
  let (negative, digits) : Bool × List Char :=
    match s with
    | '+' :: rest => (false, rest)
    | '-' :: rest => (true, rest)
    | _ => (false, s)
  match natural base digits with
  | .error e => .error e
  | .ok n =>
    if negative then (if n ≤ Nat.pow 2 (bits - 1) then .ok (-(n : Int)) else .error .outOfRange)
    else (if n < Nat.pow 2 (bits - 1) then .ok (n : Int) else .error .outOfRange)

/-- Reads a decimal machine word. -/
def word? (s : String) : Option Int :=
  (integer 10 64 s.toList).toOption

end MisuseSlice.Number
