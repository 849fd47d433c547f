import MisuseSlice.Text.Utf8

/-!
Bytes written as text in base 64: three bytes are four digits, and the last group is padded.
-/
namespace MisuseSlice.Text

/-- The value of a base 64 digit. -/
def sextet? (c : Char) : Option Nat :=
  if 'A' ≤ c ∧ c ≤ 'Z' then some (c.toNat - 65)
  else if 'a' ≤ c ∧ c ≤ 'z' then some (c.toNat - 71)
  else if '0' ≤ c ∧ c ≤ '9' then some (c.toNat + 4)
  else if c = '+' then some 62
  else if c = '/' then some 63
  else none

/-- The bytes of the digits without padding; a last group of two or three digits gives one or two bytes. -/
def sextetBytes : List Nat → Option Bytes
  | a :: b :: c :: d :: rest =>
    let n := a * 262144 + b * 4096 + c * 64 + d
    (sextetBytes rest).map fun bs => (n / 65536).toUInt8 :: (n / 256).toUInt8 :: n.toUInt8 :: bs
  | [a, b, c] =>
    let n := a * 4096 + b * 64 + c
    some [(n / 1024).toUInt8, (n / 4).toUInt8]
  | [a, b] => some [(a * 4 + b / 16).toUInt8]
  | [_] => none
  | [] => some []

/-- The bytes of a text in base 64, which is padded to groups of four. -/
def base64? (cs : List Char) : Option Bytes :=
  let digits := cs.takeWhile (· != '=')
  let padding := cs.dropWhile (· != '=')
  if 2 < padding.length || !padding.all (· == '=') || cs.length % 4 != 0 then none
  else (digits.mapM sextet?).bind sextetBytes

/-- The base 64 digit with a value. -/
def sextetDigit (n : Nat) : Char :=
  if n < 26 then Char.ofNat (n + 65)
  else if n < 52 then Char.ofNat (n + 71)
  else if n < 62 then Char.ofNat (n - 4)
  else if n == 62 then '+'
  else '/'

/-- The text of bytes in base 64. -/
def toBase64 : Bytes → List Char
  | a :: b :: c :: rest =>
    let n := a.toNat * 65536 + b.toNat * 256 + c.toNat
    [n / 262144, n / 4096 % 64, n / 64 % 64, n % 64].map sextetDigit ++ toBase64 rest
  | [a, b] =>
    let n := a.toNat * 1024 + b.toNat * 4
    [n / 4096, n / 64 % 64, n % 64].map sextetDigit ++ ['=']
  | [a] => [a.toNat / 4, a.toNat % 4 * 16].map sextetDigit ++ ['=', '=']
  | [] => []

end MisuseSlice.Text
