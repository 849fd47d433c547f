import MisuseSlice.KeyMaterial.Der
import MisuseSlice.KeyMaterial.Encoding
import MisuseSlice.Text.Base64

/-!
RSA keys: public keys with their algorithm, and private keys with or without it. Only the size of the modulus
is of interest, but a private key counts only if its numbers fit together.
-/
namespace MisuseSlice.KeyMaterial

open Der

/-- The encoded name of the RSA algorithm. -/
def rsaName : Text.Bytes := [0x2A, 0x86, 0x48, 0x86, 0xF7, 0x0D, 0x01, 0x01, 0x01]

/-- The number of binary digits. -/
def bitLength (n : Nat) : Nat := if n = 0 then 0 else Nat.log2 n + 1

/-- An algorithm: its name and the parameters, which may be missing. -/
private def algorithm? (bs : Text.Bytes) : Option ((Text.Bytes × Text.Bytes) × Text.Bytes) := do
  let (content, rest) ← sequence? bs
  let (name, parameters) ← expect? 6 content
  if parameters.isEmpty then some ((name, []), rest)
  else
    let (_, _, more) ← element? parameters
    some ((name, parameters.take (parameters.length - more.length)), rest)

/-- The modulus size of a public key: the algorithm without parameters, then modulus and exponent as
bits. -/
def publicKeyBits? (bs : Text.Bytes) : Option Nat := do
  let (key, after) ← sequence? bs
  let ((name, parameters), rest) ← algorithm? key
  let (padded, _) ← expect? 3 rest
  let bits ← bits? padded
  if !after.isEmpty || name != rsaName || parameters != [5, 0] then none
  else
    let (numbers, _) ← sequence? bits
    let (modulus, numbers) ← integer? numbers
    let (exponent, _) ← word? numbers
    if 0 < modulus && 0 < exponent then some (bitLength modulus.toNat) else none

/-- The numbers of a private key. -/
structure PrivateKey where
  modulus : Nat
  publicExponent : Nat
  privateExponent : Nat
  /-- The first two factors. -/
  factors : Nat × Nat
  /-- The private exponent reduced for each of the two factors, and the inverse of the second factor modulo
  the first. -/
  shortcuts : Option (Nat × Nat × Nat)
  /-- Any further factors. -/
  moreFactors : List Nat
  deriving Repr

/-- A power of `b` modulo `m`. -/
def powMod (b e m : Nat) : Nat :=
  if e = 0 then 1 % m
  else
    let half := powMod (b * b % m) (e / 2) m
    if e % 2 = 1 then half * b % m else half
termination_by e
decreasing_by omega

namespace PrivateKey

/-- The public numbers are acceptable: an odd modulus, and an odd exponent in range. -/
def publicFits (k : PrivateKey) : Bool :=
  1 < k.modulus && k.modulus % 2 == 1 && 2 ≤ k.publicExponent && k.publicExponent % 2 == 1 &&
    k.publicExponent < 0x80000000 && k.privateExponent < k.modulus

/-- The numbers fit together with the given shortcuts. Factors that are close to each other and short private
exponents are refused. -/
def fitsWith (k : PrivateKey) (shortcuts : Nat × Nat × Nat) : Bool :=
  let (p, q) := k.factors
  let (dp, dq, inverse) := shortcuts
  let inverts (d r : Nat) : Bool := d < r - 1 && k.publicExponent * d % (r - 1) == 1
  let size := bitLength k.modulus
  k.publicFits && 2 < p && 2 < q && p < k.modulus && q < k.modulus && p * q % k.modulus == 0 &&
    inverts dp p && inverts dq q && inverse < p && inverse * q % p == 1 && p != q &&
    size / 2 < bitLength (max p q - min p q) + 100 && size / 2 < bitLength k.privateExponent

/-- The shortcuts that the private exponent and the factors give; the first factor has to be odd. -/
def ownShortcuts? (k : PrivateKey) : Option (Nat × Nat × Nat) :=
  let (p, q) := k.factors
  if p < 3 || q < 3 || p % 2 == 0 then none
  else some (k.privateExponent % (p - 1), k.privateExponent % (q - 1), powMod q (p - 2) p)

/-- The factors of a key with more than two are greater than one and have no factor in common. -/
def factorsFit (k : PrivateKey) : Bool :=
  let (p, q) := k.factors
  1 < p && 1 < q && Nat.gcd q p == 1 &&
    (k.moreFactors.foldl (fun (fits, product) r => (fits && 1 < r && Nat.gcd product r == 1, product * r))
      (true, p * q)).1

/-- The numbers of the key fit together. Shortcuts that do not fit are replaced by the key's own. -/
def isValid (k : PrivateKey) : Bool :=
  if k.moreFactors.isEmpty then
    (k.shortcuts.map k.fitsWith).getD false || (k.ownShortcuts?.map k.fitsWith).getD false
  else k.publicFits && k.factorsFit

end PrivateKey

/-- A positive number. -/
private def positive? (n : Int) : Option Nat := if 0 < n then some n.toNat else none

/-- A positive number, or a missing one. -/
private def optionalPositive? : Option Int → Option (Option Nat)
  | none => some none
  | some n => (positive? n).map some

/-- A further factor, with its own shortcuts, which are not used. -/
private def furtherFactor? (bs : Text.Bytes) : Option (Int × Text.Bytes) := do
  let (content, rest) ← sequence? bs
  let (factor, more) ← integer? content
  let (_, more) ← integer? more
  let _ ← integer? more
  some (factor, rest)

/-- The private key of a sequence: version, modulus, exponents and factors, then optional numbers. -/
def privateKey? (bs : Text.Bytes) : Option PrivateKey := do
  let (key, after) ← sequence? bs
  let (version, key) ← word? key
  let (n, key) ← integer? key
  let (e, key) ← word? key
  let (d, key) ← integer? key
  let (p, key) ← integer? key
  let (q, key) ← integer? key
  let (dp, key) ← optionalInteger? key
  let (dq, key) ← optionalInteger? key
  let (inverse, key) ← optionalInteger? key
  let (more, _) ← optional? 0x30 key
  let further ← many? furtherFactor? ((more.getD []).length + 1) (more.getD [])
  if !after.isEmpty || 1 < version then none
  else
    let dp ← optionalPositive? dp
    let dq ← optionalPositive? dq
    let inverse ← optionalPositive? inverse
    some {
      modulus := ← positive? n
      publicExponent := e.toNat
      privateExponent := ← positive? d
      factors := (← positive? p, ← positive? q)
      shortcuts :=
        match dp, dq, inverse with
        | some a, some b, some c => some (a, b, c)
        | _, _, _ => none
      moreFactors := ← further.mapM positive? }

/-- The modulus size of a private key whose numbers fit together. -/
def privateKeyBits? (bs : Text.Bytes) : Option Nat :=
  (privateKey? bs).bind fun k => if k.isValid then some (bitLength k.modulus) else none

/-- The modulus size of a private key that stands with its algorithm. -/
def wrappedKeyBits? (bs : Text.Bytes) : Option Nat := do
  let (key, _) ← sequence? bs
  let (_, key) ← word? key
  let ((name, _), key) ← algorithm? key
  let (content, _) ← expect? 4 key
  if name == rsaName then privateKeyBits? content else none

/-- The modulus size of an RSA key in any of these forms (`rsaKeyBits`). -/
def keyBits? (bs : Text.Bytes) : Option Nat :=
  publicKeyBits? bs <|> wrappedKeyBits? bs <|> privateKeyBits? bs

/-- The modulus size of an RSA key written in base 64 or in hexadecimal digits (`rsaModulusBits`). -/
def modulusBits? (s : String) : Option Nat :=
  let cs := withoutLineEnds s.toList
  (Text.base64? cs).bind keyBits? <|> (hex? cs).bind keyBits?

end MisuseSlice.KeyMaterial
