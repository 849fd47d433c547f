import MisuseSlice.Text.Blank
import MisuseSlice.Text.Regex.Parser

/-!
Names of cryptographic algorithms. A recognized name belongs to one of the standard engines: ciphers,
key factories, random generators, key agreements, digests or authentication codes. A cipher may be
written as a transformation `algorithm/mode/padding`.
-/
namespace MisuseSlice.Algorithm

/-- The ways to combine a cipher with an authentication code. -/
def schemeTypes : List String := ["encrypt-then-mac", "mac-then-encrypt", "encrypt-and-mac"]

/-- The text names a combination of cipher and authentication code. -/
def isSchemeType (s : String) : Bool := schemeTypes.contains s

/-- Ciphers, in lower case. -/
def ciphers : List String :=
  ["aes", "aes_128", "aes_192", "aes_256", "aeswrap", "aeswrap_128", "aeswrap_192", "aeswrap_256",
    "arcfour", "rc4", "blowfish", "chacha20", "chacha20-poly1305", "des", "desede", "tripledes",
    "desedewrap", "ecies", "rc2", "rc5", "rsa", "rsa/ecb", "sm4", "twofish", "camellia", "seed",
    "idea"]

/-- Modes of operation. -/
def modes : List String :=
  ["none", "cbc", "ccm", "cfb", "ctr", "cts", "ecb", "gcm", "ofb", "pcbc", "kw", "kwp", "gcm-siv",
    "poly1305"]

/-- Paddings. -/
def paddings : List String :=
  ["nopadding", "iso10126padding", "oaeppadding", "pkcs1padding", "pkcs5padding", "pkcs7padding",
    "ssl3padding", "zerobytepadding", "iso7816-4padding"]

/-- Names of the engines other than ciphers. -/
def others : List String :=
  ["aes", "arcfour", "des", "desede", "tripledes", "sha1prng", "nativeprng", "nativeprngblocking",
    "nativeprngnonblocking", "drbg", "windows-prng", "diffiehellman", "dh", "ecdh", "ecmqv",
    "x25519", "x448", "xdh", "md2", "md4", "md5", "sha", "sha1", "sha-1", "sha-224", "sha-256",
    "sha-384", "sha-512", "sha224", "sha256", "sha384", "sha512", "sha-512/224", "sha-512/256",
    "sha3-224", "sha3-256", "sha3-384", "sha3-512", "hmacmd5", "hmacsha1", "hmacsha224",
    "hmacsha256", "hmacsha384", "hmacsha512", "hmacsha512/224", "hmacsha512/256", "hmacsha3-224",
    "hmacsha3-256", "hmacsha3-384", "hmacsha3-512", "hmacpbesha1", "hmacpbesha256", "aescmac"]

private def fits (r : Option Text.Regex) (s : String) : Bool :=
  match r with
  | some r => r.matchesIn s
  | none => false

private def sizedMode : Option Text.Regex := Text.Regex.read? "^(cfb|ofb)\\d+$"
private def oaepPadding : Option Text.Regex := Text.Regex.read? "^oaepwith[a-z0-9-]+and[a-z0-9]+padding$"
private def passwordBased : Option Text.Regex := Text.Regex.read? "^pbewith[a-z0-9]+and[a-z0-9_-]+$"
private def derivation : Option Text.Regex :=
  Text.Regex.read? "^pbkdf2with(hmac)?[a-z0-9-]+(and[a-z0-9]+)?$"

/-- A cipher, alone or with mode and padding, in lower case (`isCipherTransformation`). -/
def isTransformation (t : String) : Bool :=
  match Text.pieces t '/' with
  | [_] => ciphers.contains t || fits passwordBased t
  | [algorithm, mode, padding] =>
    (ciphers.contains algorithm || fits passwordBased algorithm) &&
      (modes.contains mode || fits sizedMode mode) &&
      (paddings.contains padding || fits oaepPadding padding)
  | _ => false

/-- The text is a standard name of one of the engines, white space at its ends and case apart. -/
def isRecognized (s : String) : Bool :=
  let t := Text.lower (Text.trim s)
  t != "" &&
    (isTransformation t || others.contains t || fits passwordBased t || fits derivation t)

/-- What a target algorithm of a rule matches (`algorithmPattern`): `ALG` matches the name and its
transformations, and `ALG-X` those of them that do not mention `X`. -/
structure Pattern where
  name : String
  /-- The part that may not be mentioned, in lower case. -/
  excluded : String
  regex : Text.Regex
  deriving Repr

/-- The pattern of a target algorithm, or `none` where its name is no regular expression (`compileAlgorithm`). -/
def Pattern.read? (name : String) : Option Pattern :=
  let (start, excluded) := (Text.cut? name "-").getD (name, "")
  (Text.Regex.read? ("(?i)^(" ++ start ++ ")?(/.*)?$")).map fun regex =>
    { name, excluded := Text.lower excluded, regex }

/-- A token is a recognized algorithm that the pattern matches. -/
def Pattern.accepts (p : Pattern) (token : String) : Bool :=
  if token == "" || !isRecognized token then false
  else if Text.sameUpToCase token p.name then true
  else
    let shout := Text.upper token
    if Text.contains shout "PBE" && Text.contains shout (Text.upper p.name) then true
    else if !p.regex.matchesIn token then false
    else p.excluded == "" || !Text.contains (Text.lower token) p.excluded

/-- Some token matches some pattern. -/
def anyAccepted (ps : List Pattern) (tokens : List String) : Bool :=
  tokens.any fun t => ps.any (·.accepts t)

end MisuseSlice.Algorithm
