import MisuseSlice.Criterion.Basic
import MisuseSlice.Text.Glob

/-!
How calls move the values of interest. Rules for known methods are tried in order; where none applies, or
the one that applies has nothing to say, the general rule for calls does.
-/
namespace MisuseSlice

/-- What becomes of a call (`Outcome`). -/
inductive CallOutcome where
  /-- The call is left out of the slice. -/
  | skip
  /-- The call is kept. -/
  | retain
  /-- The call is kept, and the returns of the callee are sliced. -/
  | descend
  deriving DecidableEq, Repr

/-- A call met while slicing, with the values of interest after it (`Flow`). -/
structure CallFlow where
  call : Statement
  seed : Criterion
  targets : ValueSet
  isDevClass : String → Bool
  isTrackedType : String → Bool

namespace CallFlow

/-- The value is of interest. -/
def tracks (f : CallFlow) (v : Value) : Bool := !v.isAbsent && f.targets.contains v

/-- Adds the values that are no constants. -/
def track (ts : ValueSet) (vs : List Value) : ValueSet := ts.insertAll (vs.filter (!·.isConstant))

/-- Adds the arguments at the given positions. -/
def withArgs (f : CallFlow) (positions : List Int) : ValueSet :=
  track f.targets (positions.map f.call.arg)

/-- The seed is a call of a method of a class. -/
def seedIs (f : CallFlow) (className method : String) : Bool :=
  f.seed.kind == .invoke && Signature.className f.seed.target == className &&
    Signature.methodName f.seed.target == method

end CallFlow

/-- What a rule for known methods does. -/
inductive CallEffect where
  | skip
  | keep
  | addArg (i : Int)
  /-- Adds an argument where the seed is a call of the given method on the same receiver. -/
  | addArgIfSeed (className method : String) (i : Int)
  | addFirstArg
  /-- Follows a copy from the first argument to the third. -/
  | copyArray
  deriving DecidableEq, Repr

/-- The effect on a call; `none` leaves it to the general rule. -/
def CallEffect.apply (e : CallEffect) (f : CallFlow) : Option (CallOutcome × ValueSet) :=
  match e with
  | skip => some (.skip, f.targets)
  | keep => some (.retain, f.targets)
  | addArg i => some (.retain, f.withArgs [i])
  | addArgIfSeed c m i =>
    if f.seedIs c m && f.tracks f.call.base then some (.retain, f.withArgs [i]) else none
  | addFirstArg => if f.call.args.isEmpty then none else some (.retain, f.withArgs [0])
  | copyArray =>
    let dest := f.call.arg 2
    if f.tracks dest then
      some (.retain, { f with targets := f.targets.erase dest }.withArgs [0])
    else some (.retain, f.targets)

/-- A rule for the methods whose class and name match two patterns (`DataflowRule`). -/
structure CallRule where
  classPattern : String
  methodPattern : String
  effect : CallEffect := .keep
  deriving DecidableEq, Repr

namespace CallRule

/-- The rule is for this method. -/
def applies (r : CallRule) (signature : String) : Bool :=
  Text.Glob.accepts r.classPattern (Signature.className signature) &&
    Text.Glob.accepts r.methodPattern (Signature.methodName signature)

/-- The first rule for a method. -/
def find? (rules : List CallRule) (signature : String) : Option CallRule :=
  rules.find? (·.applies signature)

/-- The rules for cryptographic and collection classes (`DefaultRules`). -/
def standard : List CallRule :=
  [⟨"*Exception", "*", .skip⟩,
    ⟨"*Error", "*", .skip⟩,
    ⟨"android.util.Log", "*", .skip⟩,
    ⟨"kotlin.jvm.internal.*", "*", .skip⟩,
    ⟨"java.lang.Integer", "<init>", .addArg 0⟩,
    ⟨"java.lang.StringBuilder", "append", .keep⟩,
    ⟨"java.lang.System", "arraycopy", .copyArray⟩,
    ⟨"java.text.SimpleDateFormat", "<init>", .addArg 0⟩,
    ⟨"java.util.*Map", "put", .addArg 1⟩,
    ⟨"java.util.*Map", "get", .addArg 0⟩,
    ⟨"javax.crypto.spec.SecretKeySpec", "<init>", .addArg 0⟩,
    ⟨"javax.crypto.spec.PBEKeySpec", "<init>", .addArg 0⟩,
    ⟨"javax.crypto.spec.PBEKeySpec", "getSalt", .keep⟩,
    ⟨"javax.crypto.Mac", "init", .addArgIfSeed "javax.crypto.Mac" "doFinal" 0⟩,
    ⟨"javax.crypto.Mac", "update", .addArgIfSeed "javax.crypto.Mac" "doFinal" 0⟩,
    ⟨"javax.crypto.Mac", "doFinal", .addFirstArg⟩,
    ⟨"javax.crypto.Cipher", "update", .addArgIfSeed "javax.crypto.Cipher" "doFinal" 0⟩,
    ⟨"javax.crypto.SecretKeyFactory", "generateSecret", .addArg 0⟩,
    ⟨"java.lang.String", "valueOf", .addArg 0⟩,
    ⟨"java.nio.ByteBuffer", "getInt", .keep⟩,
    ⟨"java.security.MessageDigest", "digest", .addFirstArg⟩,
    ⟨"java.util.Arrays", "copyOfRange", .addArg 0⟩,
    ⟨"java.util.Base64$Decoder", "decode", .addArg 0⟩,
    ⟨"android.content.SharedPreferences", "getString", .addArg 0⟩]

end CallRule

namespace CallFlow

/-- The general rule (`genericCall`). The result of a call is of no interest above it. Where the result was of
interest and the receiver is not, the arguments of static calls and of calls on locals become so, and the receiver
of a developer's class or of a tracked result type. A call without result on a receiver of interest makes its
arguments so, and otherwise its receiver. -/
def general (f : CallFlow) : CallOutcome × ValueSet :=
  let u := f.call
  if u.kind == .assignInvoke then
    let resultTracked := f.tracks u.left
    let f := { f with targets := f.targets.erase u.left }
    if f.tracks u.base || !resultTracked then (.retain, f.targets)
    else
      let ts := if u.base.isAbsent || u.base.isLocalSlot then track f.targets u.args else f.targets
      let ts :=
        if !u.base.isAbsent && (f.isDevClass u.calleeClass || f.isTrackedType (Signature.declaredType u.signature))
        then track ts [u.base]
        else ts
      (.descend, ts)
  else if f.tracks u.base then (.retain, track f.targets u.args)
  else (.retain, track f.targets [u.base])

/-- What becomes of a call, and the values of interest before it. A call that repeats the seed adds the
arguments of the seed. -/
def apply (rules : List CallRule) (f : CallFlow) : CallOutcome × ValueSet :=
  if f.seed.kind == .invoke && f.call.signature == f.seed.target then
    (.retain, f.withArgs f.seed.positions)
  else
    match (CallRule.find? rules f.call.signature).bind fun r => r.effect.apply f with
    | some r => r
    | none => f.general

end CallFlow

end MisuseSlice
