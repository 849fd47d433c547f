import MisuseSlice.Interval
import MisuseSlice.KeyMaterial.Rsa
import MisuseSlice.Number.Binary64
import MisuseSlice.Rule.Basic
import MisuseSlice.Rule.Finding
import MisuseSlice.Rule.Subslices

/-!
Checking rules on slices. A check looks for the last line that matches, in the slice itself or in one of the
subslices of its lines. Where the secure pattern of a rule names counterparts, the later match wins.
-/
namespace MisuseSlice

/-- A match: the line that matched, and the line of the slice that led to it. -/
structure Hit where
  line : SliceLine
  via : SliceLine
  deriving DecidableEq, Repr

/-- What the checks need to know. -/
structure Evidence where
  workspace : Workspace
  subslices : Subslices
  /-- The positions tracked at each seed statement. -/
  retainedParams : Std.TreeMap String (List Int)

namespace Evidence

/-- The first match, looking at the lines from the last one on. -/
def search (lines : List SliceLine) (f : SliceLine → Option Hit) : Option Hit := lines.reverse.findSome? f

/-- The last line of a subslice that satisfies a condition, as a match that `l` led to. -/
def searchSub (l : SliceLine) (p : SliceLine → Bool) (sub : List SliceLine) : Option Hit :=
  (sub.reverse.find? p).map fun x => ⟨x, l⟩

/-- A call of one of the methods. -/
def calls (signatures : List String) (l : SliceLine) : Bool :=
  l.statement.kind.isInvoke && signatures.contains l.statement.signature

/-- The last call of one of the methods (`findSignature`). In the slice itself only seeds of criteria count. -/
def findCall (e : Evidence) (lines : List SliceLine) (signatures : List String) : Option Hit :=
  search lines fun l =>
    if calls signatures l && e.retainedParams.contains l.code then some ⟨l, l⟩
    else (e.subslices.ofLine l lines false).findSome? (searchSub l (calls signatures))

/-- The string constants that a statement passes or assigns. -/
def tokens (u : Statement) : List String :=
  let values :=
    if u.kind.isInvoke then u.args
    else if u.kind == .assignVariableConstant || u.kind == .returnValue then [u.right]
    else []
  (values.filter (·.kind == .stringConst)).map fun v => Text.shown v.content

/-- Makes a key from bytes (`isKeySpecInit`). Key material is no name of an algorithm, even where it spells one. -/
def makesKey (u : Statement) : Bool :=
  u.kind.isInvoke && u.calleeClass == "javax.crypto.spec.SecretKeySpec" && u.calleeName == "<init>"

/-- The last line with the name of an algorithm that a pattern accepts. -/
def findAlgorithm (e : Evidence) (lines : List SliceLine) (patterns : List Algorithm.Pattern) : Option Hit :=
  let named (l : SliceLine) : Bool := Algorithm.anyAccepted patterns (tokens l.statement)
  if patterns.isEmpty then none
  else
    search lines fun l =>
      match (e.subslices.ofLine l lines false).findSome?
        (searchSub l fun x => !makesKey x.statement && named x) with
      | some h => some h
      | none => if named l then some ⟨l, l⟩ else none

/-- The text of a constant that regular expressions and comparisons look at. -/
def constantBytes (v : Value) : Text.Bytes :=
  if v.isNumeric then
    let digits := v.numericText
    Text.bytesOf
      (if v.kind == .floatConst then
        match Number.binary64? digits.toList with
        | some q => Text.ofInt (Number.cutToWord q)
        | none => digits
      else digits)
  else v.content

/-- The constant fits a condition (`constantMatches`). -/
def fits (e : Evidence) (c : Condition) (v : Value) : Bool :=
  let bytes := constantBytes v
  let s := Text.shown bytes
  let matched := match c.regex with | some r => r.matchesIn s | none => false
  if !v.isConstant || v.kind == .nullConst then false
  else if bytes.isEmpty || !matched || Algorithm.isRecognized s then false
  else if c.spec.acceptsAnyConstant && c.spec.size == "" && v.isNumeric then false
  else if c.spec.length == "" && c.spec.size == "" then true
  else
    let count := Text.ofNat bytes.length
    let (x, expression) :=
      if c.spec.length != "" then (count, c.spec.length)
      else
        match KeyMaterial.modulusBits? s with
        | some bits => (Text.ofNat bits, c.spec.size)
        | none => (if v.isNumeric then s else count, c.spec.size)
    Comparison.evaluate e.workspace.live x expression == .holds

/-- The values of a line that may be constants of interest: what it assigns or returns, or the arguments
tracked at a call that is a seed. -/
def constantsOf (e : Evidence) (l : SliceLine) : List Value :=
  let u := l.statement
  if u.kind.isInvoke then
    let positions := e.retainedParams.getD l.code []
    if positions == [-1] then u.args
    else if positions.contains (-1) then []
    else positions.filterMap fun p => if 0 ≤ p then u.args[p.toNat]? else none
  else if u.kind == .assignVariableConstant || u.kind == .returnValue then [u.right]
  else []

/-- Calls a method of the developer without a body that gives a number or a string (`isOpaqueValueCall`). -/
def isOpaqueCall (e : Evidence) (u : Statement) : Bool :=
  let p := e.workspace.program
  let result := Signature.declaredType u.signature
  u.kind.isInvoke && !p.isBuiltinClass u.calleeClass && p.isDevClass u.calleeClass &&
    (p.statements u.signature).isEmpty && (result == "int" || result == "java.lang.String")

/-- The last line with a constant that fits a condition. -/
def findConstant (e : Evidence) (lines : List SliceLine) (c : Condition) : Option Hit :=
  let fitting (l : SliceLine) : Bool := (e.constantsOf l).any (e.fits c)
  search lines fun l =>
    let subs := e.subslices.ofLine l lines true
    if c.spec.length == "" && c.spec.size == "" && subs.isEmpty && e.isOpaqueCall l.statement then some ⟨l, l⟩
    else if fitting l then some ⟨l, l⟩
    else subs.findSome? (searchSub l fitting)

/-- Allocates an array whose size is a constant that fits a comparison, any number where there is none
(`isTargetArray`). -/
def isFixedArray (e : Evidence) (expression : String) (l : SliceLine) : Bool :=
  let size := l.statement.right
  l.statement.kind == .newArray && size.isConstant &&
    (if expression == "" then size.isNumeric
      else Comparison.evaluate e.workspace.live size.numericText expression == .holds)

/-- The subslice of a field that is given a fixed array: allocation, stores, then the write. -/
def isArrayInit (e : Evidence) (expression : String) (sub : List SliceLine) : Bool :=
  match sub with
  | first :: second :: _ =>
    e.isFixedArray expression first &&
      (second.statement.kind == .assignArrayConstant || second.statement.kind == .assignArrayVariable) &&
      (sub.getLast?.any fun l => l.statement.kind == .assignFieldVariable)
  | _ => false

/-- The last allocation of an array whose size fits a condition. -/
def findArray (e : Evidence) (lines : List SliceLine) (c : Condition) : Option Hit :=
  let expression := if c.spec.length != "" then c.spec.length else c.spec.size
  search lines fun l =>
    if e.isFixedArray expression l then some ⟨l, l⟩
    else
      (e.subslices.ofLine l lines false).findSome? fun sub =>
        match sub with
        | first :: _ =>
          if e.isArrayInit expression sub then some ⟨first, l⟩
          else searchSub l (e.isFixedArray expression) sub
        | [] => none

/-- The calls that end an encryption. -/
def cipherEnds : List String :=
  ["<javax.crypto.Cipher: byte[] doFinal(byte[])>", "<javax.crypto.Cipher: byte[] doFinal(byte[],int,int)>",
    "<javax.crypto.Cipher: int doFinal(byte[],int)>",
    "<javax.crypto.Cipher: int doFinal(byte[],int,int,byte[])>",
    "<javax.crypto.Cipher: int doFinal(byte[],int,int,byte[],int)>"]

/-- The calls that feed or end an authentication code. -/
def codeCalls : List String :=
  ["<javax.crypto.Mac: void update(byte[])>", "<javax.crypto.Mac: void update(byte[],int,int)>",
    "<javax.crypto.Mac: void update(java.nio.ByteBuffer)>", "<javax.crypto.Mac: byte[] doFinal(byte[])>",
    "<javax.crypto.Mac: void doFinal(byte[],int)>"]

/-- How data flows between an encryption and an authentication code; empty where it does not. -/
def schemeType (caller : String) (cipher code : Statement) (lines : List SliceLine) : String :=
  let cipherArgs := ValueSet.ofList cipher.args
  let codeArgs := ValueSet.ofList code.args
  if cipher.kind == .assignInvoke && codeArgs.contains cipher.left then "encrypt-then-mac"
  else if code.kind == .assignInvoke && cipherArgs.contains code.left then "mac-then-encrypt"
  else if !(cipherArgs.common code.args).isEmpty then "encrypt-and-mac"
  else if lines.any fun l =>
      l.caller == caller && l.statement.kind == .parameter && codeArgs.contains l.statement.left then
    "encrypt-and-mac"
  else ""

/-- The later one of a match and its counterpart: by the matched lines where they are in one method, and
else by the lines that led to them. The flag tells that the match itself is the later one. -/
def later (target : Hit) : Option Hit → Option (Bool × Hit)
  | none => some (true, target)
  | some counter =>
    if target.line.caller == counter.line.caller then
      some (if target.line.pos < counter.line.pos then (false, counter) else (true, target))
    else if target.via.caller == counter.via.caller then
      some (if target.via.pos < counter.via.pos then (false, counter) else (true, target))
    else none

/-- The match of a check (`decide`). An insecure pattern holds only where the match is later than its counterpart. -/
def settle (secure : Bool) (target counter : Option Hit) : Option Hit :=
  match target with
  | none => none
  | some t =>
    match later t counter with
    | some (own, h) => if secure || own then some h else none
    | none => none

/-- The matches of the check on scheme types. -/
def schemeHits (e : Evidence) (caller : String) (lines : List SliceLine) (c : Condition) : Option (List Hit) :=
  match e.findCall lines cipherEnds, e.findCall lines codeCalls with
  | some cipher, some code =>
    match c.spec.schemeTypes with
    | some types =>
      if types.contains (schemeType caller cipher.line.statement code.line.statement lines) then
        some [cipher, code]
      else none
    | none => some [cipher, code]
  | _, _ => none

/-- The patterns of the first condition that has some (`firstAlgorithms`). -/
def counterPatterns (p : Option (RulePattern Condition)) : List Algorithm.Pattern :=
  (p.bind fun p => p.conditions.find? (!·.patterns.isEmpty)).elim [] (·.patterns)

/-- The signatures of the first condition that names some (`firstSignatures`). -/
def counterSignatures (p : Option (RulePattern Condition)) : List String :=
  (p.bind fun p => p.conditions.findSome? (·.spec.signatures)).getD []

/-- The matches of one check. -/
def checkHits (e : Evidence) (caller : String) (secure : Bool) (c : Condition)
    (counter : Option (RulePattern Condition)) (lines : List SliceLine) (check : Check) : Option (List Hit) :=
  let counterCall := e.findCall lines (counterSignatures counter)
  match check with
  | .schemeTypes => e.schemeHits caller lines c
  | .algorithms =>
    (settle secure (e.findAlgorithm lines c.patterns)
      (e.findAlgorithm lines (counterPatterns counter))).map ([·])
  | .signatures => (settle secure (e.findCall lines (c.spec.signatures.getD [])) counterCall).map ([·])
  | .constant =>
    let target := e.findConstant lines c
    let target := if target.isNone && c.spec.acceptsAnyConstant then e.findArray lines c else target
    (settle secure target counterCall).map ([·])

/-- The matches of a condition, if all its checks have one (`checkCondition`). -/
def hits (e : Evidence) (caller : String) (secure : Bool) (c : Condition)
    (counter : Option (RulePattern Condition)) (lines : List SliceLine) : Option (List Hit) :=
  (c.spec.checks.mapM (e.checkHits caller secure c counter lines)).map (·.flatten)

end Evidence

/-- Lines without repetitions. -/
def SliceLine.distinct (ls : List SliceLine) : List SliceLine :=
  ls.foldl (fun acc l => if acc.any (·.key == l.key) then acc else acc ++ [l]) []

/-- Checks the rules on slices, and keeps the lines matched for each caller and rule number. -/
structure Checker where
  rules : List Rule
  evidence : Evidence
  found : Std.TreeMap String (List String) := {}
  log : Log := []

namespace Checker

/-- The rules that slice the target of a seed at exactly its positions (`TargetRules`). -/
def rulesFor (c : Checker) (seed : Criterion) : List Rule :=
  let ascending (xs : List Int) : List Int := xs.mergeSort fun a b => decide (a ≤ b)
  c.rules.filter fun r =>
    match r.signatures.find? (·.1 == seed.target) with
    | some (_, ps) => ascending ps == ascending seed.positions
    | none => false

/-- The lines of a slice with the seed statement, which stands at the end where it is not among them
(`withSeedLine`). -/
def withSeed (c : Checker) (seed : Criterion) (lines : List SliceLine) : List SliceLine :=
  match (c.evidence.workspace.body? seed.caller).bind (·.at? seed.pos) with
  | some u =>
    let l : SliceLine := ⟨seed.caller, u⟩
    if lines.any (·.key == l.key) then lines else lines ++ [l]
  | none => lines

/-- What findings of a rule in a method are kept under. -/
def foundKey (seed : Criterion) (r : Rule) : String := seed.caller ++ "-" ++ Text.ofInt r.number

/-- Checks one pattern. A slice that holds a line matched before for the rule in this method gives no
finding. -/
def checkPattern (c : Checker) (seed : Criterion) (r : Rule) (secure : Bool) (p : RulePattern Condition)
    (lines : List SliceLine) : Option Finding × Checker :=
  let key := foundKey seed r
  let known := c.found.getD key []
  if lines.any fun l => known.contains l.key then (none, c)
  else
    match p.conditions.findSome? fun cond =>
      (match c.evidence.hits seed.caller secure cond r.secure lines with
        | some [] => none
        | h => h) with
    | none => (none, c)
    | some hits =>
      (some
        { ruleId := p.id, description := p.description, secure, caller := seed.caller,
          target := seed.statement,
          lines := (SliceLine.distinct (hits.map (·.line))).map (·.reported) },
        { c with
          found := c.found.insert key (hits.map (·.via.key) ++ known)
          log := c.log ++ Log.one .debug ("rule " ++ p.id ++ " holds for " ++ seed.statement) })

/-- Checks the rules of a seed on one of its slices. -/
def check (c : Checker) (seed : Criterion) (slice : CombinedSlice) : List Finding × Checker :=
  let lines := c.withSeed seed slice.lines
  let tasks := (c.rulesFor seed).flatMap fun r => r.patterns.map fun (secure, p) => (r, secure, p)
  tasks.foldl (fun (found, c) (r, secure, p) =>
    let (f, c) := c.checkPattern seed r secure p lines
    (found ++ f.toList, c)) ([], c)

end Checker

end MisuseSlice
