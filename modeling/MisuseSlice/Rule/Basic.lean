import MisuseSlice.Criterion.Ledger
import MisuseSlice.Rule.Algorithm

/-!
Misuse rules. A rule names the methods whose calls are sliced, with the argument positions of interest, and
holds an insecure and perhaps a secure pattern. A pattern holds where one of its conditions does, and a
condition where all its checks find a line.
-/
namespace MisuseSlice

/-- A condition as it is written. -/
structure ConditionSpec where
  algorithms : Option (List String) := none
  signatures : Option (List String) := none
  /-- The regular expression for whole constants. -/
  constant : Option String := none
  /-- The comparison for the length of a constant. -/
  length : String := ""
  /-- The comparison for the size of a key or number. -/
  size : String := ""
  schemeTypes : Option (List String) := none
  requiredTypes : Option (List String) := none
  deriving DecidableEq, Repr, Inhabited

/-- The kinds of checks, in the order in which they are made. -/
inductive Check where
  | schemeTypes | algorithms | signatures | constant
  deriving DecidableEq, Repr

/-- The name of a check. -/
def Check.name : Check → String
  | algorithms => "targetAlgorithms"
  | constant => "targetConstantRegex"
  | schemeTypes => "targetSchemeTypes"
  | signatures => "targetSignatures"

namespace ConditionSpec

/-- The checks of a condition. -/
def checks (c : ConditionSpec) : List Check :=
  (if c.schemeTypes.isSome || c.requiredTypes.isSome then [.schemeTypes] else []) ++
    (if c.algorithms.isSome then [.algorithms] else []) ++
    (if c.signatures.isSome then [.signatures] else []) ++
    (if c.constant.isSome then [.constant] else [])

/-- The scheme types wanted, or else the required ones. -/
def allTypes (c : ConditionSpec) : List String := (c.schemeTypes <|> c.requiredTypes).getD []

/-- The condition accepts any constant (`IsAnyConstant`). -/
def acceptsAnyConstant (c : ConditionSpec) : Bool := c.constant == some ".*"

end ConditionSpec

/-- A condition with its patterns made ready. -/
structure Condition where
  spec : ConditionSpec
  /-- The patterns of the target algorithms. -/
  patterns : List Algorithm.Pattern
  /-- Matches whole constants; there where the condition has a check on constants. -/
  regex : Option Text.Regex

/-- What is wrong with a condition. -/
inductive ConditionFlaw where
  | noCheck
  | algorithm (name : String)
  | constant (pattern : String)
  | schemeType (name : String)
  | signature (text : String)
  | expression (text : String)
  deriving DecidableEq, Repr

/-- The wording of a flaw. -/
def ConditionFlaw.message : ConditionFlaw → String
  | noCheck => "condition without any check"
  | algorithm s => "invalid algorithm " ++ Text.quote s ++ ": " ++ Text.Regex.readMessage
  | constant s => "invalid constant regex " ++ Text.quote s ++ ": " ++ Text.Regex.readMessage
  | schemeType s => "unknown scheme type " ++ Text.quote s
  | signature s => "invalid signature " ++ Text.quote s
  | expression s => "invalid expression " ++ Text.quote s

namespace ConditionSpec

/-- The text has a character of a comparison. -/
def isExpression (s : String) : Bool := s.toList.any fun c => "<>=!".toList.contains c

/-- The regular expression for whole constants. -/
def wholeRegex? (pattern : String) : Option Text.Regex := Text.Regex.read? ("^(?:" ++ pattern ++ ")$")

/-- All that is wrong with a condition (`validate`). -/
def flaws (c : ConditionSpec) : List ConditionFlaw :=
  (if c.checks.isEmpty then [.noCheck] else []) ++
    ((c.algorithms.getD []).filter fun a => (Algorithm.Pattern.read? a).isNone).map .algorithm ++
    (c.constant.toList.filter fun r => (wholeRegex? r).isNone).map .constant ++
    (c.allTypes.filter (!Algorithm.isSchemeType ·)).map .schemeType ++
    ((c.signatures.getD []).filter (!Signature.isMethod ·)).map .signature ++
    ([c.length, c.size].filter fun e => e != "" && !isExpression e).map .expression

/-- The condition with its patterns made ready (`compile`). -/
def ready (c : ConditionSpec) : Condition :=
  { spec := c, patterns := (c.algorithms.getD []).filterMap Algorithm.Pattern.read?, regex := c.constant.bind wholeRegex? }

end ConditionSpec

/-- A pattern of a rule: what it is known by, and its conditions. -/
structure RulePattern (α : Type) where
  id : String := ""
  description : String := ""
  conditions : List α := []
  deriving Inhabited

/-- A rule as it is written. A gap stands for a condition that is null. -/
structure RuleSpec where
  signatures : List (String × List Int) := []
  insecure : Option (RulePattern (Option ConditionSpec)) := none
  secure : Option (RulePattern (Option ConditionSpec)) := none
  deriving Inhabited

/-- A rule. -/
structure Rule where
  /-- The name of the file that the rule comes from. -/
  name : String := ""
  /-- The methods sliced, with the argument positions of interest. -/
  signatures : List (String × List Int)
  insecure : RulePattern Condition
  secure : Option (RulePattern Condition)
  /-- The number at the start of the name of the insecure pattern. -/
  number : Int

/-- What is wrong with a rule. -/
inductive RuleFlaw where
  | noSignatures
  | slicingSignature (text : String)
  | noInsecurePattern
  | number (id : String)
  | noConditions (id : String)
  | condition (id : String) (flaws : List ConditionFlaw)
  deriving DecidableEq, Repr

/-- The wording of a flaw. -/
def RuleFlaw.message : RuleFlaw → String
  | noSignatures => "no slicing signatures"
  | slicingSignature s => "invalid slicing signature " ++ Text.quote s
  | noInsecurePattern => "missing insecureRule"
  | number id => "rule id " ++ Text.quote id ++ " does not start with a number"
  | noConditions id => "rule " ++ id ++ " has no conditions"
  | condition id flaws => "rule " ++ id ++ ": " ++ Text.joinWith "\n" (flaws.map (·.message))

/-- Why a text is no rule. -/
inductive RuleError where
  | unreadable (cause : Document.DecodeError)
  | flawed (flaws : List RuleFlaw)
  /-- A condition is null, which nothing is prepared for. -/
  | nullCondition
  deriving DecidableEq, Repr

/-- The wording of an error. -/
def RuleError.message : RuleError → String
  | unreadable e => "could not parse rule: " ++ e.message
  | flawed fs => Text.joinWith "\n" (fs.map (·.message))
  | nullCondition => "null condition"

namespace RuleSpec

/-- The number before the first dash (`ruleNumber`). -/
def numberOf? (id : String) : Option Int :=
  let (start, _) := (Text.cut? id "-").getD (id, "")
  Number.word? start

/-- The flaws of a pattern whose conditions are all there. -/
def patternFlaws (p : RulePattern ConditionSpec) : List RuleFlaw :=
  (if p.conditions.isEmpty then [.noConditions p.id] else []) ++
    p.conditions.filterMap fun c => if c.flaws.isEmpty then none else some (.condition p.id c.flaws)

/-- A pattern whose conditions are all there. -/
def complete? (p : RulePattern (Option ConditionSpec)) : Option (RulePattern ConditionSpec) :=
  (p.conditions.mapM id).map fun cs => { id := p.id, description := p.description, conditions := cs }

/-- A pattern with its conditions made ready. -/
def ready (p : RulePattern ConditionSpec) : RulePattern Condition :=
  { id := p.id, description := p.description, conditions := p.conditions.map (·.ready) }

/-- The flaws of the methods that a rule slices. -/
def signatureFlaws (r : RuleSpec) : List RuleFlaw :=
  (if r.signatures.isEmpty then [.noSignatures] else []) ++
    (r.signatures.filter (!Signature.isMethod ·.1)).map (.slicingSignature ·.1)

/-- The flaws of a rule with the given patterns. -/
def flaws (r : RuleSpec) (insecure : RulePattern ConditionSpec) (secure : Option (RulePattern ConditionSpec)) :
    List RuleFlaw :=
  r.signatureFlaws ++ (if (numberOf? insecure.id).isNone then [.number insecure.id] else []) ++ patternFlaws insecure ++
    secure.toList.flatMap patternFlaws

/-- Checks a rule and makes it ready. -/
def validate (r : RuleSpec) : Except RuleError Rule :=
  match r.insecure with
  | none => .error (.flawed (r.signatureFlaws ++ [.noInsecurePattern]))
  | some insecure =>
    match complete? insecure, r.secure.mapM complete? with
    | some insecure, some secure =>
      let flaws := r.flaws insecure secure
      if flaws.isEmpty then
        .ok
          { signatures := r.signatures, insecure := ready insecure, secure := secure.map ready,
            number := (numberOf? insecure.id).getD 0 }
      else .error (.flawed flaws)
    | _, _ => .error .nullCondition

end RuleSpec

namespace Rule

/-- The insecure pattern, and the secure one marked as such. -/
def patterns (r : Rule) : List (Bool × RulePattern Condition) :=
  (false, r.insecure) :: (r.secure.map fun p => (true, p)).toList

/-- Rules in the order of their numbers and names. -/
def sort (rs : List Rule) : List Rule :=
  rs.mergeSort fun a b => decide (a.number < b.number) || (a.number == b.number && decide (a.name ≤ b.name))

/-- The methods that rules slice. -/
def candidates (rs : List Rule) : List Candidate :=
  Candidate.distinct (rs.flatMap fun r => r.signatures.map fun (s, ps) => ⟨s, ps⟩)

end Rule

end MisuseSlice
