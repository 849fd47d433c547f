import MisuseSlice.Rule.Basic

/-!
Rules read from documents. A rule and its patterns have no other keys than those named here; a condition
may have more.
-/
namespace MisuseSlice

open Document

/-- A list of texts, or `none` for null. -/
private def texts : Node → Decode (Option (Option (List String))) := sequenceOrNull Document.text

/-- Reads a condition. -/
def ConditionSpec.decode (strict : Bool) (n : Node) : Decode (Option ConditionSpec) :=
  record strict (fun key =>
    match key with
    | "targetAlgorithms" => setter texts fun xs (c : ConditionSpec) => { c with algorithms := xs }
    | "targetSignatures" => setter texts fun xs c => { c with signatures := xs }
    | "targetConstantRegex" => setter (optional Document.text) fun t c => { c with constant := t }
    | "targetConstantLength" => setter Document.text fun t c => { c with length := t }
    | "targetConstantSize" => setter Document.text fun t c => { c with size := t }
    | "targetSchemeTypes" => setter texts fun xs c => { c with schemeTypes := xs }
    | "requiredSchemeTypes" => setter texts fun xs c => { c with requiredTypes := xs }
    | _ => none) {} n

/-- Reads conditions (`UnmarshalYAML`): one mapping, or a list of them. A list with the tag of null is read like
the rest of the rule. -/
def ConditionSpec.decodeAll (n : Node) : Decode (Option (List (Option ConditionSpec))) :=
  match n with
  | .mapping _ _ _ =>
    if n.isNullCollection then wrongType
    else do pure ((← isolated (ConditionSpec.decode false) n).map fun c => [some c])
  | .sequence _ _ _ =>
    if n.isNullCollection then sequence (optional (ConditionSpec.decode true)) n
    else isolated (sequence (optional (ConditionSpec.decode false))) n
  | .scalar _ _ tag line =>
    if n.isNull then pure (some [])
    else if tag == "!!null" then throw .malformed
    else throw (.conditionShape line)
  | .alias _ _ _ => throw .malformed

/-- Reads a pattern. -/
def RulePattern.decode (n : Node) : Decode (Option (RulePattern (Option ConditionSpec))) :=
  record true (fun key =>
    match key with
    | "ruleID" => setter Document.text fun t (p : RulePattern (Option ConditionSpec)) => { p with id := t }
    | "description" => setter Document.text fun t p => { p with description := t }
    | "conditions" => setter ConditionSpec.decodeAll fun cs p => { p with conditions := cs }
    | _ => none) {} n

/-- Reads a rule. -/
def RuleSpec.decode (n : Node) : Decode RuleSpec := do
  let r ← record true (fun key =>
    match key with
    | "slicingSignatures" =>
      setter (table (sequence integer)) fun ss (r : RuleSpec) => { r with signatures := ss }
    | "insecureRule" => setter (optional RulePattern.decode) fun p r => { r with insecure := p }
    | "secureRule" => setter (optional RulePattern.decode) fun p r => { r with secure := p }
    | _ => none) {} n
  pure (r.getD {})

/-- Reads a rule from some bytes and checks it (`Parse`). -/
def Rule.ofBytes (bytes : Text.Bytes) : Except RuleError Rule :=
  match Document.decode bytes RuleSpec.decode with
  | .error e => .error (.unreadable e)
  | .ok r => r.validate

/-- Reads a rule from a text and checks it. -/
def Rule.read (source : String) : Except RuleError Rule := Rule.ofBytes (Text.bytesOf source)

end MisuseSlice
