import MisuseSlice.Body.Basic

/-!
Feasibility of retained statements. Walking the retained positions of a body in order, the constants
that flow through them decide retained branches, and the retained positions on a side that cannot run
are dropped. The constants known in the methods of a chain of calls are kept together, and a call binds
the parameters of its callee.
-/
namespace MisuseSlice

/-- The constants known, by method and variable. -/
abbrev KnownValues := Std.TreeMap String (Std.TreeMap String Value)

namespace KnownValues

/-- The value of a variable of a method. -/
def get? (vs : KnownValues) (method name : String) : Option Value := (vs.getD method {})[name]?

/-- Records the value of a variable of a method. -/
def set (vs : KnownValues) (method name : String) (v : Value) : KnownValues :=
  vs.insert method ((vs.getD method {}).insert name v)

/-- Forgets the value of a variable of a method. -/
def unset (vs : KnownValues) (method name : String) : KnownValues :=
  vs.insert method ((vs.getD method {}).erase name)

/-- The constant value of an operand of a method. -/
def resolve? (vs : KnownValues) (method : String) (v : Value) : Option Value :=
  if v.isConstant then some v else vs.get? method v.text

/-- The name under which a parameter is known. -/
def paramName (i : Int) : String := "@parameter" ++ Text.ofInt i

private def bindFrom (caller callee : String) : Nat → List Value → KnownValues → KnownValues
  | _, [], vs => vs
  | i, a :: rest, vs =>
    bindFrom caller callee (i + 1) rest
      (match vs.resolve? caller a with
        | some c => vs.set callee (paramName i) c
        | none => vs.unset callee (paramName i))

/-- Binds the parameters of the callee to the constant arguments of a call. -/
def bindParams (vs : KnownValues) (caller : String) (call : Option Statement) (callee : String) :
    KnownValues :=
  match call with
  | some u => if u.kind.isInvoke then bindFrom caller callee 0 u.args vs else vs
  | none => vs

end KnownValues

namespace Body

/-- What a retained statement tells about constants. -/
def flow (b : Body) (vs : KnownValues) (u : Statement) : KnownValues :=
  match u.kind with
  | .assignVariableConstant => vs.set b.method u.left.text u.right
  | .assignVariableVariable | .cast =>
    match vs.resolve? b.method u.right with
    | some c => vs.set b.method u.left.text c
    | none => vs
  | .parameter =>
    match vs.get? b.method (KnownValues.paramName u.paramIndex) with
    | some c => vs.set b.method u.left.text c
    | none => vs
  | _ => vs

/-- The retained positions that a decided `if` at `pos` rules out (`dropInfeasible`). -/
def dropped (b : Body) (live : Bool) (retained : List Nat) (vs : KnownValues) (u : Statement) (pos : Nat) :
    List Nat :=
  if u.kind == .branchIf then
    let v := Folding.verdict live (vs.resolve? b.method) u pos
    let out := Folding.ruledOut b.whole u pos v
    retained.filter out.contains
  else []

/-- Walks the retained positions: those dropped so far, and the constants known. -/
def infeasibleFrom (b : Body) (live : Bool) (retained : List Nat) :
    List Int → List Nat → KnownValues → List Nat × KnownValues
  | [], drop, vs => (drop, vs)
  | pos :: rest, drop, vs =>
    match pos with
    | .negSucc _ => infeasibleFrom b live retained rest drop vs
    | .ofNat p =>
      if drop.contains p then infeasibleFrom b live retained rest drop vs
      else
        match b.at? p with
        | none => infeasibleFrom b live retained rest drop vs
        | some u =>
          infeasibleFrom b live retained rest
            (Folding.mark drop (b.dropped live retained vs u p)) (b.flow vs u)

/-- The retained positions on sides that cannot run, and the constants known afterwards (`UnreachableIndexes`).
The positions are in ascending order. -/
def infeasible (b : Body) (live : Bool) (retained : List Int) (vs : KnownValues) : List Nat × KnownValues :=
  b.infeasibleFrom live (retained.filterMap fun p => if 0 ≤ p then some p.toNat else none) retained [] vs

end Body

end MisuseSlice
