import MisuseSlice.Criterion.Basic
import MisuseSlice.Workspace

/-!
Creating criteria. A ledger keeps the criteria created so far, the methods whose bodies were looked at,
the answers on what entry points reach, and the messages; a body is reported on when it is looked at first.
-/
namespace MisuseSlice

/-- A method to seed on, with the argument positions of interest. -/
structure Candidate where
  signature : String
  positions : List Int
  deriving DecidableEq, Repr, Inhabited

namespace Candidate

/-- The text by which candidates are sorted and told apart. -/
def key (c : Candidate) : String :=
  c.signature ++ String.join (c.positions.map fun p => " " ++ Text.ofInt p)

/-- Candidates without repetitions, sorted by key (`CreateCandidates`). -/
def distinct (cs : List Candidate) : List Candidate :=
  (cs.foldl (fun (byKey : Std.TreeMap String Candidate) c => byKey.insert c.key c) {}).toList.map (·.2)

end Candidate

/-- What was created and looked at. -/
structure Ledger where
  registry : Registry := {}
  opened : List String := []
  /-- Whether the entry points reach the methods that were asked for. -/
  reached : Std.TreeMap String Bool := {}
  log : Log := []

namespace Ledger

/-- Adds a message. -/
def note (l : Ledger) (level : LogLevel) (message : String) : Ledger :=
  { l with log := l.log ++ Log.one level message }

/-- Looks at the body of a method. -/
def openBody (l : Ledger) (w : Workspace) (method : String) : Option Body × Ledger :=
  if l.opened.contains method then (w.body? method, l)
  else
    let l := { l with opened := method :: l.opened }
    match w.bodies[method]? with
    | some (b, log) => (some b, { l with log := l.log ++ log })
    | none =>
      if (w.program.statements method).isEmpty then (none, l.note .debug ("no body for " ++ method))
      else (none, l.note .warn ("could not prepare " ++ method))

/-- Records criteria. -/
def registerAll (l : Ledger) (cs : List Criterion) : Ledger :=
  { l with registry := cs.foldl (fun r c => (r.register c).1) l.registry }

/-- The criteria of the seeds of a method, which are recorded. Calls of a method with parameters are
seeds only where positions are given. -/
def create (l : Ledger) (w : Workspace) (caller target : String) (kind : SeedKind) (positions : List Int)
    (level : Int) : List Criterion × Ledger :=
  if kind == .invoke && positions.isEmpty && !(Signature.paramTypes target).isEmpty then ([], l)
  else
    match l.openBody w caller with
    | (none, l) => ([], l)
    | (some b, l) =>
      let cs := Criterion.inBody b.source caller target kind positions level
      (cs, l.registerAll cs)

/-- Asks whether an entry point reaches a method. The answer for a method of the call graph is kept. -/
def isReachable (l : Ledger) (w : Workspace) (method : String) : Bool × Ledger :=
  match l.reached[method]? with
  | some answer => (answer, l)
  | none =>
    match w.graph.number? method with
    | none => (false, l)
    | some _ => (w.isReachable method, { l with reached := l.reached.insert method (w.isReachable method) })

/-- The criteria of one caller of a candidate. -/
def seedsIn (l : Ledger) (w : Workspace) (c : Candidate) (caller : String) : List Criterion × Ledger :=
  if w.skipsCaller caller then ([], l)
  else
    let (reached, l) := if w.settings.skipReachability then (true, l) else l.isReachable w caller
    if reached then l.create w caller c.signature .invoke c.positions 0
    else ([], l.note .debug ("skipping unreachable caller " ++ caller))

/-- The criteria of the calls of a candidate in every caller that is not left out. -/
def seeds (l : Ledger) (w : Workspace) (c : Candidate) : List Criterion × Ledger :=
  if (w.graph.number? c.signature).isNone then ([], l)
  else
    let callers := w.graph.callerSignatures c.signature
    let l := l.note .debug (c.signature ++ ": " ++ Text.ofNat callers.length ++ " callers")
    callers.foldl (fun (found, l) caller =>
      let (cs, l) := l.seedsIn w c caller
      (found ++ cs, l)) ([], l)

end Ledger

end MisuseSlice
