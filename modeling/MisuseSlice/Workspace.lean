import MisuseSlice.Body.Feasibility
import MisuseSlice.CallGraph.Build
import MisuseSlice.CallGraph.Chains
import MisuseSlice.Settings

/-!
What slicing works on: a finalized program with its call graph, its prepared bodies and the settings.
-/
namespace MisuseSlice

/-- A program made ready for slicing. -/
structure Workspace where
  program : Program
  settings : Settings
  /-- Comparisons are decided; false once the analysis was cancelled. -/
  live : Bool
  model : CallModel
  /-- The prepared bodies with the messages of their preparation. -/
  bodies : Std.TreeMap String (Body × Log)
  /-- Which nodes of the call graph the entry points reach. -/
  fromEntries : List Bool

namespace Workspace

/-- The call graph. -/
def graph (w : Workspace) : CallGraph := w.model.graph

/-- What the call graph pass learned besides the graph. -/
def info (w : Workspace) : CallInfo := w.model.info

/-- The prepared body of a method. -/
def body? (w : Workspace) (method : String) : Option Body := (w.bodies[method]?).map (·.1)

/-- The interface whose implementations are entry points. -/
def runnable : String := "java.lang.Runnable"

/-- The class around an inner class; another class itself. -/
def outerClass (name : String) : String :=
  match Text.cut? name "$" with
  | some (outer, _) => if outer == "" then name else outer
  | none => name

/-- A static initializer, or a method of the developer that a component, an inner class of one, or a
runnable class declares. -/
def isEntryPoint (p : Program) (method : String) : Bool :=
  let name := Signature.className method
  Signature.methodName method == "<clinit>" ||
    (p.isDevClass name &&
      (p.isComponent name || p.isComponent (outerClass name) || p.implements name runnable))

/-- The methods of the graph that are entry points. -/
def entryPoints (p : Program) (g : CallGraph) : List Nat :=
  (g.nodes.mapIdx fun i n =>
    if !n.isField && isEntryPoint p n.signature then some i else none).filterMap (·)

/-- Makes a program ready. -/
def ofModel (p : Program) (settings : Settings) (live : Bool) (model : CallModel) : Workspace :=
  { program := p, settings, live, model
    bodies := p.methods.foldl (fun bs m =>
      if m.units.isEmpty then bs
      else
        match Body.prepare? model.info.constant? live m.signature m.units with
        | some b => bs.insert m.signature b
        | none => bs) {}
    fromEntries := model.graph.reachable (entryPoints p model.graph) }

/-- Makes a program ready over its own call graph. -/
def ofProgram (p : Program) (settings : Settings) (live : Bool) : Workspace :=
  ofModel p settings live (.ofProgram p)

/-- An entry point reaches the method, over calls or as the end of one of its chains of callers. -/
def isReachable (w : Workspace) (method : String) : Bool :=
  match w.graph.number? method with
  | none => false
  | some n =>
    w.fromEntries.getD n false ||
      (w.graph.topCallers n w.settings.maxCallerChains.toNat).any fun top =>
        isEntryPoint w.program (w.graph.signatureOf top)

/-- The method is no caller of seeds: its class is built in or filtered out, or it returns a truth value
or a built-in type that is not tracked. -/
def skipsCaller (w : Workspace) (caller : String) : Bool :=
  let name := Signature.className caller
  let result := Signature.declaredType caller
  w.settings.isBuiltinClass name || !w.settings.passesFilter name || result == "boolean" ||
    (w.settings.isBuiltinClass result && !w.settings.isTrackedType result)

/-- The number of statements of all bodies. -/
def size (w : Workspace) : Nat := (w.bodies.toList.map fun (_, b) => b.1.size).foldr (· + ·) 0

/-- The number of entries in the lists of callers and of accessed fields of all nodes. -/
def links (w : Workspace) : Nat := w.graph.callers.flatten.length + w.graph.neighbors.flatten.length

/-- Bounds the criteria that one statement or the end of one scan brings about: those of one pass over all
bodies for each link that is followed. -/
def spawnBound (w : Workspace) : Nat := (2 * w.links + 1) * w.size

end Workspace

end MisuseSlice
