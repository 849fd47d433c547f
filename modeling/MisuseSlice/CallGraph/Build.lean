import MisuseSlice.CallGraph.Basic
import MisuseSlice.Log
import MisuseSlice.Program.Basic

/-!
Building the call graph. One pass over the methods of the declared classes collects calls, accesses to
fields of the developer's classes, the places that store a constant into a static final field, and the
positions at which the cases of switches start. A method whose body cannot be had contributes nothing.
-/
namespace MisuseSlice

/-- What the pass learns besides the graph. -/
structure CallInfo where
  /-- The constants of fields all of whose sites agree. -/
  constants : Std.TreeMap String Value := {}
  /-- The fields with a site that is no constant, or with sites that differ. -/
  excluded : List String := []
  /-- For each method, the switch that has a case starting at a position. -/
  switches : Std.TreeMap String (List (Int × Nat)) := {}
  /-- The methods whose body could not be had. -/
  skipped : List String := []

namespace CallInfo

/-- The constant of a field. -/
def constant? (info : CallInfo) (field : String) : Option Value := info.constants[field]?

/-- The field is never resolved to a constant. -/
def isExcluded (info : CallInfo) (field : String) : Bool := info.excluded.contains field

/-- The position of the switch of a method that has a case starting at `start`. -/
def switchAt? (info : CallInfo) (method : String) (start : Int) : Option Nat :=
  ((info.switches.getD method []).find? (·.1 == start)).map (·.2)

/-- Records a site that stores a value into a field (`addConstantSite`); a missing value is no constant. -/
def addSite (info : CallInfo) (field : String) (v : Value) : CallInfo :=
  let exclude : CallInfo :=
    { info with excluded := field :: info.excluded, constants := info.constants.erase field }
  if info.isExcluded field then info
  else if v.isAbsent then exclude
  else
    match info.constant? field with
    | some c => if c.text != v.text then exclude else info
    | none => { info with constants := info.constants.insert field v }

/-- Records sites in their order. -/
def addSites (info : CallInfo) (sites : Std.TreeMap String Value) : CallInfo :=
  sites.toList.foldl (fun i (f, v) => i.addSite f v) info

/-- Records where the cases of a method's switches start. -/
def addSwitches (info : CallInfo) (method : String) (starts : List (Int × Nat)) : CallInfo :=
  if starts.isEmpty then info else { info with switches := info.switches.insert method starts }

end CallInfo

/-- What the pass asks about a program. The classes that it visits are listed apart from their declarations, and a
body that cannot be had fails. -/
structure Provider where
  /-- The names of the classes that are visited. -/
  declaredClasses : List String
  /-- The declarations of classes. -/
  classes : Std.TreeMap String ClassDecl
  /-- The static final fields of a class that have a constant. -/
  constantFields : String → Std.TreeMap String Value
  field? : String → Option Field
  isDevClass : String → Bool
  /-- The body of a method, or why there is none. -/
  statements : String → Except String (List Statement)

/-- A program whose bodies `fetch` may fail to give. -/
def Program.provider (p : Program) (fetch : String → Except String (List Statement)) : Provider where
  declaredClasses := p.declaredClasses
  classes := p.classIndex
  constantFields := p.constantFields
  field? := p.field?
  isDevClass := p.isDevClass
  statements := fetch

/-- What one method contributes (`methodResult`). -/
structure MethodScan where
  callees : List String := []
  fields : List String := []
  sites : Std.TreeMap String Value := {}
  switches : List (Int × Nat) := []
  /-- The constants that variables hold. -/
  constants : Std.TreeMap String Value := {}
  /-- The arrays allocated with a constant size: element type and elements, `none` once an element is
  not constant. -/
  arrays : Std.TreeMap String (String × Nat × Option (Std.TreeMap Nat String)) := {}

namespace MethodScan

/-- Records the access to a field of a class of the developer. -/
def addField (p : Provider) (s : MethodScan) (field : String) : MethodScan :=
  if p.isDevClass (Signature.className field) then { s with fields := s.fields ++ [field] } else s

/-- Records a store into a static final field; stores that differ make no constant. -/
def addSite (p : Provider) (s : MethodScan) (field : String) (v : Value) : MethodScan :=
  match p.field? field with
  | some f =>
    if f.isStatic && f.isFinal then
      match s.sites[field]? with
      | some w =>
        { s with sites := s.sites.insert field (if w.text != v.text then Value.missing else v) }
      | none => { s with sites := s.sites.insert field v }
    else s
  | none => s

/-- Forgets what a variable holds. -/
def forget (s : MethodScan) (name : String) : MethodScan :=
  { s with constants := s.constants.erase name, arrays := s.arrays.erase name }

/-- The value that a variable holds: a literal array, or a constant. -/
def held (s : MethodScan) (name : String) : Value :=
  match s.arrays[name]? with
  | some (type, size, some elems) =>
    Value.arrayLiteral type ((List.range size).map fun i => elems.getD i "0")
  | _ => s.constants.getD name Value.missing

/-- Forgets what the variable holds that a statement defines. -/
def forgetDefined (s : MethodScan) (u : Statement) : MethodScan :=
  if u.defined.isAbsent then s else s.forget u.defined.text

/-- The value that a statement writes to a field. -/
def written (s : MethodScan) (u : Statement) : Value :=
  if u.kind == .assignFieldConstant then u.right else s.held u.right.text

/-- Notes the constant that a variable is set to. -/
def assign (s : MethodScan) (u : Statement) : MethodScan :=
  { s with arrays := s.arrays.erase u.left.text, constants := s.constants.insert u.left.text u.right }

/-- The largest number of elements that an array can be allocated with. -/
def arrayLimit : Int := 0x100000000000

/-- Why a method could not be scanned. -/
def arrayFailure : String := "runtime error: makeslice: len out of range"

/-- The size that an array is allocated with, where it is a literal. -/
def size? (u : Statement) : Option Int :=
  match Number.word? u.right.numericText with
  | some n => if u.right.isNumeric && 0 ≤ n then some n else none
  | none => none

/-- Notes the allocation of an array. -/
def allocate (s : MethodScan) (u : Statement) : Except String MethodScan :=
  let s := s.forget u.left.text
  match size? u with
  | some n =>
    if arrayLimit < n then .error arrayFailure
    else .ok { s with arrays := s.arrays.insert u.left.text (u.type, n.toNat, some {}) }
  | none => .ok s

/-- The elements of an array of a size after one of them is set; an index or an element that is not constant
makes them unknown. -/
def setElement (size : Nat) (index : Option Int) (elem : Value) (elems : Option (Std.TreeMap Nat String)) :
    Option (Std.TreeMap Nat String) :=
  match index with
  | some i => if 0 ≤ i && i < size && elem.isConstant then elems.map (·.insert i.toNat elem.text) else none
  | none => none

/-- Notes the store into an array. -/
def store (s : MethodScan) (u : Statement) : MethodScan :=
  match s.arrays[u.base.text]? with
  | none => s
  | some (type, size, elems) =>
    let elem := s.constants.getD u.right.text u.right
    let elems := setElement size (Number.word? u.index.numericText) elem elems
    { s with arrays := s.arrays.insert u.base.text (type, size, elems) }

/-- Notes where the cases of a switch start. -/
def addSwitch (s : MethodScan) (u : Statement) : MethodScan :=
  { s with switches := u.targets.foldl (fun ss t => (t, u.pos) :: ss.filter (·.1 != t)) s.switches }

/-- The scan at one statement, or why it fails (`scan`). -/
def step (p : Provider) (s : MethodScan) (u : Statement) : Except String MethodScan :=
  match u.kind with
  | .invoke | .assignInvoke => .ok ({ s with callees := s.callees ++ [u.signature] }.forgetDefined u)
  | .assignVariableField => .ok ((s.addField p u.fieldSignature).forgetDefined u)
  | .assignFieldConstant | .assignFieldVariable =>
    .ok ((s.addField p u.fieldSignature).addSite p u.fieldSignature (s.written u))
  | .newArray => s.allocate u
  | .assignArrayConstant | .assignArrayVariable => .ok (s.store u)
  | .assignVariableConstant => .ok (s.assign u)
  | .switch => .ok (s.addSwitch u)
  | _ => .ok (s.forgetDefined u)

/-- Scans a body. -/
def run (p : Provider) (units : List Statement) : Except String MethodScan :=
  units.foldlM (step p) {}

/-- The body of a method and its scan, or why the method fails (`processMethod`). -/
def ofMethod (p : Provider) (sig : String) : Except String (List Statement × MethodScan) := do
  let units ← p.statements sig
  let scan ← run p units
  pure (units, scan)

end MethodScan

/-- The result of building: the graph, what was learned, and the messages. -/
structure CallModel where
  graph : CallGraph := {}
  info : CallInfo := {}
  log : Log := []

namespace CallModel

/-- Adds what a method contributes. -/
def commit (b : CallModel) (sig : String) (concrete : Bool) (s : MethodScan) : CallModel :=
  let (n, g) := b.graph.addNode sig false
  let g := if concrete then g.markConcrete n else g
  let g := s.callees.foldl (fun g c => g.link n c true) g
  let g := s.fields.foldl (fun g f => g.link n f false) g
  { b with graph := g, info := (b.info.addSites s.sites).addSwitches sig s.switches }

/-- Processes one method. -/
def addMethod (p : Provider) (b : CallModel) (m : Method) : CallModel :=
  match MethodScan.ofMethod p m.signature with
  | .ok (units, scan) => b.commit m.signature (!units.isEmpty) scan
  | .error why =>
    { b with
      log := b.log ++ Log.one .warn ("call graph: method " ++ m.signature ++ " skipped: " ++ why)
      info := { b.info with skipped := b.info.skipped ++ [m.signature] } }

/-- Processes one class; a name without a declaration is passed over. -/
def addClass (p : Provider) (b : CallModel) (name : String) : CallModel :=
  match p.classes[name]? with
  | none => { b with log := b.log ++ Log.one .debug ("skipping phantom class " ++ name) }
  | some c =>
    (c.methods.filterMap id).foldl (addMethod p) { b with info := b.info.addSites (p.constantFields name) }

end CallModel

namespace Provider

/-- The names that a declared class links to: its super class and its interfaces. -/
def superNames (p : Provider) (name : String) : List String :=
  match p.classes[name]? with
  | some c => c.super :: c.interfaces
  | none => []

/-- Bounds the number of names that a search over class links looks at. -/
def linkBound (p : Provider) : Nat :=
  p.classes.toList.foldl (fun n c => n + c.2.interfaces.length + 1) 2

/-- The super classes and interfaces of a class over all links, nearest first. -/
def superTypesFrom (p : Provider) : (fuel : Nat) → (queue found : List String) → List String
  | 0, _, found => found
  | _, [], found => found
  | fuel + 1, name :: queue, found =>
    let fresh := (p.superNames name).foldl (fun acc s =>
      if s == "" || found.contains s || acc.contains s then acc else acc ++ [s]) []
    superTypesFrom p fuel (queue ++ fresh) (found ++ fresh)

/-- The super classes and interfaces of a class over all links, nearest first. -/
def superTypes (p : Provider) (name : String) : List String :=
  (p.superTypesFrom (p.linkBound + 1) [name] [name]).drop 1

end Provider

namespace CallModel

/-- The called method of a super type that a concrete method of the developer implements. -/
def bridgeOf (p : Provider) (g : CallGraph) (n : CallNode) : String :=
  let className := Signature.className n.signature
  if n.isField || !n.isConcrete || !p.isDevClass className then ""
  else
    let candidates := (p.superTypes className).map fun s => Signature.ofMember s (Signature.member n.signature)
    match candidates.find? fun sig =>
      (match g.number? sig with | some m => !(g.callersOf m).isEmpty | none => false) with
    | some sig => sig
    | none => ""

/-- The graph with the bridges of its methods (`bridgeInterfaces`). -/
def withBridges (p : Provider) (g : CallGraph) : CallGraph :=
  { g with nodes := g.nodes.map fun n => { n with bridge := bridgeOf p g n } }

/-- The call graph of what a provider gives. -/
def ofProvider (p : Provider) : CallModel :=
  let b := p.declaredClasses.foldl (addClass p) {}
  let g := withBridges p b.graph
  { b with
    graph := g
    log := b.log ++ Log.one .info
      ("call graph: " ++ Text.ofNat g.nodes.length ++ " nodes, " ++ Text.ofNat g.edges.length ++ " edges, " ++
        Text.ofNat b.info.constants.size ++ " constant fields") }

/-- The call graph of a program whose bodies `fetch` may fail to give. -/
def build (p : Program) (fetch : String → Except String (List Statement)) : CallModel :=
  ofProvider (p.provider fetch)

/-- The call graph of a finalized program. -/
def ofProgram (p : Program) : CallModel := build p fun m => .ok (p.statements m)

end CallModel

end MisuseSlice
