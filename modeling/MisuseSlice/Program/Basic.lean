import Std.Data.TreeMap
import MisuseSlice.Statement.Basic

/-!
Programs: classes with their fields and methods. A program as read may have gaps; finalizing it sets
the positions of statements, drops the bodies that hold a defective statement, and indexes classes
and methods by name. The last declaration of a name wins.
-/
namespace MisuseSlice

/-- A field declaration. -/
structure Field where
  signature : String := ""
  isStatic : Bool := false
  isFinal : Bool := false
  /-- The constant recorded for the field, if any. -/
  constant : Option Value := none
  deriving DecidableEq, Repr, Inhabited

/-- A method declaration with its body. -/
structure Method where
  signature : String := ""
  isStatic : Bool := false
  isAbstract : Bool := false
  /-- The statements of the body; a gap stands for one that does nothing. -/
  units : List (Option Statement) := []
  deriving DecidableEq, Repr, Inhabited

namespace Method

/-- The statements of the body. -/
def statements (m : Method) : List Statement := m.units.filterMap id

/-- The method has a body. -/
def isConcrete (m : Method) : Bool := !m.isAbstract && !m.units.isEmpty

end Method

/-- A class or interface declaration. -/
structure ClassDecl where
  name : String := ""
  super : String := ""
  interfaces : List String := []
  isInterface : Bool := false
  isEnum : Bool := false
  fields : List Field := []
  methods : List (Option Method) := []
  deriving DecidableEq, Repr, Inhabited

/-- A program that may have been finalized. -/
structure Program where
  package : String := ""
  /-- The name of the application class, if declared. -/
  application : String := ""
  /-- The declared activities, services, receivers and providers. -/
  components : List String := []
  /-- Further name starts of classes written by the developer. -/
  devPrefixes : List String := []
  classes : List (Option ClassDecl) := []
  /-- The list of classes was given, be it empty. -/
  listsClasses : Bool := false
  /-- The name starts of platform classes, once known. -/
  builtins : Option (List String) := none
  classIndex : Std.TreeMap String ClassDecl := {}
  methodIndex : Std.TreeMap String Method := {}
  componentNames : List String := []
  deriving Inhabited

/-- Something in a program that is left out of it. -/
inductive Problem where
  | namelessClass
  | methodSignature (className : String)
  | statement (method : String) (pos : Nat) (defect : Statement.Defect)
  deriving DecidableEq, Repr

/-- The wording of a problem. -/
def Problem.message : Problem → String
  | namelessClass => "class without a name"
  | methodSignature c => "class " ++ c ++ ": method with invalid signature"
  | statement m pos d => "method " ++ m ++ ": " ++ d.message pos

/-- The name starts of platform and language runtime classes. -/
def defaultBuiltins : List String :=
  ["java", "android", "kotlin", "dalvik", "sun.", "org.apache.http", "org.json"]

namespace Method

/-- The statements with their positions, gaps filled. -/
def positioned (m : Method) : List Statement :=
  m.units.mapIdx fun i u =>
    match u with
    | some s => { s with pos := i }
    | none => Statement.nopAt i

/-- The first statement with a defect, and the defect. -/
def firstDefect? (size : Nat) : List Statement → Option (Nat × Statement.Defect)
  | [] => none
  | s :: rest =>
    match s.defect? size with
    | some d => some (s.pos, d)
    | none => firstDefect? size rest

/-- The method with positions set, or without a body where a statement is defective. -/
def finalized (m : Method) : Method × Option Problem :=
  match firstDefect? m.units.length m.positioned with
  | some (pos, d) => ({ m with units := [] }, some (.statement m.signature pos d))
  | none => ({ m with units := m.positioned.map some }, none)

/-- A declaration in a class, finalized where it has a signature, and what was left out. -/
def finalizedIn (className : String) : Option Method → Option Method × List Problem
  | some m =>
    if Signature.isMethod m.signature then (some m.finalized.1, m.finalized.2.toList)
    else (some m, [.methodSignature className])
  | none => (none, [.methodSignature className])

end Method

namespace ClassDecl

/-- The class with its methods finalized, and what was left out. -/
def finalized (c : ClassDecl) : ClassDecl × List Problem :=
  let results := c.methods.map (Method.finalizedIn c.name)
  ({ c with methods := results.map (·.1) }, results.flatMap (·.2))

/-- A declaration in a program, finalized where it has a name, and what was left out. -/
def finalizedIn : Option ClassDecl → Option ClassDecl × List Problem
  | some c =>
    if c.name == "" then (some c, [.namelessClass])
    else (some c.finalized.1, c.finalized.2)
  | none => (none, [.namelessClass])

/-- The methods of the class that have a signature. -/
def indexedMethods (c : ClassDecl) : List Method :=
  c.methods.filterMap fun m =>
    match m with
    | some m => if Signature.isMethod m.signature then some m else none
    | none => none

end ClassDecl

namespace Program

/-- The classes that have a name. -/
def namedClasses (p : Program) : List ClassDecl :=
  p.classes.filterMap fun c =>
    match c with
    | some c => if c.name == "" then none else some c
    | none => none

/-- The classes and methods by name, and what else is looked up in a finalized program. -/
def indexed (p : Program) : Program :=
  { p with
    builtins := some (p.builtins.getD defaultBuiltins)
    classIndex := p.namedClasses.foldl (fun ix c => ix.insert c.name c) {}
    methodIndex :=
      p.namedClasses.foldl
        (fun ix c => c.indexedMethods.foldl (fun ix m => ix.insert m.signature m) ix) {}
    componentNames :=
      p.components ++ (if p.application == "" then [] else [p.application]) }

/-- Sets positions, drops defective bodies and builds the indexes. -/
def finalize (p : Program) : Program × List Problem :=
  let results := p.classes.map ClassDecl.finalizedIn
  (indexed { p with classes := results.map (·.1) }, results.flatMap (·.2))

/-- Adds a class, which is known by name after finalizing only. -/
def addClass (p : Program) (c : ClassDecl) : Program :=
  { p with classes := p.classes ++ [some c], listsClasses := true }

/-- Sets the name starts of platform classes. -/
def withBuiltins (p : Program) (starts : List String) : Program :=
  { p with builtins := some starts }

/-- The method with a signature. -/
def method? (p : Program) (sig : String) : Option Method := p.methodIndex[sig]?

/-- The class with a name. -/
def class? (p : Program) (name : String) : Option ClassDecl := p.classIndex[name]?

/-- The statements of a method, none for an unknown one. -/
def statements (p : Program) (sig : String) : List Statement :=
  match p.method? sig with
  | some m => m.statements
  | none => []

/-- The names of the declared classes, sorted. -/
def declaredClasses (p : Program) : List String := p.classIndex.toList.map (·.1)

/-- The methods, sorted by signature. -/
def methods (p : Program) : List Method := p.methodIndex.toList.map (·.2)

/-- A class of the platform or of the language runtime. -/
def isBuiltinClass (p : Program) (name : String) : Bool :=
  (p.builtins.getD []).any (Text.startsWith name ·)

/-- A class written by the developer of the application. -/
def isDevClass (p : Program) (name : String) : Bool :=
  if name == "" || p.isBuiltinClass name then false
  else if p.package != "" && Text.startsWith name p.package then true
  else p.devPrefixes.any (Text.startsWith name ·)

/-- A declared component or the application class. -/
def isComponent (p : Program) (name : String) : Bool := p.componentNames.contains name

/-- The names that a declared class links to: its super class and its interfaces. -/
def superNames (p : Program) (name : String) : List String :=
  match p.class? name with
  | some c => c.super :: c.interfaces
  | none => []

/-- Searches the class links for `goal` from the pending names. -/
def linksTo (p : Program) (goal : String) : (fuel : Nat) → (pending visited : List String) → Bool
  | 0, _, _ => false
  | _, [], _ => false
  | fuel + 1, name :: rest, visited =>
    if name == goal then true
    else if name == "" || visited.contains name then linksTo p goal fuel rest visited
    else linksTo p goal fuel (p.superNames name ++ rest) (name :: visited)

/-- Bounds the number of names that a search over class links looks at. -/
def linkBound (p : Program) : Nat :=
  p.classIndex.toList.foldl (fun n c => n + c.2.interfaces.length + 1) 2

/-- `name` is `goal`, or extends or implements it over any number of classes. -/
def implements (p : Program) (name goal : String) : Bool :=
  p.linksTo goal p.linkBound [name] []

/-- The static final fields of a class that have a constant, the last one of a signature. -/
def constantFields (p : Program) (className : String) : Std.TreeMap String Value :=
  match p.class? className with
  | none => {}
  | some c =>
    c.fields.foldl (fun ix f =>
      match f.constant with
      | some v => if f.isStatic && f.isFinal then ix.insert f.signature v else ix
      | none => ix) {}

/-- The declaration of a field. -/
def field? (p : Program) (sig : String) : Option Field :=
  match p.class? (Signature.className sig) with
  | some c => c.fields.find? (·.signature == sig)
  | none => none

end Program

end MisuseSlice
