import KernelTree.Description.Format
import KernelTree.Dialect.Override
import KernelTree.Emission.Printer
import KernelTree.Files.Path
import KernelTree.Fingerprint.Basic
import KernelTree.Tree.Copy
import KernelTree.Validation
/-! One tree, many targets: the tree is validated once, and every target gets a copy of its own
from which its text is printed. -/
namespace KernelTree

structure CompileOptions where
  /-- Errors found in the tree prevent the compilation. -/
  validate : Bool := true
  /-- The text begins with the prelude of its dialect. -/
  prelude : Bool := true
deriving DecidableEq, Repr, Inhabited

structure TargetOutput where
  target : String
  extension : String
  source : String
  /-- The fingerprint of the copy from which the text was printed. -/
  fingerprint : Fingerprint
deriving DecidableEq, Repr, Inhabited

structure Compilation where
  /-- One text for each dialect asked for, in that order. -/
  outputs : List TargetOutput
  warnings : List Diagnostic
deriving DecidableEq, Repr, Inhabited

/-- The values of a list of results, or its errors if there are any. -/
def allOrErrors : List (Except ε α) → Except (List ε) (List α)
  | [] => .ok []
  | .ok a :: rest => (allOrErrors rest).map (a :: ·)
  | .error e :: rest =>
    match allOrErrors rest with
    | .ok _ => .error [e]
    | .error errors => .error (e :: errors)

namespace Tree

/-- The report of a copy that does not have the fingerprint of the tree it was made of. -/
def divergence (target : String) (expected found : Fingerprint) : Diagnostic :=
  { message := s!"clone for target '{target}' diverged from its source",
    notes := [s!"expected {expected.short}, found {found.short}"] }

/-- Prints a copy of the tree for one target, if the copy has the fingerprint it should have. -/
def compileFor (t : Tree) (options : CompileOptions) (expected : Fingerprint) (d : Dialect) :
    Except Diagnostic TargetOutput := do
  let copy ← t.fork.mapError (Diagnostic.ofTreeError ·)
  let found := copy.fingerprint root
  if found ≠ expected then throw (divergence d.name expected found)
  let source :=
    if options.prelude then Emission.emitProgram copy d else Emission.emit copy root d
  return { target := d.name, extension := d.extension, source, fingerprint := found }

/-- The texts of a tree in several dialects, or all that speaks against it. -/
def compile (t : Tree) (dialects : List Dialect) (options : CompileOptions) :
    Except (List Diagnostic) Compilation := do
  let findings := if options.validate then t.validate root else []
  let errors := findings.filter (·.isError)
  unless errors.isEmpty do throw (errors.map (·.toDiagnostic))
  let expected := t.fingerprint root
  let outputs ← allOrErrors (dialects.map (t.compileFor options expected))
  return { outputs, warnings := (findings.filter (!·.isError)).map (·.toDiagnostic) }

end Tree

namespace Dialect

variable {m : Type → Type} [Monad m] [Files m]

/-- The dialects of several targets in order, or the reports about those that have none. -/
def resolveAll (targets : List String) : m (Except (List Diagnostic) (List Dialect)) := do
  let found ← targets.mapM resolve
  return allOrErrors (found.map (·.mapError (·.toDiagnostic)))

end Dialect

/-- The name of a kernel: the one it is given, or else that of its file. -/
def kernelName (given : Option String) (path : String) : String :=
  given.getD ((Path.fileStem? path).getD "kernel")

section

variable {m : Type → Type} [Monad m] [Files m]

/-- Reads the description in a file; the given name of the kernel and its tree. -/
def Description.loadFile (path : String) : m (Except Diagnostic (Option String × Tree)) := do
  match ← Files.read path with
  | .ok source => return (load source).mapError (·.toDiagnostic)
  | .error cause =>
    return .error { message := s!"cannot read kernel description '{path}': {cause.message}" }

/-- Compiles the description in a file. The targets are looked up before the file is read. -/
def compileFile (path : String) (targets : List String) (options : CompileOptions) :
    m (Except (List Diagnostic) (String × Compilation)) := do
  match ← Dialect.resolveAll targets with
  | .error errors => return .error errors
  | .ok dialects =>
    match ← Description.loadFile path with
    | .error e => return .error [e]
    | .ok (name, t) =>
      return (t.compile dialects options).map (kernelName name path, ·)

end

end KernelTree
