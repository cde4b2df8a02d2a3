import KernelTree.CommandLine.Request
import KernelTree.Compilation
import KernelTree.Diagnostic.Report
/-! The commands of the program. -/
namespace KernelTree.CommandLine

inductive Remark where
  | line (text : String)
  /-- A report about a file with that text. -/
  | report (d : Diagnostic) (file source : String)
deriving DecidableEq, Repr

def Remark.lines : Remark → List String
  | line text => [text]
  | report d file source => d.report file source

/-- How a run of the program ends. -/
structure Outcome where
  status : Nat := 0
  /-- What is printed on the output stream. -/
  output : String := ""
  remarks : List Remark := []
deriving DecidableEq, Repr, Inhabited

namespace Outcome

def refused (file source : String) (ds : List Diagnostic) : Outcome :=
  { status := 1, remarks := ds.map (.report · file source) }

def failed (text : String) : Outcome := { status := 1, remarks := [.line ("error: " ++ text)] }

def after (o : Outcome) (earlier : List Remark) : Outcome :=
  { o with remarks := earlier ++ o.remarks }

end Outcome

structure Loaded where
  path : String
  source : String
  name : Option String
  tree : Tree

/-- The file for a text: named for the kernel, or for the kernel and the target if a file of that
name has been taken. -/
def outputPath (directory name : String) (taken : List (List String)) (o : TargetOutput) : String :=
  let path := Path.join directory (name ++ o.extension)
  if Path.names path ∈ taken then
    Path.join directory (name ++ "." ++ o.target ++ o.extension)
  else path

/-- The files for texts, in order, given the names of the files taken before. -/
def outputPaths (directory name : String) : List (List String) → List TargetOutput → List String
  | _, [] => []
  | taken, o :: rest =>
    let path := outputPath directory name taken o
    path :: outputPaths directory name (Path.names path :: taken) rest

/-- What is printed for several targets: the texts, with a line before each if there are
several. -/
def printed (outputs : List TargetOutput) : String :=
  String.join <| outputs.map fun o =>
    (if 1 < outputs.length then s!"// --- {o.target} ---\n" else "") ++ o.source

/-- The words of a target with its layout, as a line of the list. -/
def targetLine (d : Dialect) : String :=
  let padded (width : Nat) (text : String) := text ++ "".pushn ' ' (width - text.length)
  let braces := if d.style.braceOnNewLine then "allman" else "k&r"
  s!"{padded 8 d.name} {padded 7 d.extension} indent {Text.quote d.style.indent}, {braces}\n"

def listTargets : Outcome := { output := String.join (Dialect.builtins.map targetLine) }

/-- Reports what is wrong with the tree; only errors are failures, unless warnings count too. -/
def Loaded.check (l : Loaded) (denyWarnings : Bool) : Outcome :=
  let findings := l.tree.validate Tree.root
  let reports := findings.map fun f => Remark.report f.toDiagnostic l.path l.source
  if findings.any fun f => f.isError || denyWarnings then { status := 1, remarks := reports }
  else { remarks := reports ++ [.line s!"OK: {l.path} ({l.tree.live} statements)"] }

/-- Prints the fingerprint of the tree, beside its name or else its path. -/
def Loaded.hash (l : Loaded) (full : Bool) : Outcome :=
  let f := l.tree.fingerprint Tree.root
  let digest := if full then f.hex else f.short
  { output := s!"{digest} {l.name.getD l.path}\n" }

section

variable {m : Type → Type} [Monad m] [Files m]

def withLoaded (path : String) (act : Loaded → m Outcome) : m Outcome := do
  match ← Files.read path with
  | .error e => return .failed s!"cannot read '{path}': {e.message}"
  | .ok source =>
    match Description.load source with
    | .error e => return .refused path source [e.toDiagnostic]
    | .ok (name, tree) => act { path, source, name, tree }

/-- Writes texts into their files until one cannot be written. -/
def writeAll (name : String) : List (String × TargetOutput) → m Outcome
  | [] => return {}
  | (path, o) :: rest => do
    match ← Files.write path o.source with
    | .error e => return .failed s!"cannot write '{path}': {e.message}"
    | .ok () =>
      return (← writeAll name rest).after [.line s!"Emitted {name} ({o.target}) -> {path}"]

/-- Writes texts into a directory, which is made if it is missing. -/
def writeOutputs (directory name : String) (outputs : List TargetOutput) : m Outcome := do
  match ← Files.createDirectories directory with
  | .error e => return .failed s!"cannot create '{directory}': {e.message}"
  | .ok () => writeAll name ((outputPaths directory name [] outputs).zip outputs)

/-- Prints the tree for all targets, or writes it into files. -/
def Loaded.emit (l : Loaded) (r : EmitRequest) : m Outcome := do
  match ← Dialect.resolveAll (r.targets ++ r.overrides) with
  | .error errors => return .refused l.path l.source errors
  | .ok dialects =>
    match l.tree.compile dialects { validate := r.validate, prelude := r.prelude } with
    | .error errors => return .refused l.path l.source errors
    | .ok compiled =>
      let outcome ← match r.output with
        | none => pure { output := printed compiled.outputs }
        | some directory => writeOutputs directory (kernelName l.name l.path) compiled.outputs
      return outcome.after (compiled.warnings.map (.report · l.path l.source))

def Request.run : Request → m Outcome
  | .emit r => withLoaded r.input (·.emit r)
  | .check input denyWarnings => withLoaded input fun l => return l.check denyWarnings
  | .hash input full => withLoaded input fun l => return l.hash full
  | .targets => return listTargets

/-- What is said to a user who asks for help, or who needs it. -/
def usage : List String :=
  ["Usage: kernelc <COMMAND>",
    "",
    "  emit <INPUT> [-t <TARGET>]... [--dialect-config <PATH>]... [-o <DIRECTORY>]",
    "       [--no-prelude] [--no-validate]",
    "  check <INPUT> [--deny-warnings]",
    "  hash <INPUT> [--full]",
    "  targets"]

def run (words : List String) : m Outcome :=
  match Request.ofWords words with
  | .ok request => request.run
  | .error .version => return { output := "kernelc 0.1.0\n" }
  | .error .help => return { output := String.join (usage.map (· ++ "\n")) }
  | .error .usage => return { status := 2, remarks := usage.map .line }

end

end KernelTree.CommandLine
