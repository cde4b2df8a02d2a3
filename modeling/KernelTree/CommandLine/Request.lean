import KernelTree.CommandLine.Arguments
/-! What the user can ask the program to do. -/
namespace KernelTree.CommandLine

structure EmitRequest where
  input : String
  targets : List String
  /-- Paths of files with dialects, which are targets too. -/
  overrides : List String := []
  /-- The directory for the files; without one, the texts are printed. -/
  output : Option String := none
  prelude : Bool := true
  validate : Bool := true
deriving DecidableEq, Repr, Inhabited

inductive Request where
  | emit (r : EmitRequest)
  | check (input : String) (denyWarnings : Bool)
  | hash (input : String) (full : Bool)
  | targets
deriving DecidableEq, Repr, Inhabited

namespace Request

def helpFlag : Flag := { long := "help", short := some 'h' }

def versionFlag : Flag := { long := "version", short := some 'V' }

def ownFlags : List Flag := [helpFlag, versionFlag]

def emitFlags : List Flag :=
  [{ long := "target", short := some 't', takesValue := true, repeatable := true },
    { long := "dialect-config", takesValue := true, repeatable := true, isPath := true },
    { long := "output", short := some 'o', takesValue := true, isPath := true },
    { long := "no-prelude" }, { long := "no-validate" }, helpFlag]

def checkFlags : List Flag := [{ long := "deny-warnings" }, helpFlag]

def hashFlags : List Flag := [{ long := "full" }, helpFlag]

def commands : List String := ["emit", "check", "hash", "targets", "help"]

/-- The only file that a command is about. -/
def input (g : Given) : Except Stop String :=
  match g.plain with
  | [path] => .ok path
  | _ => .error .usage

def emitOfGiven (g : Given) : Except Stop Request := do
  let targets := g.all "target"
  return .emit {
    input := ← input g
    targets := if targets.isEmpty then ["serial"] else targets
    overrides := g.all "dialect-config"
    output := (g.all "output").head?
    prelude := !g.has "no-prelude"
    validate := !g.has "no-validate" }

def ofWords : List String → Except Stop Request
  | [] => .error .usage
  | "emit" :: words => do emitOfGiven (← Given.ofWords emitFlags 1 words)
  | "check" :: words => do
    let g ← Given.ofWords checkFlags 1 words
    return .check (← input g) (g.has "deny-warnings")
  | "hash" :: words => do
    let g ← Given.ofWords hashFlags 1 words
    return .hash (← input g) (g.has "full")
  | "targets" :: words => do
    discard (Given.ofWords [helpFlag] 0 words)
    return .targets
  | "help" :: words => .error (if words.all commands.contains then .help else .usage)
  | word :: _ => do
    -- options of the program itself leave nothing to do for a command
    discard (Given.ofWords ownFlags 0 [word])
    throw .usage

end Request
end KernelTree.CommandLine
