/-! The words of a command line: options, their values, and what stands for itself. -/
namespace KernelTree.CommandLine

/-- An option that a command knows. -/
structure Flag where
  /-- The name behind two dashes. -/
  long : String
  /-- The letter behind one dash. -/
  short : Option Char := none
  takesValue : Bool := false
  repeatable : Bool := false
  /-- The value is the path of a file and cannot be empty. -/
  isPath : Bool := false
deriving DecidableEq, Repr, Inhabited

/-- What is asked for instead of the work of a command. -/
inductive Stop where
  /-- The command line cannot be understood. -/
  | usage
  | help
  | version
deriving DecidableEq, Repr, Inhabited

inductive Argument where
  | flag (known : Flag)
  | value (known : Flag) (text : String)
  | plain (text : String)
  | fault
deriving DecidableEq, Repr

/-- Whether a word is an option or the mark behind which there are no more options. A dash alone is
neither. -/
def isDashed (word : String) : Bool := 1 < word.length && word.toList.head? == some '-'

/-- Takes a group of single-letter options apart. The first that takes a value takes the rest of
the group, or else the next word. -/
def splitGroup (known : List Flag) : List Char → List Argument × Option Flag
  | [] => ([], none)
  | letter :: rest =>
    match known.find? (·.short = some letter) with
    | none => ([.fault], none)
    | some flag =>
      if flag.takesValue then
        match rest with
        | [] => ([], some flag)
        | '=' :: text => ([.value flag (String.ofList text)], none)
        | text => ([.value flag (String.ofList text)], none)
      else
        let (others, open?) := splitGroup known rest
        (.flag flag :: others, open?)

/-- Takes a word with a dash apart: what it says, and the option that waits for its value. -/
def splitDashed (known : List Flag) (word : String) : List Argument × Option Flag :=
  match word.toList with
  | '-' :: '-' :: text =>
    let name := String.ofList (text.takeWhile (· ≠ '='))
    match known.find? (·.long = name), text.dropWhile (· ≠ '=') with
    | none, _ => ([.fault], none)
    | some flag, [] => if flag.takesValue then ([], some flag) else ([.flag flag], none)
    | some flag, _ :: value =>
      if flag.takesValue then ([.value flag (String.ofList value)], none) else ([.fault], none)
  | _ :: group => splitGroup known group
  | [] => ([.fault], none)

/-- Reads words in order. An option may be waiting for its value, which cannot begin with a
dash. -/
def scan (known : List Flag) : Option Flag → List String → List Argument
  | none, [] => []
  | some _, [] => [.fault]
  | some flag, word :: rest =>
    if isDashed word then [.fault] else .value flag word :: scan known none rest
  | none, word :: rest =>
    if word = "--" then rest.map .plain
    else if isDashed word then
      let (found, waiting) := splitDashed known word
      found ++ scan known waiting rest
    else .plain word :: scan known none rest

/-- What has been given to a command. -/
structure Given where
  plain : List String := []
  flags : List String := []
  /-- Names of options with their values. -/
  values : List (String × String) := []
deriving DecidableEq, Repr, Inhabited

namespace Given

def has (g : Given) (name : String) : Bool := g.flags.contains name

/-- All values of an option, in order. -/
def all (g : Given) (name : String) : List String :=
  (g.values.filter (·.1 = name)).map (·.2)

/-- Records one argument more, or stops. At most `places` words stand for themselves, and they
name files. -/
def record (places : Nat) (g : Given) : Argument → Except Stop Given
  | .fault => .error .usage
  | .flag flag =>
    if flag.long = "help" then .error .help
    else if flag.long = "version" then .error .version
    else if g.has flag.long then .error .usage
    else .ok { g with flags := g.flags ++ [flag.long] }
  | .value flag text =>
    if flag.isPath ∧ text = "" then .error .usage
    else if !flag.repeatable ∧ g.all flag.long ≠ [] then .error .usage
    else .ok { g with values := g.values ++ [(flag.long, text)] }
  | .plain text =>
    if text = "" ∨ places ≤ g.plain.length then .error .usage
    else .ok { g with plain := g.plain ++ [text] }

def ofWords (known : List Flag) (places : Nat) (words : List String) : Except Stop Given :=
  (scan known none words).foldlM (record places) {}

end Given
end KernelTree.CommandLine
