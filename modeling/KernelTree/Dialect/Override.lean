import KernelTree.Data.Schema
import KernelTree.Diagnostic.Basic
import KernelTree.Dialect.Builtin
import KernelTree.Files.Basic
import KernelTree.Toml.Reader
/-! Dialects that a user derives from the known ones. A TOML file names the base and says what is
different. -/
namespace KernelTree

structure StyleOverride where
  /-- Indentation by that many blanks. -/
  indent : Option Nat := none
  /-- Indentation by one tab, whatever `indent` says. -/
  tabs : Bool := false
  braceOnNewLine : Option Bool := none
  cuddleElse : Option Bool := none
deriving DecidableEq, Repr, Inhabited

structure DialectOverride where
  name : String
  /-- The name of the dialect on which this one is built. -/
  base : String
  extension : Option String := none
  namespaces : Option Bool := none
  style : StyleOverride := {}
  /-- Words for qualifiers; the empty word drops the qualifier. -/
  qualifiers : List (String × String) := []
  identifiers : List (String × String) := []
  /-- Pragmas that begin with one of these words are dropped. -/
  droppedPragmas : List String := []
deriving DecidableEq, Repr, Inhabited

namespace Schema

/-- What a user writes by hand must not hold members of other names. -/
def handwritten : Strictness := { refuseUnknown := true, refuseLonger := false }

def styleOverride : Schema StyleOverride :=
  (fun (indent, tabs, braceOnNewLine, cuddleElse) =>
      { indent, tabs, braceOnNewLine, cuddleElse }) <$>
    record handwritten "struct StyleSection"
      ((tableOptional "indent" (natural 0xFFFFFFFFFFFFFFFF "usize")).and
        ((defaulted "tabs" false bool).and
          ((tableOptional "brace_on_new_line" bool).and (tableOptional "cuddle_else" bool))))

/-- The name, the base, and what concerns the dialect as a whole. -/
def dialectSection : Schema (String × String × Option String × Option Bool) :=
  record handwritten "struct DialectSection"
    ((required "name" text).and ((required "extends" text).and
      ((tableOptional "extension" text).and (tableOptional "namespaces" bool))))

def droppedPragmas : Schema (List String) :=
  record handwritten "struct PragmaSection" (defaulted "drop" [] (list text))

def dialectOverride : Schema DialectOverride :=
  (fun ((name, base, extension, namespaces), style, qualifiers, identifiers, droppedPragmas) =>
      { name, base, extension, namespaces, style, qualifiers, identifiers, droppedPragmas }) <$>
    record handwritten "struct DialectConfig"
      ((required "dialect" dialectSection).and ((defaulted "style" {} styleOverride).and
        ((defaulted "qualifiers" [] (table text)).and
          ((defaulted "identifiers" [] (table text)).and
            (defaulted "pragmas" [] droppedPragmas)))))

end Schema

inductive DialectError where
  | unreadable (path : String) (cause : FileError)
  /-- The file does not hold TOML. -/
  | malformed (path : String)
  /-- The file holds TOML, but does not describe a dialect. -/
  | unfit (path : String) (cause : Mismatch)
  | invalidName (name : String)
  | unknownBase (name : String)
  | unknownQualifier (name : String)

namespace DialectError

def message : DialectError → String
  | unreadable path cause => s!"cannot read dialect config '{path}': {cause.message}"
  | malformed path => s!"{path}: not well-formed TOML"
  | unfit path cause => s!"{path}: {cause.message .unbounded}"
  | invalidName name => s!"invalid dialect name '{name}'"
  | unknownBase name => s!"unknown base dialect '{name}'"
  | unknownQualifier name => s!"unknown qualifier '{name}' in [qualifiers]"

/-- What the user could have asked for. -/
def help? : DialectError → Option String
  | unknownBase _ =>
    some ("built-in dialects: " ++ ", ".intercalate (Dialect.builtins.map (·.name)))
  | unknownQualifier _ =>
    some ("qualifiers: " ++ ", ".intercalate (Qualifier.all.map (·.name)))
  | _ => none

def toDiagnostic (e : DialectError) : Diagnostic := { message := e.message, help := e.help? }

end DialectError

namespace DialectOverride

/-- Whether a text can be the name of a dialect. Names become parts of file names, so they must
not lead into other directories nor hide the file. -/
def isValidName (name : String) : Bool :=
  !name.isEmpty && !name.toList.contains '/' && !name.toList.contains '\\' &&
    !hasTwoDots name.toList && name.toList.head? != some '.'
where
  /-- Whether two dots stand side by side. -/
  hasTwoDots : List Char → Bool
    | '.' :: '.' :: _ => true
    | _ :: rest => hasTwoDots rest
    | [] => false

/-- Reads the changes off a TOML text; `path` stands for the text in messages. -/
def parse (source path : String) : Except DialectError DialectOverride := do
  let some d := Toml.parse? source | throw (.malformed path)
  let o ← (Schema.dialectOverride.convert d).mapError (.unfit path)
  unless isValidName o.name do throw (.invalidName o.name)
  return o

/-- The words for qualifiers by which a dialect differs from its base. -/
def qualifierWords (o : DialectOverride) : Except DialectError (List (Qualifier × String)) :=
  o.qualifiers.mapM fun (name, word) =>
    match Qualifier.ofName? name with
    | some q => .ok (q, word)
    | none => .error (.unknownQualifier name)

end DialectOverride

def Style.override (s : Style) (o : StyleOverride) : Style where
  indent :=
    if o.tabs then "\t"
    else match o.indent with
      | some width => "".pushn ' ' width
      | none => s.indent
  braceOnNewLine := o.braceOnNewLine.getD s.braceOnNewLine
  cuddleElse := o.cuddleElse.getD s.cuddleElse

namespace DialectOverride

def toDialect (o : DialectOverride) : Except DialectError Dialect := do
  let some base := Dialect.ofName? o.base | throw (.unknownBase o.base)
  let words ← o.qualifierWords
  return { base with
    name := o.name
    extension := o.extension.getD base.extension
    style := base.style.override o.style
    namespaces := o.namespaces.getD base.namespaces
    qualifier q :=
      match words.lookup q with
      | some word => if word = "" then none else some word
      | none => base.qualifier q
    identifier name := (o.identifiers.lookup name).getD (base.identifier name)
    pragma text :=
      if o.droppedPragmas.contains (Text.firstWord text) then none else base.pragma text }

end DialectOverride

namespace Dialect

/-- Reads a dialect off a TOML text; `path` stands for the text in messages. -/
def parse (source path : String) : Except DialectError Dialect := do
  (← DialectOverride.parse source path).toDialect

variable {m : Type → Type} [Monad m] [Files m]

/-- The dialect of a target: the name of a known one, or the path of a TOML file. -/
def resolve (target : String) : m (Except DialectError Dialect) := do
  if ".toml".toList.isSuffixOf target.toList then
    match ← Files.read target with
    | .ok source => return parse source target
    | .error cause => return .error (.unreadable target cause)
  else
    match ofName? target with
    | some d => return .ok d
    | none => return .error (.unknownBase target)

end Dialect
end KernelTree
