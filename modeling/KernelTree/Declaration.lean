import KernelTree.Expr.Printer
/-! Declarators, declaration lists and function signatures. -/
namespace KernelTree

/-- One entry of a declaration: a name, its type, its array dimensions and its initial value. -/
structure VarDecl where
  name : Token
  type : TypeSpec
  dims : List Expr := []
  init : Option Expr := none
deriving Repr, Inhabited

def renderDims (sp : Spelling) (dims : List Expr) : String :=
  String.join (dims.map fun dim => "[" ++ dim.render sp ++ "]")

namespace VarDecl

/-- All that follows the base type: stars, name, dimensions and initial value. -/
def renderTail (sp : Spelling) (d : VarDecl) : String :=
  d.type.renderStars sp ++ sp.identifier d.name.text ++ renderDims sp d.dims ++
    match d.init with
    | none => ""
    | some value => " = " ++ value.render sp

def render (sp : Spelling) (d : VarDecl) : String :=
  d.type.renderBase sp ++ " " ++ d.renderTail sp

/-- The declarators behind an entry whose base reads `base`: a neighbour with the same base is
joined by a comma, any other starts a declaration of its own. -/
def renderRest (sp : Spelling) (base : String) : List VarDecl → String
  | [] => ""
  | d :: rest =>
    let next := d.type.renderBase sp
    (if next = base then ", " else "; " ++ next ++ " ") ++ d.renderTail sp ++
      renderRest sp next rest

/-- Several entries on one line; neighbours with the same base type share it. -/
def renderGroup (sp : Spelling) : List VarDecl → String
  | [] => ""
  | d :: rest => d.render sp ++ renderRest sp (d.type.renderBase sp) rest

end VarDecl

inductive FunctionKind where
  /-- Launched from the host. -/
  | kernel
  /-- Called from device code only. -/
  | device
  | plain
deriving DecidableEq, Repr, Inhabited

namespace FunctionKind

def all : List FunctionKind := [kernel, device, plain]

def name : FunctionKind → String
  | kernel => "kernel"
  | device => "device"
  | plain => "plain"

def code : FunctionKind → UInt8
  | kernel => 0
  | device => 1
  | plain => 2

end FunctionKind

/-- The head that a prototype and a definition share. -/
structure Signature where
  name : Token
  kind : FunctionKind := .plain
  returns : TypeSpec
  params : List VarDecl := []
deriving Repr, Inhabited

namespace Signature

/-- A parameter; an initial value is not written. -/
def renderParam (sp : Spelling) (p : VarDecl) : String :=
  p.type.renderDeclarator sp (sp.identifier p.name.text) ++ renderDims sp p.dims

def render (sp : Spelling) (sig : Signature) : String :=
  sig.returns.render sp ++ " " ++ sp.identifier sig.name.text ++
    "(" ++ ", ".intercalate (sig.params.map (renderParam sp)) ++ ")"

end Signature
end KernelTree
