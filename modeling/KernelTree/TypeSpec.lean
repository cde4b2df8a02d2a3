import KernelTree.Spelling
import KernelTree.Text.Blank
/-! Declared types and their spelling. Qualifiers stand before the base name, except those that
bind to a pointer, which follow the stars. -/
namespace KernelTree

/-- A base name under a number of pointers. -/
structure TypeSpec where
  name : String
  qualifiers : List Qualifier := []
  /-- The count is one byte wide and starts over after 255. -/
  pointers : UInt8 := 0
deriving DecidableEq, Repr, Inhabited

namespace TypeSpec

/-- The type of that name, without qualifiers and pointers. -/
def named (name : String) : TypeSpec := { name }

def pointerTo (t : TypeSpec) : TypeSpec := { t with pointers := t.pointers + 1 }

def has (t : TypeSpec) (q : Qualifier) : Bool := t.qualifiers.contains q

/-- Adds a qualifier behind those present; one that is present already is not repeated. -/
def qualify (t : TypeSpec) (q : Qualifier) : TypeSpec :=
  if t.has q then t else { t with qualifiers := t.qualifiers ++ [q] }

/-- The qualifiers that stand before the base name, and the base name. -/
def renderBase (sp : Spelling) (t : TypeSpec) : String :=
  " ".intercalate <|
    (t.qualifiers.filter (!·.bindsPointer)).filterMap sp.word? ++ [sp.typeName t.name]

/-- The stars, and behind them each word that binds to the pointer with a blank after it. -/
def renderStars (sp : Spelling) (t : TypeSpec) : String :=
  if t.pointers = 0 then ""
  else
    "".pushn '*' t.pointers.toNat ++
      String.join (((t.qualifiers.filter (·.bindsPointer)).filterMap sp.word?).map (· ++ " "))

def renderDeclarator (sp : Spelling) (name : String) (t : TypeSpec) : String :=
  t.renderBase sp ++ " " ++ t.renderStars sp ++ name

def render (sp : Spelling) (t : TypeSpec) : String :=
  let stars := t.renderStars sp
  if stars = "" then t.renderBase sp else t.renderBase sp ++ " " ++ Text.trimEnd stars

end TypeSpec
end KernelTree
