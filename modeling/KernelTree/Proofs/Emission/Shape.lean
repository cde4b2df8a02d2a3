import KernelTree.Proofs.Emission.Layout
/-! The shapes in which statements stand in a layout: as a line, as a line further out, or around
their children, with or without braces. The shape of a statement does not depend on the style, which
says only how its braces are written. -/
namespace KernelTree.Emission

open Layout

/-- What is printed of a statement apart from its children and the entries of its chain: the
children alone if it is `bare`, one line at most, a mark one level further out, or the children in
braces. Those of an `entry` may join the braces before them. -/
inductive Shape where
  | bare
  | line (content : Option String)
  | marker (content : String)
  | block
  | braces (header : String)
  | loop (test : String)
  | chain (header : String)
  | entry (header : String)

def shape (t : Tree) (d : Dialect) (id : StmtId) : Stmt → Shape
  | .block _ => if id = Tree.root then .bare else .block
  | .pragma token => .line ((d.pragma token.text).map ("#pragma " ++ ·))
  | .prototype sig => .line (some (signatureText d sig ++ ";"))
  | .function sig _ => .braces (signatureText d sig)
  | .access level => .marker (level.word ++ ":")
  | .expression value => .line (some (value.render d.toSpelling ++ ";"))
  | .declaration vars => .line (some (VarDecl.renderGroup d.toSpelling vars ++ ";"))
  | .goto target => .line (some ("goto " ++ target.text ++ ";"))
  | .label name => .marker (name.text ++ ":")
  | .namespaceBlock name _ => if d.namespaces then .braces ("namespace " ++ name.text) else .bare
  | .conditional condition _ _ _ => .chain (headed "if" condition)
  | .elif condition _ => .entry (headed "else if" condition)
  | .otherwise _ => .entry "else"
  | .forLoop init test update _ => .braces (forHeader (part init) (part test) (part update))
  | .whileLoop condition _ false => .braces (headed "while" condition)
  | .whileLoop condition _ true => .loop (headed "while" condition ++ ";")
  | .switch condition _ => .braces (headed "switch" condition)
  | .caseLabel value => .marker ("case " ++ value.render d.toSpelling ++ ":")
  | .defaultLabel => .marker "default:"
  | .continueJump => .line (some "continue;")
  | .breakJump => .line (some "break;")
  | .returnJump none => .line (some "return;")
  | .returnJump (some value) => .line (some ("return " ++ value.render d.toSpelling ++ ";"))
where
  headed := frame.headed t d
  part := frame.part t d

namespace Shape

/-- The text of a shape around those of the children, given by their depth, and of the entries. -/
def text (style : Style) (place : Place) (depth : Nat) (children : Nat → String)
    (entries : String) : Shape → String
  | bare => children depth
  | line content => (content.map (Layout.line style depth)).getD ""
  | marker content => Layout.line style (depth - 1) content
  | block => Layout.line style depth "\x7b" ++ inside
  | braces header => opening style depth header ++ inside
  | loop test => opening style depth "do" ++ children (depth + 1) ++
      if style.braceOnNewLine then Layout.line style depth "\x7d" ++ Layout.line style depth test
      else Layout.line style depth ("\x7d " ++ test)
  | chain header =>
    opening style depth header ++ children (depth + 1) ++ closing style depth ++ entries ++ "\n"
  | entry header =>
    match place with
    | .alone => opening style depth header ++ inside
    | .chained => joining style depth header ++ children (depth + 1) ++ closing style depth
where
  inside : String := children (depth + 1) ++ Layout.line style depth "\x7d"

end Shape

variable {t : Tree} {d : Dialect} {place : Place} {depth : Nat} {id : StmtId}

theorem frame_eq_text (children : Nat → String) (entries : String) (s : Stmt) :
    frame t d place depth id children entries s =
      (shape t d id s).text d.style place depth children entries := by
  cases s
  case block =>
    simp only [frame, shape]
    split
    · rfl
    · exact String.append_assoc
  case pragma token =>
    simp only [frame, shape]
    cases d.pragma token.text <;> rfl
  case namespaceBlock =>
    simp only [frame, shape]
    split
    · exact String.append_assoc
    · rfl
  case elif | otherwise =>
    cases place
    · exact String.append_assoc
    · rfl
  case function | forLoop | switch => exact String.append_assoc
  case whileLoop condition body bodyFirst =>
    cases bodyFirst
    · exact String.append_assoc
    · rfl
  case returnJump value => cases value <;> rfl
  all_goals rfl

/-- The text of a statement by its shape. -/
theorem layout_eq_text {h : t.Linked} {s : Stmt} (found : t.stmt? id = some s) :
    layout h d place depth id = (shape t d id s).text d.style place depth
      (layouts h d .alone · s.children) (layouts h d .chained depth s.chain) := by
  rw [layout_of_stmt? found, frame_eq_text]

end KernelTree.Emission
