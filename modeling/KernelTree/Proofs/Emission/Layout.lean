import KernelTree.Proofs.Emission.Steps
/-! The layout of a subtree, by recursion over what it owns: the text of a statement is put together
from those of its children, one level deeper, and of the entries of its chain, at its own level.
Nothing here looks at what was printed before. -/
namespace KernelTree.Emission

/-- How a statement is printed: by itself, or as an entry of the if-chain that it belongs to. -/
inductive Place where
  | alone
  | chained
deriving DecidableEq, Repr

namespace Layout

section lines
variable (style : Style) (depth : Nat)

def line (content : String) : String := indentation style depth ++ content ++ "\n"

/-- A header and its opening brace. -/
def opening (header : String) : String :=
  if style.braceOnNewLine then line style depth header ++ line style depth "\x7b"
  else line style depth (header ++ " \x7b")

/-- A closing brace, whose line may go on. -/
def closing : String := indentation style depth ++ "\x7d"

/-- The header and the opening brace of an entry of an if-chain, behind the closing brace of what
comes before it in the chain. -/
def joining (header : String) : String :=
  if style.cuddleElse then
    " " ++ header ++ (if style.braceOnNewLine then "\n" ++ line style depth "\x7b" else " \x7b\n")
  else "\n" ++ opening style depth header

end lines

/-- The text of one statement around the texts of its children, given by their depth, and of the
entries of its if-chain. The line of the last closing brace of a chain is ended by the conditional
that the chain belongs to. -/
def frame (t : Tree) (d : Dialect) (place : Place) (depth : Nat) (id : StmtId)
    (children : Nat → String) (entries : String) : Stmt → String
  | .block _ =>
    if id = Tree.root then children depth
    else line d.style depth "\x7b" ++ children (depth + 1) ++ line d.style depth "\x7d"
  | .pragma token =>
    match d.pragma token.text with
    | some text => line d.style depth ("#pragma " ++ text)
    | none => ""
  | .prototype sig => line d.style depth (signatureText d sig ++ ";")
  | .function sig _ => braces (signatureText d sig)
  | .access level => line d.style (depth - 1) (level.word ++ ":")
  | .expression value => line d.style depth (value.render d.toSpelling ++ ";")
  | .declaration vars => line d.style depth (VarDecl.renderGroup d.toSpelling vars ++ ";")
  | .goto target => line d.style depth ("goto " ++ target.text ++ ";")
  | .label name => line d.style (depth - 1) (name.text ++ ":")
  | .namespaceBlock name _ =>
    if d.namespaces then braces ("namespace " ++ name.text) else children depth
  | .conditional condition _ _ _ =>
    opening d.style depth (headed "if" condition) ++ children (depth + 1) ++
      closing d.style depth ++ entries ++ "\n"
  | .elif condition _ => entry (headed "else if" condition)
  | .otherwise _ => entry "else"
  | .forLoop init test update _ => braces (forHeader (part init) (part test) (part update))
  | .whileLoop condition _ false => braces (headed "while" condition)
  | .whileLoop condition _ true =>
    let test := headed "while" condition ++ ";"
    opening d.style depth "do" ++ children (depth + 1) ++
      if d.style.braceOnNewLine then line d.style depth "\x7d" ++ line d.style depth test
      else line d.style depth ("\x7d " ++ test)
  | .switch condition _ => braces (headed "switch" condition)
  | .caseLabel value => line d.style (depth - 1) ("case " ++ value.render d.toSpelling ++ ":")
  | .defaultLabel => line d.style (depth - 1) "default:"
  | .continueJump => line d.style depth "continue;"
  | .breakJump => line d.style depth "break;"
  | .returnJump none => line d.style depth "return;"
  | .returnJump (some value) => line d.style depth ("return " ++ value.render d.toSpelling ++ ";")
where
  /-- A keyword and its condition. -/
  headed (word : String) (condition : StmtId) : String :=
    word ++ " (" ++ inlineText t d condition ++ ")"
  /-- A part of a `for` header. -/
  part (slot : Option StmtId) : String := (slot.map (inlineText t d)).getD ""
  /-- The children in braces behind a header. -/
  braces (header : String) : String :=
    opening d.style depth header ++ children (depth + 1) ++ line d.style depth "\x7d"
  /-- An `elif` or `else` entry. Only in its chain does it join the brace before it. -/
  entry (header : String) : String :=
    match place with
    | .alone => braces header
    | .chained =>
      joining d.style depth header ++ children (depth + 1) ++ closing d.style depth

end Layout

open Layout

/-- The text of a subtree at a depth. -/
def layout {t : Tree} (h : t.Linked) (d : Dialect) (place : Place) (depth : Nat) (id : StmtId) :
    String :=
  match _ : t.stmt? id with
  | none => ""
  | some s =>
    frame t d place depth id
      (fun depth => String.join (s.children.attach.map fun c => layout h d .alone depth c.1))
      (String.join (s.chain.attach.map fun c => layout h d .chained depth c.1)) s
termination_by (t.preorder id).length
decreasing_by
  all_goals
    apply h.length_preorder_lt
    rw [Tree.owned_of_stmt? ‹t.stmt? id = some s›]
    apply s.children_chain_sublist.subset
  · exact List.mem_append_left _ c.2
  · exact List.mem_append_right _ c.2

/-- The texts of several subtrees at one depth. -/
def layouts {t : Tree} (h : t.Linked) (d : Dialect) (place : Place) (depth : Nat)
    (ids : List StmtId) : String :=
  String.join (ids.map (layout h d place depth))

section
variable {t : Tree} {h : t.Linked} {d : Dialect} {place : Place} {depth : Nat} {id : StmtId}

theorem layout_of_stmt? (found : t.stmt? id = some s) : layout h d place depth id =
    frame t d place depth id (layouts h d .alone · s.children) (layouts h d .chained depth s.chain)
      s := by
  rw [layout]
  split
  next absent => simp [found] at absent
  next s' found' =>
    cases found.symm.trans found'
    simp only [layouts, List.map_attach_eq_pmap, List.pmap_eq_map]

theorem layout_of_dead (gone : t.contains id = false) : layout h d place depth id = "" := by
  rw [layout]
  split
  next => rfl
  next found => simp [Tree.contains_of_stmt? found] at gone

@[simp] theorem layouts_nil : layouts h d place depth [] = "" := rfl

@[simp] theorem layouts_cons (ids : List StmtId) : layouts h d place depth (id :: ids) =
    layout h d place depth id ++ layouts h d place depth ids := by
  simp [layouts, String.join_cons]

end

end KernelTree.Emission
