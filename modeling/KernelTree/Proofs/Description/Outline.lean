import KernelTree.Description.Build
import KernelTree.Proofs.Statement.Shape
/-! What the tree of a description is to hold. A described statement is outlined by what it says and
by the statements that it holds, apart from how a tree is made of them. From the outline are read
the statements in source order, the names declared at each level, and the order in which names are
declared while the tree is built. -/
namespace KernelTree

open Stmt (Role)

namespace Stmt

/-- The names that a statement declares. -/
def declared : Stmt → List String
  | declaration vars => vars.map (·.name.text)
  | _ => []

/-- The first part of the header of a `for` loop. -/
def init? : Stmt → Option StmtId
  | forLoop init _ _ _ => init
  | _ => none

/-- The statements whose names belong to the level of a container. -/
def level (s : Stmt) : List StmtId := s.init?.toList ++ s.children

end Stmt

/-- What a leaf says: it holds no others, and a pragma stands at the place of its leaf. -/
def Leaf.shape (span : Span) : Leaf → Stmt.Shape
  | pragma text =>
    { kind := .pragma
      content := { token := some { kind := .pragma, text := Text.trim text, span } } }
  | prototype sig => { kind := .prototype, content := { signature := sig } }
  | access level => { kind := .access, content := { access := level } }
  | expression value => { kind := .expression, content := { value } }
  | declaration vars => { kind := .declaration, content := { vars } }
  | goto target => { kind := .goto, content := { token := target } }
  | label name => { kind := .label, content := { token := name } }
  | caseLabel value => { kind := .caseLabel, content := { value } }
  | defaultLabel => { kind := .defaultLabel }
  | continueJump => { kind := .continueJump }
  | breakJump => { kind := .breakJump }
  | returnJump value => { kind := .returnJump, content := { value } }

/-- A statement as a description has it: its shape, its place and the statements that it holds. The
names of those in `init` belong to the level of the statement, like those of its children. -/
inductive Outline where
  | node (shape : Stmt.Shape) (span : Span) (init header children entries : List Outline)

def Outline.span : Outline → Span
  | node _ span .. => span

mutual

def Item.outline : Item → Outline
  | .leaf span leaf => .node (leaf.shape span) span [] [] [] []
  | .block span body =>
    .node { kind := .block, roles := Role.child.each body } span [] [] (outlines body) []
  | .function span sig body =>
    .node
      { kind := .function, content := { signature := sig }, roles := Role.child.each body }
      span [] [] (outlines body) []
  | .namespaceBlock span name body =>
    .node
      { kind := .namespaceBlock, content := { token := name }, roles := Role.child.each body }
      span [] [] (outlines body) []
  | .conditional span condition body arms otherwise =>
    .node
      { kind := .conditional
        roles := .condition :: (Role.child.each body ++ Role.elif.each arms ++
          Role.otherwise.each otherwise.toList) }
      span [] [condition.outline] (outlines body) (armOutlines arms ++ lastOutlines span otherwise)
  | .forLoop span init test update body =>
    .node
      { kind := .forLoop
        roles := Role.init.each init.toList ++ Role.test.each test.toList ++
          Role.update.each update.toList ++ Role.child.each body }
      span (partOutlines init) (partOutlines test ++ partOutlines update) (outlines body) []
  | .whileLoop span condition body bodyFirst =>
    .node
      { kind := .whileLoop, content := { bodyFirst }, roles := .condition :: Role.child.each body }
      span [] [condition.outline] (outlines body) []
  | .switch span condition body =>
    .node { kind := .switch, roles := .condition :: Role.child.each body } span []
      [condition.outline] (outlines body) []

def partOutlines : Option Item → List Outline
  | none => []
  | some i => [i.outline]

def outlines : List Item → List Outline
  | [] => []
  | i :: rest => i.outline :: outlines rest

/-- The further conditions of a conditional stand at the places of their tests. -/
def armOutlines : List Arm → List Outline
  | [] => []
  | .elif condition body :: rest =>
    let test := condition.outline
    .node { kind := .elif, roles := .condition :: Role.child.each body } test.span [] [test]
      (outlines body) [] :: armOutlines rest

/-- The last entry of a conditional stands at the place of the conditional. -/
def lastOutlines (span : Span) : Option (List Item) → List Outline
  | none => []
  | some body =>
    [.node { kind := .otherwise, roles := Role.child.each body } span [] [] (outlines body) []]

end

/-- A name to be declared: at whose level, by which statement and from which place. -/
structure Binding where
  container : StmtId
  name : String
  decl : StmtId
  span : Span

/-- What is declared only once. -/
def Binding.key (b : Binding) : StmtId × String := (b.container, b.name)

namespace Outline

mutual

/-- The statements in source order, each before those that it holds. -/
def lines : Outline → List (Stmt.Shape × Span)
  | node shape span init header children entries =>
    (shape, span) ::
      (linesAll init ++ linesAll header ++ linesAll children ++ linesAll entries)

def linesAll : List Outline → List (Stmt.Shape × Span)
  | [] => []
  | o :: rest => o.lines ++ linesAll rest

end

/-- The names that a statement declares. -/
def names : Outline → List String
  | node shape .. => shape.content.names

mutual

/-- The names declared at the level of the statement and at those inside it. -/
def levels : Outline → List (List String)
  | node _ _ init header children entries =>
    (init ++ children).flatMap names ::
      (levelsAll init ++ levelsAll header ++ levelsAll children ++ levelsAll entries)

def levelsAll : List Outline → List (List String)
  | [] => []
  | o :: rest => o.levels ++ levelsAll rest

end

/-- How many statements there are. -/
def total (os : List Outline) : Nat := (linesAll os).length

/-- The number of a statement which is built when `base` numbers have been given out. What stands
in its header comes first, and what it holds otherwise comes behind it. -/
def number (base : Nat) : Outline → StmtId
  | node _ _ init header _ _ => ⟨base + total init + total header⟩

/-- The numbers of statements built one after the other. -/
def numbers (base : Nat) : List Outline → List StmtId
  | [] => []
  | o :: rest => o.number base :: numbers (base + total [o]) rest

/-- A statement's own names, declared for a container. -/
def bound (container : StmtId) (base : Nat) (span : Span) (o : Outline) : List Binding :=
  o.names.map fun name => { container, name, decl := o.number base, span }

/-- The names of the statements in front of a header. They are declared from the place of the
statement whose header it is. -/
def boundAll (container : StmtId) (base : Nat) (span : Span) : List Outline → List Binding
  | [] => []
  | o :: rest => o.bound container base span ++ boundAll container (base + total [o]) span rest

mutual

/-- The names declared inside a statement, in the order in which it is built: what stands in its
header, what it holds as children and then the entries of an if-chain. -/
def bindings (base : Nat) : Outline → List Binding
  | node _ span init header children entries =>
    let own := base + total init + total header
    bindingsAll base init ++ bindingsAll (base + total init) header ++
      boundAll ⟨own⟩ base span init ++ childBindings ⟨own⟩ (own + 1) children ++
      bindingsAll (own + 1 + total children) entries

def bindingsAll (base : Nat) : List Outline → List Binding
  | [] => []
  | o :: rest => o.bindings base ++ bindingsAll (base + total [o]) rest

/-- The inside of each child is built before the names of the child are declared. -/
def childBindings (container : StmtId) (base : Nat) : List Outline → List Binding
  | [] => []
  | o :: rest =>
    o.bindings base ++ o.bound container base o.span ++
      childBindings container (base + total [o]) rest

end

end Outline

namespace Description

def outline (d : Description) : List Outline := outlines d.statements

/-- The names declared at each level, that of the root first. -/
def levels (d : Description) : List (List String) :=
  d.outline.flatMap Outline.names :: Outline.levelsAll d.outline

/-- The names in the order in which they are declared. The root has been made already. -/
def bindings (d : Description) : List Binding := Outline.childBindings Tree.root 1 d.outline

end Description

/-- The complaint about the first name in a list that was declared before at the same level. -/
def FirstClash (bs : List Binding) (e : BuildError) : Prop :=
  ∃ before b after, bs = before ++ b :: after ∧ (before.map (·.key)).Nodup ∧
    ∃ earlier ∈ before, earlier.key = b.key ∧
      e = { cause := .duplicateDeclaration b.name b.container earlier.decl, span := b.span }

end KernelTree
