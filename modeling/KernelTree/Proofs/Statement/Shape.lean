import KernelTree.Proofs.Statement.Places
import KernelTree.Proofs.Statement.Renumbering
/-! What a statement says by itself, and in which places it holds others. Numbers and the names at
its level are left out, so that statements of different trees can be compared. -/
namespace KernelTree.Stmt

/-- What a statement says by itself, apart from the numbers in it. -/
structure Content where
  token : Option Token := none
  signature : Option Signature := none
  access : Option Access := none
  value : Option Expr := none
  vars : List VarDecl := []
  bodyFirst : Bool := false

def content : Stmt → Content
  | pragma token | goto token | label token | namespaceBlock token _ => { token }
  | prototype sig | function sig _ => { signature := sig }
  | access level => { access := level }
  | expression value | caseLabel value => { value }
  | returnJump value => { value }
  | declaration vars => { vars }
  | whileLoop _ _ bodyFirst => { bodyFirst }
  | block _ | conditional .. | elif .. | otherwise _ | forLoop .. | switch .. | defaultLabel
  | continueJump | breakJump => {}

/-- The names that are declared. -/
def Content.names (c : Content) : List String := c.vars.map (·.name.text)

/-- One place of that kind for each of the statements which are held there. -/
def Role.each {α : Type} (role : Role) (held : List α) : List Role :=
  List.replicate held.length role

/-- Of what kind a statement is, what it says, and the places of those that it holds, in source
order. -/
structure Shape where
  kind : StmtKind
  content : Content := {}
  roles : List Role := []

def shape (s : Stmt) : Shape where
  kind := s.kind
  content := s.content
  roles := s.places.map Prod.fst

/-- With so many children behind all that it holds already. -/
def Shape.fill {α : Type} (held : List α) (p : Shape) : Shape :=
  { p with roles := p.roles ++ Role.child.each held }

section
variable (s : Stmt)

@[simp] theorem content_map (ρ : StmtId → StmtId) : (s.map ρ).content = s.content := by
  cases s <;> rfl

@[simp] theorem content_mapBody (g : Block → Block) : (s.mapBody g).content = s.content := by
  cases s <;> rfl

end

theorem Role.each_eq_of_length_eq {α β : Type} (role : Role) {l : List α} {l' : List β}
    (same : l.length = l'.length) : role.each l = role.each l' := by
  rw [each, each, same]

theorem Role.map_fst_each (role : Role) (ids : List StmtId) :
    (ids.map (role, ·)).map Prod.fst = role.each ids := by
  simp [each, Function.comp_def]

end KernelTree.Stmt
