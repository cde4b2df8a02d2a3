import KernelTree.Proofs.Expr.Lexemes
import KernelTree.Statement.Basic
/-! What a statement says by itself, whatever it owns: its tokens, and the types it mentions. The
name of a type is no token. -/
namespace KernelTree

inductive Terminal where
  | token (token : Token)
  | type (type : TypeSpec)
deriving DecidableEq, Repr

namespace Terminal

/-- Every token among the terminals has the property. -/
def AllTokens (p : Token → Prop) (terminals : List Terminal) : Prop :=
  ∀ text, token text ∈ terminals → p text

/-- Every type among the terminals has the property. -/
def AllTypes (p : TypeSpec → Prop) (terminals : List Terminal) : Prop :=
  ∀ spec, type spec ∈ terminals → p spec

variable {p : Token → Prop} {q : TypeSpec → Prop} {text : Token} {spec : TypeSpec}
  {terminals more : List Terminal} {α : Type} {l : List α} {f : α → List Terminal}

instance [DecidablePred p] : Decidable (AllTokens p terminals) :=
  decidable_of_iff (terminals.all fun | token text => decide (p text) | type _ => true) <| by
    rw [List.all_eq_true]
    refine ⟨fun each text written => of_decide_eq_true (each _ written), ?_⟩
    intro each terminal written
    cases terminal with
    | token text => exact decide_eq_true (each text written)
    | type _ => rfl

instance [DecidablePred q] : Decidable (AllTypes q terminals) :=
  decidable_of_iff (terminals.all fun | token _ => true | type spec => decide (q spec)) <| by
    rw [List.all_eq_true]
    refine ⟨fun each spec written => of_decide_eq_true (each _ written), ?_⟩
    intro each terminal written
    cases terminal with
    | token _ => rfl
    | type spec => exact decide_eq_true (each spec written)

@[simp] theorem allTokens_nil : AllTokens p [] := nofun

@[simp] theorem allTypes_nil : AllTypes q [] := nofun

@[simp] theorem allTokens_cons_token :
    AllTokens p (token text :: terminals) ↔ p text ∧ AllTokens p terminals := by
  simp [AllTokens, or_imp, forall_and]

@[simp] theorem allTokens_cons_type :
    AllTokens p (type spec :: terminals) ↔ AllTokens p terminals := by
  simp [AllTokens]

@[simp] theorem allTypes_cons_token :
    AllTypes q (token text :: terminals) ↔ AllTypes q terminals := by
  simp [AllTypes]

@[simp] theorem allTypes_cons_type :
    AllTypes q (type spec :: terminals) ↔ q spec ∧ AllTypes q terminals := by
  simp [AllTypes, or_imp, forall_and]

@[simp] theorem allTokens_append :
    AllTokens p (terminals ++ more) ↔ AllTokens p terminals ∧ AllTokens p more := by
  simp [AllTokens, or_imp, forall_and]

@[simp] theorem allTypes_append :
    AllTypes q (terminals ++ more) ↔ AllTypes q terminals ∧ AllTypes q more := by
  simp [AllTypes, or_imp, forall_and]

@[simp] theorem allTokens_flatMap : AllTokens p (l.flatMap f) ↔ ∀ a ∈ l, AllTokens p (f a) := by
  simp only [AllTokens, List.mem_flatMap]
  exact ⟨fun h a inside text written => h text ⟨a, inside, written⟩,
    fun h text ⟨a, inside, written⟩ => h a inside text written⟩

@[simp] theorem allTypes_flatMap : AllTypes q (l.flatMap f) ↔ ∀ a ∈ l, AllTypes q (f a) := by
  simp only [AllTypes, List.mem_flatMap]
  exact ⟨fun h a inside spec written => h spec ⟨a, inside, written⟩,
    fun h spec ⟨a, inside, written⟩ => h a inside spec written⟩

end Terminal

namespace Expr

mutual

/-- The terminals of an expression, in source order. -/
def terminals : Expr → List Terminal
  | ident token | literal token => [.token token]
  | unary _ operand => terminals operand
  | binary _ lhs rhs => terminals lhs ++ terminals rhs
  | ternary condition consequent alternative =>
    terminals condition ++ terminals consequent ++ terminals alternative
  | call callee args => terminals callee ++ terminalsAll args
  | index base subscript => terminals base ++ terminals subscript
  | member base field _ => terminals base ++ [.token field]
  | cast type operand => .type type :: terminals operand
  | list items => terminalsAll items

def terminalsAll : List Expr → List Terminal
  | [] => []
  | e :: rest => terminals e ++ terminalsAll rest

end

theorem terminalsAll_eq_flatMap (es : List Expr) : terminalsAll es = es.flatMap terminals := by
  induction es with
  | nil => rfl
  | cons e rest ih => rw [terminalsAll, ih, List.flatMap_cons]

end Expr

def VarDecl.terminals (v : VarDecl) : List Terminal :=
  .type v.type :: .token v.name :: (v.dims ++ v.init.toList).flatMap (·.terminals)

def Signature.terminals (sig : Signature) : List Terminal :=
  .type sig.returns :: .token sig.name :: sig.params.flatMap (·.terminals)

/-- The terminals of a statement without those of the statements that it owns. -/
def Stmt.terminals : Stmt → List Terminal
  | pragma token | goto token | label token | namespaceBlock token _ => [.token token]
  | prototype sig | function sig _ => sig.terminals
  | expression value | caseLabel value | returnJump (some value) => value.terminals
  | declaration vars => vars.flatMap (·.terminals)
  | _ => []

end KernelTree
