import KernelTree.Proofs.Statement.Shape
/-! Payloads with the words of a language in place. Qualifiers for which the language has no word
are gone, and a name stands as it is written, so that it is no longer told from a literal. What is
equal in this form is written alike. -/
namespace KernelTree

variable {sp : Spelling}

namespace TypeSpec

def spelt (sp : Spelling) (t : TypeSpec) : TypeSpec :=
  { t with qualifiers := t.qualifiers.filter fun q => (sp.word? q).isSome }

theorem filterMap_worded (p : Qualifier → Bool) (qs : List Qualifier) :
    ((qs.filter fun q => (sp.word? q).isSome).filter p).filterMap sp.word? =
      (qs.filter p).filterMap sp.word? := by
  rw [List.filter_comm]
  generalize qs.filter p = rest
  induction rest with
  | nil => rfl
  | cons q rest ih => cases word : sp.word? q <;> simp [word, ih]

@[simp] theorem renderBase_spelt (t : TypeSpec) : (t.spelt sp).renderBase sp = t.renderBase sp := by
  rw [renderBase, spelt, filterMap_worded, renderBase]

@[simp] theorem renderStars_spelt (t : TypeSpec) :
    (t.spelt sp).renderStars sp = t.renderStars sp := by
  rw [renderStars, spelt, filterMap_worded, renderStars]

@[simp] theorem render_spelt (t : TypeSpec) : (t.spelt sp).render sp = t.render sp := by
  rw [render, renderBase_spelt, renderStars_spelt, render]

end TypeSpec

namespace Expr

mutual

def spelt (sp : Spelling) : Expr → Expr
  | ident name => literal { kind := .literal, text := sp.identifier name.text }
  | literal text => literal { kind := .literal, text := text.text }
  | unary op operand => unary op (spelt sp operand)
  | binary op lhs rhs => binary op (spelt sp lhs) (spelt sp rhs)
  | ternary condition consequent alternative =>
    ternary (spelt sp condition) (spelt sp consequent) (spelt sp alternative)
  | call callee args => call (spelt sp callee) (speltAll sp args)
  | index base subscript => index (spelt sp base) (spelt sp subscript)
  | member base field arrow => member (spelt sp base) (.identifier field.text) arrow
  | cast type operand => cast (type.spelt sp) (spelt sp operand)
  | list items => list (speltAll sp items)

def speltAll (sp : Spelling) : List Expr → List Expr
  | [] => []
  | e :: rest => spelt sp e :: speltAll sp rest

end

@[simp] theorem precedence_spelt (e : Expr) : (e.spelt sp).precedence = e.precedence := by
  cases e <;> rfl

@[simp] theorem needsParens_spelt (e : Expr) (level : Nat) (strict : Bool) :
    (e.spelt sp).needsParens level strict = e.needsParens level strict := by
  rw [needsParens, precedence_spelt, needsParens]

@[simp] theorem separator_spelt (op : UnaryOp) (e : Expr) :
    separator op (e.spelt sp) = separator op e := by
  cases e <;> rfl

mutual

@[simp] theorem render_spelt : ∀ e : Expr, (e.spelt sp).render sp = e.render sp
  | ident _ | literal _ => rfl
  | unary _ operand => by
    simp only [spelt, render, needsParens_spelt, separator_spelt, render_spelt operand]
  | binary _ lhs rhs => by
    simp only [spelt, render, needsParens_spelt, render_spelt lhs, render_spelt rhs]
  | ternary condition consequent alternative => by
    simp only [spelt, render, needsParens_spelt, render_spelt condition, render_spelt consequent,
      render_spelt alternative]
  | call callee args => by
    simp only [spelt, render, needsParens_spelt, render_spelt callee, renderAll_spelt args]
  | index base subscript => by
    simp only [spelt, render, needsParens_spelt, render_spelt base, render_spelt subscript]
  | member base _ _ => by
    simp only [spelt, render, needsParens_spelt, render_spelt base, Token.identifier]
  | cast type operand => by
    simp only [spelt, render, needsParens_spelt, render_spelt operand, TypeSpec.render_spelt]
  | list items => by simp only [spelt, render, renderAll_spelt items]

theorem renderAll_spelt : ∀ es : List Expr, renderAll sp (speltAll sp es) = renderAll sp es
  | [] => rfl
  | e :: rest => by rw [speltAll, renderAll, render_spelt e, renderAll_spelt rest, renderAll]

end

end Expr

theorem renderDims_spelt (dims : List Expr) :
    renderDims sp (dims.map (Expr.spelt sp)) = renderDims sp dims := by
  simp [renderDims, Function.comp_def]

namespace VarDecl

def spelt (sp : Spelling) (d : VarDecl) : VarDecl where
  name := .identifier d.name.text
  type := d.type.spelt sp
  dims := d.dims.map (Expr.spelt sp)
  init := d.init.map (Expr.spelt sp)

@[simp] theorem renderBase_spelt (d : VarDecl) :
    (d.spelt sp).type.renderBase sp = d.type.renderBase sp := TypeSpec.renderBase_spelt _

@[simp] theorem renderTail_spelt (d : VarDecl) : (d.spelt sp).renderTail sp = d.renderTail sp := by
  obtain ⟨name, type, dims, init⟩ := d
  cases init <;> simp [renderTail, spelt, renderDims_spelt, Token.identifier]

@[simp] theorem render_spelt (d : VarDecl) : (d.spelt sp).render sp = d.render sp := by
  rw [render, renderBase_spelt, renderTail_spelt, render]

theorem renderRest_spelt (base : String) (vars : List VarDecl) :
    renderRest sp base (vars.map (spelt sp)) = renderRest sp base vars := by
  induction vars generalizing base with
  | nil => rfl
  | cons d rest ih =>
    rw [List.map_cons, renderRest, renderRest, renderBase_spelt, renderTail_spelt, ih]

theorem renderGroup_spelt (vars : List VarDecl) :
    renderGroup sp (vars.map (spelt sp)) = renderGroup sp vars := by
  cases vars with
  | nil => rfl
  | cons d rest =>
    rw [List.map_cons, renderGroup, render_spelt, renderBase_spelt, renderRest_spelt, renderGroup]

end VarDecl

namespace Signature

/-- The initial value of a parameter is not written in any language. -/
def spelt (sp : Spelling) (sig : Signature) : Signature where
  name := .identifier sig.name.text
  kind := sig.kind
  returns := sig.returns.spelt sp
  params := sig.params.map fun p => { p.spelt sp with init := none }

@[simp] theorem render_spelt (sig : Signature) : (sig.spelt sp).render sp = sig.render sp := by
  have param (p : VarDecl) :
      renderParam sp { p.spelt sp with init := none } = renderParam sp p := by
    simp [renderParam, TypeSpec.renderDeclarator, VarDecl.spelt, renderDims_spelt, Token.identifier]
  simp [render, spelt, Function.comp_def, param, Token.identifier]

end Signature

/-- What a statement says by itself, with the words of a language in place. -/
def Stmt.Content.spelt (sp : Spelling) (c : Stmt.Content) : Stmt.Content :=
  { c with
    token := c.token.map fun token => .identifier token.text
    signature := c.signature.map (Signature.spelt sp)
    value := c.value.map (Expr.spelt sp)
    vars := c.vars.map (VarDecl.spelt sp) }

end KernelTree
