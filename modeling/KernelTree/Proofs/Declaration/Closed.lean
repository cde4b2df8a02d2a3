import KernelTree.Proofs.Text.Brackets
import KernelTree.Proofs.Words
/-! Expressions and declarations as closed texts. Made of clean words, an expression closes all its
brackets, and a comma stands in it only between the brackets of a call or a brace initialiser. -/
namespace KernelTree

open Text

variable {sp : Spelling}

namespace TypeSpec

variable {t : TypeSpec} (clean : ∀ w ∈ t.words sp, isClean w)
include clean

theorem closed_word {p : Qualifier → Bool} {w : String}
    (written : w ∈ (t.qualifiers.filter p).filterMap sp.word?) : Closed marks w := by
  obtain ⟨q, inside, word⟩ := List.mem_filterMap.mp written
  exact .of_isClean (clean w (List.mem_append_left _
    (List.mem_filterMap.mpr ⟨q, (List.mem_filter.mp inside).1, word⟩)))

theorem closed_renderBase : Closed marks (t.renderBase sp) := by
  refine .intercalate (by decide) fun w written => ?_
  rcases List.mem_append.mp written with qualifier | name
  · exact closed_word clean qualifier
  · exact .of_isClean (clean w (List.mem_append_right _ name))

theorem closed_renderStars : Closed marks (t.renderStars sp) := by
  unfold renderStars
  split
  · decide
  · refine .append (.of_plain ?_) (.join ?_)
    · intro c inside
      rw [toList_pushn] at inside
      rw [List.eq_of_mem_replicate inside]
      decide
    · intro text written
      obtain ⟨w, word, rfl⟩ := List.mem_map.mp written
      exact (closed_word clean word).append (by decide)

theorem closed_render : Closed marks (t.render sp) := by
  have base := closed_renderBase clean
  simp only [render]
  split
  · exact base
  · exact (base.append (by decide)).append (closed_renderStars clean).trimEnd

end TypeSpec

namespace Expr

theorem closed_enclose {text : String} (closed : Closed marks text) (parens : Bool) :
    Closed marks (enclose parens text) := by
  cases parens with
  | false => exact closed
  | true => exact .bracketed (by decide) closed.balanced

theorem balanced_all {es : List Expr} (each : ∀ e ∈ es, (∀ w ∈ e.words sp, isClean w) →
    Closed marks (e.render sp)) (clean : ∀ w ∈ wordsAll sp es, isClean w) :
    Balanced (", ".intercalate (renderAll sp es)) := by
  have closed : ∀ text ∈ renderAll sp es, Closed [] text := by
    rw [renderAll_eq_map]
    intro text written
    obtain ⟨e, inside, rfl⟩ := List.mem_map.mp written
    refine (each e inside fun w word => clean w ?_).mono (List.nil_subset _)
    rw [wordsAll_eq_flatMap]
    exact List.mem_flatMap.mpr ⟨e, inside, word⟩
  exact (Closed.intercalate (by decide) closed).balanced

theorem closed_render {e : Expr} (clean : ∀ w ∈ e.words sp, isClean w) :
    Closed marks (e.render sp) := by
  induction e with
  | ident name =>
    rw [words, List.forall_mem_singleton] at clean
    rw [render]
    exact .of_isClean clean
  | literal text =>
    rw [words, List.forall_mem_singleton] at clean
    rw [render]
    exact .of_isClean clean
  | unary op operand ih =>
    rw [words] at clean
    have inner := closed_enclose (ih clean)
    have symbol : Closed marks op.symbol := by cases op <;> decide
    rw [render]
    split
    · exact (inner _).append symbol
    · have separate : Closed marks (separator op operand) := by
        rcases separator_eq op operand with none | blank
        · exact none ▸ by decide
        · exact blank ▸ by decide
      exact (symbol.append separate).append (inner _)
  | binary op lhs rhs left right =>
    rw [words, List.forall_mem_append] at clean
    have symbol : Closed marks op.symbol := by cases op <;> decide
    rw [render]
    exact ((((closed_enclose (left clean.1) _).append (by decide)).append symbol).append
      (by decide)).append (closed_enclose (right clean.2) _)
  | ternary condition consequent alternative first second third =>
    rw [words, List.forall_mem_append, List.forall_mem_append] at clean
    rw [render]
    exact ((((closed_enclose (first clean.1.1) _).append (by decide)).append
      (second clean.1.2)).append (by decide)).append (third clean.2)
  | call callee args ih each =>
    rw [words, List.forall_mem_append] at clean
    rw [render]
    exact (closed_enclose (ih clean.1) _).append_bracketed (by decide) (balanced_all each clean.2)
  | index base subscript outer inner =>
    rw [words, List.forall_mem_append] at clean
    rw [render]
    exact (closed_enclose (outer clean.1) _).append_bracketed (by decide) (inner clean.2).balanced
  | member base field arrow ih =>
    rw [words, List.forall_mem_append, List.forall_mem_singleton] at clean
    have link : Closed marks (if arrow then "->" else ".") := by cases arrow <;> decide
    rw [render]
    exact ((closed_enclose (ih clean.1) _).append link).append (.of_isClean clean.2)
  | cast type operand ih =>
    rw [words, List.forall_mem_append] at clean
    rw [render]
    exact (Closed.bracketed (by decide) (TypeSpec.closed_render clean.1).balanced).append
      (closed_enclose (ih clean.2) _)
  | list items each =>
    rw [words] at clean
    rw [render]
    exact .bracketed (by decide) (balanced_all each clean)

end Expr

namespace VarDecl

variable {d : VarDecl} (clean : ∀ w ∈ d.words sp, isClean w)
include clean

theorem isClean_type : ∀ w ∈ d.type.words sp, isClean w :=
  fun w written => clean w (List.mem_append_left _ written)

theorem closed_name : Closed marks (sp.identifier d.name.text) :=
  .of_isClean (clean _ (List.mem_append_right _ List.mem_cons_self))

theorem closed_render_of_mem {e : Expr} (part : e ∈ d.dims ++ d.init.toList) :
    Closed marks (e.render sp) :=
  Expr.closed_render fun w written => clean w
    (List.mem_append_right _ (.tail _ (List.mem_flatMap.mpr ⟨e, part, written⟩)))

/-- Only the closing brackets of the dimensions are outside of brackets. -/
theorem closed_dims {cs : List Char} (other : ∀ c ∈ cs, closes c = false) :
    Closed cs (renderDims sp d.dims) := by
  refine .join fun text written => ?_
  obtain ⟨e, inside, rfl⟩ := List.mem_map.mp written
  have inner := closed_render_of_mem clean (List.mem_append_left _ inside)
  exact inner.balanced.bracketed (by decide) other

theorem closed_renderTail : Closed marks (d.renderTail sp) := by
  have stars := TypeSpec.closed_renderStars (isClean_type clean)
  have dims : Closed marks (renderDims sp d.dims) := closed_dims clean (by simp [closes])
  refine ((stars.append (closed_name clean)).append dims).append ?_
  cases value : d.init with
  | none => exact .empty
  | some e =>
    have part : e ∈ d.dims ++ d.init.toList := by simp [value]
    exact .append (by decide) (closed_render_of_mem clean part)

theorem closed_render : Closed marks (d.render sp) :=
  ((TypeSpec.closed_renderBase (isClean_type clean)).append (by decide)).append
    (closed_renderTail clean)

end VarDecl
end KernelTree
