import KernelTree.Proofs.Emission.Shape
import KernelTree.Proofs.Words
/-! The words of which a dialect makes the text of a statement. When they fit into lines, so does
what is printed of the statement: each piece of its shape stands in one line, begins with no blank
and has its braces balanced. -/
namespace KernelTree

/-- The words of a signature and, before them, of its kind. -/
def Signature.wordsIn (d : Dialect) (sig : Signature) : List String :=
  ((d.functionPrefix sig.kind).filter (· ≠ "")).toList ++ sig.words d.toSpelling

/-- The words of a statement without those of the statements that it owns. -/
def Stmt.wordsIn (d : Dialect) : Stmt → List String
  | pragma token => (d.pragma token.text).toList
  | prototype sig | function sig _ => sig.wordsIn d
  | expression value | caseLabel value | returnJump (some value) => value.words d.toSpelling
  | declaration vars => vars.flatMap (·.words d.toSpelling)
  | goto name | label name | namespaceBlock name _ => [name.text]
  | _ => []

namespace Emission

open Text

/-- The statement is printed with words that can stand in a line and begin it. -/
def Fits (t : Tree) (d : Dialect) (id : StmtId) : Prop :=
  ∀ s ∈ t.stmt? id, ∀ w ∈ s.wordsIn d, isFitting w

instance (t : Tree) (d : Dialect) (id : StmtId) : Decidable (Fits t d id) :=
  inferInstanceAs (Decidable (∀ s ∈ t.stmt? id, ∀ w ∈ s.wordsIn d, isFitting w))

variable {t : Tree} {d : Dialect} {id x : StmtId}

theorem inline_inlineText (fits : Fits t d x) : Inline (inlineText t d x) := by
  unfold Fits Tree.stmt? at fits
  unfold inlineText
  split
  next value found =>
    rw [found] at fits
    exact (Expr.lead_render (fits _ rfl)).toInline
  next vars found =>
    rw [found] at fits
    exact VarDecl.inline_renderGroup fun v inside w word =>
      fits _ rfl w (List.mem_flatMap.mpr ⟨v, inside, word⟩)
  next => exact .empty

theorem lead_headed {word : String} (keyword : isFitting word) (fits : Fits t d x) :
    Lead (shape.headed t d word x) :=
  (((lead_of_isFitting keyword).append (inline_of_isPlain (by decide))).append
    (inline_inlineText fits)).append (inline_of_isPlain (by decide))

theorem inline_part {slot : Option StmtId} (fits : ∀ x ∈ slot.toList, Fits t d x) :
    Inline (shape.part t d slot) := by
  cases slot with
  | none => exact .empty
  | some x => exact inline_inlineText (fits x (by simp))

theorem lead_forHeader {init test update : String} (first : Inline init) (second : Inline test)
    (third : Inline update) : Lead (forHeader init test update) := by
  have spaced {text : String} (inline : Inline text) :
      Inline (if text = "" then "" else " " ++ text) := by
    split
    · exact .empty
    · exact (inline_of_isPlain (by decide)).append inline
  have semicolon : Inline ";" := inline_of_isPlain (by decide)
  have keyword : Lead "for (" := lead_of_isFitting (by decide)
  exact (((((keyword.append first).append semicolon).append (spaced second)).append
    semicolon).append (spaced third)).append (inline_of_isPlain (by decide))

theorem lead_signatureText {sig : Signature} (fitting : ∀ w ∈ sig.wordsIn d, isFitting w) :
    Lead (signatureText d sig) := by
  have signature : Lead (sig.render d.toSpelling) :=
    Signature.lead_render fun w word => fitting w (List.mem_append_right _ word)
  unfold signatureText
  split
  next word found =>
    split
    next => exact signature
    next present =>
      have lead : Lead word := lead_of_isFitting <| fitting word <| List.mem_append_left _ <| by
        simp [found, present]
      exact (lead.append (inline_of_isPlain (by decide))).append signature.toInline
  next => exact signature

/-- Each piece of text of the shape can stand in a line and begin it. -/
def Shape.Fits : Shape → Prop
  | bare | block => True
  | line content => ∀ text ∈ content, Lead text
  | marker content | braces content | loop content | chain content | entry content => Lead content

/-- What is printed of a statement fits into lines, if its words and those of what it owns do. -/
theorem fits_shape {s : Stmt} (own : ∀ w ∈ s.wordsIn d, isFitting w)
    (owned : ∀ x ∈ s.owned, Fits t d x) : (shape t d id s).Fits := by
  have plain {text : String} (plain : isPlain text) : Inline text := inline_of_isPlain plain
  have word {text : String} (fitting : isFitting text) : Lead text := lead_of_isFitting fitting
  have line {text : String} (lead : Lead text) : Shape.Fits (.line (some text)) := by
    intro _ same
    exact Option.some.inj same ▸ lead
  cases s with
  | block =>
    rw [shape]
    split <;> exact trivial
  | pragma token =>
    intro _ printed
    obtain ⟨text, kept, rfl⟩ := Option.map_eq_some_iff.mp printed
    have body : Lead text := word (own text (by simp [Stmt.wordsIn, kept]))
    exact (word (by decide)).append body.toInline
  | prototype sig => exact line ((lead_signatureText own).append (plain (by decide)))
  | function sig body => exact lead_signatureText own
  | access level => exact (word (by cases level <;> decide)).append (plain (by decide))
  | expression value => exact line ((Expr.lead_render own).append (plain (by decide)))
  | declaration vars =>
    exact line <| VarDecl.lead_renderGroup fun v inside w written =>
      own w (List.mem_flatMap.mpr ⟨v, inside, written⟩)
  | goto target =>
    have name : Lead target.text := word (own _ List.mem_cons_self)
    exact line (((word (by decide)).append name.toInline).append (plain (by decide)))
  | label name => exact (word (own _ List.mem_cons_self)).append (plain (by decide))
  | namespaceBlock name body =>
    have name : Lead name.text := word (own _ List.mem_cons_self)
    rw [shape]
    split
    · exact (word (by decide)).append name.toInline
    · exact trivial
  | conditional condition | elif condition | switch condition =>
    exact lead_headed (by decide) (owned condition List.mem_cons_self)
  | otherwise body => exact word (by decide)
  | forLoop init test update body =>
    simp only [Stmt.owned, Stmt.slots, List.forall_mem_append] at owned
    obtain ⟨⟨⟨first, second⟩, third⟩, -⟩ := owned
    exact lead_forHeader (inline_part first) (inline_part second) (inline_part third)
  | whileLoop condition body bodyFirst =>
    have headed : Lead (shape.headed t d "while" condition) :=
      lead_headed (by decide) (owned condition List.mem_cons_self)
    cases bodyFirst with
    | false => exact headed
    | true => exact headed.append (plain (by decide))
  | caseLabel value =>
    exact ((word (by decide)).append (Expr.lead_render own).toInline).append (plain (by decide))
  | defaultLabel => exact word (by decide)
  | continueJump | breakJump => exact line (word (by decide))
  | returnJump value =>
    cases value with
    | none => exact line (word (by decide))
    | some value =>
      exact line (((word (by decide)).append (Expr.lead_render own).toInline).append
        (plain (by decide)))

end Emission
end KernelTree
