import KernelTree.Declaration
import KernelTree.Proofs.Expr.Lexemes
import KernelTree.Proofs.Text.Braces
/-! The words of which the text of an expression, a declaration or a signature is made, as a
spelling writes them. Words without braces and ends of lines make texts with balanced braces that
stand in one line. -/
namespace KernelTree

namespace Text

/-- A word that can stand in a line and begin it. -/
def isFitting (w : String) : Bool := isPlain w && w.toList.head?.any fun c => !isBlank c

/-- A text that can stand in a line and begin it. -/
structure Lead (s : String) : Prop extends Inline s where
  begins : ∃ c ∈ s.toList.head?, isBlank c = false

variable {s u : String}

theorem lead_of_isFitting (fitting : isFitting s) : Lead s := by
  rw [isFitting, Bool.and_eq_true, Option.any_eq_true] at fitting
  obtain ⟨plain, c, first, notBlank⟩ := fitting
  exact ⟨inline_of_isPlain plain, c, first, by simpa using notBlank⟩

theorem Lead.append (h : Lead s) (g : Inline u) : Lead (s ++ u) := by
  obtain ⟨inline, c, first, notBlank⟩ := h
  obtain ⟨rest, spelled⟩ := List.head?_eq_some_iff.mp first
  exact ⟨inline.append g, c, by simp [spelled], notBlank⟩

theorem Lead.intercalate {texts : List String} (first : ∃ s ∈ texts.head?, Lead s)
    {separator : String} (between : Inline separator) (each : ∀ s ∈ texts, Inline s) :
    Lead (separator.intercalate texts) := by
  obtain ⟨s, head, lead⟩ := first
  obtain ⟨rest, rfl⟩ := List.head?_eq_some_iff.mp head
  cases rest with
  | nil => simpa using lead
  | cons s' rest =>
    rw [String.intercalate_cons_cons, String.append_assoc]
    exact lead.append (between.append (.intercalate between fun u later => each u (.tail _ later)))

end Text

open Text

namespace TypeSpec

/-- The words of a type: those of its qualifiers and its name. -/
def words (sp : Spelling) (t : TypeSpec) : List String :=
  t.qualifiers.filterMap sp.word? ++ [sp.typeName t.name]

variable {sp : Spelling} {t : TypeSpec} (fitting : ∀ w ∈ t.words sp, isFitting w)
include fitting

theorem isFitting_word {p : Qualifier → Bool} {w : String}
    (written : w ∈ (t.qualifiers.filter p).filterMap sp.word?) : isFitting w := by
  obtain ⟨q, inside, word⟩ := List.mem_filterMap.mp written
  exact fitting w (List.mem_append_left _
    (List.mem_filterMap.mpr ⟨q, (List.mem_filter.mp inside).1, word⟩))

theorem lead_renderBase : Lead (t.renderBase sp) := by
  have each : ∀ w ∈ (t.qualifiers.filter (!·.bindsPointer)).filterMap sp.word? ++
      [sp.typeName t.name], Lead w := by
    intro w written
    rcases List.mem_append.mp written with qualifier | name
    · exact lead_of_isFitting (isFitting_word fitting qualifier)
    · exact lead_of_isFitting (fitting w (List.mem_append_right _ name))
  refine .intercalate ?_ (inline_of_isPlain (by decide)) fun w written => (each w written).toInline
  obtain ⟨w, rest, written⟩ := List.exists_cons_of_ne_nil (List.append_ne_nil_of_right_ne_nil
    ((t.qualifiers.filter (!·.bindsPointer)).filterMap sp.word?)
    (List.cons_ne_nil (sp.typeName t.name) []))
  exact ⟨w, by rw [written]; rfl, each w (written ▸ List.mem_cons_self)⟩

theorem inline_renderStars : Inline (t.renderStars sp) := by
  unfold renderStars
  split
  · exact .empty
  · refine .append (inline_of_isPlain ?_) (.join ?_)
    · rw [isPlain, Text.toList_pushn, List.all_replicate]
      simp
    · intro text written
      obtain ⟨w, word, rfl⟩ := List.mem_map.mp written
      exact (lead_of_isFitting (isFitting_word fitting word)).append (inline_of_isPlain (by decide))
        |>.toInline

theorem lead_render : Lead (t.render sp) := by
  have base := lead_renderBase fitting
  simp only [render]
  split
  · exact base
  · rw [String.append_assoc]
    exact base.append ((inline_of_isPlain (by decide)).append (inline_renderStars fitting).trimEnd)

end TypeSpec

namespace Expr

mutual

/-- The words of an expression: its names, literals and types. -/
def words (sp : Spelling) : Expr → List String
  | ident name => [sp.identifier name.text]
  | literal text => [text.text]
  | unary _ operand => words sp operand
  | binary _ lhs rhs => words sp lhs ++ words sp rhs
  | ternary condition consequent alternative =>
    words sp condition ++ words sp consequent ++ words sp alternative
  | call callee args => words sp callee ++ wordsAll sp args
  | index base subscript => words sp base ++ words sp subscript
  | member base field _ => words sp base ++ [field.text]
  | cast type operand => type.words sp ++ words sp operand
  | list items => wordsAll sp items

def wordsAll (sp : Spelling) : List Expr → List String
  | [] => []
  | e :: rest => words sp e ++ wordsAll sp rest

end

theorem wordsAll_eq_flatMap (sp : Spelling) (es : List Expr) :
    wordsAll sp es = es.flatMap (words sp) := by
  induction es with
  | nil => rfl
  | cons e rest ih => rw [wordsAll, ih, List.flatMap_cons]

variable {sp : Spelling}

theorem lead_enclose {text : String} (lead : Lead text) (parens : Bool) :
    Lead (enclose parens text) := by
  cases parens with
  | false => exact lead
  | true =>
    have bracket : Lead "(" := lead_of_isFitting (by decide)
    exact (bracket.append lead.toInline).append (inline_of_isPlain (by decide))

theorem inline_all {es : List Expr} (each : ∀ e ∈ es, (∀ w ∈ e.words sp, isFitting w) →
    Lead (e.render sp)) (fitting : ∀ w ∈ wordsAll sp es, isFitting w) :
    Inline (", ".intercalate (renderAll sp es)) := by
  refine .intercalate (inline_of_isPlain (by decide)) ?_
  rw [renderAll_eq_map]
  intro text written
  obtain ⟨e, inside, rfl⟩ := List.mem_map.mp written
  refine (each e inside fun w word => fitting w ?_).toInline
  rw [wordsAll_eq_flatMap]
  exact List.mem_flatMap.mpr ⟨e, inside, word⟩

/-- An expression made of fitting words stands in a line, whatever brace initialisers it holds. -/
theorem lead_render {e : Expr} (fitting : ∀ w ∈ e.words sp, isFitting w) : Lead (e.render sp) := by
  have plain {s : String} (plain : isPlain s) : Inline s := inline_of_isPlain plain
  induction e with
  | ident name =>
    rw [words, List.forall_mem_singleton] at fitting
    rw [render]
    exact lead_of_isFitting fitting
  | literal text =>
    rw [words, List.forall_mem_singleton] at fitting
    rw [render]
    exact lead_of_isFitting fitting
  | unary op operand ih =>
    rw [words] at fitting
    have inner := lead_enclose (ih fitting)
    have symbol : Lead op.symbol := lead_of_isFitting (by cases op <;> decide)
    rw [render]
    split
    · exact (inner _).append symbol.toInline
    · have separate : Inline (separator op operand) := by
        rcases separator_eq op operand with none | blank
        · exact none ▸ .empty
        · exact blank ▸ plain (by decide)
      exact (symbol.append separate).append (inner _).toInline
  | binary op lhs rhs left right =>
    rw [words, List.forall_mem_append] at fitting
    have symbol : Inline op.symbol := plain (by cases op <;> decide)
    rw [render]
    exact ((((lead_enclose (left fitting.1) _).append (plain (by decide))).append symbol).append
      (plain (by decide))).append (lead_enclose (right fitting.2) _).toInline
  | ternary condition consequent alternative first second third =>
    rw [words, List.forall_mem_append, List.forall_mem_append] at fitting
    rw [render]
    exact ((((lead_enclose (first fitting.1.1) _).append (plain (by decide))).append
      (second fitting.1.2).toInline).append (plain (by decide))).append (third fitting.2).toInline
  | call callee args ih each =>
    rw [words, List.forall_mem_append] at fitting
    rw [render]
    exact (((lead_enclose (ih fitting.1) _).append (plain (by decide))).append
      (inline_all each fitting.2)).append (plain (by decide))
  | index base subscript outer inner =>
    rw [words, List.forall_mem_append] at fitting
    rw [render]
    exact (((lead_enclose (outer fitting.1) _).append (plain (by decide))).append
      (inner fitting.2).toInline).append (plain (by decide))
  | member base field arrow ih =>
    rw [words, List.forall_mem_append, List.forall_mem_singleton] at fitting
    have link : Inline (if arrow then "->" else ".") := plain (by cases arrow <;> decide)
    rw [render]
    exact ((lead_enclose (ih fitting.1) _).append link).append
      (lead_of_isFitting fitting.2).toInline
  | cast type operand ih =>
    rw [words, List.forall_mem_append] at fitting
    have bracket : Lead "(" := lead_of_isFitting (by decide)
    rw [render]
    exact ((bracket.append (TypeSpec.lead_render fitting.1).toInline).append
      (plain (by decide))).append (lead_enclose (ih fitting.2) _).toInline
  | list items each =>
    rw [words] at fitting
    rw [render]
    exact ⟨(inline_all each fitting).braced, '\x7b', by simp, rfl⟩

end Expr

namespace VarDecl

/-- The words of a declared variable. -/
def words (sp : Spelling) (d : VarDecl) : List String :=
  d.type.words sp ++ sp.identifier d.name.text :: (d.dims ++ d.init.toList).flatMap (·.words sp)

variable {sp : Spelling} {d : VarDecl} {base : String}

theorem inline_renderDims {dims : List Expr} (each : ∀ e ∈ dims, Lead (e.render sp)) :
    Inline (renderDims sp dims) := by
  refine .join fun text written => ?_
  obtain ⟨e, inside, rfl⟩ := List.mem_map.mp written
  exact ((inline_of_isPlain (by decide)).append (each e inside).toInline).append
    (inline_of_isPlain (by decide))

section
variable (fitting : ∀ w ∈ d.words sp, isFitting w)
include fitting

theorem isFitting_type : ∀ w ∈ d.type.words sp, isFitting w :=
  fun w written => fitting w (List.mem_append_left _ written)

theorem isFitting_name : isFitting (sp.identifier d.name.text) :=
  fitting _ (List.mem_append_right _ List.mem_cons_self)

theorem lead_render_of_mem {e : Expr} (part : e ∈ d.dims ++ d.init.toList) : Lead (e.render sp) :=
  Expr.lead_render fun w written => fitting w
    (List.mem_append_right _ (.tail _ (List.mem_flatMap.mpr ⟨e, part, written⟩)))

theorem inline_renderTail : Inline (d.renderTail sp) := by
  have stars := TypeSpec.inline_renderStars (isFitting_type fitting)
  have name := (lead_of_isFitting (isFitting_name fitting)).toInline
  have dims : Inline (renderDims sp d.dims) :=
    inline_renderDims fun e inside => lead_render_of_mem fitting (List.mem_append_left _ inside)
  refine ((stars.append name).append dims).append ?_
  cases value : d.init with
  | none => exact .empty
  | some e =>
    have part : e ∈ d.dims ++ d.init.toList := by simp [value]
    exact (inline_of_isPlain (by decide)).append (lead_render_of_mem fitting part).toInline

theorem lead_render : Lead (d.render sp) :=
  have base := TypeSpec.lead_renderBase (isFitting_type fitting)
  (base.append (inline_of_isPlain (by decide))).append (inline_renderTail fitting)

end

theorem inline_renderRest {vars : List VarDecl}
    (fitting : ∀ d ∈ vars, ∀ w ∈ d.words sp, isFitting w) :
    Inline (renderRest sp base vars) := by
  induction vars generalizing base with
  | nil => exact .empty
  | cons d rest ih =>
    obtain ⟨first, others⟩ := List.forall_mem_cons.mp fitting
    have type := (TypeSpec.lead_renderBase (isFitting_type first)).toInline
    rw [renderRest]
    refine (Inline.append ?_ (inline_renderTail first)).append (ih others)
    split
    · exact inline_of_isPlain (by decide)
    · exact ((inline_of_isPlain (by decide)).append type).append (inline_of_isPlain (by decide))

theorem inline_renderGroup {vars : List VarDecl}
    (fitting : ∀ d ∈ vars, ∀ w ∈ d.words sp, isFitting w) : Inline (renderGroup sp vars) := by
  cases vars with
  | nil => exact .empty
  | cons d rest =>
    obtain ⟨first, others⟩ := List.forall_mem_cons.mp fitting
    exact (lead_render first).toInline.append (inline_renderRest others)

/-- Behind its entries a declaration ends with a semicolon, with which it may begin as well. -/
theorem lead_renderGroup {vars : List VarDecl}
    (fitting : ∀ d ∈ vars, ∀ w ∈ d.words sp, isFitting w) : Lead (renderGroup sp vars ++ ";") := by
  have semicolon : Lead ";" := lead_of_isFitting (by decide)
  cases vars with
  | nil => exact semicolon
  | cons d rest =>
    obtain ⟨first, others⟩ := List.forall_mem_cons.mp fitting
    exact ((lead_render first).append (inline_renderRest others)).append semicolon.toInline

end VarDecl

namespace Signature

/-- The words of a signature. The initial values of parameters are not written. -/
def words (sp : Spelling) (sig : Signature) : List String :=
  sig.returns.words sp ++ sp.identifier sig.name.text ::
    sig.params.flatMap fun p => VarDecl.words sp { p with init := none }

theorem lead_render {sp : Spelling} {sig : Signature} (fitting : ∀ w ∈ sig.words sp, isFitting w) :
    Lead (sig.render sp) := by
  simp only [words, List.forall_mem_append, List.forall_mem_cons] at fitting
  obtain ⟨returns, name, params⟩ := fitting
  have each : ∀ text ∈ sig.params.map (renderParam sp), Inline text := by
    intro text written
    obtain ⟨p, inside, rfl⟩ := List.mem_map.mp written
    have part : ∀ w ∈ VarDecl.words sp { p with init := none }, isFitting w :=
      fun w word => params w (List.mem_flatMap.mpr ⟨p, inside, word⟩)
    have type := VarDecl.isFitting_type part
    have declarator : Lead (p.type.renderDeclarator sp (sp.identifier p.name.text)) :=
      (((TypeSpec.lead_renderBase type).append (inline_of_isPlain (by decide))).append
        (TypeSpec.inline_renderStars type)).append
        (lead_of_isFitting (VarDecl.isFitting_name part)).toInline
    exact declarator.toInline.append (VarDecl.inline_renderDims fun e inside =>
      VarDecl.lead_render_of_mem part (List.mem_append_left _ inside))
  have list : Inline (", ".intercalate (sig.params.map (renderParam sp))) :=
    .intercalate (inline_of_isPlain (by decide)) each
  exact (((((TypeSpec.lead_render returns).append (inline_of_isPlain (by decide))).append
    (lead_of_isFitting name).toInline).append (inline_of_isPlain (by decide))).append list).append
    (inline_of_isPlain (by decide))

end Signature
end KernelTree
