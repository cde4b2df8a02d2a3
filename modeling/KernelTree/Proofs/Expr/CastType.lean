import KernelTree.Proofs.Expr.Lexemes
/-! Parentheses around a type and around an expression are told apart by what stands in them. A
printed type is read as the type that its text shows, and nothing that the printer puts into
parentheses is read as a type. -/
namespace KernelTree

open Lexeme

namespace TypeSpec

/-- The type with the qualifiers that its text shows, in the order in which they stand there. -/
def shown (t : TypeSpec) : TypeSpec := { t with qualifiers := t.before ++ t.behind }

theorem before_shown (t : TypeSpec) : t.shown.before = t.before := by
  have none : t.behind.filter (fun q => q == .const || q == .volatile) = [] := by
    rw [List.filter_eq_nil_iff]
    rintro q inside
    simp [eq_restrict_of_mem_behind inside]
  change (t.before ++ t.behind).filter _ = t.before
  rw [List.filter_append, none, List.append_nil, before, List.filter_filter]
  simp

theorem behind_shown (t : TypeSpec) : t.shown.behind = t.behind := by
  have none : t.before.filter (·.bindsPointer) = [] := by
    rw [List.filter_eq_nil_iff, before]
    intro q inside
    cases q <;> simp [Qualifier.bindsPointer] at inside ⊢
  change (if t.pointers = 0 then [] else (t.before ++ t.behind).filter (·.bindsPointer)) = t.behind
  rw [List.filter_append, none, List.nil_append, behind]
  split
  · rfl
  · rw [List.filter_filter]
    simp

/-- The text of a type does not change when it is cut down to what its text shows. -/
theorem render_shown (t : TypeSpec) : t.shown.render .plain = t.render .plain := by
  rw [render_plain, before_shown, behind_shown, render_plain]
  rfl

end TypeSpec

namespace Grammar

variable {ts rest : List Lexeme} {w s : String}

theorem qualifiers_append {known qs : List Qualifier} (all : ∀ q ∈ qs, q ∈ known)
    (stop : qualifiers known ts = ([], ts)) :
    qualifiers known (qs.map (.word ·.name) ++ ts) = (qs, ts) := by
  induction qs with
  | nil => exact stop
  | cons q qs ih =>
    obtain ⟨first, others⟩ := List.forall_mem_cons.mp all
    have found : known.find? (·.name == q.name) = some q := by
      have present : (known.find? (·.name == q.name)).isSome :=
        List.find?_isSome.mpr ⟨q, first, BEq.rfl⟩
      obtain ⟨q', found⟩ := Option.isSome_iff_exists.mp present
      have same := List.find?_some found
      rw [found]
      revert same
      cases q <;> cases q' <;> decide
    rw [List.map_cons, List.cons_append, qualifiers, found]
    simp [ih others]

theorem qualifiers_name (known : List Qualifier) (named : isName w)
    (plain : ∀ q ∈ known, q.name ∈ ["const", "volatile", "restrict"]) :
    qualifiers known (.word w :: ts) = ([], .word w :: ts) := by
  have none : known.find? (·.name == w) = none := by
    rw [List.find?_eq_none]
    intro q inside same
    rw [beq_iff_eq] at same
    exact not_mem_of_isName named (same ▸ plain q inside)
  rw [qualifiers, none]

/-- A printed type is read as what its text shows. -/
theorem castType_lexemes {t : TypeSpec} (named : isName t.name) (rest : List Lexeme) :
    castType (t.lexemes ++ .sign ")" :: rest) = some (t.shown, rest) := by
  have front : ∀ q ∈ t.before, q ∈ [Qualifier.const, .volatile] := by
    simp [TypeSpec.before]
  have back : ∀ q ∈ t.behind, q ∈ [Qualifier.restrict] := by
    intro q inside
    simp [TypeSpec.eq_restrict_of_mem_behind inside]
  have apart : ∀ next ∈ (t.behind.map (Lexeme.word ·.name) ++ .sign ")" :: rest).head?,
      isStar next = false := by
    cases t.behind <;> rintro _ ⟨⟩ <;> rfl
  have all : ∀ u ∈ List.replicate t.pointers.toNat (Lexeme.sign "*"), isStar u := by simp [isStar]
  have stars := span_append all apart
  rw [TypeSpec.lexemes, castType]
  simp only [List.append_assoc, List.cons_append]
  simp only [qualifiers_append front (qualifiers_name _ named (by decide)), named, if_true, stars.1,
    stars.2, qualifiers_append back (rfl : qualifiers _ (.sign ")" :: rest) = _)]
  simp [expect, TypeSpec.shown]

/-- Whether something else than the end of a type comes behind the stars at the front. -/
def Starts (ts : List Lexeme) : Prop :=
  ∃ t ∈ (ts.dropWhile isStar).head?, t ∉ [.sign ")", .sign "\x7d", .word "restrict"]

theorem starts_of_first {t : Lexeme}
    (other : t ∉ [.sign ")", .sign "\x7d", .word "restrict", .sign "*"]) : Starts (t :: ts) := by
  refine ⟨t, ?_, fun inside => other ?_⟩
  · have apart : isStar t = false := by
      rw [isStar, beq_eq_false_iff_ne]
      rintro rfl
      simp at other
    rw [List.dropWhile_cons_of_neg (by simp [apart])]
    rfl
  · simp only [List.mem_cons, List.not_mem_nil] at inside ⊢
    tauto

theorem Starts.star (h : Starts ts) : Starts (.sign "*" :: ts) := h

theorem Starts.expect_eq_none (h : Starts ts) (known : s ∈ [")", "\x7d"]) : expect s ts = none := by
  obtain ⟨t, first, other⟩ := h
  cases ts with
  | nil => rfl
  | cons u ts =>
    by_cases star : isStar u
    · rw [isStar, beq_iff_eq] at star
      subst star
      rw [expect, if_neg]
      rintro rfl
      simp at known
    · rw [List.dropWhile_cons_of_neg star] at first
      cases first
      cases t with
      | word => rfl
      | sign s' =>
        rw [expect, if_neg]
        rintro rfl
        simp at known other
        tauto

theorem castType_sign : castType (.sign s :: ts) = none := rfl

theorem castType_numeral (numeral : isNumeral w) : castType (.word w :: ts) = none := by
  obtain ⟨c, rest, spelled, digit⟩ := exists_of_isNumeral numeral
  have unknown : [Qualifier.const, .volatile].find? (·.name == w) = none := by
    rw [List.find?_eq_none]
    intro q _ same
    rw [beq_iff_eq] at same
    subst same
    cases q <;> cases spelled <;> contradiction
  have unnamed : isName w = false := by
    by_contra named
    rw [Bool.not_eq_false] at named
    simp [not_digit_of_isName named spelled] at digit
  simp [castType, qualifiers, unknown, unnamed]

/-- A name and stars are no type in front of something else than the end of a type. -/
theorem castType_name (named : isName w) (h : Starts ts) : castType (.word w :: ts) = none := by
  obtain ⟨t, first, other⟩ := h
  obtain ⟨more, cut⟩ := List.head?_eq_some_iff.mp first
  simp only [List.mem_cons, List.not_mem_nil, or_false, not_or] at other
  have stop : qualifiers [.restrict] (t :: more) = ([], t :: more) := by
    cases t with
    | sign => rfl
    | word text =>
      have unknown : (Qualifier.restrict.name == text) = false := by
        rw [beq_eq_false_iff_ne]
        rintro rfl
        exact other.2.2 rfl
      simp [qualifiers, unknown]
  have apart : expect ")" (t :: more) = none := by
    cases t with
    | word => rfl
    | sign s =>
      rw [expect, if_neg]
      rintro rfl
      exact other.1 rfl
  have front : qualifiers [.const, .volatile] (.word w :: ts) = ([], .word w :: ts) :=
    qualifiers_name _ named (by decide)
  simp only [castType, front, named, if_true, cut, stop, apart]
  rfl

theorem starts_group {parens : Bool} (h : Starts (ts ++ rest)) :
    Starts (group parens ts ++ rest) := by
  cases parens with
  | false => exact h
  | true => exact starts_of_first (by decide)

section
variable {sp : Spelling}

/-- Behind the stars that it may open with, an expression does not go on like a type. -/
theorem starts_lexemesIn {e : Expr} (named : e.wellNamed) (rest : List Lexeme) :
    Starts (e.lexemesIn sp ++ rest) := by
  induction e generalizing rest with
  | ident name =>
    rw [Expr.wellNamed] at named
    have other := not_mem_of_isName named
    exact starts_of_first (by simp_all)
  | literal text =>
    rw [Expr.wellNamed] at named
    refine starts_of_first ?_
    have other : text.text ≠ "restrict" := by
      rintro same
      rw [same] at named
      contradiction
    simpa using other
  | unary op operand ih =>
    rw [Expr.wellNamed] at named
    rw [Expr.lexemesIn]
    split
    · rw [List.append_assoc]
      exact starts_group (ih named _)
    next front =>
      by_cases star : op = .deref
      · subst star
        exact (starts_group (ih named rest)).star
      · refine starts_of_first ?_
        cases op <;> first | decide | contradiction
  | binary op lhs rhs left right =>
    rw [Expr.wellNamed, Bool.and_eq_true] at named
    rw [Expr.lexemesIn, List.append_assoc]
    exact starts_group (left named.1 _)
  | ternary condition consequent alternative first =>
    rw [Expr.wellNamed, Bool.and_eq_true, Bool.and_eq_true] at named
    simp only [Expr.lexemesIn, List.append_assoc]
    exact starts_group (first named.1.1 _)
  | call _ _ ih | index _ _ ih | member _ _ _ ih =>
    rw [Expr.wellNamed, Bool.and_eq_true] at named
    simp only [Expr.lexemesIn, List.append_assoc]
    exact starts_group (ih named.1 _)
  | cast => exact starts_of_first (by decide)
  | list => exact starts_of_first (by decide)

/-- A reader of types that does not take an operand for a type, unless what stands behind the
operand could be a part of the type as well. -/
structure Declines {α : Type} (read : List Lexeme → Option α) : Prop where
  sign : ∀ s ts, read (.sign s :: ts) = none
  name : ∀ w s ts, isName w → Starts (.sign s :: ts) → read (.word w :: .sign s :: ts) = none
  numeral : ∀ w s ts, isNumeral w → read (.word w :: .sign s :: ts) = none

theorem declines_castType : Declines castType where
  sign _ _ := castType_sign
  name _ _ _ := castType_name
  numeral _ _ _ := castType_numeral

namespace Declines

variable {α : Type} {read : List Lexeme → Option α} (declines : Declines read)
include declines

/-- An operand is not read as a type in front of a sign, unless a type could go on with the sign. -/
theorem group {e : Expr} (named : e.wellNamed) {parens : Bool}
    (inner : e.precedence ≠ Expr.primaryLevel → ∀ rest, read (e.lexemesIn sp ++ rest) = none)
    (behind : Starts (.sign s :: rest)) :
    read (group parens (e.lexemesIn sp) ++ .sign s :: rest) = none := by
  cases parens with
  | true => exact declines.sign _ _
  | false =>
    cases e with
    | ident name =>
      rw [Expr.wellNamed] at named
      exact declines.name _ _ _ named behind
    | literal text =>
      rw [Expr.wellNamed] at named
      exact declines.numeral _ _ _ named
    | list => exact declines.sign _ _
    | unary op operand =>
      refine inner ?_ _
      rw [Expr.precedence]
      split <;> decide
    | binary op =>
      refine inner ?_ _
      rw [Expr.precedence]
      cases op <;> decide
    | _ =>
      refine inner ?_ _
      rw [Expr.precedence]
      decide

/-- What the printer puts into parentheses is not read as a type. -/
theorem eq_none {e : Expr} (named : e.wellNamed) (compound : e.precedence ≠ Expr.primaryLevel)
    (rest : List Lexeme) : read (e.lexemesIn sp ++ rest) = none := by
  induction e generalizing rest with
  | ident | literal | list => contradiction
  | cast => exact declines.sign _ _
  | unary op operand ih =>
    rw [Expr.wellNamed] at named
    rw [Expr.lexemesIn]
    split
    next back =>
      rw [List.append_assoc]
      refine declines.group named (ih named) (starts_of_first ?_)
      cases op <;> first | decide | contradiction
    · exact declines.sign _ _
  | binary op lhs rhs left right =>
    rw [Expr.wellNamed, Bool.and_eq_true] at named
    rw [Expr.lexemesIn, List.append_assoc]
    refine declines.group named.1 (left named.1) ?_
    by_cases star : op = .mul
    · subst star
      exact (starts_group (starts_lexemesIn named.2 rest)).star
    · refine starts_of_first ?_
      cases op <;> first | decide | contradiction
  | ternary condition consequent alternative first =>
    rw [Expr.wellNamed, Bool.and_eq_true, Bool.and_eq_true] at named
    simp only [Expr.lexemesIn, List.append_assoc]
    exact declines.group named.1.1 (first named.1.1) (starts_of_first (by decide))
  | call _ _ ih | index _ _ ih =>
    rw [Expr.wellNamed, Bool.and_eq_true] at named
    simp only [Expr.lexemesIn, List.append_assoc]
    exact declines.group named.1 (ih named.1) (starts_of_first (by decide))
  | member base field arrow ih =>
    rw [Expr.wellNamed, Bool.and_eq_true] at named
    simp only [Expr.lexemesIn, List.append_assoc]
    refine declines.group named.1 (ih named.1) (starts_of_first ?_)
    cases arrow <;> decide

end Declines
end

theorem castType_eq_none {e : Expr} (named : e.wellNamed)
    (compound : e.precedence ≠ Expr.primaryLevel) (rest : List Lexeme) :
    castType (e.lexemesIn .plain ++ rest) = none :=
  declines_castType.eq_none named compound rest

end Grammar
end KernelTree
