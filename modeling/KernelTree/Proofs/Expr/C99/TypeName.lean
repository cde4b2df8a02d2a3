import KernelTree.Dialect.Builtin
import KernelTree.Proofs.Expr.C99.Productions
import KernelTree.Proofs.Expr.CastType
/-! The types of casts as they are written for compute devices. All their qualifiers have words
there. A printed type is read unless a keyword that is no type stands in the place of its name. -/
namespace KernelTree

open Lexeme

namespace TypeSpec

variable (t : TypeSpec)

/-- The type with the qualifiers of its text, in the order in which they stand there. -/
def arranged : TypeSpec :=
  { t with qualifiers := t.qualifiers.filter (!·.bindsPointer) ++ t.behind }

/-- The text of a type does not change when its qualifiers are arranged as they stand in it. -/
theorem render_arranged (sp : Spelling) : t.arranged.render sp = t.render sp := by
  have front : t.arranged.qualifiers.filter (!·.bindsPointer) =
      t.qualifiers.filter (!·.bindsPointer) := by
    have none : t.behind.filter (!·.bindsPointer) = [] := by
      rw [List.filter_eq_nil_iff]
      intro q inside
      simp [eq_restrict_of_mem_behind inside, Qualifier.bindsPointer]
    rw [arranged, List.filter_append, none, List.append_nil, List.filter_filter]
    simp
  have back (some : t.pointers ≠ 0) : t.arranged.qualifiers.filter (·.bindsPointer) =
      t.qualifiers.filter (·.bindsPointer) := by
    rw [arranged, List.filter_append, behind, if_neg some, List.filter_filter, List.filter_filter]
    simp
  have base : t.arranged.renderBase sp = t.renderBase sp := by
    rw [renderBase, front]
    rfl
  have stars : t.arranged.renderStars sp = t.renderStars sp := by
    rw [renderStars, renderStars]
    change (if t.pointers = 0 then _ else _) = _
    split
    · rfl
    next some =>
      rw [back some]
      rfl
  rw [render, render, base, stars]

end TypeSpec

namespace C99

open Grammar (isName isNumeral castType castType_sign castType_name castType_numeral Declines
  castType_lexemes not_digit_of_isName exists_of_isNumeral)

variable {ts rest : List Lexeme} {w : String} {t : TypeSpec}

/-- The spelling of C for compute devices. -/
def device : Spelling := Dialect.opencl.toSpelling

theorem isWord_of_mem_device (q : Qualifier) : ∀ w ∈ device.word? q, isWord w := by
  cases q <;> rintro _ ⟨⟩ <;> rfl

theorem qualifiers_sign {s : String} : qualifiers (.sign s :: ts) = ([], .sign s :: ts) := rfl

/-- The words in front of the name of a type are read as its qualifiers. -/
theorem qualifiers_front {qs : List Qualifier} (all : ∀ q ∈ qs, q.bindsPointer = false)
    (before : List Qualifier) (rest : List Lexeme) (stop : qualifiers ts = (before, rest)) :
    qualifiers ((qs.filterMap device.word?).map .word ++ ts) = (qs ++ before, rest) := by
  induction qs with
  | nil => exact stop
  | cons q qs ih =>
    obtain ⟨first, others⟩ := List.forall_mem_cons.mp all
    obtain ⟨word, written, known⟩ :
        ∃ word, device.word? q = some word ∧ qualifierWords.lookup word = some q := by
      cases q
      case restrict => cases first
      all_goals exact ⟨_, rfl, rfl⟩
    rw [List.filterMap_cons_some written, List.map_cons, List.cons_append, qualifiers, known]
    simp [ih others]

theorem declines_typeName : Declines typeName where
  sign s ts := rfl
  name w s ts named starts := by
    rw [typeName, qualifiers]
    cases qualifierWords.lookup w with
    | none => simp [castType_name named starts]
    | some q => simp [qualifiers_sign, castType_sign]
  numeral w s ts numeral := by
    rw [typeName, qualifiers]
    cases qualifierWords.lookup w with
    | none => simp [castType_numeral numeral]
    | some q => simp [qualifiers_sign, castType_sign]

/-- What neither is a numeral nor an identifier opens no expression. -/
theorem cast_eq_none (other : leaf? w = none) (rest : List Lexeme) :
    cast (.word w :: rest) = none := by
  have base := ((Reads.word w).base (Nat.le_refl _) rest).1
  rwa [other] at base

theorem not_isNumeral_of_isName (named : isName w) : isNumeral w = false := by
  by_contra numeral
  rw [Bool.not_eq_false] at numeral
  obtain ⟨c, more, spelled, digit⟩ := exists_of_isNumeral numeral
  rw [not_digit_of_isName named spelled] at digit
  cases digit

theorem leaf?_of_isName (named : isName w) :
    leaf? w = if isIdentifier w then some (.ident (.identifier w)) else none := by
  rw [leaf?, not_isNumeral_of_isName named, Bool.false_or, Grammar.leaf_of_isName named]

theorem back_device (t : TypeSpec) : t.back device = t.behind.map (·.name) := by
  rw [TypeSpec.back, TypeSpec.behind]
  split
  · rfl
  · rw [← List.filterMap_eq_map, List.filterMap_filter, List.filterMap_filter]
    congr 1
    funext q
    cases q <;> rfl

/-- What stands behind the name of a type, up to the closing parenthesis. -/
def behindName (t : TypeSpec) (rest : List Lexeme) : List Lexeme :=
  List.replicate t.pointers.toNat (.sign "*") ++ ((t.back device).map .word ++ .sign ")" :: rest)

theorem behindName_eq_cons (t : TypeSpec) (rest : List Lexeme) :
    ∃ s more, behindName t rest = .sign s :: more := by
  rw [behindName]
  by_cases none : t.pointers = 0
  · rw [TypeSpec.back, if_pos none, none]
    exact ⟨_, _, rfl⟩
  · obtain ⟨n, count⟩ := Nat.exists_eq_succ_of_ne_zero
      (fun zero : t.pointers.toNat = 0 => none (UInt8.toNat_inj.mp zero))
    rw [count, List.replicate_succ]
    exact ⟨_, _, rfl⟩

/-- Behind the words in front of its name, a type is read as in C++. -/
theorem castType_device (named : isName t.name) (rest : List Lexeme) :
    castType (.word t.name :: behindName t rest) =
      some ({ t with qualifiers := t.behind }, rest) := by
  let u : TypeSpec := { t with qualifiers := t.behind }
  have before : u.before = [] := by
    rw [TypeSpec.before, List.filter_eq_nil_iff]
    intro q inside
    simp [TypeSpec.eq_restrict_of_mem_behind inside]
  have behind : u.behind = t.behind := by
    change (if t.pointers = 0 then [] else t.behind.filter (·.bindsPointer)) = _
    rw [TypeSpec.behind]
    split
    · rfl
    · rw [List.filter_filter]
      simp
  have read := castType_lexemes (t := u) named rest
  rw [TypeSpec.lexemes, TypeSpec.shown, before, behind] at read
  rw [behindName, back_device, List.map_map]
  simpa [u, Function.comp_def] using read

/-- A type is read if its name is the name of a type. -/
theorem typeName_device (named : isName t.name) (rest : List Lexeme) :
    typeName ((t.front device).map .word ++ .word t.name :: behindName t rest) =
      (if isTypeName t.name then some t.arranged else none).map (·, rest) := by
  have all : ∀ q ∈ t.qualifiers.filter (!·.bindsPointer), q.bindsPointer = false := by simp
  rw [TypeSpec.front, typeName]
  cases word : qualifierWords.lookup t.name with
  | none =>
    have stop : qualifiers (.word t.name :: behindName t rest) =
        ([], .word t.name :: behindName t rest) := by rw [qualifiers, word]
    rw [qualifiers_front all _ _ stop]
    simp only [castType_device named]
    cases kind : isTypeName t.name <;> simp [TypeSpec.arranged, kind]
  | some q =>
    -- The name is the word for an address space, and no type comes behind it.
    have other : isTypeName t.name = false := by
      have keyword : t.name ∉ typeKeywords := by
        intro inside
        have every : (typeKeywords.all fun s => (qualifierWords.lookup s).isNone) = true := by
          decide
        have free := List.all_eq_true.mp every _ inside
        simp [word] at free
      simp [isTypeName, keyword, isReserved, word]
    obtain ⟨s, more, tail⟩ := behindName_eq_cons t rest
    have stop : qualifiers (.word t.name :: behindName t rest) = ([q], .sign s :: more) := by
      rw [tail, qualifiers, word]
      rfl
    rw [qualifiers_front all _ _ stop, other]
    rfl

/-- No word for a qualifier is an identifier. -/
theorem leaf?_word {q : Qualifier} (written : w ∈ device.word? q) : leaf? w = none := by
  cases q <;> cases written <;> decide

/-- The outcome of a printed type and the parenthesis behind it. -/
theorem reads_type (named : isName t.name) :
    ReadsType (t.lexemesIn device ++ [.sign ")"])
      (if isTypeName t.name then some t.arranged else none) := by
  have split (rest : List Lexeme) : t.lexemesIn device ++ [.sign ")"] ++ rest =
      (t.front device).map .word ++ .word t.name :: behindName t rest := by
    simp [TypeSpec.lexemesIn, behindName, device, Dialect.opencl]
  refine ⟨by simp, fun rest => split rest ▸ typeName_device named rest, fun none rest => ?_⟩
  rw [split]
  cases words : t.front device with
  | nil =>
    have reserved : isIdentifier t.name = false := by
      by_contra identifier
      simp_all [isTypeName, isIdentifier]
    exact cast_eq_none (by rw [leaf?_of_isName named, reserved]; rfl) _
  | cons u more =>
    obtain ⟨q, -, written⟩ :=
      List.mem_filterMap.mp (words ▸ List.mem_cons_self : u ∈ t.front device)
    exact cast_eq_none (leaf?_word written) _

end C99
end KernelTree
