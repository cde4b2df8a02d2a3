import KernelTree.Proofs.Expr.Grammar
import KernelTree.Proofs.Text
/-! The text of a type, in plain C and in other spellings, and its lexemes. -/
namespace KernelTree

open Lexeme Grammar

theorem isBlank_of_isWordChar {c : Char} (h : isWordChar c) : Text.isBlank c = false := by
  have bounds : 0x30 ≤ c.toNat ∧ c.toNat ≤ 0x7A := by
    simp only [isWordChar, Char.isAlphanum, Char.isAlpha, Char.isUpper, Char.isLower, Char.isDigit,
      Bool.or_eq_true, Bool.and_eq_true, decide_eq_true_eq, beq_iff_eq, ge_iff_le,
      UInt32.le_iff_toNat_le] at h
    rcases h with ((upper | lower) | digit) | rfl
    · change 65 ≤ c.toNat ∧ c.toNat ≤ 90 at upper
      omega
    · change 97 ≤ c.toNat ∧ c.toNat ≤ 122 at lower
      omega
    · change 48 ≤ c.toNat ∧ c.toNat ≤ 57 at digit
      omega
    · decide
  simp only [Text.isBlank, Bool.or_eq_false_iff, Bool.and_eq_false_iff, decide_eq_false_iff_not,
    beq_eq_false_iff_ne]
  omega

namespace TypeSpec

/-- The qualifiers before the name, as plain C has them. -/
def before (t : TypeSpec) : List Qualifier :=
  t.qualifiers.filter fun q => q == .const || q == .volatile

/-- The qualifiers behind the stars. Without stars there are none. -/
def behind (t : TypeSpec) : List Qualifier :=
  if t.pointers = 0 then [] else t.qualifiers.filter (·.bindsPointer)

theorem eq_restrict_of_mem_behind {t : TypeSpec} {q : Qualifier} (inside : q ∈ t.behind) :
    q = .restrict := by
  rw [behind] at inside
  split at inside
  · cases inside
  · simpa [Qualifier.bindsPointer] using (List.mem_filter.mp inside).2

def lexemes (t : TypeSpec) : List Lexeme :=
  t.before.map (.word ·.name) ++ .word t.name :: List.replicate t.pointers.toNat (.sign "*") ++
    t.behind.map (.word ·.name)

/-- The words before the name. -/
def front (sp : Spelling) (t : TypeSpec) : List String :=
  (t.qualifiers.filter (!·.bindsPointer)).filterMap sp.word?

/-- The words behind the stars. Without stars there are none. -/
def back (sp : Spelling) (t : TypeSpec) : List String :=
  if t.pointers = 0 then [] else (t.qualifiers.filter (·.bindsPointer)).filterMap sp.word?

/-- The lexemes of a type as a spelling writes it. -/
def lexemesIn (sp : Spelling) (t : TypeSpec) : List Lexeme :=
  (t.front sp).map .word ++ .word (sp.typeName t.name) ::
    List.replicate t.pointers.toNat (.sign "*") ++ (t.back sp).map .word

/-- Each of some qualifiers that has a word in plain C is written by its name. -/
theorem filterMap_word?_plain {p : Qualifier → Bool} (p' : Qualifier → Bool) (qs : List Qualifier)
    (same : ∀ q, p' q = (p q && (Spelling.plain.qualifier q).isSome)) :
    (qs.filter p).filterMap Spelling.plain.word? = (qs.filter p').map (·.name) := by
  rw [← List.filterMap_eq_map, List.filterMap_filter, List.filterMap_filter]
  congr 1
  funext q
  rw [same]
  cases q <;> cases p _ <;> rfl

theorem front_plain (t : TypeSpec) : t.front .plain = t.before.map (·.name) :=
  filterMap_word?_plain _ _ fun q => by cases q <;> rfl

theorem back_plain (t : TypeSpec) : t.back .plain = t.behind.map (·.name) := by
  rw [back, behind]
  split
  · rfl
  · exact filterMap_word?_plain _ _ fun q => by cases q <;> rfl

theorem lexemesIn_plain (t : TypeSpec) : t.lexemesIn .plain = t.lexemes := by
  rw [lexemesIn, front_plain, back_plain, List.map_map, List.map_map]
  rfl

theorem trimEnd_eq {text : String} {last : Char} (ends : text.toList.getLast? = some last)
    (marked : Text.isBlank last = false) : Text.trimEnd text = text := by
  rw [← List.head?_reverse, List.head?_eq_some_iff] at ends
  obtain ⟨more, reversed⟩ := ends
  rw [Text.trimEnd, reversed, List.dropWhile_cons_of_neg (by simp [marked]), ← reversed,
    List.reverse_reverse, String.ofList_toList]

theorem trimEnd_blank (text : String) : Text.trimEnd (text ++ " ") = Text.trimEnd text := by
  rw [Text.trimEnd, String.toList_append, List.reverse_append]
  rfl

theorem intercalate_concat (words : List String) (last : String) :
    " ".intercalate (words ++ [last]) = String.join (words.map (· ++ " ")) ++ last := by
  induction words with
  | nil => simp
  | cons w more ih =>
    rw [List.cons_append, String.intercalate_cons_of_ne_nil (by simp), ih, List.map_cons,
      String.join_cons]
    simp only [String.append_assoc]

/-- Trimming cuts off the blank that stands behind the last word. -/
theorem trimEnd_words (front : String) {words : List String} (all : ∀ w ∈ words, isWord w)
    {last : Char} (ends : front.toList.getLast? = some last) (marked : Text.isBlank last = false) :
    Text.trimEnd (front ++ String.join (words.map (· ++ " "))) =
      front ++ " ".intercalate words := by
  rcases List.eq_nil_or_concat' words with rfl | ⟨before, w, rfl⟩
  · simpa using trimEnd_eq ends marked
  have word := all w (by simp)
  rw [isWord, Bool.and_eq_true, List.all_eq_true] at word
  obtain ⟨c, closes⟩ : ∃ c, w.toList.getLast? = some c := by
    rw [← Option.isSome_iff_exists, List.getLast?_isSome]
    simpa using word.1
  have inside := isBlank_of_isWordChar (word.2 c (List.mem_of_getLast? closes))
  have behind : String.join ((before ++ [w]).map (· ++ " ")) =
      String.join (before.map (· ++ " ")) ++ w ++ " " := by
    simp [String.join_cons, String.append_assoc]
  rw [behind, intercalate_concat, ← String.append_assoc, trimEnd_blank, trimEnd_eq _ inside]
  simp [closes]

section
variable {sp : Spelling} {t : TypeSpec} (worded : ∀ q, ∀ w ∈ sp.word? q, isWord w)
include worded

theorem isWord_of_mem_front {w : String} (inside : w ∈ t.front sp) : isWord w := by
  obtain ⟨q, -, word⟩ := List.mem_filterMap.mp inside
  exact worded q w word

theorem isWord_of_mem_back {w : String} (inside : w ∈ t.back sp) : isWord w := by
  rw [back] at inside
  split at inside
  · cases inside
  · obtain ⟨q, -, word⟩ := List.mem_filterMap.mp inside
    exact worded q w word

/-- The text of a type. -/
theorem render_eq : t.render sp =
    if t.pointers = 0 then " ".intercalate (t.front sp ++ [sp.typeName t.name])
    else " ".intercalate (t.front sp ++ [sp.typeName t.name]) ++ " " ++
      ("".pushn '*' t.pointers.toNat ++ " ".intercalate (t.back sp)) := by
  rw [render, renderBase, renderStars]
  by_cases none : t.pointers = 0
  · simp [none, front]
  · have some : t.pointers.toNat ≠ 0 := fun zero => none (UInt8.toNat_inj.mp zero)
    have last : ("".pushn '*' t.pointers.toNat).toList.getLast? = Option.some '*' := by
      rw [Text.toList_pushn, List.getLast?_replicate, if_neg some]
    have words : ∀ w ∈ t.back sp, isWord w := fun w inside => isWord_of_mem_back worded inside
    have trimmed := trimEnd_words _ words last (by decide)
    rw [back, if_neg none] at trimmed
    rw [if_neg none, if_neg none, if_neg, ← front, trimmed, back, if_neg none]
    intro empty
    have texts := congrArg String.toList empty
    simp [Text.toList_pushn, some] at texts

end

theorem lex_stars (n : Nat) {rest : List Char} (ends : ∀ c ∈ rest.head?, growsBy "*" c = false) :
    lex (List.replicate n '*' ++ rest) = List.replicate n (.sign "*") ++ lex rest := by
  induction n with
  | zero => rfl
  | succ n ih =>
    have next : ∀ c ∈ (List.replicate n '*' ++ rest).head?, growsBy "*" c = false := by
      cases n with
      | zero => exact ends
      | succ n =>
        rintro _ ⟨⟩
        decide
    have first := lex_sign (s := "*") (by decide) next
    rw [ih] at first
    exact first

/-- The lexemes of the type of a cast, up to the closing parenthesis. -/
theorem lex_renderIn {sp : Spelling} {t : TypeSpec} (worded : ∀ q, ∀ w ∈ sp.word? q, isWord w)
    (named : isWord (sp.typeName t.name)) (rest : List Char) :
    lex ((t.render sp).toList ++ (")".toList ++ rest)) =
      t.lexemesIn sp ++ .sign ")" :: lex rest := by
  have close : lex (")".toList ++ rest) = .sign ")" :: lex rest := lex_mark (by decide) (by decide)
  have apart : EndsWord (")".toList ++ rest) := endsWord_sign (by decide)
  have base : LexesTo (" ".intercalate (t.front sp ++ [sp.typeName t.name]))
      ((t.front sp).map .word ++ [.word (sp.typeName t.name)]) := by
    have all : ∀ w ∈ t.front sp ++ [sp.typeName t.name], isWord w := by
      intro w inside
      rcases List.mem_append.mp inside with before | name
      · exact isWord_of_mem_front worded before
      · rwa [List.mem_singleton.mp name]
    have words := lexesTo_words (by simp) all
    rwa [List.map_append] at words
  -- Behind the stars stand words or, if there are none, the parenthesis.
  have tail : lex (List.replicate t.pointers.toNat '*' ++
      ((" ".intercalate (t.back sp)).toList ++ (")".toList ++ rest))) =
        List.replicate t.pointers.toNat (.sign "*") ++
          ((t.back sp).map .word ++ .sign ")" :: lex rest) := by
    cases written : t.back sp with
    | nil =>
      rw [lex_stars]
      · exact congrArg _ close
      · rintro _ ⟨⟩
        decide
    | cons w ws =>
      have all : ∀ u ∈ w :: ws, isWord u :=
        fun u inside => isWord_of_mem_back worded (written ▸ inside)
      have first : ∃ more, " ".intercalate (w :: ws) = w ++ more := by
        cases ws with
        | nil => exact ⟨"", by simp⟩
        | cons => exact ⟨_, by rw [String.intercalate_cons_cons, String.append_assoc]⟩
      rw [lex_stars, lexesTo_words (by simp) all _ apart, close]
      obtain ⟨more, split⟩ := first
      rw [split, String.toList_append, List.append_assoc]
      exact growsBy_word (all w List.mem_cons_self)
  rw [render_eq worded, lexemesIn]
  split
  next none =>
    rw [base _ apart, close, none]
    simp [back, none]
  next some =>
    simp only [String.toList_append, List.append_assoc, Text.toList_pushn]
    rw [base _ endsWord_blank, lex_blank, tail]
    simp only [List.append_assoc, List.cons_append, List.nil_append]

theorem isWord_of_mem_plain (q : Qualifier) : ∀ w ∈ Spelling.plain.word? q, isWord w := by
  cases q <;> rintro _ ⟨⟩ <;> rfl

/-- The text of a type in plain C. -/
theorem render_plain (t : TypeSpec) : t.render .plain =
    if t.pointers = 0 then " ".intercalate (t.before.map (·.name) ++ [t.name])
    else " ".intercalate (t.before.map (·.name) ++ [t.name]) ++ " " ++
      ("".pushn '*' t.pointers.toNat ++ " ".intercalate (t.behind.map (·.name))) := by
  rw [render_eq isWord_of_mem_plain, front_plain, back_plain]
  rfl

end TypeSpec

end KernelTree
