import Mathlib
/-! The lexemes of C++: words and signs. A sign reaches as far as the longest operator or mark that
the text begins with, so what stands behind a sign may change it. -/
namespace KernelTree

inductive Lexeme where
  | word (text : String)
  | sign (text : String)
deriving DecidableEq, Repr, Inhabited

namespace Lexeme

/-- Letters, digits and the underscore. -/
def isWordChar (c : Char) : Bool := c.isAlphanum || c == '_'

/-- The operators and marks of C++, longer ones first. -/
def signs : List String := [
  "<=>", "<<=", ">>=", "->*", "...",
  "<<", ">>", "<=", ">=", "==", "!=", "&&", "||", "++", "--", "->", ".*", "::",
  "+=", "-=", "*=", "/=", "%=", "&=", "|=", "^=", "##",
  "*", "/", "%", "+", "-", "<", ">", "=", "!", "~", "&", "^", "|", "?", ":", ",", ".", ";",
  "(", ")", "[", "]", "\x7b", "\x7d", "#"]

theorem signs_sorted : signs.Pairwise fun s t => t.length ≤ s.length := by decide +kernel

/-- Cuts a text into words, which reach as far as they can, and signs, the longest that fit. A
character of neither kind is a sign of its own. -/
def lex (text : List Char) : List Lexeme :=
  match text with
  | [] => []
  | c :: rest =>
    if isWordChar c then
      word (String.ofList (c :: rest.takeWhile isWordChar)) :: lex (rest.dropWhile isWordChar)
    else if c.isWhitespace then lex rest
    else
      let s := (signs.find? (·.toList.isPrefixOf (c :: rest))).getD (String.singleton c)
      sign s :: lex (rest.drop (s.length - 1))
termination_by text.length
decreasing_by
  · exact Nat.lt_succ_of_le (List.dropWhile_suffix _).length_le
  · exact Nat.lt_succ_self _
  · exact Nat.lt_succ_of_le (List.drop_suffix _ _).length_le

/-- Lexemes in parentheses, if there are any. -/
def group (parens : Bool) (ts : List Lexeme) : List Lexeme :=
  if parens then .sign "(" :: ts ++ [.sign ")"] else ts

/-- Lexemes with commas between them. -/
def commas (parts : List (List Lexeme)) : List Lexeme := [.sign ","].intercalate parts

/-- Whether a sign becomes another one in front of the character. -/
def growsBy (s : String) (c : Char) : Bool :=
  signs.any fun t => (s.toList ++ [c]).isPrefixOf t.toList

/-- Whether no other sign begins with this one. -/
def isFinal (s : String) : Bool :=
  signs.all fun t => !s.toList.isPrefixOf t.toList || s.toList == t.toList

/-- A word that stands in front of the text ends there. -/
def EndsWord (text : List Char) : Prop := ∀ c ∈ text.head?, isWordChar c = false

/-- Whether a text is one word. -/
def isWord (s : String) : Bool := !s.toList.isEmpty && s.toList.all isWordChar

/-- The lexemes that a text falls apart into, in front of anything that ends a word. -/
def LexesTo (text : String) (ts : List Lexeme) : Prop :=
  ∀ rest, EndsWord rest → lex (text.toList ++ rest) = ts ++ lex rest

section
variable {s : String} {c : Char} {text rest : List Char} {words : List String}

@[simp] theorem lex_nil : lex [] = [] := by rw [lex]

theorem lex_blank : lex (" ".toList ++ text) = lex text := by
  rw [show " ".toList ++ text = ' ' :: text from rfl, lex]
  simp [isWordChar]

/-- What holds of the elements at the front and not of the next one is cut off behind the front. -/
theorem span_append {α : Type} {p : α → Bool} {front rest : List α} (all : ∀ a ∈ front, p a)
    (ends : ∀ a ∈ rest.head?, p a = false) :
    (front ++ rest).takeWhile p = front ∧ (front ++ rest).dropWhile p = rest := by
  rw [List.takeWhile_append_of_pos all, List.dropWhile_append_of_pos all]
  cases rest with
  | nil => simp
  | cons a rest => simp [ends a rfl]

/-- A word ends where a character follows that does not belong to words. -/
theorem lex_word (filled : text ≠ []) (all : ∀ c ∈ text, isWordChar c) (ends : EndsWord rest) :
    lex (text ++ rest) = word (String.ofList text) :: lex rest := by
  obtain ⟨c, tail, rfl⟩ := List.exists_cons_of_ne_nil filled
  obtain ⟨first, others⟩ := List.forall_mem_cons.mp all
  obtain ⟨front, behind⟩ := span_append others ends
  rw [List.cons_append, lex, if_pos first, front, behind]

theorem toList_ne_nil_of_mem_signs (known : s ∈ signs) : s.toList ≠ [] := by
  have every : (signs.all fun s => !s.toList.isEmpty) = true := by decide
  simpa using List.all_eq_true.mp every s known

/-- No sign holds anything that belongs to words or that separates them. -/
theorem signs_apart :
    (signs.all fun s => s.toList.all fun c => !isWordChar c && !c.isWhitespace) = true := by decide

theorem apart_of_mem_signs (known : s ∈ signs) (inside : c ∈ s.toList) :
    isWordChar c = false ∧ c.isWhitespace = false := by
  simpa using List.all_eq_true.mp (List.all_eq_true.mp signs_apart s known) c inside

theorem growsBy_eq_false (apart : isWordChar c ∨ c.isWhitespace) : growsBy s c = false := by
  rw [growsBy, List.any_eq_false]
  intro t known grown
  have inside : c ∈ t.toList := by
    rw [List.isPrefixOf_iff_prefix] at grown
    exact grown.subset (by simp)
  obtain ⟨noWord, noBlank⟩ := apart_of_mem_signs known inside
  simp [noWord, noBlank] at apart

theorem growsBy_of_isFinal (final : isFinal s) : growsBy s c = false := by
  rw [growsBy, List.any_eq_false]
  intro t known grown
  rw [List.isPrefixOf_iff_prefix] at grown
  have cut := List.all_eq_true.mp final t known
  simp only [Bool.or_eq_true, Bool.not_eq_true', ← Bool.not_eq_true, List.isPrefixOf_iff_prefix,
    beq_iff_eq] at cut
  rcases cut with unlike | same
  · exact unlike ((List.prefix_append _ _).trans grown)
  · have short := grown.length_le
    rw [same, List.length_append, List.length_singleton] at short
    omega

/-- The first sign of the table that fits is the longest one. -/
theorem find?_signs (known : s ∈ signs) (fits : s.toList <+: text)
    (longest : ∀ t ∈ signs, t.toList <+: text → t.length ≤ s.length) :
    signs.find? (·.toList.isPrefixOf text) = some s := by
  obtain ⟨t, found⟩ : ∃ t, signs.find? (·.toList.isPrefixOf text) = some t :=
    Option.isSome_iff_exists.mp
      (List.find?_isSome.mpr ⟨s, known, List.isPrefixOf_iff_prefix.mpr fits⟩)
  obtain ⟨prefixed, before, after, split, skipped⟩ := List.find?_eq_some_iff_append.mp found
  rw [List.isPrefixOf_iff_prefix] at prefixed
  have short := longest t (List.mem_of_find?_eq_some found) prefixed
  have long : s.length ≤ t.length := by
    have sorted := signs_sorted
    rw [split] at known sorted
    rcases List.mem_append.mp known with passed | passed
    · have unfit := skipped s passed
      simp [List.isPrefixOf_iff_prefix.mpr fits] at unfit
    · rcases List.mem_cons.mp passed with rfl | later
      · exact Nat.le_refl _
      · exact (List.pairwise_cons.mp (List.pairwise_append.mp sorted).2.1).1 s later
  rw [← String.length_toList, ← String.length_toList] at long short
  have same : s.toList = t.toList :=
    (List.prefix_of_prefix_length_le fits prefixed long).eq_of_length (Nat.le_antisymm long short)
  rw [found, String.toList_inj.mp same]

/-- A sign is read as such in front of a character by which it does not grow. -/
theorem lex_sign (known : s ∈ signs) (ends : ∀ c ∈ rest.head?, growsBy s c = false) :
    lex (s.toList ++ rest) = sign s :: lex rest := by
  have longest : ∀ t ∈ signs, t.toList <+: s.toList ++ rest → t.length ≤ s.length := by
    intro t other fits
    by_contra longer
    rw [← String.length_toList, ← String.length_toList] at longer
    obtain ⟨more, whole⟩ := List.prefix_of_prefix_length_le (List.prefix_append s.toList rest) fits
      (by omega)
    cases more with
    | nil => simp [← whole] at longer
    | cons c more =>
      have next : c ∈ rest.head? := by
        rw [← whole, List.prefix_append_right_inj] at fits
        obtain ⟨_, rfl⟩ := fits
        exact rfl
      have grown : growsBy s c := by
        rw [growsBy, List.any_eq_true]
        exact ⟨t, other, List.isPrefixOf_iff_prefix.mpr ⟨more, by simpa using whole⟩⟩
      simp [ends c next] at grown
  have found := find?_signs known (List.prefix_append s.toList rest) longest
  obtain ⟨c, tail, spelled⟩ := List.exists_cons_of_ne_nil (toList_ne_nil_of_mem_signs known)
  have inside : c ∈ s.toList := spelled ▸ List.mem_cons_self
  have length : s.length - 1 = tail.length := by
    rw [← String.length_toList, spelled]
    rfl
  rw [spelled, List.cons_append] at found ⊢
  obtain ⟨noWord, noBlank⟩ := apart_of_mem_signs known inside
  rw [lex, if_neg (by simp [noWord]), if_neg (by simp [noBlank])]
  simp only [found, Option.getD_some, length, List.drop_left]

theorem lex_mark (known : s ∈ signs) (final : isFinal s) :
    lex (s.toList ++ text) = sign s :: lex text :=
  lex_sign known fun _ _ => growsBy_of_isFinal final

theorem lex_spaced (known : s ∈ signs) :
    lex (" ".toList ++ (s.toList ++ (" ".toList ++ text))) = sign s :: lex text := by
  rw [lex_blank, lex_sign known, lex_blank]
  rintro c ⟨⟩
  exact growsBy_eq_false (.inr rfl)

/-- A word ends in front of a sign. -/
theorem endsWord_sign (known : s ∈ signs) : EndsWord (s.toList ++ text) := by
  obtain ⟨c, tail, spelled⟩ := List.exists_cons_of_ne_nil (toList_ne_nil_of_mem_signs known)
  rw [spelled]
  rintro _ ⟨⟩
  exact (apart_of_mem_signs known (spelled ▸ List.mem_cons_self)).1

theorem endsWord_blank : EndsWord (" ".toList ++ text) := by
  rintro _ ⟨⟩
  rfl

theorem lexesTo_word (h : isWord s) : LexesTo s [.word s] := by
  intro rest ends
  rw [isWord, Bool.and_eq_true, List.all_eq_true] at h
  rw [lex_word (by simpa using h.1) h.2 ends, String.ofList_toList]
  rfl

theorem lexesTo_words (filled : words ≠ []) (all : ∀ w ∈ words, isWord w) :
    LexesTo (" ".intercalate words) (words.map .word) := by
  induction words with
  | nil => contradiction
  | cons w more ih =>
    obtain ⟨first, others⟩ := List.forall_mem_cons.mp all
    cases more with
    | nil => simpa using lexesTo_word first
    | cons w' more =>
      intro rest ends
      rw [String.intercalate_cons_cons, String.toList_append, String.toList_append,
        List.append_assoc, List.append_assoc, lexesTo_word first _ endsWord_blank, lex_blank,
        ih (by simp) others rest ends]
      rfl

theorem exists_of_isWord (h : isWord s) : ∃ c rest, s.toList = c :: rest ∧ isWordChar c := by
  rw [isWord, Bool.and_eq_true, List.all_eq_true] at h
  obtain ⟨c, rest, spelled⟩ := List.exists_cons_of_ne_nil (l := s.toList) (by simpa using h.1)
  exact ⟨c, rest, spelled, h.2 c (spelled ▸ List.mem_cons_self)⟩

/-- No sign grows by a word. -/
theorem growsBy_word {sign : String} (h : isWord s) :
    ∀ c ∈ (s.toList ++ rest).head?, growsBy sign c = false := by
  obtain ⟨c, more, spelled, inside⟩ := exists_of_isWord h
  rw [spelled]
  rintro _ ⟨⟩
  exact growsBy_eq_false (.inl inside)

theorem lexesTo_commas {texts : List String} {parts : List (List Lexeme)}
    (each : List.Forall₂ LexesTo texts parts) :
    LexesTo (", ".intercalate texts) (commas parts) := by
  have comma (rest : List Char) : lex (", ".toList ++ rest) = .sign "," :: lex rest := by
    rw [show ", ".toList = ",".toList ++ " ".toList from rfl, List.append_assoc,
      lex_mark (by decide) (by decide), lex_blank]
  induction each with
  | nil =>
    intro rest ends
    rfl
  | @cons text ts texts parts first others ih =>
    intro rest ends
    cases others with
    | nil => simpa [commas] using first rest ends
    | cons second others =>
      have apart : EndsWord (", ".toList ++ rest) := by
        rintro _ ⟨⟩
        rfl
      rw [String.intercalate_cons_cons, String.toList_append, String.toList_append,
        List.append_assoc, List.append_assoc, first _ (by rintro _ ⟨⟩; rfl), comma, ih rest ends]
      simp [commas]

end
end Lexeme
end KernelTree
