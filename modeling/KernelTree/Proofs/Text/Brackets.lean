import KernelTree.Proofs.Text.Braces
import Mathlib.Data.String.Basic
/-! Brackets of all kinds in texts. A separator counts only where no bracket is open, so a text
whose brackets are balanced and that has no separator outside of them stays in one piece. -/
namespace KernelTree.Text

def opens (c : Char) : Bool := c ∈ ['(', '[', '\x7b']

def closes (c : Char) : Bool := c ∈ [')', ']', '\x7d']

/-- The number of brackets that are open behind a character. -/
def nesting (n : Nat) (c : Char) : Nat :=
  if opens c then n + 1 else if closes c then n - 1 else n

/-- Characters, each with the number of brackets that are open behind it. -/
abbrev Leveled := List (Char × Nat)

/-- The characters of a text before which `n` brackets are open. -/
def levels (n : Nat) : List Char → Leveled
  | [] => []
  | c :: rest => (c, nesting n c) :: levels (nesting n c) rest

def leveled (s : String) : Leveled := levels 0 s.toList

/-- The number of brackets that are open behind a text, if `n` are open before it and none is closed
that is not open. -/
def nest (n : Nat) : List Char → Option Nat
  | [] => some n
  | c :: rest => if closes c ∧ n = 0 then none else nest (nesting n c) rest

/-- Every bracket that the text opens it closes, and no other. -/
def Balanced (s : String) : Prop := nest 0 s.toList = some 0

/-- The character does not stand outside of all brackets. -/
def Lacks (c : Char) (s : String) : Prop := (c, 0) ∉ leveled s

/-- Between these separators the text stays in one piece. -/
structure Closed (separators : List Char) (s : String) : Prop where
  balanced : Balanced s
  lacks : ∀ c ∈ separators, Lacks c s

/-- What separates declarators and declarations. -/
abbrev marks : List Char := [',', ';']

/-- No mark and no bracket is in the word, apart from balanced parentheses. -/
def isClean (w : String) : Bool :=
  w.toList.all (· ∉ [',', ';', '[', ']', '\x7b', '\x7d']) && nest 0 w.toList == some 0

instance (s : String) : Decidable (Balanced s) := inferInstanceAs (Decidable (_ = _))

instance (c : Char) (s : String) : Decidable (Lacks c s) := inferInstanceAs (Decidable (_ ∉ _))

-- The separators are tested as a list, since characters are finite in number and a quantifier over
-- them would be decided by going through them all.
instance (separators : List Char) (s : String) : Decidable (Closed separators s) :=
  decidable_of_iff (Balanced s ∧ separators.all fun c => decide (Lacks c s))
    ⟨fun h => ⟨h.1, by simpa using h.2⟩, fun h => ⟨h.balanced, by simpa using h.lacks⟩⟩

section
variable {text more : List Char} {n k : Nat} {c : Char}

theorem not_opens_of_closes (closing : closes c) : opens c = false := by
  simp only [closes, List.mem_cons, List.not_mem_nil, or_false, decide_eq_true_eq] at closing
  rcases closing with rfl | rfl | rfl <;> rfl

theorem plain_of_isBlank (blank : isBlank c) : opens c = false ∧ closes c = false := by
  constructor
  all_goals
    refine Bool.eq_false_iff.mpr fun bracket => ?_
    simp only [opens, closes, List.mem_cons, List.not_mem_nil, or_false, decide_eq_true_eq]
      at bracket
    rcases bracket with rfl | rfl | rfl <;> exact absurd blank (by decide)

theorem nesting_of_plain (plain : opens c = false ∧ closes c = false) (n : Nat) :
    nesting n c = n := by
  simp [nesting, plain]

theorem nesting_add (inside : ¬ (closes c ∧ n = 0)) (m : Nat) :
    nesting (n + m) c = nesting n c + m := by
  unfold nesting
  split
  · omega
  · split
    next closing =>
      have : n ≠ 0 := fun outside => inside ⟨closing, outside⟩
      omega
    next => rfl

@[simp] theorem map_fst_levels (n : Nat) (text : List Char) :
    (levels n text).map Prod.fst = text := by
  induction text generalizing n with
  | nil => rfl
  | cons c rest ih => rw [levels, List.map_cons, ih]

theorem nest_append (n : Nat) (text more : List Char) :
    nest n (text ++ more) = (nest n text).bind (nest · more) := by
  induction text generalizing n with
  | nil => rfl
  | cons c rest ih =>
    rw [List.cons_append, nest, nest]
    split
    · rfl
    · exact ih _

theorem levels_append (counted : nest n text = some k) (more : List Char) :
    levels n (text ++ more) = levels n text ++ levels k more := by
  induction text generalizing n with
  | nil =>
    cases counted
    rfl
  | cons c rest ih =>
    rw [nest] at counted
    split at counted
    · cases counted
    · rw [List.cons_append, levels, levels, ih counted, List.cons_append]

/-- Inside further brackets a text has the same levels, so much higher. -/
theorem nest_add (counted : nest n text = some k) (m : Nat) :
    nest (n + m) text = some (k + m) ∧
      levels (n + m) text = (levels n text).map fun p => (p.1, p.2 + m) := by
  induction text generalizing n with
  | nil =>
    cases counted
    exact ⟨rfl, rfl⟩
  | cons c rest ih =>
    rw [nest] at counted
    split at counted
    · cases counted
    next inside =>
      have deeper : ¬ (closes c ∧ n + m = 0) := fun both => inside ⟨both.1, by omega⟩
      rw [nest, if_neg deeper, levels, levels, nesting_add inside]
      exact ⟨(ih counted).1, congrArg _ (ih counted).2⟩

theorem nest_plain (text : List Char) (plain : ∀ c ∈ text, opens c = false ∧ closes c = false)
    (n : Nat) : nest n text = some n ∧ levels n text = text.map (·, n) := by
  induction text with
  | nil => exact ⟨rfl, rfl⟩
  | cons c rest ih =>
    obtain ⟨first, others⟩ := List.forall_mem_cons.mp plain
    have inside : ¬ (closes c ∧ n = 0) := by simp [first.2]
    rw [nest, if_neg inside, levels, nesting_of_plain first]
    exact ⟨(ih others).1, congrArg _ (ih others).2⟩

theorem nest_bracketed {left right : Char} (opening : opens left) (closing : closes right)
    (balanced : nest 0 text = some 0) : nest 0 (left :: (text ++ [right])) = some 0 ∧
      levels 0 (left :: (text ++ [right])) =
        (left, 1) :: ((levels 0 text).map (fun p => (p.1, p.2 + 1)) ++ [(right, 0)]) := by
  have first : nesting 0 left = 1 := by simp [nesting, opening]
  have last : nesting 1 right = 0 := by simp [nesting, closing, not_opens_of_closes closing]
  have start : ¬ (closes left ∧ 0 = 0) := fun both => by
    simp [not_opens_of_closes both.1] at opening
  obtain ⟨counted, inside⟩ := nest_add balanced 1
  rw [Nat.zero_add] at counted inside
  constructor
  · rw [nest, if_neg start, first, nest_append, counted, Option.bind_some, nest,
      if_neg (fun both => by cases both.2), last]
    rfl
  · rw [levels, first, levels_append counted, inside, levels, last]
    rfl

end

variable {s u : String} {c : Char} {texts : List String}

theorem lacks_of_notMem (missing : c ∉ s.toList) : Lacks c s := fun inside =>
  missing (map_fst_levels 0 s.toList ▸ List.mem_map_of_mem inside)

theorem Balanced.leveled_append (h : Balanced s) (u : String) :
    leveled (s ++ u) = leveled s ++ leveled u := by
  rw [leveled, String.toList_append, levels_append h, leveled, leveled]

/-- The brackets that belong together. -/
def brackets : List (String × String) := [("(", ")"), ("[", "]"), ("\x7b", "\x7d")]

/-- Whatever stands between brackets, only the closing one is outside of them. -/
theorem Balanced.bracketed {left right : String} (h : Balanced s)
    (pair : (left, right) ∈ brackets) {cs : List Char} (other : ∀ c ∈ cs, closes c = false) :
    Closed cs (left ++ s ++ right) := by
  obtain ⟨l, r, opening, closing, spelled⟩ : ∃ l r, opens l ∧ closes r ∧
      (left ++ s ++ right).toList = l :: (s.toList ++ [r]) := by
    simp only [brackets, List.mem_cons, Prod.mk.injEq, List.not_mem_nil, or_false] at pair
    rcases pair with ⟨rfl, rfl⟩ | ⟨rfl, rfl⟩ | ⟨rfl, rfl⟩
    exacts [⟨'(', ')', rfl, rfl, by simp⟩, ⟨'[', ']', rfl, rfl, by simp⟩,
      ⟨'\x7b', '\x7d', rfl, rfl, by simp⟩]
  obtain ⟨counted, inside⟩ := nest_bracketed opening closing h
  refine ⟨by rwa [Balanced, spelled], fun c separator => ?_⟩
  have apart : c ≠ r := by
    rintro rfl
    simp [other c separator] at closing
  rw [Lacks, leveled, spelled, inside]
  simp [apart]

namespace Closed

variable {cs : List Char}

theorem mono {cs' : List Char} (h : Closed cs s) (fewer : cs' ⊆ cs) : Closed cs' s :=
  ⟨h.balanced, fun c inside => h.lacks c (fewer inside)⟩

theorem of_plain (plain : ∀ c ∈ s.toList, (opens c = false ∧ closes c = false) ∧ c ∉ cs) :
    Closed cs s where
  balanced := (nest_plain _ (fun c inside => (plain c inside).1) 0).1
  lacks _ separator := lacks_of_notMem fun inside => (plain _ inside).2 separator

theorem of_isClean (clean : isClean s) : Closed marks s := by
  simp only [isClean, Bool.and_eq_true, List.all_eq_true, decide_eq_true_eq, beq_iff_eq] at clean
  obtain ⟨each, balanced⟩ := clean
  refine ⟨balanced, fun c mark => lacks_of_notMem fun inside => each c inside ?_⟩
  exact List.mem_append_left ['[', ']', '\x7b', '\x7d'] mark

theorem empty : Closed cs "" := of_plain (List.forall_mem_nil _)

theorem append (h : Closed cs s) (g : Closed cs u) : Closed cs (s ++ u) where
  balanced := by
    rw [Balanced, String.toList_append, nest_append, h.balanced, Option.bind_some, g.balanced]
  lacks c separator := by
    rw [Lacks, h.balanced.leveled_append, List.mem_append, not_or]
    exact ⟨h.lacks c separator, g.lacks c separator⟩

theorem join (each : ∀ s ∈ texts, Closed cs s) : Closed cs (String.join texts) :=
  join_induction empty (fun _ _ => append) each

theorem intercalate (separator : Closed cs u) (each : ∀ s ∈ texts, Closed cs s) :
    Closed cs (u.intercalate texts) :=
  intercalate_induction empty (fun _ _ => append) separator each

theorem bracketed {left right : String} (pair : (left, right) ∈ brackets) (h : Balanced s) :
    Closed marks (left ++ s ++ right) :=
  h.bracketed pair (by simp [closes])

theorem append_bracketed {left right : String} (h : Closed marks s)
    (pair : (left, right) ∈ brackets) (inner : Balanced u) :
    Closed marks (s ++ left ++ u ++ right) := by
  have together : s ++ left ++ u ++ right = s ++ (left ++ u ++ right) := by
    simp only [String.append_assoc]
  exact together ▸ h.append (.bracketed pair inner)

/-- Cutting blanks off the end leaves all brackets. -/
theorem trimEnd (h : Closed cs s) : Closed cs (trimEnd s) := by
  obtain ⟨blanks, text, blank⟩ := exists_trimEnd s
  have counted : nest 0 s.toList = some 0 := h.balanced
  rw [text, nest_append] at counted
  obtain ⟨k, front, back⟩ := Option.bind_eq_some_iff.mp counted
  rw [(nest_plain _ (fun c inside => plain_of_isBlank (blank c inside)) k).1] at back
  cases back
  have split : leveled s = leveled (Text.trimEnd s) ++ levels 0 blanks := by
    rw [leveled, text, levels_append front, leveled]
  exact ⟨front, fun c separator inside =>
    h.lacks c separator (split ▸ List.mem_append_left _ inside)⟩

end Closed

/-- The pieces of a text between separators that stand outside of all brackets. The blank behind a
separator belongs to it. -/
def separated (separator : Char) (text : Leveled) : List Leveled :=
  match text.splitOn (separator, 0) with
  | [] => []
  | first :: rest => first :: rest.map (·.drop 1)

section
variable (separator : Char) (sign : opens separator = false ∧ closes separator = false)
include sign

theorem leveled_intercalate {first : String} {rest : List String}
    (balanced : ∀ s ∈ first :: rest, Balanced s) :
    leveled ((String.ofList [separator, ' ']).intercalate (first :: rest)) =
      [(separator, 0)].intercalate (leveled first :: rest.map fun s => (' ', 0) :: leveled s) := by
  have between := nest_plain [separator, ' '] (by simpa using ⟨sign, by decide⟩) 0
  induction rest generalizing first with
  | nil => simp
  | cons second rest ih =>
    obtain ⟨start, others⟩ := List.forall_mem_cons.mp balanced
    -- Only the separator parts two texts; its blank is the first character of the later one.
    have blank : Balanced (String.ofList [separator, ' ']) := by
      rw [Balanced, String.toList_ofList, between.1]
    have sign : leveled (String.ofList [separator, ' ']) = [(separator, 0), (' ', 0)] := by
      rw [leveled, String.toList_ofList, between.2]
      rfl
    rw [String.intercalate_cons_cons, String.append_assoc, start.leveled_append,
      blank.leveled_append, sign, ih others]
    cases rest <;> simp

theorem separated_intercalate (unlike : separator ≠ ' ') (some : texts ≠ [])
    (each : ∀ s ∈ texts, Closed [separator] s) :
    separated separator (leveled ((String.ofList [separator, ' ']).intercalate texts)) =
      texts.map leveled := by
  obtain ⟨first, rest, rfl⟩ := List.exists_cons_of_ne_nil some
  have missing (s : String) (inside : s ∈ first :: rest) : (separator, 0) ∉ leveled s :=
    (each s inside).lacks separator List.mem_cons_self
  have apart : ∀ piece ∈ leveled first :: rest.map (fun s => (' ', 0) :: leveled s),
      (separator, 0) ∉ piece := by
    refine List.forall_mem_cons.mpr ⟨missing first List.mem_cons_self, ?_⟩
    refine List.forall_mem_map.mpr fun s later => ?_
    simpa [unlike] using missing s (.tail _ later)
  rw [leveled_intercalate separator sign fun s inside => (each s inside).balanced, separated,
    List.splitOn_intercalate _ apart (List.cons_ne_nil _ _)]
  simp

end

end KernelTree.Text
