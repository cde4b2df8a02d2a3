import KernelTree.Text.Blank
/-! Texts as lists of characters: runs of one character, texts made of several others, and what is
left of a text without its blanks. -/
namespace KernelTree.Text

theorem toList_pushn (c : Char) (n : Nat) : ("".pushn c n).toList = List.replicate n c := by
  rw [String.pushn_eq_repeat_push]
  induction n with
  | zero => rfl
  | succ n ih => rw [Nat.repeat, String.toList_push, ih, List.replicate_succ']

theorem intercalate_cons (separator first : String) (rest : List String) :
    separator.intercalate (first :: rest) = first ++ String.join (rest.map (separator ++ ·)) := by
  induction rest generalizing first with
  | nil => simp
  | cons second rest ih =>
    rw [String.intercalate_cons_cons, ih, List.map_cons, String.join_cons, String.append_assoc,
      String.append_assoc]

section Induction

variable {P : String → Prop} {separator : String} {texts : List String} (empty : P "")
  (append : ∀ s u, P s → P u → P (s ++ u))
include empty append

/-- What passes from two texts to both together passes to any number of them. -/
theorem join_induction (each : ∀ s ∈ texts, P s) : P (String.join texts) := by
  induction texts with
  | nil => exact empty
  | cons s rest ih =>
    obtain ⟨first, others⟩ := List.forall_mem_cons.mp each
    rw [String.join_cons]
    exact append _ _ first (ih others)

theorem intercalate_induction (between : P separator) (each : ∀ s ∈ texts, P s) :
    P (separator.intercalate texts) := by
  cases texts with
  | nil => exact empty
  | cons s rest =>
    obtain ⟨first, others⟩ := List.forall_mem_cons.mp each
    rw [intercalate_cons]
    refine append _ _ first (join_induction empty append (List.forall_mem_map.mpr ?_))
    exact fun u later => append _ _ between (others u later)

end Induction

theorem notMem_intercalate {c : Char} {separator : String} {texts : List String}
    (between : c ∉ separator.toList) (each : ∀ s ∈ texts, c ∉ s.toList) :
    c ∉ (separator.intercalate texts).toList :=
  intercalate_induction (by simp) (fun s u first second => by simp [first, second]) between each

/-- A text without its blanks. -/
def ink (s : String) : List Char := s.toList.filter fun c => !isBlank c

@[simp] theorem ink_empty : ink "" = [] := rfl

@[simp] theorem ink_append (s u : String) : ink (s ++ u) = ink s ++ ink u := by
  rw [ink, String.toList_append, List.filter_append, ink, ink]

theorem ink_eq_nil {s : String} (blank : ∀ c ∈ s.toList, isBlank c) : ink s = [] := by
  rw [ink, List.filter_eq_nil_iff]
  intro c inside
  simp [blank c inside]

end KernelTree.Text
