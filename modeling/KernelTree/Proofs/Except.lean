import Mathlib.Data.List.Forall2
/-! When a computation that can be refused succeeds, step by step. -/
namespace KernelTree

theorem except_bind_ok {input : Except ε α} {next : α → Except ε β} {result : β} :
    (input >>= next) = .ok result ↔ ∃ value, input = .ok value ∧ next value = .ok result := by
  cases input <;> simp [bind, Except.bind]

theorem except_bind_error {input : Except ε α} {next : α → Except ε β} {cause : ε} :
    (input >>= next) = .error cause ↔
      input = .error cause ∨ ∃ value, input = .ok value ∧ next value = .error cause := by
  cases input <;> simp [bind, Except.bind]

theorem except_seq_ok {input : Except ε Unit} {next : Unit → Except ε β} {result : β} :
    (input >>= next) = .ok result ↔ input = .ok () ∧ next () = .ok result := by
  cases input <;> simp [bind, Except.bind]

theorem except_pure_ok {value result : α} :
    (pure value : Except ε α) = .ok result ↔ value = result := by
  simp [pure, Except.pure]

theorem except_map_ok {input : Except ε α} {f : α → β} {result : β} :
    input.map f = .ok result ↔ ∃ value, input = .ok value ∧ f value = result := by
  cases input <;> simp [Except.map]

@[simp] theorem except_throw {cause : ε} : (throw cause : Except ε α) = .error cause := rfl

@[simp] theorem except_throw_bind {cause : ε} {next : α → Except ε β} :
    (throw cause >>= next : Except ε β) = .error cause := rfl

theorem except_guard_ok {condition : Prop} [Decidable condition] {cause : ε}
    {next : Except ε α} {result : α} :
    (if condition then .error cause else next) = .ok result ↔
      ¬ condition ∧ next = .ok result := by
  by_cases condition <;> simp [*]

theorem except_discard_ok {input : Except ε α} {done : Unit} :
    (discard input : Except ε Unit) = .ok done ↔ ∃ value, input = .ok value := by
  cases input with
  | error => exact ⟨nofun, nofun⟩
  | ok value => exact ⟨fun _ => ⟨value, rfl⟩, fun _ => rfl⟩

/-- What is seen of a result shows that there is one. -/
theorem except_exists_of_any {input : Except ε α} {p : α → Bool}
    (seen : input.toOption.any p) : ∃ value, input = .ok value ∧ p value := by
  cases input with
  | error cause => cases seen
  | ok value => exact ⟨value, rfl, seen⟩

theorem except_mapM_ok {f : α → Except ε β} {l : List α} {r : List β} :
    l.mapM f = .ok r ↔ List.Forall₂ (fun a b => f a = .ok b) l r := by
  induction l generalizing r with
  | nil => cases r <;> simp [except_pure_ok]
  | cons a rest ih =>
    simp only [List.mapM_cons, except_bind_ok, except_pure_ok, ih, List.forall₂_cons_left_iff]
    constructor
    · rintro ⟨b, first, others, later, rfl⟩
      exact ⟨b, others, first, later, rfl⟩
    · rintro ⟨b, others, first, later, rfl⟩
      exact ⟨b, first, others, later, rfl⟩

theorem except_forM_ok {f : α → Except ε PUnit} {l : List α} (each : ∀ a ∈ l, f a = .ok ⟨⟩) :
    l.forM f = .ok ⟨⟩ := by
  induction l with
  | nil => rfl
  | cons a rest ih =>
    obtain ⟨first, later⟩ := List.forall_mem_cons.mp each
    simp only [List.forM_eq_forM, List.forM_cons] at ih ⊢
    exact except_bind_ok.mpr ⟨⟨⟩, first, ih later⟩

end KernelTree
