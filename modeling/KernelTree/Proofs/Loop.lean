/-! Loops without a bound, and the loop over a stack whose members leave others in their place. -/
namespace KernelTree

variable {σ α : Type}

/-- A loop that ends: what each turn takes, in order, and the state in which there is no further
turn. A state has one turn at most, so a loop that ends goes on in no other way. -/
inductive Loop (turn : σ → Option (α × σ)) : σ → List α → σ → Prop
  | done {s : σ} (ended : turn s = none) : Loop turn s [] s
  | turn {s s' e : σ} {a : α} {trace : List α} (taken : turn s = some (a, s'))
    (later : Loop turn s' trace e) : Loop turn s (a :: trace) e

/-- The top of a stack makes way for others. -/
def popTurn (next : α → List α) : List α → Option (α × List α)
  | [] => none
  | a :: rest => some (a, next a ++ rest)

variable {next next' : α → List α} {stack stack' order order' : List α}

theorem Loop.pop_append (first : Loop (popTurn next) stack order [])
    (second : Loop (popTurn next) stack' order' []) :
    Loop (popTurn next) (stack ++ stack') (order ++ order') [] := by
  induction order generalizing stack with
  | nil =>
    cases first
    exact second
  | cons a order ih =>
    cases first with
    | turn taken later => ?_
    cases stack with
    | nil => cases taken
    | cons b rest =>
      cases taken
      have later := ih later
      rw [List.append_assoc] at later
      exact .turn rfl later

theorem Loop.pop_congr (loop : Loop (popTurn next) stack order [])
    (same : ∀ a ∈ order, next' a = next a) : Loop (popTurn next') stack order [] := by
  induction order generalizing stack with
  | nil =>
    cases loop
    exact .done rfl
  | cons a order ih =>
    cases loop with
    | turn taken later => ?_
    cases stack with
    | nil => cases taken
    | cons b rest =>
      cases taken
      refine .turn rfl ?_
      rw [same a List.mem_cons_self]
      exact ih later fun x member => same x (.tail _ member)

end KernelTree
