import KernelTree.Proofs.Expr.Grammar
/-! How far the functions of the grammar read. An operand is read at its own level and at all looser
ones, as long as what stands behind it does not go on with it. -/
namespace KernelTree.Grammar

variable {s : String} {k : Nat} {ts rest : List Lexeme} {e : Expr}
  {tighter : List (List (String × BinaryOp))}

/-- Signs of postfix expressions. -/
def suffixSigns : List String := ["++", "--", "(", "[", ".", "->"]

/-- Whether a sign goes on with no operand of the levels from that number on. -/
def stops (k : Nat) (s : String) : Bool :=
  !suffixSigns.contains s && (levels.drop k).all fun level => (level.lookup s).isNone

/-- An operand of the levels from that number on ends in front of the lexemes. -/
def Ends (k : Nat) (rest : List Lexeme) : Prop := ∀ s, rest.head? = some (.sign s) → stops k s

/-- The marks behind a whole expression. -/
def closers : List String := [")", "]", "\x7d", ",", ":"]

/-- A whole expression ends in front of the lexemes. -/
def Closed (rest : List Lexeme) : Prop := ∀ t ∈ rest.head?, ∃ s ∈ closers, t = .sign s

theorem Ends.mono {j : Nat} (h : Ends k rest) (le : k ≤ j) : Ends j rest := by
  intro s first
  have stop := h s first
  rw [stops, Bool.and_eq_true, List.all_eq_true] at stop ⊢
  refine ⟨stop.1, fun level inside => stop.2 level ?_⟩
  exact (List.drop_sublist_drop_left levels le).subset inside

theorem ends_sign (stop : stops k s) : Ends k (.sign s :: rest) := by
  rintro _ ⟨⟩
  exact stop

theorem Closed.ends (h : Closed rest) : Ends 0 rest := by
  intro s first
  obtain ⟨mark, known, same⟩ := h _ first
  cases same
  have every : (closers.all (stops 0)) = true := by decide
  exact List.all_eq_true.mp every s known

theorem closed_sign (known : s ∈ closers) : Closed (.sign s :: rest) := by
  rintro _ ⟨⟩
  exact ⟨s, known, rfl⟩

theorem suffixes_of_ends (h : Ends k rest) : suffixes e rest = some (e, rest) := by
  rw [suffixes.eq_def]
  split
  case h_7 => rfl
  all_goals
    have stop := h _ rfl
    simp [stops, suffixSigns] at stop

theorem operands_of_ends (bound : k < levels.length) (h : Ends k rest) :
    operands levels[k] tighter e rest = some (e, rest) := by
  rw [operands.eq_def]
  split
  next s rest =>
    have stop := h s rfl
    rw [stops, Bool.and_eq_true, List.all_eq_true] at stop
    have inside : levels[k] ∈ levels.drop k := by
      rw [List.drop_eq_getElem_cons bound]
      exact List.mem_cons_self
    rw [Option.isNone_iff_eq_none.mp (stop.2 _ inside)]
  next => rfl

/-- An operand of the levels from that number on, which ends where it can. -/
def Operand (k : Nat) (ts : List Lexeme) (e : Expr) : Prop :=
  ∀ rest, Ends k rest → binary (levels.drop k) (ts ++ rest) = some (e, rest)

/-- An operand with which the operators of that level go on. -/
def Leads (k : Nat) (ts : List Lexeme) (e : Expr) : Prop :=
  ∀ (bound : k < levels.length) (rest), Ends (k + 1) rest →
    binary (levels.drop k) (ts ++ rest) = operands levels[k] (levels.drop (k + 1)) e rest

theorem length_lt (filled : ts ≠ []) : rest.length < (ts ++ rest).length := by
  have long := List.length_pos_iff.mpr filled
  rw [List.length_append]
  omega

theorem Leads.operand (bound : k < levels.length) (h : Leads k ts e) : Operand k ts e := by
  intro rest ends
  rw [h bound rest (ends.mono (Nat.le_succ k)), operands_of_ends bound ends]

theorem Operand.leads (filled : ts ≠ []) (h : Operand (k + 1) ts e) : Leads k ts e := by
  intro bound rest ends
  rw [List.drop_eq_getElem_cons bound, binary, h rest ends, next_some (length_lt filled)]
  rfl

/-- What leads the operators of a level is an operand of them, and so leads those of every looser
level. -/
theorem Leads.looser {j : Nat} (filled : ts ≠ []) (bound : k < levels.length) (h : Leads k ts e)
    (le : j ≤ k) : Leads j ts e := by
  induction le using Nat.decreasingInduction with
  | self => exact h
  | of_succ i below ih => exact (ih.operand (Nat.lt_of_le_of_lt below bound)).leads filled

theorem leads_of_unary (filled : ts ≠ [])
    (h : ∀ rest, Ends levels.length rest → unary (ts ++ rest) = some (e, rest)) (k : Nat) :
    Leads k ts e := by
  have operand : Operand (9 + 1) ts e := by
    intro rest ends
    rw [List.drop_of_length_le (by decide), binary]
    exact h rest ends
  intro bound
  exact (operand.leads filled).looser filled (by decide) (Nat.le_of_lt_succ bound) bound

/-- A mark that closes an expression is no assignment and does not open a conditional expression. -/
theorem whole_of_operand (filled : ts ≠ []) (h : Operand 0 ts e) (closed : Closed rest) :
    expression (ts ++ rest) = some (e, rest) := by
  have front := h rest closed.ends
  rw [List.drop_zero] at front
  rw [expression, front, next_some (length_lt filled)]
  cases rest with
  | nil => rfl
  | cons t rest =>
    obtain ⟨s, known, rfl⟩ := closed t rfl
    have marks : (closers.all fun s => s ≠ "?" && (assignments.lookup s).isNone) = true := by decide
    have mark := List.all_eq_true.mp marks s known
    rw [Bool.and_eq_true, decide_eq_true_eq, Option.isNone_iff_eq_none] at mark
    simp [mark.1, mark.2]

/-- What is read of an expression of that binding strength, whatever stands behind it. -/
structure Reads (strength : Nat) (ts : List Lexeme) (e : Expr) : Prop where
  filled : ts ≠ []
  whole : ∀ rest, Closed rest → expression (ts ++ rest) = some (e, rest)
  leads : ∀ k < strength, Leads k ts e
  single : Expr.unaryLevel ≤ strength → ∀ rest, Ends levels.length rest →
    unary (ts ++ rest) = some (e, rest)
  base : Expr.postfixLevel ≤ strength → ∀ rest,
    unary (ts ++ rest) = suffixes e rest ∧ postfixed (ts ++ rest) = suffixes e rest

namespace Reads

theorem looser {strength weaker : Nat} (h : Reads strength ts e) (le : weaker ≤ strength) :
    Reads weaker ts e where
  filled := h.filled
  whole := h.whole
  leads k below := h.leads k (Nat.lt_of_lt_of_le below le)
  single tight := h.single (Nat.le_trans tight le)
  base tight := h.base (Nat.le_trans tight le)

theorem operand (h : Reads (k + 1) ts e) (le : k ≤ levels.length) : Operand k ts e := by
  rcases Nat.lt_or_eq_of_le le with bound | rfl
  · exact (h.leads k (Nat.lt_succ_self k)).operand bound
  · intro rest ends
    rw [List.drop_length, binary]
    exact h.single (Nat.le_refl _) rest ends

theorem of_whole (filled : ts ≠ [])
    (h : ∀ rest, Closed rest → expression (ts ++ rest) = some (e, rest)) : Reads 0 ts e where
  filled := filled
  whole := h
  leads k below := absurd below (Nat.not_lt_zero k)
  single tight := absurd tight (by decide)
  base tight := absurd tight (by decide)

theorem of_leads (filled : ts ≠ []) (bound : k < levels.length) (h : Leads k ts e) :
    Reads (k + 1) ts e where
  filled := filled
  whole _ := whole_of_operand filled ((h.looser filled bound (Nat.zero_le k)).operand (by decide))
  leads j below := h.looser filled bound (Nat.le_of_lt_succ below)
  single tight := absurd (Nat.lt_of_lt_of_le tight bound) (by decide)
  base tight := absurd (Nat.lt_of_lt_of_le tight bound) (by decide)

theorem of_unary (filled : ts ≠ [])
    (h : ∀ rest, Ends levels.length rest → unary (ts ++ rest) = some (e, rest)) :
    Reads Expr.unaryLevel ts e where
  filled := filled
  whole _ := whole_of_operand filled ((leads_of_unary filled h 0).operand (by decide))
  leads k _ := leads_of_unary filled h k
  single _ := h
  base tight := absurd tight (by decide)

theorem of_base {strength : Nat} (filled : ts ≠ [])
    (h : ∀ rest, unary (ts ++ rest) = suffixes e rest ∧ postfixed (ts ++ rest) = suffixes e rest) :
    Reads strength ts e := by
  have single (rest : List Lexeme) (ends : Ends levels.length rest) :
      unary (ts ++ rest) = some (e, rest) := by
    rw [(h rest).1, suffixes_of_ends ends]
  exact {
    filled := filled
    whole := (of_unary filled single).whole
    leads := fun k _ => leads_of_unary filled single k
    single := fun _ => single
    base := fun _ => h }

end Reads
end KernelTree.Grammar
