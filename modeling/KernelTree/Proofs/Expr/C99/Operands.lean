import KernelTree.Proofs.Expr.C99.Grammar
import KernelTree.Proofs.Expr.Operands
/-! How far the functions of the grammar of C99 read, and whether they read at all. The outcome of
some lexemes is the expression that they are read as, or that no function reads them. -/
namespace KernelTree.C99

open Grammar hiding Operand Leads Reads

variable {k level : Nat} {ts rest : List Lexeme} {v : Option Expr}
  {tighter : List (List (String × BinaryOp))} {e : Expr}

/-- The levels at which expressions stand, from the loosest on. Between conditional expressions and
casts there is a level for each group of operators. -/
def conditionalLevel : Nat := 1

def castLevel : Nat := levels.length + 2

def unaryLevel : Nat := levels.length + 3

def postfixLevel : Nat := levels.length + 4

theorem suffixes_of_ends (h : Ends k rest) : suffixes e rest = some (e, rest) := by
  rw [suffixes.eq_def]
  split
  case h_7 => rfl
  all_goals
    have stop := h _ rfl
    simp [stops, suffixSigns] at stop

theorem operands_of_ends (bound : k < levels.length) (h : Ends k rest) :
    operands levels[k] tighter e rest = some (e, rest) := by
  rw [operands.eq_def]
  split
  next s rest =>
    have stop := h s rfl
    rw [stops, Bool.and_eq_true, List.all_eq_true] at stop
    have inside : levels[k] ∈ levels.drop k := by
      rw [List.drop_eq_getElem_cons bound]
      exact List.mem_cons_self
    rw [Option.isNone_iff_eq_none.mp (stop.2 _ inside)]
  next => rfl

/-- The outcome of an operand of the levels of operators from that number on, which ends where it
can. -/
def Operand (k : Nat) (ts : List Lexeme) (v : Option Expr) : Prop :=
  ∀ rest, Ends k rest → binary (levels.drop k) (ts ++ rest) = v.map (·, rest)

/-- The outcome of an operand with which the operators of that level go on. -/
def Leads (k : Nat) (ts : List Lexeme) (v : Option Expr) : Prop :=
  ∀ (bound : k < levels.length) (rest), Ends (k + 1) rest → binary (levels.drop k) (ts ++ rest) =
    v.bind fun e => operands levels[k] (levels.drop (k + 1)) e rest

theorem next_map (filled : ts ≠ []) : next (ts ++ rest) (v.map (·, rest)) =
    v.map (·, ⟨rest, length_lt filled⟩) := by
  cases v with
  | none => rfl
  | some e => exact next_some (length_lt filled)

theorem Leads.operand (bound : k < levels.length) (h : Leads k ts v) : Operand k ts v := by
  intro rest ends
  rw [h bound rest (ends.mono (Nat.le_succ k))]
  cases v with
  | none => rfl
  | some e => exact operands_of_ends bound ends

theorem Operand.leads (filled : ts ≠ []) (h : Operand (k + 1) ts v) : Leads k ts v := by
  intro bound rest ends
  rw [List.drop_eq_getElem_cons bound, binary, h rest ends, next_map filled]
  cases v <;> rfl

/-- What leads the operators of a level is an operand of them, and so leads those of every looser
level. -/
theorem Leads.looser {j : Nat} (filled : ts ≠ []) (bound : k < levels.length) (h : Leads k ts v)
    (le : j ≤ k) : Leads j ts v := by
  induction le using Nat.decreasingInduction with
  | self => exact h
  | of_succ i below ih => exact (ih.operand (Nat.lt_of_le_of_lt below bound)).leads filled

theorem leads_of_cast (filled : ts ≠ [])
    (h : ∀ rest, Ends levels.length rest → cast (ts ++ rest) = v.map (·, rest)) (k : Nat) :
    Leads k ts v := by
  have operand : Operand (9 + 1) ts v := by
    intro rest ends
    rw [List.drop_of_length_le (by decide), binary]
    exact h rest ends
  intro bound
  exact (operand.leads filled).looser filled (by decide) (Nat.le_of_lt_succ bound) bound

/-- No mark that closes an expression is an operator. -/
theorem not_operator_of_mem_closers {s : String} (known : s ∈ closers) :
    s ≠ "?" ∧ assignments.lookup s = none := by
  have marks : (closers.all fun s => s ≠ "?" && (assignments.lookup s).isNone) = true := by decide
  have mark := List.all_eq_true.mp marks s known
  rwa [Bool.and_eq_true, decide_eq_true_eq, Option.isNone_iff_eq_none] at mark

theorem conditional_of_operand (filled : ts ≠ []) (h : Operand 0 ts v) (ends : Ends 0 rest)
    (other : rest.head? ≠ some (.sign "?")) : conditional (ts ++ rest) = v.map (·, rest) := by
  have front := h rest ends
  rw [List.drop_zero] at front
  rw [conditional, front, next_map filled]
  cases v with
  | none => rfl
  | some e =>
    cases rest with
    | nil => rfl
    | cons t rest =>
      cases t with
      | word => rfl
      | sign s =>
        have apart : s ≠ "?" := by
          rintro rfl
          exact other rfl
        simp [apart]

theorem ne_question_of_closed (closed : Closed rest) : rest.head? ≠ some (.sign "?") := by
  intro first
  obtain ⟨s, known, same⟩ := closed _ first
  cases same
  exact (not_operator_of_mem_closers known).1 rfl

theorem unassigned_of_closed (closed : Closed rest) :
    unassigned (v.map (·, rest)) = v.map (·, rest) := by
  have apart : rest.head?.any isAssignment = false := by
    cases rest with
    | nil => rfl
    | cons t rest =>
      obtain ⟨s, known, rfl⟩ := closed t rfl
      simp [isAssignment, (not_operator_of_mem_closers known).2]
  cases v with
  | none => rfl
  | some e => simp [unassigned, apart]

theorem assignment_of_conditional (filled : ts ≠ []) (closed : Closed rest)
    (h : conditional (ts ++ rest) = v.map (·, rest)) :
    assignment (ts ++ rest) = v.map (·, rest) := by
  rw [assignment, h, next_map filled]
  cases v with
  | none => rfl
  | some e =>
    cases rest with
    | nil => rfl
    | cons t rest =>
      obtain ⟨s, known, rfl⟩ := closed t rfl
      simp [(not_operator_of_mem_closers known).2]

/-- The outcome of an expression at that level, whatever stands behind it. -/
structure Reads (level : Nat) (ts : List Lexeme) (v : Option Expr) : Prop where
  filled : ts ≠ []
  whole : ∀ rest, Closed rest → assignment (ts ++ rest) = v.map (·, rest)
  settled : conditionalLevel ≤ level → ∀ rest, Closed rest →
    conditional (ts ++ rest) = v.map (·, rest)
  leads : ∀ k, k + 2 ≤ level → Leads k ts v
  single : castLevel ≤ level → ∀ rest, Ends levels.length rest →
    cast (ts ++ rest) = v.map (·, rest)
  plain : unaryLevel ≤ level → ∀ rest, Ends levels.length rest →
    unary (ts ++ rest) = v.map (·, rest)
  base : postfixLevel ≤ level → ∀ rest,
    cast (ts ++ rest) = v.bind (suffixes · rest) ∧ unary (ts ++ rest) = v.bind (suffixes · rest) ∧
      postfixed (ts ++ rest) = v.bind (suffixes · rest)

namespace Reads

theorem looser {weaker : Nat} (h : Reads level ts v) (le : weaker ≤ level) :
    Reads weaker ts v where
  filled := h.filled
  whole := h.whole
  settled tight := h.settled (Nat.le_trans tight le)
  leads k below := h.leads k (Nat.le_trans below le)
  single tight := h.single (Nat.le_trans tight le)
  plain tight := h.plain (Nat.le_trans tight le)
  base tight := h.base (Nat.le_trans tight le)

theorem operand (h : Reads (k + 2) ts v) (le : k ≤ levels.length) : Operand k ts v := by
  rcases Nat.lt_or_eq_of_le le with bound | rfl
  · exact (h.leads k (Nat.le_refl _)).operand bound
  · intro rest ends
    rw [List.drop_length, binary]
    exact h.single (Nat.le_refl _) rest ends

theorem of_whole (filled : ts ≠ [])
    (h : ∀ rest, Closed rest → assignment (ts ++ rest) = v.map (·, rest)) : Reads 0 ts v where
  filled := filled
  whole := h
  settled tight := absurd tight (by decide)
  leads k below := absurd below (by omega)
  single tight := absurd tight (by decide)
  plain tight := absurd tight (by decide)
  base tight := absurd tight (by decide)

theorem of_conditional (filled : ts ≠ [])
    (h : ∀ rest, Closed rest → conditional (ts ++ rest) = v.map (·, rest)) :
    Reads conditionalLevel ts v where
  filled := filled
  whole rest closed := assignment_of_conditional filled closed (h rest closed)
  settled _ := h
  leads k below := absurd below (by simp [conditionalLevel])
  single tight := absurd tight (by decide)
  plain tight := absurd tight (by decide)
  base tight := absurd tight (by decide)

/-- An operand of the loosest operators is a conditional expression. -/
theorem settled_of_operand (filled : ts ≠ []) (h : Operand 0 ts v) :
    ∀ rest, Closed rest → conditional (ts ++ rest) = v.map (·, rest) :=
  fun _ closed => conditional_of_operand filled h closed.ends (ne_question_of_closed closed)

theorem of_leads (filled : ts ≠ []) (bound : k < levels.length) (h : Leads k ts v) :
    Reads (k + 2) ts v := by
  have settled := settled_of_operand filled
    ((h.looser filled bound (Nat.zero_le k)).operand (by decide))
  have loose : k + 2 < castLevel := Nat.add_lt_add_right bound 2
  exact {
    filled := filled
    whole := (of_conditional filled settled).whole
    settled := fun _ => settled
    leads := fun j below => h.looser filled bound (Nat.le_of_add_le_add_right below)
    single := fun tight => absurd (Nat.lt_of_le_of_lt tight loose) (Nat.lt_irrefl _)
    plain := fun tight => absurd (Nat.lt_of_le_of_lt tight loose) (by decide)
    base := fun tight => absurd (Nat.lt_of_le_of_lt tight loose) (by decide) }

theorem of_cast (filled : ts ≠ [])
    (h : ∀ rest, Ends levels.length rest → cast (ts ++ rest) = v.map (·, rest)) :
    Reads castLevel ts v where
  filled := filled
  whole := (of_leads filled (by decide) (leads_of_cast filled h 0)).whole
  settled _ := settled_of_operand filled ((leads_of_cast filled h 0).operand (by decide))
  leads k _ := leads_of_cast filled h k
  single _ := h
  plain tight := absurd tight (by decide)
  base tight := absurd tight (by decide)

theorem of_unary (filled : ts ≠ [])
    (h : ∀ rest, Ends levels.length rest → cast (ts ++ rest) = v.map (·, rest) ∧
      unary (ts ++ rest) = v.map (·, rest)) : Reads unaryLevel ts v := by
  have read := of_cast filled fun rest ends => (h rest ends).1
  exact {
    filled := filled
    whole := read.whole
    settled := fun _ => read.settled (by decide)
    leads := fun k _ => leads_of_cast filled (fun rest ends => (h rest ends).1) k
    single := fun _ => read.single (Nat.le_refl _)
    plain := fun _ rest ends => (h rest ends).2
    base := fun tight => absurd tight (by decide) }

theorem of_base (filled : ts ≠ []) (h : ∀ rest, cast (ts ++ rest) = v.bind (suffixes · rest) ∧
    unary (ts ++ rest) = v.bind (suffixes · rest) ∧
      postfixed (ts ++ rest) = v.bind (suffixes · rest)) : Reads level ts v := by
  have ended {rest : List Lexeme} (ends : Ends levels.length rest) :
      v.bind (suffixes · rest) = v.map (·, rest) := by
    cases v with
    | none => rfl
    | some e => exact suffixes_of_ends ends
  have read := of_unary filled fun rest ends =>
    ⟨(h rest).1.trans (ended ends), (h rest).2.1.trans (ended ends)⟩
  exact {
    filled := filled
    whole := read.whole
    settled := fun _ => read.settled (by decide)
    leads := fun k _ => leads_of_cast filled (read.single (by decide)) k
    single := fun _ => read.single (by decide)
    plain := fun _ => read.plain (Nat.le_refl _)
    base := fun _ => h }

end Reads
end KernelTree.C99
