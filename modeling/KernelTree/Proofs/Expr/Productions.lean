import KernelTree.Proofs.Expr.Operands
/-! How each form of expression is read from the lexemes of its parts. -/
namespace KernelTree.Grammar.Reads

open Lexeme

variable {strength : Nat} {ts ts' ts'' rest : List Lexeme} {e e' e'' : Expr}

/-- A whole expression and the mark behind it are read together. -/
theorem upTo_mark (h : Reads 0 ts e) {mark : String} (known : mark ∈ closers)
    (rest : List Lexeme) : upTo mark (expression (ts ++ .sign mark :: rest)) = some (e, rest) := by
  rw [h.whole _ (closed_sign known), upTo_some]

theorem word (text : String) : Reads strength [.word text] (leaf text) := by
  refine of_base (by simp) fun rest => ?_
  have inner : postfixed (.word text :: rest) = suffixes (leaf text) rest := by
    rw [postfixed, primary, next_some (by simp)]
    rfl
  refine ⟨?_, inner⟩
  rw [← inner, List.singleton_append, unary]
  intro s more same
  cases same

/-- An expression in parentheses, unless they hold what could be the type of a cast. -/
theorem parens (h : Reads 0 ts e) (other : ∀ rest, castType (ts ++ rest) = none) :
    Reads strength (.sign "(" :: ts ++ [.sign ")"]) e := by
  have inner (rest : List Lexeme) : postfixed (.sign "(" :: ts ++ [.sign ")"] ++ rest) =
      suffixes e rest := by
    rw [postfixed, List.append_assoc, List.cons_append, List.singleton_append, primary,
      h.upTo_mark (by decide), next_some (by simp; omega)]
    rfl
  refine of_base (by simp) fun rest => ⟨?_, inner rest⟩
  rw [← inner, List.append_assoc, List.cons_append, unary, if_pos rfl, other]
  rfl

/-- What is read behind an operand becomes part of it. -/
theorem suffix (h : Reads Expr.postfixLevel ts e)
    (more : ∀ rest, suffixes e (ts' ++ rest) = suffixes e' rest) :
    Reads strength (ts ++ ts') e' := by
  refine of_base (by simp [h.filled]) fun rest => ?_
  have front := h.base (Nat.le_refl _) (ts' ++ rest)
  rw [more] at front
  rwa [List.append_assoc]

theorem postIncrement (h : Reads Expr.postfixLevel ts e) :
    Reads strength (ts ++ [.sign "++"]) (.unary .postIncrement e) :=
  h.suffix fun rest => by rw [List.singleton_append, suffixes]

theorem postDecrement (h : Reads Expr.postfixLevel ts e) :
    Reads strength (ts ++ [.sign "--"]) (.unary .postDecrement e) :=
  h.suffix fun rest => by rw [List.singleton_append, suffixes]

theorem index (h : Reads Expr.postfixLevel ts e) (inner : Reads 0 ts' e') :
    Reads strength (ts ++ (.sign "[" :: ts' ++ [.sign "]"])) (.index e e') :=
  h.suffix fun rest => by
    rw [List.append_assoc, List.cons_append, List.singleton_append, suffixes,
      inner.upTo_mark (by decide), next_some (by simp; omega)]
    rfl

theorem member (h : Reads Expr.postfixLevel ts e) (field : String) (arrow : Bool) :
    Reads strength (ts ++ [.sign (if arrow then "->" else "."), .word field])
      (.member e (.identifier field) arrow) :=
  h.suffix fun rest => by cases arrow <;> exact suffixes.eq_def _ _

section items
variable {α : Type} {close : String} {items : List α} {text : α → List Lexeme} {value : α → Expr}

theorem commas_cons (a : α) (items : List α) : commas ((a :: items).map text) =
    text a ++ items.flatMap (.sign "," :: text ·) := by
  induction items generalizing a with
  | nil => simp [commas]
  | cons b items ih =>
    rw [List.map_cons, List.map_cons, commas, List.intercalate_cons_cons, ← List.map_cons,
      ← commas, ih]
    simp

/-- Behind an item there stands a comma or the mark that closes the items. -/
theorem closed_items (known : close ∈ closers) :
    Closed (items.flatMap (.sign "," :: text ·) ++ .sign close :: rest) := by
  cases items with
  | nil => exact closed_sign known
  | cons => exact closed_sign (by decide)

variable (known : close ∈ closers)
  (each : ∀ a ∈ items, Reads 0 (text a) (value a) ∧ ∀ rest, expect close (text a ++ rest) = none)
include known each

theorem moreItems_eq (rest : List Lexeme) (apart : close ≠ ",") :
    moreItems close (items.flatMap (.sign "," :: text ·) ++ .sign close :: rest) =
      some (items.map value, rest) := by
  induction items with
  | nil => simp [moreItems]
  | cons a more ih =>
    obtain ⟨⟨first, _⟩, others⟩ := List.forall_mem_cons.mp each
    rw [List.flatMap_cons, List.append_assoc, List.cons_append, moreItems, if_neg apart.symm,
      if_pos rfl, first.whole _ (closed_items known), next_some (length_lt first.filled)]
    simp [ih others]

/-- Items with commas between them, up to the mark that closes them. -/
theorem items_eq (rest : List Lexeme) (apart : close ≠ ",") :
    Grammar.items close (commas (items.map text) ++ .sign close :: rest) =
      some (items.map value, rest) := by
  cases items with
  | nil =>
    rw [Grammar.items]
    simp [commas, expect]
  | cons a more =>
    obtain ⟨⟨first, opens⟩, others⟩ := List.forall_mem_cons.mp each
    rw [commas_cons, List.append_assoc, Grammar.items, opens, first.whole _ (closed_items known),
      next_some (length_lt first.filled)]
    simp [moreItems_eq known others rest apart]

end items

theorem call {α : Type} {items : List α} {text : α → List Lexeme} {value : α → Expr}
    (h : Reads Expr.postfixLevel ts e)
    (each : ∀ a ∈ items, Reads 0 (text a) (value a) ∧ ∀ rest, expect ")" (text a ++ rest) = none) :
    Reads strength (ts ++ .sign "(" :: commas (items.map text) ++ [.sign ")"])
      (.call e (items.map value)) := by
  rw [List.append_assoc]
  refine h.suffix fun rest => ?_
  rw [List.append_assoc, List.cons_append, List.singleton_append, suffixes,
    items_eq (by decide) each rest (by decide), next_some (by simp; omega)]
  rfl

theorem list {α : Type} {items : List α} {text : α → List Lexeme} {value : α → Expr}
    (each : ∀ a ∈ items, Reads 0 (text a) (value a) ∧
      ∀ rest, expect "\x7d" (text a ++ rest) = none) :
    Reads strength (.sign "\x7b" :: commas (items.map text) ++ [.sign "\x7d"])
      (.list (items.map value)) := by
  have inner (rest : List Lexeme) :
      postfixed (.sign "\x7b" :: commas (items.map text) ++ [.sign "\x7d"] ++
        rest) = suffixes (.list (items.map value)) rest := by
    have read : primary (.sign "\x7b" :: (commas (items.map text) ++
        .sign "\x7d" :: rest)) = some (.list (items.map value), rest) := by
      rw [primary, items_eq (by decide) each rest (by decide)]
      rfl
    rw [postfixed, List.append_assoc, List.cons_append, List.singleton_append, read,
      next_some (by simp; omega)]
    rfl
  refine of_base (by simp) fun rest => ⟨?_, inner rest⟩
  rw [← inner, List.append_assoc, List.cons_append, unary, if_neg (by decide)]
  rfl

theorem prefixed {op : UnaryOp} (front : op.isPostfix = false) (h : Reads Expr.unaryLevel ts e) :
    Reads Expr.unaryLevel (.sign op.symbol :: ts) (.unary op e) := by
  refine of_unary (by simp) fun rest ends => ?_
  have found : op.symbol ≠ "(" ∧ prefixes.lookup op.symbol = some op := by
    cases op <;> first | decide | contradiction
  rw [List.cons_append, unary, if_neg found.1, found.2]
  simp [h.single (Nat.le_refl _) rest ends]

theorem cast {type : TypeSpec} (filled : ts ≠ [])
    (typed : ∀ rest, castType (ts ++ rest) = some (type, rest))
    (h : Reads Expr.unaryLevel ts' e) :
    Reads Expr.unaryLevel (.sign "(" :: ts ++ ts') (.cast type e) := by
  refine of_unary (by simp) fun rest ends => ?_
  rw [List.append_assoc, List.cons_append, unary, if_pos rfl, typed,
    next_some (length_lt filled)]
  simp [h.single (Nat.le_refl _) rest ends]

theorem lookup_level {op : BinaryOp} {k : Nat} (level : op.precedence = k + 1) :
    ∃ bound : k < levels.length,
      levels[k].lookup op.symbol = some op ∧ stops (k + 1) op.symbol := by
  cases op <;> simp only [BinaryOp.precedence, Nat.reduceEqDiff] at level <;>
    subst level <;> exact ⟨by decide, by decide, by decide⟩

/-- An operator that groups to the left: its left operand may be of its own level, its right operand
binds tighter. -/
theorem grouped {op : BinaryOp} {k : Nat} (level : op.precedence = k + 1)
    (left : Reads (k + 1) ts e) (right : Reads (k + 2) ts' e') :
    Reads (k + 1) (ts ++ .sign op.symbol :: ts') (.binary op e e') := by
  obtain ⟨bound, found, stop⟩ := lookup_level level
  refine of_leads (by simp) bound fun _ rest ends => ?_
  rw [List.append_assoc, List.cons_append,
    left.leads k (Nat.lt_succ_self k) bound _ (ends_sign stop), operands, found]
  simp [right.operand bound rest ends, next_some (length_lt right.filled)]

theorem assignment {op : BinaryOp} (level : op.precedence = 0) (left : Reads 1 ts e)
    (right : Reads 0 ts' e') : Reads 0 (ts ++ .sign op.symbol :: ts') (.binary op e e') := by
  have facts : stops 0 op.symbol ∧ op.symbol ≠ "?" ∧ assignments.lookup op.symbol = some op := by
    cases op <;> first | decide | contradiction
  obtain ⟨stop, other, found⟩ := facts
  refine of_whole (by simp) fun rest closed => ?_
  have front := left.operand (Nat.zero_le _) (.sign op.symbol :: (ts' ++ rest)) (ends_sign stop)
  rw [List.drop_zero] at front
  rw [List.append_assoc, List.cons_append, expression, front, next_some (length_lt left.filled)]
  simp [other, found, right.whole rest closed]

theorem conditional (condition : Reads 1 ts e) (consequent : Reads 0 ts' e')
    (alternative : Reads 0 ts'' e'') :
    Reads 0 (ts ++ .sign "?" :: ts' ++ .sign ":" :: ts'') (.ternary e e' e'') := by
  refine of_whole (by simp) fun rest closed => ?_
  have front := condition.operand (Nat.zero_le _)
    (.sign "?" :: (ts' ++ .sign ":" :: (ts'' ++ rest))) (ends_sign (by decide))
  have middle : next (ts' ++ .sign ":" :: (ts'' ++ rest))
      (upTo ":" (expression (ts' ++ .sign ":" :: (ts'' ++ rest)))) =
        some (e', ⟨ts'' ++ rest, by simp; omega⟩) := by
    rw [consequent.upTo_mark (by decide), next_some]
  rw [List.drop_zero] at front
  simp only [List.append_assoc, List.cons_append]
  rw [expression, front, next_some (length_lt condition.filled)]
  simp [middle, alternative.whole rest closed]

end KernelTree.Grammar.Reads
