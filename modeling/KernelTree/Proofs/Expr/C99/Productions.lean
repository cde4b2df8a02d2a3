import KernelTree.Proofs.Expr.C99.Operands
import KernelTree.Proofs.Expr.Productions
/-! The outcome of each form of expression in the grammar of C99, from the outcomes of its parts. It
is read if all its parts are and each of them may stand in its place. -/
namespace KernelTree.C99

open Lexeme
open Grammar hiding Operand Leads Reads expression primary unary suffixes postfixed items moreItems
  binary operands suffixes_of_ends operands_of_ends qualifiers

variable {level k : Nat} {ts ts' ts'' rest : List Lexeme} {v v' v'' : Option Expr} {w : String}

section front
variable {s : String}

theorem cast_word : cast (.word w :: rest) = postfixed (.word w :: rest) := by
  rw [cast, unary]
  · intro s more same
    cases same
  · intro more same
    cases same

theorem cast_sign (other : s ≠ "(") : cast (.sign s :: rest) = unary (.sign s :: rest) := by
  rw [cast]
  rintro more ⟨⟩
  exact other rfl

theorem unary_paren : unary (.sign "(" :: rest) = postfixed (.sign "(" :: rest) := by
  rw [unary]
  rfl

end front

/-- What no level of casts reads is no expression. -/
theorem assignment_eq_none (h : cast ts = none) : assignment ts = none := by
  have none (tighter : List (List (String × BinaryOp))) : binary tighter ts = none := by
    induction tighter with
    | nil => rw [binary, h]
    | cons level tighter ih =>
      rw [binary, ih]
      rfl
  rw [assignment, conditional, none]
  rfl

namespace Reads

theorem of_postfixed (filled : ts ≠ [])
    (front : ∀ rest, cast (ts ++ rest) = postfixed (ts ++ rest) ∧
      unary (ts ++ rest) = postfixed (ts ++ rest))
    (h : ∀ rest, primary (ts ++ rest) = v.map (·, rest)) : Reads level ts v := by
  have inner (rest : List Lexeme) : postfixed (ts ++ rest) = v.bind (suffixes · rest) := by
    rw [postfixed, h, next_map filled]
    cases v <;> rfl
  exact of_base filled fun rest =>
    ⟨(front rest).1.trans (inner rest), (front rest).2.trans (inner rest), inner rest⟩

theorem word (text : String) : Reads level [.word text] (leaf? text) := by
  refine of_postfixed (by simp) (fun rest => ⟨cast_word, ?_⟩) fun rest => ?_
  · rw [List.singleton_append, unary]
    intro s more same
    cases same
  · rw [List.singleton_append, primary]

/-- A whole expression and the mark behind it are read together. -/
theorem upTo_mark (h : Reads 0 ts v) {mark : String} (known : mark ∈ closers)
    (rest : List Lexeme) :
    upTo mark (assignment (ts ++ .sign mark :: rest)) = v.map (·, rest) := by
  rw [h.whole _ (closed_sign known)]
  cases v with
  | none => rfl
  | some e => exact upTo_some e mark rest

/-- An expression in parentheses, unless they hold what could be the type of a cast. -/
theorem parens (h : Reads 0 ts v) (other : ∀ rest, typeName (ts ++ rest) = none) :
    Reads level (.sign "(" :: ts ++ [.sign ")"]) v := by
  have split (rest : List Lexeme) : .sign "(" :: ts ++ [.sign ")"] ++ rest =
      .sign "(" :: (ts ++ .sign ")" :: rest) := by simp
  refine of_postfixed (by simp) (fun rest => ?_) fun rest => ?_
  · rw [split, cast, other, unary_paren]
    exact ⟨rfl, rfl⟩
  · rw [split, primary, other]
    exact h.upTo_mark (by decide) rest

/-- What is read behind an operand becomes part of it. -/
theorem suffix {f : Expr → Option Expr} (h : Reads postfixLevel ts v)
    (more : ∀ e rest, suffixes e (ts' ++ rest) = (f e).bind (suffixes · rest)) :
    Reads level (ts ++ ts') (v.bind f) := by
  refine of_base (by simp [h.filled]) fun rest => ?_
  have front := h.base (Nat.le_refl _) (ts' ++ rest)
  simp only [more] at front
  rwa [List.append_assoc, Option.bind_assoc]

theorem postIncrement (h : Reads postfixLevel ts v) :
    Reads level (ts ++ [.sign "++"]) (v.map (.unary .postIncrement)) := by
  rw [Option.map_eq_bind]
  exact h.suffix fun e rest => by
    rw [List.singleton_append, suffixes]
    rfl

theorem postDecrement (h : Reads postfixLevel ts v) :
    Reads level (ts ++ [.sign "--"]) (v.map (.unary .postDecrement)) := by
  rw [Option.map_eq_bind]
  exact h.suffix fun e rest => by
    rw [List.singleton_append, suffixes]
    rfl

theorem index (h : Reads postfixLevel ts v) (inner : Reads 0 ts' v') :
    Reads level (ts ++ (.sign "[" :: ts' ++ [.sign "]"])) (Option.map₂ .index v v') :=
  h.suffix fun e rest => by
    have filled :
        .sign "[" :: ts' ++ [.sign "]"] ++ rest = .sign "[" :: (ts' ++ .sign "]" :: rest) := by
      simp
    rw [filled, suffixes, inner.upTo_mark (by decide)]
    cases v' with
    | none => rfl
    | some subscript =>
      rw [Option.map_some, next_some (by simp; omega)]
      rfl

/-- Only an identifier is the name of a field. -/
theorem member (h : Reads postfixLevel ts v) (field : String) (arrow : Bool) :
    Reads level (ts ++ [.sign (if arrow then "->" else "."), .word field])
      (v.bind fun e =>
        if isIdentifier field then some (.member e (.identifier field) arrow) else none) :=
  h.suffix fun e rest => by
    have read : suffixes e (.sign (if arrow then "->" else ".") :: .word field :: rest) =
        if isIdentifier field then suffixes (.member e (.identifier field) arrow) rest
        else none := by
      cases arrow <;> exact suffixes.eq_def _ _
    change suffixes e (.sign (if arrow then "->" else ".") :: .word field :: rest) = _
    rw [read]
    split <;> rfl

end Reads

/-- The outcome of an entry of a list, which may have braces of its own, or of an argument. -/
structure ReadsItem (braced : Bool) (ts : List Lexeme) (v : Option Expr) : Prop where
  filled : ts ≠ []
  whole : ∀ rest, Closed rest →
    (if braced then initializer (ts ++ rest) else assignment (ts ++ rest)) = v.map (·, rest)

section items
variable {α : Type} {braced : Bool} {items : List α} {text : α → List Lexeme}
  {value : α → Option Expr} (each : ∀ a ∈ items, ReadsItem braced (text a) (value a))
include each

theorem moreItems_eq (rest : List Lexeme) :
    moreItems braced (items.flatMap (.sign "," :: text ·) ++
      .sign (if braced then "\x7d" else ")") :: rest) = (items.mapM value).map (·, rest) := by
  have known : (if braced then "\x7d" else ")") ∈ closers := by cases braced <;> decide
  have apart : "," ≠ (if braced then "\x7d" else ")") := by cases braced <;> decide
  induction items with
  | nil => simp [moreItems]
  | cons a more ih =>
    obtain ⟨⟨filled, whole⟩, others⟩ := List.forall_mem_cons.mp each
    rw [List.flatMap_cons, List.append_assoc, List.cons_append, moreItems, if_neg apart,
      if_pos rfl, whole _ (Grammar.Reads.closed_items known), next_map filled, List.mapM_cons]
    cases value a with
    | none => rfl
    | some e =>
      simp only [Option.map_some, Option.bind_eq_bind, Option.bind_some, ih others]
      cases more.mapM value <;> rfl

/-- Items with commas between them, up to the mark that closes them. Braces hold at least one. -/
theorem items_eq (rest : List Lexeme)
    (opens : braced = false → ∀ a ∈ items, ∀ rest, expect ")" (text a ++ rest) = none)
    (some : braced → items ≠ []) :
    C99.items braced (commas (items.map text) ++ .sign (if braced then "\x7d" else ")") :: rest) =
      (items.mapM value).map (·, rest) := by
  cases items with
  | nil =>
    cases braced with
    | true => exact absurd rfl (some rfl)
    | false =>
      rw [C99.items]
      simp [commas, expect]
  | cons a more =>
    obtain ⟨⟨filled, whole⟩, others⟩ := List.forall_mem_cons.mp each
    have known : (if braced then "\x7d" else ")") ∈ closers := by cases braced <;> decide
    have apart (rest : List Lexeme) : (if braced then none else expect ")" (text a ++ rest)) =
        none := by
      cases braced with
      | true => rfl
      | false => exact opens rfl a List.mem_cons_self rest
    rw [Grammar.Reads.commas_cons, List.append_assoc, C99.items, apart,
      whole _ (Grammar.Reads.closed_items known), next_map filled, List.mapM_cons]
    cases value a with
    | none => rfl
    | some e =>
      simp only [Option.map_some, Option.bind_eq_bind, Option.bind_some, moreItems_eq others rest]
      cases more.mapM value <;> rfl

end items

namespace Reads

theorem call {α : Type} {items : List α} {text : α → List Lexeme} {value : α → Option Expr}
    (h : Reads postfixLevel ts v) (each : ∀ a ∈ items, ReadsItem false (text a) (value a))
    (opens : ∀ a ∈ items, ∀ rest, expect ")" (text a ++ rest) = none) :
    Reads level (ts ++ .sign "(" :: commas (items.map text) ++ [.sign ")"])
      (Option.map₂ .call v (items.mapM value)) := by
  rw [List.append_assoc]
  refine h.suffix fun e rest => ?_
  have read : C99.items false (commas (items.map text) ++ .sign ")" :: rest) =
      (items.mapM value).map (·, rest) := items_eq each rest (fun _ => opens) (by simp)
  rw [List.append_assoc, List.cons_append, List.singleton_append, suffixes, read]
  cases items.mapM value with
  | none => rfl
  | some es =>
    rw [Option.map_some, next_some (by simp; omega)]
    rfl

/-- The outcome of a prefix operator from that of its operand, which is a unary expression behind an
increment or decrement and a cast elsewhere. -/
theorem prefixed {op : UnaryOp} (front : op.isPostfix = false)
    (h : ∀ rest, Ends levels.length rest →
      (if isStep op then unary (ts ++ rest) else C99.cast (ts ++ rest)) = v.map (·, rest)) :
    Reads unaryLevel (.sign op.symbol :: ts) (v.map (.unary op)) := by
  have found : op.symbol ≠ "(" ∧ prefixes.lookup op.symbol = some op := by
    cases op <;> first | decide | contradiction
  have read (rest : List Lexeme) (ends : Ends levels.length rest) :
      unary (.sign op.symbol :: ts ++ rest) = (v.map (.unary op)).map (·, rest) := by
    have operand := h rest ends
    rw [List.cons_append, unary, found.2]
    cases step : isStep op <;>
      simp only [step, if_true, Bool.false_eq_true, if_false] at operand ⊢ <;>
      rw [operand] <;> cases v <;> rfl
  exact of_unary (by simp) fun rest ends =>
    ⟨(cast_sign found.1).trans (read rest ends), read rest ends⟩

end Reads

/-- The outcome of the type of a cast and the parenthesis behind it. What is no type is no
expression either. -/
structure ReadsType (ts : List Lexeme) (type : Option TypeSpec) : Prop where
  filled : ts ≠ []
  typed : ∀ rest, typeName (ts ++ rest) = type.map (·, rest)
  other : type = none → ∀ rest, cast (ts ++ rest) = none

namespace ReadsType

variable {type : Option TypeSpec} (typed : ReadsType ts type)
include typed

theorem next_eq (rest : List Lexeme) : next (ts ++ rest) (typeName (ts ++ rest)) =
    type.map (·, ⟨rest, length_lt typed.filled⟩) := by
  rw [typed.typed]
  cases type with
  | none => rfl
  | some type => exact next_some (length_lt typed.filled)

/-- Without braces behind it, a type in parentheses opens no unary expression. -/
theorem unary_eq_none (apart : expect "\x7b" rest = none) :
    unary (.sign "(" :: (ts ++ rest)) = none := by
  rw [unary_paren, postfixed, primary, typed.next_eq]
  cases type with
  | none =>
    rw [assignment_eq_none (typed.other rfl rest)]
    rfl
  | some type =>
    simp only [Option.map_some, apart]
    rfl

end ReadsType

namespace Reads

variable {type : Option TypeSpec}

theorem cast (typed : ReadsType ts type) (h : Reads castLevel ts' v)
    (apart : ∀ rest, expect "\x7b" (ts' ++ rest) = none) :
    Reads castLevel (.sign "(" :: ts ++ ts') (Option.map₂ .cast type v) := by
  refine of_cast (by simp) fun rest ends => ?_
  rw [List.append_assoc, List.cons_append, C99.cast, typed.next_eq]
  cases type with
  | none => exact typed.unary_eq_none (apart rest)
  | some type =>
    simp only [Option.map_some, apart, h.single (Nat.le_refl _) rest ends]
    cases v <;> rfl

/-- A compound literal, from the outcome of its braces. -/
theorem compound (typed : ReadsType ts type)
    (h : ∀ rest, initializer (ts' ++ rest) = v.map (·, rest))
    (braced : ∀ rest, (expect "\x7b" (ts' ++ rest)).isSome) :
    Reads level (.sign "(" :: ts ++ ts') (Option.map₂ .cast type v) := by
  refine of_postfixed (by simp) (fun rest => ?_) fun rest => ?_
  · refine ⟨?_, unary_paren⟩
    rw [List.append_assoc, List.cons_append, C99.cast, typed.next_eq, unary_paren]
    cases type <;> simp [braced]
  · rw [List.append_assoc, List.cons_append, primary, typed.next_eq]
    cases type with
    | none =>
      rw [assignment_eq_none (typed.other rfl _)]
      rfl
    | some type =>
      simp only [Option.map_some, braced, h]
      cases v <;> rfl

/-- An operator that groups to the left: its left operand may be of its own level, its right operand
binds tighter. -/
theorem grouped {op : BinaryOp} (precedence : op.precedence = k + 1)
    (left : Reads (k + 2) ts v) (right : Reads (k + 3) ts' v') :
    Reads (k + 2) (ts ++ .sign op.symbol :: ts') (Option.map₂ (.binary op) v v') := by
  obtain ⟨bound, found, stop⟩ := Grammar.Reads.lookup_level precedence
  refine of_leads (by simp) bound fun _ rest ends => ?_
  rw [List.append_assoc, List.cons_append, left.leads k (Nat.le_refl _) bound _ (ends_sign stop)]
  cases v with
  | none => rfl
  | some e =>
    rw [Option.bind_some, operands, found]
    simp only [right.operand bound rest ends, next_map right.filled]
    cases v' <;> rfl

theorem assigned_symbol {op : BinaryOp} (precedence : op.precedence = 0) :
    stops 0 op.symbol ∧ op.symbol ≠ "?" ∧ assignments.lookup op.symbol = some op := by
  cases op <;> first | decide | contradiction

/-- What is assigned to is read in front of the operator. -/
theorem conditional_assigned {op : BinaryOp} (precedence : op.precedence = 0)
    (left : Reads unaryLevel ts v) (rest : List Lexeme) :
    conditional (ts ++ .sign op.symbol :: rest) = v.map (·, .sign op.symbol :: rest) := by
  obtain ⟨stop, other, -⟩ := assigned_symbol precedence
  have operand : Operand 0 ts v := left.looser (by decide) |>.operand (Nat.zero_le _)
  exact conditional_of_operand left.filled operand (ends_sign stop) (by simpa using other)

/-- An assignment to a unary expression. -/
theorem assigned {op : BinaryOp} (precedence : op.precedence = 0) (left : Reads unaryLevel ts v)
    (right : Reads 0 ts' v') :
    Reads 0 (ts ++ .sign op.symbol :: ts') (Option.map₂ (.binary op) v v') := by
  obtain ⟨stop, -, found⟩ := assigned_symbol precedence
  refine of_whole (by simp) fun rest closed => ?_
  have target := left.plain (Nat.le_refl _) (.sign op.symbol :: (ts' ++ rest))
    ((ends_sign stop).mono (Nat.zero_le _))
  rw [List.append_assoc, List.cons_append, assignment, conditional_assigned precedence left,
    next_map left.filled]
  cases v with
  | none => rfl
  | some e =>
    cases v' <;> simp [found, target, right.whole rest closed]

/-- An assignment is not read in the place of a conditional expression. -/
theorem unassigned_assigned {op : BinaryOp} (precedence : op.precedence = 0)
    (left : Reads unaryLevel ts v) (rest : List Lexeme) :
    unassigned (conditional (ts ++ .sign op.symbol :: rest)) = none := by
  rw [conditional_assigned precedence left]
  cases v with
  | none => rfl
  | some e => simp [unassigned, isAssignment, (assigned_symbol precedence).2.2]

/-- The outcome of a conditional expression. Its last part stands in front of no assignment. -/
theorem ternary (condition : Reads 2 ts v) (consequent : Reads 0 ts' v')
    (alternative : ∀ rest, Closed rest →
      unassigned (conditional (ts'' ++ rest)) = v''.map (·, rest)) :
    Reads conditionalLevel (ts ++ .sign "?" :: ts' ++ .sign ":" :: ts'')
      (v.bind fun e => Option.map₂ (.ternary e) v' v'') := by
  refine of_conditional (by simp) fun rest closed => ?_
  have front := condition.operand (Nat.zero_le _)
    (.sign "?" :: (ts' ++ .sign ":" :: (ts'' ++ rest))) (ends_sign (by decide))
  rw [List.drop_zero] at front
  simp only [List.append_assoc, List.cons_append]
  rw [conditional, front, next_map condition.filled]
  cases v with
  | none => rfl
  | some e =>
    have shorter : (ts'' ++ rest).length < (ts' ++ .sign ":" :: (ts'' ++ rest)).length := by
      simp only [List.length_append, List.length_cons]
      omega
    have middle : next (ts' ++ .sign ":" :: (ts'' ++ rest))
        (upTo ":" (assignment (ts' ++ .sign ":" :: (ts'' ++ rest)))) =
          v'.map (·, ⟨ts'' ++ rest, shorter⟩) := by
      rw [consequent.upTo_mark (by decide)]
      cases v' with
      | none => rfl
      | some e' => exact next_some shorter
    cases v' with
    | none => simp [middle]
    | some e' => cases v'' <;> simp [middle, alternative rest closed]

end Reads

/-- The outcome of braces around some entries. -/
theorem initializer_braces {α : Type} {items : List α} {text : α → List Lexeme}
    {value : α → Option Expr} (each : ∀ a ∈ items, ReadsItem true (text a) (value a))
    (some : items ≠ []) (rest : List Lexeme) :
    initializer (.sign "\x7b" :: commas (items.map text) ++ [.sign "\x7d"] ++ rest) =
      ((items.mapM value).map .list).map (·, rest) := by
  have read : C99.items true (commas (items.map text) ++ .sign "\x7d" :: rest) =
      (items.mapM value).map (·, rest) := items_eq each rest (by simp) fun _ => some
  rw [List.append_assoc, List.cons_append, List.singleton_append, initializer, read]
  cases items.mapM value <;> rfl

/-- Braces around nothing are no initializer. -/
theorem initializer_empty (rest : List Lexeme) :
    initializer (.sign "\x7b" :: commas [] ++ [.sign "\x7d"] ++ rest) = none := by
  have other : C99.cast (.sign "\x7d" :: rest) = none := by
    have postfixed : C99.postfixed (.sign "\x7d" :: rest) = none := by
      simp [C99.postfixed, primary, next]
    rw [cast_sign (by decide), unary]
    exact postfixed
  have inner : initializer (.sign "\x7d" :: rest) = none := by
    rw [initializer, assignment_eq_none other]
    intro more same
    simp at same
  rw [show .sign "\x7b" :: commas [] ++ [.sign "\x7d"] ++ rest =
    .sign "\x7b" :: .sign "\x7d" :: rest from rfl, initializer, items]
  simp [inner, next]

/-- What opens with no brace is an expression. -/
theorem initializer_of_expect (apart : expect "\x7b" ts = none) :
    initializer ts = assignment ts := by
  rw [initializer]
  rintro more rfl
  simp [expect] at apart

end KernelTree.C99
