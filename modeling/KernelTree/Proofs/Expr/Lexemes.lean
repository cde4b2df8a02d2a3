import KernelTree.Expr.Printer
import KernelTree.Proofs.Expr.TypeText
/-! The lexemes of a printed expression. The printer puts blanks where two signs would run together,
so that its text falls apart into the lexemes of its parts. -/
namespace KernelTree

open Lexeme Grammar

namespace Expr

mutual

/-- The lexemes of an expression in a spelling that leaves its identifiers alone, with parentheses
where the printer puts them. -/
def lexemesIn (sp : Spelling) : Expr → List Lexeme
  | ident name => [.word name.text]
  | literal text => [.word text.text]
  | unary op operand =>
    if op.isPostfix then
      group (operand.needsParens postfixLevel false) (lexemesIn sp operand) ++ [.sign op.symbol]
    else .sign op.symbol :: group (operand.needsParens unaryLevel false) (lexemesIn sp operand)
  | binary op lhs rhs =>
    group (lhs.needsParens op.precedence op.groupsRight) (lexemesIn sp lhs) ++ .sign op.symbol ::
      group (rhs.needsParens op.precedence (!op.groupsRight)) (lexemesIn sp rhs)
  | ternary condition consequent alternative =>
    group (condition.needsParens 1 true) (lexemesIn sp condition) ++
      .sign "?" :: lexemesIn sp consequent ++ .sign ":" :: lexemesIn sp alternative
  | call callee args =>
    group (callee.needsParens postfixLevel false) (lexemesIn sp callee) ++ .sign "(" ::
      commas (lexemesInAll sp args) ++ [.sign ")"]
  | index base subscript =>
    group (base.needsParens postfixLevel false) (lexemesIn sp base) ++ .sign "[" ::
      lexemesIn sp subscript ++ [.sign "]"]
  | member base field arrow =>
    group (base.needsParens postfixLevel false) (lexemesIn sp base) ++
      [.sign (if arrow then "->" else "."), .word field.text]
  | cast type operand =>
    .sign "(" :: type.lexemesIn sp ++ .sign ")" ::
      group (operand.needsParens unaryLevel false) (lexemesIn sp operand)
  | list items => .sign "\x7b" :: commas (lexemesInAll sp items) ++ [.sign "\x7d"]

def lexemesInAll (sp : Spelling) : List Expr → List (List Lexeme)
  | [] => []
  | e :: rest => lexemesIn sp e :: lexemesInAll sp rest

end

mutual

/-- The identifiers of an expression, other than the names of fields. -/
def identifiers : Expr → List String
  | ident name => [name.text]
  | literal _ => []
  | unary _ operand | member operand _ _ | cast _ operand => identifiers operand
  | binary _ lhs rhs => identifiers lhs ++ identifiers rhs
  | ternary condition consequent alternative =>
    identifiers condition ++ identifiers consequent ++ identifiers alternative
  | call callee args => identifiers callee ++ identifiersAll args
  | index base subscript => identifiers base ++ identifiers subscript
  | list items => identifiersAll items

def identifiersAll : List Expr → List String
  | [] => []
  | e :: rest => identifiers e ++ identifiersAll rest

end

mutual

/-- Whether identifiers, fields and type names are names, and literals decimal numerals. -/
def wellNamed : Expr → Bool
  | ident name => isName name.text
  | literal text => isNumeral text.text
  | unary _ operand => wellNamed operand
  | binary _ lhs rhs => wellNamed lhs && wellNamed rhs
  | ternary condition consequent alternative =>
    wellNamed condition && wellNamed consequent && wellNamed alternative
  | call callee args => wellNamed callee && wellNamedAll args
  | index base subscript => wellNamed base && wellNamed subscript
  | member base field _ => wellNamed base && isName field.text
  | cast type operand => isName type.name && wellNamed operand
  | list items => wellNamedAll items

def wellNamedAll : List Expr → Bool
  | [] => true
  | e :: rest => wellNamed e && wellNamedAll rest

end

theorem lexemesInAll_eq_map (sp : Spelling) (es : List Expr) :
    lexemesInAll sp es = es.map (lexemesIn sp) := by
  induction es with
  | nil => rfl
  | cons e rest ih => rw [lexemesInAll, ih, List.map_cons]

theorem identifiersAll_eq_flatMap (es : List Expr) :
    identifiersAll es = es.flatMap identifiers := by
  induction es with
  | nil => rfl
  | cons e rest ih => rw [identifiersAll, ih, List.flatMap_cons]

theorem wellNamedAll_eq_all (es : List Expr) : wellNamedAll es = es.all wellNamed := by
  induction es with
  | nil => rfl
  | cons e rest ih => rw [wellNamedAll, ih, List.all_cons]

/-- Induction over expressions and the lists in them. -/
@[induction_eliminator]
theorem induct {motive : Expr → Prop} (ident : ∀ name, motive (.ident name))
    (literal : ∀ text, motive (.literal text))
    (unary : ∀ op operand, motive operand → motive (.unary op operand))
    (binary : ∀ op lhs rhs, motive lhs → motive rhs → motive (.binary op lhs rhs))
    (ternary : ∀ condition consequent alternative, motive condition → motive consequent →
      motive alternative → motive (.ternary condition consequent alternative))
    (call : ∀ callee args, motive callee → (∀ a ∈ args, motive a) → motive (.call callee args))
    (index : ∀ base subscript, motive base → motive subscript → motive (.index base subscript))
    (member : ∀ base field arrow, motive base → motive (.member base field arrow))
    (cast : ∀ type operand, motive operand → motive (.cast type operand))
    (list : ∀ items, (∀ e ∈ items, motive e) → motive (.list items)) (e : Expr) : motive e :=
  @Expr.rec motive (fun es => ∀ e ∈ es, motive e) ident literal unary binary ternary call index
    member cast list (by simp) (fun _ _ first others => List.forall_mem_cons.mpr ⟨first, others⟩) e

theorem lexesTo_enclose {text : String} {ts : List Lexeme} {parens : Bool}
    (inner : LexesTo text ts) :
    LexesTo (enclose parens text) (group parens ts) := by
  intro rest ends
  cases parens with
  | false => exact inner rest ends
  | true =>
    simp only [enclose, group, if_true, String.toList_append, List.append_assoc]
    rw [lex_mark (by decide) (by decide), inner _ (endsWord_sign (by decide)),
      lex_mark (by decide) (by decide)]
    rfl

/-- The identifier or literal with which the text of a primary or postfix expression begins, if it
does not begin with a bracket. -/
def firstToken? : Expr → Option Token
  | ident token | literal token => some token
  | unary op operand => if op.isPostfix then firstToken? operand else none
  | call base _ | index base _ | member base _ _ => firstToken? base
  | _ => none

theorem isWord_of_firstToken? {e : Expr} {token : Token} (named : e.wellNamed)
    (first : token ∈ e.firstToken?) : isWord token.text := by
  induction e with
  | ident name =>
    cases first
    rw [wellNamed] at named
    exact isWord_of_isName named
  | literal text =>
    cases first
    rw [wellNamed] at named
    exact isWord_of_isNumeral named
  | unary op operand ih =>
    rw [wellNamed] at named
    rw [firstToken?] at first
    split at first
    next => exact ih named first
    next => cases first
  | call _ _ ih | index _ _ ih | member _ _ _ ih =>
    rw [wellNamed, Bool.and_eq_true] at named
    exact ih named.1 first
  | binary | ternary | cast | list => cases first

/-- A sign in front of the text ends where the text begins. -/
def Stops (s : String) (text : List Char) : Prop := ∃ c ∈ text.head?, growsBy s c = false

theorem Stops.append {s : String} {text more : List Char} (h : Stops s text) :
    Stops s (text ++ more) := by
  obtain ⟨c, first, apart⟩ := h
  obtain ⟨rest, rfl⟩ := List.head?_eq_some_iff.mp first
  exact ⟨c, rfl, apart⟩

theorem Stops.growsBy {s : String} {text : List Char} (h : Stops s text) :
    ∀ c ∈ text.head?, growsBy s c = false := by
  obtain ⟨d, first, apart⟩ := h
  intro c head
  cases Option.mem_unique first head
  exact apart

theorem stops_of_isWord {s text : String} (h : isWord text) : Stops s text.toList := by
  obtain ⟨c, rest, spelled, inside⟩ := exists_of_isWord h
  exact ⟨c, by simp [spelled], growsBy_eq_false (.inl inside)⟩

theorem stops_blank {s : String} {text : List Char} : Stops s (" ".toList ++ text) :=
  ⟨' ', rfl, growsBy_eq_false (.inr rfl)⟩

theorem needsParens_eq_false_iff {e : Expr} {level : Nat} :
    e.needsParens level false = false ↔ level ≤ e.precedence := by
  simp [needsParens]

section stops
variable {sp : Spelling} {op : UnaryOp} {e operand : Expr}

/-- No prefix operator grows by a bracket. -/
theorem stops_bracket {c : Char} {text : List Char} (bracket : c = '(' ∨ c = '\x7b') :
    Stops op.symbol (c :: text) := by
  refine ⟨c, rfl, ?_⟩
  rcases bracket with rfl | rfl <;> cases op <;> decide

theorem stops_enclose {level : Nat} {text : String}
    (stops : level ≤ e.precedence → Stops op.symbol text.toList) :
    Stops op.symbol (enclose (e.needsParens level false) text).toList := by
  cases parens : e.needsParens level false with
  | false => exact stops (needsParens_eq_false_iff.mp parens)
  | true =>
    rw [enclose, if_pos rfl, String.append_assoc, String.toList_append]
    exact stops_bracket (.inl rfl)

/-- Primary and postfix expressions begin with a token or a bracket. -/
theorem stops_render (same : ∀ name ∈ e.identifiers, sp.identifier name = name)
    (tokens : ∀ token ∈ e.firstToken?, Stops op.symbol token.text.toList)
    (tight : postfixLevel ≤ e.precedence) : Stops op.symbol (e.render sp).toList := by
  induction e with
  | ident token =>
    rw [render, same token.text (by simp [identifiers])]
    exact tokens token rfl
  | literal token => exact tokens token rfl
  | unary inner operand ih =>
    have behind : inner.isPostfix := by
      by_contra front
      simp [precedence, front, postfixLevel, unaryLevel] at tight
    rw [firstToken?, if_pos behind] at tokens
    rw [render, if_pos behind, String.toList_append]
    exact (stops_enclose (ih same tokens)).append
  | binary op lhs rhs => cases op <;> simp [precedence, BinaryOp.precedence, postfixLevel] at tight
  | ternary => simp [precedence, postfixLevel] at tight
  | call _ _ ih | index _ _ ih =>
    simp only [render, String.toList_append, List.append_assoc]
    exact (stops_enclose (ih (List.forall_mem_append.mp same).1 tokens)).append
  | member _ _ _ ih =>
    simp only [render, String.toList_append, List.append_assoc]
    exact (stops_enclose (ih same tokens)).append
  | cast => simp [precedence, postfixLevel, unaryLevel] at tight
  | list items =>
    rw [render, String.append_assoc, String.toList_append]
    exact stops_bracket (.inr rfl)

/-- The operand of a prefix operator begins with its own prefix operator, if it has one. -/
theorem stops_operand (same : ∀ name ∈ operand.identifiers, sp.identifier name = name)
    (tokens : ∀ token ∈ operand.firstToken?, Stops op.symbol token.text.toList)
    (bare : ∀ inner e, operand = .unary inner e → inner.isPostfix) :
    Stops op.symbol
      (enclose (operand.needsParens unaryLevel false) (operand.render sp)).toList := by
  cases operand with
  | cast type operand =>
    refine stops_enclose fun _ => ?_
    rw [render, String.append_assoc, String.append_assoc, String.toList_append]
    exact stops_bracket (.inl rfl)
  | unary inner e =>
    refine stops_enclose fun _ => stops_render same tokens ?_
    simp [precedence, bare inner e rfl, postfixLevel]
  | binary op =>
    refine stops_enclose fun loose => ?_
    cases op <;> simp [precedence, BinaryOp.precedence, unaryLevel] at loose
  | _ =>
    refine stops_enclose fun loose => stops_render same tokens ?_
    simp [precedence, unaryLevel, postfixLevel, primaryLevel] at loose ⊢

/-- Prefix operators do not run together: where they would, a blank stands between them. -/
theorem symbols_apart :
    (UnaryOp.all.all fun op => UnaryOp.all.all fun inner =>
      op.symbol.toList.isPrefixOf inner.symbol.toList ||
        inner.symbol.toList.head?.all fun c => !growsBy op.symbol c) = true := by decide +kernel

theorem symbol_mem_signs (op : UnaryOp) : op.symbol ∈ signs := by cases op <;> decide

theorem separator_eq (op : UnaryOp) (operand : Expr) :
    separator op operand = "" ∨ separator op operand = " " := by
  cases operand <;> simp [separator, or_comm, Classical.em]

theorem lex_separator (op : UnaryOp) (operand : Expr) (text : List Char) :
    lex ((separator op operand).toList ++ text) = lex text := by
  rcases separator_eq op operand with none | blank
  · rw [none]
    rfl
  · rw [blank, lex_blank]

/-- A prefix operator does not grow by another one, in front of which the printer puts a blank where
they would run together. -/
theorem stops_prefixed {inner : UnaryOp} (front : inner.isPostfix = false) :
    Stops op.symbol ((separator op (unary inner e)).toList ++
      (enclose ((unary inner e).needsParens unaryLevel false)
        ((unary inner e).render sp)).toList) := by
  have bare : (unary inner e).needsParens unaryLevel false = false := by
    simp [needsParens, precedence, front]
  rw [bare, separator]
  split
  · exact stops_blank
  next apart =>
    obtain ⟨d, more, spelled⟩ :=
      List.exists_cons_of_ne_nil (toList_ne_nil_of_mem_signs (symbol_mem_signs inner))
    have known (op : UnaryOp) : op ∈ UnaryOp.all := by cases op <;> decide
    have next := List.all_eq_true.mp (List.all_eq_true.mp symbols_apart op (known op)) inner
      (known inner)
    rw [spelled] at next apart
    rw [enclose, if_neg Bool.false_ne_true, render, if_neg (by simp [front]),
      String.append_assoc, String.toList_append, spelled]
    exact ⟨d, rfl, by simpa [apart] using next⟩

/-- A prefix operator does not grow by what the printer puts behind it, if it does not grow by the
token with which its operand begins. -/
theorem stops_separatedIn (same : ∀ name ∈ operand.identifiers, sp.identifier name = name)
    (tokens : ∀ token ∈ operand.firstToken?, Stops op.symbol token.text.toList) :
    Stops op.symbol ((separator op operand).toList ++
      (enclose (operand.needsParens unaryLevel false) (operand.render sp)).toList) := by
  by_cases front : ∃ inner e, operand = .unary inner e ∧ inner.isPostfix = false
  · obtain ⟨inner, e, rfl, front⟩ := front
    exact stops_prefixed front
  · have stops := stops_operand same tokens fun inner e shape => by
      by_contra prefixed
      exact front ⟨inner, e, shape, by simpa using prefixed⟩
    rcases separator_eq op operand with none | blank
    · rw [none]
      exact stops
    · rw [blank]
      exact stops_blank

theorem stops_separated
    (tokens : ∀ token ∈ operand.firstToken?, Stops op.symbol token.text.toList) :
    Stops op.symbol ((separator op operand).toList ++
      (enclose (operand.needsParens unaryLevel false) (operand.render .plain)).toList) :=
  stops_separatedIn (fun _ _ => rfl) tokens

end stops

theorem operator_mem_signs (op : BinaryOp) : op.symbol ∈ signs := by cases op <;> decide

/-! How the text of each form falls apart, given that of its parts. -/

section forms
variable {sp : Spelling} {text text' text'' : String} {ts ts' ts'' : List Lexeme}
  {texts : List String} {parts : List (List Lexeme)} {parens parens' : Bool}

theorem lexesTo_postfix {op : UnaryOp} (behind : op.isPostfix) (operand : LexesTo text ts) :
    LexesTo (enclose parens text ++ op.symbol) (group parens ts ++ [.sign op.symbol]) := by
  intro rest ends
  have final : isFinal op.symbol := by cases op <;> first | rfl | contradiction
  have known := symbol_mem_signs op
  rw [String.toList_append, List.append_assoc, lexesTo_enclose operand _ (endsWord_sign known),
    lex_mark known final, List.append_assoc, List.singleton_append]

theorem lexesTo_prefix {op : UnaryOp} {operand : Expr}
    (same : ∀ name ∈ operand.identifiers, sp.identifier name = name)
    (tokens : ∀ token ∈ operand.firstToken?, Stops op.symbol token.text.toList)
    (inner : LexesTo (operand.render sp) ts) :
    LexesTo
      (op.symbol ++ separator op operand ++
        enclose (operand.needsParens unaryLevel false) (operand.render sp))
      (.sign op.symbol :: group (operand.needsParens unaryLevel false) ts) := by
  intro rest ends
  have apart : Stops op.symbol (_ ++ rest) := (stops_separatedIn same tokens).append
  have apart := apart.growsBy
  rw [List.append_assoc] at apart
  rw [String.toList_append, String.toList_append, List.append_assoc, List.append_assoc,
    lex_sign (symbol_mem_signs op) apart, lex_separator, lexesTo_enclose inner rest ends,
    List.cons_append]

theorem lexesTo_binary {op : BinaryOp} (left : LexesTo text ts) (right : LexesTo text' ts') :
    LexesTo (enclose parens text ++ " " ++ op.symbol ++ " " ++ enclose parens' text')
      (group parens ts ++ .sign op.symbol :: group parens' ts') := by
  intro rest ends
  simp only [String.toList_append, List.append_assoc]
  rw [lexesTo_enclose left _ endsWord_blank, lex_spaced (operator_mem_signs op),
    lexesTo_enclose right rest ends, List.cons_append]

theorem lexesTo_ternary (condition : LexesTo text ts) (consequent : LexesTo text' ts')
    (alternative : LexesTo text'' ts'') :
    LexesTo (enclose parens text ++ " ? " ++ text' ++ " : " ++ text'')
      (group parens ts ++ .sign "?" :: ts' ++ .sign ":" :: ts'') := by
  intro rest ends
  simp only [show " ? " = " " ++ ("?" ++ " ") from rfl, show " : " = " " ++ (":" ++ " ") from rfl,
    String.toList_append, List.append_assoc]
  rw [lexesTo_enclose condition _ endsWord_blank, lex_spaced (by decide),
    consequent _ endsWord_blank, lex_spaced (by decide), alternative rest ends]
  simp only [List.cons_append]

theorem lexesTo_call (callee : LexesTo text ts) (args : List.Forall₂ LexesTo texts parts) :
    LexesTo (enclose parens text ++ "(" ++ ", ".intercalate texts ++ ")")
      (group parens ts ++ .sign "(" :: commas parts ++ [.sign ")"]) := by
  intro rest ends
  simp only [String.toList_append, List.append_assoc]
  rw [lexesTo_enclose callee _ (endsWord_sign (by decide)), lex_mark (by decide) (by decide),
    lexesTo_commas args _ (endsWord_sign (by decide)), lex_mark (by decide) (by decide)]
  simp only [List.cons_append, List.nil_append]

theorem lexesTo_index (base : LexesTo text ts) (subscript : LexesTo text' ts') :
    LexesTo (enclose parens text ++ "[" ++ text' ++ "]")
      (group parens ts ++ .sign "[" :: ts' ++ [.sign "]"]) := by
  intro rest ends
  simp only [String.toList_append, List.append_assoc]
  rw [lexesTo_enclose base _ (endsWord_sign (by decide)), lex_mark (by decide) (by decide),
    subscript _ (endsWord_sign (by decide)), lex_mark (by decide) (by decide)]
  simp only [List.cons_append, List.nil_append]

theorem lexesTo_member (arrow : Bool) (base : LexesTo text ts) {field : String}
    (word : isWord field) :
    LexesTo (enclose parens text ++ (if arrow then "->" else ".") ++ field)
      (group parens ts ++ [.sign (if arrow then "->" else "."), .word field]) := by
  intro rest ends
  have known : (if arrow then "->" else ".") ∈ signs := by cases arrow <;> decide
  simp only [String.toList_append, List.append_assoc]
  rw [lexesTo_enclose base _ (endsWord_sign known), lex_sign known (growsBy_word word),
    lexesTo_word word rest ends]
  simp only [List.cons_append, List.nil_append]

theorem lexesTo_cast {type : TypeSpec} (worded : ∀ q, ∀ w ∈ sp.word? q, isWord w)
    (named : isWord (sp.typeName type.name)) (operand : LexesTo text ts) :
    LexesTo ("(" ++ type.render sp ++ ")" ++ enclose parens text)
      (.sign "(" :: type.lexemesIn sp ++ .sign ")" :: group parens ts) := by
  intro rest ends
  simp only [String.toList_append, List.append_assoc]
  rw [lex_mark (by decide) (by decide), TypeSpec.lex_renderIn worded named,
    lexesTo_enclose operand rest ends]
  simp only [List.cons_append]

theorem lexesTo_list (items : List.Forall₂ LexesTo texts parts) :
    LexesTo ("\x7b" ++ ", ".intercalate texts ++ "\x7d")
      (.sign "\x7b" :: commas parts ++ [.sign "\x7d"]) := by
  intro rest ends
  simp only [String.toList_append, List.append_assoc]
  rw [lex_mark (by decide) (by decide), lexesTo_commas items _ (endsWord_sign (by decide)),
    lex_mark (by decide) (by decide)]
  simp only [List.cons_append, List.nil_append]

end forms

section
variable {sp : Spelling}

theorem lexesTo_all {es : List Expr}
    (each : ∀ e ∈ es, e.wellNamed → (∀ name ∈ e.identifiers, sp.identifier name = name) →
      LexesTo (e.render sp) (e.lexemesIn sp))
    (named : wellNamedAll es) (same : ∀ name ∈ identifiersAll es, sp.identifier name = name) :
    List.Forall₂ LexesTo (renderAll sp es) (lexemesInAll sp es) := by
  rw [wellNamedAll_eq_all, List.all_eq_true] at named
  rw [identifiersAll_eq_flatMap] at same
  rw [renderAll_eq_map, lexemesInAll_eq_map, List.forall₂_map_left_iff, List.forall₂_map_right_iff,
    List.forall₂_same]
  exact fun e inside => each e inside (named e inside) fun name part =>
    same name (List.mem_flatMap.mpr ⟨e, inside, part⟩)

/-- The text of an expression falls apart into its lexemes, in a spelling that writes its qualifiers
as words and leaves its names alone. -/
theorem lexesTo_renderIn (worded : ∀ q, ∀ w ∈ sp.word? q, isWord w)
    (kept : ∀ name, sp.typeName name = name) {e : Expr} (named : e.wellNamed)
    (same : ∀ name ∈ e.identifiers, sp.identifier name = name) :
    LexesTo (e.render sp) (e.lexemesIn sp) := by
  induction e with
  | ident name =>
    rw [wellNamed] at named
    rw [render, same name.text (by simp [identifiers])]
    exact lexesTo_word (isWord_of_isName named)
  | literal text =>
    rw [wellNamed] at named
    exact lexesTo_word (isWord_of_isNumeral named)
  | unary op operand ih =>
    rw [wellNamed] at named
    rw [identifiers] at same
    rw [render, lexemesIn]
    split
    next behind => exact lexesTo_postfix behind (ih named same)
    next front =>
      have tokens : ∀ token ∈ operand.firstToken?, Stops op.symbol token.text.toList :=
        fun token first => stops_of_isWord (isWord_of_firstToken? named first)
      exact lexesTo_prefix same tokens (ih named same)
  | binary op lhs rhs left right =>
    rw [wellNamed, Bool.and_eq_true] at named
    rw [identifiers, List.forall_mem_append] at same
    rw [render, lexemesIn]
    exact lexesTo_binary (left named.1 same.1) (right named.2 same.2)
  | ternary condition consequent alternative first second third =>
    rw [wellNamed, Bool.and_eq_true, Bool.and_eq_true] at named
    rw [identifiers, List.forall_mem_append, List.forall_mem_append] at same
    rw [render, lexemesIn]
    exact lexesTo_ternary (first named.1.1 same.1.1) (second named.1.2 same.1.2)
      (third named.2 same.2)
  | call callee args ih each =>
    rw [wellNamed, Bool.and_eq_true] at named
    rw [identifiers, List.forall_mem_append] at same
    rw [render, lexemesIn]
    exact lexesTo_call (ih named.1 same.1) (lexesTo_all each named.2 same.2)
  | index base subscript outer inner =>
    rw [wellNamed, Bool.and_eq_true] at named
    rw [identifiers, List.forall_mem_append] at same
    rw [render, lexemesIn]
    exact lexesTo_index (outer named.1 same.1) (inner named.2 same.2)
  | member base field arrow ih =>
    rw [wellNamed, Bool.and_eq_true] at named
    rw [identifiers] at same
    rw [render, lexemesIn]
    exact lexesTo_member arrow (ih named.1 same) (isWord_of_isName named.2)
  | cast type operand ih =>
    rw [wellNamed, Bool.and_eq_true] at named
    rw [identifiers] at same
    rw [render, lexemesIn]
    have word : isWord (sp.typeName type.name) := (kept type.name).symm ▸ isWord_of_isName named.1
    exact lexesTo_cast worded word (ih named.2 same)
  | list items each =>
    rw [wellNamed] at named
    rw [identifiers] at same
    rw [render, lexemesIn]
    exact lexesTo_list (lexesTo_all each named same)

end

/-- The text of an expression in plain C falls apart into its lexemes. -/
theorem lexesTo_render {e : Expr} (named : e.wellNamed) :
    LexesTo (e.render .plain) (e.lexemesIn .plain) :=
  lexesTo_renderIn TypeSpec.isWord_of_mem_plain (fun _ => rfl) named fun _ _ => rfl

end Expr
end KernelTree
