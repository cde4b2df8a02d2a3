import KernelTree.Proofs.Expr.Lexemes
/-! A prefix operator and its operand. The printer keeps two operators apart, but it does not look
for the minus sign with which a literal may begin. -/
namespace KernelTree.Expr

open Lexeme

variable {op : UnaryOp} {e operand : Expr} {token : Token} {level : Nat}

/-- The text of the operand of a prefix operator. -/
def operandText (operand : Expr) : String :=
  enclose (operand.needsParens unaryLevel false) (operand.render .plain)

/-- A minus sign runs together with the one of a literal with which its operand begins. In front of
a decrement the printer puts a blank, whatever is decremented. -/
def Fuses (op : UnaryOp) (operand : Expr) : Prop :=
  op = .neg ∧ separator op operand = "" ∧
    ∃ token ∈ operand.firstToken?, token.text.toList.head? = some '-'

theorem enclose_of_firstToken? (first : token ∈ e.firstToken?) (loose : level ≤ postfixLevel)
    (text : String) : enclose (e.needsParens level false) text = text := by
  have tight : postfixLevel ≤ e.precedence := by
    cases e with
    | unary op operand =>
      rw [firstToken?] at first
      split at first
      next behind => simp [precedence, behind]
      next => cases first
    | binary | ternary | cast | list => cases first
    | _ => simp [precedence, postfixLevel, primaryLevel]
  rw [needsParens_eq_false_iff.mpr (Nat.le_trans loose tight), enclose,
    if_neg Bool.false_ne_true]

/-- The text of a primary or postfix expression begins with its first token. -/
theorem exists_render (first : token ∈ e.firstToken?) :
    ∃ rest, (e.render .plain).toList = token.text.toList ++ rest := by
  induction e with
  | ident name | literal text =>
    cases first
    exact ⟨[], by simp [render, Spelling.plain]⟩
  | unary op operand ih =>
    rw [firstToken?] at first
    split at first
    next behind =>
      obtain ⟨rest, text⟩ := ih first
      rw [render, if_pos behind, enclose_of_firstToken? first (Nat.le_refl _),
        String.toList_append, text, List.append_assoc]
      exact ⟨_, rfl⟩
    next => cases first
  | call base _ ih | index base _ ih | member base _ _ ih =>
    obtain ⟨rest, text⟩ := ih first
    simp only [render, enclose_of_firstToken? (e := base) first (Nat.le_refl _),
      String.toList_append, text, List.append_assoc]
    exact ⟨_, rfl⟩
  | binary | ternary | cast | list => cases first

theorem exists_operandText (first : token ∈ operand.firstToken?) :
    ∃ rest, (operandText operand).toList = token.text.toList ++ rest := by
  rw [operandText, enclose_of_firstToken? first (by decide)]
  exact exists_render first

/-- A literal begins with a digit, a point or a quote, or with a minus sign and a digit. -/
theorem head_of_literal {text : String} (literal : TokenKind.ofSpelling text = .literal) :
    (∃ c rest, text.toList = c :: rest ∧ (c.isDigit ∨ c = '.' ∨ c = '"' ∨ c = '\'')) ∨
      ∃ c rest, text.toList = '-' :: c :: rest ∧ c.isDigit := by
  rw [TokenKind.ofSpelling] at literal
  split at literal
  next c rest spelled =>
    split at literal
    next digit => exact .inr ⟨c, rest, spelled, digit⟩
    next => cases literal
  next c rest _ spelled =>
    split at literal
    next kind =>
      refine .inl ⟨c, rest, spelled, ?_⟩
      simpa [or_assoc] using kind
    next => cases literal
  next => cases literal

theorem isWordChar_of_isDigit {c : Char} (digit : c.isDigit) : isWordChar c := by
  simp [isWordChar, Char.isAlphanum, digit]

/-- Only a minus sign grows by the first character of a literal, and only by another minus sign. -/
theorem stops_of_literal {text : String} (literal : TokenKind.ofSpelling text = .literal)
    (apart : ¬ (op = .neg ∧ text.toList.head? = some '-')) : Stops op.symbol text.toList := by
  rcases head_of_literal literal with ⟨c, rest, spelled, kind⟩ | ⟨c, rest, spelled, -⟩
  · refine ⟨c, by simp [spelled], ?_⟩
    rcases kind with digit | rfl | rfl | rfl
    · exact growsBy_eq_false (.inl (isWordChar_of_isDigit digit))
    all_goals cases op <;> decide
  · refine ⟨'-', by simp [spelled], ?_⟩
    cases op
    case neg => exact absurd ⟨rfl, by simp [spelled]⟩ apart
    all_goals decide

/-- The first lexeme of a prefix operator with its operand is the operator, and the other lexemes
are those of the operand, unless a minus sign runs together with that of a literal. Then a decrement
stands in the place of both. -/
theorem lex_prefixed (front : op.isPostfix = false)
    (spelled : ∀ token ∈ operand.firstToken?,
      isWord token.text ∨ TokenKind.ofSpelling token.text = .literal) :
    (¬ Fuses op operand → lex ((unary op operand).render .plain).toList =
      .sign op.symbol :: lex (operandText operand).toList) ∧
    (Fuses op operand → lex ((unary op operand).render .plain).toList =
      .sign "--" :: lex (operandText operand).toList.tail) := by
  have text : ((unary op operand).render .plain).toList = op.symbol.toList ++
      ((separator op operand).toList ++ (operandText operand).toList) := by
    rw [render, if_neg (by simp [front]), String.append_assoc, String.toList_append,
      String.toList_append, operandText]
  rw [text]
  constructor
  · intro apart
    have ends : ∀ c ∈ ((separator op operand).toList ++ (operandText operand).toList).head?,
        growsBy op.symbol c = false := by
      rcases separator_eq op operand with none | blank
      · refine (stops_separated fun token first => ?_).growsBy
        rcases spelled token first with word | literal
        · exact stops_of_isWord word
        · refine stops_of_literal literal ?_
          rintro ⟨minus, sign⟩
          exact apart ⟨minus, none, token, first, sign⟩
      · rw [blank]
        exact stops_blank.growsBy
    rw [lex_sign (symbol_mem_signs op) ends, lex_separator]
  · rintro ⟨rfl, none, token, first, sign⟩
    obtain ⟨rest, whole⟩ := exists_operandText first
    -- A word has no sign in it, so the token is a literal and a digit stands behind its sign.
    obtain ⟨digit, more, literal, isDigit⟩ :
        ∃ c more, token.text.toList = '-' :: c :: more ∧ c.isDigit := by
      rcases spelled token first with word | literal
      · obtain ⟨c, _, begun, inside⟩ := exists_of_isWord word
        cases (by simpa [begun] using sign : c = '-')
        cases inside
      · rcases head_of_literal literal with ⟨c, _, begun, kind⟩ | negative
        · cases (by simpa [begun] using sign : c = '-')
          simp at kind
        · exact negative
    have ends : ∀ c ∈ (digit :: more ++ rest).head?, growsBy "--" c = false := by
      rintro c ⟨⟩
      exact growsBy_eq_false (.inl (isWordChar_of_isDigit isDigit))
    rw [none, whole, literal]
    exact lex_sign (s := "--") (by decide) ends

/-- A subscript of a negative literal, once complemented and once negated. -/
theorem lex_prefixed_of_subscript :
    let e : Expr := .index (.literal (.ofSpelling "-3")) (.ident (.ofSpelling "i"))
    (∀ token ∈ e.firstToken?, isWord token.text ∨ TokenKind.ofSpelling token.text = .literal) ∧
      lex ((unary .bitNot e).render .plain).toList = .sign "~" :: lex "-3[i]".toList ∧
      lex ((unary .neg e).render .plain).toList = .sign "--" :: lex "3[i]".toList := by
  intro e
  have spelled : ∀ token ∈ e.firstToken?,
      isWord token.text ∨ TokenKind.ofSpelling token.text = .literal := by
    rintro token ⟨⟩
    exact .inr rfl
  have text : (operandText e).toList = "-3[i]".toList := by decide +kernel
  have complement : lex ((unary .bitNot e).render .plain).toList =
      .sign "~" :: lex (operandText e).toList := (lex_prefixed rfl spelled).1 nofun
  have negation : lex ((unary .neg e).render .plain).toList =
      .sign "--" :: lex (operandText e).toList.tail :=
    (lex_prefixed rfl spelled).2 ⟨rfl, rfl, _, rfl, rfl⟩
  rw [text] at complement negation
  exact ⟨spelled, complement, negation⟩

/-- The negation of a negative literal is printed as a decrement. -/
theorem not_lex_prefixed :
    ¬ ∀ (op : UnaryOp) (text : String), op.isPostfix = false →
      TokenKind.ofSpelling text = .literal →
      (lex ((unary op (.literal (.ofSpelling text))).render .plain).toList).head? =
        some (.sign op.symbol) := by
  intro apart
  have text : ((unary .neg (.literal (.ofSpelling "-3"))).render .plain).toList =
      "--".toList ++ ("3".toList ++ []) := by decide +kernel
  have first := apart .neg "-3" rfl rfl
  rw [text, lex_sign (by decide) (growsBy_word (by decide))] at first
  revert first
  decide

end KernelTree.Expr
