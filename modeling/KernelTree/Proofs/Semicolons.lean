import KernelTree.Dialect.Builtin
import KernelTree.Proofs.Statement.Tokens
import KernelTree.Proofs.Text
import KernelTree.Proofs.Text.Braces
/-! Semicolons in printed texts. The printer writes none inside an expression, and in a declaration
it writes one between neighbours of different base types. All others come from names. -/
namespace KernelTree

namespace Text

/-- No semicolon is in the text. -/
def Unbroken (s : String) : Prop := ';' ∉ s.toList

instance (s : String) : Decidable (Unbroken s) := inferInstanceAs (Decidable (';' ∉ s.toList))

variable {s u : String} {texts : List String}

@[simp] theorem unbroken_append : Unbroken (s ++ u) ↔ Unbroken s ∧ Unbroken u := by
  simp [Unbroken]

@[simp] theorem unbroken_join : Unbroken (String.join texts) ↔ ∀ s ∈ texts, Unbroken s := by
  induction texts with
  | nil => simp [Unbroken]
  | cons s rest ih => rw [String.join_cons, unbroken_append, ih, List.forall_mem_cons]

theorem unbroken_intercalate (separator : Unbroken u) :
    Unbroken (u.intercalate texts) ↔ ∀ s ∈ texts, Unbroken s := by
  induction texts with
  | nil => simp [Unbroken]
  | cons s rest ih =>
    cases rest with
    | nil => simp
    | cons s' rest =>
      rw [String.intercalate_cons_cons, unbroken_append, unbroken_append, ih, List.forall_mem_cons]
      simp [separator]

theorem Unbroken.trimEnd (h : Unbroken s) : Unbroken (trimEnd s) := by
  obtain ⟨blanks, text, -⟩ := exists_trimEnd s
  exact fun inside => h (text ▸ List.mem_append_left _ inside)

theorem unbroken_pushn {c : Char} (other : c ≠ ';') (n : Nat) : Unbroken ("".pushn c n) := by
  simp [Unbroken, toList_pushn, Ne.symm other]

end Text

open Text Terminal

/-- The words of the spelling bring no semicolon that is not in the names. -/
structure Spelling.Separates (sp : Spelling) : Prop where
  identifier : ∀ name, Unbroken name → Unbroken (sp.identifier name)
  typeName : ∀ name, Unbroken (sp.typeName name) ↔ Unbroken name
  word : ∀ q, ∀ w ∈ sp.word? q, Unbroken w

variable {sp : Spelling} (separates : sp.Separates)

namespace TypeSpec

variable {t : TypeSpec}
include separates

theorem unbroken_words {p : Qualifier → Bool} :
    ∀ w ∈ (t.qualifiers.filter p).filterMap sp.word?, Unbroken w := by
  intro w written
  obtain ⟨q, -, word⟩ := List.mem_filterMap.mp written
  exact separates.word q w word

theorem unbroken_renderBase : Unbroken (t.renderBase sp) ↔ Unbroken t.name := by
  rw [renderBase, unbroken_intercalate (by decide), List.forall_mem_append,
    List.forall_mem_singleton, and_iff_right (unbroken_words separates), separates.typeName]

theorem unbroken_renderStars : Unbroken (t.renderStars sp) := by
  unfold renderStars
  split
  · exact by decide
  · rw [unbroken_append, unbroken_join, List.forall_mem_map]
    refine ⟨unbroken_pushn (by decide) _, fun w written => ?_⟩
    exact unbroken_append.mpr ⟨unbroken_words separates w written, by decide⟩

theorem unbroken_render : Unbroken (t.render sp) ↔ Unbroken t.name := by
  have base := unbroken_renderBase separates (t := t)
  have stars := (unbroken_renderStars separates (t := t)).trimEnd
  simp only [render]
  split
  · exact base
  · rw [unbroken_append, unbroken_append, base]
    exact ⟨fun whole => whole.1.1, fun name => ⟨⟨name, by decide⟩, stars⟩⟩

end TypeSpec

namespace Expr

@[simp] theorem unbroken_enclose {parens : Bool} {text : String} :
    Unbroken (enclose parens text) ↔ Unbroken text := by
  cases parens with
  | false => rfl
  | true =>
    rw [enclose, if_pos rfl, unbroken_append, unbroken_append]
    exact ⟨fun whole => whole.1.2, fun inner => ⟨⟨by decide, inner⟩, by decide⟩⟩

theorem unbroken_separator (op : UnaryOp) (operand : Expr) :
    Unbroken (separator op operand) := by
  rcases separator_eq op operand with none | blank
  · rw [none]
    decide
  · rw [blank]
    decide

include separates

/-- Behind tokens without semicolons, all semicolons of an expression are those of its casts. -/
theorem unbroken_render {e : Expr}
    (clean : AllTokens (fun token => Unbroken token.text) e.terminals) :
    Unbroken (e.render sp) ↔ AllTypes (fun type => Unbroken type.name) e.terminals := by
  have items {es : List Expr}
      (each : ∀ e ∈ es, AllTokens (fun token => Unbroken token.text) e.terminals →
        (Unbroken (e.render sp) ↔ AllTypes (fun type => Unbroken type.name) e.terminals))
      (clean : ∀ e ∈ es, AllTokens (fun token => Unbroken token.text) e.terminals) :
      Unbroken (", ".intercalate (renderAll sp es)) ↔
        ∀ e ∈ es, AllTypes (fun type => Unbroken type.name) e.terminals := by
    rw [unbroken_intercalate (by decide), renderAll_eq_map, List.forall_mem_map]
    exact forall₂_congr fun e inside => each e inside (clean e inside)
  induction e with
  | ident name =>
    simp only [terminals, allTokens_cons_token, allTokens_nil, and_true] at clean
    simp [render, terminals, separates.identifier _ clean]
  | literal text =>
    simp only [terminals, allTokens_cons_token, allTokens_nil, and_true] at clean
    simp [render, terminals, clean]
  | unary op operand ih =>
    have symbol : Unbroken op.symbol := by cases op <;> decide
    rw [terminals] at clean
    rw [render, terminals]
    refine .trans ?_ (ih clean)
    split <;> simp [symbol, unbroken_separator]
  | binary op lhs rhs left right =>
    have symbol : Unbroken op.symbol := by cases op <;> decide
    have blank : Unbroken " " := by decide
    rw [terminals, allTokens_append] at clean
    rw [render, terminals, allTypes_append]
    refine .trans ?_ (and_congr (left clean.1) (right clean.2))
    simp [symbol, blank]
  | ternary condition consequent alternative first second third =>
    have question : Unbroken " ? " := by decide
    have colon : Unbroken " : " := by decide
    rw [terminals, allTokens_append, allTokens_append] at clean
    rw [render, terminals, allTypes_append, allTypes_append]
    refine .trans ?_ (and_congr (and_congr (first clean.1.1) (second clean.1.2)) (third clean.2))
    simp [question, colon]
  | call callee args ih each =>
    have opening : Unbroken "(" := by decide
    have closing : Unbroken ")" := by decide
    rw [terminals, terminalsAll_eq_flatMap, allTokens_append, allTokens_flatMap] at clean
    rw [render, terminals, terminalsAll_eq_flatMap, allTypes_append, allTypes_flatMap]
    refine .trans ?_ (and_congr (ih clean.1) (items each clean.2))
    simp [opening, closing]
  | index base subscript outer inner =>
    have opening : Unbroken "[" := by decide
    have closing : Unbroken "]" := by decide
    rw [terminals, allTokens_append] at clean
    rw [render, terminals, allTypes_append]
    refine .trans ?_ (and_congr (outer clean.1) (inner clean.2))
    simp [opening, closing]
  | member base field arrow ih =>
    have link : Unbroken (if arrow then "->" else ".") := by cases arrow <;> decide
    simp only [terminals, allTokens_append, allTokens_cons_token, allTokens_nil, and_true] at clean
    simp only [render, terminals, allTypes_append, allTypes_cons_token, allTypes_nil, and_true]
    refine .trans ?_ (ih clean.1)
    simp [link, clean.2]
  | cast type operand ih =>
    have opening : Unbroken "(" := by decide
    have closing : Unbroken ")" := by decide
    rw [terminals, allTokens_cons_type] at clean
    rw [render, terminals, allTypes_cons_type]
    refine .trans ?_ (and_congr (TypeSpec.unbroken_render separates) (ih clean))
    simp [opening, closing]
  | list es each =>
    have opening : Unbroken "\x7b" := by decide
    have closing : Unbroken "\x7d" := by decide
    rw [terminals, terminalsAll_eq_flatMap, allTokens_flatMap] at clean
    rw [render, terminals, terminalsAll_eq_flatMap, allTypes_flatMap]
    refine .trans ?_ (items each clean)
    simp [opening, closing]

end Expr

namespace VarDecl

variable {v : VarDecl} {vars : List VarDecl} {base : String}

/-- All entries are written behind one base type. -/
def OneBase (sp : Spelling) (vars : List VarDecl) : Prop :=
  ∀ v ∈ vars, ∀ w ∈ vars, v.type.renderBase sp = w.type.renderBase sp

instance : Decidable (OneBase sp vars) :=
  inferInstanceAs (Decidable (∀ v ∈ vars, ∀ w ∈ vars, _))

include separates

theorem unbroken_renderTail (clean : AllTokens (fun token => Unbroken token.text) v.terminals) :
    Unbroken (v.renderTail sp) ↔
      ∀ e ∈ v.dims ++ v.init.toList, AllTypes (fun type => Unbroken type.name) e.terminals := by
  simp only [terminals, allTokens_cons_type, allTokens_cons_token, allTokens_flatMap] at clean
  obtain ⟨name, parts⟩ := clean
  have part (e : Expr) (inside : e ∈ v.dims ++ v.init.toList) :=
    Expr.unbroken_render separates (parts e inside)
  have dims : Unbroken (renderDims sp v.dims) ↔
      ∀ e ∈ v.dims, AllTypes (fun type => Unbroken type.name) e.terminals := by
    have opening : Unbroken "[" := by decide
    have closing : Unbroken "]" := by decide
    rw [renderDims, unbroken_join, List.forall_mem_map]
    refine forall₂_congr fun e inside => .trans ?_ (part e (List.mem_append_left _ inside))
    simp [opening, closing]
  have front : Unbroken (v.type.renderStars sp) ∧ Unbroken (sp.identifier v.name.text) :=
    ⟨TypeSpec.unbroken_renderStars separates, separates.identifier _ name⟩
  rw [renderTail, unbroken_append, unbroken_append, unbroken_append, and_iff_right front,
    List.forall_mem_append]
  refine and_congr dims ?_
  cases written : v.init with
  | none => simpa using (by decide : Unbroken "")
  | some value =>
    have equals : Unbroken " = " := by decide
    have value := part value (by simp [written])
    simpa [equals] using value

omit separates in
theorem unbroken_renderRest : Unbroken (renderRest sp base vars) ↔
    ∀ v ∈ vars, v.type.renderBase sp = base ∧ Unbroken (v.renderTail sp) := by
  induction vars generalizing base with
  | nil => simpa [renderRest] using (by decide : Unbroken "")
  | cons v rest ih =>
    have comma : Unbroken ", " := by decide
    have semicolon : ¬ Unbroken "; " := by decide
    rw [renderRest, List.forall_mem_cons]
    by_cases same : v.type.renderBase sp = base
    · simp [same, comma, ih]
    · simp [same, semicolon]

/-- Behind tokens without semicolons, a declaration is free of them exactly if it has one base type
and no type name brings one. -/
theorem unbroken_renderGroup
    (clean : ∀ v ∈ vars, AllTokens (fun token => Unbroken token.text) v.terminals) :
    Unbroken (renderGroup sp vars) ↔
      OneBase sp vars ∧ ∀ v ∈ vars, AllTypes (fun type => Unbroken type.name) v.terminals := by
  cases vars with
  | nil => simpa [renderGroup, OneBase] using (by decide : Unbroken "")
  | cons v rest =>
    have whole (w : VarDecl) (inside : w ∈ v :: rest) :
        AllTypes (fun type => Unbroken type.name) w.terminals ↔
          Unbroken (w.type.renderBase sp) ∧ Unbroken (w.renderTail sp) := by
      rw [terminals, allTypes_cons_type, allTypes_cons_token, allTypes_flatMap,
        TypeSpec.unbroken_renderBase separates, unbroken_renderTail separates (clean w inside)]
    rw [renderGroup, render, unbroken_append, unbroken_append, unbroken_append,
      unbroken_renderRest]
    constructor
    · rintro ⟨⟨⟨base, -⟩, tail⟩, others⟩
      have same : ∀ w ∈ v :: rest, w.type.renderBase sp = v.type.renderBase sp :=
        List.forall_mem_cons.mpr ⟨rfl, fun w later => (others w later).1⟩
      have tails : ∀ w ∈ v :: rest, Unbroken (w.renderTail sp) :=
        List.forall_mem_cons.mpr ⟨tail, fun w later => (others w later).2⟩
      refine ⟨fun w inside u inside' => (same w inside).trans (same u inside').symm, ?_⟩
      exact fun w inside => (whole w inside).mpr ⟨same w inside ▸ base, tails w inside⟩
    · rintro ⟨one, each⟩
      have first : v ∈ v :: rest := List.mem_cons_self
      obtain ⟨base, tail⟩ := (whole v first).mp (each v first)
      refine ⟨⟨⟨base, by decide⟩, tail⟩, fun w later => ?_⟩
      have inside : w ∈ v :: rest := .tail _ later
      exact ⟨one w inside v first, ((whole w inside).mp (each w inside)).2⟩

end VarDecl

/-! The languages known by name. -/

namespace Dialect

/-- The names of the barrier and of the coordinates, which the languages respell. -/
def respelled : List String :=
  "barrier" :: Coordinate.all.flatMap fun c =>
    Coordinate.axes.map fun (number, _) => c.name ++ toString number

variable {d : Dialect} {name : String}

theorem mapCoordinate_of_not_mem (other : name ∉ respelled)
    (spell : Coordinate → Nat → String → String) : mapCoordinate spell name = name := by
  have unknown : Coordinate.ofName? name = none := by
    refine List.findSome?_eq_none_iff.mpr fun c family => List.findSome?_eq_none_iff.mpr ?_
    refine fun axis inside => if_neg fun same => other (.tail _ ?_)
    exact List.mem_flatMap.mpr ⟨c, family, List.mem_map.mpr ⟨axis, inside, same.symm⟩⟩
  rw [mapCoordinate, unknown]

/-- All other names stay as they are. -/
theorem identifier_of_builtin (builtin : d ∈ builtins) (other : name ∉ respelled) :
    d.identifier name = name := by
  have notBarrier : name ≠ "barrier" := fun same => other (same ▸ List.mem_cons_self)
  have same := mapCoordinate_of_not_mem other
  simp only [builtins, List.mem_cons, List.not_mem_nil, or_false] at builtin
  rcases builtin with rfl | rfl | rfl | rfl
  case inr.inl => exact (if_neg notBarrier).trans (same _)
  all_goals exact same _

/-- What is true of a name stays true when it is spelled, if it is true of all that is respelled. -/
theorem identifier_keeps {p : String → Prop} (builtin : d ∈ builtins)
    (each : ∀ d ∈ builtins, ∀ name ∈ respelled, p (d.identifier name)) (plain : p name) :
    p (d.identifier name) := by
  by_cases known : name ∈ respelled
  · exact each d builtin name known
  · rwa [identifier_of_builtin builtin known]

theorem separates_of_builtin (builtin : d ∈ builtins) : d.toSpelling.Separates := by
  have words : ∀ d ∈ builtins, ∀ q ∈ Qualifier.all, ∀ w ∈ d.word? q, Unbroken w := by
    decide +kernel
  have typeName : d.typeName = id := by
    simp only [builtins, List.mem_cons, List.not_mem_nil, or_false] at builtin
    rcases builtin with rfl | rfl | rfl | rfl <;> rfl
  refine ⟨fun name => identifier_keeps builtin (by decide +kernel),
    fun name => by rw [typeName, id], fun q => ?_⟩
  exact words d builtin q (by cases q <;> decide)

end Dialect
end KernelTree
