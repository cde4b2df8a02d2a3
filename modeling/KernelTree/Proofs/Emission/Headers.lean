import KernelTree.Proofs.Emission.Shown
import KernelTree.Proofs.Semicolons
import KernelTree.Proofs.Statement.Places
/-! Semicolons in headers. Two of them separate the parts of a `for`. Any other comes out of a
statement that stands in the header: a declaration whose entries do not share their base type is
written there as several. -/
namespace KernelTree

open Text Terminal

/-- The entries of a declaration. -/
def Stmt.vars : Stmt → List VarDecl
  | declaration vars => vars
  | _ => []

/-- The three parts of the header of a `for`. -/
def Stmt.parts? : Stmt → Option (Option StmtId × Option StmtId × Option StmtId)
  | forLoop init test update _ => some (init, test, update)
  | _ => none

/-- The statement has a text of its own in a header. -/
def Tree.Inline (t : Tree) (x : StmtId) : Prop :=
  t.kind? x = some .expression ∨ t.kind? x = some .declaration

/-- No semicolon is written in the middle of the statement: what it declares shares one base type,
and no type has a semicolon in its name. -/
def Tree.Seamless (t : Tree) (d : Dialect) (x : StmtId) : Prop :=
  ∀ s ∈ t.stmt? x, VarDecl.OneBase d.toSpelling s.vars ∧
    AllTypes (fun type => Unbroken type.name) s.terminals

instance {t : Tree} {x : StmtId} : Decidable (t.Inline x) :=
  inferInstanceAs (Decidable (_ ∨ _))

instance {t : Tree} {d : Dialect} {x : StmtId} : Decidable (t.Seamless d x) :=
  inferInstanceAs (Decidable (∀ s ∈ t.stmt? x, _))

theorem Stmt.mem_header_of_condition? {s : Stmt} {c : StmtId} (held : s.condition? = some c) :
    c ∈ s.header := by
  cases s <;> simp_all [condition?, header, slots]

namespace Emission

variable {admitted : Stmt → Prop} {t : Tree} {d : Dialect} {r x c : StmtId} {s : Stmt}
  {init test update : String}

theorem unbroken_inlineText (separates : d.toSpelling.Separates) (fits : t.Inline x)
    (clean : ∀ s ∈ t.stmt? x, AllTokens (fun token => Unbroken token.text) s.terminals) :
    Unbroken (inlineText t d x) ↔ t.Seamless d x := by
  obtain ⟨node, there⟩ : ∃ node, t.get? x = some node := by
    rcases fits with kind | kind <;> exact Option.isSome_iff_exists.mp (Tree.contains_of_kind? kind)
  obtain ⟨_, _, s⟩ := node
  have found : t.stmt? x = some s := Tree.stmt?_of_get? there
  have clean := clean s found
  have kind : s.kind = .expression ∨ s.kind = .declaration := by
    simpa [Tree.Inline, Tree.kind?_of_stmt? found] using fits
  have seamless : t.Seamless d x ↔ VarDecl.OneBase d.toSpelling s.vars ∧
      AllTypes (fun type => Unbroken type.name) s.terminals := by
    simp [Tree.Seamless, found]
  rw [seamless]
  cases s
  case expression value =>
    have alone : VarDecl.OneBase d.toSpelling (Stmt.expression value).vars := nofun
    rw [inlineText, there, and_iff_right alone]
    exact Expr.unbroken_render separates clean
  case declaration vars =>
    rw [Stmt.terminals, allTokens_flatMap] at clean
    rw [inlineText, there, Stmt.terminals, allTypes_flatMap]
    exact VarDecl.unbroken_renderGroup separates clean
  all_goals simp [Stmt.kind] at kind

/-- A part of a `for` header behind its semicolon. -/
def spaced (text : String) : String := if text = "" then "" else " " ++ text

theorem unbroken_spaced (text : String) : Unbroken (spaced text) ↔ Unbroken text := by
  unfold spaced
  split
  next empty => rw [empty]
  next =>
    have blank : Unbroken " " := by decide
    rw [unbroken_append, and_iff_right blank]

theorem toList_forHeader (init test update : String) : (forHeader init test update).toList =
    [';'].intercalate [("for (" ++ init).toList, (spaced test).toList,
      (spaced update ++ ")").toList] := by
  simp [forHeader, spaced, List.intercalate]

/-- The two semicolons of the header are the only ones exactly if its parts have none. -/
theorem count_forHeader : (forHeader init test update).toList.count ';' = 2 ↔
    Unbroken init ∧ Unbroken test ∧ Unbroken update := by
  have counted : (forHeader init test update).toList.count ';' =
      init.toList.count ';' + (spaced test).toList.count ';' +
        (spaced update).toList.count ';' + 2 := by
    rw [toList_forHeader]
    simp [List.intercalate]
    omega
  rw [counted, ← unbroken_spaced test, ← unbroken_spaced update]
  simp only [Unbroken, ← List.count_eq_zero]
  omega

theorem splitOn_forHeader (first : Unbroken init) (second : Unbroken test)
    (third : Unbroken update) : (forHeader init test update).toList.splitOn ';' =
      [("for (" ++ init).toList, (spaced test).toList, (spaced update ++ ")").toList] := by
  have front : Unbroken ("for (" ++ init) := unbroken_append.mpr ⟨by decide, first⟩
  have back : Unbroken (spaced update ++ ")") :=
    unbroken_append.mpr ⟨(unbroken_spaced update).mpr third, by decide⟩
  rw [toList_forHeader]
  refine List.splitOn_intercalate _ ?_ (List.cons_ne_nil _ _)
  simp only [List.forall_mem_cons, List.not_mem_nil, false_implies, implies_true, and_true]
  exact ⟨front, (unbroken_spaced test).mpr second, back⟩

/-- A keyword and an opening parenthesis stand before a condition. Behind it the parenthesis is
closed, and a loop whose body comes first ends there. -/
theorem exists_heading?_of_condition? (text : StmtId → String) (held : s.condition? = some c) :
    ∃ front ∈ ["if (", "else if (", "while (", "switch ("], ∃ back ∈ [")", ");"],
      s.heading? text = some (front ++ text c ++ back) := by
  cases s
  case conditional =>
    cases held
    exact ⟨"if (", by simp, ")", by simp, rfl⟩
  case elif =>
    cases held
    exact ⟨"else if (", by simp, ")", by simp, rfl⟩
  case whileLoop condition body bodyFirst =>
    cases held
    refine ⟨"while (", by simp, ?_⟩
    cases bodyFirst
    · exact ⟨")", by simp, rfl⟩
    · exact ⟨");", by simp, congrArg some String.append_assoc⟩
  case switch =>
    cases held
    exact ⟨"switch (", by simp, ")", by simp, rfl⟩
  all_goals cases held

open Stmt.heading? (part)

theorem heading?_of_parts? {slots : Option StmtId × Option StmtId × Option StmtId}
    (text : StmtId → String) (parts : s.parts? = some slots) :
    s.heading? text =
        some (forHeader (part text slots.1) (part text slots.2.1) (part text slots.2.2)) ∧
      s.header = slots.1.toList ++ slots.2.1.toList ++ slots.2.2.toList := by
  cases s
  case forLoop =>
    cases parts
    exact ⟨rfl, rfl⟩
  all_goals cases parts

/-- The header of a shown statement is in one line of its own. That of a `for` falls at its
semicolons into its three parts, exactly if what stands in it is written without any; a condition
in parentheses is free of them under the same terms. -/
theorem header_parts (reachable : Tree.Reachable admitted t) (builtin : d ∈ Dialect.builtins)
    (shown : t.Shown r x) (found : t.stmt? x = some s) (inline : ∀ y ∈ s.header, t.Inline y)
    (clean : ∀ y ∈ s.header, ∀ u ∈ t.stmt? y,
      AllTokens (fun token => Unbroken token.text) u.terminals) :
    emit t r d = Row.texts d.style (rows reachable.rooted.toLinked d .alone 0 r) ∧
    (∀ header, s.heading? (inlineText t d) = some header →
      ∃ row ∈ rows reachable.rooted.toLinked d .alone 0 r, row.id = x ∧ row.Carries header) ∧
    (∀ init test update, s.parts? = some (init, test, update) →
      let text := part (inlineText t d)
      let header := forHeader (text init) (text test) (text update)
      s.heading? (inlineText t d) = some header ∧
      (header.toList.count ';' = 2 ↔ ∀ y ∈ s.header, t.Seamless d y) ∧
      ((∀ y ∈ s.header, t.Seamless d y) → header.toList.splitOn ';' =
        [("for (" ++ text init).toList, (spaced (text test)).toList,
          (spaced (text update) ++ ")").toList])) ∧
    ∀ c, s.condition? = some c →
      (∃ front ∈ ["if (", "else if (", "while (", "switch ("], ∃ back ∈ [")", ");"],
        s.heading? (inlineText t d) = some (front ++ inlineText t d c ++ back)) ∧
      (Unbroken (inlineText t d c) ↔ t.Seamless d c) := by
  have separates := Dialect.separates_of_builtin builtin
  have unbroken (y : StmtId) (inside : y ∈ s.header) :
      Unbroken (inlineText t d y) ↔ t.Seamless d y :=
    unbroken_inlineText separates (inline y inside) (clean y inside)
  refine ⟨emit_eq_texts .., fun header => exists_row_of_heading? shown found, ?_, ?_⟩
  · intro init test update parts text header
    obtain ⟨heading, members⟩ := heading?_of_parts? (inlineText t d) parts
    have slot (o : Option StmtId) (inside : ∀ y ∈ o, y ∈ s.header) :
        Unbroken (text o) ↔ ∀ y ∈ o, t.Seamless d y := by
      cases o with
      | none => simpa [text, part] using (by decide : Unbroken "")
      | some y => simpa [text, part] using unbroken y (inside y rfl)
    have first := slot init fun y inside => by simp_all
    have second := slot test fun y inside => by simp_all
    have third := slot update fun y inside => by simp_all
    have all : (Unbroken (text init) ∧ Unbroken (text test) ∧ Unbroken (text update)) ↔
        ∀ y ∈ s.header, t.Seamless d y := by
      simp [first, second, third, members, or_imp, forall_and]
    refine ⟨heading, count_forHeader.trans all, fun seamless => ?_⟩
    obtain ⟨first, second, third⟩ := all.mpr seamless
    exact splitOn_forHeader first second third
  · exact fun c held => ⟨exists_heading?_of_condition? (inlineText t d) held,
      unbroken c (Stmt.mem_header_of_condition? held)⟩

/-- A loop with two counters of one base type, and a switch on a new variable. -/
theorem header_parts_of_counters :
    let var (name : String) (pointers : UInt8) : VarDecl :=
      { name := ⟨.identifier, name, .none⟩, type := { name := "int", pointers } }
    let calls : List Tree.Change := [
      .add (.declaration [var "i" 0, var "j" 1]) .none, .addExpr (.ident ⟨.identifier, "n", .none⟩),
      .push Tree.root (.forLoop (some ⟨1⟩) (some ⟨2⟩) none .empty),
      .add (.declaration [var "k" 0]) .none, .push Tree.root (.switch ⟨4⟩ .empty)]
    let t := Tree.initial.run calls
    ∃ reachable : Tree.Reachable (fun _ => True) t,
      let lines := rows reachable.rooted.toLinked .cuda .alone 0 Tree.root
      emit t Tree.root .cuda = Row.texts Dialect.cuda.style lines ∧
      (∃ row ∈ lines, row.id = ⟨3⟩ ∧ row.Carries "for (int i, *j; n;)") ∧
      "for (int i, *j; n;)".toList.splitOn ';' =
        ["for (int i, *j".toList, " n".toList, ")".toList] ∧
      ∃ row ∈ lines, row.id = ⟨5⟩ ∧ row.Carries "switch (int k)" := by
  intro var calls t
  have h : Tree.Reachable (fun _ => True) t := Tree.Reachable.initial.run fun _ _ _ _ => trivial
  have root : (t.stmt? Tree.root).map (·.children) = some [⟨3⟩, ⟨5⟩] := by decide +kernel
  have loop : (t.stmt? ⟨3⟩).any (·.parts? = some (some ⟨1⟩, some ⟨2⟩, none)) := by decide +kernel
  have choice : (t.stmt? ⟨5⟩).any fun s => s.kind = .switch ∧ s.header = [⟨4⟩] := by decide +kernel
  have fits : ∀ y ∈ [⟨1⟩, ⟨2⟩] ++ [⟨4⟩], t.Inline y ∧
      ∀ u ∈ t.stmt? y, AllTokens (fun token => Unbroken token.text) u.terminals := by decide +kernel
  have seamless : ∀ y ∈ [⟨1⟩, ⟨2⟩], t.Seamless .cuda y := by decide +kernel
  have init : inlineText t .cuda ⟨1⟩ = "int i, *j" := by decide +kernel
  have test : inlineText t .cuda ⟨2⟩ = "n" := by decide +kernel
  have value : inlineText t .cuda ⟨4⟩ = "int k" := by decide +kernel
  obtain ⟨block, root, children⟩ := Option.map_eq_some_iff.mp root
  obtain ⟨s, loop, slots⟩ := (Option.any_eq_true ..).mp loop
  obtain ⟨s', choice, form⟩ := (Option.any_eq_true ..).mp choice
  simp only [decide_eq_true_eq] at slots form
  obtain ⟨kind, members'⟩ := form
  have cuda : Dialect.cuda ∈ Dialect.builtins := by simp [Dialect.builtins]
  have shown (x : StmtId) (child : x ∈ [⟨3⟩, ⟨5⟩]) : t.Shown Tree.root x :=
    .single ⟨block, root, List.mem_append_left _ (children ▸ child)⟩
  have members : s.header = [⟨1⟩, ⟨2⟩] := (heading?_of_parts? (inlineText t .cuda) slots).2
  have inLoop (y : StmtId) (inside : y ∈ s.header) :=
    fits y (List.mem_append_left _ (members ▸ inside))
  have inChoice (y : StmtId) (inside : y ∈ s'.header) :=
    fits y (List.mem_append_right _ (members' ▸ inside))
  obtain ⟨printed, row, parts, -⟩ := header_parts h cuda (shown ⟨3⟩ (by simp)) loop
    (fun y inside => (inLoop y inside).1) (fun y inside => (inLoop y inside).2)
  obtain ⟨-, row', -, -⟩ := header_parts h cuda (shown ⟨5⟩ (by simp)) choice
    (fun y inside => (inChoice y inside).1) (fun y inside => (inChoice y inside).2)
  obtain ⟨heading, -, split⟩ := parts _ _ _ slots
  simp only [part, Option.map_some, Option.map_none, Option.getD_some, Option.getD_none, init,
    test] at heading split
  refine ⟨h, printed, row _ heading, split (members ▸ seamless), row' _ ?_⟩
  cases s'
  case switch =>
    cases members'
    rw [Stmt.heading?, Stmt.heading?.headed, value]
    rfl
  all_goals cases kind

/-- Two counters of different types are written as two declarations, which is one part too many for
the header. -/
theorem not_header_parts :
    ¬ ∀ (t : Tree), Tree.Reachable (fun _ => True) t → ∀ d ∈ Dialect.builtins,
      ∀ x s init test update, t.stmt? x = some s → s.parts? = some (init, test, update) →
        (∀ y ∈ init, t.Inline y) →
        (∀ y ∈ test.toList ++ update.toList, t.kind? y = some .expression) →
        (∀ y u, t.stmt? y = some u → AllTokens (fun token => Unbroken token.text) u.terminals) →
        ∀ line ∈ (emit t x d).toList.splitOn '\n', "for (".toList <+: line →
          line.count ';' = 2 := by
  intro separated
  let var (name type : String) : VarDecl :=
    { name := ⟨.identifier, name, .none⟩, type := { name := type } }
  let t := Tree.initial.run [
    .add (.declaration [var "i" "int", var "x" "float"]) .none,
    .push Tree.root (.forLoop (some ⟨1⟩) none none .empty)]
  have h : Tree.Reachable (fun _ => True) t := Tree.Reachable.initial.run fun _ _ _ _ => trivial
  have cuda : Dialect.cuda ∈ Dialect.builtins := by simp [Dialect.builtins]
  have loop : (t.stmt? ⟨2⟩).any fun s =>
      s.parts? = some (some ⟨1⟩, none, none) ∧ s.children = [] := by decide +kernel
  obtain ⟨s, loop, form⟩ := (Option.any_eq_true ..).mp loop
  simp only [decide_eq_true_eq] at form
  obtain ⟨slots, childless⟩ := form
  have clean : ∀ i < t.slots.size, ∀ u ∈ t.stmt? ⟨i⟩,
      AllTokens (fun token => Unbroken token.text) u.terminals := by decide +kernel
  have init : inlineText t .cuda ⟨1⟩ = "int i; float x" := by decide +kernel
  have style : Dialect.cuda.style = { indent := "  " } := by decide
  have printed : emit t ⟨2⟩ .cuda = "for (int i; float x;;) \x7b\n\x7d\n" := by
    cases s
    case forLoop =>
      cases slots
      simp [emit_eq_texts h.rooted.toLinked, rows_of_stmt? loop, shape, shape.part,
        Layout.frame.part, forHeader, Shape.rows, Shape.rows.here, Shape.rows.inside, opened,
        Row.all, Row.text, Layout.line, indentation, childless, style, init]
    all_goals cases slots
  have header : "for (int i; float x;;) \x7b".toList ∈ (emit t ⟨2⟩ .cuda).toList.splitOn '\n' := by
    rw [printed]
    decide
  have count := separated t h .cuda cuda ⟨2⟩ s _ _ _ loop slots (by decide +kernel) (by simp)
    (fun y u found => clean y.index (Tree.index_lt (Tree.contains_of_stmt? found)) u found) _ header
    (by decide)
  revert count
  decide

end Emission
end KernelTree
