import KernelTree.Proofs.Emission.Layout
import KernelTree.Dialect.Builtin
import KernelTree.Proofs.Tree.Reachable
import Mathlib.Data.List.Flatten
/-! The printer prints the layout of a subtree. Each statement adds its text to whatever was printed
before it and leaves the depth as it was, whatever is still to be done. An entry of an if-chain
finds the closing brace of the chain before it, and no other statement looks for one. -/
namespace KernelTree.Emission

open Layout

variable {t : Tree} {d : Dialect} {style : Style} {o o₁ o₂ : Output} {id : StmtId} {s : Stmt}
  {n m : Nat} {ts us : List Task} {header : String}

/-! What the tasks do at a margin that is in step. -/

namespace Output

/-- Adds a text to what has been printed. -/
def write (content : String) (o : Output) : Output := { o with text := o.text ++ content }

@[simp] theorem depth_write (content : String) : (o.write content).depth = o.depth := rfl

@[simp] theorem inStep_write (content : String) :
    (o.write content).InStep style ↔ o.InStep style := Iff.rfl

@[simp] theorem write_write (first second : String) :
    (o.write first).write second = o.write (first ++ second) := by
  simp [write, String.append_assoc]

@[simp] theorem write_empty : o.write "" = o := by simp [write]

theorem InStep.line_eq (h : o.InStep style) (content : String) :
    o.line content = o.write (Layout.line style o.depth content) := by
  rw [line, write, Layout.line, ← h]
  simp only [String.append_assoc]

theorem InStep.outdented_eq (h : o.InStep style) (content : String) :
    o.outdented style content = o.write (Layout.line style (o.depth - 1) content) := by
  rw [outdented, write, Layout.line, ← cutBack_indentation, ← h]
  simp only [String.append_assoc]

theorem InStep.opening_eq (h : o.InStep style) (header : String) :
    o.opening style header = o.write (Layout.opening style o.depth header) := by
  unfold opening Layout.opening
  have step : (o.line header).InStep style := h
  split
  · rw [step.line_eq, h.line_eq, write_write, depth_write]
  · exact h.line_eq _

theorem dedent_write_indent (content : String) :
    ((o.indent style).write content).dedent style = o.write content := by
  simp [indent, write, dedent, cutBack_append]

theorem continuation_of_not_endsWith (fresh : o.text.endsWith "\x7d\n" = false) :
    o.continuation style header = o.opening style header := by
  rw [continuation, fresh, Bool.and_false, if_neg Bool.false_ne_true]

theorem endsWith_brace : (o.write "\x7d\n").text.endsWith "\x7d\n" = true := by
  rw [← String.endsWith_toSlice, String.Slice.endsWith_string_iff]
  simp [write]

theorem dropEnd_newline (content : String) : ((content ++ "\n").dropEnd 1).copy = content := by
  rw [← String.toList_inj, String.toList_copy_dropEnd]
  simp

theorem dropEnd_brace : ((o.write "\x7d\n").text.dropEnd 1).copy = o.text ++ "\x7d" := by
  have ended : (o.write "\x7d\n").text = o.text ++ "\x7d" ++ "\n" := by
    rw [String.append_assoc]
    rfl
  rw [ended, dropEnd_newline]

/-- Behind a closing brace the header of an entry joins its line exactly if the style cuddles. -/
theorem InStep.continuation_eq (h : o.InStep style) (header : String) :
    (o.write "\x7d\n").continuation style header =
      o.write ("\x7d" ++ joining style o.depth header) := by
  have joined (rest : String) :
      { o.write "\x7d\n" with text := o.text ++ "\x7d" ++ " " ++ header ++ rest } =
        o.write ("\x7d" ++ (" " ++ header ++ rest)) := by
    simp only [write, String.append_assoc]
  rw [continuation, endsWith_brace, Bool.and_true, dropEnd_brace, joining]
  cases style.cuddleElse
  · rw [if_neg Bool.false_ne_true, if_neg Bool.false_ne_true,
      ((inStep_write _).mpr h).opening_eq, write_write, depth_write]
    rfl
  · simp only [if_true, joined]
    cases style.braceOnNewLine
    · rfl
    · rw [if_pos rfl, if_pos rfl, ((inStep_write _).mpr h).line_eq, write_write, depth_write]
      simp only [String.append_assoc]

end Output

/-! What pending tasks write. -/

/-- Doing the tasks turns one output into the other, with at most that many statements printed and
with whatever is pending behind them still to be done. -/
def Writes (t : Tree) (d : Dialect) (n : Nat) (ts : List Task) (o o' : Output) : Prop :=
  ∀ visits rest, n ≤ visits → ∃ left, visits ≤ left + n ∧
    Steps t d ⟨visits, ts ++ rest, o⟩ ⟨left, rest, o'⟩

namespace Writes

theorem nil : Writes t d 0 [] o o := fun visits _ _ => ⟨visits, Nat.le_refl _, .refl⟩

theorem append (first : Writes t d n ts o o₁) (second : Writes t d m us o₁ o₂) :
    Writes t d (n + m) (ts ++ us) o o₂ := by
  intro visits rest enough
  obtain ⟨left, spent, steps⟩ := first visits (us ++ rest) (by omega)
  obtain ⟨left', spent', steps'⟩ := second left rest (by omega)
  rw [List.append_assoc]
  exact ⟨left', by omega, steps.trans steps'⟩

theorem mono (h : Writes t d n ts o o₁) (more : n ≤ m) : Writes t d m ts o o₁ := by
  intro visits rest enough
  obtain ⟨left, spent, steps⟩ := h visits rest (by omega)
  exact ⟨left, by omega, steps⟩

theorem task {task : Task} (plain : task.visited? = none) :
    Writes t d 0 [task] o (perform d.style o task) :=
  fun visits _ _ => ⟨visits, Nat.le_refl _, .single (.perform plain)⟩

theorem cons {task : Task} (plain : task.visited? = none)
    (rest : Writes t d n ts (perform d.style o task) o₁) : Writes t d n (task :: ts) o o₁ := by
  simpa using (Writes.task plain).append rest

theorem visit {node : Node} (found : t.get? id = some node)
    (h : Writes t d n (tasks t d id node.stmt) o o₁) : Writes t d (n + 1) [.visit id] o o₁ := by
  intro visits rest enough
  obtain ⟨visits, rfl⟩ := Nat.exists_eq_add_of_le' (Nat.le_of_add_left_le enough)
  obtain ⟨left, spent, steps⟩ := h visits rest (by omega)
  exact ⟨left, by omega, steps.head (.visit found)⟩

end Writes

/-- At every margin that is in step the tasks write a text that depends on the depth only. -/
def WritesAt (t : Tree) (d : Dialect) (n : Nat) (ts : List Task) (f : Nat → String) : Prop :=
  ∀ o : Output, o.InStep d.style → Writes t d n ts o (o.write (f o.depth))

/-- Behind a closing brace the tasks write the rest of an if-chain, up to the end of its last
line. -/
def Continues (t : Tree) (d : Dialect) (n : Nat) (ts : List Task) (f : Nat → String) : Prop :=
  ∀ o : Output, o.InStep d.style →
    Writes t d n ts (o.write "\x7d\n") (o.write ("\x7d" ++ f o.depth ++ "\n"))

variable {f g children : Nat → String} {ids : List StmtId}

namespace WritesAt

theorem append (first : WritesAt t d n ts f) (second : WritesAt t d m us g) :
    WritesAt t d (n + m) (ts ++ us) fun depth => f depth ++ g depth := by
  intro o step
  have whole := (first o step).append (second (o.write (f o.depth)) step)
  rwa [Output.write_write] at whole

theorem mono (h : WritesAt t d n ts f) (more : n ≤ m) : WritesAt t d m ts f :=
  fun o step => (h o step).mono more

theorem congr (h : WritesAt t d n ts f) (same : ∀ depth, f depth = g depth) :
    WritesAt t d n ts g :=
  funext same ▸ h

theorem nil : WritesAt t d 0 [] fun _ => "" := by
  intro o _
  rw [Output.write_empty]
  exact .nil

theorem line (content : String) :
    WritesAt t d 0 [.line content] fun depth => Layout.line d.style depth content := by
  intro o step
  rw [← step.line_eq]
  exact .task rfl

theorem outdented (content : String) :
    WritesAt t d 0 [.outdented content] fun depth => Layout.line d.style (depth - 1) content := by
  intro o step
  rw [← step.outdented_eq]
  exact .task rfl

theorem openBrace (header : String) :
    WritesAt t d 0 (openBrace d.style header) fun depth => Layout.opening d.style depth header := by
  intro o step
  rw [← step.opening_eq, Emission.openBrace, Output.opening]
  split
  · exact .cons rfl (.task rfl)
  · exact .task rfl

/-- Children in braces stand one level deeper, and the closing brace at the level around. -/
theorem enclosed (inside : WritesAt t d n (ids.map .visit) children) (suffix : String) :
    WritesAt t d n (enclosed ids suffix) fun depth =>
      children (depth + 1) ++ Layout.line d.style depth ("\x7d" ++ suffix) := by
  intro o step
  have deeper := inside _ step.indent
  have back : Writes t d 0 [.dedent] ((o.indent d.style).write (children (o.depth + 1))) _ :=
    .task rfl
  have brace := line (t := t) (d := d) ("\x7d" ++ suffix) (o.write (children (o.depth + 1))) step
  rw [perform, Output.dedent_write_indent] at back
  rw [Output.write_write, Output.depth_write] at brace
  exact .cons rfl (deeper.append (back.append brace))

theorem braces (inside : WritesAt t d n (ids.map .visit) children) (header : String) :
    WritesAt t d n (Emission.openBrace d.style header ++ Emission.enclosed ids) fun depth =>
      Layout.opening d.style depth header ++ children (depth + 1) ++
        Layout.line d.style depth "\x7d" := by
  have whole := (openBrace header).append (inside.enclosed "")
  rw [Nat.zero_add] at whole
  exact whole.congr fun depth => String.append_assoc.symm

/-- The line of a closing brace goes on with the rest of the chain. -/
theorem chained (first : WritesAt t d n ts fun depth => f depth ++ Layout.line d.style depth "\x7d")
    (rest : Continues t d m us g) : WritesAt t d (n + m) (ts ++ us) fun depth =>
      f depth ++ closing d.style depth ++ g depth ++ "\n" := by
  intro o step
  have before : Writes t d n ts o (o.write (f o.depth ++ Layout.line d.style o.depth "\x7d")) :=
    first o step
  have behind := rest (o.write (f o.depth ++ indentation d.style o.depth)) step
  rw [Output.write_write, Output.write_write, Output.depth_write] at behind
  have same : f o.depth ++ Layout.line d.style o.depth "\x7d" =
      f o.depth ++ indentation d.style o.depth ++ "\x7d\n" := by
    rw [Layout.line, String.append_assoc, String.append_assoc]
    rfl
  rw [same] at before
  have whole := before.append behind
  simpa only [closing, String.append_assoc] using whole

end WritesAt

/-- An entry takes up the chain at a closing brace and leaves it at its own. -/
theorem continues_entry (inside : WritesAt t d n (ids.map .visit) children) (header : String) :
    Continues t d n (.continuation header :: enclosed ids) fun depth =>
      joining d.style depth header ++ children (depth + 1) ++ closing d.style depth := by
  intro o step
  have body := inside.enclosed "" (o.write ("\x7d" ++ joining d.style o.depth header)) step
  apply Writes.cons rfl
  rw [perform, step.continuation_eq]
  simpa [closing, Layout.line, String.append_assoc] using body

/-- What a statement asks for writes its text, if its children write theirs and, behind the closing
brace of a conditional, the entries of its chain write theirs. -/
theorem writes_frame (id : StmtId) {entries : Nat → String}
    (plain : s.kind.isChainEntry = false)
    (inside : WritesAt t d n (s.children.map .visit) children)
    (chain : Continues t d m (s.chain.map .visit) entries) :
    WritesAt t d (n + m) (tasks t d id s) fun depth =>
      frame t d .alone depth id children (entries depth) s := by
  have braces (header : String) := (inside.braces header).mono (Nat.le_add_right n m)
  have line (content : String) :=
    (WritesAt.line (t := t) (d := d) content).mono (Nat.zero_le (n + m))
  have outdented (content : String) :=
    (WritesAt.outdented (t := t) (d := d) content).mono (Nat.zero_le (n + m))
  cases s
  case block body =>
    by_cases isRoot : id = Tree.root
    · simp only [tasks, frame, if_pos isRoot]
      exact inside.mono (Nat.le_add_right n m)
    · have whole := (WritesAt.line "\x7b").append (inside.enclosed "")
      simp only [tasks, frame, if_neg isRoot]
      exact (whole.mono (by omega)).congr fun depth => String.append_assoc.symm
  case pragma token =>
    simp only [tasks, frame]
    cases d.pragma token.text with
    | none => exact WritesAt.nil.mono (Nat.zero_le _)
    | some text => exact line _
  case namespaceBlock name body =>
    simp only [tasks, frame]
    cases d.namespaces
    · exact inside.mono (Nat.le_add_right n m)
    · exact braces _
  case conditional condition body elifs last =>
    exact (inside.braces _).chained chain
  case whileLoop condition body bodyFirst =>
    cases bodyFirst
    · exact braces _
    · simp only [tasks, frame]
      split
      · have whole := (inside.braces "do").append
          (WritesAt.line (tasks.headed t d "while" condition ++ ";"))
        simp only [List.append_assoc, String.append_assoc] at whole ⊢
        exact whole.mono (Nat.le_add_right n m)
      · have whole := (WritesAt.openBrace "do").append
          (inside.enclosed (" " ++ (tasks.headed t d "while" condition ++ ";")))
        simp only [String.append_assoc] at whole ⊢
        exact whole.mono (by omega)
  case returnJump value => cases value <;> exact line _
  case elif => cases plain
  case otherwise => cases plain
  case function | forLoop | switch => exact braces _
  case access | label | caseLabel | defaultLabel => exact outdented _
  all_goals exact line _

/-- An entry of an if-chain that begins the text is printed like any other container. -/
theorem writes_entry (id : StmtId) (entries : String) (entry : s.kind.isChainEntry)
    (inside : WritesAt t d n (s.children.map .visit) children) (step : o.InStep d.style)
    (fresh : o.text.endsWith "\x7d\n" = false) : Writes t d n (tasks t d id s) o
      (o.write (frame t d .alone o.depth id children entries s)) := by
  have braces (header : String) : Writes t d n (.continuation header :: enclosed s.children) o
      (o.write (Layout.opening d.style o.depth header ++ children (o.depth + 1) ++
        Layout.line d.style o.depth "\x7d")) := by
    have body := inside.enclosed "" (o.write (Layout.opening d.style o.depth header)) step
    rw [Output.write_write, Output.depth_write, ← String.append_assoc] at body
    apply Writes.cons rfl
    rwa [perform, Output.continuation_of_not_endsWith fresh, step.opening_eq]
  cases s
  case elif => exact braces _
  case otherwise => exact braces _
  all_goals cases entry

/-- An entry of an if-chain in its place. -/
theorem continues_frame (id : StmtId) (entries : Nat → String) (entry : s.kind.isChainEntry)
    (inside : WritesAt t d n (s.children.map .visit) children) :
    Continues t d n (tasks t d id s) fun depth =>
      frame t d .chained depth id children (entries depth) s := by
  cases s
  case elif => exact continues_entry inside _
  case otherwise => exact continues_entry inside _
  all_goals cases entry

/-! Subtrees. -/

theorem Continues.append (first : Continues t d n ts fun depth => f depth ++ "\x7d")
    (second : Continues t d m us g) :
    Continues t d (n + m) (ts ++ us) fun depth => f depth ++ "\x7d" ++ g depth := by
  intro o step
  have before : Writes t d n ts (o.write "\x7d\n")
      ((o.write ("\x7d" ++ f o.depth)).write "\x7d\n") := by
    have whole := first o step
    rw [← String.append_assoc, String.append_assoc] at whole
    rw [Output.write_write]
    exact whole
  have behind := second (o.write ("\x7d" ++ f o.depth)) step
  rw [Output.write_write _ ("\x7d" ++ _ ++ _)] at behind
  simpa only [Output.depth_write, String.append_assoc] using before.append behind

theorem isChainEntry_of_stmt? (found : t.stmt? id = some s) :
    t.isChainEntry id = s.kind.isChainEntry := by
  rw [Tree.isChainEntry, Tree.kind?_of_stmt? found, Option.any_some]

theorem isChainEntry_of_mem_chain (h : t.Linked) (found : t.stmt? id = some s) {c : StmtId}
    (member : c ∈ s.chain) : t.isChainEntry c := by
  rcases h.kind?_of_mem_chain found member with kind | kind <;> rw [Tree.isChainEntry, kind] <;> rfl

section subtree
variable {h : t.Linked}

/-- The text of an entry in its chain ends with its closing brace. -/
theorem layout_chained (entry : t.isChainEntry id) :
    ∃ f : Nat → String, ∀ depth, layout h d .chained depth id = f depth ++ "\x7d" := by
  cases found : t.stmt? id with
  | none => simp [Tree.isChainEntry, Tree.kind?_eq, found] at entry
  | some s => ?_
  rw [isChainEntry_of_stmt? found] at entry
  cases s
  case elif => exact ⟨_, fun depth => (layout_of_stmt? found).trans String.append_assoc.symm⟩
  case otherwise => exact ⟨_, fun depth => (layout_of_stmt? found).trans String.append_assoc.symm⟩
  all_goals cases entry

/-- Visiting a statement in its place prints its subtree. -/
def Laid (h : t.Linked) (d : Dialect) (id : StmtId) : Prop :=
  if t.isChainEntry id then
    Continues t d (t.preorder id).length [.visit id] fun depth => layout h d .chained depth id
  else WritesAt t d (t.preorder id).length [.visit id] fun depth => layout h d .alone depth id

theorem writes_layouts (each : ∀ c ∈ ids, t.isChainEntry c = false ∧ Laid h d c) :
    WritesAt t d (ids.flatMap t.preorder).length (ids.map .visit) fun depth =>
      layouts h d .alone depth ids := by
  induction ids with
  | nil => exact .nil
  | cons c rest ih =>
    obtain ⟨plain, first⟩ := each c List.mem_cons_self
    rw [Laid, if_neg (Bool.eq_false_iff.mp plain)] at first
    have whole := first.append (ih fun x later => each x (.tail _ later))
    simpa using whole

theorem continues_layouts (each : ∀ c ∈ ids, t.isChainEntry c ∧ Laid h d c) :
    Continues t d (ids.flatMap t.preorder).length (ids.map .visit) fun depth =>
      layouts h d .chained depth ids := by
  induction ids with
  | nil => exact fun o _ => .nil
  | cons c rest ih =>
    obtain ⟨entry, first⟩ := each c List.mem_cons_self
    obtain ⟨f, ended⟩ := layout_chained (h := h) (d := d) entry
    rw [Laid, if_pos entry, funext ended] at first
    have whole := first.append (ih fun x later => each x (.tail _ later))
    simpa [ended] using whole

/-- What a statement owns leaves room for the statement itself. -/
theorem room (h : t.Linked) (found : t.stmt? id = some s) :
    (s.children.flatMap t.preorder).length + (s.chain.flatMap t.preorder).length + 1 ≤
      (t.preorder id).length := by
  have part := s.children_chain_sublist.flatMap t.preorder
  rw [h.preorder_eq (Tree.contains_of_stmt? found), Tree.owned_of_stmt? found, List.length_cons,
    ← List.length_append, ← List.flatMap_append]
  exact Nat.succ_le_succ part.length_le

/-- The children and the chain of a statement write their texts, if all that it owns does. -/
theorem writes_owned (h : t.Linked) (found : t.stmt? id = some s)
    (each : ∀ c ∈ t.owned id, Laid h d c) :
    WritesAt t d (s.children.flatMap t.preorder).length (s.children.map .visit)
        (layouts h d .alone · s.children) ∧
      Continues t d (s.chain.flatMap t.preorder).length (s.chain.map .visit)
        (layouts h d .chained · s.chain) := by
  have owned {c : StmtId} (member : c ∈ s.children ++ s.chain) : Laid h d c :=
    each c (Tree.owned_of_stmt? found ▸ s.children_chain_sublist.subset member)
  constructor
  · apply writes_layouts
    intro c member
    exact ⟨Tree.isChainEntry_eq_false_iff.mpr (h.kind?_of_mem_children found member),
      owned (List.mem_append_left _ member)⟩
  · apply continues_layouts
    intro c member
    exact ⟨isChainEntry_of_mem_chain h found member, owned (List.mem_append_right _ member)⟩

theorem laid (h : t.Linked) (live : t.contains id) : Laid h d id := by
  refine h.descending (motive := Laid h d) ?_ live
  intro id live each
  obtain ⟨node, there⟩ := Option.isSome_iff_exists.mp live
  have found := Tree.stmt?_of_get? there
  obtain ⟨inside, chain⟩ := writes_owned h found each
  have enough := room h found
  rw [Laid, isChainEntry_of_stmt? found]
  split
  next entry =>
    have whole := continues_frame id (layouts h d .chained · node.stmt.chain) entry inside
    intro o step
    simp only [layout_of_stmt? found]
    exact (Writes.visit there (whole o step)).mono (by omega)
  next plain =>
    have whole := writes_frame id (Bool.eq_false_iff.mpr plain) inside chain
    intro o step
    simp only [layout_of_stmt? found]
    exact (Writes.visit there (whole o step)).mono enough

theorem writes_alone (h : t.Linked) (live : t.contains id) :
    Writes t d (t.preorder id).length [.visit id] {} { text := layout h d .alone 0 id } := by
  have start : (({} : Output).write (layout h d .alone 0 id)) =
      { text := layout h d .alone 0 id } := by
    simp [Output.write]
  have step : ({} : Output).InStep d.style := rfl
  rw [← start]
  by_cases entry : t.isChainEntry id
  · obtain ⟨node, there⟩ := Option.isSome_iff_exists.mp live
    have found := Tree.stmt?_of_get? there
    obtain ⟨inside, -⟩ := writes_owned h found fun c owned => laid h (h.contains_owned owned)
    have enough := room h found
    rw [isChainEntry_of_stmt? found] at entry
    rw [layout_of_stmt? found]
    have whole := writes_entry id (layouts h d .chained 0 node.stmt.chain) entry inside step
      (by decide)
    exact (Writes.visit there whole).mono (by omega)
  · have whole := laid h (d := d) live
    rw [Laid, if_neg entry] at whole
    exact whole _ step

end subtree

/-- Printing a subtree of a linked tree gives its layout and ends at the depth where it began. -/
theorem run_eq_layout (h : t.Linked) (d : Dialect) (id : StmtId) :
    run t d t.slots.size [.visit id] {} = { text := layout h d .alone 0 id } := by
  cases live : t.contains id with
  | true =>
    have walk := h.walk_preorder live
    have enough := Tree.length_le_size (h.nodup_preorder live) fun _ => walk.contains_of_mem
    obtain ⟨left, -, steps⟩ := writes_alone (d := d) h live t.slots.size [] enough
    exact steps.run_eq.trans (by simp [run])
  | false =>
    have gone : t.get? id = none := by simpa [Tree.contains] using live
    rw [layout_of_dead live, run.eq_def]
    simp only [gone]
    cases t.slots.size with
    | zero => rfl
    | succ => simp [run]

theorem emit_eq (h : t.Linked) (d : Dialect) (id : StmtId) :
    emit t id d = layout h d .alone 0 id :=
  congrArg Output.text (run_eq_layout h d id)

/-- Printing a subtree gives its layout: every piece of text stands where the structure of the tree
puts it. In the end all levels are closed. At every moment of the run the margin is the indentation
of the depth, and no level is closed at the outermost one. -/
theorem emit_eq_layout {admitted : Stmt → Prop} (h : Tree.Reachable admitted t) (d : Dialect)
    (id : StmtId) :
    emit t id d = layout h.rooted.toLinked d .alone 0 id ∧
      (run t d t.slots.size [.visit id] {}).depth = 0 ∧
      ∀ m, Steps t d ⟨t.slots.size, [.visit id], {}⟩ m →
        m.out.margin = indentation d.style m.out.depth ∧
        ∀ rest, m.pending = .dedent :: rest → 0 < m.out.depth := by
  have linked := h.rooted.toLinked
  refine ⟨emit_eq linked d id, congrArg Output.depth (run_eq_layout linked d id), ?_⟩
  intro m steps
  have start : Orderly d.style ⟨t.slots.size, [.visit id], {}⟩ := ⟨rfl, rfl⟩
  have orderly := steps.orderly start
  refine ⟨orderly.margin, ?_⟩
  intro rest pending
  have closes := orderly.closes
  rw [pending] at closes
  exact closes.1

/-- An `else` entry with a loop, and a label at the outermost level. The entry joins the brace
before it in its chain, but not when it is printed by itself. -/
theorem emit_eq_layout_of_chain :
    let calls : List Tree.Change := [
      .addExpr (.ident ⟨.identifier, "a", .none⟩), .add (.otherwise .empty) .none,
      .push Tree.root (.conditional ⟨1⟩ .empty [] (some ⟨2⟩)),
      .push Tree.root (.label ⟨.identifier, "end", .none⟩),
      .addExpr (.ident ⟨.identifier, "b", .none⟩), .push ⟨2⟩ (.whileLoop ⟨5⟩ .empty true)]
    let t := Tree.initial.run calls
    let split := { Dialect.serial with style := (Style.spaces 2).allman }
    Tree.Reachable (fun _ => True) t ∧
      emit t Tree.root .serial =
        "if (a) \x7b\n\x7d else \x7b\n  do \x7b\n  \x7d while (b);\n\x7d\nend:\n" ∧
      emit t ⟨2⟩ .serial = "else \x7b\n  do \x7b\n  \x7d while (b);\n\x7d\n" ∧
      emit t ⟨2⟩ split = "else\n\x7b\n  do\n  \x7b\n  \x7d\n  while (b);\n\x7d\n" := by
  intro calls t split
  have h : Tree.Reachable (fun _ => True) t := Tree.Reachable.initial.run fun _ _ _ _ => trivial
  have root : t.stmt? Tree.root = some (.block { children := [⟨3⟩, ⟨4⟩] }) := by rfl
  have test : t.stmt? ⟨3⟩ = some (.conditional ⟨1⟩ .empty [] (some ⟨2⟩)) := by rfl
  have last : t.stmt? ⟨2⟩ = some (.otherwise { children := [⟨6⟩] }) := by rfl
  have loop : t.stmt? ⟨6⟩ = some (.whileLoop ⟨5⟩ .empty true) := by rfl
  have label : t.stmt? ⟨4⟩ = some (.label ⟨.identifier, "end", .none⟩) := by rfl
  have joined : Dialect.serial.style = { indent := "  " } := by decide
  have apart : split.style = { indent := "  ", braceOnNewLine := true, cuddleElse := false } := by
    decide
  have a : inlineText t .serial ⟨1⟩ = "a" := by decide
  have b : inlineText t .serial ⟨5⟩ = "b" := by decide
  have b' : inlineText t split ⟨5⟩ = "b" := by decide
  refine ⟨h, (emit_eq_layout h _ _).1.trans ?_, (emit_eq_layout h _ _).1.trans ?_,
    (emit_eq_layout h _ _).1.trans ?_⟩
  · simp [layout_of_stmt? root, layout_of_stmt? test, layout_of_stmt? last, layout_of_stmt? loop,
      layout_of_stmt? label, frame, frame.headed, frame.entry, opening, joining, closing,
      Layout.line, indentation, Stmt.children, Stmt.chain, Stmt.elifs, Stmt.last?, Stmt.body?,
      Block.empty, joined, a, b]
  · simp [layout_of_stmt? last, layout_of_stmt? loop, frame, frame.headed, frame.entry,
      frame.braces, opening, Layout.line, indentation, Stmt.children, Stmt.body?, Block.empty,
      joined, b]
  · simp [layout_of_stmt? last, layout_of_stmt? loop, frame, frame.headed, frame.entry,
      frame.braces, opening, Layout.line, indentation, Stmt.children, Stmt.body?, Block.empty,
      apart, b']

end KernelTree.Emission
