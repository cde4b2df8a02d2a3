import KernelTree.Proofs.Declaration.Closed
import Mathlib.Data.List.SplitBy
/-! Declarations on one line. Neighbours with the same base are one statement, in which the base is
written once, and the separators outside of brackets stand between the entries and nowhere else. -/
namespace KernelTree.VarDecl

open Text

/-- Neighbours that share a base. -/
def runs (sp : Spelling) (vars : List VarDecl) : List (List VarDecl) :=
  vars.splitBy fun d e => d.type.renderBase sp == e.type.renderBase sp

/-- What the commas of one statement stand between: its first entry in full, and the others without
the base. -/
def written (sp : Spelling) : List VarDecl → List String
  | [] => []
  | d :: rest => d.render sp :: rest.map (renderTail sp)

/-- The declarators of a text, statement by statement; the first of a statement has the base before
it. -/
def pieces (text : String) : List (List Leveled) :=
  (separated ';' (leveled text)).map (separated ',')

variable {sp : Spelling} {d : VarDecl} {vars more run : List VarDecl} {base : String}

theorem renderRest_append (same : ∀ e ∈ more, e.type.renderBase sp = base)
    (later : List VarDecl) : renderRest sp base (more ++ later) =
      String.join (more.map fun e => ", " ++ e.renderTail sp) ++ renderRest sp base later := by
  induction more with
  | nil => simp
  | cons e rest ih =>
    obtain ⟨first, others⟩ := List.forall_mem_cons.mp same
    rw [List.cons_append, List.map_cons, String.join_cons, String.append_assoc, ← ih others]
    simp [renderRest, first]

theorem renderRest_of_ne (other : d.type.renderBase sp ≠ base) (later : List VarDecl) :
    renderRest sp base (d :: later) = "; " ++ renderGroup sp (d :: later) := by
  simp [renderRest, renderGroup, render, other, String.append_assoc]

theorem base_of_mem_runs (listed : d :: more ∈ runs sp vars) :
    ∀ e ∈ more, e.type.renderBase sp = d.type.renderBase sp := by
  have chain : ((d :: more).map (·.type.renderBase sp)).IsChain (· = ·) := by
    rw [List.isChain_map]
    exact (List.isChain_of_mem_splitBy listed).imp fun _ _ same => eq_of_beq same
  exact fun e later => (chain.rel_cons (List.mem_map_of_mem later)).symm

theorem renderGroup_append (same : ∀ e ∈ more, e.type.renderBase sp = d.type.renderBase sp)
    (later : List VarDecl) : renderGroup sp (d :: more ++ later) =
      ", ".intercalate (written sp (d :: more)) ++ renderRest sp (d.type.renderBase sp) later := by
  rw [List.cons_append, renderGroup, renderRest_append same, written, intercalate_cons,
    List.map_map, String.append_assoc]
  rfl

/-- A statement ends where the base changes, and nowhere else. -/
theorem renderGroup_flatten {rs : List (List VarDecl)} (filled : [] ∉ rs)
    (same : ∀ d more, d :: more ∈ rs → ∀ e ∈ more, e.type.renderBase sp = d.type.renderBase sp)
    (apart : rs.IsChain fun run next => ∃ a b,
      ((run.getLast a).type.renderBase sp == (next.head b).type.renderBase sp) = false) :
    renderGroup sp rs.flatten =
      "; ".intercalate (rs.map fun run => ", ".intercalate (written sp run)) := by
  -- The base that is carried along is that of the last entry, hence the one of the whole run.
  induction rs with
  | nil => rfl
  | cons run rest ih =>
    obtain ⟨d, more, rfl⟩ := List.exists_cons_of_ne_nil fun empty => filled (empty ▸ .head _)
    have base := same d more (.head _)
    rw [List.flatten_cons, renderGroup_append base]
    cases rest with
    | nil => simp [renderRest]
    | cons next rest =>
      obtain ⟨e, others, rfl⟩ := List.exists_cons_of_ne_nil
        fun empty => filled (.tail _ (empty ▸ .head _))
      obtain ⟨⟨nonempty, _, change⟩, chain⟩ := List.isChain_cons_cons.mp apart
      have last : ((d :: more).getLast nonempty).type.renderBase sp = d.type.renderBase sp := by
        rcases List.mem_cons.mp (List.getLast_mem nonempty) with first | later
        · rw [first]
        · exact base _ later
      have other : e.type.renderBase sp ≠ d.type.renderBase sp :=
        fun again => beq_eq_false_iff_ne.mp change (last.trans again.symm)
      have following := ih (fun inside => filled (.tail _ inside))
        (fun d more listed => same d more (.tail _ listed)) chain
      rw [List.map_cons, String.intercalate_cons_of_ne_nil (by simp), ← following,
        List.flatten_cons, List.cons_append, renderRest_of_ne other, String.append_assoc]

theorem flatten_runs (sp : Spelling) (vars : List VarDecl) : (runs sp vars).flatten = vars :=
  List.flatten_splitBy ..

theorem renderGroup_eq_runs (sp : Spelling) (vars : List VarDecl) : renderGroup sp vars =
    "; ".intercalate ((runs sp vars).map fun run => ", ".intercalate (written sp run)) := by
  have grouped : renderGroup sp (runs sp vars).flatten = _ :=
    renderGroup_flatten (List.nil_notMem_splitBy _ vars) (fun _ _ => base_of_mem_runs)
      (List.isChain_getLast_head_splitBy
        (fun d e => d.type.renderBase sp == e.type.renderBase sp) vars)
  rwa [flatten_runs] at grouped

theorem closed_written (clean : ∀ d ∈ run, ∀ w ∈ d.words sp, isClean w) :
    ∀ s ∈ written sp run, Closed marks s := by
  cases run with
  | nil => exact List.forall_mem_nil _
  | cons d rest =>
    obtain ⟨first, others⟩ := List.forall_mem_cons.mp clean
    exact List.forall_mem_cons.mpr ⟨closed_render first,
      List.forall_mem_map.mpr fun e later => closed_renderTail (others e later)⟩

/-- Whatever the words are, as long as they are clean, the separators part the entries. -/
theorem pieces_renderGroup (filled : vars ≠ [])
    (clean : ∀ d ∈ vars, ∀ w ∈ d.words sp, isClean w) :
    pieces (renderGroup sp vars) = (runs sp vars).map fun run => (written sp run).map leveled := by
  have closed (run) (listed : run ∈ runs sp vars) : ∀ s ∈ written sp run, Closed marks s :=
    closed_written fun d inside => clean d
      (flatten_runs sp vars ▸ List.mem_flatten.mpr ⟨run, listed, inside⟩)
  let statements := (runs sp vars).map fun run => ", ".intercalate (written sp run)
  have parted : separated ';' (leveled ("; ".intercalate statements)) = statements.map leveled := by
    refine separated_intercalate ';' (by decide) (by decide) (by simpa [statements, runs]) ?_
    exact List.forall_mem_map.mpr fun run listed =>
      .intercalate (by decide) fun s inside => (closed run listed s inside).mono (by simp)
  rw [pieces, renderGroup_eq_runs, parted, List.map_map, List.map_map]
  refine List.map_congr_left fun run listed => ?_
  have filled : written sp run ≠ [] := by
    obtain ⟨d, rest, rfl⟩ := List.exists_cons_of_ne_nil (List.ne_nil_of_mem_splitBy listed)
    exact List.cons_ne_nil _ _
  exact separated_intercalate ',' (by decide) (by decide) filled fun s inside =>
    (closed run listed s inside).mono (by simp)

end KernelTree.VarDecl
