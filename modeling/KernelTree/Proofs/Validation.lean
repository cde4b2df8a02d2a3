import KernelTree.Proofs.Tree.Reachable
import KernelTree.Validation
/-! What validation finds. The labels of a function are apart from those outside it, and every fault
is reported at its place in source order: the errors on the way down, and behind them the jumps to
labels that stand nowhere in their region. -/
namespace KernelTree

theorem Finding.isError_toDiagnostic (f : Finding) : f.toDiagnostic.isError = f.isError := by
  cases f <;> rfl

namespace Tree

variable {admitted : Stmt → Prop} {t : Tree} {r x y p f region : StmtId} {name : String}

/-! Regions. -/

/-- A function of the subtree of `r` that lies properly around a statement. -/
structure Encloses (t : Tree) (r x f : StmtId) : Prop where
  apart : x ≠ f
  around : t.Within x f
  inside : t.Within f r
  kind : t.kind? f = some .function

/-- The region of a statement: the nearest function around it in the subtree of `r`, or else the
whole subtree. -/
def IsRegion (t : Tree) (r x region : StmtId) : Prop :=
  (t.Encloses r x region ∧ ∀ f, t.Encloses r x f → t.Within region f) ∨
    (region = r ∧ ∀ f, ¬ t.Encloses r x f)

namespace Linked
variable (h : t.Linked)
include h

/-- Around a statement are its owner, if that is a function, and the functions around its owner. -/
theorem encloses_iff (owned : t.parent? x = some p) (inside : t.Within p r) :
    t.Encloses r x f ↔ (f = p ∧ t.kind? p = some .function) ∨ t.Encloses r p f := by
  constructor
  · rintro ⟨apart, around, within, kind⟩
    rcases around.cases with same | ⟨owner, owned', around⟩
    · exact absurd same apart
    · cases Option.some.inj (owned.symm.trans owned')
      by_cases same : f = p
      · exact .inl ⟨same, same ▸ kind⟩
      · exact .inr ⟨Ne.symm same, around, within, kind⟩
  · rintro (⟨rfl, kind⟩ | ⟨apart, around, within, kind⟩)
    · refine ⟨?_, .step owned (.refl ..), inside, kind⟩
      rintro rfl
      exact h.not_within_owned owned (.refl ..)
    · refine ⟨?_, .step owned around, within, kind⟩
      rintro rfl
      exact h.not_within_owned owned around

theorem not_encloses_self (live : t.contains r) : ¬ t.Encloses r r f :=
  fun encloses => encloses.apart (h.within_antisymm live encloses.around encloses.inside)

theorem isRegion_unique (live : t.contains x) (first : t.IsRegion r x y)
    (second : t.IsRegion r x region) : y = region := by
  rcases first with ⟨encloses, nearest⟩ | ⟨rfl, none⟩ <;>
    rcases second with ⟨encloses', nearest'⟩ | ⟨rfl, none'⟩
  · exact h.within_antisymm (h.contains_around live encloses.around) (nearest _ encloses')
      (nearest' _ encloses)
  · exact absurd encloses (none' _)
  · exact absurd encloses' (none _)
  · rfl

/-- The region of a statement is that of its owner, unless the owner bounds it. -/
theorem labelRegion_owned (owned : t.parent? x = some p) : t.labelRegion r x =
    if p = r then r else if t.kind? p = some .function then p else t.labelRegion r p := by
  obtain ⟨path, up⟩ := h.grounded (h.contains_owner owned)
  obtain ⟨rest, rfl⟩ : ∃ rest, path = p :: rest := by cases up <;> exact ⟨_, rfl⟩
  have bounds : (t.kind? p).any (·.isLabelRegion) = decide (t.kind? p = some .function) := by
    cases t.kind? p <;> simp [StmtKind.isLabelRegion, beq_eq_decide]
  rw [labelRegion, labelRegion, (Climbs.up owned up).ancestors_eq, up.ancestors_eq]
  simp only [List.drop_succ_cons, List.drop_zero, List.takeWhile_cons]
  by_cases whole : p = r
  · simp [whole]
  · rw [if_neg whole, if_pos (by simpa using whole), List.find?_cons, bounds]
    by_cases function : t.kind? p = some .function
    · rw [if_pos function, decide_eq_true function]
      rfl
    · rw [if_neg function, decide_eq_false function]

theorem isRegion_labelRegion (live : t.contains r) (within : t.Within x r) (below : x ≠ r) :
    t.IsRegion r x (t.labelRegion r x) := by
  induction within using Relation.ReflTransGen.head_induction_on with
  | refl => exact absurd rfl below
  | @head x p owned inside ih =>
    rw [h.labelRegion_owned owned]
    have around f := h.encloses_iff (f := f) owned inside
    by_cases function : t.kind? p = some .function
    · -- A function that owns the statement is its region, whether or not it is the whole subtree.
      have nearest : t.IsRegion r x p := by
        refine .inl ⟨(around p).mpr (.inl ⟨rfl, function⟩), fun f encloses => ?_⟩
        rcases (around f).mp encloses with ⟨rfl, -⟩ | further
        · exact .refl ..
        · exact further.around
      by_cases whole : p = r
      · exact if_pos whole ▸ whole ▸ nearest
      · rwa [if_neg whole, if_pos function]
    · have same f : t.Encloses r x f ↔ t.Encloses r p f := by simp [around, function]
      by_cases whole : p = r
      · subst whole
        rw [if_pos rfl]
        exact .inr ⟨rfl, fun f encloses => h.not_encloses_self live ((same f).mp encloses)⟩
      · rw [if_neg whole, if_neg function]
        simpa only [IsRegion, same] using ih whole

end Linked

/-! Faults, each at a statement of the subtree of `r`. -/

/-- The name that a label defines. -/
def labelName? (t : Tree) (x : StmtId) : Option String :=
  match t.stmt? x with
  | some (.label name) => some name.text
  | _ => none

/-- The name of the label that a `goto` jumps to. -/
def targetName? (t : Tree) (x : StmtId) : Option String :=
  match t.stmt? x with
  | some (.goto target) => some target.text
  | _ => none

theorem exists_label (label : t.labelName? x = some name) :
    ∃ token, t.stmt? x = some (.label token) ∧ token.text = name := by
  unfold labelName? at label
  split at label
  next token found => exact ⟨token, found, Option.some.inj label⟩
  next => cases label

/-- The `default` children of a switch, in order. -/
def defaults (t : Tree) (x : StmtId) : List StmtId :=
  match t.stmt? x with
  | some (.switch _ body) => body.children.filter fun c => t.kind? c = some .defaultLabel
  | _ => []

/-- A statement is a label of that name in that region. -/
def Defines (t : Tree) (r region : StmtId) (name : String) (x : StmtId) : Prop :=
  t.labelName? x = some name ∧ t.labelRegion r x = region

instance : Decidable (t.Defines r region name x) :=
  inferInstanceAs (Decidable (_ ∧ _))

/-- A label defines its own name in its own region, and nothing else. -/
theorem defines_iff {other : String} (label : t.labelName? x = some name) :
    t.Defines r region other x ↔ other = name ∧ region = t.labelRegion r x := by
  rw [Defines, label, Option.some_inj, eq_comm (a := name), eq_comm (b := region)]

/-- The label that comes first in source order among those of one name in one region. -/
def firstLabel? (t : Tree) (r region : StmtId) (name : String) : Option StmtId :=
  (t.preorder r).find? fun x => t.Defines r region name x

/-- The errors about the `default` children of a switch behind the first. -/
def repeatedDefaults (t : Tree) (x : StmtId) : List Diagnostic :=
  match t.defaults x with
  | [] => []
  | first :: rest => rest.map fun extra =>
    { severity := .error, message := "multiple 'default' labels in one switch",
      span := t.spanOf extra, notes := [s!"first 'default' is statement {first}"] }

/-- The error about a label that is not the first of its name in its region. -/
def repeatedLabel (t : Tree) (r x : StmtId) : List Diagnostic :=
  match t.labelName? x with
  | none => []
  | some name => ((t.firstLabel? r (t.labelRegion r x) name).filter (· ≠ x)).toList.map fun first =>
    { severity := .error, message := s!"duplicate label '{name}'", span := t.spanOf x,
      notes := [s!"first defined by statement {first}"],
      help := some "labels must be unique within a function" }

def errorsAt (t : Tree) (r x : StmtId) : List Diagnostic :=
  t.repeatedDefaults x ++ t.repeatedLabel r x

/-- The warning at a `goto` if no label of the subtree in its region has its name. -/
def warningsAt (t : Tree) (r x : StmtId) : List Diagnostic :=
  match t.targetName? x with
  | none => []
  | some name =>
    if ∀ y ∈ t.preorder r, ¬ t.Defines r (t.labelRegion r x) name y then
      [{ severity := .warning,
         message := s!"goto target '{name}' is not defined in this function",
         span := t.spanOf x }]
    else []

/-! The findings behind these reports, each with the statement that it is about. -/

def laterDefaults (t : Tree) (x : StmtId) : List Finding :=
  match t.defaults x with
  | [] => []
  | first :: rest => rest.map fun extra => .extraDefault first extra (t.spanOf extra)

def laterLabel (t : Tree) (r x : StmtId) : List Finding :=
  match t.labelName? x with
  | none => []
  | some name => ((t.firstLabel? r (t.labelRegion r x) name).filter (· ≠ x)).toList.map fun first =>
    .duplicateLabel name first x (t.spanOf x)

def faultsAt (t : Tree) (r x : StmtId) : List Finding :=
  t.laterDefaults x ++ t.laterLabel r x

def openJumpsAt (t : Tree) (r x : StmtId) : List Finding :=
  match t.targetName? x with
  | none => []
  | some name =>
    if ∀ y ∈ t.preorder r, ¬ t.Defines r (t.labelRegion r x) name y then
      [.undefinedTarget name x (t.spanOf x)]
    else []

theorem errorsAt_eq : t.errorsAt r x = (t.faultsAt r x).map (·.toDiagnostic) := by
  have defaults : t.repeatedDefaults x = (t.laterDefaults x).map (·.toDiagnostic) := by
    rw [repeatedDefaults, laterDefaults]
    cases t.defaults x <;> simp [Finding.toDiagnostic]
  have label : t.repeatedLabel r x = (t.laterLabel r x).map (·.toDiagnostic) := by
    rw [repeatedLabel, laterLabel]
    cases t.labelName? x <;> simp [Finding.toDiagnostic]
  rw [errorsAt, faultsAt, List.map_append, defaults, label]

theorem warningsAt_eq : t.warningsAt r x = (t.openJumpsAt r x).map (·.toDiagnostic) := by
  rw [warningsAt, openJumpsAt]
  cases t.targetName? x with
  | none => rfl
  | some name =>
    simp only
    split <;> rfl

/-! The walk over the subtree. -/

/-- The table holds the first label of each name and region among the statements passed. -/
def Recorded (t : Tree) (r : StmtId) (passed : List StmtId) (table : LabelTable) : Prop :=
  ∀ region name, table.find? region name = passed.find? fun x => t.Defines r region name x

theorem Recorded.skip {passed : List StmtId} {table : LabelTable}
    (recorded : t.Recorded r passed table) (other : t.labelName? x = none) :
    t.Recorded r (passed ++ [x]) table := by
  intro region name
  rw [recorded, List.find?_append]
  simp [Defines, other]

theorem Recorded.keep {passed : List StmtId} {table : LabelTable} {first : StmtId}
    (recorded : t.Recorded r passed table) (label : t.labelName? x = some name)
    (known : table.find? (t.labelRegion r x) name = some first) :
    t.Recorded r (passed ++ [x]) table := by
  intro region other
  rw [recorded, List.find?_append]
  by_cases same : other = name ∧ region = t.labelRegion r x
  · obtain ⟨rfl, rfl⟩ := same
    rw [← recorded, known, Option.some_or]
  · have apart := (defines_iff label).not.mpr same
    simp [apart]

theorem Recorded.define {passed : List StmtId} {table : LabelTable}
    (recorded : t.Recorded r passed table) (label : t.labelName? x = some name)
    (fresh : table.find? (t.labelRegion r x) name = none) :
    t.Recorded r (passed ++ [x])
      { entries := ((t.labelRegion r x, name), x) :: table.entries } := by
  intro region other
  rw [LabelTable.find?, List.lookup_cons, List.find?_append, ← recorded]
  by_cases same : other = name ∧ region = t.labelRegion r x
  · obtain ⟨rfl, rfl⟩ := same
    have here : t.Defines r (t.labelRegion r x) other x := ⟨label, rfl⟩
    simp [fresh, here]
  · have apart := (defines_iff label).not.mpr same
    have differs : ((region, other) == (t.labelRegion r x, name)) = false := by
      simpa [and_comm] using same
    simp [apart, differs, LabelTable.find?]

/-- A label is recorded if it is the first of its name in its region, and reported otherwise. -/
theorem examine_label {table : LabelTable} {rest : List StmtId} {token : Token}
    (found : t.stmt? x = some (.label token)) : t.examine r table (x :: rest) =
      match table.find? (t.labelRegion r x) token.text with
      | none =>
        t.examine r { entries := ((t.labelRegion r x, token.text), x) :: table.entries } rest
      | some first =>
        (.duplicateLabel token.text first x (t.spanOf x) :: (t.examine r table rest).1,
          (t.examine r table rest).2) := by
  obtain ⟨⟨parent, span, stmt⟩, there, same⟩ := Option.map_eq_some_iff.mp found
  cases (same : stmt = .label token)
  simp only [examine, there, LabelTable.define, spanOf, Option.map_some, Option.getD_some]
  cases table.find? (t.labelRegion r x) token.text <;> rfl

/-- Of other statements only a switch with several `default` children is reported. -/
theorem examine_other (table : LabelTable) (rest : List StmtId) (other : t.labelName? x = none) :
    (t.examine r table (x :: rest)).1 = t.faultsAt r x ++ (t.examine r table rest).1 ∧
    (t.examine r table (x :: rest)).2 = (t.examine r table rest).2 := by
  rw [faultsAt, laterLabel, other, List.append_nil, laterDefaults]
  cases there : t.get? x with
  | none => simp [examine, there, defaults, stmt?]
  | some node =>
    obtain ⟨parent, span, stmt⟩ := node
    cases stmt
    case label token => simp [labelName?, stmt?, there] at other
    case switch condition body =>
      simp only [examine, there, defaults, stmt?, Option.map_some, extraDefaults]
      cases body.children.filter fun c => t.kind? c = some .defaultLabel <;> simp
    all_goals simp [examine, there, defaults, stmt?]

theorem examine_spec {passed rest : List StmtId} {table : LabelTable}
    (order : t.preorder r = passed ++ rest) (nodup : (t.preorder r).Nodup)
    (recorded : t.Recorded r passed table) :
    (t.examine r table rest).1 = rest.flatMap (t.faultsAt r) ∧
      t.Recorded r (t.preorder r) (t.examine r table rest).2 := by
  induction rest generalizing passed table with
  | nil =>
    rw [List.append_nil] at order
    exact ⟨rfl, order ▸ recorded⟩
  | cons x rest ih =>
    have later : t.preorder r = (passed ++ [x]) ++ rest := by simpa using order
    cases label : t.labelName? x with
    | none =>
      obtain ⟨found, last⟩ := examine_other (r := r) table rest label
      obtain ⟨errors, complete⟩ := ih later (recorded.skip label)
      rw [found, last, errors]
      exact ⟨rfl, complete⟩
    | some name =>
      obtain ⟨token, found, rfl⟩ := exists_label label
      have here : t.Defines r (t.labelRegion r x) token.text x := ⟨label, rfl⟩
      have fresh : x ∉ passed := by
        rw [order] at nodup
        exact fun earlier => (List.nodup_append.mp nodup).2.2 x earlier x List.mem_cons_self rfl
      have first : t.firstLabel? r (t.labelRegion r x) token.text =
          (table.find? (t.labelRegion r x) token.text).or (some x) := by
        rw [firstLabel?, order, List.find?_append, ← recorded]
        simp [here]
      have switchless : t.laterDefaults x = [] := by simp [laterDefaults, defaults, found]
      rw [examine_label found, List.flatMap_cons, faultsAt, switchless, List.nil_append,
        laterLabel, label]
      simp only [first]
      cases known : table.find? (t.labelRegion r x) token.text with
      | none =>
        obtain ⟨errors, complete⟩ := ih later (recorded.define label known)
        have none_left : (some x).filter (· ≠ x) = none := by simp [Option.filter]
        rw [Option.none_or, none_left]
        exact ⟨errors, complete⟩
      | some earlier =>
        obtain ⟨errors, complete⟩ := ih later (recorded.keep label known)
        have apart : earlier ≠ x := by
          rintro rfl
          rw [recorded] at known
          exact fresh (List.mem_of_find?_eq_some known)
        have kept : (some earlier).filter (· ≠ x) = some earlier := by simp [Option.filter, apart]
        rw [Option.some_or, kept]
        exact ⟨congrArg _ errors, complete⟩

/-- A jump is reported if the labels found on the way down leave its target open. -/
theorem undefinedTarget_eq {table : LabelTable} (recorded : t.Recorded r (t.preorder r) table) :
    (t.undefinedTarget? r table x).toList = t.openJumpsAt r x := by
  cases there : t.get? x with
  | none => simp [undefinedTarget?, there, openJumpsAt, targetName?, stmt?]
  | some node =>
    obtain ⟨parent, span, stmt⟩ := node
    cases stmt
    case goto target =>
      simp only [undefinedTarget?, there, openJumpsAt, targetName?, stmt?, Option.map_some, spanOf,
        Option.getD_some, recorded (t.labelRegion r x), Option.isNone_iff_eq_none,
        List.find?_eq_none, decide_eq_true_eq]
      split <;> simp
    all_goals simp [undefinedTarget?, there, openJumpsAt, targetName?, stmt?]

theorem repeatedDefaults_eq_nil_iff : t.repeatedDefaults x = [] ↔ (t.defaults x).length ≤ 1 := by
  rw [repeatedDefaults]
  rcases t.defaults x with _ | ⟨first, _ | ⟨second, rest⟩⟩ <;> simp

theorem repeatedLabel_eq_nil_iff : t.repeatedLabel r x = [] ↔
    ∀ name, t.labelName? x = some name →
      ∀ first, t.firstLabel? r (t.labelRegion r x) name = some first → first = x := by
  rw [repeatedLabel]
  cases t.labelName? x with
  | none => simp
  | some name =>
    cases found : t.firstLabel? r (t.labelRegion r x) name with
    | none => simp [found]
    | some first => by_cases same : first = x <;> simp [found, Option.filter, same]

/-- No label is reported if and only if none has the name of another one in its region. -/
theorem repeatedLabels_eq_nil_iff : (∀ x ∈ t.preorder r, t.repeatedLabel r x = []) ↔
    ∀ x ∈ t.preorder r, ∀ y ∈ t.preorder r, ∀ region name,
      t.Defines r region name x → t.Defines r region name y → x = y := by
  simp only [repeatedLabel_eq_nil_iff]
  constructor
  · intro first x inside y inside' region name defines defines'
    obtain ⟨z, found⟩ : ∃ z, t.firstLabel? r region name = some z := by
      apply Option.isSome_iff_exists.mp
      exact List.find?_isSome.mpr ⟨x, inside, by simpa using defines⟩
    have left := first x inside name defines.1 z (defines.2 ▸ found)
    have right := first y inside' name defines'.1 z (defines'.2 ▸ found)
    exact left.symm.trans right
  · intro unique x inside name label first found
    have defines : t.Defines r (t.labelRegion r x) name first := by
      simpa using List.find?_some found
    exact unique first (List.mem_of_find?_eq_some found) x inside _ name defines ⟨label, rfl⟩

theorem isError_of_mem_errorsAt {d : Diagnostic} (member : d ∈ t.errorsAt r x) :
    d.isError = true := by
  rcases List.mem_append.mp member with member | member
  · unfold repeatedDefaults at member
    split at member
    · simp at member
    · obtain ⟨_, -, rfl⟩ := List.mem_map.mp member
      rfl
  · unfold repeatedLabel at member
    split at member
    · simp at member
    · obtain ⟨_, -, rfl⟩ := List.mem_map.mp member
      rfl

theorem isError_of_mem_warningsAt {d : Diagnostic} (member : d ∈ t.warningsAt r x) :
    d.isError = false := by
  unfold warningsAt at member
  split at member
  · simp at member
  · split at member
    · cases List.mem_singleton.mp member
      rfl
    · simp at member

/-- The findings in the subtree of `r`, and when there is no error among them. -/
structure Validated (t : Tree) (r : StmtId) : Prop where
  /-- The region in which the label of a statement is looked up is the one it lies in. Nothing but
  `r` itself could be found in the subtree of a label or a jump, so its own region is immaterial. -/
  region : ∀ x ∈ t.preorder r, x ≠ r → ∀ region, t.IsRegion r x region ↔ t.labelRegion r x = region
  /-- The errors come in source order, and the warnings in source order behind them. -/
  reports : (t.validate r).map (·.toDiagnostic) =
    (t.preorder r).flatMap (t.errorsAt r) ++ (t.preorder r).flatMap (t.warningsAt r)
  errorless_iff : (∀ f ∈ t.validate r, f.isError = false) ↔
    (∀ x ∈ t.preorder r, (t.defaults x).length ≤ 1) ∧
      ∀ x ∈ t.preorder r, ∀ y ∈ t.preorder r, ∀ region name,
        t.Defines r region name x → t.Defines r region name y → x = y

theorem Linked.validate_eq (h : t.Linked) (live : t.contains r) : t.validate r =
    (t.preorder r).flatMap (t.faultsAt r) ++ (t.preorder r).flatMap (t.openJumpsAt r) := by
  have unrecorded : t.Recorded r [] {} := fun _ _ => rfl
  obtain ⟨errors, recorded⟩ := examine_spec (List.nil_append (t.preorder r)).symm
    (h.nodup_preorder live) unrecorded
  have warnings : (t.preorder r).filterMap
      (t.undefinedTarget? r (t.examine r {} (t.preorder r)).2) =
      (t.preorder r).flatMap (t.openJumpsAt r) := by
    rw [List.filterMap_eq_flatMap_toList]
    exact List.flatMap_congr fun x _ => undefinedTarget_eq recorded
  show (t.examine r {} (t.preorder r)).1 ++ _ = _
  rw [errors, warnings]

theorem Linked.validate_reports (h : t.Linked) (live : t.contains r) :
    (t.validate r).map (·.toDiagnostic) =
      (t.preorder r).flatMap (t.errorsAt r) ++ (t.preorder r).flatMap (t.warningsAt r) := by
  have errors : t.errorsAt r = fun x => (t.faultsAt r x).map (·.toDiagnostic) :=
    funext fun _ => errorsAt_eq
  have warnings : t.warningsAt r = fun x => (t.openJumpsAt r x).map (·.toDiagnostic) :=
    funext fun _ => warningsAt_eq
  rw [h.validate_eq live, List.map_append, List.map_flatMap, List.map_flatMap, errors, warnings]

theorem Reachable.validated (h : Reachable admitted t) (live : t.contains r) : t.Validated r := by
  have linked := h.rooted.toLinked
  have reports := linked.validate_reports live
  constructor
  case region =>
    intro x inside below region
    have within := (linked.mem_preorder_iff live).mp inside
    have found := linked.isRegion_labelRegion live within below
    constructor
    · exact fun other => linked.isRegion_unique (within.contains live) found other
    · exact fun same => same ▸ found
  case reports => exact reports
  case errorless_iff =>
    have silent : (∀ f ∈ t.validate r, f.isError = false) ↔
        ∀ x ∈ t.preorder r, t.errorsAt r x = [] := by
      have read : (∀ f ∈ t.validate r, f.isError = false) ↔
          ∀ d ∈ (t.validate r).map (·.toDiagnostic), d.isError = false := by
        simp [Finding.isError_toDiagnostic]
      rw [read, reports]
      constructor
      · intro quiet x inside
        apply List.eq_nil_iff_forall_not_mem.mpr
        intro d member
        have listed := List.mem_flatMap.mpr ⟨x, inside, member⟩
        have error := isError_of_mem_errorsAt member
        simp [quiet d (List.mem_append_left _ listed)] at error
      · intro empty d member
        rcases List.mem_append.mp member with member | member
        · obtain ⟨x, inside, here⟩ := List.mem_flatMap.mp member
          simp [empty x inside] at here
        · obtain ⟨x, -, here⟩ := List.mem_flatMap.mp member
          exact isError_of_mem_warningsAt here
    rw [silent]
    simp only [errorsAt, List.append_eq_nil_iff, repeatedDefaults_eq_nil_iff, forall_and,
      repeatedLabels_eq_nil_iff]

/-- A function holds a label, one that repeats it, and a function with a label of that name and a
jump out of it; a switch around all of that has two `default` children. -/
theorem validated_of_functions :
    let head : Signature := { name := ⟨.identifier, "f", .none⟩, returns := .named "void" }
    let label : Stmt := .label ⟨.identifier, "again", .none⟩
    let calls : List Change := [
      .addExpr (.ident ⟨.identifier, "v", .none⟩), .push root (.switch ⟨1⟩ .empty),
      .push ⟨2⟩ .defaultLabel, .push ⟨2⟩ (.function head .empty), .push ⟨4⟩ label,
      .push ⟨4⟩ (.function head .empty), .push ⟨6⟩ (.goto ⟨.identifier, "out", .none⟩),
      .push ⟨6⟩ label, .push ⟨4⟩ label, .push ⟨4⟩ (.label ⟨.identifier, "out", .none⟩),
      .push ⟨2⟩ .defaultLabel]
    let t := initial.run calls
    Reachable (fun _ => True) t ∧ t.contains ⟨2⟩ ∧
      t.validate ⟨2⟩ = [.extraDefault ⟨3⟩ ⟨11⟩ .none, .duplicateLabel "again" ⟨5⟩ ⟨9⟩ .none,
        .undefinedTarget "out" ⟨7⟩ .none] ∧ t.Validated ⟨2⟩ := by
  intro head label calls t
  have reachable : Reachable (fun _ => True) t := Reachable.initial.run fun _ _ _ _ => trivial
  have live : t.contains ⟨2⟩ := by decide +kernel
  exact ⟨reachable, live, by decide +kernel, reachable.validated live⟩

end Tree
end KernelTree
