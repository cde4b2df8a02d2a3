import KernelTree.Proofs.Tree.Traversal
import KernelTree.Proofs.Validation
import Mathlib.Data.List.Find
/-! Validation function by function. What is found in a function is what is found there in any
subtree around it, and nothing outside the function has a part in it. -/
namespace KernelTree

/-- The statement that a finding names beside the one that it is about. -/
def Finding.earlier? : Finding → Option StmtId
  | extraDefault first _ _ | duplicateLabel _ first _ _ => some first
  | undefinedTarget .. => none

/-- A piece of a list without repetitions consists of the members that it has. -/
theorem filter_mem_eq_of_infix {part whole : List StmtId} (piece : part <:+: whole)
    (nodup : whole.Nodup) : whole.filter (· ∈ part) = part := by
  obtain ⟨before, after, rfl⟩ := piece
  obtain ⟨front, -, apart⟩ := List.nodup_append.mp nodup
  have ahead : before.filter (· ∈ part) = [] := by
    apply List.filter_eq_nil_iff.mpr
    intro x early late
    exact (List.nodup_append.mp front).2.2 x early x (of_decide_eq_true late) rfl
  have behind : after.filter (· ∈ part) = [] := by
    apply List.filter_eq_nil_iff.mpr
    intro x late early
    exact apart x (List.mem_append_right _ (of_decide_eq_true early)) x late rfl
  have inside : part.filter (· ∈ part) = part :=
    List.filter_eq_self.mpr fun x member => decide_eq_true member
  rw [List.filter_append, List.filter_append, ahead, inside, behind, List.nil_append,
    List.append_nil]

namespace Tree

variable {admitted : Stmt → Prop} {t t' : Tree} {r f x y region : StmtId} {name : String}

/-! Findings and the statements at which they arise. -/

theorem mem_defaults_iff : y ∈ t.defaults x ↔
    (∃ condition body, t.stmt? x = some (.switch condition body) ∧ y ∈ body.children) ∧
      t.kind? y = some .defaultLabel := by
  unfold defaults
  split
  next condition body found => simp [found]
  next other => simpa using fun condition body found => absurd found (other condition body)

theorem owned_of_mem_defaults (default : y ∈ t.defaults x) : y ∈ t.owned x := by
  obtain ⟨⟨condition, body, found, child⟩, -⟩ := mem_defaults_iff.mp default
  exact mem_owned_of_child found child

theorem mem_laterDefaults_iff {finding : Finding} : finding ∈ t.laterDefaults x ↔
    ∃ first rest, t.defaults x = first :: rest ∧
      ∃ extra ∈ rest, .extraDefault first extra (t.spanOf extra) = finding := by
  rw [laterDefaults]
  cases t.defaults x <;> simp

theorem mem_laterLabel_iff {finding : Finding} : finding ∈ t.laterLabel r x ↔
    ∃ name first, t.labelName? x = some name ∧
      t.firstLabel? r (t.labelRegion r x) name = some first ∧ first ≠ x ∧
      .duplicateLabel name first x (t.spanOf x) = finding := by
  rw [laterLabel]
  cases t.labelName? x <;> simp [and_assoc]

theorem mem_openJumpsAt_iff {finding : Finding} : finding ∈ t.openJumpsAt r x ↔
    ∃ name, t.targetName? x = some name ∧
      (∀ y ∈ t.preorder r, ¬ t.Defines r (t.labelRegion r x) name y) ∧
      .undefinedTarget name x (t.spanOf x) = finding := by
  rw [openJumpsAt]
  cases t.targetName? x with
  | none => simp
  | some name =>
    simp only
    split
    next missing => simpa [eq_comm] using fun _ => missing
    next known => simp [known]

/-- What is found at a statement is about it, or about a `default` label that it owns. -/
theorem Linked.place_of_mem_faultsAt (h : t.Linked) {finding : Finding}
    (member : finding ∈ t.faultsAt r x) : finding.place = x ∨
      t.parent? finding.place = some x ∧ t.kind? finding.place = some .defaultLabel := by
  rcases List.mem_append.mp member with member | member
  · obtain ⟨first, rest, listed, extra, later, rfl⟩ := mem_laterDefaults_iff.mp member
    have default : extra ∈ t.defaults x := listed ▸ List.mem_cons_of_mem _ later
    exact .inr ⟨h.mem_owned_iff.mp (owned_of_mem_defaults default), (mem_defaults_iff.mp default).2⟩
  · obtain ⟨name, first, -, -, -, rfl⟩ := mem_laterLabel_iff.mp member
    exact .inl rfl

theorem place_of_mem_openJumpsAt {finding : Finding} (member : finding ∈ t.openJumpsAt r x) :
    finding.place = x := by
  obtain ⟨name, -, -, rfl⟩ := mem_openJumpsAt_iff.mp member
  rfl

theorem Linked.preorder_filter_eq (h : t.Linked) (live : t.contains r) (around : t.Within f r) :
    (t.preorder r).filter (· ∈ t.preorder f) = t.preorder f :=
  filter_mem_eq_of_infix (h.preorder_infix around) (h.nodup_preorder live)

/-- What arises in a subtree is what is found about it. -/
theorem Linked.filter_flatMap_eq (h : t.Linked) (live : t.contains r) (around : t.Within f r)
    {found found' : StmtId → List Finding}
    (arises : ∀ x, ∀ finding ∈ found x, finding.place ∈ t.preorder f ↔ x ∈ t.preorder f)
    (same : ∀ x ∈ t.preorder f, found x = found' x) :
    ((t.preorder r).flatMap found).filter (·.place ∈ t.preorder f) =
      (t.preorder f).flatMap found' := by
  have kept x : (found x).filter (·.place ∈ t.preorder f) =
      if x ∈ t.preorder f then found' x else [] := by
    split
    next inside =>
      rw [← same x inside]
      apply List.filter_eq_self.mpr
      exact fun finding member => decide_eq_true ((arises x finding member).mpr inside)
    next outside =>
      apply List.filter_eq_nil_iff.mpr
      exact fun finding member within =>
        outside ((arises x finding member).mp (of_decide_eq_true within))
  have pieces := h.preorder_filter_eq live around
  rw [List.filter_flatMap]
  simp only [kept]
  conv_rhs => rw [← pieces]
  generalize t.preorder r = order
  induction order with
  | nil => rfl
  | cons x rest ih =>
    rw [List.flatMap_cons, ih, List.filter_cons]
    by_cases inside : x ∈ t.preorder f <;> simp [inside]

/-! Regions seen from a function and from around it. -/

section regions
variable (h : t.Linked) (live : t.contains r) (around : t.Within f r)
  (function : t.kind? f = some .function)
include h live around function

/-- Beneath a function every region lies within it, and is the same from around it. -/
theorem Linked.labelRegion_of_function (within : t.Within x f) (below : x ≠ f) :
    t.labelRegion r x = t.labelRegion f x ∧ t.Within (t.labelRegion f x) f := by
  have inner := around.contains live
  have itself : t.Encloses f x f := ⟨below, within, .refl .., function⟩
  have apart : x ≠ r := by
    rintro rfl
    exact below (h.within_antisymm live within around)
  have found := h.isRegion_labelRegion live (within.trans around) apart
  have found' := h.isRegion_labelRegion inner within below
  rcases found' with ⟨encloses, nearest⟩ | ⟨-, none⟩
  · refine ⟨h.isRegion_unique (within.contains inner) found (.inl ⟨?_, ?_⟩), encloses.inside⟩
    · exact { encloses with inside := encloses.inside.trans around }
    · -- A function around `x` lies within `f`, or else `f` lies within it.
      intro g further
      rcases further.around.total within with inside | outside
      · exact nearest g { further with inside }
      · exact encloses.inside.trans outside
  · exact absurd itself (none f)

/-- The labels of a region within a function are those of the function. -/
theorem Linked.defines_iff_of_function (inside : y ∈ t.preorder r) (deep : t.Within region f) :
    t.Defines r region name y ↔ y ∈ t.preorder f ∧ t.Defines f region name y := by
  have inner := around.contains live
  have within := (h.mem_preorder_iff live).mp inside
  rw [h.mem_preorder_iff inner]
  have apart (label : t.labelName? y = some name) : y ≠ f := by
    rintro rfl
    obtain ⟨token, found, -⟩ := exists_label label
    simp [kind?_of_stmt? found, Stmt.kind] at function
  constructor
  · rintro ⟨label, rfl⟩
    have enters : t.Within y f := by
      by_cases whole : y = r
      · -- A label owns nothing, so it is not around a function.
        subst whole
        obtain ⟨token, found, -⟩ := exists_label label
        have below := (h.mem_preorder_iff live).mpr around
        have nothing : t.owned y = [] := owned_of_stmt? found
        rw [h.preorder_eq live, nothing] at below
        exact absurd (List.mem_singleton.mp below).symm (apart label)
      · rcases h.isRegion_labelRegion live within whole with ⟨encloses, -⟩ | ⟨same, -⟩
        · exact encloses.around.trans deep
        · exact within.trans (same ▸ deep)
    have same := (h.labelRegion_of_function live around function enters (apart label)).1
    exact ⟨enters, label, same.symm⟩
  · rintro ⟨enters, label, rfl⟩
    exact ⟨label, (h.labelRegion_of_function live around function enters (apart label)).1⟩

theorem Linked.firstLabel?_of_function (deep : t.Within region f) :
    t.firstLabel? r region name = t.firstLabel? f region name := by
  rw [firstLabel?, firstLabel?, ← h.preorder_filter_eq live around, List.find?_filter]
  apply List.find?_congr
  intro y inside
  simp [h.defines_iff_of_function live around function inside deep]

/-- What is found at a statement of a function is found there from around it. -/
theorem Linked.found_of_function (member : x ∈ t.preorder f) :
    t.faultsAt r x = t.faultsAt f x ∧ t.openJumpsAt r x = t.openJumpsAt f x := by
  have inner := around.contains live
  have within := (h.mem_preorder_iff inner).mp member
  by_cases whole : x = f
  · subst whole
    obtain ⟨s, found⟩ := exists_stmt inner
    have kind := kind_of_stmt? found function
    cases s <;> cases kind
    simp [faultsAt, laterLabel, labelName?, openJumpsAt, targetName?, found]
  · obtain ⟨same, deep⟩ := h.labelRegion_of_function live around function within whole
    constructor
    · simp only [faultsAt, laterLabel, same,
        h.firstLabel?_of_function live around function deep]
    · have open_iff (name : String) :
          (∀ y ∈ t.preorder r, ¬ t.Defines r (t.labelRegion f x) name y) ↔
            ∀ y ∈ t.preorder f, ¬ t.Defines f (t.labelRegion f x) name y := by
        constructor
        · intro missing y inside defines
          have outer := (h.preorder_infix around).subset inside
          exact missing y outer ((h.defines_iff_of_function live around function outer deep).mpr
            ⟨inside, defines⟩)
        · intro missing y outer defines
          obtain ⟨inside, defines⟩ :=
            (h.defines_iff_of_function live around function outer deep).mp defines
          exact missing y inside defines
      simp only [openJumpsAt, same, open_iff]

/-- A finding is about a statement of a function exactly if it arises in the function: a `default`
label is not a function, so it is in the function together with its switch. -/
theorem Linked.place_mem_iff {finding : Finding}
    (member : finding ∈ t.faultsAt r x ∨ finding ∈ t.openJumpsAt r x) :
    finding.place ∈ t.preorder f ↔ x ∈ t.preorder f := by
  have inner := around.contains live
  have arises : finding.place = x ∨
      t.parent? finding.place = some x ∧ t.kind? finding.place = some .defaultLabel :=
    member.elim h.place_of_mem_faultsAt fun jump => .inl (place_of_mem_openJumpsAt jump)
  rcases arises with same | ⟨owned, kind⟩
  · rw [same]
  · simp only [h.mem_preorder_iff inner]
    constructor
    · intro within
      rcases within.cases with same | ⟨owner, owned', within⟩
      · simp [same, function] at kind
      · cases Option.some.inj (owned.symm.trans owned')
        exact within
    · exact fun within => .step owned within

theorem Linked.validate_filter :
    t.validate f = (t.validate r).filter (·.place ∈ t.preorder f) := by
  have same x (member : x ∈ t.preorder f) := h.found_of_function live around function member
  rw [h.validate_eq live, h.validate_eq (around.contains live), List.filter_append,
    h.filter_flatMap_eq live around (fun x _ member =>
      h.place_mem_iff live around function (.inl member)) fun x member => (same x member).1,
    h.filter_flatMap_eq live around (fun x _ member =>
      h.place_mem_iff live around function (.inr member)) fun x member => (same x member).2]

end regions

/-! What a finding in a function rests on. -/

/-- Findings are about statements of the subtree and name no others. -/
theorem Linked.mem_preorder_of_mem_validate (h : t.Linked) (live : t.contains r)
    {finding : Finding} (member : finding ∈ t.validate r) :
    finding.place ∈ t.preorder r ∧ ∀ x ∈ finding.earlier?, x ∈ t.preorder r := by
  have beneath {x y : StmtId} (inside : x ∈ t.preorder r) (default : y ∈ t.defaults x) :
      y ∈ t.preorder r :=
    (h.walk_preorder live).owned_subset inside (owned_of_mem_defaults default)
  rw [h.validate_eq live] at member
  rcases List.mem_append.mp member with member | member
  · obtain ⟨x, inside, arises⟩ := List.mem_flatMap.mp member
    rcases List.mem_append.mp arises with arises | arises
    · obtain ⟨first, rest, listed, extra, later, rfl⟩ := mem_laterDefaults_iff.mp arises
      refine ⟨beneath inside (listed ▸ List.mem_cons_of_mem _ later), ?_⟩
      rintro _ ⟨⟩
      exact beneath inside (listed ▸ List.mem_cons_self)
    · obtain ⟨name, first, -, found, -, rfl⟩ := mem_laterLabel_iff.mp arises
      refine ⟨inside, ?_⟩
      rintro _ ⟨⟩
      exact List.mem_of_find?_eq_some found
  · obtain ⟨x, inside, arises⟩ := List.mem_flatMap.mp member
    obtain ⟨name, -, -, rfl⟩ := mem_openJumpsAt_iff.mp arises
    refine ⟨inside, ?_⟩
    rintro _ ⟨⟩

/-- Two trees say the same about the statements beneath one of them, wherever that one stands. -/
def AlikeBeneath (t : Tree) (f : StmtId) (t' : Tree) : Prop :=
  ∀ x ∈ t.preorder f, t'.stmt? x = t.stmt? x ∧ t'.spanOf x = t.spanOf x

namespace AlikeBeneath
variable (alike : t.AlikeBeneath f t') (h : t.Linked) (h' : t'.Linked) (live : t.contains f)
include alike h live

theorem preorder_eq : t'.preorder f = t.preorder f := by
  have walk := h.walk_preorder live
  refine Linked.preorder_of_walk (walk.congr fun x member => ?_) (h.nodup_preorder live)
  obtain ⟨same, -⟩ := alike x member
  rw [contains_eq, owned_eq, owned_eq, same]
  exact ⟨contains_eq ▸ walk.contains_of_mem member, rfl⟩

theorem defaults_eq (member : x ∈ t.preorder f) : t'.defaults x = t.defaults x := by
  obtain ⟨same, -⟩ := alike x member
  unfold defaults
  rw [same]
  split
  next condition body found =>
    apply List.filter_congr
    intro y child
    have owned : y ∈ t.owned x := mem_owned_of_child found child
    obtain ⟨same, -⟩ := alike y ((h.walk_preorder live).owned_subset member owned)
    rw [kind?_eq, same, ← kind?_eq]
  next => rfl

include h'

theorem labelRegion_eq (within : t.Within x f) (below : x ≠ f) :
    t'.labelRegion f x = t.labelRegion f x := by
  induction within using Relation.ReflTransGen.head_induction_on with
  | refl => exact absurd rfl below
  | @head x p owned inside ih =>
    obtain ⟨same, -⟩ := alike p ((h.mem_preorder_iff live).mpr inside)
    have owned' : t'.parent? x = some p := by
      rw [← h'.mem_owned_iff, owned_eq, same, ← owned_eq]
      exact h.mem_owned_iff.mpr owned
    rw [h.labelRegion_owned owned, h'.labelRegion_owned owned', kind?_eq, same, ← kind?_eq]
    by_cases whole : p = f
    · rw [if_pos whole, if_pos whole]
    · rw [ih whole]

variable (function : t.kind? f = some .function)
include function

/-- A label and a jump are not the function itself, so their region is found beneath it. -/
theorem labelRegion_eq_of_name (member : x ∈ t.preorder f)
    (named : t.labelName? x = some name ∨ t.targetName? x = some name) :
    t'.labelRegion f x = t.labelRegion f x := by
  apply alike.labelRegion_eq h h' live ((h.mem_preorder_iff live).mp member)
  rintro rfl
  obtain ⟨s, found⟩ := exists_stmt live
  have kind := kind_of_stmt? found function
  cases s <;> cases kind
  simp [labelName?, targetName?, found] at named

theorem defines_iff (member : x ∈ t.preorder f) :
    t'.Defines f region name x ↔ t.Defines f region name x := by
  obtain ⟨same, -⟩ := alike x member
  have label : t'.labelName? x = t.labelName? x := by rw [labelName?, same, ← labelName?]
  rw [Defines, Defines, label]
  refine and_congr_right fun named => ?_
  rw [alike.labelRegion_eq_of_name h h' live function member (.inl named)]

theorem faultsAt_eq (member : x ∈ t.preorder f) : t'.faultsAt f x = t.faultsAt f x := by
  obtain ⟨same, _⟩ := alike x member
  have label : t'.labelName? x = t.labelName? x := by rw [labelName?, same, ← labelName?]
  have first (region : StmtId) (name : String) :
      t'.firstLabel? f region name = t.firstLabel? f region name := by
    rw [firstLabel?, firstLabel?, alike.preorder_eq h live]
    apply List.find?_congr
    intro y inside
    simp only [alike.defines_iff h h' live function inside]
  have later : t'.laterDefaults x = t.laterDefaults x := by
    rw [laterDefaults, laterDefaults, alike.defaults_eq h live member]
    split
    next => rfl
    next head rest listed =>
      apply List.map_congr_left
      intro y behind
      have default : y ∈ t.defaults x := listed ▸ List.mem_cons_of_mem _ behind
      have inside := (h.walk_preorder live).owned_subset member (owned_of_mem_defaults default)
      rw [(alike y inside).2]
  rw [faultsAt, faultsAt, later, laterLabel, laterLabel, label]
  split
  next => rfl
  next name named =>
    rw [alike.labelRegion_eq_of_name h h' live function member (.inl named), first,
      (alike x member).2]

theorem openJumpsAt_eq (member : x ∈ t.preorder f) : t'.openJumpsAt f x = t.openJumpsAt f x := by
  obtain ⟨same, place⟩ := alike x member
  have target : t'.targetName? x = t.targetName? x := by rw [targetName?, same, ← targetName?]
  rw [openJumpsAt, openJumpsAt, target]
  split
  next => rfl
  next name named =>
    have missing : (∀ y ∈ t'.preorder f, ¬ t'.Defines f (t.labelRegion f x) name y) ↔
        ∀ y ∈ t.preorder f, ¬ t.Defines f (t.labelRegion f x) name y := by
      rw [alike.preorder_eq h live]
      exact forall₂_congr fun y inside => not_congr (alike.defines_iff h h' live function inside)
    rw [alike.labelRegion_eq_of_name h h' live function member (.inr named), place]
    simp only [missing]

theorem validate_eq : t'.validate f = t.validate f := by
  have live' : t'.contains f := by
    rw [contains_eq, (alike f (h.mem_preorder_self live)).1, ← contains_eq]
    exact live
  rw [h.validate_eq live, h'.validate_eq live', alike.preorder_eq h live,
    List.flatMap_congr fun x => alike.faultsAt_eq h h' live function,
    List.flatMap_congr fun x => alike.openJumpsAt_eq h h' live function]

end AlikeBeneath

/-- Beneath a statement that is detached everything stays. -/
theorem Rooted.alikeBeneath_detach (h : t.Rooted) (f : StmtId) :
    t.AlikeBeneath f ((detach f).after t) := by
  obtain ⟨e, held⟩ | ⟨-, -, run⟩ | ⟨owner, s, owned, found, free, run⟩ := h.detach_outcome f
  · rw [TreeM.after_error (h.detach_of_held held)]
    exact fun _ _ => ⟨rfl, rfl⟩
  · rw [TreeM.after_ok run]
    exact fun _ _ => ⟨rfl, rfl⟩
  · rw [TreeM.after_ok run]
    have effect := h.toLinked.detached owned found free
    intro x member
    by_cases whole : x = f
    · subst whole
      rw [stmt?, spanOf, effect.itself, stmt?, spanOf]
      cases t.get? x <;> exact ⟨rfl, rfl⟩
    · have same := effect.others x whole (effect.subtree x member)
      rw [stmt?, spanOf, same]
      exact ⟨rfl, rfl⟩

/-- A repeated `default` label is in a function exactly if its switch is. -/
theorem Linked.switch_of_extraDefault (h : t.Linked) (live : t.contains r)
    (around : t.Within f r) (function : t.kind? f = some .function) {first extra : StmtId}
    {span : Span} (member : .extraDefault first extra span ∈ t.validate r) :
    ∃ s, t.kind? s = some .switch ∧ t.parent? first = some s ∧ t.parent? extra = some s ∧
      (extra ∈ t.preorder f ↔ s ∈ t.preorder f) := by
  rw [h.validate_eq live] at member
  rcases List.mem_append.mp member with member | member
  · obtain ⟨s, inside, arises⟩ := List.mem_flatMap.mp member
    have place := h.place_mem_iff live around function (.inl arises)
    rcases List.mem_append.mp arises with arises | arises
    · obtain ⟨_, rest, listed, _, later, same⟩ := mem_laterDefaults_iff.mp arises
      cases same
      have default : first ∈ t.defaults s := listed ▸ List.mem_cons_self
      have default' : extra ∈ t.defaults s := listed ▸ List.mem_cons_of_mem _ later
      obtain ⟨⟨condition, body, found, -⟩, -⟩ := mem_defaults_iff.mp default
      exact ⟨s, kind?_of_stmt? found, h.mem_owned_iff.mp (owned_of_mem_defaults default),
        h.mem_owned_iff.mp (owned_of_mem_defaults default'), place⟩
    · obtain ⟨_, _, -, -, -, same⟩ := mem_laterLabel_iff.mp arises
      cases same
  · obtain ⟨x, inside, arises⟩ := List.mem_flatMap.mp member
    obtain ⟨_, -, -, same⟩ := mem_openJumpsAt_iff.mp arises
    cases same

/-- Validating a function finds, in the same order, what validating a subtree around it finds about
the statements of the function. A repeated `default` counts as one of them if its switch does, and
the statement that a finding names as the earlier one lies in the function as well. Whatever else
is in the tree or becomes of the function's surroundings, these findings stay. -/
theorem Reachable.validate_function (h : Reachable admitted t) (live : t.contains r)
    (inside : f ∈ t.preorder r) (function : t.kind? f = some .function) :
    t.validate f = (t.validate r).filter (·.place ∈ t.preorder f) ∧
    (∀ finding ∈ t.validate f,
      finding.place ∈ t.preorder f ∧ ∀ x ∈ finding.earlier?, x ∈ t.preorder f) ∧
    (∀ first extra span, .extraDefault first extra span ∈ t.validate r →
      ∃ s, t.kind? s = some .switch ∧ t.parent? first = some s ∧ t.parent? extra = some s ∧
        (extra ∈ t.preorder f ↔ s ∈ t.preorder f)) ∧
    ∀ admitted' t', Reachable admitted' t' → t.AlikeBeneath f t' →
      t'.validate f = t.validate f ∧ ∀ r', t'.contains r' → f ∈ t'.preorder r' →
        (t'.validate r').filter (·.place ∈ t.preorder f) = t.validate f := by
  have linked := h.rooted.toLinked
  have around := (linked.mem_preorder_iff live).mp inside
  have inner := around.contains live
  refine ⟨linked.validate_filter live around function, ?_, ?_, ?_⟩
  · exact fun finding => linked.mem_preorder_of_mem_validate inner
  · exact fun first extra span => linked.switch_of_extraDefault live around function
  · intro admitted' t' h' alike
    have linked' := h'.rooted.toLinked
    have same := alike.validate_eq linked linked' inner function
    refine ⟨same, fun r' live' inside' => ?_⟩
    have function' : t'.kind? f = some .function := by
      rw [kind?_eq, (alike f (linked.mem_preorder_self inner)).1, ← kind?_eq]
      exact function
    rw [← same, ← alike.preorder_eq linked inner]
    have around' := (linked'.mem_preorder_iff live').mp inside'
    exact (linked'.validate_filter live' around' function').symm

/-- A function stands in a switch that has two `default` children. It repeats a label, of which a
function in it has one too, jumps to a label that only its surroundings have, and holds in turn a
switch with two `default` children. Taken out of the tree it has the same faults. -/
theorem validate_function_of_switch :
    let head : Signature := { name := ⟨.identifier, "f", .none⟩, returns := .named "void" }
    let label (name : String) : Stmt := .label ⟨.identifier, name, .none⟩
    let value : Expr := .ident ⟨.identifier, "v", .none⟩
    let calls : List Change := [
      .push root (label "out"), .addExpr value, .push root (.switch ⟨2⟩ .empty),
      .push ⟨3⟩ .defaultLabel, .push ⟨3⟩ (.function head .empty),
      .push ⟨5⟩ (.goto ⟨.identifier, "out", .none⟩), .push ⟨5⟩ (.block .empty),
      .push ⟨7⟩ (label "again"), .push ⟨5⟩ (.function head .empty), .push ⟨9⟩ (label "again"),
      .addExpr value, .push ⟨9⟩ (.switch ⟨11⟩ .empty), .push ⟨12⟩ .defaultLabel,
      .push ⟨12⟩ .defaultLabel, .push ⟨5⟩ (label "again"), .push ⟨3⟩ .defaultLabel,
      .push root (label "out")]
    let t := initial.run calls
    let t' := (detach ⟨5⟩).after t
    let found : List Finding := [.extraDefault ⟨13⟩ ⟨14⟩ .none,
      .duplicateLabel "again" ⟨8⟩ ⟨15⟩ .none, .undefinedTarget "out" ⟨6⟩ .none]
    Reachable (fun _ => True) t ∧ Reachable (fun _ => True) t' ∧
      t.contains root ∧ ⟨5⟩ ∈ t.preorder root ∧ t.kind? ⟨5⟩ = some .function ∧
      t.validate root = [.extraDefault ⟨4⟩ ⟨16⟩ .none, .extraDefault ⟨13⟩ ⟨14⟩ .none,
        .duplicateLabel "again" ⟨8⟩ ⟨15⟩ .none, .duplicateLabel "out" ⟨1⟩ ⟨17⟩ .none,
        .undefinedTarget "out" ⟨6⟩ .none] ∧
      t.validate ⟨5⟩ = found ∧ ⟨5⟩ ∉ t'.preorder root ∧ t.AlikeBeneath ⟨5⟩ t' ∧
      t'.validate ⟨5⟩ = found := by
  intro head label value calls t t' found
  have h : Reachable (fun _ => True) t := Reachable.initial.run fun _ _ _ _ => trivial
  have h' : Reachable (fun _ => True) t' := h.change (.detach ⟨5⟩) fun _ _ => trivial
  have live : t.contains root := by decide +kernel
  have inside : ⟨5⟩ ∈ t.preorder root := by decide +kernel
  have function : t.kind? ⟨5⟩ = some .function := by decide +kernel
  have whole : t.validate root = [.extraDefault ⟨4⟩ ⟨16⟩ .none, .extraDefault ⟨13⟩ ⟨14⟩ .none,
      .duplicateLabel "again" ⟨8⟩ ⟨15⟩ .none, .duplicateLabel "out" ⟨1⟩ ⟨17⟩ .none,
      .undefinedTarget "out" ⟨6⟩ .none] := by decide +kernel
  have alike := h.rooted.alikeBeneath_detach ⟨5⟩
  obtain ⟨part, -, -, elsewhere⟩ := h.validate_function live inside function
  have found_eq : t.validate ⟨5⟩ = found := by
    rw [part, whole]
    decide +kernel
  exact ⟨h, h', live, inside, function, whole, found_eq, by decide +kernel, alike,
    (elsewhere _ t' h' alike).1.trans found_eq⟩

end Tree
end KernelTree
