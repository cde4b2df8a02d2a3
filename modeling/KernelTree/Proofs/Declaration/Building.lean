import KernelTree.Proofs.Text
import KernelTree.TypeSpec
import Mathlib.Data.List.Nodup
/-! Types that are built step by step. The steps may come in any order and number: every qualifier
is kept once, where it was used first, and the pointers are counted in one byte. The declarator
shows just that. -/
namespace KernelTree.TypeSpec

open Text (toList_pushn notMem_intercalate)

/-- A step in building a type. -/
inductive Step where
  | pointer
  | qualifier (q : Qualifier)
deriving DecidableEq, Repr

def step (t : TypeSpec) : Step → TypeSpec
  | .pointer => t.pointerTo
  | .qualifier q => t.qualify q

/-- The type to which the steps lead from a name. -/
def build (name : String) (steps : List Step) : TypeSpec := steps.foldl step (named name)

/-- The qualifiers of the steps, as often as they come. -/
def used (steps : List Step) : List Qualifier :=
  steps.filterMap fun
    | .pointer => none
    | .qualifier q => some q

/-- Every qualifier that is used is listed once, in the order in which they were used first. -/
structure FirstUses (used qs : List Qualifier) : Prop where
  nodup : qs.Nodup
  mem : ∀ q, q ∈ qs ↔ q ∈ used
  order : qs.Pairwise fun p q => used.idxOf p < used.idxOf q

namespace FirstUses

variable {used qs : List Qualifier} {q : Qualifier}

/-- What is used later does not change the order. -/
theorem order_append (h : FirstUses used qs) (later : List Qualifier) :
    qs.Pairwise fun p q => (used ++ later).idxOf p < (used ++ later).idxOf q := by
  refine h.order.imp_of_mem fun {p p'} inside inside' before => ?_
  rwa [List.idxOf_append_of_mem ((h.mem p).mp inside),
    List.idxOf_append_of_mem ((h.mem p').mp inside')]

theorem again (h : FirstUses used qs) (known : q ∈ used) : FirstUses (used ++ [q]) qs where
  nodup := h.nodup
  mem p := by
    rw [h.mem, List.mem_append, List.mem_singleton]
    exact ⟨.inl, fun inside => inside.elim id fun same => same ▸ known⟩
  order := h.order_append [q]

theorem first (h : FirstUses used qs) (new : q ∉ used) : FirstUses (used ++ [q]) (qs ++ [q]) where
  nodup := h.nodup.append (List.nodup_singleton q) (by simpa [h.mem] using new)
  mem p := by simp [h.mem]
  order := by
    refine List.pairwise_append.mpr ⟨h.order_append [q], List.pairwise_singleton _ _, ?_⟩
    intro p inside p' last
    cases List.mem_singleton.mp last
    have known := (h.mem p).mp inside
    rw [List.idxOf_append_of_mem known, List.idxOf_append_of_notMem new, List.idxOf_cons_self]
    exact List.idxOf_lt_length_of_mem known

/-- Leaving some out keeps the others in order. -/
theorem filter (h : FirstUses used qs) (p : Qualifier → Bool) :
    (qs.filter p).Pairwise fun q q' => used.idxOf q < used.idxOf q' :=
  h.order.sublist List.filter_sublist

end FirstUses

/-- What a type is after the steps. -/
structure Built (name : String) (steps : List Step) (t : TypeSpec) : Prop where
  name : t.name = name
  qualifiers : FirstUses (used steps) t.qualifiers
  pointers : t.pointers.toNat = steps.count .pointer % 256

namespace Built

variable {name : String} {steps : List Step} {t : TypeSpec}

theorem named : Built name [] (named name) where
  name := rfl
  qualifiers := ⟨List.nodup_nil, fun _ => .rfl, .nil⟩
  pointers := rfl

theorem step (h : Built name steps t) (s : Step) : Built name (steps ++ [s]) (t.step s) := by
  cases s with
  | pointer =>
    constructor
    case name => exact h.name
    case qualifiers =>
      have uses : used (steps ++ [.pointer]) = used steps := by simp [used]
      exact uses ▸ h.qualifiers
    case pointers =>
      have next : (t.pointers + 1).toNat = (t.pointers.toNat + 1) % 256 := UInt8.toNat_add ..
      rw [TypeSpec.step, pointerTo, next, h.pointers, List.count_append, List.count_singleton_self,
        Nat.mod_add_mod]
  | qualifier q =>
    have uses : used (steps ++ [.qualifier q]) = used steps ++ [q] := by simp [used]
    have known : t.has q ↔ q ∈ used steps := by
      rw [has, List.contains_iff_mem, h.qualifiers.mem]
    have count : (steps ++ [Step.qualifier q]).count .pointer = steps.count .pointer := by simp
    rw [TypeSpec.step, qualify]
    split
    next present =>
      exact ⟨h.name, uses ▸ h.qualifiers.again (known.mp present), count ▸ h.pointers⟩
    next absent =>
      exact ⟨h.name, uses ▸ h.qualifiers.first (absent ∘ known.mpr), count ▸ h.pointers⟩

theorem run (h : Built name steps t) (more : List Step) :
    Built name (steps ++ more) (more.foldl TypeSpec.step t) := by
  induction more generalizing steps t with
  | nil => rwa [List.append_nil]
  | cons s rest ih =>
    rw [List.foldl_cons, ← List.singleton_append, ← List.append_assoc]
    exact ih (h.step s)

end Built

theorem built_build (name : String) (steps : List Step) : Built name steps (build name steps) :=
  Built.named.run steps

section
variable {steps : List Step} {name : String} {t : TypeSpec}

/-- The words before the name are those of the qualifiers that do not bind to a pointer. -/
theorem Built.renderBase (h : Built name steps t) (sp : Spelling) :
    ∃ qs : List Qualifier, qs.Nodup ∧
    (∀ q, q ∈ qs ↔ q ∈ used steps ∧ q ≠ .restrict ∧ (sp.word? q).isSome) ∧
    (qs.Pairwise fun p q => (used steps).idxOf p < (used steps).idxOf q) ∧
    t.renderBase sp = " ".intercalate (qs.filterMap sp.word? ++ [sp.typeName name]) := by
  let shown (q : Qualifier) : Bool := !q.bindsPointer && (sp.word? q).isSome
  have written : (t.qualifiers.filter shown).filterMap sp.word? =
      (t.qualifiers.filter (!·.bindsPointer)).filterMap sp.word? := by
    rw [List.filterMap_filter, List.filterMap_filter]
    refine List.filterMap_congr fun q _ => ?_
    cases word : sp.word? q <;> simp [shown, word]
  refine ⟨t.qualifiers.filter shown, h.qualifiers.nodup.filter _, fun q => ?_,
    h.qualifiers.filter _, by rw [written, TypeSpec.renderBase, h.name]⟩
  simp [shown, h.qualifiers.mem, Qualifier.bindsPointer]

/-- Behind the stars stands the word of the one qualifier that binds to a pointer. -/
theorem Built.renderStars (h : Built name steps t) (sp : Spelling) :
    t.renderStars sp = "".pushn '*' (steps.count .pointer % 256) ++
      if .restrict ∈ used steps ∧ steps.count .pointer % 256 ≠ 0
      then ((sp.word? .restrict).map (· ++ " ")).getD "" else "" := by
  have binding : t.qualifiers.filter (·.bindsPointer) =
      if .restrict ∈ used steps then [.restrict] else [] := by
    have once : t.qualifiers.filter (·.bindsPointer) =
        List.replicate (t.qualifiers.count .restrict) .restrict := List.filter_beq ..
    rw [once, h.qualifiers.nodup.count]
    simp only [h.qualifiers.mem]
    split <;> rfl
  have none : t.pointers = 0 ↔ steps.count .pointer % 256 = 0 := by
    rw [← h.pointers, ← UInt8.toNat_inj]
    rfl
  rw [TypeSpec.renderStars, binding, h.pointers]
  by_cases bare : steps.count .pointer % 256 = 0
  · rw [if_pos (none.mpr bare), if_neg (fun both => both.2 bare), bare]
    rfl
  · rw [if_neg (bare ∘ none.mp)]
    by_cases bound : .restrict ∈ used steps
    · rw [if_pos bound, if_pos ⟨bound, bare⟩]
      cases word : sp.word? .restrict <;> simp [word]
    · rw [if_neg bound, if_neg (fun both => bound both.1)]
      rfl

end

theorem count_declarator {base behind var : String} (front : '*' ∉ base.toList)
    (bound : '*' ∉ behind.toList) (declared : '*' ∉ var.toList) (n : Nat) :
    (base ++ " " ++ ("".pushn '*' n ++ behind) ++ var).toList.count '*' = n := by
  have blank : " ".toList.count '*' = 0 := by decide
  simp only [String.toList_append, List.count_append, toList_pushn, List.count_replicate_self,
    List.count_eq_zero.mpr front, List.count_eq_zero.mpr bound, List.count_eq_zero.mpr declared,
    blank, Nat.zero_add, Nat.add_zero]

/-- The declarator of a type has the words of the qualifiers used, each once and in the order of
their first use, before the name, and as many stars behind it as there were pointers, counted in one
byte. The count starts over after 255, as in a build without overflow checks; a build with them
would stop at the 256th pointer. -/
theorem renderDeclarator_build (sp : Spelling) (name var : String) (steps : List Step)
    (starless : ∀ w ∈ sp.typeName name :: var :: (used steps).filterMap sp.word?, '*' ∉ w.toList) :
    let text := (build name steps).renderDeclarator sp var
    let stars := steps.count .pointer % 256
    (∃ qs : List Qualifier, qs.Nodup ∧
      (∀ q, q ∈ qs ↔ q ∈ used steps ∧ q ≠ .restrict ∧ (sp.word? q).isSome) ∧
      (qs.Pairwise fun p q => (used steps).idxOf p < (used steps).idxOf q) ∧
      text = " ".intercalate (qs.filterMap sp.word? ++ [sp.typeName name]) ++ " " ++
        ("".pushn '*' stars ++
        if .restrict ∈ used steps ∧ stars ≠ 0
          then ((sp.word? .restrict).map (· ++ " ")).getD "" else "") ++ var) ∧
    text.toList.count '*' = stars ∧
    (text.toList.count '*' = steps.count .pointer ↔ steps.count .pointer < 256) := by
  intro text stars
  have built := built_build name steps
  obtain ⟨qs, nodup, mem, order, base⟩ := built.renderBase sp
  let bound := if .restrict ∈ used steps ∧ stars ≠ 0
    then ((sp.word? .restrict).map (· ++ " ")).getD "" else ""
  have shown : text = " ".intercalate (qs.filterMap sp.word? ++ [sp.typeName name]) ++ " " ++
      ("".pushn '*' stars ++ bound) ++ var :=
    congrArg₂ (fun base behind => base ++ " " ++ behind ++ var) base
      (built.renderStars sp)
  simp only [List.forall_mem_cons] at starless
  obtain ⟨typeName, declared, words⟩ := starless
  have word (q : Qualifier) (inside : q ∈ used steps) : ∀ w ∈ sp.word? q, '*' ∉ w.toList :=
    fun w word => words w (List.mem_filterMap.mpr ⟨q, inside, word⟩)
  have front : '*' ∉ (" ".intercalate (qs.filterMap sp.word? ++ [sp.typeName name])).toList := by
    refine notMem_intercalate (by decide) ?_
    rw [List.forall_mem_append, List.forall_mem_singleton]
    refine ⟨fun w written => ?_, typeName⟩
    obtain ⟨q, inside, spelled⟩ := List.mem_filterMap.mp written
    exact word q ((mem q).mp inside).1 w spelled
  have behind : '*' ∉ bound.toList := by
    unfold bound
    split
    next both =>
      cases spelled : sp.word? .restrict with
      | none => simp
      | some w => simpa using word _ both.1 w spelled
    next => simp
  have count : text.toList.count '*' = stars := by
    rw [shown, count_declarator front behind declared]
  refine ⟨⟨qs, nodup, mem, order, shown⟩, count, ?_⟩
  rw [count]
  exact ⟨fun same => same ▸ Nat.mod_lt _ (by decide), Nat.mod_eq_of_lt⟩

/-- Two pointers and two qualifiers, one of which comes twice. -/
theorem renderDeclarator_build_of_restrict :
    let steps := [.pointer, .qualifier .const, .pointer, .qualifier .restrict, .qualifier .const]
    let text := (build "float" steps).renderDeclarator .plain "a"
    (∀ w ∈ "float" :: "a" :: (used steps).filterMap Spelling.plain.word?, '*' ∉ w.toList) ∧
    text = "const float **restrict a" ∧ text.toList.count '*' = 2 := by
  intro steps text
  have starless : ∀ w ∈ "float" :: "a" :: (used steps).filterMap Spelling.plain.word?,
      '*' ∉ w.toList := by decide
  exact ⟨starless, by decide, (renderDeclarator_build .plain "float" "a" steps starless).2.1⟩

/-- With 256 pointers the type is the one without any. -/
theorem not_renderDeclarator_build :
    ¬ ∀ (sp : Spelling) (name var : String) (steps : List Step),
      (∀ w ∈ sp.typeName name :: var :: (used steps).filterMap sp.word?, '*' ∉ w.toList) →
      ((build name steps).renderDeclarator sp var).toList.count '*' = steps.count .pointer := by
  intro counted
  have unused (n : Nat) : used (List.replicate n .pointer) = [] :=
    List.filterMap_eq_nil_iff.mpr fun s inside => by rw [List.eq_of_mem_replicate inside]
  have none : build "float" (List.replicate 256 .pointer) = named "float" := by
    obtain ⟨name, uses, pointers⟩ := built_build "float" (List.replicate 256 .pointer)
    rw [List.count_replicate_self] at pointers
    rw [unused] at uses
    generalize build "float" (List.replicate 256 .pointer) = t at *
    obtain ⟨_, qualifiers, count⟩ := t
    have qualifiers : qualifiers = [] := List.eq_nil_iff_forall_not_mem.mpr fun q inside =>
      List.not_mem_nil ((uses.mem q).mp inside)
    have count : count = 0 := UInt8.toNat_inj.mp pointers
    rw [qualifiers, count, named, ← show _ = "float" from name]
  have count := counted .plain "float" "a" (List.replicate 256 .pointer) (by rw [unused]; decide)
  have bare : ((named "float").renderDeclarator .plain "a").toList.count '*' = 0 := by decide
  rw [none, bare, List.count_replicate_self] at count
  omega

end KernelTree.TypeSpec
