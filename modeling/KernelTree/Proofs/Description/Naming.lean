import KernelTree.Proofs.Description.Outline
import Mathlib.Data.List.Perm.Basic
import Mathlib.Data.List.Nodup
/-! Names of a description. While a tree is built, no name is declared twice at the same level
exactly if no level of the description has a name twice. -/
namespace KernelTree

namespace Outline

variable {base n : Nat} {container : StmtId} {span : Span} {o : Outline} {os os' : List Outline}

@[simp] theorem linesAll_append : linesAll (os ++ os') = linesAll os ++ linesAll os' := by
  induction os with
  | nil => rfl
  | cons o rest ih => simp [linesAll, ih]

@[simp] theorem total_nil : total [] = 0 := rfl

theorem total_cons (o : Outline) (os : List Outline) : total (o :: os) = total [o] + total os := by
  simp [total, linesAll]

@[simp] theorem total_append : total (os ++ os') = total os + total os' := by simp [total]

theorem total_node {shape : Stmt.Shape} {init header children entries : List Outline} :
    total [node shape span init header children entries] =
      total init + total header + total children + total entries + 1 := by
  simp [total, linesAll, lines, Nat.add_assoc]

/-- A statement has a number from among those given out while it is built. -/
theorem number_range (base : Nat) (o : Outline) :
    base ≤ (o.number base).index ∧ (o.number base).index < base + total [o] := by
  obtain ⟨shape, span, init, header, children, entries⟩ := o
  rw [total_node]
  simp only [number]
  omega

theorem numbers_append :
    numbers base (os ++ os') = numbers base os ++ numbers (base + total os) os' := by
  induction os generalizing base with
  | nil => rfl
  | cons o rest ih => simp [numbers, ih, total_cons o rest, Nat.add_assoc]

@[simp] theorem length_numbers : (numbers base os).length = os.length := by
  induction os generalizing base with
  | nil => rfl
  | cons o rest ih => simp [numbers, ih]

theorem numbers_range {id : StmtId} (member : id ∈ numbers base os) :
    base ≤ id.index ∧ id.index < base + total os := by
  induction os generalizing base with
  | nil => simp [numbers] at member
  | cons o rest ih =>
    rw [total_cons]
    rcases List.mem_cons.mp member with rfl | member
    · have := number_range base o
      omega
    · have := ih member
      omega

theorem numbers_nodup (base : Nat) (os : List Outline) : (numbers base os).Nodup := by
  induction os generalizing base with
  | nil => simp [numbers]
  | cons o rest ih =>
    refine List.nodup_cons.mpr ⟨fun member => ?_, ih _⟩
    have := number_range base o
    have := numbers_range member
    omega

theorem bindingsAll_append :
    bindingsAll base (os ++ os') = bindingsAll base os ++ bindingsAll (base + total os) os' := by
  induction os generalizing base with
  | nil => rfl
  | cons o rest ih => simp [bindingsAll, ih, total_cons o rest, Nat.add_assoc]

theorem keys_bound : (o.bound container base span).map (·.key) = o.names.map (container, ·) := by
  simp [bound, Binding.key, Function.comp_def]

theorem keys_boundAll :
    (boundAll container base span os).map (·.key) = (os.flatMap names).map (container, ·) := by
  induction os generalizing base with
  | nil => rfl
  | cons o rest ih => simp [boundAll, ih, keys_bound]

/-- At the level of a container are declared the names of its children, and nothing else apart from
what is declared inside the children. -/
theorem keys_childBindings (container : StmtId) (base : Nat) (os : List Outline) :
    ((childBindings container base os).map (·.key)).Perm
    ((os.flatMap names).map (container, ·) ++ (bindingsAll base os).map (·.key)) := by
  induction os generalizing base with
  | nil => rfl
  | cons o rest ih =>
    simp only [childBindings, bindingsAll, List.map_append, List.flatMap_cons, keys_bound]
    refine ((ih _).append_left _).trans ?_
    simp only [List.append_assoc]
    exact List.perm_append_comm_assoc .. |>.trans <|
      .append_left _ (List.perm_append_comm_assoc ..)

/-- All names are declared at levels of statements numbered from a range. -/
def Ranged (low high : Nat) (bs : List Binding) : Prop :=
  ∀ b ∈ bs, low ≤ b.container.index ∧ b.container.index < high

namespace Ranged

variable {low middle middle' high : Nat} {bs bs' : List Binding} {name : String}

theorem append (first : Ranged low middle bs) (later : Ranged middle' high bs')
    (below : low ≤ middle') (above : middle ≤ high) : Ranged low high (bs ++ bs') := by
  intro b member
  rcases List.mem_append.mp member with member | member
  · have := first b member
    omega
  · have := later b member
    omega

theorem not_mem (ranged : Ranged low high bs)
    (outside : container.index < low ∨ high ≤ container.index) :
    (container, name) ∉ bs.map (·.key) := by
  intro member
  obtain ⟨b, inside, same⟩ := List.mem_map.mp member
  have place : b.container = container := congrArg Prod.fst same
  have := ranged b inside
  rw [place] at this
  omega

theorem nodup_append_iff (first : Ranged low middle bs) (later : Ranged middle' high bs')
    (gap : middle ≤ middle') :
    ((bs ++ bs').map (·.key)).Nodup ↔ (bs.map (·.key)).Nodup ∧ (bs'.map (·.key)).Nodup := by
  rw [List.map_append, List.nodup_append']
  refine ⟨fun ⟨left, right, _⟩ => ⟨left, right⟩, fun ⟨left, right⟩ => ⟨left, right, ?_⟩⟩
  rintro key member
  obtain ⟨b, inside, rfl⟩ := List.mem_map.mp member
  have := first b inside
  exact later.not_mem (.inl (by omega))

end Ranged

/-- Names of one level besides those of others. -/
theorem nodup_level_iff {names : List String} {bs : List Binding}
    (absent : ∀ name, (container, name) ∉ bs.map (·.key)) :
    (names.map (container, ·) ++ bs.map (·.key)).Nodup ↔
      names.Nodup ∧ (bs.map (·.key)).Nodup := by
  rw [List.nodup_append', List.nodup_map_iff fun _ _ same => (Prod.mk.inj same).2, ← and_assoc,
    and_iff_left]
  rintro key member
  obtain ⟨name, -, rfl⟩ := List.mem_map.mp member
  exact absent name

/-- Every name is declared at the level of a statement that is being built or, if `container` is
given, of the statement whose children are being built. -/
theorem ranged_childBindings (inside : Ranged n (n + total os) (bindingsAll n os)) :
    ∀ b ∈ childBindings container n os, b.container = container ∨
      n ≤ b.container.index ∧ b.container.index < n + total os := by
  intro b member
  have key := List.mem_map_of_mem (f := Binding.key) member
  rw [(keys_childBindings ..).mem_iff, List.mem_append] at key
  rcases key with own | inner
  · obtain ⟨name, -, same⟩ := List.mem_map.mp own
    exact .inl (congrArg Prod.fst same).symm
  · obtain ⟨b', inner, same⟩ := List.mem_map.mp inner
    have : b'.container = b.container := congrArg Prod.fst same
    exact .inr (this ▸ inside b' inner)

mutual

/-- Inside a statement names are declared at the levels of the statements built with it only. -/
theorem ranged_bindings : ∀ (o : Outline) (base : Nat),
    Ranged base (base + total [o]) (o.bindings base)
  | node shape span init header children entries, base => by
    have first := ranged_bindingsAll init base
    have second := ranged_bindingsAll header (base + total init)
    have third := ranged_bindingsAll children (base + total init + total header + 1)
    have fourth := ranged_bindingsAll entries
      (base + total init + total header + 1 + total children)
    intro b member
    simp only [bindings, List.mem_append, or_assoc] at member
    rw [total_node]
    rcases member with member | member | member | member | member
    · have := first b member
      omega
    · have := second b member
      omega
    · have key := List.mem_map_of_mem (f := Binding.key) member
      rw [keys_boundAll] at key
      obtain ⟨name, -, same⟩ := List.mem_map.mp key
      have own : b.container = ⟨base + total init + total header⟩ := (congrArg Prod.fst same).symm
      rw [own]
      simp only
      omega
    · rcases ranged_childBindings third b member with own | range
      · rw [own]
        simp only
        omega
      · omega
    · have := fourth b member
      omega

theorem ranged_bindingsAll : ∀ (os : List Outline) (base : Nat),
    Ranged base (base + total os) (bindingsAll base os)
  | [], base => by simp [Ranged, bindingsAll]
  | o :: rest, base => by
    have first := ranged_bindings o base
    have later := ranged_bindingsAll rest (base + total [o])
    rw [bindingsAll, total_cons, ← Nat.add_assoc]
    exact first.append later (by omega) (by omega)

end

/-- What is declared inside a statement is declared at its own level or inside what it holds. -/
theorem keys_bindings {shape : Stmt.Shape} {init header children entries : List Outline} {own : Nat}
    (here : own = base + total init + total header) :
    (((node shape span init header children entries).bindings base).map (·.key)).Perm
      (((init ++ children).flatMap names).map ((⟨own⟩ : StmtId), ·) ++
        ((bindingsAll base init ++ bindingsAll (base + total init) header) ++
          (bindingsAll (own + 1) children ++
            bindingsAll (own + 1 + total children) entries)).map (·.key)) := by
  apply List.perm_iff_count.mpr
  intro key
  have inner := (keys_childBindings ⟨own⟩ (own + 1) children).count_eq key
  simp only [bindings, ← here, List.map_append, List.count_append, keys_boundAll,
    List.flatMap_append] at inner ⊢
  omega

mutual

/-- While a statement is built, no name is declared twice at one level exactly if it holds no level
with a name twice. -/
theorem nodup_bindings_iff : ∀ (o : Outline) (base : Nat),
    ((o.bindings base).map (·.key)).Nodup ↔ ∀ level ∈ o.levels, level.Nodup
  | node shape span init header children entries, base => by
    obtain ⟨own, here⟩ : ∃ own, own = base + total init + total header := ⟨_, rfl⟩
    have first := ranged_bindingsAll init base
    have second := ranged_bindingsAll header (base + total init)
    have third := ranged_bindingsAll children (own + 1)
    have fourth := ranged_bindingsAll entries (own + 1 + total children)
    rw [← here] at second
    have lower := first.append second (by omega) (by omega)
    have upper := third.append fourth (by omega) (by omega)
    have absent (name : String) : ((⟨own⟩ : StmtId), name) ∉
        ((bindingsAll base init ++ bindingsAll (base + total init) header) ++
          (bindingsAll (own + 1) children ++
            bindingsAll (own + 1 + total children) entries)).map (·.key) := by
      rw [List.map_append, List.mem_append, not_or]
      exact ⟨lower.not_mem (.inr (Nat.le_refl own)), upper.not_mem (.inl (Nat.lt_succ_self own))⟩
    rw [(keys_bindings here).nodup_iff, nodup_level_iff absent,
      lower.nodup_append_iff upper (by omega), first.nodup_append_iff second (by omega),
      third.nodup_append_iff fourth (by omega), nodup_bindingsAll_iff init,
      nodup_bindingsAll_iff header, nodup_bindingsAll_iff children, nodup_bindingsAll_iff entries]
    simp only [levels, List.forall_mem_cons, List.forall_mem_append, and_assoc]

theorem nodup_bindingsAll_iff : ∀ (os : List Outline) (base : Nat),
    ((bindingsAll base os).map (·.key)).Nodup ↔ ∀ level ∈ levelsAll os, level.Nodup
  | [], base => by simp [bindingsAll, levelsAll]
  | o :: rest, base => by
    have first := ranged_bindings o base
    have later := ranged_bindingsAll rest (base + total [o])
    rw [bindingsAll, first.nodup_append_iff later (Nat.le_refl _), nodup_bindings_iff o,
      nodup_bindingsAll_iff rest, levelsAll, List.forall_mem_append]

end

end Outline

namespace Description

/-- No name is declared twice at one level exactly if no level of the description has it twice. -/
theorem nodup_bindings_iff (d : Description) :
    (d.bindings.map (·.key)).Nodup ↔ ∀ level ∈ d.levels, level.Nodup := by
  have inside := Outline.ranged_bindingsAll d.outline 1
  rw [bindings, (Outline.keys_childBindings ..).nodup_iff,
    Outline.nodup_level_iff fun _ => inside.not_mem (.inl (by decide)),
    Outline.nodup_bindingsAll_iff, levels, List.forall_mem_cons]

end Description

namespace FirstClash

variable {bs more : List Binding} {e e' : BuildError}

theorem append (clash : FirstClash bs e) (more : List Binding) : FirstClash (bs ++ more) e := by
  obtain ⟨before, b, after, rfl, rest⟩ := clash
  exact ⟨before, b, after ++ more, by simp, rest⟩

theorem not_nodup (clash : FirstClash bs e) : ¬ (bs.map (·.key)).Nodup := by
  obtain ⟨before, b, after, rfl, -, earlier, member, same, -⟩ := clash
  rw [List.map_append, List.nodup_append']
  rintro ⟨-, -, apart⟩
  exact apart (List.mem_map_of_mem member) (same ▸ List.mem_cons_self)

/-- There is one complaint at most. -/
theorem unique (clash : FirstClash bs e) (clash' : FirstClash bs e') : e = e' := by
  obtain ⟨before, b, after, rfl, nodup, first, member, same, rfl⟩ := clash
  obtain ⟨before', b', after', split, nodup', first', member', same', rfl⟩ := clash'
  -- Were one of the two further on, a clash would stand in front of it.
  have whole {l l' : List Binding} {c c' : Binding} {rest rest' : List Binding}
      (split : l ++ c :: rest = l' ++ c' :: rest') (nodup : (l'.map (·.key)).Nodup)
      (repeated : ∃ x ∈ l, x.key = c.key) : l'.length ≤ l.length := by
    by_contra longer
    obtain ⟨x, inside, same⟩ := repeated
    have cut : l ++ [c] <+: l' := by
      have front : l ++ [c] <+: l ++ c :: rest := ⟨rest, by simp⟩
      have front' : l' <+: l ++ c :: rest := split ▸ ⟨c' :: rest', rfl⟩
      apply List.prefix_of_prefix_length_le front front'
      simp only [List.length_append, List.length_singleton]
      omega
    have bad := nodup.sublist (cut.sublist.map _)
    rw [List.map_append, List.nodup_append'] at bad
    exact bad.2.2 (List.mem_map_of_mem inside) (same ▸ List.mem_cons_self)
  have long := whole split nodup' ⟨first, member, same⟩
  have short := whole split.symm nodup ⟨first', member', same'⟩
  obtain ⟨rfl, tail⟩ := List.append_inj split (by omega)
  cases tail
  have one := List.inj_on_of_nodup_map nodup member member' (same.trans same'.symm)
  rw [one]

end FirstClash

end KernelTree
