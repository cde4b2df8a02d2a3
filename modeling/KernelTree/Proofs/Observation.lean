import KernelTree.Proofs.Emission
import KernelTree.Proofs.Fingerprint
import KernelTree.Proofs.Tree.Isomorphism
/-! Readers of a tree see no difference between a copy and what it was made of. Neither the bytes of
a fingerprint nor the printed text contain the numbers of statements, what is around a subtree, or
how its statements lie in the tree. -/
namespace KernelTree

namespace Fingerprint

/-- The bytes of a number tell it from all others that fit into them. -/
theorem littleEndian_inj {n a b : Nat} (small : a < 256 ^ n) (small' : b < 256 ^ n)
    (same : littleEndian n a = littleEndian n b) : a = b := by
  induction n generalizing a b with
  | zero => omega
  | succ n ih =>
    obtain ⟨low, high⟩ := List.cons.inj same
    have low : a % 256 = b % 256 := by simpa using congrArg UInt8.toNat low
    rw [Nat.pow_succ] at small small'
    have high := ih (Nat.div_lt_of_lt_mul (by omega)) (Nat.div_lt_of_lt_mul (by omega)) high
    omega

/-- A statement of the subtree is named by its place. -/
theorem position_of_mem {order : List StmtId} {id : StmtId} (member : id ∈ order) :
    position order id = count (order.idxOf id) := by
  rw [position, Tree.idxOf?_of_mem member]
  rfl

/-- No place has the bytes that stand for a statement outside. -/
theorem position_ne_outside {order : List StmtId} {id : StmtId} (member : id ∈ order)
    (small : order.length < 2 ^ 32) : position order id ≠ count outside := by
  have place := List.idxOf_lt_length_of_mem member
  rw [position_of_mem member]
  intro same
  have := littleEndian_inj (by omega) (by decide) same
  rw [outside] at this
  omega

end Fingerprint

namespace Tree

variable {t t' source dest dest' : Tree} {r x : StmtId} {owner : Option StmtId}

/-- Readers of the trees see the same in two subtrees. -/
structure Alike (t : Tree) (x : StmtId) (t' : Tree) (x' : StmtId) : Prop where
  stream : Fingerprint.stream t' x' = Fingerprint.stream t x
  fingerprint : t'.fingerprint x' = t.fingerprint x
  text : ∀ d, Emission.emit t' x' d = Emission.emit t x d

theorem Mirrors.alike {ρ : StmtId → StmtId} (mirrors : source.Mirrors r ρ t) (hs : source.Linked)
    (h : t.Linked) (live : source.contains r)
    (top : ∀ x ∈ source.preorder r, (ρ x = root ↔ x = root)) : Alike source r t (ρ r) where
  stream := mirrors.stream_image hs live h
  fingerprint := mirrors.fingerprint_image hs live h
  text := Emission.emit_image mirrors hs h live top

theorem Isomorphic.mirrors (whole : Isomorphic source r owner dest dest') :
    Mirrors source r (source.image r dest.slots.size) dest' := by
  refine ⟨image_injOn, ?_⟩
  intro y member
  obtain ⟨i, bound, rfl⟩ := List.getElem_of_mem member
  obtain ⟨node, found, copy⟩ := whole.copies i bound
  rw [whole.image i bound, stmt?_of_get? copy, stmt?_of_get? found, Option.map_some]

/-- A copy, wherever it was put, is like its original before it was copied. -/
theorem alike_of_copyFrom (hs : source.Rooted) (h : dest.Rooted) (h' : dest'.Rooted)
    (notRoot : r ≠ root) {copy : StmtId} (run : copyFrom source r owner dest = .ok copy dest') :
    Alike source r dest' copy := by
  have linked := hs.toLinked
  obtain ⟨k, fits⟩ := copyable_of_copyFrom linked run
  have live := contains_of_kind? fits.kind
  obtain ⟨rfl, whole⟩ := isomorphic_of_copyFrom linked h run
  have first : source.image r dest.slots.size r = ⟨dest.slots.size⟩ := linked.image_self live
  rw [← first]
  apply whole.mirrors.alike linked h'.toLinked live
  -- Neither the subtree nor the copy, which lies behind all that was there, contains the root.
  intro x member
  have apart : x ≠ root := ne_of_mem_of_not_mem member (hs.root_not_mem_preorder live notRoot)
  have filled : 0 < dest.slots.size := index_lt h.contains_root
  have behind : dest.slots.size ≤ (source.image r dest.slots.size x).index := base_le_image
  refine iff_of_false ?_ apart
  intro same
  rw [same] at behind
  exact Nat.not_le.mpr filled behind

theorem alike_of_fork (h : t.Rooted) (made : t.fork = .ok t') : Alike t root t' root := by
  have linked := h.toLinked
  have live := h.contains_root
  have copied := copied_of_fork linked live made
  have first : t.image root 0 root = root := linked.image_self live
  have alike := copied.mirrors.alike linked (rooted_of_fork h made).toLinked live fun x member => by
    constructor
    · exact fun same => image_injOn member (same.trans first.symm)
    · rintro rfl
      exact first
  rwa [first] at alike

/-- Copies made of a subtree and of a whole tree cannot be told from their originals as these were
before. In the bytes of a fingerprint every declared name is bound to a place in the subtree. -/
theorem Reachable.copies_alike (hs : Reachable Stmt.Bare source) (h : Reachable Stmt.Bare dest) :
    (∀ r owner copy dest', r ≠ root → Tree.copyFrom source r owner dest = .ok copy dest' →
      Alike source r dest' copy) ∧
    (∀ r owner copy dest', r ≠ root → clone r owner dest = .ok copy dest' →
      Alike dest r dest' copy) ∧
    (∃ t', source.fork = .ok t' ∧ Alike source root t' root) ∧
    ∀ x y scope name d, source.contains x → y ∈ source.preorder x →
      source.scope? y = some scope → (name, d) ∈ scope.entries →
      d ∈ source.preorder x ∧ (source.slots.size < 2 ^ 32 →
        Fingerprint.position (source.preorder x) d ≠ Fingerprint.count Fingerprint.outside) := by
  have linked := hs.rooted.toLinked
  have copied {source : Tree} (hs : Reachable Stmt.Bare source) (r : StmtId)
      (owner : Option StmtId) (copy : StmtId) (dest' : Tree) (notRoot : r ≠ root)
      (run : Tree.copyFrom source r owner dest = .ok copy dest') : Alike source r dest' copy := by
    have made := (hs.copyFrom h r owner).rooted
    rw [TreeM.after_ok run] at made
    exact alike_of_copyFrom hs.rooted h.rooted made notRoot run
  refine ⟨copied hs, copied h, ?_, ?_⟩
  · obtain ⟨t', forked, -⟩ := hs.enclosed.exists_fork hs.rooted
    exact ⟨t', forked, alike_of_fork hs.rooted forked⟩
  · intro x y scope name d live below there entry
    rw [scope?_eq] at there
    obtain ⟨s, found, names⟩ := Option.bind_eq_some_iff.mp there
    have bound : d ∈ s.targets := by
      rw [Stmt.targets_eq, names]
      exact List.mem_map_of_mem entry
    have inside := hs.enclosed.closed linked live y below s found bound
    refine ⟨inside, fun small => Fingerprint.position_ne_outside inside ?_⟩
    have room := length_le_size (linked.nodup_preorder live) fun _ =>
      (linked.walk_preorder live).contains_of_mem
    omega

/-- A block with a declared name and a label is copied to the end of another tree, and within its
own one without being put anywhere. -/
theorem copies_alike_of_block :
    let calls : List Change := [
      .push root (.block .empty), .push ⟨1⟩ (.label ⟨.identifier, "end", .none⟩),
      .push ⟨1⟩ (.goto ⟨.identifier, "end", .none⟩), .declare ⟨1⟩ "x" ⟨3⟩]
    let source := initial.run calls
    let dest := initial.run [.push root .breakJump, .push root (.block .empty)]
    let dest' := (copyFrom source ⟨1⟩ (some ⟨2⟩)).after dest
    let source' := (clone ⟨1⟩ none).after source
    Reachable Stmt.Bare source ∧ Reachable Stmt.Bare dest ∧
      copyFrom source ⟨1⟩ (some ⟨2⟩) dest = .ok ⟨3⟩ dest' ∧ dest'.resolve ⟨3⟩ "x" = some ⟨5⟩ ∧
      Alike source ⟨1⟩ dest' ⟨3⟩ ∧
      clone ⟨1⟩ none source = .ok ⟨4⟩ source' ∧ source'.resolve ⟨4⟩ "x" = some ⟨6⟩ ∧
      Alike source ⟨1⟩ source' ⟨4⟩ := by
  intro calls source dest dest' source'
  have hs : Reachable Stmt.Bare source := Reachable.initial.run (by decide)
  have h : Reachable Stmt.Bare dest := Reachable.initial.run (by decide)
  have given : copyFrom source ⟨1⟩ (some ⟨2⟩) dest = .ok ⟨3⟩ dest' := by rfl
  have kept : clone ⟨1⟩ none source = .ok ⟨4⟩ source' := by rfl
  refine ⟨hs, h, given, by decide, ?_, kept, by decide, ?_⟩
  · exact (hs.copies_alike h).1 _ _ _ _ (by decide) given
  · exact (hs.copies_alike hs).2.1 _ _ _ _ (by decide) kept

end Tree
end KernelTree
