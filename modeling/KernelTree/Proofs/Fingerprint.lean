import KernelTree.Fingerprint.Basic
import KernelTree.Proofs.Tree.Images
/-! Fingerprints of copies. The bytes of a subtree name statements by their places in the preorder
only, so they are the same for all its copies. -/
namespace KernelTree

namespace Fingerprint

variable {ρ : StmtId → StmtId} {order : List StmtId}

theorem idxOf?_map (injective : ∀ {x y}, x ∈ order → ρ x = ρ y → x = y) (id : StmtId) :
    (order.map ρ).idxOf? (ρ id) = order.idxOf? id := by
  induction order with
  | nil => rfl
  | cons first rest ih =>
    have later : (rest.map ρ).idxOf? (ρ id) = rest.idxOf? id :=
      ih fun member => injective (.tail _ member)
    rw [List.map_cons, List.idxOf?_cons, List.idxOf?_cons, later]
    by_cases same : first = id
    · simp [same]
    · have differs : ρ first ≠ ρ id := mt (injective List.mem_cons_self) same
      simp [same, differs]

variable (injective : ∀ {x y}, x ∈ order → ρ x = ρ y → x = y)
include injective

theorem block_map (body : Block) : block (order.map ρ) (body.map ρ) = block order body := by
  have places (id : StmtId) : position (order.map ρ) (ρ id) = position order id := by
    rw [position, idxOf?_map injective, position]
  simp [block, Block.map, Scope.map, Scope.size, List.flatMap_map, places]

theorem payload_map (s : Stmt) : payload (order.map ρ) (s.map ρ) = payload order s := by
  have blocks := block_map injective
  cases s
  case returnJump value => cases value <;> rfl
  all_goals simp [payload, Stmt.map, blocks]

theorem statement_map (s : Stmt) : statement (order.map ρ) (s.map ρ) = statement order s := by
  rw [statement, payload_map injective, Stmt.kind_map, statement]

end Fingerprint

namespace Tree

variable {source t : Tree} {r : StmtId} {ρ : StmtId → StmtId}

namespace Mirrors
variable (mirrors : Mirrors source r ρ t) (hs : source.Linked) (live : source.contains r)
  (h : t.Linked)
include mirrors hs live h

/-- A copy has the bytes of what it was made of. -/
theorem stream_image : Fingerprint.stream t (ρ r) = Fingerprint.stream source r := by
  have order := mirrors.preorder_image hs live h (hs.mem_preorder_self live)
  rw [Fingerprint.stream, order, Fingerprint.stream, List.length_map, List.flatMap_map]
  apply congrArg
  apply List.flatMap_congr
  intro id member
  have content (t : Tree) (id : StmtId) (f : Stmt → List UInt8) :
      (t.get? id).map (fun node => f node.stmt) = (t.stmt? id).map f := by
    simp [Tree.stmt?, Function.comp_def]
  rw [content, content, mirrors.stmt? id member]
  cases source.stmt? id with
  | none => rfl
  | some s => exact Fingerprint.statement_map mirrors.injective s

theorem fingerprint_image : t.fingerprint (ρ r) = source.fingerprint r :=
  congrArg (fun bytes => Fingerprint.mk (Blake3.digest bytes))
    (mirrors.stream_image hs live h)

end Mirrors

end Tree
end KernelTree
