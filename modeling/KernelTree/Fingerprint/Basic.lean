import KernelTree.Fingerprint.Blake3
import KernelTree.Fingerprint.Stream
/-! Fingerprints of subtrees. -/
namespace KernelTree

structure Fingerprint where
  bytes : List UInt8
deriving DecidableEq, Repr, Inhabited

namespace Fingerprint

def hexByte (b : UInt8) : String :=
  String.ofList [Nat.digitChar (b.toNat / 16), Nat.digitChar (b.toNat % 16)]

def hex (f : Fingerprint) : String := String.join (f.bytes.map hexByte)

def short (f : Fingerprint) : String := String.join ((f.bytes.take 8).map hexByte)

end Fingerprint

def Tree.fingerprint (t : Tree) (root : StmtId) : Fingerprint :=
  ⟨Blake3.digest (Fingerprint.stream t root)⟩

end KernelTree
