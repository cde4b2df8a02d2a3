/-! Places in a source text. -/
namespace KernelTree

/-- A half-open range of offsets in the file numbered `file`. -/
structure Span where
  file : Nat := 0
  start : Nat := 0
  stop : Nat := 0
deriving DecidableEq, Repr, Inhabited

namespace Span

def none : Span := {}

/-- A span that ends at offset zero marks the absence of a place, in whatever file. -/
def isNone (s : Span) : Bool := s.start == 0 && s.stop == 0

/-- The least span that covers both; the file is that of the first. -/
def merge (s t : Span) : Span :=
  { file := s.file, start := min s.start t.start, stop := max s.stop t.stop }

end Span
end KernelTree
