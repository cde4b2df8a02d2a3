import KernelTree.Files.Disk
import KernelTree.Main
import KernelTree.Proofs.Statement.Renumbering
import KernelTree.Proofs.Tree.View
import KernelTree.Proofs.Compilation
import KernelTree.Proofs.Tree.Forest
import KernelTree.Proofs.Tree.Atomic
import KernelTree.Proofs.Tree.CopyOutcome
import KernelTree.Proofs.Validation
import KernelTree.Proofs.Fingerprint.Wording
import KernelTree.Proofs.Expr.RoundTrip
import KernelTree.Proofs.Description.Outcome
import KernelTree.Proofs.Independence
import KernelTree.Proofs.Tree.Canonical
import KernelTree.Proofs.Tree.Pushing
import KernelTree.Proofs.Expr.Prefix
import KernelTree.Proofs.Emission.Nesting
import KernelTree.Proofs.Lookup
import KernelTree.Proofs.Description.Visibility
import KernelTree.Proofs.Expr.C99.Grammar
import KernelTree.Proofs.Expr.C99.Operands
import KernelTree.Proofs.Expr.C99.Productions
import KernelTree.Proofs.Expr.C99.TypeName
import KernelTree.Proofs.Expr.C99.RoundTrip
import KernelTree.Proofs.Tree.Destruction
import KernelTree.Proofs.Emission.Presence
import KernelTree.Proofs.Tree.Traversal
import KernelTree.Proofs.Tree.Readding
import KernelTree.Proofs.CommandLine.Confinement
import KernelTree.Proofs.CommandLine.Writing
import KernelTree.Proofs.Tree.Attachment
import KernelTree.Proofs.Validation.Functions
import KernelTree.Proofs.Emission.Flattening
import KernelTree.Proofs.Emission.Visits
import KernelTree.Proofs.Statement.Accessors
import KernelTree.Proofs.Declaration.Building
import KernelTree.Proofs.Declaration.Reading
