import Orcm.CInteger
import Orcm.Scheduler

/-!
The power budget that `ORCM_SESSION_REQ_COMMAND` of `scd_base_recv.c` gives a session, before
`fifo_find_queue` looks at the number of nodes it asks for. A budget of -1 stands for no limit.
-/

namespace Orcm.PowerBudget

open CLibrary CInteger NodePool Scheduler

structure Cluster where
  power_budget : Int
  nodes : Pool
  fits : intMin ≤ power_budget ∧ power_budget ≤ intMax

/-- The scheduler takes the request for the default queue. -/
def Cluster.Accepts (cluster : Cluster) (alloc : Alloc) : Prop :=
  alloc.min_nodes ≤ definedNodes cluster.nodes

theorem accepts_iff (cluster : Cluster) (session : Ref) (s : State)
    (same : s.nodes = cluster.nodes) :
    cluster.Accepts (s.object session).alloc ↔ (fifoFindQueue session s).default = s.default ++
      [session] := by
  unfold Cluster.Accepts fifoFindQueue
  rw [same]
  split <;> rename_i enough
  · simpa [activateScd] using enough
  · simpa [activateScd] using enough

variable {cluster : Cluster}

section Share

variable (nonnegative : 0 ≤ cluster.power_budget) (some : definedNodes cluster.nodes ≠ 0)
include nonnegative some

end Share

end Orcm.PowerBudget
