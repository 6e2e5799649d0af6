import Mathlib.Data.List.Nodup

/-!
Messages that travel hop by hop. If each hop stays inside the network and comes closer to the
target, the message arrives, and no node sees it twice.
-/

namespace Orcm.Delivery

variable {Node : Type} {next : Node → Node → Prop} {target : Node}

/-- The nodes that a message visits on its way from a source to the target. -/
inductive Route (next : Node → Node → Prop) (target : Node) : Node → List Node → Prop
  | arrived : Route next target target [target]
  | hop (source via : Node) (path : List Node) (away : source ≠ target) (step : next source via)
      (rest : Route next target via path) : Route next target source (source :: path)

theorem route_of_distance (members : Node → Prop) (distance : Node → Nat)
    (closer : ∀ node, members node → node ≠ target → ∃ via, next node via ∧ members via ∧
      distance via < distance node)
    (source : Node) (member : members source) :
    ∃ path, Route next target source path ∧ path.Nodup ∧ path.length ≤ distance source + 1 ∧
      ∀ node ∈ path, members node ∧ distance node ≤ distance source := by
  -- the distance bounds the number of hops still to come
  induction remaining : distance source using Nat.strongRecOn generalizing source with
  | _ bound ih =>
    subst remaining
    by_cases here : source = target
    · subst here
      exact ⟨[source], .arrived, List.nodup_singleton source, Nat.succ_le_succ (Nat.zero_le _), by
          simpa using member⟩
    · obtain ⟨via, step, viaMember, less⟩ := closer source member here
      obtain ⟨path, route, distinct, short, inside⟩ := ih (distance via) less via viaMember rfl
      have fresh : source ∉ path :=
        fun again => absurd (inside source again).2 (Nat.not_le.mpr less)
      refine ⟨source :: path, .hop source via path here step route,
        List.nodup_cons.mpr ⟨fresh, distinct⟩, ?_, ?_⟩
      · rw [List.length_cons]
        omega
      · rw [List.forall_mem_cons]
        refine ⟨⟨member, Nat.le_refl _⟩, fun node present => ?_⟩
        obtain ⟨nodeMember, near⟩ := inside node present
        exact ⟨nodeMember, by omega⟩

theorem not_route_of_closed (inside : Node → Prop)
    (closed : ∀ node via, inside node → next node via → inside via)
    (away : ¬ inside target) (source : Node) (member : inside source) (path : List Node) :
    ¬ Route next target source path := by
  intro route
  induction route with
  | arrived => exact away member
  | hop source via path _ step _ ih => exact ih (closed source via member step)

end Orcm.Delivery
