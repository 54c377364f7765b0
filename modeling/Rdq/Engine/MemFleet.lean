import Rdq.Engine.Fleet
import Rdq.Engine.Process
import Rdq.MemStore.Transition

/-!
# The fleet on the memstore
-/

namespace Rdq.Engine

open Rdq.Foundation

/-- What happens in a fleet of Go workers. -/
abbrev GoEvent (ε : Type) := Event (Worker ε) (Option ε × Nat)

section
variable {W ρ : Type} [WorkerCode W ρ]

/-- Workers that share one memstore. -/
abbrev MemFleet (W : Type) := Fleet MemStore.Store W

namespace MemFleet

/-- An empty store and no runs. -/
def new : MemFleet W := ⟨MemStore.Store.new, []⟩

/-- Perform one event. -/
abbrev step (f : MemFleet W) (ev : Event W ρ) : MemFleet W × Note :=
  f.stepWith (MemStore.step f.store) ev

/-- The fleet after a list of events from the empty store. -/
def after (evs : List (Event W ρ)) : MemFleet W := run step new evs

/-- The claims an event is granted. -/
abbrev claims (f : MemFleet W) (ev : Event W ρ) : List Claimed :=
  Fleet.claims (MemStore.step f.store) f ev

theorem claims_ids_nodup (f : MemFleet W) (ev : Event W ρ) :
    ((f.claims ev).map fun c => c.task.id).Nodup := by
  unfold claims Fleet.claims
  split
  · exact (MemStore.step_grants f.store _).2.2
  · exact List.nodup_nil

/-- A granted claim carries the record its claim left in the store. -/
theorem granted_spec {f : MemFleet W} {ev : Event W ρ} {c : Claimed} (hc : c ∈ f.claims ev) :
    ∃ r lease now, f.store.tasks.find? c.task.id = some r ∧ MemStore.isDue r now = true ∧
      c.task = (r.claim now lease c.token).env ∧
      (f.step ev).1.store.tasks.find? c.task.id = some (r.claim now lease c.token) := by
  rw [Fleet.stepWith_store]
  unfold claims Fleet.claims at hc
  split at hc
  · obtain ⟨r, queue, limit, lease, now, _, hr, -, hdue, htask, hr'⟩ := MemStore.step_granted hc
    exact ⟨r, lease, now, hr, hdue, htask, hr'⟩
  · cases hc

end MemFleet

end

end Rdq.Engine
