import ActorMachine.Proofs.Engine.Reachable
import ActorMachine.Proofs.Scheduler.Exits

set_option autoImplicit false

/-!
Links agree in every state of an engine.

Whatever guest code and the host do, they do it to the scheduler by its operations, so the links
that agree in every scheduler that operations lead to agree in every engine.
-/

namespace ActorMachine

namespace Scheduler

theorem Operated.wake {s after : Scheduler} (operated : s.Operated) {pid : ProcessId}
    (woken : s.wake pid = some after) : after.Operated := by
  rcases wake_cases woken with checked | ⟨middle, checked, rfl⟩
  · exact operated.checkMail checked
  · exact (operated.checkMail checked).elsewhere rfl

theorem Operated.endSlice {s after : Scheduler} (operated : s.Operated) {pid : ProcessId}
    (ended : s.endSlice pid = some after) : after.Operated := by
  rcases endSlice_cases ended with ⟨rfl, _⟩ | ⟨p, _, ⟨_, rfl⟩ | ⟨_, woken⟩⟩
  · exact operated
  · exact operated.elsewhere rfl
  · exact operated.wake woken

theorem Operated.move {phase phase' : Option ProcessId} {s after : Scheduler}
    (operated : s.Operated) (moved : Move phase s phase' after) : after.Operated := by
  cases moved with
  | memory memory kept => exact operated.elsewhere rfl
  | spawn f => exact operated.spawn f
  | send receiver held => exact operated.send receiver _
  | prune => exact operated.elsewhere rfl
  | fire due expired =>
      obtain ⟨heap, rfl, _⟩ := popDue?_eq due
      have taken : { s with heap }.Operated := operated.elsewhere rfl
      exact taken.expire expired
  | deliver popped delivered =>
      obtain ⟨queue, rfl, _⟩ := popTask?_eq popped
      have taken : { s with queue }.Operated := operated.elsewhere rfl
      exact taken.deliver delivered
  | skip popped dead =>
      obtain ⟨queue, rfl, _⟩ := popTask?_eq popped
      exact operated.elsewhere rfl
  | beginSlice popped live =>
      obtain ⟨queue, rfl, _⟩ := popTask?_eq popped
      exact operated.elsewhere rfl
  | endSlice ended => exact operated.endSlice ended

theorem Operated.effect {me : ProcessId} {overwritten : Option Ref} {s after : Scheduler}
    (operated : s.Operated) (effect : Effect me overwritten s after) : after.Operated := by
  cases effect with
  | memory memory kept => exact operated.elsewhere rfl
  | overwrite isThat v => exact operated.elsewhere rfl
  | spawn f => exact operated.spawn f
  | link a b => exact operated.link a b
  | unlink peer => exact operated.unlink me peer
  | trapExits => exact operated.trapExits me true
  | send onlyThat receiver held => exact operated.send receiver _
  | die onlyThat pid reason => exact operated.die pid reason
  | carryOn found runs goesOn => exact operated.work _ _ found
  | wait receivers found runs waits => exact operated.work _ receivers found
  | addTimeout deadline entry found waits => exact operated.addTimeout me deadline entry
  | halt onlyThat machine reason found runs => exact (operated.work machine _ found).die me reason

end Scheduler

namespace Engine

open Scheduler

/-- Links are known to both ends, lead to live processes other than the one itself, and are stored
once: after any operations on a scheduler, and in any engine, within slices and between them. -/
theorem links_agree :
    (∀ s : Scheduler, s.Operated → s.LinksAgree) ∧
    ∀ phase engine, Reachable AnyPair phase engine → engine.scheduler.LinksAgree := by
  refine ⟨fun s operated => operated.linksAgree, ?_⟩
  intro phase engine reachable
  have operated : engine.scheduler.Operated :=
    reachable.invariant (fun _ s => s.Operated) (.empty _)
      (fun moved operated => operated.move moved)
      (fun _ effect operated => operated.effect effect) (fun _ _ => trivial)
  exact operated.linksAgree

theorem links_agree_row :
    row.LinksAgree ∧ ((create {}).spawn ⟨0, ⟨.linked 0, #[]⟩, []⟩).2.scheduler.LinksAgree :=
  ⟨links_agree.1 row operated_row,
    links_agree.2 none _ (Reachable.spawn (.create {}) ⟨0, ⟨.linked 0, #[]⟩, []⟩)⟩

end Engine

end ActorMachine
