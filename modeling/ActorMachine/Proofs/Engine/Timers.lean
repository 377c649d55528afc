import ActorMachine.Proofs.Engine.Reachable
import ActorMachine.Proofs.Scheduler.Timers

set_option autoImplicit false

/-!
Timers match timeouts in every engine.

Guest code arms timers by `RECV` alone, and a process that runs waits for none, so instructions keep
the timers that others wait for.
-/

namespace ActorMachine

theorem Process.timeout_addLink (p : Process) (peer : ProcessId) :
    (p.addLink peer).timeout = p.timeout := by
  rw [p.addLink_eq peer]

theorem Process.status_addLink (p : Process) (peer : ProcessId) :
    (p.addLink peer).status = p.status := by
  rw [p.addLink_eq peer]
  rfl

namespace Scheduler

theorem TimersMatch.move {phase phase' : Option ProcessId} {s after : Scheduler}
    (moved : Move phase s phase' after) (matching : TimersMatch none s) :
    TimersMatch none after := by
  cases moved with
  | memory memory kept => exact matching.elsewhere rfl rfl rfl
  | spawn f => exact matching.spawn f
  | send receiver held => exact matching.elsewhere rfl rfl rfl
  | prune => exact matching.prune
  | fire due expired =>
      obtain ⟨heap, rfl, first, _, sameFlags⟩ := popDue?_eq due
      exact matching.fire first sameFlags expired
  | deliver popped delivered =>
      obtain ⟨queue, rfl, _⟩ := popTask?_eq popped
      have rest : TimersMatch none { s with queue } := matching.elsewhere rfl rfl rfl
      exact rest.deliver delivered
  | skip popped dead =>
      obtain ⟨queue, rfl, _⟩ := popTask?_eq popped
      exact matching.elsewhere rfl rfl rfl
  | beginSlice popped live =>
      obtain ⟨queue, rfl, _⟩ := popTask?_eq popped
      exact matching.elsewhere rfl rfl rfl
  | endSlice ended => exact matching.endSlice ended

theorem TimersMatch.link {s : Scheduler} (matching : TimersMatch none s) (a b : ProcessId) :
    TimersMatch none (s.link a b).2 := by
  unfold Scheduler.link
  split
  · exact matching
  · split
    · have first := matching.update a (Process.timeout_addLink · b) (Process.status_addLink · b)
      exact first.update b (Process.timeout_addLink · a) (Process.status_addLink · a)
    · exact matching

/-- A process that runs waits for no timer, so it may come to any status. -/
theorem TimersMatch.put_running {s : Scheduler} {pid : ProcessId} {p q : Process}
    (matching : TimersMatch none s) (found : s.find? pid = some p) (runs : p.status = .running)
    (same : q.timeout = p.timeout) : TimersMatch none (s.put pid q) := by
  refine matching.put found same ?_
  intro armed
  rw [same] at armed
  exact absurd (runs.symm.trans (matching.waits pid p found armed)) nofun

theorem TimersMatch.effect {me : ProcessId} {overwritten : Option Ref} {s after : Scheduler}
    (effect : Effect me overwritten s after) (matching : TimersMatch none s) :
    TimersMatch none after := by
  cases effect with
  | memory memory kept => exact matching.elsewhere rfl rfl rfl
  | overwrite isThat v => exact matching.elsewhere rfl rfl rfl
  | spawn f => exact matching.spawn f
  | link a b => exact matching.link a b
  | unlink peer =>
      have first := matching.update me (f := (·.removeLink peer)) (fun _ => rfl) (fun _ => rfl)
      exact first.update peer (fun _ => rfl) (fun _ => rfl)
  | trapExits => exact matching.update me (fun _ => rfl) (fun _ => rfl)
  | send onlyThat receiver held => exact matching.elsewhere rfl rfl rfl
  | die onlyThat pid reason => exact matching.die pid reason
  | carryOn found runs goesOn => exact matching.put_running found runs rfl
  | wait receivers found runs waits => exact matching.put_running found runs rfl
  | addTimeout deadline entry found waits => exact matching.addTimeout found waits deadline entry
  | @halt p onlyThat machine reason found runs =>
      have stopped : TimersMatch none (s.put me { p with machine }) :=
        matching.put_running found runs rfl
      exact stopped.die me reason

end Scheduler

namespace Engine

open Scheduler

theorem Reachable.timersMatch {phase : Option ProcessId} {engine : Engine}
    (reachable : Reachable AnyPair phase engine) : TimersMatch none engine.scheduler :=
  reachable.invariant (fun _ s => TimersMatch none s) (timersMatch_empty _) TimersMatch.move
    (fun _ => TimersMatch.effect) (fun _ _ => trivial)

end Engine

end ActorMachine
