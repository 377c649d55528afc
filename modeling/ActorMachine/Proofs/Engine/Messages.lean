import ActorMachine.Proofs.Engine.Timers
import ActorMachine.Proofs.Scheduler.Ledger

set_option autoImplicit false

/-!
No message is lost or doubled.

A turn is a timer, a delivery or a slice. Each is a sequence of changes with a ledger, so the turn
has one: whatever was on its way to a process, in its mailbox or set aside is still there, but for
the one message with which the process went on. Main statement: `messages_conserved`.
-/

namespace ActorMachine

namespace Scheduler

section Ledger

variable {s middle after : Scheduler} {pid : ProcessId}

/-- Instructions send messages, and let nobody go on. -/
theorem Effect.ledger {me : ProcessId} {overwritten : Option Ref}
    (effect : Effect me overwritten s after) : ∃ events, Ledger s after events ∧ Quiet events := by
  cases effect with
  | memory memory kept => exact ⟨[], ledger_of_processes_eq rfl rfl rfl, nofun⟩
  | overwrite isThat v => exact ⟨[], ledger_of_processes_eq rfl rfl rfl, nofun⟩
  | spawn f =>
      refine ⟨_, ledger_spawn s f, ?_⟩
      intro event member
      rw [List.mem_singleton.1 member]
      rfl
  | link a b =>
      refine ⟨[], (undisturbed_link s a b).ledger ?_ ?_, nofun⟩
      · rw [link_eq]
      · rw [link_eq]
  | unlink peer =>
      refine ⟨[], (undisturbed_unlink s me peer).ledger ?_ ?_, nofun⟩
      · rw [unlink_eq]
      · rw [unlink_eq]
  | trapExits =>
      refine ⟨[], (undisturbed_update me fun _ => rfl).ledger ?_ ?_, nofun⟩
      · rw [update_eq]
      · rw [update_eq]
  | @send onlyThat receiver message held =>
      refine ⟨_, ledger_send s receiver message, ?_⟩
      intro event member
      rw [List.mem_singleton.1 member]
      rfl
  | die onlyThat pid reason => exact (deathFrame_die s pid reason).ledger
  | carryOn found runs goesOn =>
      exact ⟨[], ledger_put found rfl rfl (by rw [runs]; nofun), nofun⟩
  | wait receivers found runs waits =>
      exact ⟨[], ledger_put found rfl rfl (by rw [runs]; nofun), nofun⟩
  | addTimeout deadline entry found waits =>
      refine ⟨[], (undisturbed_addTimeout found deadline entry).ledger ?_ ?_, nofun⟩
      · rw [addTimeout_eq]
      · rw [addTimeout_eq]
  | @halt p onlyThat machine reason found runs =>
      have stopped : Ledger s (s.put me { p with machine }) [] :=
        ledger_put found rfl rfl (by rw [runs]; nofun)
      obtain ⟨events, ledger, quiet⟩ :=
        (deathFrame_die (s.put me { p with machine }) me reason).ledger
      have whole := stopped.trans ledger
      rw [List.append_nil] at whole
      exact ⟨events, whole, quiet⟩

/-- A look at the mail with which a process does not go on leaves its machine and its timeout. -/
theorem Looks.unmoved (looked : Looks s pid false after) {q : Process}
    (foundAfter : after.find? pid = some q) :
    ∃ p, s.find? pid = some p ∧ q.machine = p.machine ∧ q.timeout = p.timeout ∧
      after.store = s.store := by
  cases looked with
  | absent missing => exact ⟨q, foundAfter, rfl, rfl, rfl⟩
  | busy found awake => exact ⟨q, foundAfter, rfl, rfl, rfl⟩
  | @nothing p found waits rejected =>
      rw [find?_recordSetAside, find?_put_self found] at foundAfter
      cases foundAfter
      refine ⟨p, found, rfl, rfl, ?_⟩
      rw [recordSetAside_eq]
      rfl
  | failed found waits divided rejected accepted faults =>
      rw [dieOf, find?_die_self] at foundAfter
      cases foundAfter

/-- A timer that fires wakes its process with a message, or else at the timeout. -/
theorem ledger_fire {timer : Timer} {heap : TimerHeap} (matching : TimersMatch none s)
    (first : s.timers = timer :: heap.live) (expired : { s with heap }.expire timer = some after) :
    ∃ events, Ledger s after events ∧ events.countP Event.isResumption ≤ 1 ∧
      (∀ pid message, .resumed pid message ∈ events → after.WentOnWith pid message) ∧
      ∀ pid id, .timedOut pid id ∈ events →
        timer.pid = pid ∧ timer.id = id ∧ WentOnAtTimeout s after pid id := by
  have isFirst : timer ∈ s.timers := by
    rw [first]
    exact List.mem_cons_self
  have pending := (matching.matched timer.pid timer.id nofun).2 ⟨timer, isFirst, rfl, rfl⟩
  let taken : Scheduler := { s with heap, current := some timer.pid }
  have start : Ledger s taken [] := ledger_of_processes_eq rfl rfl rfl
  rcases expire_cases expired with ⟨_, rfl⟩ | ⟨_, woke, middle, checked, rfl⟩
  · exact ⟨[], ledger_of_processes_eq rfl rfl rfl, Nat.zero_le _, nofun, nofun⟩
  · have looked : Looks taken timer.pid woke middle := checkMail_looks checked
    obtain ⟨events, ledger, inTime, count, wentOn⟩ := looked.ledger
    have soFar := start.trans ledger
    rw [List.append_nil] at soFar
    cases woke with
    | true =>
        have whole := soFar.trans (ledger_enqueue middle timer.pid)
        exact ⟨events, whole, Nat.le_of_eq count, wentOn,
          fun pid id member => absurd member (Event.not_timedOut inTime pid id)⟩
    | false =>
        -- The look at the mail let nobody go on, so only the timeout can.
        have quiet : Quiet events := by
          intro event member
          simpa using List.countP_eq_zero.1 count event member
        have waits : ∀ p, middle.find? timer.pid = some p → p.timeout.isSome = true →
            p.status = .waiting := by
          intro q foundMiddle armed
          obtain ⟨p, found, sameMachine, sameTimeout, _⟩ := looked.unmoved foundMiddle
          have before := matching.waits timer.pid p found (by rw [← sameTimeout]; exact armed)
          exact (congrArg Machine.status sameMachine).trans before
        obtain ⟨last, lastLedger, lastCount, kinds⟩ := ledger_timeOut timer.pid waits
        refine ⟨last ++ events, soFar.trans lastLedger, ?_, ?_, ?_⟩
        · rw [List.countP_append, quiet.countP_eq]
          exact lastCount
        · intro pid message member
          rcases List.mem_append.1 member with later | earlier
          · rcases kinds with lastQuiet | ⟨id, rfl, _⟩
            · exact absurd later (lastQuiet.not_resumed pid message)
            · cases List.mem_singleton.1 later
          · exact absurd earlier (quiet.not_resumed pid message)
        · intro pid id member
          rcases List.mem_append.1 member with later | earlier
          · rcases kinds with lastQuiet | ⟨timedOut, rfl, p, timeout, q, found, armed, isId, rest⟩
            · exact Bool.noConfusion (lastQuiet _ later)
            · cases List.mem_singleton.1 later
              obtain ⟨o, foundBefore, sameMachine, sameTimeout, sameStore⟩ :=
                looked.unmoved found
              rw [sameTimeout] at armed
              have isPending : s.timeoutId? timer.pid = some timeout.id := by
                rw [timeoutId?_eq (s := s) foundBefore, armed]
                rfl
              have sameId : timer.id = timeout.id :=
                Option.some.inj (pending.symm.trans isPending)
              rw [sameMachine, sameStore] at rest
              exact ⟨rfl, sameId.trans isId, o, timeout, q, foundBefore, armed, isId, rest⟩
          · exact absurd earlier (Event.not_timedOut inTime pid id)

theorem ledger_endSlice (ended : s.endSlice pid = some after) :
    ∃ events, Ledger s after events ∧ events.filterMap Event.timeout? = [] ∧
      events.countP Event.isResumption ≤ 1 ∧
      ∀ other message, .resumed other message ∈ events → after.WentOnWith other message := by
  rcases endSlice_cases ended with ⟨rfl, _⟩ | ⟨p, _, ⟨_, rfl⟩ | ⟨_, woken⟩⟩
  · exact ⟨[], ledger_of_processes_eq rfl rfl rfl, rfl, Nat.zero_le _, nofun⟩
  · exact ⟨[], ledger_enqueue s pid, rfl, Nat.zero_le _, nofun⟩
  · exact ledger_wake woken

end Ledger

end Scheduler

namespace Engine

open Scheduler

theorem slice_ledger {pid : ProcessId} {quota : Nat} {engine after : Engine}
    (sliced : slice pid quota engine = some after) :
    ∃ events, Ledger engine.scheduler after.scheduler events ∧ Quiet events := by
  have along : ∀ {s}, Relation.ReflTransGen
      (fun s next => ∃ overwritten, Effect pid overwritten s next) engine.scheduler s →
      ∃ events, Ledger engine.scheduler s events ∧ Quiet events := by
    intro s effects
    induction effects with
    | refl => exact ⟨[], ledger_of_processes_eq rfl rfl rfl, nofun⟩
    | tail _ last ih =>
        obtain ⟨earlier, ledger, quiet⟩ := ih
        obtain ⟨_, effect⟩ := last
        obtain ⟨events, lastLedger, lastQuiet⟩ := effect.ledger
        exact ⟨events ++ earlier, ledger.trans lastLedger, lastQuiet.append quiet⟩
  exact along (slice_effects sliced)

/-- What a turn enters in the journal accounts for all messages, and at most one process goes on by
it. -/
theorem turn_ledger {engine after : Engine} (matching : TimersMatch none engine.scheduler)
    (next : engine.turn = .next after) :
    ∃ events, Ledger engine.scheduler after.scheduler events ∧
      events.countP Event.isResumption ≤ 1 ∧
      (∀ pid message, .resumed pid message ∈ events →
        after.scheduler.WentOnWith pid message) ∧
      ∀ pid id, .timedOut pid id ∈ events →
        (∃ timer ∈ engine.scheduler.timers, timer.pid = pid ∧ timer.id = id ∧
          timer.deadline.atMost engine.host.clock = true) ∧
        WentOnAtTimeout engine.scheduler after.scheduler pid id := by
  have pruned : Ledger engine.scheduler engine.scheduler.prune [] :=
    ledger_of_processes_eq rfl rfl rfl
  cases turn_turned next with
  | fired due expired =>
      obtain ⟨heap, rfl, first, inTime, _⟩ := popDue?_eq due
      obtain ⟨events, ledger, count, wentOn, timedOut⟩ := ledger_fire matching first expired
      refine ⟨events, ledger, count, wentOn, ?_⟩
      intro pid id member
      obtain ⟨isPid, isId, wentOnAt⟩ := timedOut pid id member
      refine ⟨⟨_, ?_, isPid, isId, inTime⟩, wentOnAt⟩
      rw [first]
      exact List.mem_cons_self
  | delivered _ popped delivered =>
      obtain ⟨queue, rfl, first⟩ := popTask?_eq popped
      obtain ⟨events, ledger, inTime, count, wentOn⟩ := ledger_deliver first delivered
      have whole := pruned.trans ledger
      rw [List.append_nil] at whole
      exact ⟨events, whole, count, wentOn,
        fun pid id member => absurd member (Event.not_timedOut inTime pid id)⟩
  | skipped _ popped dead =>
      obtain ⟨queue, rfl, first⟩ := popTask?_eq popped
      have taken := pruned.trans (ledger_of_taken first fun _ _ _ => rfl)
      exact ⟨[], taken, Nat.zero_le _, nofun, nofun⟩
  | @sliced pid rest middle s _ popped live sliced ended =>
      obtain ⟨queue, rfl, first⟩ := popTask?_eq popped
      have taken := pruned.trans (ledger_of_taken first fun _ _ _ => rfl)
      have begun := taken.trans (ledger_beginSlice _ pid)
      obtain ⟨events, ledger, quiet⟩ := slice_ledger sliced
      obtain ⟨last, lastLedger, inTime, count, wentOn⟩ := ledger_endSlice ended
      have quietSoFar : Quiet (events ++ [.sliced pid]) := by
        refine quiet.append ?_
        intro event member
        rw [List.mem_singleton.1 member]
        rfl
      refine ⟨last ++ (events ++ [.sliced pid]), (begun.trans ledger).trans lastLedger, ?_, ?_, ?_⟩
      · rw [List.countP_append, quietSoFar.countP_eq]
        exact count
      · intro other message member
        rcases List.mem_append.1 member with later | earlier
        · exact wentOn other message later
        · exact absurd earlier (quietSoFar.not_resumed other message)
      · intro other id member
        rcases List.mem_append.1 member with later | earlier
        · exact absurd later (Event.not_timedOut inTime other id)
        · exact Bool.noConfusion (quietSoFar _ earlier)

/-- When at most one process goes on, and one does so at its timeout, no message is taken. -/
theorem not_taken_at_timeout {events : List Event} (count : events.countP Event.isResumption ≤ 1)
    (pid other : ProcessId) (id : Nat) (timedOut : .timedOut other id ∈ events) :
    events.filterMap (Event.resumedBy? pid) = [] := by
  induction events with
  | nil => rfl
  | cons event events ih =>
      by_cases resumption : event.isResumption = true
      · -- Nobody else goes on, so the rest of the list is quiet.
        rw [List.countP_cons_of_pos resumption] at count
        have quiet : Quiet events := by
          intro later member
          have none := List.countP_eq_zero.1 (Nat.le_zero.1 (Nat.le_of_succ_le_succ count))
          simpa using none later member
        rw [List.filterMap_cons, quiet.resumedBy?_eq]
        rcases List.mem_cons.1 timedOut with same | earlier
        · rw [← same]
          rfl
        · exact Bool.noConfusion (quiet _ earlier)
      · rw [List.countP_cons_of_neg resumption] at count
        rcases List.mem_cons.1 timedOut with same | earlier
        · rw [← same] at resumption
          exact absurd rfl resumption
        · have skipped : event.resumedBy? pid = none := by
            cases event with
            | resumed other message => exact absurd rfl resumption
            | _ => rfl
          rw [List.filterMap_cons, skipped]
          exact ih count earlier

theorem length_taken_le {events : List Event} (count : events.countP Event.isResumption ≤ 1)
    (pid : ProcessId) : (events.filterMap (Event.resumedBy? pid)).length ≤ 1 := by
  refine Nat.le_trans ?_ count
  rw [List.length_filterMap_eq_countP]
  refine List.countP_mono_left ?_
  intro event _ taken
  cases event with
  | resumed other message => rfl
  | _ => cases taken

/-- No turn loses or doubles a message. What was on its way to a process that survives the turn, in
its mailbox or set aside, together with what the turn sends it, is still there, but for the one
message with which the process went on. At a timeout no message is taken, and a process that waits
goes on in no other way. -/
theorem messages_conserved {engine after : Engine} (reachable : Reachable AnyPair none engine)
    (next : engine.turn = .next after) :
    ∃ events, after.scheduler.journal = events ++ engine.scheduler.journal ∧
      ∀ pid p q, engine.find? pid = some p → after.find? pid = some q →
        after.scheduler.mail pid q + events.filterMap (Event.resumedBy? pid) =
          engine.scheduler.mail pid p + events.filterMap (Event.sentTo? pid) ∧
        (events.filterMap (Event.resumedBy? pid)).length ≤ 1 ∧
        (∀ message ∈ events.filterMap (Event.resumedBy? pid),
          after.scheduler.WentOnWith pid message) ∧
        (∀ id, .timedOut pid id ∈ events → events.filterMap (Event.resumedBy? pid) = [] ∧
          WentOnAtTimeout engine.scheduler after.scheduler pid id) ∧
        (p.status = .waiting → q.machine = p.machine ∨ pid ∈ events.filterMap Event.awakened?) := by
  obtain ⟨events, ledger, count, wentOn, timedOut⟩ := turn_ledger reachable.timersMatch next
  refine ⟨events, ledger.journal, ?_⟩
  intro pid p q found foundAfter
  refine ⟨ledger.balance pid p q found foundAfter, length_taken_le count pid, ?_, ?_,
    ledger.asleep pid p q found foundAfter⟩
  · intro message member
    obtain ⟨event, listed, isMessage⟩ := List.mem_filterMap.1 member
    cases event with
    | resumed other taken =>
        obtain ⟨rfl, isTaken⟩ := Option.ite_some_none_eq_some.1 isMessage
        rw [← isTaken]
        exact wentOn other taken listed
    | _ => cases isMessage
  · intro id member
    exact ⟨not_taken_at_timeout count pid pid id member, (timedOut pid id member).2⟩

/-- The function `sleeper` is sent the message for which it waits, and goes on with it. -/
theorem messages_conserved_sleeper :
    ∃ engine after message p q events, Reachable AnyPair none engine ∧
      engine.turn = .next after ∧ engine.find? 1 = some p ∧ after.find? 1 = some q ∧
      engine.scheduler.mail 1 p = {message} ∧
      after.scheduler.journal = events ++ engine.scheduler.journal ∧
      after.scheduler.mail 1 q + events.filterMap (Event.resumedBy? 1) =
        engine.scheduler.mail 1 p + events.filterMap (Event.sentTo? 1) := by
  have created : Reachable AnyPair none (create {}) := .create {}
  have begun := (created.move (.spawn sleeper)).move (.beginSlice rfl rfl)
  have waits := begun.instruction nofun rfl
  have ended := waits.move (.endSlice rfl)
  let message := initialMemory.store.list [.symbol "wake"]
  have stored := ended.move (.memory ⟨message.2, initialMemory.globals⟩
    (initialMemory.store.grows_list [.symbol "wake"]).keepsCars)
  have sent := stored.move (.send 1 (initialMemory.store.holds_list [.symbol "wake"]))
  obtain ⟨events, journal, conserved⟩ := messages_conserved sent rfl
  exact ⟨_, _, message.1, _, _, events, sent, rfl, rfl, rfl, rfl, journal,
    (conserved 1 _ _ rfl rfl).1⟩

end Engine

end ActorMachine
