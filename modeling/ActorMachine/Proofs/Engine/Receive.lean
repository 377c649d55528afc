import ActorMachine.Proofs.Engine.Mailboxes

set_option autoImplicit false

/-!
No process sleeps over a message that it would take.

What a waiting process has set aside was refused by its receive table, and stays refused as long as
nobody overwrites the tag of a message that was sent. So every message is followed from the moment
it is sent: it is in the journal, and it is a pair that the store has. Main statement:
`no_missed_receive`.
-/

namespace ActorMachine

namespace Scheduler

/-- A message was sent, and the store has it. -/
def Known (s : Scheduler) (message : Value) : Prop :=
  s.store.Holds message ∧ ∃ pid, .sent pid message ∈ s.journal

/-- All messages on their way, in mailboxes and set aside were sent, and what a waiting process has
set aside is refused by its receive table. -/
structure Screened (s : Scheduler) : Prop where
  queued : ∀ pid message, .deliver pid message ∈ s.queue.toList → s.Known message
  delivered : ∀ pid p, s.find? pid = some p → ∀ message ∈ p.mailbox.toList, s.Known message
  saved : ∀ pid p, s.find? pid = some p → ∀ message ∈ p.saved.toList, s.Known message
  rejected : ∀ pid p, s.find? pid = some p → p.status = .waiting →
    ∀ message ∈ p.saved.toList, p.receivers.accepts? s.store message = none

section Screened

variable {s after : Scheduler} {pid : ProcessId} {p q : Process}

theorem Known.mono {message : Value} (known : s.Known message)
    (larger : s.store.pairs.size ≤ after.store.pairs.size) (further : s.journal <:+ after.journal) :
    after.Known message := by
  obtain ⟨held, receiver, sent⟩ := known
  exact ⟨held.mono larger, receiver, further.subset sent⟩

theorem screened_empty (memory : Memory) : Screened { memory } := by
  constructor
  · exact nofun
  · exact fun pid p found => absurd found find?_empty_ne
  · exact fun pid p found => absurd found find?_empty_ne
  · exact fun pid p found => absurd found find?_empty_ne

/-- Memory changes but for the tags of what was sent, and nobody is disturbed. -/
theorem Screened.undisturbed (screened : Screened s) (undisturbed : s.Undisturbed after)
    {overwritten : Option Ref} (cars : Store.KeepsCarsBut overwritten s.store after.store)
    (spared : ∀ ref, overwritten = some ref → Engine.UnsentPair s ref) : Screened after := by
  have known : ∀ {message}, s.Known message → after.Known message :=
    fun old => old.mono cars.size_le undisturbed.journal
  constructor
  · intro receiver message member
    obtain ⟨told, queue, sent⟩ := undisturbed.told
    rw [queue, List.mem_append] at member
    rcases member with old | new
    · exact known (screened.queued receiver message old)
    · obtain ⟨notice, isNotice, same⟩ := List.mem_map.1 new
      cases same
      obtain ⟨isSent, held⟩ := sent notice isNotice
      exact ⟨held, notice.1, isSent⟩
  · intro other q found message member
    obtain ⟨p, foundBefore, isCopy⟩ := undisturbed.survivor other q found
    rw [isCopy] at member
    exact known (screened.delivered other p foundBefore message member)
  · intro other q found message member
    obtain ⟨p, foundBefore, isCopy⟩ := undisturbed.survivor other q found
    rw [isCopy] at member
    exact known (screened.saved other p foundBefore message member)
  · intro other q found waits message member
    obtain ⟨p, foundBefore, isCopy⟩ := undisturbed.survivor other q found
    rw [isCopy] at waits member ⊢
    obtain ⟨held, receiver, sent⟩ := screened.saved other p foundBefore message member
    have untouched : ∀ ref, message = .pair ref → overwritten ≠ some ref := by
      intro ref isPair isThat
      rw [isPair] at sent
      exact spared ref isThat receiver sent
    have same := cars.accepts?_eq held untouched p.receivers
    exact same.trans (screened.rejected other p foundBefore waits message member)

/-- A change that leaves processes and memory alone and adds no message. -/
theorem Screened.of_processes_eq (screened : Screened s)
    (sameProcesses : after.processes = s.processes) (sameStore : after.store = s.store)
    (further : s.journal <:+ after.journal)
    (fewer : ∀ pid message, .deliver pid message ∈ after.queue.toList → s.Known message) :
    Screened after := by
  have sameSize : s.store.pairs.size = after.store.pairs.size := by
    rw [sameStore]
  have known : ∀ {message}, s.Known message → after.Known message :=
    fun old => old.mono (Nat.le_of_eq sameSize) further
  have sameFind : ∀ other, after.find? other = s.find? other := by
    intro other
    simp only [find?, sameProcesses]
  constructor
  · exact fun receiver message member => known (fewer receiver message member)
  · intro other q found message member
    rw [sameFind] at found
    exact known (screened.delivered other q found message member)
  · intro other q found message member
    rw [sameFind] at found
    exact known (screened.saved other q found message member)
  · intro other q found
    rw [sameFind] at found
    rw [sameStore]
    exact screened.rejected other q found

theorem Screened.taken {task : Task} {queue : Fifo Task} (screened : Screened s)
    (taken : s.queue.toList = task :: queue.toList) : Screened { s with queue } := by
  refine screened.of_processes_eq rfl rfl (List.suffix_refl _) ?_
  intro receiver message member
  apply screened.queued receiver
  rw [taken]
  exact List.mem_cons_of_mem _ member

/-- A process is replaced by one that is in order. -/
theorem Screened.put (screened : Screened s) (found : s.find? pid = some p)
    (delivered : ∀ message ∈ q.mailbox.toList, s.Known message)
    (saved : ∀ message ∈ q.saved.toList, s.Known message)
    (rejected : q.status = .waiting → ∀ message ∈ q.saved.toList,
      q.receivers.accepts? s.store message = none) : Screened (s.put pid q) := by
  constructor
  · exact screened.queued
  · intro other r foundAfter
    rcases find?_put_cases found foundAfter with ⟨_, rfl⟩ | ⟨_, foundBefore⟩
    · exact delivered
    · exact screened.delivered other r foundBefore
  · intro other r foundAfter
    rcases find?_put_cases found foundAfter with ⟨_, rfl⟩ | ⟨_, foundBefore⟩
    · exact saved
    · exact screened.saved other r foundBefore
  · intro other r foundAfter
    rcases find?_put_cases found foundAfter with ⟨_, rfl⟩ | ⟨_, foundBefore⟩
    · exact rejected
    · exact screened.rejected other r foundBefore

theorem Screened.spawn (screened : Screened s) (f : Closure) : Screened (s.spawn f).2 := by
  have known : ∀ {message}, s.Known message → (s.spawn f).2.Known message :=
    fun old => old.mono (Nat.le_refl _) (List.suffix_cons _ _)
  constructor
  · intro receiver message member
    have queue : (s.spawn f).2.queue.toList =
        s.queue.toList ++ [.run s.processes.nextPid] := Fifo.toList_push _ _
    rw [queue, List.mem_append] at member
    rcases member with old | new
    · exact known (screened.queued receiver message old)
    · rw [List.mem_singleton] at new
      cases new
  · intro other q found message member
    rcases find?_spawn_cases found with ⟨_, rfl⟩ | ⟨_, foundBefore⟩
    · cases member
    · exact known (screened.delivered other q foundBefore message member)
  · intro other q found message member
    rcases find?_spawn_cases found with ⟨_, rfl⟩ | ⟨_, foundBefore⟩
    · cases member
    · exact known (screened.saved other q foundBefore message member)
  · intro other q found
    rcases find?_spawn_cases found with ⟨_, rfl⟩ | ⟨_, foundBefore⟩
    · exact nofun
    · exact screened.rejected other q foundBefore

theorem Screened.redeliver (screened : Screened s) (pid : ProcessId) {messages : List Value}
    (known : ∀ message ∈ messages, s.Known message) : Screened (s.redeliver pid messages) := by
  refine screened.of_processes_eq rfl rfl (List.suffix_refl _) ?_
  intro receiver message member
  have queue : (s.redeliver pid messages).queue.toList =
      s.queue.toList ++ messages.map (.deliver pid) := Fifo.toList_pushAll _ _
  rw [queue, List.mem_append] at member
  rcases member with old | new
  · exact screened.queued receiver message old
  · obtain ⟨_, isMessage, same⟩ := List.mem_map.1 new
    cases same
    exact known message isMessage

theorem Screened.enqueue (screened : Screened s) (pid : ProcessId) : Screened (s.enqueue pid) := by
  refine screened.of_processes_eq rfl rfl (List.suffix_refl _) ?_
  intro receiver message member
  have queue : (s.enqueue pid).queue.toList = s.queue.toList ++ [.run pid] := Fifo.toList_push _ _
  rw [queue, List.mem_append] at member
  rcases member with old | new
  · exact screened.queued receiver message old
  · rw [List.mem_singleton] at new
    cases new

theorem Screened.record (screened : Screened s) (event : Event) : Screened (s.record event) :=
  screened.of_processes_eq rfl rfl (List.suffix_cons _ _) screened.queued

theorem Screened.recordSetAside (screened : Screened s) (pid : ProcessId)
    (messages : List Value) : Screened (s.recordSetAside pid messages) := by
  rw [recordSetAside_eq]
  exact screened.of_processes_eq rfl rfl (List.suffix_append _ _) screened.queued

theorem Screened.dropTimeout (screened : Screened s) (timeout : Option PendingTimeout) :
    Screened (s.dropTimeout timeout) := by
  rw [dropTimeout_eq]
  exact screened.of_processes_eq rfl rfl (List.suffix_refl _) screened.queued

theorem Screened.die (screened : Screened s) (pid : ProcessId) (reason : Value) :
    Screened (s.die pid reason) :=
  screened.undisturbed (undisturbed_die s pid reason)
    ((deathFrame_die s pid reason).grown.keepsCars.but none) nofun

theorem Screened.looks {woke : Bool} (screened : Screened s) (looked : Looks s pid woke after) :
    Screened after := by
  cases looked with
  | absent missing => exact screened
  | busy found awake => exact screened
  | @nothing p found waits rejected =>
      refine Screened.recordSetAside (screened.put found ?_ ?_ ?_) _ _
      · exact nofun
      · intro message member
        rw [Fifo.toList_pushAll, List.mem_append] at member
        rcases member with old | new
        · exact screened.saved pid p found message old
        · exact screened.delivered pid p found message new
      · intro _ message member
        rw [Fifo.toList_pushAll, List.mem_append] at member
        rcases member with old | new
        · exact screened.rejected pid p found waits message old
        · exact rejected message new
  | @resumed p before message rest entry machine found waits divided rejected accepted goesOn =>
      have inMailbox : ∀ m, m ∈ before ∨ m ∈ rest → s.Known m := by
        intro m member
        apply screened.delivered pid p found m
        rw [divided]
        rcases member with earlier | later
        · exact List.mem_append_left _ earlier
        · exact List.mem_append_right _ (List.mem_cons_of_mem _ later)
      have changed : Screened (s.put pid { p with
          mailbox := .ofList rest, saved := .empty, timeout := none, machine }) := by
        refine screened.put found ?_ nofun (fun _ => nofun)
        intro m member
        rw [Fifo.toList_ofList] at member
        exact inMailbox m (.inr member)
      apply Screened.record
      apply ((changed.dropTimeout p.timeout).recordSetAside pid before).redeliver pid
      intro m member
      rw [recordSetAside_eq, dropTimeout_eq]
      have known : s.Known m := by
        rcases List.mem_append.1 member with old | skipped
        · exact screened.saved pid p found m old
        · exact inMailbox m (.inl skipped)
      exact known.mono (Nat.le_refl _) (List.suffix_append _ _)
  | @failed p before message rest entry cause found waits divided rejected accepted faults =>
      refine Screened.die (Screened.recordSetAside (Screened.dropTimeout ?_ _) _ _) pid _
      refine screened.put found ?_ nofun (fun _ => nofun)
      intro m member
      rw [Fifo.toList_ofList] at member
      apply screened.delivered pid p found m
      rw [divided]
      exact List.mem_append_right _ (List.mem_cons_of_mem _ member)

theorem Screened.wake (screened : Screened s) (woken : s.wake pid = some after) :
    Screened after := by
  rcases wake_cases woken with checked | ⟨middle, checked, rfl⟩
  · exact screened.looks (checkMail_looks checked)
  · exact (screened.looks (checkMail_looks checked)).enqueue pid

theorem Screened.current (screened : Screened s) (current : Option ProcessId) :
    Screened { s with current } :=
  screened.of_processes_eq rfl rfl (List.suffix_refl _) screened.queued

theorem Screened.deliver {message : Value} (screened : Screened s) (known : s.Known message)
    (delivered : s.deliver pid message = some after) : Screened after := by
  rcases deliver_cases delivered with ⟨_, rfl⟩ | ⟨p, found, woken⟩
  · exact screened
  · have changed : Screened ({ s with current := some pid }.put pid (p.deliver message)) := by
      refine (screened.current (some pid)).put found ?_ (screened.saved pid p found)
        (screened.rejected pid p found)
      intro m member
      rw [Process.deliver, Fifo.toList_push, List.mem_append] at member
      rcases member with old | new
      · exact screened.delivered pid p found m old
      · rw [List.mem_singleton] at new
        subst new
        exact known
    exact changed.wake woken

theorem Screened.timeOut (screened : Screened s) (pid : ProcessId) : Screened (s.timeOut pid) := by
  have timed := timeOut_timesOut s pid
  generalize s.timeOut pid = after at timed ⊢
  cases timed with
  | kept unarmed => exact screened
  | @resumed p timeout machine found armed waits goesOn =>
      have changed : Screened (s.put pid { p with timeout := none, saved := .empty, machine }) :=
        screened.put found (screened.delivered pid p found) nofun (fun _ => nofun)
      exact ((changed.redeliver pid (screened.saved pid p found)).enqueue pid).record _
  | @failed p timeout found armed awake =>
      have changed : Screened (s.put pid { p with timeout := none, saved := .empty }) :=
        screened.put found (screened.delivered pid p found) nofun (fun _ => nofun)
      exact (changed.redeliver pid (screened.saved pid p found)).die pid _

theorem Screened.expire {timer : Timer} (screened : Screened s)
    (expired : s.expire timer = some after) : Screened after := by
  rcases expire_cases expired with ⟨_, rfl⟩ | ⟨_, woke, middle, checked, rfl⟩
  · exact screened
  · have looked := (screened.current (some timer.pid)).looks (checkMail_looks checked)
    cases woke with
    | true => exact looked.enqueue timer.pid
    | false => exact looked.timeOut timer.pid

theorem Screened.endSlice (screened : Screened s) (ended : s.endSlice pid = some after) :
    Screened after := by
  rcases endSlice_cases ended with ⟨rfl, _⟩ | ⟨p, _, ⟨_, rfl⟩ | ⟨_, woken⟩⟩
  · exact screened
  · exact screened.enqueue pid
  · exact screened.wake woken

end Screened

theorem Screened.move {phase phase' : Option ProcessId} {s after : Scheduler}
    (moved : Move phase s phase' after) (screened : Screened s) : Screened after := by
  cases moved with
  | memory memory kept =>
      exact screened.undisturbed (undisturbed_of_eq rfl rfl rfl) (kept.but none) nofun
  | spawn f => exact screened.spawn f
  | send receiver held =>
      exact screened.undisturbed (undisturbed_send held receiver)
        ((Store.KeepsCars.refl _).but none) nofun
  | prune => exact screened.of_processes_eq rfl rfl (List.suffix_refl _) screened.queued
  | fire due expired =>
      obtain ⟨heap, rfl, _⟩ := popDue?_eq due
      have rest : Screened { s with heap } :=
        screened.of_processes_eq rfl rfl (List.suffix_refl _) screened.queued
      exact rest.expire expired
  | @deliver _ _ _ pid message popped delivered =>
      obtain ⟨queue, rfl, taken⟩ := popTask?_eq popped
      have known : s.Known message := by
        apply screened.queued pid message
        rw [taken]
        exact List.mem_cons_self
      exact (screened.taken taken).deliver known delivered
  | skip popped dead =>
      obtain ⟨queue, rfl, taken⟩ := popTask?_eq popped
      exact screened.taken taken
  | beginSlice popped live =>
      obtain ⟨queue, rfl, taken⟩ := popTask?_eq popped
      exact ((screened.taken taken).current _).record _
  | endSlice ended => exact screened.endSlice ended

theorem Screened.effect {me : ProcessId} {overwritten : Option Ref} {s after : Scheduler}
    (spared : ∀ ref, overwritten = some ref → Engine.UnsentPair s ref)
    (effect : Effect me overwritten s after) (mail : MailRead (some me) s)
    (screened : Screened s) : Screened after := by
  have cars := effect.cars
  cases effect.disturbance with
  | undisturbed undisturbed => exact screened.undisturbed undisturbed cars spared
  | spawned f => exact screened.spawn f
  | @carriedOn p machine found runs goesOn =>
      refine screened.put found (screened.delivered me p found) (screened.saved me p found) ?_
      intro waits
      exact absurd (goesOn.symm.trans waits) nofun
  | @waited p machine receivers found runs waits =>
      refine screened.put found (screened.delivered me p found) (screened.saved me p found) ?_
      intro _ message member
      have nothing : p.saved.toList = [] := mail.taken me p found runs
      rw [nothing] at member
      cases member

/-- An instruction that overwrites a pair sends nothing. -/
theorem Effect.unsentPair {me : ProcessId} {ref : Ref} {s after : Scheduler}
    (effect : Effect me (some ref) s after) (unsent : Engine.UnsentPair s ref) :
    Engine.UnsentPair after ref := by
  cases effect with
  | memory memory kept => exact unsent
  | overwrite isThat v => exact unsent
  | spawn f =>
      intro receiver member
      rcases List.mem_cons.1 member with new | old
      · cases new
      · exact unsent receiver old
  | link a b =>
      rw [link_eq]
      exact unsent
  | unlink peer =>
      rw [unlink_eq]
      exact unsent
  | trapExits =>
      rw [update_eq]
      exact unsent
  | send onlyThat receiver held => cases onlyThat
  | die onlyThat pid reason => cases onlyThat
  | carryOn found runs goesOn => exact unsent
  | wait receivers found runs waits => exact unsent
  | addTimeout deadline entry found waits =>
      rw [addTimeout_eq]
      exact unsent
  | halt onlyThat machine reason found runs => cases onlyThat

end Scheduler

namespace Engine

open Scheduler

/-- Between two turns, whatever guest code and the host do, a waiting process has read its whole
mailbox and a running one has nothing set aside. As long as guest code overwrites no message that
was sent, a waiting process has set aside only what its receive table refuses. -/
theorem no_missed_receive :
    (∀ engine, Reachable AnyPair none engine → ∀ pid p, engine.find? pid = some p →
      (p.status = .waiting → p.mailbox.toList = []) ∧
      (p.status = .running → p.saved.toList = [])) ∧
    ∀ engine, Reachable UnsentPair none engine → ∀ pid p, engine.find? pid = some p →
      p.status = .waiting →
      ∀ message ∈ p.saved.toList, p.receivers.accepts? engine.store message = none := by
  refine ⟨?_, ?_⟩
  · intro engine reachable pid p found
    have mail : MailRead none engine.scheduler :=
      reachable.invariant MailRead (mailRead_empty _) MailRead.move (fun _ => MailRead.effect)
        (fun _ _ => trivial)
    exact ⟨fun waits => mail.read pid p found waits nofun, mail.taken pid p found⟩
  · intro engine reachable pid p found
    have both : MailRead none engine.scheduler ∧ Screened engine.scheduler :=
      reachable.invariant (fun phase s => MailRead phase s ∧ Screened s)
        ⟨mailRead_empty _, screened_empty _⟩
        (fun moved old => ⟨old.1.move moved, old.2.move moved⟩)
        (fun spared effect old => ⟨old.1.effect effect, old.2.effect spared effect old.1⟩)
        Effect.unsentPair
    exact both.2.rejected pid p found

/-- A process that waits and was sent a message, which it set aside. -/
theorem reachable_sleeper (mayOverwrite : Scheduler → Ref → Prop) :
    ∃ engine message p, Reachable mayOverwrite none engine ∧ engine.find? 1 = some p ∧
      p.status = .waiting ∧ message ∈ p.saved.toList := by
  have created : Reachable mayOverwrite none (create {}) := .create {}
  have begun := (created.move (.spawn sleeper)).move (.beginSlice rfl rfl)
  have waits := begun.instruction nofun rfl
  have ended := waits.move (.endSlice rfl)
  let message := initialMemory.store.list [.symbol "snore"]
  have stored := ended.move (.memory ⟨message.2, initialMemory.globals⟩
    (initialMemory.store.grows_list [.symbol "snore"]).keepsCars)
  have sent := stored.move (.send 1 (initialMemory.store.holds_list [.symbol "snore"]))
  have delivered := sent.move (.deliver rfl rfl)
  exact ⟨_, message.1, _, delivered, rfl, rfl, List.mem_singleton_self _⟩

theorem no_missed_receive_sleeper :
    (∃ engine p, Reachable AnyPair none engine ∧ engine.find? 1 = some p ∧
      p.status = .waiting ∧ p.mailbox.toList = []) ∧
    ∃ engine p message, Reachable UnsentPair none engine ∧ engine.find? 1 = some p ∧
      message ∈ p.saved.toList ∧ p.receivers.accepts? engine.store message = none := by
  refine ⟨?_, ?_⟩
  · obtain ⟨engine, _, p, reachable, found, waits, _⟩ := reachable_sleeper AnyPair
    have inOrder := no_missed_receive.1 engine reachable 1 p found
    exact ⟨engine, p, reachable, found, waits, inOrder.1 waits⟩
  · obtain ⟨engine, message, p, reachable, found, waits, member⟩ := reachable_sleeper UnsentPair
    exact ⟨engine, p, message, reachable, found, member,
      no_missed_receive.2 engine reachable 1 p found waits message member⟩

end Engine

end ActorMachine
