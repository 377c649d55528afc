import ActorMachine.Proofs.Scheduler.Ledger

set_option autoImplicit false

/-!
Messages in the order in which they were sent.

A message goes to the end of the queue, from its front to the end of a mailbox, and from the front
of the mailbox to the process. `Forwards` states this for one change of a scheduler and for every
process that sets nothing aside in it: the messages that it went on with and those that are still
before it are the ones that were before it and those that were sent. Changes are put together by
`Forwards.trans`.
-/

namespace ActorMachine

/-- The message, if the given process sets one aside. -/
def Event.setAsideBy? (pid : ProcessId) : Event → Option Value
  | .setAside other message => if other = pid then some message else none
  | _ => none

namespace Scheduler

/-- The messages on their way to a process, the next one first. -/
def queuedFor (s : Scheduler) (pid : ProcessId) : List Value :=
  s.queue.toList.filterMap (Task.messageFor? pid)

/-- The messages that a process has still before it, in the order in which it gets them. -/
def inbound (s : Scheduler) (pid : ProcessId) (p : Process) : List Value :=
  p.mailbox.toList ++ s.queuedFor pid

/-- A process that had nothing set aside, and sets nothing aside, takes its messages in order. -/
def TakesInOrder (s after : Scheduler) (events : List Event) (pid : ProcessId) (p q : Process) :
    Prop :=
  p.saved.toList = [] → events.filterMap (Event.setAsideBy? pid) = [] →
    q.saved.toList = [] ∧
      (events.filterMap (Event.resumedBy? pid)).reverse ++ after.inbound pid q =
        s.inbound pid p ++ (events.filterMap (Event.sentTo? pid)).reverse

/-- No process is made. Those that are there before and after a change take their messages in order,
and those that are still to come get none but what is sent to them. -/
structure Forwards (s after : Scheduler) (events : List Event) : Prop where
  journal : after.journal = events ++ s.journal
  next_eq : after.processes.nextPid = s.processes.nextPid
  survivor : ∀ pid q, after.find? pid = some q → ∃ p, s.find? pid = some p
  order : ∀ pid p q, s.find? pid = some p → after.find? pid = some q →
    TakesInOrder s after events pid p q
  unborn : ∀ pid, s.processes.nextPid ≤ pid →
    events.filterMap (Event.resumedBy? pid) = [] ∧
      ∀ message ∈ after.queuedFor pid,
        message ∈ s.queuedFor pid ∨ message ∈ events.filterMap (Event.sentTo? pid)

section Forwards

variable {s middle after : Scheduler} {events earlier : List Event} {tasks : List Task}
  {pid : ProcessId} {p q : Process}

theorem Forwards.trans (first : Forwards s middle earlier) (second : Forwards middle after events) :
    Forwards s after (events ++ earlier) where
  journal := by rw [second.journal, first.journal, List.append_assoc]
  next_eq := second.next_eq.trans first.next_eq
  survivor := by
    intro pid q found
    obtain ⟨_, foundMiddle⟩ := second.survivor pid q found
    exact first.survivor pid _ foundMiddle
  order := by
    intro pid p r found foundAfter unsaved kept
    obtain ⟨q, foundMiddle⟩ := second.survivor pid r foundAfter
    rw [List.filterMap_append, List.append_eq_nil_iff] at kept
    obtain ⟨stillUnsaved, firstOrder⟩ := first.order pid p q found foundMiddle unsaved kept.2
    obtain ⟨lastUnsaved, secondOrder⟩ :=
      second.order pid q r foundMiddle foundAfter stillUnsaved kept.1
    refine ⟨lastUnsaved, ?_⟩
    rw [List.filterMap_append, List.filterMap_append, List.reverse_append, List.reverse_append,
      List.append_assoc, secondOrder, ← List.append_assoc, firstOrder, List.append_assoc]
  unborn := by
    intro pid coming
    obtain ⟨unresumedBefore, queuedBefore⟩ := first.unborn pid coming
    rw [← first.next_eq] at coming
    obtain ⟨unresumed, queued⟩ := second.unborn pid coming
    refine ⟨?_, ?_⟩
    · rw [List.filterMap_append, unresumed, unresumedBefore, List.append_nil]
    · intro message member
      rw [List.filterMap_append, List.mem_append]
      rcases queued message member with old | new
      · exact (queuedBefore message old).imp_right .inr
      · exact .inr (.inl new)

theorem queuedFor_append (queue : after.queue.toList = s.queue.toList ++ tasks) (pid : ProcessId) :
    after.queuedFor pid = s.queuedFor pid ++ tasks.filterMap (Task.messageFor? pid) := by
  unfold queuedFor
  rw [queue, List.filterMap_append]

/-- A change that leaves mailboxes alone and queues what was sent. -/
theorem forwards_of_queued (journal : after.journal = events ++ s.journal) (quiet : Quiet events)
    (next_eq : after.processes.nextPid = s.processes.nextPid)
    (survivor : ∀ pid q, after.find? pid = some q →
      ∃ p, s.find? pid = some p ∧ q.mailbox = p.mailbox ∧ q.saved = p.saved)
    (queue : after.queue.toList = s.queue.toList ++ tasks)
    (queued : ∀ pid, tasks.filterMap (Task.messageFor? pid) =
      (events.filterMap (Event.sentTo? pid)).reverse) : Forwards s after events where
  journal := journal
  next_eq := next_eq
  survivor := by
    intro pid q found
    obtain ⟨p, foundBefore, _⟩ := survivor pid q found
    exact ⟨p, foundBefore⟩
  order := by
    intro pid p q found foundAfter unsaved _
    obtain ⟨o, foundBefore, mailbox, saved⟩ := survivor pid q foundAfter
    rw [found] at foundBefore
    cases foundBefore
    refine ⟨by rw [saved, unsaved], ?_⟩
    rw [quiet.resumedBy?_eq, List.reverse_nil, List.nil_append, inbound, inbound, mailbox,
      queuedFor_append queue, queued, List.append_assoc]
  unborn := by
    intro pid _
    refine ⟨quiet.resumedBy?_eq pid, ?_⟩
    intro message member
    rw [queuedFor_append queue, queued, List.mem_append, List.mem_reverse] at member
    exact member

theorem forwards_of_same (sameJournal : after.journal = s.journal)
    (sameQueue : after.queue = s.queue)
    (next_eq : after.processes.nextPid = s.processes.nextPid)
    (survivor : ∀ pid q, after.find? pid = some q →
      ∃ p, s.find? pid = some p ∧ q.mailbox = p.mailbox ∧ q.saved = p.saved) :
    Forwards s after [] := by
  have queue : after.queue.toList = s.queue.toList ++ [] := by rw [sameQueue, List.append_nil]
  exact forwards_of_queued sameJournal nofun next_eq survivor queue fun _ => rfl

theorem forwards_of_processes_eq (sameJournal : after.journal = s.journal)
    (sameQueue : after.queue = s.queue) (sameProcesses : after.processes = s.processes) :
    Forwards s after [] := by
  refine forwards_of_same sameJournal sameQueue (by rw [sameProcesses]) ?_
  intro pid q found
  refine ⟨q, ?_, rfl, rfl⟩
  rw [← found]
  simp only [find?, sameProcesses]

theorem forwards_put (found : s.find? pid = some p) (mailbox : q.mailbox = p.mailbox)
    (saved : q.saved = p.saved) : Forwards s (s.put pid q) [] := by
  refine forwards_of_same rfl rfl (ProcessTable.nextPid_put _ _ _) ?_
  intro other r foundAfter
  rcases find?_put_cases found foundAfter with ⟨rfl, rfl⟩ | ⟨_, foundBefore⟩
  · exact ⟨p, found, mailbox, saved⟩
  · exact ⟨r, foundBefore, rfl, rfl⟩

theorem Undisturbed.forwards (undisturbed : s.Undisturbed after)
    (sameJournal : after.journal = s.journal) (sameQueue : after.queue = s.queue) :
    Forwards s after [] := by
  refine forwards_of_same sameJournal sameQueue undisturbed.nextPid_eq ?_
  intro pid q found
  obtain ⟨p, foundBefore, isCopy⟩ := undisturbed.survivor pid q found
  refine ⟨p, foundBefore, ?_, ?_⟩
  · rw [isCopy]
  · rw [isCopy]

theorem forwards_send (s : Scheduler) (receiver : ProcessId) (message : Value) :
    Forwards s (s.send receiver message) [.sent receiver message] := by
  refine forwards_of_queued rfl ?_ rfl (fun pid q found => ⟨q, found, rfl, rfl⟩)
    (Fifo.toList_push _ _) ?_
  · intro event member
    rw [List.mem_singleton.1 member]
    rfl
  · intro pid
    by_cases same : receiver = pid
    · simp [Task.messageFor?, Event.sentTo?, same]
    · simp [Task.messageFor?, Event.sentTo?, same]

theorem forwards_enqueue (s : Scheduler) (pid : ProcessId) : Forwards s (s.enqueue pid) [] :=
  forwards_of_queued rfl nofun rfl (fun _ q found => ⟨q, found, rfl, rfl⟩) (Fifo.toList_push _ _)
    fun _ => rfl

theorem forwards_beginSlice (s : Scheduler) (pid : ProcessId) :
    Forwards s (s.beginSlice pid) [.sliced pid] := by
  refine forwards_of_queued rfl ?_ rfl (fun _ q found => ⟨q, found, rfl, rfl⟩)
    (List.append_nil _).symm fun _ => rfl
  intro event member
  rw [List.mem_singleton.1 member]
  rfl

/-! ### Ends of processes -/

/-- Those who are told of the end of a process are told in the order in which this is entered. -/
theorem DeathFrame.forwards (frame : DeathFrame s after) : ∃ events, Forwards s after events := by
  obtain ⟨told, events, queue, journal, sent, kinds, _⟩ := frame.told
  have quiet : Quiet events := by
    intro event member
    cases event with
    | resumed other message => rcases kinds _ member with isDeath | isSending <;> contradiction
    | timedOut other timer => rcases kinds _ member with isDeath | isSending <;> contradiction
    | _ => rfl
  refine ⟨events, forwards_of_queued journal quiet frame.nextPid_eq ?_ queue ?_⟩
  · intro pid q found
    obtain ⟨p, foundBefore, isCopy⟩ := frame.survivor pid q found
    refine ⟨p, foundBefore, ?_, ?_⟩
    · rw [isCopy]
    · rw [isCopy]
  · intro pid
    have queued : (told.map fun notice => Task.deliver notice.1 notice.2).filterMap
        (Task.messageFor? pid) = told.filterMap (noticeFor? pid) := by
      rw [List.filterMap_map]
      rfl
    have entered : events.filterMap (Event.sentTo? pid) =
        (events.filterMap Event.sending?).filterMap (noticeFor? pid) := by
      rw [List.filterMap_filterMap]
      congr 1
      funext event
      cases event <;> rfl
    rw [queued, entered, sent, List.filterMap_reverse, List.reverse_reverse]

/-- How a process that ends moved its messages before need not be accounted for. -/
theorem Forwards.of_ended (forwards : Forwards middle after events) (earlier : List Event)
    (tasks : List Task) (gone : after.find? pid = none)
    (live : pid < s.processes.nextPid)
    (others : ∀ other, pid ≠ other → middle.find? other = s.find? other)
    (queue : middle.queue.toList = s.queue.toList ++ tasks)
    (own : ∀ other, pid ≠ other → tasks.filterMap (Task.messageFor? other) = [])
    (sameNext : middle.processes.nextPid = s.processes.nextPid)
    (journal : middle.journal = earlier ++ s.journal)
    (unsent : ∀ other, earlier.filterMap (Event.sentTo? other) = [])
    (quiet : Quiet earlier) : Forwards s after (events ++ earlier) := by
  have different : ∀ other q, after.find? other = some q → pid ≠ other := by
    intro other q found same
    rw [← same, gone] at found
    cases found
  have sameQueued : ∀ other, pid ≠ other → middle.queuedFor other = s.queuedFor other := by
    intro other isOther
    rw [queuedFor_append queue, own other isOther, List.append_nil]
  constructor
  · rw [forwards.journal, journal, List.append_assoc]
  · rw [forwards.next_eq, sameNext]
  · intro other q found
    obtain ⟨p, foundMiddle⟩ := forwards.survivor other q found
    rw [others other (different other q found)] at foundMiddle
    exact ⟨p, foundMiddle⟩
  · intro other p q found foundAfter unsaved kept
    have isOther := different other q foundAfter
    have foundMiddle : middle.find? other = some p := by rw [others other isOther, found]
    rw [List.filterMap_append, List.append_eq_nil_iff] at kept
    have order := forwards.order other p q foundMiddle foundAfter unsaved kept.1
    have sameInbound : middle.inbound other p = s.inbound other p := by
      unfold inbound
      rw [sameQueued other isOther]
    rw [sameInbound] at order
    simpa only [List.filterMap_append, quiet.resumedBy?_eq, unsent, List.append_nil] using order
  · intro other coming
    have isOther : pid ≠ other := Nat.ne_of_lt (Nat.lt_of_lt_of_le live coming)
    rw [← sameNext] at coming
    obtain ⟨unresumed, queued⟩ := forwards.unborn other coming
    rw [sameQueued other isOther] at queued
    simpa only [List.filterMap_append, unresumed, quiet.resumedBy?_eq, unsent, List.append_nil,
      true_and] using queued

/-! ### Mail -/

/-- One process moves its messages about. -/
theorem forwards_of_moved (tasks : List Task) (found : s.find? pid = some p)
    (others : ∀ other, pid ≠ other → after.find? other = s.find? other)
    (sameNext : after.processes.nextPid = s.processes.nextPid)
    (journal : after.journal = events ++ s.journal)
    (queue : after.queue.toList = s.queue.toList ++ tasks)
    (own : ∀ other, pid ≠ other → tasks.filterMap (Task.messageFor? other) = [])
    (unsent : ∀ other, events.filterMap (Event.sentTo? other) = [])
    (unresumed : ∀ other, pid ≠ other → events.filterMap (Event.resumedBy? other) = [])
    (order : ∀ q, after.find? pid = some q → TakesInOrder s after events pid p q) :
    Forwards s after events where
  journal := journal
  next_eq := sameNext
  survivor := by
    intro other q foundOther
    by_cases same : pid = other
    · subst same
      exact ⟨p, found⟩
    · rw [others other same] at foundOther
      exact ⟨q, foundOther⟩
  order := by
    intro other o r foundOther foundOtherAfter
    by_cases same : pid = other
    · subst same
      rw [found] at foundOther
      cases foundOther
      exact order r foundOtherAfter
    · rw [others other same, foundOther] at foundOtherAfter
      cases foundOtherAfter
      intro unsaved _
      refine ⟨unsaved, ?_⟩
      rw [unresumed other same, unsent, inbound, inbound, queuedFor_append queue, own other same]
      simp
  unborn := by
    intro other coming
    have isOther : pid ≠ other := Nat.ne_of_lt (Nat.lt_of_lt_of_le (lt_nextPid found) coming)
    refine ⟨unresumed other isOther, ?_⟩
    intro message member
    rw [queuedFor_append queue, own other isOther, List.append_nil] at member
    exact .inl member

theorem setAsideBy?_setAside (pid : ProcessId) (messages : List Value) :
    ((messages.map (Event.setAside pid)).reverse).filterMap (Event.setAsideBy? pid) =
      messages.reverse := by
  rw [List.filterMap_reverse, List.filterMap_map]
  congr 1
  induction messages with
  | nil => rfl
  | cons message messages ih =>
      rw [List.filterMap_cons]
      simp [Event.setAsideBy?, ih]

/-- A process that looks at its mail and sets nothing aside takes the first message, or has none. -/
theorem Looks.forwards {woke : Bool} (looked : Looks s pid woke after) :
    ∃ events, Forwards s after events := by
  cases looked with
  | absent missing => exact ⟨[], forwards_of_processes_eq rfl rfl rfl⟩
  | busy found awake => exact ⟨[], forwards_of_processes_eq rfl rfl rfl⟩
  | @nothing p found waits rejected =>
      have quiet := quiet_setAside pid p.mailbox.toList
      refine ⟨(p.mailbox.toList.map (.setAside pid)).reverse, ?_⟩
      rw [recordSetAside_eq]
      refine forwards_of_moved [] found ?_ (ProcessTable.nextPid_put _ _ _) rfl
        (List.append_nil _).symm (fun _ _ => rfl) (fun other => sentTo?_setAside pid other _)
        (fun other _ => quiet.resumedBy?_eq other) ?_
      · intro other different
        exact (find?_put found _ other).trans (if_neg different)
      · intro q foundAfter unsaved kept
        rw [setAsideBy?_setAside, List.reverse_eq_nil_iff] at kept
        cases (find?_put_self found _).symm.trans foundAfter
        rw [quiet.resumedBy?_eq, sentTo?_setAside]
        simp [inbound, queuedFor, put, unsaved, kept]
  | @resumed p before message rest entry machine found waits divided rejected accepted goesOn =>
      have quiet := quiet_setAside pid before
      refine ⟨.resumed pid message :: (before.map (.setAside pid)).reverse, ?_⟩
      refine forwards_of_moved ((p.saved.toList ++ before).map (.deliver pid)) found
        ?_ ?_ ?_ ?_ (fun _ different => filterMap_messageFor?_other different _)
        (fun other => sentTo?_setAside pid other _) ?_ ?_
      · intro other different
        simp only [find?_record, find?_redeliver, find?_recordSetAside, find?_dropTimeout,
          find?_put found, if_neg different]
      · simp only [record, redeliver, recordSetAside_eq, dropTimeout_eq, put,
          ProcessTable.nextPid_put]
      · simp only [record, redeliver, recordSetAside_eq, dropTimeout_eq, put, List.cons_append]
      · simp only [record, redeliver, recordSetAside_eq, dropTimeout_eq, put, Fifo.toList_pushAll]
      · intro other different
        simp [Event.resumedBy?, different, quiet.resumedBy?_eq]
      · intro q foundAfter unsaved kept
        simp only [find?_record, find?_redeliver, find?_recordSetAside, find?_dropTimeout,
          find?_put_self found] at foundAfter
        cases foundAfter
        have noneBefore : before = [] := by
          rw [List.filterMap_cons_none rfl, setAsideBy?_setAside] at kept
          exact List.reverse_eq_nil_iff.1 kept
        subst noneBefore
        simp [inbound, queuedFor, record, redeliver, recordSetAside_eq, dropTimeout_eq, put,
          unsaved,
          divided, Event.resumedBy?, Event.sentTo?]
  | @failed p before message rest entry cause found waits divided rejected accepted faults =>
      obtain ⟨events, forwards⟩ := (deathFrame_die (((s.put pid { p with
        mailbox := .ofList rest
        saved := .empty
        timeout := none }).dropTimeout p.timeout).recordSetAside pid before) pid
          (.string cause.reasonText)).forwards
      refine ⟨events ++ (before.map (.setAside pid)).reverse, ?_⟩
      refine forwards.of_ended _ [] (find?_die_self _ _ _) (lt_nextPid found) ?_ ?_
        (fun _ _ => rfl) ?_ ?_ (fun other => sentTo?_setAside pid other _)
        (quiet_setAside pid before)
      · intro other different
        simp only [find?_recordSetAside, find?_dropTimeout, find?_put found, if_neg different]
      · simp only [recordSetAside_eq, dropTimeout_eq, put, List.append_nil]
      · simp only [recordSetAside_eq, dropTimeout_eq, put, ProcessTable.nextPid_put]
      · simp only [recordSetAside_eq, dropTimeout_eq, put]

theorem forwards_wake (woken : s.wake pid = some after) : ∃ events, Forwards s after events := by
  rcases wake_cases woken with checked | ⟨middle, checked, rfl⟩
  · exact (checkMail_looks checked).forwards
  · obtain ⟨events, forwards⟩ := (checkMail_looks checked).forwards
    exact ⟨events, forwards.trans (forwards_enqueue middle pid)⟩

theorem forwards_endSlice (ended : s.endSlice pid = some after) :
    ∃ events, Forwards s after events := by
  rcases endSlice_cases ended with ⟨rfl, _⟩ | ⟨p, _, ⟨_, rfl⟩ | ⟨_, woken⟩⟩
  · exact ⟨[], forwards_of_processes_eq rfl rfl rfl⟩
  · exact ⟨[], forwards_enqueue s pid⟩
  · exact forwards_wake woken

/-- A task that is taken from the queue and has no message for a living process. -/
theorem forwards_of_taken {task : Task} {queue : Fifo Task}
    (first : s.queue.toList = task :: queue.toList)
    (unread : ∀ other p, s.find? other = some p → task.messageFor? other = none) :
    Forwards s { s with queue } [] where
  journal := rfl
  next_eq := rfl
  survivor := fun other q found => ⟨q, found⟩
  order := by
    intro other p q found foundAfter unsaved _
    change s.find? other = some q at foundAfter
    rw [found] at foundAfter
    cases foundAfter
    refine ⟨unsaved, ?_⟩
    simp [inbound, queuedFor, first, unread other p found]
  unborn := by
    intro other _
    refine ⟨rfl, ?_⟩
    intro message member
    refine .inl ?_
    unfold queuedFor
    rw [first]
    exact ((List.sublist_cons_self task queue.toList).filterMap _).subset member

/-- A message that is taken from the queue goes to the end of a mailbox. -/
theorem forwards_deliver {message : Value} {queue : Fifo Task}
    (first : s.queue.toList = .deliver pid message :: queue.toList)
    (delivered : { s with queue }.deliver pid message = some after) :
    ∃ events, Forwards s after events := by
  rcases deliver_cases delivered with ⟨missing, rfl⟩ | ⟨p, found, woken⟩
  · refine ⟨[], forwards_of_taken first ?_⟩
    intro other p found
    have different : pid ≠ other := by
      intro same
      rw [← same] at found
      exact absurd (found.symm.trans missing) nofun
    exact if_neg different
  · obtain ⟨events, forwards⟩ := forwards_wake woken
    change s.find? pid = some p at found
    have put : Forwards s
        ({ s with queue, current := some pid }.put pid (p.deliver message)) [] := by
      constructor
      · rfl
      · exact ProcessTable.nextPid_put _ _ _
      · intro other q foundAfter
        rcases find?_put_cases found foundAfter with ⟨rfl, _⟩ | ⟨_, foundBefore⟩
        · exact ⟨p, found⟩
        · exact ⟨q, foundBefore⟩
      · intro other o q foundOther foundAfter unsaved _
        rcases find?_put_cases found foundAfter with ⟨rfl, rfl⟩ | ⟨different, foundBefore⟩
        · rw [found] at foundOther
          cases foundOther
          refine ⟨unsaved, ?_⟩
          simp [inbound, queuedFor, Scheduler.put, Process.deliver, first, Task.messageFor?]
        · rw [foundOther] at foundBefore
          cases foundBefore
          refine ⟨unsaved, ?_⟩
          simp [inbound, queuedFor, Scheduler.put, first, Task.messageFor?, different]
      · intro other _
        refine ⟨rfl, ?_⟩
        intro message' member
        refine .inl ?_
        unfold queuedFor
        rw [first]
        exact ((List.sublist_cons_self _ queue.toList).filterMap _).subset member
    have whole := put.trans forwards
    rw [List.append_nil] at whole
    exact ⟨events, whole⟩

theorem forwards_timeOut (s : Scheduler) (pid : ProcessId) :
    ∃ events, Forwards s (s.timeOut pid) events := by
  have timed := timeOut_timesOut s pid
  generalize s.timeOut pid = after at timed ⊢
  cases timed with
  | kept unarmed => exact ⟨[], forwards_of_processes_eq rfl rfl rfl⟩
  | @resumed p timeout machine found armed isWaiting goesOn =>
      refine ⟨[.timedOut pid timeout.id], ?_⟩
      refine forwards_of_moved (p.saved.toList.map (.deliver pid) ++ [.run pid]) found
        ?_ (ProcessTable.nextPid_put _ _ _) rfl ?_ ?_ (fun _ => rfl) (fun _ _ => rfl) ?_
      · intro other different
        simp only [find?_record, find?_enqueue, find?_redeliver, find?_put found, if_neg different]
      · simp only [record, enqueue, pushTask, redeliver, put, Fifo.toList_push, Fifo.toList_pushAll,
          List.append_assoc]
      · intro other different
        rw [List.filterMap_append, filterMap_messageFor?_other different]
        rfl
      · intro q foundAfter unsaved _
        simp only [find?_record, find?_enqueue, find?_redeliver, find?_put_self found] at foundAfter
        cases foundAfter
        have noMessage : [Task.run pid].filterMap (Task.messageFor? pid) = [] := rfl
        have noneTaken :
            [Event.timedOut pid timeout.id].filterMap (Event.resumedBy? pid) = [] := rfl
        have noneSent : [Event.timedOut pid timeout.id].filterMap (Event.sentTo? pid) = [] := rfl
        simp [inbound, queuedFor, record, enqueue, pushTask, redeliver, put, unsaved, noMessage,
          noneTaken, noneSent]
  | @failed p timeout found armed awake =>
      obtain ⟨events, forwards⟩ := (deathFrame_die ((s.put pid { p with
        timeout := none
        saved := .empty }).redeliver pid p.saved.toList) pid
          (.string Fault.notWaiting.reasonText)).forwards
      refine ⟨events ++ [], forwards.of_ended []
        (p.saved.toList.map (.deliver pid)) (find?_die_self _ _ _) (lt_nextPid found) ?_ ?_
        (fun _ different => filterMap_messageFor?_other different _)
        (ProcessTable.nextPid_put _ _ _) rfl (fun _ => rfl) (List.forall_mem_nil _)⟩
      · intro other different
        simp only [find?_redeliver, find?_put found, if_neg different]
      · simp only [redeliver, put, Fifo.toList_pushAll]

/-- A timer that fires takes no message out of its turn. -/
theorem forwards_fire {timer : Timer} {heap : TimerHeap}
    (expired : { s with heap }.expire timer = some after) :
    ∃ events, Forwards s after events := by
  let taken : Scheduler := { s with heap, current := some timer.pid }
  have start : Forwards s taken [] := forwards_of_processes_eq rfl rfl rfl
  rcases expire_cases expired with ⟨_, rfl⟩ | ⟨_, woke, middle, checked, rfl⟩
  · exact ⟨[], forwards_of_processes_eq rfl rfl rfl⟩
  · obtain ⟨events, forwards⟩ := (checkMail_looks checked).forwards
    have soFar := start.trans forwards
    cases woke with
    | true => exact ⟨_, soFar.trans (forwards_enqueue middle timer.pid)⟩
    | false =>
        obtain ⟨last, lastForwards⟩ := forwards_timeOut middle timer.pid
        exact ⟨_, soFar.trans lastForwards⟩

end Forwards

end Scheduler

end ActorMachine
