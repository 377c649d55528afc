import ActorMachine.Proofs.Scheduler.Bystanders
import ActorMachine.Proofs.Scheduler.Mail
import Mathlib.Algebra.Order.Group.Multiset
import Mathlib.Tactic.Abel

set_option autoImplicit false

/-!
Messages accounted for.

A message that was sent is on its way, in a mailbox or set aside, until a process goes on with it.
`Ledger` states this for one change of a scheduler by the events that the change enters in the
journal: what was there and what was sent is what is there now and what was taken. Changes are put
together by `Ledger.trans`.
-/

namespace ActorMachine

/-- The message, if the task delivers one to the given process. -/
def Task.messageFor? (pid : ProcessId) : Task → Option Value
  | .run _ => none
  | .deliver receiver message => if receiver = pid then some message else none

namespace Event

/-- The message, if one is sent to the given process. -/
def sentTo? (pid : ProcessId) : Event → Option Value
  | .sent receiver message => if receiver = pid then some message else none
  | _ => none

/-- The message, if the given process goes on with one. -/
def resumedBy? (pid : ProcessId) : Event → Option Value
  | .resumed other message => if other = pid then some message else none
  | _ => none

/-- The process and its timer, if a wait ends at its timeout. -/
def timeout? : Event → Option (ProcessId × Nat)
  | .timedOut pid timer => some (pid, timer)
  | _ => none

/-- The process that goes on, with a message or at its timeout. -/
def awakened? : Event → Option ProcessId
  | .resumed pid _ => some pid
  | .timedOut pid _ => some pid
  | _ => none

def isResumption (event : Event) : Bool := event.awakened?.isSome

theorem not_timedOut {events : List Event} (inTime : events.filterMap timeout? = [])
    (pid : ProcessId) (id : Nat) : .timedOut pid id ∉ events := by
  intro member
  have listed : (pid, id) ∈ events.filterMap timeout? := List.mem_filterMap.2 ⟨_, member, rfl⟩
  rw [inTime] at listed
  cases listed

end Event

/-- Nobody goes on. -/
def Quiet (events : List Event) : Prop := ∀ event ∈ events, event.isResumption = false

namespace Quiet

variable {events : List Event}

theorem append {earlier : List Event} (quiet : Quiet events) (before : Quiet earlier) :
    Quiet (events ++ earlier) := by
  intro event member
  rcases List.mem_append.1 member with later | early
  · exact quiet event later
  · exact before event early

theorem resumedBy?_eq (quiet : Quiet events) (pid : ProcessId) :
    events.filterMap (Event.resumedBy? pid) = [] := by
  rw [List.filterMap_eq_nil_iff]
  intro event member
  have isQuiet := quiet event member
  cases event with
  | resumed other message => cases isQuiet
  | _ => rfl

theorem not_resumed (quiet : Quiet events) (pid : ProcessId) (message : Value) :
    .resumed pid message ∉ events :=
  fun member => Bool.noConfusion (quiet _ member)

theorem timeout?_eq (quiet : Quiet events) : events.filterMap Event.timeout? = [] := by
  rw [List.filterMap_eq_nil_iff]
  intro event member
  have isQuiet := quiet event member
  cases event with
  | timedOut pid timer => cases isQuiet
  | _ => rfl

theorem countP_eq (quiet : Quiet events) : events.countP Event.isResumption = 0 := by
  rw [List.countP_eq_zero]
  intro event member
  rw [quiet event member]
  exact Bool.false_ne_true

end Quiet

namespace Scheduler

/-- The messages of a process: on their way to it, in its mailbox, and set aside. -/
def mail (s : Scheduler) (pid : ProcessId) (p : Process) : Multiset Value :=
  s.queue.toList.filterMap (Task.messageFor? pid) + p.mailbox.toList + p.saved.toList

/-- The messages of all processes that are there before and after a change are accounted for by the
events that it enters, and so are the processes that wait no longer. -/
structure Ledger (s after : Scheduler) (events : List Event) : Prop where
  journal : after.journal = events ++ s.journal
  next_le : s.processes.nextPid ≤ after.processes.nextPid
  survivor : ∀ pid q, after.find? pid = some q → pid < s.processes.nextPid →
    ∃ p, s.find? pid = some p
  balance : ∀ pid p q, s.find? pid = some p → after.find? pid = some q →
    after.mail pid q + events.filterMap (Event.resumedBy? pid) =
      s.mail pid p + events.filterMap (Event.sentTo? pid)
  asleep : ∀ pid p q, s.find? pid = some p → after.find? pid = some q → p.status = .waiting →
    q.machine = p.machine ∨ pid ∈ events.filterMap Event.awakened?

/-- A process has just gone on with a message: at the entry that its receive table has for it, with
the arguments that the message carries. -/
def WentOnWith (s : Scheduler) (pid : ProcessId) (message : Value) : Prop :=
  ∃ p entry waiting, s.find? pid = some p ∧ p.receivers.accepts? s.store message = some entry ∧
    Machine.resume waiting s.store entry ((s.store.cdr? message).getD .nil) = .ok p.machine

/-- The wait of a process has ended at its timeout: it goes on at the entry for that. -/
def WentOnAtTimeout (s after : Scheduler) (pid : ProcessId) (id : Nat) : Prop :=
  ∃ p timeout q, s.find? pid = some p ∧ p.timeout = some timeout ∧ timeout.id = id ∧
    after.find? pid = some q ∧ p.machine.resume s.store timeout.entry .nil = .ok q.machine

section Ledger

variable {s middle after : Scheduler} {events earlier : List Event} {pid : ProcessId}
  {p q : Process}

theorem Ledger.trans (first : Ledger s middle earlier) (second : Ledger middle after events) :
    Ledger s after (events ++ earlier) where
  journal := by rw [second.journal, first.journal, List.append_assoc]
  next_le := Nat.le_trans first.next_le second.next_le
  survivor := by
    intro pid q found old
    obtain ⟨_, foundMiddle⟩ := second.survivor pid q found (Nat.lt_of_lt_of_le old first.next_le)
    exact first.survivor pid _ foundMiddle old
  balance := by
    intro pid p r found foundAfter
    have old := Nat.lt_of_lt_of_le (lt_nextPid found) first.next_le
    obtain ⟨q, foundMiddle⟩ := second.survivor pid r foundAfter old
    have firstBalance := first.balance pid p q found foundMiddle
    have secondBalance := second.balance pid q r foundMiddle foundAfter
    rw [List.filterMap_append, List.filterMap_append, ← Multiset.coe_add, ← Multiset.coe_add,
      ← add_assoc, secondBalance, add_right_comm, firstBalance, add_right_comm, add_assoc]
  asleep := by
    intro pid p r found foundAfter waits
    have old := Nat.lt_of_lt_of_le (lt_nextPid found) first.next_le
    obtain ⟨q, foundMiddle⟩ := second.survivor pid r foundAfter old
    rw [List.filterMap_append, List.mem_append]
    rcases first.asleep pid p q found foundMiddle waits with same | awakened
    · have stillWaits : q.status = .waiting := (congrArg Machine.status same).trans waits
      rcases second.asleep pid q r foundMiddle foundAfter stillWaits with still | awakened
      · exact .inl (still.trans same)
      · exact .inr (.inl awakened)
    · exact .inr (.inr awakened)

/-- A change that leaves mailboxes alone and queues what was sent. -/
theorem ledger_of_queued {tasks : List Task} (journal : after.journal = events ++ s.journal)
    (quiet : Quiet events) (next_le : s.processes.nextPid ≤ after.processes.nextPid)
    (survivor : ∀ pid q, after.find? pid = some q → pid < s.processes.nextPid →
      ∃ p, s.find? pid = some p ∧ q.mailbox = p.mailbox ∧ q.saved = p.saved ∧
        (p.status = .waiting → q.machine = p.machine))
    (queue : after.queue.toList = s.queue.toList ++ tasks)
    (queued : ∀ pid, (tasks.filterMap (Task.messageFor? pid)).Perm
      (events.filterMap (Event.sentTo? pid))) : Ledger s after events where
  journal := journal
  next_le := next_le
  survivor := by
    intro pid q found old
    obtain ⟨p, foundBefore, _⟩ := survivor pid q found old
    exact ⟨p, foundBefore⟩
  balance := by
    intro pid p q found foundAfter
    obtain ⟨o, foundBefore, mailbox, saved, _⟩ := survivor pid q foundAfter (lt_nextPid found)
    rw [found] at foundBefore
    cases foundBefore
    have posted : (tasks.filterMap (Task.messageFor? pid) : Multiset Value) =
        events.filterMap (Event.sentTo? pid) := Multiset.coe_eq_coe.2 (queued pid)
    simp only [mail, queue, mailbox, saved, quiet.resumedBy?_eq, List.filterMap_append,
      ← Multiset.coe_add, posted, Multiset.coe_nil, add_zero]
    abel
  asleep := by
    intro pid p q found foundAfter waits
    obtain ⟨o, foundBefore, _, _, machine⟩ := survivor pid q foundAfter (lt_nextPid found)
    rw [found] at foundBefore
    cases foundBefore
    exact .inl (machine waits)

/-- A change that neither moves messages nor enters anything. -/
theorem ledger_of_same (sameJournal : after.journal = s.journal) (sameQueue : after.queue = s.queue)
    (next_le : s.processes.nextPid ≤ after.processes.nextPid)
    (survivor : ∀ pid q, after.find? pid = some q →
      ∃ p, s.find? pid = some p ∧ q.mailbox = p.mailbox ∧ q.saved = p.saved ∧
        (p.status = .waiting → q.machine = p.machine)) :
    Ledger s after [] := by
  have queue : after.queue.toList = s.queue.toList ++ [] := by rw [sameQueue, List.append_nil]
  exact ledger_of_queued sameJournal nofun next_le (fun pid q found _ => survivor pid q found) queue
    (fun _ => .refl _)

theorem ledger_of_processes_eq (sameJournal : after.journal = s.journal)
    (sameQueue : after.queue = s.queue) (sameProcesses : after.processes = s.processes) :
    Ledger s after [] := by
  refine ledger_of_same sameJournal sameQueue (Nat.le_of_eq (by rw [sameProcesses])) ?_
  intro pid q found
  refine ⟨q, ?_, rfl, rfl, fun _ => rfl⟩
  rw [← found]
  simp only [find?, sameProcesses]

theorem ledger_put (found : s.find? pid = some p) (mailbox : q.mailbox = p.mailbox)
    (saved : q.saved = p.saved) (awake : p.status ≠ .waiting) : Ledger s (s.put pid q) [] := by
  refine ledger_of_same rfl rfl (Nat.le_of_eq (ProcessTable.nextPid_put _ _ _).symm) ?_
  intro other r foundAfter
  rcases find?_put_cases found foundAfter with ⟨rfl, rfl⟩ | ⟨_, foundBefore⟩
  · exact ⟨p, found, mailbox, saved, fun waits => absurd waits awake⟩
  · exact ⟨r, foundBefore, rfl, rfl, fun _ => rfl⟩

theorem Undisturbed.ledger (undisturbed : s.Undisturbed after)
    (sameJournal : after.journal = s.journal) (sameQueue : after.queue = s.queue) :
    Ledger s after [] := by
  refine ledger_of_same sameJournal sameQueue (Nat.le_of_eq undisturbed.nextPid_eq.symm) ?_
  intro pid q found
  obtain ⟨p, foundBefore, isCopy⟩ := undisturbed.survivor pid q found
  refine ⟨p, foundBefore, ?_, ?_, ?_⟩
  · rw [isCopy]
  · rw [isCopy]
  · intro _
    rw [isCopy]

theorem ledger_send (s : Scheduler) (receiver : ProcessId) (message : Value) :
    Ledger s (s.send receiver message) [.sent receiver message] := by
  refine ledger_of_queued rfl ?_ (Nat.le_refl _)
    (fun pid q found _ => ⟨q, found, rfl, rfl, fun _ => rfl⟩) (Fifo.toList_push _ _)
    (fun _ => .refl _)
  intro event member
  rw [List.mem_singleton.1 member]
  rfl

theorem ledger_spawn (s : Scheduler) (f : Closure) :
    Ledger s (s.spawn f).2 [.spawned s.processes.nextPid] := by
  have next : (s.spawn f).2.processes.nextPid = s.processes.nextPid + 1 :=
    ProcessTable.nextPid_add _ _
  refine ledger_of_queued rfl ?_ ?_ ?_ (Fifo.toList_push _ _) (fun _ => .refl _)
  · intro event member
    rw [List.mem_singleton.1 member]
    rfl
  · rw [next]
    exact Nat.le_succ _
  · intro pid q found old
    rcases find?_spawn_cases found with ⟨isNew, _⟩ | ⟨_, foundBefore⟩
    · exact absurd isNew (Nat.ne_of_lt old)
    · exact ⟨q, foundBefore, rfl, rfl, fun _ => rfl⟩

/-! ### Ends of processes -/

/-- The message of a notice to the given process. -/
def noticeFor? (pid : ProcessId) (notice : ProcessId × Value) : Option Value :=
  if notice.1 = pid then some notice.2 else none

/-- Those who are told of the end of a process are sent the notices that are queued. -/
theorem DeathFrame.ledger (frame : DeathFrame s after) :
    ∃ events, Ledger s after events ∧ Quiet events := by
  obtain ⟨told, events, queue, journal, sent, kinds, _⟩ := frame.told
  have quiet : Quiet events := by
    intro event member
    cases event with
    | resumed other message => rcases kinds _ member with isDeath | isSending <;> contradiction
    | timedOut other timer => rcases kinds _ member with isDeath | isSending <;> contradiction
    | _ => rfl
  refine ⟨events, ?_, quiet⟩
  refine ledger_of_queued journal quiet (Nat.le_of_eq frame.nextPid_eq.symm) ?_ queue ?_
  · intro pid q found _
    obtain ⟨p, foundBefore, isCopy⟩ := frame.survivor pid q found
    refine ⟨p, foundBefore, ?_, ?_, ?_⟩
    · rw [isCopy]
    · rw [isCopy]
    · intro _
      rw [isCopy]
  · intro pid
    have queued : (told.map fun notice => Task.deliver notice.1 notice.2).filterMap
        (Task.messageFor? pid) = told.filterMap (noticeFor? pid) := by
      rw [List.filterMap_map]
      rfl
    have entered : events.filterMap (Event.sentTo? pid) =
        (events.filterMap Event.sending?).filterMap (noticeFor? pid) := by
      rw [List.filterMap_filterMap]
      congr 1
      funext event
      cases event <;> rfl
    rw [queued, entered, sent]
    exact (told.reverse_perm.filterMap _).symm

/-- What becomes of a process just before it ends need not be accounted for. -/
theorem Ledger.of_ended (ledger : Ledger middle after events) (gone : after.find? pid = none)
    (others : ∀ other, pid ≠ other → middle.find? other = s.find? other)
    (sameQueue : middle.queue = s.queue)
    (sameNext : middle.processes.nextPid = s.processes.nextPid)
    (journal : middle.journal = earlier ++ s.journal)
    (unsent : ∀ other, earlier.filterMap (Event.sentTo? other) = [])
    (quiet : Quiet earlier) : Ledger s after (events ++ earlier) := by
  have different : ∀ other q, after.find? other = some q → pid ≠ other := by
    intro other q found same
    rw [← same, gone] at found
    cases found
  constructor
  · rw [ledger.journal, journal, List.append_assoc]
  · rw [← sameNext]
    exact ledger.next_le
  · intro other q found old
    rw [← sameNext] at old
    obtain ⟨p, foundMiddle⟩ := ledger.survivor other q found old
    rw [others other (different other q found)] at foundMiddle
    exact ⟨p, foundMiddle⟩
  · intro other p q found foundAfter
    have foundMiddle : middle.find? other = some p := by
      rw [others other (different other q foundAfter), found]
    have balance := ledger.balance other p q foundMiddle foundAfter
    have sameMail : middle.mail other p = s.mail other p := by
      unfold mail
      rw [sameQueue]
    rw [sameMail] at balance
    simpa only [List.filterMap_append, quiet.resumedBy?_eq, unsent, List.append_nil] using balance
  · intro other p q found foundAfter waits
    have foundMiddle : middle.find? other = some p := by
      rw [others other (different other q foundAfter), found]
    rw [List.filterMap_append, List.mem_append]
    exact (ledger.asleep other p q foundMiddle foundAfter waits).imp_right .inl

/-! ### Mail -/

/-- The entries that messages were set aside. -/
theorem quiet_setAside (pid : ProcessId) (messages : List Value) :
    Quiet (messages.map (Event.setAside pid)).reverse := by
  intro event member
  obtain ⟨message, _, rfl⟩ := List.mem_map.1 (List.mem_reverse.1 member)
  rfl

theorem sentTo?_setAside (pid other : ProcessId) (messages : List Value) :
    ((messages.map (Event.setAside pid)).reverse).filterMap (Event.sentTo? other) = [] := by
  rw [List.filterMap_eq_nil_iff]
  intro event member
  obtain ⟨message, _, rfl⟩ := List.mem_map.1 (List.mem_reverse.1 member)
  rfl

theorem filterMap_messageFor?_self (pid : ProcessId) (messages : List Value) :
    (messages.map (Task.deliver pid)).filterMap (Task.messageFor? pid) = messages := by
  induction messages with
  | nil => rfl
  | cons message messages ih => simp [Task.messageFor?, ih]

theorem filterMap_messageFor?_other {pid other : ProcessId} (different : pid ≠ other)
    (messages : List Value) :
    (messages.map (Task.deliver pid)).filterMap (Task.messageFor? other) = [] := by
  rw [List.filterMap_eq_nil_iff]
  intro task member
  obtain ⟨message, _, rfl⟩ := List.mem_map.1 member
  exact if_neg different

/-- One process moves its messages about, and `handedBack` are queued for it again. -/
theorem ledger_of_moved (handedBack taken : List Value) (extra : List Task)
    (found : s.find? pid = some p) (foundAfter : after.find? pid = some q)
    (others : ∀ other, pid ≠ other → after.find? other = s.find? other)
    (sameNext : after.processes.nextPid = s.processes.nextPid)
    (journal : after.journal = events ++ s.journal)
    (queue : after.queue.toList = s.queue.toList ++ (handedBack.map (.deliver pid) ++ extra))
    (noMessage : ∀ other, extra.filterMap (Task.messageFor? other) = [])
    (unsent : ∀ other, events.filterMap (Event.sentTo? other) = [])
    (resumed : events.filterMap (Event.resumedBy? pid) = taken)
    (notOthers : ∀ other, pid ≠ other → events.filterMap (Event.resumedBy? other) = [])
    (moved : (handedBack ++ q.mailbox.toList ++ q.saved.toList ++ taken).Perm
      (p.mailbox.toList ++ p.saved.toList))
    (awakened : q.machine = p.machine ∨ pid ∈ events.filterMap Event.awakened?) :
    Ledger s after events where
  journal := journal
  next_le := Nat.le_of_eq sameNext.symm
  survivor := by
    intro other r foundOther _
    by_cases same : pid = other
    · subst same
      exact ⟨p, found⟩
    · rw [others other same] at foundOther
      exact ⟨r, foundOther⟩
  balance := by
    intro other o r foundOther foundOtherAfter
    by_cases same : pid = other
    · subst same
      rw [found] at foundOther
      rw [foundAfter] at foundOtherAfter
      cases foundOther
      cases foundOtherAfter
      have sameMessages := Multiset.coe_eq_coe.2 moved
      simp only [← Multiset.coe_add] at sameMessages
      simp only [mail, queue, List.filterMap_append, filterMap_messageFor?_self, noMessage, unsent,
        resumed, List.append_nil, ← Multiset.coe_add, Multiset.coe_nil, add_zero]
      rw [add_assoc (Multiset.ofList _) (Multiset.ofList p.mailbox.toList), ← sameMessages]
      abel
    · rw [others other same, foundOther] at foundOtherAfter
      cases foundOtherAfter
      simp only [mail, queue, List.filterMap_append, filterMap_messageFor?_other same, noMessage,
        unsent, notOthers other same, List.append_nil]
  asleep := by
    intro other o r foundOther foundOtherAfter _
    by_cases same : pid = other
    · subst same
      rw [found] at foundOther
      rw [foundAfter] at foundOtherAfter
      cases foundOther
      cases foundOtherAfter
      exact awakened
    · rw [others other same, foundOther] at foundOtherAfter
      cases foundOtherAfter
      exact .inl rfl

/-- A look at the mail is accounted for; it takes one message if the process goes on. -/
theorem Looks.ledger {woke : Bool} (looked : Looks s pid woke after) :
    ∃ events, Ledger s after events ∧ events.filterMap Event.timeout? = [] ∧
      (events.countP Event.isResumption = if woke = true then 1 else 0) ∧
      ∀ other message, .resumed other message ∈ events → after.WentOnWith other message := by
  cases looked with
  | absent missing => exact ⟨[], ledger_of_processes_eq rfl rfl rfl, rfl, rfl, nofun⟩
  | busy found awake => exact ⟨[], ledger_of_processes_eq rfl rfl rfl, rfl, rfl, nofun⟩
  | @nothing p found waits rejected =>
      have quiet := quiet_setAside pid p.mailbox.toList
      refine ⟨(p.mailbox.toList.map (.setAside pid)).reverse, ?_, quiet.timeout?_eq,
        quiet.countP_eq, fun other m member => absurd member (quiet.not_resumed other m)⟩
      rw [recordSetAside_eq]
      refine ledger_of_moved [] [] [] found (find?_put_self found _) ?_
        (ProcessTable.nextPid_put _ _ _) rfl ?_ (fun _ => rfl)
        (fun other => sentTo?_setAside pid other _) (quiet.resumedBy?_eq pid)
        (fun other _ => quiet.resumedBy?_eq other) ?_ (.inl rfl)
      · intro other different
        exact (find?_put found _ other).trans (if_neg different)
      · exact (List.append_nil _).symm
      · simp only [Fifo.toList_empty, Fifo.toList_pushAll, List.nil_append, List.append_nil]
        exact List.perm_append_comm
  | @resumed p before message rest entry machine found waits divided rejected accepted goesOn =>
      have quiet := quiet_setAside pid before
      have inTime : (Event.resumed pid message ::
          (before.map (.setAside pid)).reverse).filterMap Event.timeout? = [] := quiet.timeout?_eq
      have foundAfter : (((((s.put pid { p with
          mailbox := .ofList rest
          saved := .empty
          timeout := none
          machine }).dropTimeout p.timeout).recordSetAside pid before).redeliver pid
            (p.saved.toList ++ before)).record (.resumed pid message)).find? pid = some { p with
          mailbox := .ofList rest
          saved := .empty
          timeout := none
          machine } := by
        simp only [find?_record, find?_redeliver, find?_recordSetAside, find?_dropTimeout,
          find?_put_self found]
      refine ⟨.resumed pid message :: (before.map (.setAside pid)).reverse, ?_, inTime, ?_, ?_⟩
      · refine ledger_of_moved (p.saved.toList ++ before) [message] [] found foundAfter
          ?_ ?_ ?_ ?_ (fun _ => rfl) (fun other => sentTo?_setAside pid other _) ?_ ?_ ?_
          (.inr List.mem_cons_self)
        · intro other different
          simp only [find?_record, find?_redeliver, find?_recordSetAside, find?_dropTimeout,
            find?_put found, if_neg different]
        · simp only [record, redeliver, recordSetAside_eq, dropTimeout_eq, put,
            ProcessTable.nextPid_put]
        · simp only [record, redeliver, recordSetAside_eq, dropTimeout_eq, put, List.cons_append]
        · simp only [record, redeliver, recordSetAside_eq, dropTimeout_eq, put,
            Fifo.toList_pushAll, List.append_nil]
        · simp [Event.resumedBy?, quiet.resumedBy?_eq]
        · intro other different
          simp [Event.resumedBy?, different, quiet.resumedBy?_eq]
        · -- What was set aside goes back to the queue, and only the message is gone.
          rw [divided, Fifo.toList_ofList, Fifo.toList_empty, List.append_nil,
            ← Multiset.coe_eq_coe]
          simp only [← Multiset.coe_add, ← Multiset.cons_coe, ← Multiset.singleton_add,
            Multiset.coe_nil]
          abel
      · rw [List.countP_cons, quiet.countP_eq]
        rfl
      · intro other m member
        rcases List.mem_cons.1 member with same | earlier
        · cases same
          refine ⟨_, entry, p.machine, foundAfter, ?_, ?_⟩
          · rw [recordSetAside_eq, dropTimeout_eq]
            exact accepted
          · rw [recordSetAside_eq, dropTimeout_eq]
            exact goesOn
        · exact absurd earlier (quiet.not_resumed other m)
  | @failed p before message rest entry cause found waits divided rejected accepted faults =>
      obtain ⟨events, ledger, quiet⟩ := (deathFrame_die (((s.put pid { p with
        mailbox := .ofList rest
        saved := .empty
        timeout := none }).dropTimeout p.timeout).recordSetAside pid before) pid
          (.string cause.reasonText)).ledger
      have setAside := quiet_setAside pid before
      have allQuiet := quiet.append setAside
      refine ⟨events ++ (before.map (.setAside pid)).reverse, ?_, allQuiet.timeout?_eq,
        allQuiet.countP_eq, fun other m member => absurd member (allQuiet.not_resumed other m)⟩
      refine ledger.of_ended (find?_die_self _ _ _) ?_ ?_ ?_ ?_
        (fun other => sentTo?_setAside pid other _) setAside
      · intro other different
        simp only [find?_recordSetAside, find?_dropTimeout, find?_put found, if_neg different]
      · simp only [recordSetAside_eq, dropTimeout_eq, put]
      · simp only [recordSetAside_eq, dropTimeout_eq, put, ProcessTable.nextPid_put]
      · simp only [recordSetAside_eq, dropTimeout_eq, put]

theorem ledger_enqueue (s : Scheduler) (pid : ProcessId) : Ledger s (s.enqueue pid) [] :=
  ledger_of_queued rfl nofun (Nat.le_refl _) (fun _ q found _ => ⟨q, found, rfl, rfl, fun _ => rfl⟩)
    (Fifo.toList_push _ _) (fun _ => .refl _)

/-- A process that looks at its mail takes at most one message. -/
theorem ledger_wake (woken : s.wake pid = some after) :
    ∃ events, Ledger s after events ∧ events.filterMap Event.timeout? = [] ∧
      events.countP Event.isResumption ≤ 1 ∧
      ∀ other message, .resumed other message ∈ events → after.WentOnWith other message := by
  rcases wake_cases woken with checked | ⟨middle, checked, rfl⟩
  · obtain ⟨events, ledger, inTime, count, wentOn⟩ := (checkMail_looks checked).ledger
    exact ⟨events, ledger, inTime, by simp [count], wentOn⟩
  · obtain ⟨events, ledger, inTime, count, wentOn⟩ := (checkMail_looks checked).ledger
    exact ⟨events, ledger.trans (ledger_enqueue middle pid), inTime, by simp [count], wentOn⟩

theorem ledger_beginSlice (s : Scheduler) (pid : ProcessId) :
    Ledger s (s.beginSlice pid) [.sliced pid] := by
  refine ledger_of_queued rfl ?_ (Nat.le_refl _)
    (fun _ q found _ => ⟨q, found, rfl, rfl, fun _ => rfl⟩) (List.append_nil _).symm
    (fun _ => .refl _)
  intro event member
  rw [List.mem_singleton.1 member]
  rfl

/-- A task that is taken from the queue and has no message for a living process. -/
theorem ledger_of_taken {task : Task} {queue : Fifo Task}
    (first : s.queue.toList = task :: queue.toList)
    (unread : ∀ other p, s.find? other = some p → task.messageFor? other = none) :
    Ledger s { s with queue } [] where
  journal := rfl
  next_le := Nat.le_refl _
  survivor := fun other q found _ => ⟨q, found⟩
  balance := by
    intro other p q found foundAfter
    change s.find? other = some q at foundAfter
    rw [found] at foundAfter
    cases foundAfter
    simp only [mail, first, List.filterMap_cons, unread other p found, List.filterMap_nil]
  asleep := by
    intro other p q found foundAfter _
    change s.find? other = some q at foundAfter
    rw [found] at foundAfter
    cases foundAfter
    exact .inl rfl

/-- A message that is taken from the queue is put into a mailbox. -/
theorem ledger_deliver {message : Value} {queue : Fifo Task}
    (first : s.queue.toList = .deliver pid message :: queue.toList)
    (delivered : { s with queue }.deliver pid message = some after) :
    ∃ events, Ledger s after events ∧ events.filterMap Event.timeout? = [] ∧
      events.countP Event.isResumption ≤ 1 ∧
      ∀ other message, .resumed other message ∈ events → after.WentOnWith other message := by
  rcases deliver_cases delivered with ⟨missing, rfl⟩ | ⟨p, found, woken⟩
  · refine ⟨[], ledger_of_taken first ?_, rfl, Nat.zero_le _, nofun⟩
    intro other p found
    have different : pid ≠ other := by
      intro same
      rw [← same] at found
      exact absurd (found.symm.trans missing) nofun
    exact if_neg different
  · obtain ⟨events, ledger, rest⟩ := ledger_wake woken
    have put : Ledger s ({ s with queue, current := some pid }.put pid (p.deliver message)) [] := by
      constructor
      · rfl
      · exact Nat.le_of_eq (ProcessTable.nextPid_put _ _ _).symm
      · intro other q foundAfter _
        rcases find?_put_cases found foundAfter with ⟨rfl, _⟩ | ⟨_, foundBefore⟩
        · exact ⟨p, found⟩
        · exact ⟨q, foundBefore⟩
      · intro other o q foundOther foundAfter
        rcases find?_put_cases found foundAfter with ⟨rfl, rfl⟩ | ⟨different, foundBefore⟩
        · change s.find? pid = some p at found
          rw [found] at foundOther
          cases foundOther
          have head : Task.messageFor? pid (.deliver pid message) = some message := if_pos rfl
          simp only [mail, Scheduler.put, Process.deliver, first, Fifo.toList_push,
            List.filterMap_cons, head, ← Multiset.coe_add, ← Multiset.cons_coe,
            ← Multiset.singleton_add, List.filterMap_nil, Multiset.coe_nil]
          abel
        · change s.find? other = some q at foundBefore
          rw [foundOther] at foundBefore
          cases foundBefore
          have head : Task.messageFor? other (.deliver pid message) = none := if_neg different
          simp only [mail, Scheduler.put, first, List.filterMap_cons, head, List.filterMap_nil]
      · intro other o q foundOther foundAfter _
        rcases find?_put_cases found foundAfter with ⟨rfl, rfl⟩ | ⟨_, foundBefore⟩
        · change s.find? pid = some p at found
          rw [found] at foundOther
          cases foundOther
          exact .inl rfl
        · change s.find? other = some q at foundBefore
          rw [foundOther] at foundBefore
          cases foundBefore
          exact .inl rfl
    have whole := put.trans ledger
    rw [List.append_nil] at whole
    exact ⟨events, whole, rest⟩

/-- At its timeout a process takes no message. -/
theorem ledger_timeOut (pid : ProcessId)
    (waits : ∀ p, s.find? pid = some p → p.timeout.isSome = true → p.status = .waiting) :
    ∃ events, Ledger s (s.timeOut pid) events ∧ events.countP Event.isResumption ≤ 1 ∧
      (Quiet events ∨
        ∃ id, events = [.timedOut pid id] ∧ WentOnAtTimeout s (s.timeOut pid) pid id) := by
  have timed := timeOut_timesOut s pid
  generalize s.timeOut pid = after at timed ⊢
  cases timed with
  | kept unarmed =>
      exact ⟨[], ledger_of_processes_eq rfl rfl rfl, Nat.zero_le _, .inl nofun⟩
  | @resumed p timeout machine found armed isWaiting goesOn =>
      have foundAfter : ((((s.put pid { p with
          timeout := none
          saved := .empty
          machine }).redeliver pid p.saved.toList).enqueue pid).record
            (.timedOut pid timeout.id)).find? pid =
          some { p with timeout := none, saved := .empty, machine } := by
        simp only [find?_record, find?_enqueue, find?_redeliver, find?_put_self found]
      refine ⟨[.timedOut pid timeout.id], ?_, Nat.le_refl _, .inr ⟨timeout.id, rfl,
        p, timeout, _, found, armed, rfl, foundAfter, goesOn⟩⟩
      · refine ledger_of_moved p.saved.toList [] [.run pid] found foundAfter ?_ ?_ rfl ?_
          (fun _ => rfl) (fun _ => rfl) rfl (fun _ _ => rfl) ?_ (.inr List.mem_cons_self)
        · intro other different
          simp only [find?_record, find?_enqueue, find?_redeliver, find?_put found,
            if_neg different]
        · exact ProcessTable.nextPid_put _ _ _
        · simp only [record, enqueue, pushTask, redeliver, put, Fifo.toList_push,
            Fifo.toList_pushAll, List.append_assoc]
        · rw [Fifo.toList_empty, List.append_nil, List.append_nil]
          exact List.perm_append_comm
  | @failed p timeout found armed awake =>
      exact absurd (waits p found (by rw [armed]; rfl)) awake

end Ledger

end Scheduler

end ActorMachine
