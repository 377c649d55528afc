import ActorMachine.Proofs.Scheduler.Parts

set_option autoImplicit false

/-!
Looking at the mail of a process, told once.

`Looks` lists what a look at the mail can come to, with the place at which the mailbox is divided,
and `TimesOut` what the end of a wait can come to. Whatever is proved of mail goes over these cases.
-/

namespace ActorMachine

namespace Process

theorem findFrom?_eq_none {store : Store} {table : ReceiveTable} {skipped messages : List Value}
    (missed : findFrom? store table skipped messages = none) :
    ∀ message ∈ messages, table.accepts? store message = none := by
  induction messages generalizing skipped with
  | nil =>
      intro message impossible
      cases impossible
  | cons first rest ih =>
      unfold findFrom? at missed
      cases accepted : table.accepts? store first with
      | some entry =>
          rw [accepted] at missed
          cases missed
      | none =>
          rw [accepted] at missed
          intro message member
          rcases List.mem_cons.1 member with same | later
          · rw [same]
            exact accepted
          · exact ih missed message later

/-- The mailbox is divided at the first message that is accepted. -/
theorem findFrom?_eq_some {store : Store} {table : ReceiveTable} {skipped messages : List Value}
    {result : Found} (found : findFrom? store table skipped messages = some result) :
    ∃ before, result.skipped = skipped.reverse ++ before ∧
      messages = before ++ result.message :: result.rest ∧
      (∀ message ∈ before, table.accepts? store message = none) ∧
      table.accepts? store result.message = some result.entry := by
  induction messages generalizing skipped with
  | nil => cases found
  | cons first rest ih =>
      unfold findFrom? at found
      cases accepted : table.accepts? store first with
      | some entry =>
          rw [accepted] at found
          cases found
          exact ⟨[], by simp, rfl, by simp, accepted⟩
      | none =>
          rw [accepted] at found
          obtain ⟨before, isSkipped, divided, rejected, isAccepted⟩ := ih found
          refine ⟨first :: before, ?_, ?_, ?_, isAccepted⟩
          · rw [isSkipped, List.reverse_cons, List.append_assoc]
            rfl
          · rw [divided]
            rfl
          · intro message member
            rcases List.mem_cons.1 member with same | later
            · rw [same]
              exact accepted
            · exact rejected message later

end Process

theorem Machine.status_of_resume {m after : Machine} {store : Store} {entry : Template}
    {args : Value} (resumed : m.resume store entry args = .ok after) : after.status = .running := by
  unfold resume at resumed
  by_cases waits : m.status = .waiting
  · rw [if_pos waits] at resumed
    cases listed : store.elements args with
    | ok items =>
        rw [listed] at resumed
        cases resumed
        rfl
    | error failure =>
        rw [listed] at resumed
        cases resumed
  · rw [if_neg waits] at resumed
    cases resumed

namespace Scheduler

theorem put_self {s : Scheduler} {pid : ProcessId} {p : Process} (found : s.find? pid = some p) :
    s.put pid p = s := by
  have inside := ProcessTable.lt_of_find? found
  have place := ProcessTable.getElem_of_find? inside found
  unfold put ProcessTable.put
  rw [Array.setIfInBounds_def, dif_pos inside, ← place, Array.set_getElem_self]

/-- What a look at the mail of a process can come to, and whether the process goes on. -/
inductive Looks (s : Scheduler) (pid : ProcessId) : Bool → Scheduler → Prop where
  | absent (missing : s.find? pid = none) : Looks s pid false s
  | busy {p} (found : s.find? pid = some p) (awake : p.status ≠ .waiting) : Looks s pid false s
  | nothing {p} (found : s.find? pid = some p) (waits : p.status = .waiting)
      (rejected : ∀ m ∈ p.mailbox.toList, p.receivers.accepts? s.store m = none) :
      Looks s pid false
        ((s.put pid { p with
          mailbox := .empty
          saved := p.saved.pushAll p.mailbox.toList }).recordSetAside pid p.mailbox.toList)
  | resumed {p before message rest entry machine} (found : s.find? pid = some p)
      (waits : p.status = .waiting) (divided : p.mailbox.toList = before ++ message :: rest)
      (rejected : ∀ m ∈ before, p.receivers.accepts? s.store m = none)
      (accepted : p.receivers.accepts? s.store message = some entry)
      (goesOn : p.machine.resume s.store entry ((s.store.cdr? message).getD .nil) = .ok machine) :
      Looks s pid true
        (((((s.put pid { p with
          mailbox := .ofList rest
          saved := .empty
          timeout := none
          machine }).dropTimeout p.timeout).recordSetAside pid before).redeliver pid
            (p.saved.toList ++ before)).record (.resumed pid message))
  | failed {p before message rest entry cause} (found : s.find? pid = some p)
      (waits : p.status = .waiting) (divided : p.mailbox.toList = before ++ message :: rest)
      (rejected : ∀ m ∈ before, p.receivers.accepts? s.store m = none)
      (accepted : p.receivers.accepts? s.store message = some entry)
      (faults : p.machine.resume s.store entry ((s.store.cdr? message).getD .nil) =
        .error (.fault cause)) :
      Looks s pid false
        ((((s.put pid { p with
          mailbox := .ofList rest
          saved := .empty
          timeout := none }).dropTimeout p.timeout).recordSetAside pid before).dieOf pid cause)

theorem checkMail_looks {s after : Scheduler} {pid : ProcessId} {woke : Bool}
    (checked : s.checkMail pid = some (woke, after)) : Looks s pid woke after := by
  unfold checkMail at checked
  cases found : s.find? pid with
  | none =>
      rw [found] at checked
      cases checked
      exact .absent found
  | some p =>
      rw [found] at checked
      by_cases waits : p.status = .waiting
      · cases search : Process.findFrom? s.store p.receivers [] p.mailbox.toList with
        | none =>
            simp only [Process.checkMail, if_pos waits, search] at checked
            cases checked
            exact .nothing found waits (Process.findFrom?_eq_none search)
        | some result =>
            obtain ⟨before, isSkipped, divided, rejected, accepted⟩ :=
              Process.findFrom?_eq_some search
            rw [List.reverse_nil, List.nil_append] at isSkipped
            subst isSkipped
            cases resumed : p.machine.resume s.store result.entry
                ((s.store.cdr? result.message).getD .nil) with
            | ok machine =>
                simp only [Process.checkMail, if_pos waits, search, resumed] at checked
                cases checked
                exact .resumed found waits divided rejected accepted resumed
            | error failure =>
                cases failure with
                | fault cause =>
                    simp only [Process.checkMail, if_pos waits, search, resumed] at checked
                    cases checked
                    exact .failed found waits divided rejected accepted resumed
                | endless =>
                    simp only [Process.checkMail, if_pos waits, search, resumed] at checked
                    cases checked
      · simp only [Process.checkMail, if_neg waits] at checked
        cases checked
        rw [put_self found]
        exact .busy found waits

/-- What the timeout of a process can come to. -/
inductive TimesOut (s : Scheduler) (pid : ProcessId) : Scheduler → Prop where
  | kept (unarmed : ∀ p, s.find? pid = some p → p.timeout = none) : TimesOut s pid s
  | resumed {p timeout machine} (found : s.find? pid = some p) (armed : p.timeout = some timeout)
      (waits : p.status = .waiting)
      (goesOn : p.machine.resume s.store timeout.entry .nil = .ok machine) :
      TimesOut s pid
        ((((s.put pid { p with timeout := none, saved := .empty, machine }).redeliver pid
          p.saved.toList).enqueue pid).record (.timedOut pid timeout.id))
  | failed {p timeout} (found : s.find? pid = some p) (armed : p.timeout = some timeout)
      (awake : p.status ≠ .waiting) :
      TimesOut s pid
        (((s.put pid { p with timeout := none, saved := .empty }).redeliver pid
          p.saved.toList).dieOf pid .notWaiting)

theorem timeOut_timesOut (s : Scheduler) (pid : ProcessId) : TimesOut s pid (s.timeOut pid) := by
  unfold timeOut
  cases found : s.find? pid with
  | none =>
      refine .kept ?_
      intro p impossible
      rw [found] at impossible
      cases impossible
  | some p =>
      cases armed : p.timeout with
      | none =>
          simp only [armed]
          refine .kept ?_
          intro q foundAgain
          rw [found] at foundAgain
          cases foundAgain
          exact armed
      | some timeout =>
          simp only [armed]
          by_cases waits : p.machine.status = .waiting
          · have resumed : p.machine.resume s.store timeout.entry .nil = .ok { p.machine with
                template := timeout.entry
                pc := 0
                nargs := 0
                status := .running } := by
              simp [Machine.resume, waits, Store.elements, Store.spine, Store.spineFrom]
            rw [resumed]
            exact .resumed found armed waits resumed
          · have refused : p.machine.resume s.store timeout.entry .nil = faulting .notWaiting := by
              simp [Machine.resume, waits]
            rw [refused]
            exact .failed found armed waits

/-! ### Operations that look at mail -/

section Operations

variable {s after : Scheduler} {pid : ProcessId}

theorem wake_cases (woken : s.wake pid = some after) :
    s.checkMail pid = some (false, after) ∨
      ∃ middle, s.checkMail pid = some (true, middle) ∧ after = middle.enqueue pid := by
  unfold wake at woken
  cases checked : s.checkMail pid with
  | none =>
      rw [checked] at woken
      cases woken
  | some result =>
      obtain ⟨woke, middle⟩ := result
      rw [checked] at woken
      cases woke with
      | true =>
          cases woken
          exact .inr ⟨middle, rfl, rfl⟩
      | false =>
          cases woken
          exact .inl rfl

theorem deliver_cases {message : Value} (delivered : s.deliver pid message = some after) :
    (s.find? pid = none ∧ after = s) ∨
      ∃ p, s.find? pid = some p ∧
        ({ s with current := some pid }.put pid (p.deliver message)).wake pid = some after := by
  unfold deliver at delivered
  cases found : s.find? pid with
  | none =>
      rw [found] at delivered
      cases delivered
      exact .inl ⟨rfl, rfl⟩
  | some p =>
      rw [found] at delivered
      exact .inr ⟨p, rfl, delivered⟩

theorem expire_cases {timer : Timer} (expired : s.expire timer = some after) :
    (s.awaits timer = false ∧ after = s) ∨
      s.awaits timer = true ∧ ∃ woke middle,
        { s with current := some timer.pid }.checkMail timer.pid = some (woke, middle) ∧
          after = if woke = true then middle.enqueue timer.pid else middle.timeOut timer.pid := by
  unfold expire at expired
  cases awaited : s.awaits timer with
  | false =>
      rw [awaited, if_neg Bool.false_ne_true] at expired
      cases expired
      exact .inl ⟨rfl, rfl⟩
  | true =>
      rw [awaited, if_pos rfl] at expired
      refine .inr ⟨rfl, ?_⟩
      cases checked : { s with current := some timer.pid }.checkMail timer.pid with
      | none =>
          rw [checked] at expired
          cases expired
      | some result =>
          obtain ⟨woke, middle⟩ := result
          rw [checked] at expired
          refine ⟨woke, middle, rfl, ?_⟩
          cases woke with
          | true =>
              cases expired
              rfl
          | false =>
              cases expired
              rfl

theorem endSlice_cases (ended : s.endSlice pid = some after) :
    (after = s ∧ ∀ p, s.find? pid = some p → p.status = .halted) ∨
      ∃ p, s.find? pid = some p ∧
        ((p.status = .running ∧ after = s.enqueue pid) ∨
          (p.status = .waiting ∧ s.wake pid = some after)) := by
  unfold endSlice at ended
  cases found : s.find? pid with
  | none =>
      rw [found] at ended
      cases ended
      refine .inl ⟨rfl, ?_⟩
      intro p impossible
      cases impossible
  | some p =>
      rw [found] at ended
      dsimp only at ended
      cases status : p.status with
      | running =>
          rw [status] at ended
          cases ended
          exact .inr ⟨p, rfl, .inl ⟨status, rfl⟩⟩
      | waiting =>
          rw [status] at ended
          exact .inr ⟨p, rfl, .inr ⟨status, ended⟩⟩
      | halted =>
          rw [status] at ended
          cases ended
          refine .inl ⟨rfl, ?_⟩
          intro q same
          cases same
          exact status

end Operations

end Scheduler

end ActorMachine
