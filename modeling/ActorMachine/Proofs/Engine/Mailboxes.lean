import ActorMachine.Proofs.Engine.Reachable

set_option autoImplicit false

/-!
Mailboxes that were read.

Between two turns a waiting process has read its whole mailbox, and a running one has nothing set
aside. A process may have mail that it did not read while it is the one at work: in its slice, or
while a message is put into its mailbox. So the invariant `MailRead` has that process as an
exception, and a look at its mail ends the exception.
-/

namespace ActorMachine.Scheduler

/-- Waiting processes have read their mailboxes, all but the one at work, and running processes have
nothing set aside. -/
structure MailRead (reader : Option ProcessId) (s : Scheduler) : Prop where
  read : ∀ pid p, s.find? pid = some p → p.status = .waiting → reader ≠ some pid →
    p.mailbox.toList = []
  taken : ∀ pid p, s.find? pid = some p → p.status = .running → p.saved.toList = []

section MailRead

variable {reader : Option ProcessId} {s after : Scheduler} {pid : ProcessId} {p q : Process}

theorem mailRead_empty (memory : Memory) : MailRead none { memory } := by
  constructor
  · exact fun pid p found => absurd found find?_empty_ne
  · exact fun pid p found => absurd found find?_empty_ne

theorem MailRead.of_processes_eq (mail : MailRead reader s)
    (same : after.processes = s.processes) : MailRead reader after := by
  have sameFind : ∀ other, after.find? other = s.find? other := by
    intro other
    simp only [find?, same]
  constructor
  · intro other q found
    rw [sameFind] at found
    exact mail.read other q found
  · intro other q found
    rw [sameFind] at found
    exact mail.taken other q found

theorem MailRead.undisturbed (mail : MailRead reader s) (undisturbed : s.Undisturbed after) :
    MailRead reader after := by
  constructor
  · intro other q found waits notReader
    obtain ⟨p, foundBefore, isCopy⟩ := undisturbed.survivor other q found
    rw [isCopy] at waits ⊢
    exact mail.read other p foundBefore waits notReader
  · intro other q found runs
    obtain ⟨p, foundBefore, isCopy⟩ := undisturbed.survivor other q found
    rw [isCopy] at runs ⊢
    exact mail.taken other p foundBefore runs

/-- A process is replaced by one that is in order. -/
theorem MailRead.put (mail : MailRead reader s) (found : s.find? pid = some p)
    (read : q.status = .waiting → reader ≠ some pid → q.mailbox.toList = [])
    (taken : q.status = .running → q.saved.toList = []) : MailRead reader (s.put pid q) := by
  constructor
  · intro other r foundAfter
    rcases find?_put_cases found foundAfter with ⟨rfl, rfl⟩ | ⟨_, foundBefore⟩
    · exact read
    · exact mail.read other r foundBefore
  · intro other r foundAfter
    rcases find?_put_cases found foundAfter with ⟨rfl, rfl⟩ | ⟨_, foundBefore⟩
    · exact taken
    · exact mail.taken other r foundBefore

theorem MailRead.spawn (mail : MailRead reader s) (f : Closure) :
    MailRead reader (s.spawn f).2 := by
  constructor
  · intro other q found
    rcases find?_spawn_cases found with ⟨_, rfl⟩ | ⟨_, foundBefore⟩
    · exact fun _ _ => rfl
    · exact mail.read other q foundBefore
  · intro other q found
    rcases find?_spawn_cases found with ⟨_, rfl⟩ | ⟨_, foundBefore⟩
    · exact fun _ => rfl
    · exact mail.taken other q foundBefore

theorem MailRead.weaken (mail : MailRead none s) (reader : Option ProcessId) :
    MailRead reader s :=
  ⟨fun other q found waits _ => mail.read other q found waits nofun, mail.taken⟩

/-- The process at work is in order when it does not wait, or has read its mailbox. -/
theorem MailRead.release (mail : MailRead (some pid) s)
    (read : ∀ p, s.find? pid = some p → p.status = .waiting → p.mailbox.toList = []) :
    MailRead none s := by
  refine ⟨?_, mail.taken⟩
  intro other q found waits _
  by_cases same : pid = other
  · subst same
    exact read q found waits
  · have notReader : some pid ≠ some other := fun isPid => same (Option.some.inj isPid)
    exact mail.read other q found waits notReader

/-- A look at the mail reads the whole mailbox, or takes a message. -/
theorem MailRead.looks {woke : Bool} (mail : MailRead (some pid) s)
    (looked : Looks s pid woke after) : MailRead none after := by
  cases looked with
  | absent missing =>
      apply mail.release
      intro p found
      rw [missing] at found
      cases found
  | @busy p found awake =>
      apply mail.release
      intro q foundAgain waits
      rw [found] at foundAgain
      cases foundAgain
      exact absurd waits awake
  | @nothing p found waits rejected =>
      have changed : MailRead (some pid) (s.put pid { p with
          mailbox := .empty, saved := p.saved.pushAll p.mailbox.toList }) := by
        refine mail.put found (fun _ _ => rfl) ?_
        intro runs
        exact absurd (waits.symm.trans runs) nofun
      have released : MailRead none (s.put pid { p with
          mailbox := .empty, saved := p.saved.pushAll p.mailbox.toList }) := by
        apply changed.release
        intro q foundAgain _
        rw [find?_put_self found] at foundAgain
        cases foundAgain
        rfl
      apply released.of_processes_eq
      rw [recordSetAside_eq]
  | @resumed p before message rest entry machine found waits divided rejected accepted goesOn =>
      have runs := Machine.status_of_resume goesOn
      have changed : MailRead (some pid) (s.put pid { p with
          mailbox := .ofList rest, saved := .empty, timeout := none, machine }) :=
        mail.put found (fun _ notReader => absurd rfl notReader) (fun _ => rfl)
      have released : MailRead none (s.put pid { p with
          mailbox := .ofList rest, saved := .empty, timeout := none, machine }) := by
        apply changed.release
        intro q foundAgain waitsAgain
        rw [find?_put_self found] at foundAgain
        cases foundAgain
        exact absurd (runs.symm.trans waitsAgain) nofun
      apply released.of_processes_eq
      simp only [record, redeliver, recordSetAside_eq, dropTimeout_eq]
  | @failed p before message rest entry cause found waits divided rejected accepted faults =>
      have others := mail.undisturbed (undisturbed_failed found { p with
        mailbox := .ofList rest, saved := .empty, timeout := none } p.timeout before cause)
      apply others.release
      intro q foundAfter
      rw [dieOf, find?_die_self] at foundAfter
      cases foundAfter

theorem MailRead.wake (mail : MailRead (some pid) s) (woken : s.wake pid = some after) :
    MailRead none after := by
  rcases wake_cases woken with checked | ⟨middle, checked, rfl⟩
  · exact mail.looks (checkMail_looks checked)
  · exact (mail.looks (checkMail_looks checked)).of_processes_eq rfl

theorem MailRead.deliver {message : Value} (mail : MailRead none s)
    (delivered : s.deliver pid message = some after) : MailRead none after := by
  rcases deliver_cases delivered with ⟨_, rfl⟩ | ⟨p, found, woken⟩
  · exact mail
  · have changed : MailRead (some pid) (s.put pid (p.deliver message)) :=
      (mail.weaken (some pid)).put found (fun _ notReader => absurd rfl notReader)
        (mail.taken pid p found)
    have current : MailRead (some pid)
        ({ s with current := some pid }.put pid (p.deliver message)) :=
      changed.of_processes_eq rfl
    exact current.wake woken

theorem MailRead.timeOut (mail : MailRead none s) (pid : ProcessId) :
    MailRead none (s.timeOut pid) := by
  have timed := timeOut_timesOut s pid
  generalize s.timeOut pid = after at timed ⊢
  cases timed with
  | kept unarmed => exact mail
  | @resumed p timeout machine found armed waits goesOn =>
      have runs := Machine.status_of_resume goesOn
      have changed : MailRead none (s.put pid { p with
          timeout := none, saved := .empty, machine }) :=
        mail.put found (fun waitsAgain => absurd (runs.symm.trans waitsAgain) nofun) (fun _ => rfl)
      exact changed.of_processes_eq rfl
  | @failed p timeout found armed awake =>
      have changed : MailRead none (s.put pid { p with timeout := none, saved := .empty }) :=
        mail.put found (fun waits => absurd waits awake) (fun _ => rfl)
      have handedBack : MailRead none
          ((s.put pid { p with timeout := none, saved := .empty }).redeliver pid
            p.saved.toList) :=
        changed.of_processes_eq rfl
      exact handedBack.undisturbed (undisturbed_die _ _ _)

theorem MailRead.expire {timer : Timer} (mail : MailRead none s)
    (expired : s.expire timer = some after) : MailRead none after := by
  rcases expire_cases expired with ⟨_, rfl⟩ | ⟨_, woke, middle, checked, rfl⟩
  · exact mail
  · have current : MailRead none { s with current := some timer.pid } := mail.of_processes_eq rfl
    have looked := (current.weaken (some timer.pid)).looks (checkMail_looks checked)
    cases woke with
    | true => exact looked.of_processes_eq rfl
    | false => exact looked.timeOut timer.pid

theorem MailRead.endSlice (mail : MailRead (some pid) s) (ended : s.endSlice pid = some after) :
    MailRead none after := by
  rcases endSlice_cases ended with ⟨rfl, halted⟩ | ⟨p, found, ⟨runs, rfl⟩ | ⟨_, woken⟩⟩
  · apply mail.release
    intro p found waits
    exact absurd ((halted p found).symm.trans waits) nofun
  · have released : MailRead none s := by
      apply mail.release
      intro q foundAgain waits
      rw [found] at foundAgain
      cases foundAgain
      exact absurd (runs.symm.trans waits) nofun
    exact released.of_processes_eq rfl
  · exact mail.wake woken

end MailRead

theorem MailRead.move {phase phase' : Option ProcessId} {s after : Scheduler}
    (moved : Move phase s phase' after) (mail : MailRead phase s) : MailRead phase' after := by
  cases moved with
  | memory memory kept => exact mail.of_processes_eq rfl
  | spawn f => exact mail.spawn f
  | send receiver held => exact mail.of_processes_eq rfl
  | prune => exact mail.of_processes_eq rfl
  | fire due expired =>
      obtain ⟨heap, rfl, _⟩ := popDue?_eq due
      have rest : MailRead none { s with heap } := mail.of_processes_eq rfl
      exact rest.expire expired
  | deliver popped delivered =>
      obtain ⟨queue, rfl, _⟩ := popTask?_eq popped
      have rest : MailRead none { s with queue } := mail.of_processes_eq rfl
      exact rest.deliver delivered
  | skip popped dead =>
      obtain ⟨queue, rfl, _⟩ := popTask?_eq popped
      exact mail.of_processes_eq rfl
  | beginSlice popped live =>
      obtain ⟨queue, rfl, _⟩ := popTask?_eq popped
      exact (mail.weaken _).of_processes_eq rfl
  | endSlice ended => exact mail.endSlice ended

theorem MailRead.effect {me : ProcessId} {overwritten : Option Ref} {s after : Scheduler}
    (effect : Effect me overwritten s after) (mail : MailRead (some me) s) :
    MailRead (some me) after := by
  cases effect.disturbance with
  | undisturbed undisturbed => exact mail.undisturbed undisturbed
  | spawned f => exact mail.spawn f
  | @carriedOn p machine found runs goesOn =>
      exact mail.put found (fun _ notReader => absurd rfl notReader)
        (fun _ => mail.taken me p found runs)
  | @waited p machine receivers found runs waits =>
      exact mail.put found (fun _ notReader => absurd rfl notReader)
        (fun _ => mail.taken me p found runs)

end ActorMachine.Scheduler

theorem ActorMachine.Engine.Reachable.mailRead {phase : Option ProcessId} {engine : Engine}
    (reachable : Reachable AnyPair phase engine) : Scheduler.MailRead phase engine.scheduler :=
  reachable.invariant Scheduler.MailRead (Scheduler.mailRead_empty _)
    Scheduler.MailRead.move (fun _ => Scheduler.MailRead.effect) (fun _ _ => trivial)
