import ActorMachine.Process
import ActorMachine.Proofs.Store.Chains

set_option autoImplicit false

/-!
Selective receive.

A waiting process takes the first message that its table has a receiver for, wherever it stands in
the mailbox. Messages before it are handed back behind those that were set aside earlier, so none is
lost and their order stays. Main statement: `checkMail_selective`.
-/

namespace ActorMachine

/-- A table selects a message, a pair with a symbol in front, and goes on at the entry of the first
receiver that has this symbol as its tag. -/
inductive ReceiveTable.Selects (table : ReceiveTable) (store : Store) :
    Value → Template → Prop where
  | intro {ref before receiver after}
      (divided : table.receivers = before ++ receiver :: after)
      (tagged : store.carAt ref = .symbol receiver.tag)
      (first : ∀ earlier ∈ before, earlier.tag ≠ receiver.tag) :
      Selects table store (.pair ref) receiver.entry

theorem ReceiveTable.entry?_eq_some_iff {table : ReceiveTable} {tag : String} {entry : Template} :
    table.entry? tag = some entry ↔ ∃ before receiver after,
      table.receivers = before ++ receiver :: after ∧ receiver.tag = tag ∧
        receiver.entry = entry ∧ ∀ earlier ∈ before, earlier.tag ≠ tag := by
  unfold entry?
  simp only [Option.map_eq_some_iff, List.find?_eq_some_iff_append, beq_iff_eq, Bool.not_eq_true',
    beq_eq_false_iff_ne]
  constructor
  · rintro ⟨receiver, ⟨sameTag, before, after, divided, first⟩, sameEntry⟩
    exact ⟨before, receiver, after, divided, sameTag, sameEntry, first⟩
  · rintro ⟨before, receiver, after, divided, sameTag, sameEntry, first⟩
    exact ⟨receiver, ⟨sameTag, before, after, divided, first⟩, sameEntry⟩

theorem ReceiveTable.accepts?_eq_some_iff {table : ReceiveTable} {store : Store} {message : Value}
    {entry : Template} :
    table.accepts? store message = some entry ↔ table.Selects store message entry := by
  constructor
  · intro accepted
    unfold accepts? at accepted
    split at accepted
    · rename_i tag isTag
      obtain ⟨before, receiver, after, divided, rfl, rfl, first⟩ := entry?_eq_some_iff.1 accepted
      cases message with
      | pair ref => exact .intro divided (Option.some.inj isTag) first
      | _ => cases isTag
    · cases accepted
  · intro selects
    cases selects with
    | intro divided tagged first =>
        unfold accepts? Store.car?
        simp only [tagged]
        exact entry?_eq_some_iff.2 ⟨_, _, _, divided, rfl, rfl, first⟩

theorem ReceiveTable.accepts?_eq_none {table : ReceiveTable} {store : Store} {message : Value}
    (rejected : ∀ entry, ¬table.Selects store message entry) :
    table.accepts? store message = none := by
  cases accepted : table.accepts? store message with
  | none => rfl
  | some entry => exact absurd (accepts?_eq_some_iff.1 accepted) (rejected entry)

namespace Process

/-- The mailbox is divided at the least index at which a message is accepted. -/
theorem findFrom?_of_first {store : Store} {table : ReceiveTable} {messages : List Value} {i : Nat}
    {message : Value} {entry : Template} (skipped : List Value)
    (isMessage : messages[i]? = some message) (accepted : table.accepts? store message = some entry)
    (rejected : ∀ earlier ∈ messages.take i, table.accepts? store earlier = none) :
    findFrom? store table skipped messages =
      some ⟨skipped.reverse ++ messages.take i, message, entry, messages.drop (i + 1)⟩ := by
  induction messages generalizing i skipped with
  | nil => cases isMessage
  | cons head rest ih =>
      unfold findFrom?
      cases i with
      | zero =>
          obtain rfl : head = message := Option.some.inj isMessage
          rw [accepted]
          simp only [List.take_zero, List.append_nil, Nat.zero_add, List.drop_succ_cons,
            List.drop_zero]
      | succ i =>
          have headRejected := rejected head List.mem_cons_self
          have further := ih (head :: skipped) isMessage
            fun earlier member => rejected earlier (List.mem_cons_of_mem _ member)
          rw [headRejected]
          simp only [further, List.reverse_cons, List.append_assoc, List.singleton_append,
            List.take_succ_cons, List.drop_succ_cons]

theorem findFrom?_of_rejected {store : Store} {table : ReceiveTable} {messages : List Value}
    (skipped : List Value)
    (rejected : ∀ message ∈ messages, table.accepts? store message = none) :
    findFrom? store table skipped messages = none := by
  induction messages generalizing skipped with
  | nil => rfl
  | cons head rest ih =>
      unfold findFrom?
      rw [rejected head List.mem_cons_self]
      exact ih (head :: skipped) fun message member =>
        rejected message (List.mem_cons_of_mem _ member)

/-- What becomes of a selected message hangs on the list behind its tag alone. -/
theorem checkMail_of_first {p : Process} {store : Store} {i : Nat} {ref : Ref} {entry : Template}
    (waits : p.status = .waiting)
    (isMessage : p.mailbox.toList[i]? = some (.pair ref))
    (selects : p.receivers.Selects store (.pair ref) entry)
    (first : ∀ earlier ∈ p.mailbox.toList.take i, ∀ other,
      ¬p.receivers.Selects store earlier other) :
    p.checkMail store =
      let skipped := p.mailbox.toList.take i
      let cleared := { p with
        mailbox := .ofList (p.mailbox.toList.drop (i + 1))
        saved := .empty
        timeout := none }
      match p.machine.resume store entry (store.cdrAt ref) with
      | .ok machine =>
          (.resumed (.pair ref) skipped (p.saved.toList ++ skipped), { cleared with machine })
      | .error why => (.failed (.pair ref) skipped why, cleared) := by
  have accepted := ReceiveTable.accepts?_eq_some_iff.2 selects
  have found := findFrom?_of_first [] isMessage accepted
    fun earlier member => ReceiveTable.accepts?_eq_none (first earlier member)
  unfold checkMail
  rw [if_pos waits]
  simp only [found]
  rfl

theorem resume_of_elements {m : Machine} (store : Store) (entry : Template) (args : Value)
    (waits : m.status = .waiting) :
    m.resume store entry args = (store.elements args).map fun items =>
      { m with
        template := entry
        pc := 0
        stack := items.reverse ++ m.stack
        nargs := items.length
        status := .running } := by
  unfold Machine.resume
  rw [if_pos waits]
  cases store.elements args with
  | ok items => rfl
  | error failure => rfl

/-- The first message that the table of a waiting process selects is taken out of the mailbox, with
what was set aside before and the messages in front of it handed back in order. If the rest of the
message is a proper list then the machine goes on with its items as arguments. If it is not then the
receive fails and the machine still waits: with a fault if the pairs end in another value, and with
`endless` if they are circular. If the table selects no message then all of them are set aside. -/
theorem checkMail_selective {p : Process} (store : Store) (waits : p.status = .waiting) :
    (∀ i ref entry, p.mailbox.toList[i]? = some (.pair ref) →
      p.receivers.Selects store (.pair ref) entry →
      (∀ earlier ∈ p.mailbox.toList.take i, ∀ other, ¬p.receivers.Selects store earlier other) →
      let skipped := p.mailbox.toList.take i
      (∀ items, store.ProperList (store.cdrAt ref) items →
        p.checkMail store = (.resumed (.pair ref) skipped (p.saved.toList ++ skipped),
          { p with
            mailbox := .ofList (p.mailbox.toList.drop (i + 1))
            saved := .empty
            timeout := none
            machine := { p.machine with
              template := entry
              pc := 0
              stack := items.reverse ++ p.machine.stack
              nargs := items.length
              status := .running } })) ∧
      ((∀ items, ¬store.ProperList (store.cdrAt ref) items) →
        ∃ why, p.checkMail store = (.failed (.pair ref) skipped why,
          { p with
            mailbox := .ofList (p.mailbox.toList.drop (i + 1))
            saved := .empty
            timeout := none }) ∧
          (why = .fault (.wrongKind "list" "proper list") ↔
            ∃ items last, store.Chain (store.cdrAt ref) items last) ∧
          (why = .endless ↔ ∀ items last, ¬store.Chain (store.cdrAt ref) items last))) ∧
    ((∀ message ∈ p.mailbox.toList, ∀ entry, ¬p.receivers.Selects store message entry) →
      ∃ saved : Fifo Value, saved.toList = p.saved.toList ++ p.mailbox.toList ∧
        p.checkMail store = (.nothing p.mailbox.toList, { p with mailbox := .empty, saved })) := by
  constructor
  · intro i ref entry isMessage selects first skipped
    have checked := checkMail_of_first waits isMessage selects first
    rw [resume_of_elements store entry (store.cdrAt ref) waits] at checked
    constructor
    · intro items listed
      rw [Store.elements_of_properList listed] at checked
      exact checked
    · intro improper
      by_cases ends : ∃ items last, store.Chain (store.cdrAt ref) items last
      · obtain ⟨items, last, chain⟩ := ends
        have notNil : last ≠ .nil := by
          rintro rfl
          exact improper items chain
        rw [Store.elements_of_chain chain notNil] at checked
        exact ⟨_, checked, ⟨fun _ => ⟨items, last, chain⟩, fun _ => rfl⟩,
          ⟨nofun, fun endless => absurd chain (endless items last)⟩⟩
      · have endless : ∀ items last, ¬store.Chain (store.cdrAt ref) items last :=
          fun items last chain => ends ⟨items, last, chain⟩
        rw [Store.elements_of_endless endless] at checked
        exact ⟨_, checked, ⟨nofun, fun chain => absurd chain ends⟩,
          ⟨fun _ => endless, fun _ => rfl⟩⟩
  · intro rejected
    have missed := findFrom?_of_rejected [] fun message member =>
      ReceiveTable.accepts?_eq_none (rejected message member)
    refine ⟨p.saved.pushAll p.mailbox.toList, Fifo.toList_pushAll _ _, ?_⟩
    unfold checkMail
    rw [if_pos waits]
    simp only [missed]

/-- The messages `(pong 1)`, `(ping 2)` and `(pong 3)`. -/
def letters : Store :=
  { pairs := #[(.number 1, .nil), (.symbol "pong", .pair 0), (.number 2, .nil),
      (.symbol "ping", .pair 2), (.number 3, .nil), (.symbol "pong", .pair 4)] }

/-- A process that waits for a `ping`, with a message that was set aside and a timeout. -/
def listener : Process where
  machine := { Machine.start 1 ⟨0, default, []⟩ with status := .waiting }
  receivers := ⟨[⟨"stop", .epilogue 1⟩, ⟨"ping", .epilogue 2⟩, ⟨"ping", .epilogue 3⟩], none⟩
  saved := .ofList [.string "early"]
  mailbox := .ofList [.pair 1, .pair 3, .pair 5]
  timeout := some ⟨1, .epilogue 4, ⟨0⟩⟩

theorem checkMail_selective_listener :
    listener.status = .waiting ∧ listener.checkMail letters =
      (.resumed (.pair 3) [.pair 1] [.string "early", .pair 1],
        { listener with
          mailbox := .ofList [.pair 5]
          saved := .empty
          timeout := none
          machine := { listener.machine with
            template := .epilogue 2
            pc := 0
            stack := [.number 2] ++ listener.machine.stack
            nargs := 1
            status := .running } }) := by
  have waits : listener.status = .waiting := rfl
  have selects : listener.receivers.Selects letters (.pair 3) (.epilogue 2) :=
    ReceiveTable.accepts?_eq_some_iff.1 rfl
  have first : ∀ earlier ∈ listener.mailbox.toList.take 1, ∀ other,
      ¬listener.receivers.Selects letters earlier other := by
    intro earlier member other selected
    obtain rfl := List.mem_singleton.1 member
    cases ReceiveTable.accepts?_eq_some_iff.2 selected
  have listed : letters.ProperList (letters.cdrAt 3) [.number 2] := .pair (.ends nofun)
  exact ⟨waits, ((checkMail_selective letters waits).1 1 3 _ rfl selects first).1 _ listed⟩

/-- A message with `ping` in front that is its own second part. -/
def knot : Store := { pairs := #[(.symbol "ping", .pair 0)] }

/-- What follows the tag is not a proper list, but the process gets no fault: it walks for ever. -/
theorem checkMail_without_end :
    let asked := { listener with mailbox := .ofList [.pair 0] }
    asked.status = .waiting ∧ asked.receivers.Selects knot (.pair 0) (.epilogue 2) ∧
      (∀ items, ¬knot.ProperList (knot.cdrAt 0) items) ∧
      (asked.checkMail knot).1 = .failed (.pair 0) [] .endless := by
  refine ⟨rfl, ReceiveTable.accepts?_eq_some_iff.1 rfl, ?_, rfl⟩
  intro items listed
  have walked : knot.elements (knot.cdrAt 0) = .error .endless := rfl
  rw [Store.elements_of_properList listed] at walked
  cases walked

end Process

end ActorMachine
