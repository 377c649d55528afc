import ActorMachine.Proofs.Wire.Reading

set_option autoImplicit false

/-!
Values that are written as JSON and read back.

The encoder goes down 256 lists and the reader of JSON 127 arrays and objects. What the encoder
accepts and the reader does not is written, and cannot be read any more. Everything else is read as
the datum that was written. That holds of every lawful codec, `round_trip_of_lawful`, and so of the
one of this library, `json_round_trip`.
-/

namespace ActorMachine.Store

variable {store : Store}

section Codec

variable {codec : Wire.Codec} {v : Value} {text : String}

theorem toWireText_eq_ok_iff :
    store.toWireText v codec = .ok text ↔
      ∃ d, store.Represents v d ∧ d.Encodable ∧ text = codec.write d.wire := by
  unfold toWireText
  constructor
  · intro written
    cases encoded : store.encode v with
    | error fault =>
        rw [encoded] at written
        cases written
    | ok wire =>
        rw [encoded] at written
        obtain ⟨d, represents, encodable, rfl⟩ := encode_eq_ok_iff.1 encoded
        exact ⟨d, represents, encodable, (Except.ok.inj written).symm⟩
  · intro ⟨d, represents, encodable, textIs⟩
    rw [encode_eq_ok_iff.2 ⟨d, represents, encodable, rfl⟩, textIs]
    rfl

variable (lawful : codec.Lawful)
include lawful

theorem ofWireText_write {d : Datum} (encodable : d.Encodable) :
    store.ofWireText (codec.write d.wire) codec =
      if d.wire.nesting ≤ Json.maxNesting then .ok (store.load d) else .error .invalidDatum := by
  have decoded : d.wire.decode = .ok d := (Wire.decodesAs d).whole 0 encodable.shallow
  unfold ofWireText
  rw [lawful.readDatum_write (Wire.allFinite_wire encodable.finite).1, decoded]
  by_cases shallow : d.wire.nesting ≤ Json.maxNesting
  · rw [if_pos shallow, if_pos shallow]
    rfl
  · rw [if_neg shallow, if_neg shallow]
    rfl

/-- Through any lawful codec a value that was written is read back, into any store, as a value that
represents the same datum, if the text has no more arrays and objects inside each other than the
reader allows. If it has more, the text is not read at all. -/
theorem round_trip_of_lawful (written : store.toWireText v codec = .ok text) :
    ∃ d, store.Represents v d ∧ ∀ target : Store,
      (d.wire.nesting ≤ Json.maxNesting → target.ofWireText text codec = .ok (target.load d) ∧
        (target.load d).2.Represents (target.load d).1 d) ∧
      (Json.maxNesting < d.wire.nesting →
        target.ofWireText text codec = .error .invalidDatum) := by
  obtain ⟨d, represents, encodable, rfl⟩ := toWireText_eq_ok_iff.1 written
  refine ⟨d, represents, ?_⟩
  intro target
  have read : target.ofWireText (codec.write d.wire) codec = _ := ofWireText_write lawful encodable
  constructor
  · intro shallow
    rw [if_pos shallow] at read
    exact ⟨read, represents_load target d⟩
  · intro deep
    rw [if_neg (Nat.not_le.2 deep)] at read
    exact read

end Codec

/-- A value that was written as JSON is read back, into any store, as a value that represents the
same datum, if the text has no more arrays and objects inside each other than the reader allows. If
it has more, the text is not read at all. -/
theorem json_round_trip {v : Value} {text : String} (written : store.toWireText v = .ok text) :
    ∃ d, store.Represents v d ∧ ∀ target : Store,
      (d.wire.nesting ≤ Json.maxNesting → target.ofWireText text = .ok (target.load d) ∧
        (target.load d).2.Represents (target.load d).1 d) ∧
      (Json.maxNesting < d.wire.nesting → target.ofWireText text = .error .invalidDatum) :=
  round_trip_of_lawful Wire.lawful_standard written

/-- A pair of a symbol and a string. -/
def entry : Datum := .cons (.symbol "name") (.string "a \"quoted\" text")

theorem json_round_trip_entry :
    let written := (default : Store).load entry
    ∃ text, written.2.toWireText written.1 = .ok text ∧
      (default : Store).ofWireText text = .ok written := by
  intro written
  have represents : written.2.Represents written.1 entry := represents_load _ _
  have encodable : entry.Encodable := ⟨rfl, by decide, by decide⟩
  have text : written.2.toWireText written.1 = .ok entry.wire.write :=
    toWireText_eq_ok_iff.2 ⟨entry, represents, encodable, rfl⟩
  obtain ⟨d, other, read⟩ := json_round_trip text
  rw [other.unique represents] at read
  exact ⟨_, text, ((read default).1 (by decide)).1⟩

/-- A symbol inside lists of one item. -/
def tower : Nat → Datum
  | 0 => .symbol "x"
  | height + 1 => .cons (tower height) .nil

theorem depth_tower (height : Nat) : (tower height).depth = height := by
  induction height with
  | zero => rfl
  | succ height ih =>
      rw [tower, Datum.depth, ih]
      exact Nat.max_eq_left (Nat.zero_le _)

theorem encodable_tower {height : Nat} (low : height < maxDepth) : (tower height).Encodable := by
  have inside : (tower height).allFinite = true ∧ (tower height).longestList ≤ 1 := by
    clear low
    induction height with
    | zero => exact ⟨rfl, Nat.zero_le _⟩
    | succ height ih =>
        constructor
        · rw [tower, Datum.allFinite, ih.1]
          rfl
        · rw [tower, Datum.longestList]
          exact Nat.max_le.2 ⟨Nat.le_refl 1, Nat.max_le.2 ⟨ih.2, Nat.zero_le 1⟩⟩
  exact ⟨inside.1, by rw [depth_tower]; exact low, Nat.le_trans inside.2 (by decide)⟩

theorem nesting_tower (height : Nat) : (tower height).wire.nesting = height := by
  induction height with
  | zero => rfl
  | succ height ih =>
      have wireIs : (tower (height + 1)).wire = .list [(tower height).wire] := rfl
      rw [wireIs, Wire.nesting, Wire.deepest, ih]
      exact congrArg (· + 1) (Nat.max_eq_left (Nat.zero_le _))

/-- A tower of 128 lists is written, and what was written is not read. -/
theorem json_round_trip_tower :
    let written := (default : Store).load (tower 128)
    ∃ text, written.2.toWireText written.1 = .ok text ∧
      (default : Store).ofWireText text = .error .invalidDatum := by
  intro written
  have represents : written.2.Represents written.1 (tower 128) := represents_load _ _
  have encodable := encodable_tower (show 128 < maxDepth by decide)
  have read : (default : Store).ofWireText (Wire.Codec.standard.write (tower 128).wire) = _ :=
    ofWireText_write Wire.lawful_standard encodable
  rw [nesting_tower, if_neg (by decide)] at read
  exact ⟨_, toWireText_eq_ok_iff.2 ⟨_, represents, encodable, rfl⟩, read⟩

end ActorMachine.Store
