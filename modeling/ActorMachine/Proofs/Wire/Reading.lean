import ActorMachine.Proofs.Wire.Text

set_option autoImplicit false

/-!
What is written is read back, if it is not too deep.

A codec is lawful if it writes strict JSON for a wire datum and reads every text that is strict JSON
for one, up to so many arrays and objects inside each other. The codec of this library is. The
reader counts arrays and objects, the encoder counts lists. A string is an object and a dotted list
is an array in an object, so a datum may be encoded and written although it nests deeper than the
reader goes. Main statements: `lawful_standard` and `Codec.Lawful.readDatum_write`.
-/

namespace ActorMachine

namespace Wire

mutual

theorem ofJson?_json : ∀ wire : Wire, ofJson? wire.json = some wire
  | .number x => by rw [json, ofJson?]
  | .symbol name => by rw [json, ofJson?]
  | .list items => by
      rw [json, ofJson?, ofItems?_documents items []]
      rfl
  | .string text => by
      rw [json, ofJson?, ofMembers?, ofMember?, if_pos rfl]
  | .dotted items => by
      rw [json, ofJson?, ofMembers?, ofMember?, if_pos rfl, ofItems?_documents items []]
      rfl

theorem ofItems?_documents : ∀ (items seen : List Wire),
    ofItems? seen (documents items) = some (seen.reverse ++ items)
  | [], seen => by rw [documents, ofItems?, List.append_nil]
  | item :: rest, seen => by
      rw [documents, ofItems?, ofJson?_json item]
      dsimp only
      rw [ofItems?_documents rest, List.reverse_cons, List.append_assoc]
      rfl

end

/-- What a library for JSON promises. -/
structure Codec.Lawful (codec : Codec) : Prop where
  /-- A datum of finite numbers is written as strict JSON. -/
  writes : ∀ {wire : Wire}, wire.allFinite = true →
    Relaxed.Denotes (codec.write wire).toList wire.json
  /-- Strict JSON for a datum is read as the datum, and refused if it nests too deep. -/
  reads : ∀ {text : List Char} {wire : Wire}, Relaxed.Denotes text wire.json →
    codec.read? text = if wire.nesting ≤ Json.maxNesting then some wire else none

theorem lawful_standard : Codec.standard.Lawful where
  writes := denotes_write
  reads := by
    intro text wire denotes
    change (Json.read? text).bind ofJson? = _
    rw [Json.read?_of_denotes denotes, nesting_json]
    by_cases shallow : wire.nesting ≤ Json.maxNesting
    · rw [if_pos shallow, if_pos shallow, Option.bind_some, ofJson?_json]
    · rw [if_neg shallow, if_neg shallow]
      rfl

/-- What was written is read back as the datum that it is decoded as, unless it is too deep for the
reader. It has no key without quotes, so quoting keys leaves it as it is. -/
theorem Codec.Lawful.readDatum_write {codec : Codec} (lawful : codec.Lawful) {wire : Wire}
    (finite : wire.allFinite = true) :
    readDatum (codec.write wire) codec =
      if wire.nesting ≤ Json.maxNesting then wire.decode else .error .invalidDatum := by
  have denotes := lawful.writes finite
  obtain ⟨shape, strict⟩ := denotes.strict
  unfold readDatum
  rw [strict.quoteKeys_eq, lawful.reads denotes]
  by_cases shallow : wire.nesting ≤ Json.maxNesting
  · rw [if_pos shallow, if_pos shallow]
  · rw [if_neg shallow, if_neg shallow]

theorem itemsFinite_iff {items : List Wire} :
    itemsFinite items = true ↔ ∀ item ∈ items, item.allFinite = true := by
  induction items with
  | nil => exact ⟨fun _ => nofun, fun _ => rfl⟩
  | cons item items ih => rw [itemsFinite, Bool.and_eq_true, ih, List.forall_mem_cons]

/-- The wire form of a datum of finite numbers has finite numbers, behind items that have. -/
theorem allFinite_wire {d : Datum} (finite : d.allFinite = true) :
    d.wire.allFinite = true ∧
      ∀ seen, (∀ item ∈ seen, item.allFinite = true) → (d.wireRest seen).allFinite = true := by
  induction d with
  | nil =>
      refine ⟨rfl, fun seen seenFinite => itemsFinite_iff.2 ?_⟩
      exact fun item member => seenFinite item (List.mem_reverse.1 member)
  | cons head tail headIh tailIh =>
      obtain ⟨headFinite, tailFinite⟩ := Bool.and_eq_true_iff.1 finite
      have rest : ∀ seen, (∀ item ∈ seen, item.allFinite = true) →
          ((Datum.cons head tail).wireRest seen).allFinite = true := by
        intro seen seenFinite
        exact (tailIh tailFinite).2 _ (List.forall_mem_cons.2 ⟨(headIh headFinite).1, seenFinite⟩)
      exact ⟨rest [] nofun, rest⟩
  | _ =>
      refine ⟨finite, fun seen seenFinite => itemsFinite_iff.2 ?_⟩
      intro item member
      cases List.mem_reverse.1 member with
      | head => exact finite
      | tail _ earlier => exact seenFinite item earlier

end Wire

end ActorMachine
