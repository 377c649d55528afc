import ActorMachine.Proofs.Store.Printing
import ActorMachine.Store.Wire

set_option autoImplicit false

/-!
Encoding and decoding are inverse to each other.

Every datum has one wire form, `Datum.wire`. A value is encoded as the wire form of the datum that
it represents, if that is not too deep and not too long, and the wire form is decoded as the datum.
Wire data that are spelled in another way may lie deeper than what they are decoded as, never less
deep. Main statement: `wire_round_trip`.
-/

namespace ActorMachine

namespace Datum

/-- How deep the deepest datum in a datum lies. Items lie one deeper than their list. So does a tail
other than nil, which takes no case of its own, as there is an item before it. -/
def depth : Datum → Nat
  | .cons head tail => max (head.depth + 1) tail.depth
  | _ => 0

/-- The data that have a wire form. -/
structure Encodable (d : Datum) : Prop where
  finite : d.allFinite = true
  shallow : d.depth < maxDepth
  short : d.longestList ≤ Store.maxWireLength

mutual

/-- The wire form of a datum. -/
def wire : Datum → Wire
  | .nil => .list []
  | .symbol name => .symbol name
  | .number x => .number x
  | .string text => .string text
  | .cons head tail => tail.wireRest [head.wire]

/-- The wire form of a list that goes on with a datum behind the items in `seen`, which are last one
first. -/
def wireRest (seen : List Wire) : Datum → Wire
  | .nil => .list seen.reverse
  | .symbol name => .dotted (.symbol name :: seen).reverse
  | .number x => .dotted (.number x :: seen).reverse
  | .string text => .dotted (.string text :: seen).reverse
  | .cons head tail => tail.wireRest (head.wire :: seen)

end

end Datum

namespace Wire

mutual

/-- Whether all numbers in a wire datum are finite. -/
def allFinite : Wire → Bool
  | .number x => x.isFinite
  | .list items => itemsFinite items
  | .dotted items => itemsFinite items
  | _ => true

def itemsFinite : List Wire → Bool
  | [] => true
  | item :: rest => item.allFinite && itemsFinite rest

end

end Wire

namespace Store

/-- A value is the given datum, its pairs read off the store. A circular value is no datum. -/
inductive Represents (store : Store) : Value → Datum → Prop where
  | nil : Represents store .nil .nil
  | symbol (name : String) : Represents store (.symbol name) (.symbol name)
  | number (x : Number) : Represents store (.number x) (.number x)
  | string (text : String) : Represents store (.string text) (.string text)
  | pair {ref : Ref} {head tail : Datum} (first : Represents store (store.carAt ref) head)
      (second : Represents store (store.cdrAt ref) tail) :
      Represents store (.pair ref) (.cons head tail)

variable {store : Store}

theorem represents_of_spells {v : Value} {d : Datum} (spelled : store.Spells v d.tree) :
    store.Represents v d := by
  induction d generalizing v with
  | nil =>
      cases spelled
      exact .nil
  | symbol name =>
      cases spelled
      exact .symbol name
  | number x =>
      cases spelled
      exact .number x
  | string text =>
      cases spelled
      exact .string text
  | cons head tail headIh tailIh =>
      obtain ⟨ref, rfl, _, first, second⟩ := spelled
      exact .pair (headIh first) (tailIh second)

theorem represents_load (store : Store) (d : Datum) :
    (store.load d).2.Represents (store.load d).1 d :=
  represents_of_spells ((loadsAs d).whole store)

theorem Represents.unique {v : Value} {d other : Datum} (represents : store.Represents v d)
    (otherwise : store.Represents v other) : d = other := by
  induction represents generalizing other with
  | pair first second firstIh secondIh =>
      cases otherwise with
      | pair otherFirst otherSecond => rw [firstIh otherFirst, secondIh otherSecond]
  | _ =>
      cases otherwise
      rfl

/-! ### Encoding -/

/-- A value that represents the datum is encoded as its wire form, and so is one that represents it
as the rest of a list. -/
structure EncodesAs (store : Store) (d : Datum) : Prop where
  whole : ∀ limit v, store.Represents v d → d.depth < limit →
    store.encodeValue limit v = .ok d.wire
  rest : ∀ depth left seen v, store.Represents v d → 0 < depth → d.depth ≤ depth →
    d.spineLength ≤ left →
    store.encodeSpine (store.encodeValue depth) left seen v = .ok (d.wireRest seen)

/-- A tail that is no list is encoded like an item, and makes the list a dotted one. -/
theorem encodesAs_atom {d : Datum} {wire : Wire}
    (isWire : d.wire = wire) (isRest : ∀ seen, d.wireRest seen = .dotted (wire :: seen).reverse)
    (encoded : ∀ limit v, store.Represents v d → store.encodeValue (limit + 1) v = .ok wire)
    (isTail : ∀ item left seen v, store.Represents v d →
      store.encodeSpine item left seen v =
        (item v).map fun found => .dotted (found :: seen).reverse) : EncodesAs store d where
  whole := by
    intro limit v represents shallow
    cases limit with
    | zero => cases shallow
    | succ limit => rw [encoded limit v represents, isWire]
  rest := by
    intro depth left seen v represents positive _ _
    cases depth with
    | zero => cases positive
    | succ depth =>
        rw [isTail _ _ _ _ represents, encoded depth v represents, isRest]
        rfl

theorem encodesAs (store : Store) (d : Datum) (finite : d.allFinite = true)
    (short : d.longestList ≤ maxWireLength) : EncodesAs store d := by
  induction d with
  | nil =>
      constructor
      · intro limit v represents shallow
        cases represents
        cases limit with
        | zero => cases shallow
        | succ limit => rw [encodeValue, Datum.wire]
      · intro depth left seen v represents _ _ _
        cases represents
        cases left <;> rw [encodeSpine, Datum.wireRest]
  | symbol name =>
      refine encodesAs_atom rfl (fun _ => rfl) ?_ ?_
      · intro limit v represents
        cases represents
        rfl
      · intro item left seen v represents
        cases represents
        cases left <;> rfl
  | number x =>
      have isFinite : x.isFinite = true := finite
      refine encodesAs_atom rfl (fun _ => rfl) ?_ ?_
      · intro limit v represents
        cases represents
        rw [encodeValue, if_pos isFinite]
        rfl
      · intro item left seen v represents
        cases represents
        cases left <;> rfl
  | string text =>
      refine encodesAs_atom rfl (fun _ => rfl) ?_ ?_
      · intro limit v represents
        cases represents
        rfl
      · intro item left seen v represents
        cases represents
        cases left <;> rfl
  | cons head tail headIh tailIh =>
      obtain ⟨headFinite, tailFinite⟩ := Bool.and_eq_true_iff.1 finite
      simp only [Datum.longestList] at short
      have headEncodes := headIh headFinite (by omega)
      have tailEncodes := tailIh tailFinite (by omega)
      have rest : ∀ depth left seen v, store.Represents v (.cons head tail) → 0 < depth →
          (Datum.cons head tail).depth ≤ depth → (Datum.cons head tail).spineLength ≤ left →
          store.encodeSpine (store.encodeValue depth) left seen v =
            .ok ((Datum.cons head tail).wireRest seen) := by
        intro depth left seen v represents positive shallow enough
        simp only [Datum.depth] at shallow
        simp only [Datum.spineLength] at enough
        cases represents with
        | pair first second =>
            cases left with
            | zero => omega
            | succ left =>
                rw [encodeSpine, headEncodes.whole depth _ first (by omega)]
                exact tailEncodes.rest depth left _ _ second positive (by omega) (by omega)
      refine ⟨?_, rest⟩
      intro limit v represents shallow
      simp only [Datum.depth] at shallow
      cases limit with
      | zero => omega
      | succ limit =>
          have whole := rest limit maxWireLength [] v represents (by omega)
            (by simp only [Datum.depth]; omega) (by simp only [Datum.spineLength]; omega)
          cases represents
          exact whole

/-- What is encoded represents a datum that has a wire form. -/
structure EncodedFrom (store : Store) (limit : Nat) (v : Value) (wire : Wire) (d : Datum) :
    Prop where
  represents : store.Represents v d
  wire_eq : wire = d.wire
  finite : d.allFinite = true
  shallow : d.depth < limit
  short : d.longestList ≤ maxWireLength

/-- The same of the rest of a list, behind the items in `seen`. -/
structure RestEncodedFrom (store : Store) (depth left : Nat) (seen : List Wire) (v : Value)
    (wire : Wire) (d : Datum) : Prop where
  represents : store.Represents v d
  wire_eq : wire = d.wireRest seen
  finite : d.allFinite = true
  shallow : d.depth ≤ depth
  enough : d.spineLength ≤ left
  short : d.longestList ≤ maxWireLength

theorem encodeSpine_tail {item : Value → Except WireFault Wire} {left : Nat} {seen : List Wire}
    {v : Value} (notNil : v ≠ .nil) (notPair : ∀ ref, v ≠ .pair ref) :
    store.encodeSpine item left seen v =
      (item v).map fun found => .dotted (found :: seen).reverse := by
  cases v with
  | nil => exact absurd rfl notNil
  | pair ref => exact absurd rfl (notPair ref)
  | _ => cases left <;> rfl

/-- A tail that is encoded is an atom. -/
theorem EncodedFrom.tail {depth left : Nat} {seen : List Wire} {v : Value} {found : Wire}
    {d : Datum} (encoded : EncodedFrom store depth v found d) (notNil : v ≠ .nil)
    (notPair : ∀ ref, v ≠ .pair ref) :
    RestEncodedFrom store depth left seen v (.dotted (found :: seen).reverse) d := by
  obtain ⟨represents, isWire, finite, shallow, short⟩ := encoded
  subst isWire
  cases represents with
  | nil => exact absurd rfl notNil
  | pair first second => exact absurd rfl (notPair _)
  | symbol name => exact ⟨.symbol name, rfl, finite, Nat.zero_le _, Nat.zero_le _, short⟩
  | number x => exact ⟨.number x, rfl, finite, Nat.zero_le _, Nat.zero_le _, short⟩
  | string text => exact ⟨.string text, rfl, finite, Nat.zero_le _, Nat.zero_le _, short⟩

section Walk

variable {depth : Nat} (item : ∀ v wire, store.encodeValue depth v = .ok wire →
  ∃ d, EncodedFrom store depth v wire d)
include item

/-- The end of a list, given what is known of its items. -/
theorem restEncodedFrom_end {left : Nat} {seen : List Wire} {v : Value} {wire : Wire}
    (notPair : ∀ ref, v ≠ .pair ref)
    (encoded : store.encodeSpine (store.encodeValue depth) left seen v = .ok wire) :
    ∃ d, RestEncodedFrom store depth left seen v wire d := by
  by_cases isNil : v = .nil
  · subst isNil
    have isList : wire = .list seen.reverse := by
      cases left <;> exact (Except.ok.inj encoded).symm
    exact ⟨.nil, .nil, isList, rfl, Nat.zero_le _, Nat.zero_le _, Nat.zero_le _⟩
  · rw [encodeSpine_tail isNil notPair] at encoded
    cases ended : store.encodeValue depth v with
    | error fault =>
        rw [ended] at encoded
        cases encoded
    | ok found =>
        rw [ended] at encoded
        cases encoded
        obtain ⟨d, known⟩ := item v found ended
        exact ⟨d, known.tail isNil notPair⟩

theorem restEncodedFrom {left : Nat} {seen : List Wire} {v : Value} {wire : Wire}
    (within : left ≤ maxWireLength)
    (encoded : store.encodeSpine (store.encodeValue depth) left seen v = .ok wire) :
    ∃ d, RestEncodedFrom store depth left seen v wire d := by
  induction left generalizing seen v with
  | zero =>
      refine restEncodedFrom_end item ?_ encoded
      intro ref isPair
      subst isPair
      cases encoded
  | succ left ih =>
      by_cases isPair : ∃ ref, v = .pair ref
      · obtain ⟨ref, rfl⟩ := isPair
        rw [encodeSpine] at encoded
        cases first : store.encodeValue depth (store.carAt ref) with
        | error fault =>
            rw [first] at encoded
            cases encoded
        | ok found =>
            rw [first] at encoded
            obtain ⟨head, known⟩ := item _ found first
            obtain ⟨tail, rest⟩ := ih (by omega) encoded
            have shallow := known.shallow
            have deepTail := rest.shallow
            have short := known.short
            have shortTail := rest.short
            have enough := rest.enough
            refine ⟨.cons head tail, .pair known.represents rest.represents, ?_, ?_, ?_, ?_, ?_⟩
            · rw [rest.wire_eq, known.wire_eq, Datum.wireRest]
            · rw [Datum.allFinite, known.finite, rest.finite]
              rfl
            · rw [Datum.depth]
              omega
            · rw [Datum.spineLength]
              omega
            · rw [Datum.longestList]
              omega
      · exact restEncodedFrom_end item (fun ref same => isPair ⟨ref, same⟩) encoded

end Walk

theorem encodedFrom {limit : Nat} {v : Value} {wire : Wire}
    (encoded : store.encodeValue limit v = .ok wire) : ∃ d, EncodedFrom store limit v wire d := by
  induction limit generalizing v wire with
  | zero => cases encoded
  | succ limit ih =>
      cases v with
      | nil =>
          cases encoded
          exact ⟨.nil, .nil, rfl, rfl, Nat.succ_pos _, Nat.zero_le _⟩
      | symbol name =>
          cases encoded
          exact ⟨.symbol name, .symbol name, rfl, rfl, Nat.succ_pos _, Nat.zero_le _⟩
      | string text =>
          cases encoded
          exact ⟨.string text, .string text, rfl, rfl, Nat.succ_pos _, Nat.zero_le _⟩
      | number x =>
          rw [encodeValue] at encoded
          by_cases finite : x.isFinite = true
          · rw [if_pos finite] at encoded
            cases encoded
            exact ⟨.number x, .number x, rfl, finite, Nat.succ_pos _, Nat.zero_le _⟩
          · rw [if_neg finite] at encoded
            cases encoded
      | pair ref =>
          rw [encodeValue] at encoded
          obtain ⟨d, known⟩ := restEncodedFrom (fun _ _ => ih) (Nat.le_refl _) encoded
          obtain ⟨represents, isWire, finite, shallow, _, short⟩ := known
          refine ⟨d, represents, ?_, finite, Nat.lt_succ_of_le shallow, short⟩
          cases represents
          exact isWire
      | _ => cases encoded

/-- A value is encoded exactly when it represents a datum that has a wire form. -/
theorem encode_eq_ok_iff {v : Value} {wire : Wire} :
    store.encode v = .ok wire ↔ ∃ d, store.Represents v d ∧ d.Encodable ∧ wire = d.wire := by
  constructor
  · intro encoded
    obtain ⟨d, represents, isWire, finite, shallow, short⟩ := encodedFrom encoded
    exact ⟨d, represents, ⟨finite, shallow, short⟩, isWire⟩
  · rintro ⟨d, represents, encodable, rfl⟩
    exact (encodesAs store d encodable.finite encodable.short).whole maxDepth v represents
      encodable.shallow

end Store

/-! ### Decoding -/

namespace Wire

theorem toData_append (depth : Nat) (seen : List Datum) (items more : List Wire) :
    toData depth seen (items ++ more) =
      match toData depth seen items with
      | .error fault => .error fault
      | .ok found => toData depth found more := by
  induction items generalizing seen with
  | nil => rfl
  | cons item items ih =>
      rw [List.cons_append, toData, toData]
      cases toDatum depth item with
      | error fault => rfl
      | ok found => exact ih (found :: seen)

/-- The wire form of the datum is decoded as it, and so is that of a list that ends in it. -/
structure DecodesAs (d : Datum) : Prop where
  whole : ∀ depth, d.depth + depth < maxDepth → d.wire.toDatum depth = .ok d
  rest : ∀ depth seen items, toData (depth + 1) [] seen.reverse = .ok items →
    d.depth + depth < maxDepth → depth + 1 < maxDepth →
    (d.wireRest seen).toDatum depth = .ok (Datum.ofReversed d items)

theorem decodesAs_atom {d : Datum} {wire : Wire} (isWire : d.wire = wire)
    (isRest : ∀ seen, d.wireRest seen = .dotted (wire :: seen).reverse) (flat : d.depth = 0)
    (decoded : ∀ depth, depth < maxDepth → wire.toDatum depth = .ok d) : DecodesAs d where
  whole := by
    intro depth shallow
    rw [isWire]
    exact decoded depth (by omega)
  rest := by
    intro depth seen items before shallow deeper
    have last : toData (depth + 1) [] (wire :: seen).reverse = .ok (d :: items) := by
      rw [List.reverse_cons, toData_append, before]
      dsimp only
      rw [toData, decoded (depth + 1) deeper]
      rfl
    rw [isRest, toDatum, if_neg (by omega), last]

theorem decodesAs (d : Datum) : DecodesAs d := by
  induction d with
  | nil =>
      constructor
      · intro depth shallow
        rw [Datum.wire, toDatum, if_neg (by omega)]
        rfl
      · intro depth seen items before shallow _
        rw [Datum.wireRest, toDatum, if_neg (by omega), before]
        rfl
  | symbol name =>
      have decoded : ∀ depth, depth < maxDepth →
          (Wire.symbol name).toDatum depth = .ok (.symbol name) := by
        intro depth shallow
        rw [toDatum, if_neg (by omega)]
      exact decodesAs_atom rfl (fun _ => rfl) rfl decoded
  | number x =>
      have decoded : ∀ depth, depth < maxDepth →
          (Wire.number x).toDatum depth = .ok (.number x) := by
        intro depth shallow
        rw [toDatum, if_neg (by omega)]
      exact decodesAs_atom rfl (fun _ => rfl) rfl decoded
  | string text =>
      have decoded : ∀ depth, depth < maxDepth →
          (Wire.string text).toDatum depth = .ok (.string text) := by
        intro depth shallow
        rw [toDatum, if_neg (by omega)]
      exact decodesAs_atom rfl (fun _ => rfl) rfl decoded
  | cons head tail headIh tailIh =>
      have rest : ∀ depth seen items, toData (depth + 1) [] seen.reverse = .ok items →
          (Datum.cons head tail).depth + depth < maxDepth → depth + 1 < maxDepth →
          ((Datum.cons head tail).wireRest seen).toDatum depth =
            .ok (Datum.ofReversed (.cons head tail) items) := by
        intro depth seen items before shallow deeper
        rw [Datum.depth] at shallow
        have next : toData (depth + 1) [] (head.wire :: seen).reverse = .ok (head :: items) := by
          rw [List.reverse_cons, toData_append, before]
          dsimp only
          rw [toData, headIh.whole (depth + 1) (by omega)]
          rfl
        rw [Datum.wireRest]
        exact tailIh.rest depth _ _ next (by omega) deeper
      refine ⟨?_, rest⟩
      intro depth shallow
      have shallowHead := shallow
      rw [Datum.depth] at shallowHead
      exact rest depth [] [] rfl shallow (by omega)

/-! ### What is decoded -/

theorem ofReversed_shallow {tail : Datum} {items : List Datum} {depth limit : Nat}
    (tailShallow : tail.depth + depth < limit)
    (shallow : ∀ item ∈ items, item.depth + (depth + 1) < limit) :
    (Datum.ofReversed tail items).depth + depth < limit := by
  induction items generalizing tail with
  | nil => exact tailShallow
  | cons item items ih =>
      have itemShallow := shallow item List.mem_cons_self
      refine ih ?_ fun other member => shallow other (List.mem_cons_of_mem _ member)
      rw [Datum.depth]
      omega

theorem ofReversed_finite {tail : Datum} {items : List Datum} (tailFinite : tail.allFinite = true)
    (finite : ∀ item ∈ items, item.allFinite = true) :
    (Datum.ofReversed tail items).allFinite = true := by
  induction items generalizing tail with
  | nil => exact tailFinite
  | cons item items ih =>
      refine ih ?_ fun other member => finite other (List.mem_cons_of_mem _ member)
      rw [Datum.allFinite, finite item List.mem_cons_self, tailFinite]
      rfl

/-- What a wire datum is decoded as: its numbers are finite, and it lies no deeper than the wire
datum does. -/
def SoundAt (depth : Nat) (d : Datum) : Prop := d.allFinite = true ∧ d.depth + depth < maxDepth

theorem soundAt_of_flat {depth : Nat} {d : Datum} (finite : d.allFinite = true) (flat : d.depth = 0)
    (room : ¬maxDepth ≤ depth) : SoundAt depth d :=
  ⟨finite, by omega⟩

theorem ofReversed_sound {depth : Nat} {tail : Datum} {items : List Datum}
    (tailSound : SoundAt depth tail) (sound : ∀ item ∈ items, SoundAt (depth + 1) item) :
    SoundAt depth (Datum.ofReversed tail items) :=
  ⟨ofReversed_finite tailSound.1 fun item member => (sound item member).1,
    ofReversed_shallow tailSound.2 fun item member => (sound item member).2⟩

mutual

theorem toDatum_sound {depth : Nat} {d : Datum} : ∀ {wire : Wire}, wire.allFinite = true →
    wire.toDatum depth = .ok d → SoundAt depth d
  | .number x, finite, decoded => by
      rw [toDatum] at decoded
      split at decoded
      · cases decoded
      · cases decoded
        exact soundAt_of_flat finite rfl ‹_›
  | .symbol name, _, decoded => by
      rw [toDatum] at decoded
      split at decoded
      · cases decoded
      · cases decoded
        exact soundAt_of_flat rfl rfl ‹_›
  | .string text, _, decoded => by
      rw [toDatum] at decoded
      split at decoded
      · cases decoded
      · cases decoded
        exact soundAt_of_flat rfl rfl ‹_›
  | .list items, finite, decoded => by
      rw [toDatum] at decoded
      split at decoded
      · cases decoded
      · cases inner : toData (depth + 1) [] items with
        | error fault =>
            rw [inner] at decoded
            cases decoded
        | ok found =>
            rw [inner] at decoded
            cases decoded
            refine ofReversed_sound (soundAt_of_flat rfl rfl ‹_›) ?_
            exact toData_sound finite inner (by intro item member; cases member)
  | .dotted items, finite, decoded => by
      rw [toDatum] at decoded
      split at decoded
      · cases decoded
      · cases inner : toData (depth + 1) [] items with
        | error fault =>
            rw [inner] at decoded
            cases decoded
        | ok found =>
            rw [inner] at decoded
            have sound := toData_sound finite inner (by intro item member; cases member)
            cases found with
            | nil => cases decoded
            | cons tail rest =>
                cases decoded
                obtain ⟨tailFinite, tailShallow⟩ := sound tail List.mem_cons_self
                refine ofReversed_sound ⟨tailFinite, by omega⟩ ?_
                exact fun item member => sound item (List.mem_cons_of_mem _ member)

theorem toData_sound {depth : Nat} {seen found : List Datum} : ∀ {items : List Wire},
    itemsFinite items = true → toData depth seen items = .ok found →
    (∀ item ∈ seen, SoundAt depth item) → ∀ item ∈ found, SoundAt depth item
  | [], _, decoded, before => by
      cases decoded
      exact before
  | item :: rest, finite, decoded, before => by
      obtain ⟨itemFinite, restFinite⟩ := Bool.and_eq_true_iff.1 finite
      rw [toData] at decoded
      cases inner : toDatum depth item with
      | error fault =>
          rw [inner] at decoded
          cases decoded
      | ok first =>
          rw [inner] at decoded
          refine toData_sound restFinite decoded ?_
          intro other member
          cases member with
          | head => exact toDatum_sound itemFinite inner
          | tail _ earlier => exact before other earlier

end

end Wire

namespace Store

/-- Encoding and decoding are inverse to each other.

What is encoded is decoded as a datum that the value represents, and loading that makes a value that
represents it too. A value is encoded exactly when it represents a datum of finite numbers that is
not too deep and has no list that is too long. Last, a wire datum of finite numbers, spelled in any
way at all, that is decoded as a datum with no list too long: the datum is loaded, encoded and
decoded again as the same datum. -/
theorem wire_round_trip (store : Store) (v : Value) :
    (∀ wire, store.encode v = .ok wire → ∃ d, wire.decode = .ok d ∧ store.Represents v d ∧
      (store.load d).2.Represents (store.load d).1 d) ∧
    ((∃ wire, store.encode v = .ok wire) ↔ ∃ d, store.Represents v d ∧ d.Encodable) ∧
    ∀ (wire : Wire) (d : Datum), wire.allFinite = true → wire.decode = .ok d →
      d.longestList ≤ maxWireLength →
      (store.load d).2.Represents (store.load d).1 d ∧
      ∃ again, (store.load d).2.encode (store.load d).1 = .ok again ∧ again.decode = .ok d := by
  refine ⟨?_, ?_, ?_⟩
  · intro wire encoded
    obtain ⟨d, represents, encodable, rfl⟩ := encode_eq_ok_iff.1 encoded
    exact ⟨d, (Wire.decodesAs d).whole 0 encodable.shallow, represents, represents_load store d⟩
  · constructor
    · intro ⟨wire, encoded⟩
      obtain ⟨d, represents, encodable, _⟩ := encode_eq_ok_iff.1 encoded
      exact ⟨d, represents, encodable⟩
    · intro ⟨d, represents, encodable⟩
      exact ⟨d.wire, encode_eq_ok_iff.2 ⟨d, represents, encodable, rfl⟩⟩
  · intro wire d finite decoded short
    obtain ⟨dFinite, shallow⟩ := Wire.toDatum_sound finite decoded
    have loaded := represents_load store d
    exact ⟨loaded, d.wire, encode_eq_ok_iff.2 ⟨d, loaded, ⟨dFinite, shallow, short⟩, rfl⟩,
      (Wire.decodesAs d).whole 0 shallow⟩

end Store

end ActorMachine
