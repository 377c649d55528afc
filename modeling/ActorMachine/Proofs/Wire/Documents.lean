import ActorMachine.Proofs.Wire.Numerals

set_option autoImplicit false

/-!
What strict JSON stands for.

A layout stands for a document if its leaves stand for those of the document and its keys are in
quotes. A numeral stands for the number nearest to it, which has to be finite, and a string for the
characters that it spells, where surrogates have to come in pairs. Every text that stands for a
document is read as that document, unless it nests too deep. Main statement: `read?_of_denotes`.
-/

namespace ActorMachine

/-! ### Strings -/

namespace Json

open Relaxed Number

/-- How a character can stand in a string: as itself, behind a backslash by a letter, by its number,
or by the numbers of two surrogates. -/
inductive Escapes : Char → List Char → Prop where
  | plain {c : Char} (notQuote : c ≠ '"') (notEscape : c ≠ '\\') (notControl : 0x20 ≤ c.toNat) :
      Escapes c [c]
  | letter {c d : Char} (known : d ∈ ['"', '\\', '/', 'b', 'f', 'n', 'r', 't'])
      (isLetter : unescape? d = some c) : Escapes c ['\\', d]
  | unit {a b c d : Char} {n : Nat} (value : hexValue? [a, b, c, d] = some n)
      (notLeading : isLeading n = false) (notTrailing : isTrailing n = false) :
      Escapes (Char.ofNat n) ['\\', 'u', a, b, c, d]
  | pair {a b c d e f g h : Char} {leading trailing : Nat}
      (first : hexValue? [a, b, c, d] = some leading) (leads : isLeading leading = true)
      (second : hexValue? [e, f, g, h] = some trailing) (trails : isTrailing trailing = true) :
      Escapes (joinSurrogates leading trailing)
        ['\\', 'u', a, b, c, d, '\\', 'u', e, f, g, h]

/-- The characters that a body spells. -/
inductive BodyOf : List Char → List Char → Prop where
  | nil : BodyOf [] []
  | cons {c : Char} {piece body text : List Char} (escapes : Escapes c piece)
      (follows : BodyOf body text) : BodyOf (piece ++ body) (c :: text)

theorem isHex_of_hexDigit? {c : Char} {n : Nat} (value : hexDigit? c = some n) :
    isHex c = true := by
  unfold hexDigit? at value
  unfold isHex
  split at value
  · rename_i digit
    have isDigit : c.isDigit = true := by
      simp only [Char.isDigit, Bool.and_eq_true, decide_eq_true_eq]
      exact digit
    rw [isDigit]
    rfl
  · split at value
    · rename_i lower
      simp [lower]
    · split at value
      · rename_i upper
        simp [upper]
      · cases value

theorem isHex_of_hexValue? {digits : List Char} {n : Nat} (value : hexValue? digits = some n)
    {c : Char} (member : c ∈ digits) : isHex c = true := by
  unfold hexValue? at value
  generalize 0 = start at value
  induction digits generalizing start with
  | nil => cases member
  | cons first digits ih =>
      rw [List.foldlM_cons] at value
      cases known : hexDigit? first with
      | none =>
          rw [known] at value
          cases value
      | some digit =>
          rw [known] at value
          rcases List.mem_cons.1 member with rfl | later
          · exact isHex_of_hexDigit? known
          · exact ih later _ value

theorem Escapes.isBody {c : Char} {piece rest : List Char} (escapes : Escapes c piece)
    (follows : IsBody rest) : IsBody (piece ++ rest) := by
  cases escapes with
  | plain notQuote notEscape notControl => exact .plain notQuote notEscape notControl follows
  | letter known isLetter => exact .escape known follows
  | unit value _ _ => exact IsBody.unit rfl (fun _ => isHex_of_hexValue? value) follows
  | @pair a b c d e f g h _ _ first _ second _ =>
      change IsBody ('\\' :: 'u' :: ([a, b, c, d] ++ ('\\' :: 'u' :: ([e, f, g, h] ++ rest))))
      have behind := IsBody.unit rfl (fun _ => isHex_of_hexValue? second) follows
      exact IsBody.unit rfl (fun _ => isHex_of_hexValue? first) behind

theorem BodyOf.isBody {body text : List Char} (spelled : BodyOf body text) : IsBody body := by
  induction spelled with
  | nil => exact .nil
  | cons escapes _ ih => exact escapes.isBody ih

theorem Escapes.readString? {c : Char} {piece : List Char} (escapes : Escapes c piece)
    (seen rest : List Char) :
    Json.readString? seen (piece ++ rest) = Json.readString? (c :: seen) rest := by
  cases escapes with
  | plain notQuote notEscape notControl =>
      have printable : ¬c.toNat < 0x20 := Nat.not_lt.2 notControl
      simp [Json.readString?, notEscape, printable]
  | @letter _ d known isLetter =>
      have notUnit : d ≠ 'u' := by
        rintro rfl
        exact absurd known (by decide)
      simp [Json.readString?, notUnit, isLetter]
  | unit value notLeading notTrailing =>
      simp [Json.readString?, value, notLeading, notTrailing]
  | pair first leads second trails =>
      simp [Json.readString?, first, leads, second, trails]

theorem BodyOf.readString? {body text : List Char} (spelled : BodyOf body text)
    (seen rest : List Char) :
    Json.readString? seen (body ++ '"' :: rest) =
      some (String.ofList (seen.reverse ++ text), rest) := by
  induction spelled generalizing seen with
  | nil =>
      rw [List.append_nil]
      rfl
  | cons escapes _ ih =>
      rw [List.append_assoc, escapes.readString?, ih]
      simp

/-! ### Documents -/

mutual

/-- How many arrays and objects of a document enclose each other. -/
def nesting : Json → Nat
  | .null => 0
  | .bool _ => 0
  | .number _ => 0
  | .string _ => 0
  | .array items => deepest items + 1
  | .object members => deepestMember members + 1

def deepest : List Json → Nat
  | [] => 0
  | item :: rest => max item.nesting (deepest rest)

def deepestMember : List (String × Json) → Nat
  | [] => 0
  | member :: rest => max (memberNesting member) (deepestMember rest)

def memberNesting : String × Json → Nat
  | (_, value) => value.nesting

end

end Json

namespace Relaxed

open Json Number

/-- What an array or an object of a document holds. -/
def Kind.Piece : Kind → Type
  | .array => Json
  | .object => String × Json

def Kind.json : (kind : Kind) → List kind.Piece → Json
  | .array, items => .array items
  | .object, members => .object members

def Kind.depth : (kind : Kind) → kind.Piece → Nat
  | .array, item => item.nesting
  | .object, member => memberNesting member

def Kind.deepest (kind : Kind) : List kind.Piece → Nat
  | [] => 0
  | piece :: rest => max (kind.depth piece) (kind.deepest rest)

theorem Kind.nesting_json (kind : Kind) (pieces : List kind.Piece) :
    (kind.json pieces).nesting = kind.deepest pieces + 1 := by
  cases kind with
  | array =>
      refine congrArg (· + 1) ?_
      induction pieces with
      | nil => rfl
      | cons piece pieces ih => exact congrArg (max _) ih
  | object =>
      refine congrArg (· + 1) ?_
      induction pieces with
      | nil => rfl
      | cons piece pieces ih => exact congrArg (max _) ih

/-- What the value behind a lead is in its array or object. A key has to be in quotes. -/
inductive Lead.Gives : {kind : Kind} → Lead kind → Json → kind.Piece → Prop where
  | item {before : Blanks} {value : Json} : Gives (.item before) value value
  | member {before gap behind : Blanks} {body : Body} {key : String} {value : Json}
      (named : BodyOf body.text key.toList) :
      Gives (.member before (.quoted body) gap behind) value (key, value)

mutual

/-- A layout is strict JSON for a document. -/
inductive Layout.StandsFor : Layout → Json → Prop where
  | null : Layout.StandsFor (.atom .null) .null
  | bool (value : Bool) : Layout.StandsFor (.atom (.bool value)) (.bool value)
  | number {numeral : Numeral} (finite : numeral.decimal.toPattern < infinity) :
      Layout.StandsFor (.atom (.number numeral))
        (.number (ofPattern numeral.negative numeral.decimal.toPattern))
  | string {body : Body} {text : String} (spelled : BodyOf body.text text.toList) :
      Layout.StandsFor (.string body) (.string text)
  | empty (kind : Kind) (within : Blanks) : Layout.StandsFor (.empty kind within) (kind.json [])
  | list {kind : Kind} {items : Items kind} {pieces : List kind.Piece}
      (each : Items.StandFor items pieces) : Layout.StandsFor (.list kind items) (kind.json pieces)

/-- What is listed in an array or an object is strict JSON for what its document holds. -/
inductive Items.StandFor : {kind : Kind} → Items kind → List kind.Piece → Prop where
  | last {kind : Kind} {lead : Lead kind} {value : Layout} {behind : Blanks} {document : Json}
      {piece : kind.Piece} (gives : lead.Gives document piece)
      (first : Layout.StandsFor value document) : Items.StandFor (.last lead value behind) [piece]
  | more {kind : Kind} {lead : Lead kind} {value : Layout} {behind : Blanks} {rest : Items kind}
      {document : Json} {piece : kind.Piece} {pieces : List kind.Piece}
      (gives : lead.Gives document piece) (first : Layout.StandsFor value document)
      (others : Items.StandFor rest pieces) :
      Items.StandFor (.more lead value behind rest) (piece :: pieces)

end

/-- The text is strict JSON for the document, with its numbers and strings. -/
def Denotes (text : List Char) (document : Json) : Prop :=
  ∃ page : Page, page.text = text ∧ page.value.StandsFor document

theorem Lead.Gives.isStrict {kind : Kind} {lead : Lead kind} {value : Json} {piece : kind.Piece}
    (gives : lead.Gives value piece) : lead.isStrict = true := by
  cases gives <;> rfl

mutual

theorem Layout.StandsFor.isStrict : ∀ {layout : Layout} {document : Json},
    layout.StandsFor document → layout.isStrict = true
  | _, _, .null => rfl
  | _, _, .bool _ => rfl
  | _, _, .number _ => rfl
  | _, _, .string _ => rfl
  | _, _, .empty _ _ => rfl
  | _, _, .list each => each.isStrict

theorem Items.StandFor.isStrict : ∀ {kind : Kind} {items : Items kind} {pieces : List kind.Piece},
    items.StandFor pieces → items.isStrict = true
  | _, _, _, .last gives first => by
      rw [Items.isStrict, gives.isStrict, first.isStrict]
      rfl
  | _, _, _, .more gives first others => by
      rw [Items.isStrict, gives.isStrict, first.isStrict, others.isStrict]
      rfl

end

theorem Denotes.strict {text : List Char} {document : Json} (denotes : Denotes text document) :
    ∃ shape, Strict text shape := by
  obtain ⟨page, textIs, standsFor⟩ := denotes
  exact ⟨page.document, page, standsFor.isStrict, textIs, rfl⟩

end Relaxed

/-! ### Reading -/

namespace Json

open Relaxed Number

theorem skip_cons {c : Char} (notSpace : isSpace c = false) (rest : List Char) :
    skip (c :: rest) = c :: rest :=
  List.dropWhile_cons_of_neg (by simp [notSpace])

theorem isSpace_eq (c : Char) : isSpace c = Relaxed.isSpace c := by
  unfold isSpace Relaxed.isSpace
  rw [Bool.or_assoc, Bool.or_assoc (decide (c = ' ') || _), Bool.or_comm (decide (c = '\n'))]

theorem skip_blanks (blanks : Blanks) (rest : List Char) :
    skip (blanks.text ++ rest) = skip rest := by
  refine List.dropWhile_append_of_pos fun c member => ?_
  rw [isSpace_eq]
  exact blanks.isSpace member

theorem skip_to {c : Char} (notSpace : isSpace c = false) (blanks : Blanks) (rest : List Char) :
    skip (blanks.text ++ c :: rest) = c :: rest := by
  rw [skip_blanks, skip_cons notSpace]

/-- The first character of a text is not blank and closes nothing. -/
def Begins (text : List Char) : Prop :=
  ∃ c rest, text = c :: rest ∧ isSpace c = false ∧ c ≠ ']'

theorem Begins.skip_eq {text : List Char} (begins : Begins text) : skip text = text := by
  obtain ⟨c, rest, rfl, notSpace, _⟩ := begins
  exact skip_cons notSpace rest

theorem Begins.append {text : List Char} (begins : Begins text) (rest : List Char) :
    Begins (text ++ rest) := by
  obtain ⟨c, more, rfl, first⟩ := begins
  exact ⟨c, more ++ rest, rfl, first⟩

theorem begins_text (value : Layout) : Begins value.text := by
  cases value with
  | atom atom =>
      cases atom with
      | null => exact ⟨'n', _, rfl, by decide, by decide⟩
      | bool value =>
          cases value with
          | true => exact ⟨'t', _, rfl, by decide, by decide⟩
          | false => exact ⟨'f', _, rfl, by decide, by decide⟩
      | number numeral =>
          obtain ⟨c, rest, textIs, starts⟩ := numeral.text_eq_cons
          refine ⟨c, rest, textIs, ?_, ?_⟩
          · rw [isSpace_eq]
            exact (ne_of_numeralStart starts).1
          · rintro rfl
            exact absurd starts (by decide)
  | string body => exact ⟨'"', _, rfl, by decide, by decide⟩
  | empty kind within => cases kind <;> exact ⟨_, _, rfl, by decide, by decide⟩
  | list kind items => cases kind <;> exact ⟨_, _, rfl, by decide, by decide⟩

theorem endsNumber_cons {c : Char} (known : c ∈ [',', ']', '\x7d']) (rest : List Char) :
    EndsNumber (c :: rest) := by
  have none : ∀ d ∈ [',', ']', '\x7d'], d.isDigit = false ∧ d ≠ '.' ∧ d ≠ 'e' ∧ d ≠ 'E' := by simp
  intro d isHead
  cases isHead
  exact none c known

theorem endsNumber_blanks (blanks : Blanks) {rest : List Char} (ends : EndsNumber rest) :
    EndsNumber (blanks.text ++ rest) := by
  have none : ∀ d ∈ [' ', '\t', '\n', '\r'],
      d.isDigit = false ∧ d ≠ '.' ∧ d ≠ 'e' ∧ d ≠ 'E' := by simp
  obtain ⟨text, blank⟩ := blanks
  cases text with
  | nil => exact ends
  | cons c text =>
      intro d isHead
      cases isHead
      exact none c (blank c List.mem_cons_self)

/-- The reader of what an array or an object holds. -/
def readPiece? : (kind : Relaxed.Kind) → Reads Json → Reads kind.Piece
  | .array, value => value
  | .object, value => readMember? value

variable {longest nesting : Nat} {rest text : List Char}

theorem readValue?_quote : readValue? longest nesting ('"' :: rest) =
    (readString? [] rest).map fun (found, after) => (.string found, after) := by
  cases nesting <;> rfl

theorem readValue?_opening (kind : Relaxed.Kind) :
    readValue? longest nesting (kind.opening :: rest) =
    match nesting with
    | 0 => none
    | nesting + 1 =>
        (readList? longest kind.closing (readPiece? kind (readValue? longest nesting)) rest).map
          fun (pieces, after) => (kind.json pieces, after) := by
  cases kind <;> cases nesting <;> rfl

theorem ne_of_starts {c d : Char} (starts : c = '-' ∨ c.isDigit = true)
    (notStart : d ≠ '-' ∧ d.isDigit = false) : c ≠ d := by
  rintro rfl
  rcases starts with isSign | digit
  · exact notStart.1 isSign
  · rw [notStart.2] at digit
    cases digit

theorem readValue?_number {c : Char} (starts : c = '-' ∨ c.isDigit = true) :
    readValue? longest nesting (c :: rest) = readNumber? (c :: rest) := by
  have different {d : Char} (notStart : d ≠ '-' ∧ d.isDigit = false) : c ≠ d :=
    ne_of_starts starts notStart
  rw [readValue?.eq_def]
  dsimp only
  rw [if_neg (different (by decide)), if_neg (different (by decide)),
    if_neg (different (by decide)), if_neg (different (by decide)), if_neg (different (by decide)),
    if_neg (different (by decide))]

section Lists

variable {α : Type} {close : Char} {item : Reads α} {seen : List α}

theorem readList?_close (found : skip text = close :: rest) :
    readList? longest close item text = some ([], rest) := by
  unfold readList?
  rw [found]
  exact if_pos rfl

theorem readList?_item {c : Char} (found : skip text = c :: rest) (notClose : c ≠ close) :
    readList? longest close item text =
      (item (skip text)).bind fun (found, after) => readMore? close item longest [found] after := by
  unfold readList?
  rw [found]
  dsimp only
  rw [if_neg notClose]
  cases item (c :: rest) <;> rfl

theorem readMore?_close (fuel : Nat) (found : skip text = close :: rest) :
    readMore? close item (fuel + 1) seen text = some (seen.reverse, rest) := by
  rw [readMore?, found]
  exact if_pos rfl

theorem readMore?_comma (fuel : Nat) (notComma : ',' ≠ close) (found : skip text = ',' :: rest) :
    readMore? close item (fuel + 1) seen text =
      (item (skip rest)).bind fun (found, after) =>
        readMore? close item fuel (found :: seen) after := by
  rw [readMore?, found]
  dsimp only
  rw [if_neg notComma, if_pos rfl]
  cases item (skip rest) <;> rfl

/-- An item that goes down `first` levels and the rest of its list, which goes down `others`. -/
theorem bind_deepest {β γ : Type} {first others : Nat} {read : β} {found : γ} {next : β → Option γ}
    (goesOn : next read = if others ≤ nesting then some found else none) :
    (if first ≤ nesting then some read else none).bind next =
      if max first others ≤ nesting then some found else none := by
  by_cases shallow : first ≤ nesting
  · rw [if_pos shallow, Option.bind_some, goesOn]
    by_cases restShallow : others ≤ nesting
    · rw [if_pos restShallow, if_pos (Nat.max_le.2 ⟨shallow, restShallow⟩)]
    · rw [if_neg restShallow, if_neg fun both => restShallow (Nat.max_le.1 both).2]
  · rw [if_neg shallow, if_neg fun both => shallow (Nat.max_le.1 both).1]
    rfl

end Lists

/-- An array or an object is read if what it holds is read one level further down. -/
theorem readValue?_pieces {kind : Relaxed.Kind} {pieces : List kind.Piece}
    (read : ∀ n, readList? longest kind.closing (readPiece? kind (readValue? longest n)) text =
      if kind.deepest pieces ≤ n then some (pieces, rest) else none) :
    readValue? longest nesting (kind.opening :: text) =
      if (kind.json pieces).nesting ≤ nesting then some (kind.json pieces, rest) else none := by
  rw [readValue?_opening, kind.nesting_json]
  cases nesting with
  | zero => rfl
  | succ nesting =>
      dsimp only
      rw [read nesting]
      by_cases shallow : kind.deepest pieces ≤ nesting
      · rw [if_pos shallow, if_pos (Nat.succ_le_succ shallow)]
        rfl
      · rw [if_neg shallow, if_neg fun least => shallow (Nat.le_of_succ_le_succ least)]
        rfl

/-- Behind its lead a value is read, and put into its place. -/
theorem readPiece?_lead {kind : Relaxed.Kind} {lead : Lead kind} {document : Json}
    {piece : kind.Piece} (gives : lead.Gives document piece) (begins : Begins text) :
    (∃ c more, skip (lead.text ++ text) = c :: more ∧ c ≠ kind.closing) ∧
    ∀ value : Reads Json, (value text = if document.nesting ≤ nesting then some (document, rest)
        else none) →
      readPiece? kind value (skip (lead.text ++ text)) =
        if kind.depth piece ≤ nesting then some (piece, rest) else none := by
  cases gives with
  | @item before _ =>
      rw [Lead.text, skip_blanks, begins.skip_eq]
      obtain ⟨c, more, textIs, _, notClose⟩ := begins
      exact ⟨⟨c, more, textIs, notClose⟩, fun value read => read⟩
  | @member before gap behind body key _ named =>
      have quoted : skip (Lead.text (.member before (.quoted body) gap behind) ++ text) =
          '"' :: (body.text ++ '"' :: (gap.text ++ ':' :: (behind.text ++ text))) := by
        simp only [Lead.text, Key.text, Body.quoted, List.append_assoc, List.cons_append,
          List.nil_append]
        exact skip_to (by decide) before _
      have colon : skip (gap.text ++ ':' :: (behind.text ++ text)) =
          ':' :: (behind.text ++ text) :=
        skip_to (by decide) gap _
      have valueAt : skip (behind.text ++ text) = text := by
        rw [skip_blanks, begins.skip_eq]
      rw [quoted]
      refine ⟨⟨'"', _, rfl, by decide⟩, fun value read => ?_⟩
      have keyIs : String.ofList ([].reverse ++ key.toList) = key := String.ofList_toList
      simp only [readPiece?, readMember?, named.readString?, keyIs, colon, valueAt, read]
      have depthIs : Relaxed.Kind.depth .object (key, document) = document.nesting := rfl
      rw [depthIs]
      by_cases shallow : document.nesting ≤ nesting
      · rw [if_pos shallow, if_pos shallow]
        rfl
      · rw [if_neg shallow, if_neg shallow]
        rfl

theorem length_text_pos (value : Layout) : 0 < value.text.length := by
  obtain ⟨c, rest, textIs, _⟩ := begins_text value
  rw [textIs]
  exact Nat.succ_pos _

theorem not_isSpace_closing (kind : Relaxed.Kind) : isSpace kind.closing = false := by
  cases kind <;> decide

theorem endsNumber_closing (kind : Relaxed.Kind) (rest : List Char) :
    EndsNumber (kind.closing :: rest) :=
  endsNumber_cons (by cases kind <;> decide) rest

mutual

/-- A layout is read as the document that it stands for, or not read if that nests too deep. -/
theorem readValue?_layout (longest : Nat) : ∀ (layout : Layout) {document : Json} (nesting : Nat)
    {rest : List Char}, layout.StandsFor document → layout.text.length ≤ longest →
    EndsNumber rest →
    readValue? longest nesting (layout.text ++ rest) =
      if document.nesting ≤ nesting then some (document, rest) else none
  | .atom atom, document, nesting, rest, standsFor, _, ends => by
      cases standsFor with
      | null =>
          rw [Json.nesting, if_pos (Nat.zero_le _)]
          cases nesting <;> rfl
      | bool value =>
          rw [Json.nesting, if_pos (Nat.zero_le _)]
          cases value <;> cases nesting <;> rfl
      | @number numeral finite =>
          obtain ⟨c, more, textIs, starts⟩ := numeral.text_eq_cons
          have read := readNumber?_numeral numeral ends finite
          rw [textIs, List.cons_append] at read
          rw [Layout.text, Atom.text, textIs, List.cons_append, readValue?_number starts, read,
            Json.nesting, if_pos (Nat.zero_le _)]
  | .string body, document, nesting, rest, standsFor, _, _ => by
      cases standsFor with
      | string spelled =>
          rw [Layout.text, Body.quoted, List.cons_append, List.append_assoc, List.singleton_append,
            readValue?_quote, spelled.readString?, Json.nesting, if_pos (Nat.zero_le _)]
          simp
  | .empty kind within, document, nesting, rest, standsFor, _, _ => by
      cases standsFor
      have found := skip_to (not_isSpace_closing kind) within rest
      rw [Layout.text, List.cons_append, List.append_assoc, List.singleton_append]
      refine readValue?_pieces fun n => ?_
      rw [readList?_close found, Relaxed.Kind.deepest, if_pos (Nat.zero_le _)]
  | .list kind items, document, nesting, rest, standsFor, short, _ => by
      cases standsFor with
      | list each =>
          simp only [Layout.text, List.length_cons, List.length_append] at short
          rw [Layout.text, List.cons_append, List.append_assoc, List.singleton_append]
          refine readValue?_pieces fun n => ?_
          obtain ⟨⟨c, more, found, notClose⟩, read⟩ :=
            readPieces?_items longest items n longest [] each (by omega) (by omega)
          rw [readList?_item found notClose]
          exact read

/-- What is listed is read from its first lead on, behind what is in `seen`. -/
theorem readPieces?_items (longest : Nat) : ∀ {kind : Relaxed.Kind} (items : Items kind)
    {pieces : List kind.Piece} (nesting fuel : Nat) (seen : List kind.Piece) {rest : List Char},
    items.StandFor pieces → items.text.length ≤ longest → items.text.length ≤ fuel →
    let text := items.text ++ kind.closing :: rest
    let item := readPiece? kind (readValue? longest nesting)
    (∃ c more, skip text = c :: more ∧ c ≠ kind.closing) ∧
    ((item (skip text)).bind fun (found, after) =>
        readMore? kind.closing item fuel (found :: seen) after) =
      if kind.deepest pieces ≤ nesting then some (seen.reverse ++ pieces, rest) else none
  | kind, .last lead value behind, _, nesting, fuel, seen, rest, standFor, short, enough => by
      cases standFor with
      | last gives first =>
          have positive := length_text_pos value
          simp only [Items.text, List.length_append] at short enough
          obtain ⟨fuel, rfl⟩ := Nat.exists_eq_succ_of_ne_zero (show fuel ≠ 0 by omega)
          have readFirst := readValue?_layout longest value nesting first (by omega)
            (endsNumber_blanks behind (endsNumber_closing kind rest))
          obtain ⟨starts, read⟩ := readPiece?_lead gives ((begins_text value).append _)
          have closed := skip_to (not_isSpace_closing kind) behind rest
          simp only [Items.text, List.append_assoc]
          refine ⟨starts, ?_⟩
          rw [read _ readFirst]
          refine bind_deepest ?_
          rw [readMore?_close fuel closed, Relaxed.Kind.deepest, if_pos (Nat.zero_le _)]
          simp
  | kind, .more lead value behind others, _, nesting, fuel, seen, rest, standFor, short,
      enough => by
      cases standFor with
      | more gives first each =>
          have positive := length_text_pos value
          simp only [Items.text, List.length_append, List.length_cons] at short enough
          obtain ⟨fuel, rfl⟩ := Nat.exists_eq_succ_of_ne_zero (show fuel ≠ 0 by omega)
          have ends : EndsNumber (',' :: (others.text ++ kind.closing :: rest)) :=
            endsNumber_cons (by decide) _
          have readFirst := readValue?_layout longest value nesting first (by omega)
            (endsNumber_blanks behind ends)
          obtain ⟨starts, read⟩ := readPiece?_lead gives ((begins_text value).append _)
          have comma : skip (behind.text ++ ',' :: (others.text ++ kind.closing :: rest)) =
              ',' :: (others.text ++ kind.closing :: rest) :=
            skip_to (by decide) behind _
          have notClose : ',' ≠ kind.closing := by cases kind <;> decide
          simp only [Items.text, List.append_assoc, List.cons_append]
          refine ⟨starts, ?_⟩
          rw [read _ readFirst]
          refine bind_deepest ?_
          rw [readMore?_comma fuel notClose comma]
          refine (readPieces?_items longest others nesting fuel _ each ?_ ?_).2.trans ?_
          · omega
          · omega
          rw [List.reverse_cons, List.append_assoc]
          rfl

end

/-- A text that is strict JSON for a document is read as that document, or not at all if the
document nests too deep. -/
theorem read?_of_denotes {text : List Char} {document : Json} (denotes : Denotes text document) :
    read? text = if document.nesting ≤ maxNesting then some document else none := by
  obtain ⟨page, rfl, standsFor⟩ := denotes
  have within : page.value.text.length ≤ page.text.length := by
    simp only [Page.text, List.length_append]
    omega
  have atEnd : EndsNumber [] := fun c isHead => by cases isHead
  have ends : EndsNumber (page.behind.text ++ []) := endsNumber_blanks page.behind atEnd
  have read := readValue?_layout page.text.length page.value maxNesting standsFor within ends
  have start : skip page.text = page.value.text ++ (page.behind.text ++ []) := by
    rw [Page.text, skip_blanks, List.append_nil]
    exact ((begins_text page.value).append _).skip_eq
  unfold read?
  rw [start, read]
  by_cases shallow : document.nesting ≤ maxNesting
  · rw [if_pos shallow, if_pos shallow]
    dsimp only
    rw [skip_blanks]
    rfl
  · rw [if_neg shallow, if_neg shallow]

end Json

end ActorMachine
