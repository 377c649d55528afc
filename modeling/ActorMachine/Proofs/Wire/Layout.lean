import ActorMachine.Proofs.Wire.Scanner

set_option autoImplicit false

/-!
The grammar of relaxed JSON.

A `Page` is a text with its structure: every blank, quote, comma and colon of the text has a place
in it. Pages are strict if all of their keys are quoted. What a page says without its blanks and its
way of spelling keys is its `Document`, in which numbers, words and strings stand as they were
written.
-/

namespace ActorMachine.Relaxed

/-! ### Leaves -/

structure Blanks where
  text : List Char
  blank : ∀ c ∈ text, c ∈ [' ', '\t', '\n', '\r']

def noBlanks : Blanks := ⟨[], List.forall_mem_nil _⟩

@[simp] theorem text_noBlanks : noBlanks.text = [] := rfl

def isHex (c : Char) : Bool := c.isDigit || ('a' ≤ c && c ≤ 'f') || ('A' ≤ c && c ≤ 'F')

/-- The texts that stand between the quotes of a strict string. -/
inductive IsBody : List Char → Prop where
  | nil : IsBody []
  | plain {c : Char} {rest : List Char} (notQuote : c ≠ '"') (notEscape : c ≠ '\\')
      (notControl : 0x20 ≤ c.toNat) (follows : IsBody rest) : IsBody (c :: rest)
  | escape {c : Char} {rest : List Char}
      (known : c ∈ ['"', '\\', '/', 'b', 'f', 'n', 'r', 't']) (follows : IsBody rest) :
      IsBody ('\\' :: c :: rest)
  | unit {digits rest : List Char} (four : digits.length = 4)
      (hex : ∀ c ∈ digits, isHex c = true) (follows : IsBody rest) :
      IsBody ('\\' :: 'u' :: (digits ++ rest))

structure Body where
  text : List Char
  isBody : IsBody text

structure Digits where
  text : List Char
  present : text ≠ []
  allDigits : ∀ c ∈ text, c.isDigit = true

structure Exponent where
  mark : Char
  sign : List Char
  digits : Digits
  isMark : mark ∈ ['e', 'E']
  isSign : sign ∈ [[], ['+'], ['-']]

structure Numeral where
  negative : Bool
  whole : Digits
  fraction : Option Digits
  exponent : Option Exponent
  noLeadingZero : whole.text.head? = some '0' → whole.text = ['0']

inductive Atom where
  | null
  | bool (value : Bool)
  | number (numeral : Numeral)

/-- Only a word can go without quotes. -/
inductive Key where
  | quoted (body : Body)
  | bare (word : List Char) (named : isWord word = true)

def Exponent.text (exponent : Exponent) : List Char :=
  exponent.mark :: (exponent.sign ++ exponent.digits.text)

def Numeral.fractionText (numeral : Numeral) : List Char :=
  match numeral.fraction with
  | some digits => '.' :: digits.text
  | none => []

def Numeral.exponentText (numeral : Numeral) : List Char :=
  match numeral.exponent with
  | some exponent => exponent.text
  | none => []

def Numeral.magnitude (numeral : Numeral) : List Char :=
  numeral.whole.text ++ (numeral.fractionText ++ numeral.exponentText)

def Numeral.text (numeral : Numeral) : List Char :=
  if numeral.negative then '-' :: numeral.magnitude else numeral.magnitude

def Atom.text : Atom → List Char
  | .null => ['n', 'u', 'l', 'l']
  | .bool true => ['t', 'r', 'u', 'e']
  | .bool false => ['f', 'a', 'l', 's', 'e']
  | .number numeral => numeral.text

def Body.quoted (body : Body) : List Char := '"' :: (body.text ++ ['"'])

def Key.text : Key → List Char
  | .quoted body => body.quoted
  | .bare word _ => word

/-- What a key is called, with its quotes or without. -/
def Key.name : Key → List Char
  | .quoted body => body.text
  | .bare word _ => word

/-! ### Pages -/

inductive Kind where
  | array
  | object

def Kind.opening : Kind → Char
  | .array => '['
  | .object => '\x7b'

def Kind.closing : Kind → Char
  | .array => ']'
  | .object => '\x7d'

/-- What comes before a value in an array or an object: blanks, and in an object a key, a colon and
blanks around it. -/
inductive Lead : Kind → Type where
  | item (before : Blanks) : Lead .array
  | member (before : Blanks) (key : Key) (gap behind : Blanks) : Lead .object

mutual

/-- A value with its structure. -/
inductive Layout : Type where
  | atom (atom : Atom)
  | string (body : Body)
  | empty (kind : Kind) (within : Blanks)
  | list (kind : Kind) (items : Items kind)

/-- The values in an array or an object, of which there is at least one. -/
inductive Items : Kind → Type where
  | last {kind : Kind} (lead : Lead kind) (value : Layout) (behind : Blanks) : Items kind
  | more {kind : Kind} (lead : Lead kind) (value : Layout) (behind : Blanks) (rest : Items kind) :
      Items kind

end

structure Page where
  before : Blanks
  value : Layout
  behind : Blanks

def Lead.text : {kind : Kind} → Lead kind → List Char
  | _, .item before => before.text
  | _, .member before key gap behind =>
      before.text ++ (key.text ++ (gap.text ++ ':' :: behind.text))

mutual

def Layout.text : Layout → List Char
  | .atom atom => atom.text
  | .string body => body.quoted
  | .empty kind within => kind.opening :: (within.text ++ [kind.closing])
  | .list kind items => kind.opening :: (items.text ++ [kind.closing])

def Items.text : {kind : Kind} → Items kind → List Char
  | _, .last lead value behind => lead.text ++ (value.text ++ behind.text)
  | _, .more lead value behind rest =>
      lead.text ++ (value.text ++ (behind.text ++ ',' :: rest.text))

end

def Page.text (page : Page) : List Char :=
  page.before.text ++ (page.value.text ++ page.behind.text)

/-! ### Documents -/

inductive Document where
  | atom (text : List Char)
  | string (body : List Char)
  | array (items : List Document)
  | object (members : List (List Char × Document))

/-- What an array or an object is a list of. -/
def Kind.Entry : Kind → Type
  | .array => Document
  | .object => List Char × Document

def Document.ofEntries : (kind : Kind) → List kind.Entry → Document
  | .array, items => .array items
  | .object, members => .object members

def Lead.entry : {kind : Kind} → Lead kind → Document → kind.Entry
  | _, .item _, value => value
  | _, .member _ key _ _, value => (key.name, value)

mutual

def Layout.document : Layout → Document
  | .atom atom => .atom atom.text
  | .string body => .string body.text
  | .empty kind _ => .ofEntries kind []
  | .list kind items => .ofEntries kind items.entries

def Items.entries : {kind : Kind} → Items kind → List kind.Entry
  | _, .last lead value _ => [lead.entry value.document]
  | _, .more lead value _ rest => lead.entry value.document :: rest.entries

end

def Page.document (page : Page) : Document := page.value.document

/-! ### Quotes around keys -/

def Key.isStrict : Key → Bool
  | .quoted _ => true
  | .bare _ _ => false

def Lead.isStrict : {kind : Kind} → Lead kind → Bool
  | _, .item _ => true
  | _, .member _ key _ _ => key.isStrict

mutual

def Layout.isStrict : Layout → Bool
  | .list _ items => items.isStrict
  | _ => true

def Items.isStrict : {kind : Kind} → Items kind → Bool
  | _, .last lead value _ => lead.isStrict && value.isStrict
  | _, .more lead value _ rest => lead.isStrict && value.isStrict && rest.isStrict

end

def Page.isStrict (page : Page) : Bool := page.value.isStrict

/-- The text is strict JSON for the document. -/
def Strict (text : List Char) (document : Document) : Prop :=
  ∃ page : Page, page.isStrict = true ∧ page.text = text ∧ page.document = document

/-- The text is JSON for the document, but for quotes around some of its keys. -/
def Spells (text : List Char) (document : Document) : Prop :=
  ∃ page : Page, page.text = text ∧ page.document = document

mutual

/-- The value with all leads in it put in another way. -/
def Layout.mapLeads (change : (kind : Kind) → Lead kind → Lead kind) : Layout → Layout
  | .atom atom => .atom atom
  | .string body => .string body
  | .empty kind within => .empty kind within
  | .list kind items => .list kind (items.mapLeads change)

def Items.mapLeads (change : (kind : Kind) → Lead kind → Lead kind) :
    {kind : Kind} → Items kind → Items kind
  | kind, .last lead value behind => .last (change kind lead) (value.mapLeads change) behind
  | kind, .more lead value behind rest =>
      .more (change kind lead) (value.mapLeads change) behind (rest.mapLeads change)

end

section MapLeads

variable {change : (kind : Kind) → Lead kind → Lead kind}

mutual

theorem Layout.document_mapLeads
    (named : ∀ kind lead value, (change kind lead).entry value = lead.entry value) :
    ∀ layout : Layout, (layout.mapLeads change).document = layout.document
  | .atom atom => rfl
  | .string body => rfl
  | .empty kind within => rfl
  | .list kind items => by
      rw [Layout.mapLeads, Layout.document, Layout.document, items.entries_mapLeads named]

theorem Items.entries_mapLeads
    (named : ∀ kind lead value, (change kind lead).entry value = lead.entry value) :
    ∀ {kind : Kind} (items : Items kind), (items.mapLeads change).entries = items.entries
  | kind, .last lead value behind => by
      rw [Items.mapLeads, Items.entries, Items.entries, named, value.document_mapLeads named]
  | kind, .more lead value behind rest => by
      rw [Items.mapLeads, Items.entries, Items.entries, named, value.document_mapLeads named,
        rest.entries_mapLeads named]

end

mutual

theorem Layout.isStrict_mapLeads (strict : ∀ kind lead, (change kind lead).isStrict = true) :
    ∀ layout : Layout, (layout.mapLeads change).isStrict = true
  | .atom _ => rfl
  | .string _ => rfl
  | .empty _ _ => rfl
  | .list _ items => items.isStrict_mapLeads strict

theorem Items.isStrict_mapLeads (strict : ∀ kind lead, (change kind lead).isStrict = true) :
    ∀ {kind : Kind} (items : Items kind), (items.mapLeads change).isStrict = true
  | kind, .last lead value behind => by
      rw [Items.mapLeads, Items.isStrict, strict, value.isStrict_mapLeads strict]
      rfl
  | kind, .more lead value behind rest => by
      rw [Items.mapLeads, Items.isStrict, strict, value.isStrict_mapLeads strict,
        rest.isStrict_mapLeads strict]
      rfl

end

mutual

theorem Layout.mapLeads_of_isStrict
    (same : ∀ kind lead, lead.isStrict = true → change kind lead = lead) :
    ∀ {layout : Layout}, layout.isStrict = true → layout.mapLeads change = layout
  | .atom atom, _ => rfl
  | .string body, _ => rfl
  | .empty kind within, _ => rfl
  | .list kind items, strict => by
      rw [Layout.mapLeads, Items.mapLeads_of_isStrict same strict]

theorem Items.mapLeads_of_isStrict
    (same : ∀ kind lead, lead.isStrict = true → change kind lead = lead) :
    ∀ {kind : Kind} {items : Items kind}, items.isStrict = true → items.mapLeads change = items
  | kind, .last lead value behind, strict => by
      obtain ⟨leadStrict, valueStrict⟩ := Bool.and_eq_true_iff.1 strict
      rw [Items.mapLeads, same kind lead leadStrict, Layout.mapLeads_of_isStrict same valueStrict]
  | kind, .more lead value behind rest, strict => by
      obtain ⟨firstStrict, restStrict⟩ := Bool.and_eq_true_iff.1 strict
      obtain ⟨leadStrict, valueStrict⟩ := Bool.and_eq_true_iff.1 firstStrict
      rw [Items.mapLeads, same kind lead leadStrict, Layout.mapLeads_of_isStrict same valueStrict,
        Items.mapLeads_of_isStrict same restStrict]

end

end MapLeads

theorem le_toNat_of_isAlpha {c : Char} (isAlpha : c.isAlpha = true) : 0x41 ≤ c.toNat := by
  have cased : c.isUpper = true ∨ c.isLower = true := Bool.or_eq_true_iff.1 isAlpha
  rcases cased with upper | lower
  · have bounds : c.val ≥ 0x41 ∧ c.val ≤ 0x5a := of_decide_eq_true upper
    exact UInt32.le_iff_toNat_le.1 bounds.1
  · have bounds : (c.val ≥ 0x61 && c.val ≤ 0x7a) = true := lower
    have least : 0x61 ≤ c.val := of_decide_eq_true (Bool.and_eq_true_iff.1 bounds).1
    exact Nat.le_trans (by decide) (UInt32.le_iff_toNat_le.1 least)

theorem bounds_of_isDigit {c : Char} (digit : c.isDigit = true) :
    0x30 ≤ c.toNat ∧ c.toNat ≤ 0x39 := by
  obtain ⟨least, greatest⟩ := Bool.and_eq_true_iff.1 digit
  exact ⟨UInt32.le_iff_toNat_le.1 (of_decide_eq_true least),
    UInt32.le_iff_toNat_le.1 (of_decide_eq_true greatest)⟩

theorem le_toNat_of_isKeyChar {c : Char} (isPart : isKeyChar c = true) : 0x20 ≤ c.toNat := by
  simp only [isKeyChar, Char.isAlphanum, Bool.or_eq_true, decide_eq_true_eq] at isPart
  rcases isPart with (isAlpha | digit) | rfl
  · exact Nat.le_trans (by decide) (le_toNat_of_isAlpha isAlpha)
  · exact Nat.le_trans (by decide) (bounds_of_isDigit digit).1
  · decide

theorem isBody_of_isKeyChar {text : List Char} (parts : ∀ c ∈ text, isKeyChar c = true) :
    IsBody text := by
  induction text with
  | nil => exact .nil
  | cons c text ih =>
      have isPart := parts c List.mem_cons_self
      obtain ⟨notQuote, notEscape⟩ := clean_of_isKeyChar isPart
      exact .plain notQuote notEscape (le_toNat_of_isKeyChar isPart)
        (ih fun d member => parts d (List.mem_cons_of_mem _ member))

/-- The key, put in quotes if it has none. -/
def Key.inQuotes : Key → Key
  | .quoted body => .quoted body
  | .bare word named => .quoted ⟨word, isBody_of_isKeyChar fun _ => isKeyChar_of_mem named⟩

/-- The lead with its key in quotes. -/
def Lead.inQuotes : (kind : Kind) → Lead kind → Lead kind
  | _, .item before => .item before
  | _, .member before key gap behind => .member before key.inQuotes gap behind

/-- The lead with its key in quotes as `quoteKeys` puts them, which leaves no blanks between a bare
key and the colon. -/
def Lead.rewritten : (kind : Kind) → Lead kind → Lead kind
  | _, .item before => .item before
  | _, .member before (.quoted body) gap behind => .member before (.quoted body) gap behind
  | _, .member before (.bare word named) _ behind =>
      .member before (Key.bare word named).inQuotes noBlanks behind

/-- A way to put leads that names the same keys and has quotes around all of them. -/
structure PutsQuotes (change : (kind : Kind) → Lead kind → Lead kind) : Prop where
  named : ∀ kind lead value, (change kind lead).entry value = lead.entry value
  quoted : ∀ kind lead, (change kind lead).isStrict = true

theorem putsQuotes_inQuotes : PutsQuotes Lead.inQuotes := by
  constructor
  · intro kind lead value
    cases lead with
    | item before => rfl
    | member before key gap behind => cases key <;> rfl
  · intro kind lead
    cases lead with
    | item before => rfl
    | member before key gap behind => cases key <;> rfl

theorem putsQuotes_rewritten : PutsQuotes Lead.rewritten := by
  constructor
  · intro kind lead value
    cases lead with
    | item before => rfl
    | member before key gap behind => cases key <;> rfl
  · intro kind lead
    cases lead with
    | item before => rfl
    | member before key gap behind => cases key <;> rfl

def Page.mapLeads (change : (kind : Kind) → Lead kind → Lead kind) (page : Page) : Page :=
  { page with value := page.value.mapLeads change }

theorem PutsQuotes.strict {change : (kind : Kind) → Lead kind → Lead kind}
    (quotes : PutsQuotes change) (page : Page) : Strict (page.mapLeads change).text page.document :=
  ⟨page.mapLeads change, Layout.isStrict_mapLeads quotes.quoted page.value, rfl,
    Layout.document_mapLeads quotes.named page.value⟩

/-- The page with quotes around all of its keys, and otherwise as it was. -/
def Page.inQuotes (page : Page) : Page := page.mapLeads Lead.inQuotes

/-! ### Characters of leaves -/

theorem Blanks.isSpace (blanks : Blanks) {c : Char} (member : c ∈ blanks.text) :
    Relaxed.isSpace c = true := by
  have known : ∀ d ∈ [' ', '\t', '\n', '\r'], Relaxed.isSpace d = true := by
    simp [Relaxed.isSpace]
  exact known c (blanks.blank c member)

theorem Blanks.plain (blanks : Blanks) {c : Char} (member : c ∈ blanks.text) : Plain c :=
  plain_of_isSpace (blanks.isSpace member)

theorem mem_of_isSpace {c : Char} (blank : isSpace c = true) : c ∈ [' ', '\t', '\n', '\r'] := by
  rcases isSpace_iff.1 blank with rfl | rfl | rfl | rfl <;> decide

theorem isKeyChar_of_isDigit {c : Char} (digit : c.isDigit = true) : isKeyChar c = true := by
  rw [isKeyChar, Char.isAlphanum, digit]
  simp

theorem not_isKeyStart_of_isDigit {c : Char} (digit : c.isDigit = true) :
    isKeyStart c = false := by
  have notBar : c ≠ '_' := by
    rintro rfl
    cases digit
  have notAlpha : c.isAlpha = false := by
    cases isAlpha : c.isAlpha with
    | false => rfl
    | true =>
        have above := le_toNat_of_isAlpha isAlpha
        have below := (bounds_of_isDigit digit).2
        omega
  simp [isKeyStart, notAlpha, notBar]

theorem clean_of_isHex {c : Char} (hex : isHex c = true) : c ≠ '"' ∧ c ≠ '\\' := by
  constructor
  · rintro rfl
    exact absurd hex (by decide)
  · rintro rfl
    exact absurd hex (by decide)

theorem IsBody.inside {text : List Char} (isBody : IsBody text) : Inside text := by
  induction isBody with
  | nil => rfl
  | plain notQuote notEscape notControl follows ih =>
      exact (scan_cons notQuote notEscape _ _).trans ih
  | escape known follows ih => exact ih
  | unit four hex follows ih =>
      exact (inside_of_clean fun c member => clean_of_isHex (hex c member)).append ih

/-- The characters of numbers. -/
def IsNumeric (c : Char) : Prop := c.isDigit = true ∨ c ∈ ['-', '+', '.', 'e', 'E']

theorem Exponent.isNumeric {exponent : Exponent} {c : Char} (member : c ∈ exponent.text) :
    IsNumeric c := by
  simp only [Exponent.text, List.mem_cons, List.mem_append] at member
  rcases member with isMark | inSign | inDigits
  · have known : ∀ d ∈ ['e', 'E'], d ∈ ['-', '+', '.', 'e', 'E'] := by simp
    exact .inr (known c (isMark ▸ exponent.isMark))
  · have known : ∀ sign ∈ [[], ['+'], ['-']], ∀ d ∈ sign, d ∈ ['-', '+', '.', 'e', 'E'] := by simp
    exact .inr (known exponent.sign exponent.isSign c inSign)
  · exact .inl (exponent.digits.allDigits c inDigits)

theorem Numeral.isNumeric_magnitude {numeral : Numeral} {c : Char}
    (member : c ∈ numeral.magnitude) : IsNumeric c := by
  simp only [Numeral.magnitude, List.mem_append] at member
  rcases member with inWhole | inFraction | inExponent
  · exact .inl (numeral.whole.allDigits c inWhole)
  · unfold Numeral.fractionText at inFraction
    split at inFraction
    · rename_i digits _
      cases inFraction with
      | head => exact .inr (by decide)
      | tail _ inDigits => exact .inl (digits.allDigits c inDigits)
    · cases inFraction
  · unfold Numeral.exponentText at inExponent
    split at inExponent
    · exact Exponent.isNumeric inExponent
    · cases inExponent

theorem Numeral.isNumeric {numeral : Numeral} {c : Char} (member : c ∈ numeral.text) :
    IsNumeric c := by
  unfold Numeral.text at member
  split at member
  · cases member with
    | head => exact .inr (by decide)
    | tail _ behind => exact isNumeric_magnitude behind
  · exact isNumeric_magnitude member

theorem Atom.plain (atom : Atom) {c : Char} (member : c ∈ atom.text) : Plain c := by
  cases atom with
  | null =>
      have known : ∀ d ∈ Atom.null.text, Plain d := by
        simp [Atom.text, Plain, Opens]
      exact known c member
  | bool value =>
      have known : ∀ d ∈ (Atom.bool value).text, Plain d := by
        cases value <;> simp [Atom.text, Plain, Opens]
      exact known c member
  | number numeral =>
      rcases Numeral.isNumeric member with digit | isMark
      · exact plain_of_isKeyChar (isKeyChar_of_isDigit digit)
      · have known : ∀ d ∈ ['-', '+', '.', 'e', 'E'], Plain d := by simp [Plain, Opens]
        exact known c isMark

theorem Numeral.magnitude_eq_cons (numeral : Numeral) :
    ∃ c rest, numeral.magnitude = c :: rest ∧ c.isDigit = true := by
  obtain ⟨c, rest, wholeIs⟩ := List.exists_cons_of_ne_nil numeral.whole.present
  refine ⟨c, rest ++ (numeral.fractionText ++ numeral.exponentText), ?_, ?_⟩
  · rw [Numeral.magnitude, wholeIs, List.cons_append]
  · exact numeral.whole.allDigits c (by rw [wholeIs]; exact List.mem_cons_self)

/-- A number starts with its sign or with a digit. -/
theorem Numeral.text_eq_cons (numeral : Numeral) :
    ∃ c rest, numeral.text = c :: rest ∧ (c = '-' ∨ c.isDigit = true) := by
  unfold Numeral.text
  split
  · exact ⟨'-', _, rfl, .inl rfl⟩
  · obtain ⟨c, rest, magnitudeIs, digit⟩ := numeral.magnitude_eq_cons
    exact ⟨c, rest, magnitudeIs, .inr digit⟩

theorem ne_of_numeralStart {c : Char} (starts : c = '-' ∨ c.isDigit = true) :
    isSpace c = false ∧ isKeyStart c = false ∧ c ≠ '"' := by
  rcases starts with rfl | digit
  · decide
  · have isPart := isKeyChar_of_isDigit digit
    exact ⟨not_isSpace_of_isKeyChar isPart, not_isKeyStart_of_isDigit digit,
      (clean_of_isKeyChar isPart).1⟩

theorem Kind.opening_ne (kind : Kind) : isSpace kind.opening = false ∧
    isKeyStart kind.opening = false ∧ kind.opening ≠ '"' := by
  cases kind <;> decide

/-- A value starts with a character that is not blank, and with a quote only if it is a string. -/
theorem Layout.text_eq_cons (value : Layout) : ∃ c rest, value.text = c :: rest ∧
    isSpace c = false ∧ (c = '"' → ∃ body, value = .string body) := by
  cases value with
  | atom atom =>
      cases atom with
      | null => exact ⟨'n', _, rfl, by decide, fun same => absurd same (by decide)⟩
      | bool value =>
          cases value with
          | true => exact ⟨'t', _, rfl, by decide, fun same => absurd same (by decide)⟩
          | false => exact ⟨'f', _, rfl, by decide, fun same => absurd same (by decide)⟩
      | number numeral =>
          obtain ⟨c, rest, textIs, starts⟩ := numeral.text_eq_cons
          obtain ⟨notSpace, _, notQuote⟩ := ne_of_numeralStart starts
          exact ⟨c, rest, textIs, notSpace, fun same => absurd same notQuote⟩
  | string body => exact ⟨'"', _, rfl, by decide, fun _ => ⟨body, rfl⟩⟩
  | empty kind within =>
      obtain ⟨notSpace, _, notQuote⟩ := kind.opening_ne
      exact ⟨kind.opening, _, rfl, notSpace, fun same => absurd same notQuote⟩
  | list kind items =>
      obtain ⟨notSpace, _, notQuote⟩ := kind.opening_ne
      exact ⟨kind.opening, _, rfl, notSpace, fun same => absurd same notQuote⟩

end ActorMachine.Relaxed
