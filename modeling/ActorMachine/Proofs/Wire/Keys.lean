import ActorMachine.Proofs.Wire.Layout

set_option autoImplicit false

/-!
What quoting keys accepts.

A page is rewritten with its keys in quotes (`Page.quoteKeys_text`), so relaxed JSON becomes strict
JSON for the same document. The other way round a strict page is followed back through the scanner.
The scanner could only mislead at a quote that nothing closes: there the first key that it puts in
quotes closes the string, and then a letter comes right behind a string, where no page has one
(`eq_of_quoteKeys_string`). Main statement: `quoteKeys_exact`.
-/

namespace ActorMachine.Relaxed

/-! ### Pages are rewritten -/

/-- What can stand behind a value in an array or an object, and the blanks behind it. -/
structure Separates (c : Char) : Prop where
  notSpace : isSpace c = false
  notPart : isKeyChar c = false
  notColon : c ≠ ':'

theorem separates_comma : Separates ',' := by
  constructor <;> decide

theorem Kind.separates_closing (kind : Kind) : Separates kind.closing := by
  cases kind <;> constructor <;> decide

/-- A value in an array is not taken for a key. -/
theorem bareKey?_value {before behind rest : List Char} {c : Char} (value : Layout)
    (beforeBlank : ∀ d ∈ before, isSpace d = true) (behindBlank : ∀ d ∈ behind, isSpace d = true)
    (separates : Separates c) :
    bareKey? (before ++ (value.text ++ (behind ++ c :: rest))) = none := by
  have ofWord (word : List Char) (named : isWord word = true) :
      bareKey? (before ++ (word ++ (behind ++ c :: rest))) = none := by
    rw [bareKey?_word beforeBlank named behindBlank separates.notSpace separates.notPart,
      if_neg separates.notColon]
  cases value with
  | atom atom =>
      cases atom with
      | null => exact ofWord _ (by decide)
      | bool value => exact ofWord _ (by cases value <;> decide)
      | number numeral =>
          obtain ⟨d, rest, textIs, starts⟩ := numeral.text_eq_cons
          obtain ⟨notSpace, notStart, _⟩ := ne_of_numeralStart starts
          rw [Layout.text, Atom.text, textIs]
          exact bareKey?_eq_none beforeBlank notSpace notStart
  | string body => exact bareKey?_eq_none beforeBlank (by decide) (by decide)
  | empty kind within =>
      obtain ⟨notSpace, notStart, _⟩ := kind.opening_ne
      exact bareKey?_eq_none beforeBlank notSpace notStart
  | list kind items =>
      obtain ⟨notSpace, notStart, _⟩ := kind.opening_ne
      exact bareKey?_eq_none beforeBlank notSpace notStart

/-- What stands before the values of an array or an object. -/
def Kind.Starts (kind : Kind) (c : Char) : Prop := c = kind.opening ∨ c = ','

theorem Kind.plain_closing (kind : Kind) : Plain kind.closing := by
  cases kind <;> decide

theorem Body.quoteKeys_quoted (body : Body) (rest : List Char) :
    quoteKeys (body.quoted ++ rest) = body.quoted ++ quoteKeys rest := by
  rw [Body.quoted, List.cons_append, List.append_assoc, List.cons_append, List.nil_append,
    quoteKeys_inside body.isBody.inside]
  simp

theorem quoteKeys_lead {kind : Kind} {c d : Char} {rest : List Char} (starts : kind.Starts c)
    (lead : Lead kind) (value : Layout) (behind : Blanks) (separates : Separates d) :
    quoteKeys (c :: (lead.text ++ (value.text ++ (behind.text ++ d :: rest)))) =
      c :: ((Lead.rewritten kind lead).text ++
        quoteKeys (value.text ++ (behind.text ++ d :: rest))) := by
  cases lead with
  | item before =>
      have step : quoteKeys (c :: (before.text ++ (value.text ++ (behind.text ++ d :: rest)))) =
          c :: quoteKeys (before.text ++ (value.text ++ (behind.text ++ d :: rest))) := by
        rcases starts with isOpening | isComma
        · exact quoteKeys_plain (by rw [isOpening]; decide)
        · exact quoteKeys_noKey (.inr isComma)
            (bareKey?_value value (fun _ => before.isSpace) (fun _ => behind.isSpace) separates)
      rw [Lead.rewritten, Lead.text, step, quoteKeys_append_plain fun _ => before.plain]
  | member before key gap after =>
      have opens : Opens c := starts
      simp only [Lead.text, List.append_assoc, List.cons_append]
      cases key with
      | quoted body =>
          simp only [Lead.rewritten, Key.text, List.append_assoc, List.cons_append]
          rw [quoteKeys_noKey opens, quoteKeys_append_plain fun _ => before.plain,
            body.quoteKeys_quoted, quoteKeys_append_plain fun _ => gap.plain,
            quoteKeys_plain plain_colon, quoteKeys_append_plain fun _ => after.plain]
          exact bareKey?_eq_none (fun _ => before.isSpace) (by decide) (by decide)
      | bare word named =>
          have found (rest : List Char) :
              bareKey? (before.text ++ (word ++ (gap.text ++ ':' :: rest))) =
                some (before.text, word, rest) :=
            KeyAt.bareKey?_eq ⟨rfl, fun _ => before.isSpace, named, fun _ => gap.isSpace⟩
          rw [Key.text, quoteKeys_key opens (found _), quoteKeys_append_plain fun _ => after.plain]
          simp [Lead.rewritten, Key.text, Key.inQuotes, Body.quoted]

theorem quoteKeys_empty (kind : Kind) (within : Blanks) (rest : List Char) :
    quoteKeys (kind.opening :: (within.text ++ kind.closing :: rest)) =
      kind.opening :: (within.text ++ kind.closing :: quoteKeys rest) := by
  have step : quoteKeys (kind.opening :: (within.text ++ kind.closing :: rest)) =
      kind.opening :: quoteKeys (within.text ++ kind.closing :: rest) := by
    cases kind with
    | array => exact quoteKeys_plain (by decide)
    | object =>
        refine quoteKeys_noKey (.inl rfl) ?_
        exact bareKey?_eq_none (fun _ => within.isSpace) (by decide) (by decide)
  rw [step, quoteKeys_append_plain fun _ => within.plain, quoteKeys_plain kind.plain_closing]

mutual

theorem Layout.quoteKeys_text : ∀ (value : Layout) (rest : List Char),
    quoteKeys (value.text ++ rest) = (value.mapLeads Lead.rewritten).text ++ quoteKeys rest
  | .atom atom, rest => quoteKeys_append_plain (fun _ => atom.plain) rest
  | .string body, rest => body.quoteKeys_quoted rest
  | .empty kind within, rest => by
      simpa [Layout.mapLeads, Layout.text] using quoteKeys_empty kind within rest
  | .list kind items, rest => by
      simpa [Layout.mapLeads, Layout.text] using items.quoteKeys_text (.inl rfl) rest

theorem Items.quoteKeys_text : ∀ {kind : Kind} (items : Items kind) {c : Char},
    kind.Starts c → ∀ rest : List Char,
    quoteKeys (c :: (items.text ++ kind.closing :: rest)) =
      c :: ((items.mapLeads Lead.rewritten).text ++ kind.closing :: quoteKeys rest)
  | kind, .last lead value behind, c, starts, rest => by
      simp only [Items.text, Items.mapLeads, List.append_assoc]
      rw [quoteKeys_lead starts lead value behind kind.separates_closing, value.quoteKeys_text,
        quoteKeys_append_plain fun _ => behind.plain, quoteKeys_plain kind.plain_closing]
  | kind, .more lead value behind items, c, starts, rest => by
      simp only [Items.text, Items.mapLeads, List.append_assoc, List.cons_append]
      rw [quoteKeys_lead starts lead value behind separates_comma, value.quoteKeys_text,
        quoteKeys_append_plain fun _ => behind.plain, items.quoteKeys_text (.inr rfl)]

end

/-- The page as it stands after its keys were quoted. -/
def Page.rewritten (page : Page) : Page := page.mapLeads Lead.rewritten

theorem Page.quoteKeys_text (page : Page) : quoteKeys page.text = page.rewritten.text := by
  have behindCopied : quoteKeys page.behind.text = page.behind.text := by
    simpa using quoteKeys_append_plain (fun _ => page.behind.plain) []
  rw [Page.text, quoteKeys_append_plain fun _ => page.before.plain, page.value.quoteKeys_text,
    behindCopied]
  rfl

theorem Strict.quoteKeys_eq {text : List Char} {document : Document}
    (strict : Strict text document) : quoteKeys text = text := by
  obtain ⟨page, isStrict, rfl, _⟩ := strict
  have same : page.value.mapLeads Lead.rewritten = page.value := by
    refine Layout.mapLeads_of_isStrict ?_ isStrict
    intro kind lead leadStrict
    cases lead with
    | item before => rfl
    | member before key gap behind =>
        cases key with
        | quoted body => rfl
        | bare word named => cases leadStrict
  rw [page.quoteKeys_text, Page.rewritten, Page.mapLeads, same]

/-! ### Pages are recovered -/

/-- The text does not go on with a word. -/
def NoWord (text : List Char) : Prop := ∀ c, text.head? = some c → isKeyStart c = false

theorem noWord_nil : NoWord [] := nofun

theorem noWord_cons {c : Char} (notStart : isKeyStart c = false) (rest : List Char) :
    NoWord (c :: rest) := by
  intro d isHead
  cases isHead
  exact notStart

theorem Blanks.noWord (blanks : Blanks) {rest : List Char} (follows : NoWord rest) :
    NoWord (blanks.text ++ rest) := by
  cases textIs : blanks.text with
  | nil => exact follows
  | cons c more =>
      have blank : Relaxed.isSpace c = true :=
        blanks.isSpace (by rw [textIs]; exact List.mem_cons_self)
      exact noWord_cons (not_isKeyStart_of_isSpace blank) _

theorem Blanks.eq_of_cons (blanks : Blanks) {c d : Char} {rest out : List Char}
    (notSpace : Relaxed.isSpace c = false) (same : c :: rest = blanks.text ++ d :: out) :
    c = d ∧ rest = out := by
  cases textIs : blanks.text with
  | nil =>
      rw [textIs] at same
      exact List.cons.inj same
  | cons first more =>
      rw [textIs] at same
      have blank : Relaxed.isSpace first = true :=
        blanks.isSpace (by rw [textIs]; exact List.mem_cons_self)
      rw [← (List.cons.inj same).1, notSpace] at blank
      cases blank

/-- Blanks end in one place only. -/
theorem blanks_unique {left right leftRest rightRest : List Char} {c d : Char}
    (leftBlank : ∀ e ∈ left, isSpace e = true) (rightBlank : ∀ e ∈ right, isSpace e = true)
    (leftStops : isSpace c = false) (rightStops : isSpace d = false)
    (same : left ++ c :: leftRest = right ++ d :: rightRest) :
    left = right ∧ c = d ∧ leftRest = rightRest := by
  have taken := congrArg (List.takeWhile isSpace) same
  have dropped := congrArg (List.dropWhile isSpace) same
  rw [takeWhile_until leftBlank leftStops, takeWhile_until rightBlank rightStops] at taken
  rw [dropWhile_until leftBlank leftStops, dropWhile_until rightBlank rightStops] at dropped
  exact ⟨taken, List.cons.inj dropped⟩

/-- A string in the rewritten text was in the text, unless a word follows it. -/
theorem eq_of_quoteKeys_string {text body out : List Char} (inside : Inside body)
    (noWord : NoWord out) (quoted : quoteKeys text = '"' :: (body ++ '"' :: out)) :
    ∃ rest, text = '"' :: (body ++ '"' :: rest) ∧ quoteKeys rest = out := by
  obtain ⟨rest, rfl⟩ := eq_cons_of_quoteKeys quoted
  rcases closed_or_unclosed rest with ⟨other, after, rfl, otherInside⟩ | ⟨ends, unclosed⟩
  · rw [quoteKeys_inside otherInside] at quoted
    obtain ⟨rfl, afterIs⟩ := otherInside.unique inside (List.cons.inj quoted).2
    exact ⟨after, rfl, afterIs⟩
  · rw [quoteKeys_unread unclosed] at quoted
    have restQuoted := (List.cons.inj quoted).2
    rcases quoteKeys_unclosed unclosed with same | ⟨before, word, gap, after, first⟩
    · rw [← same, restQuoted, inside.scan_quote] at unclosed
      cases unclosed
    · have beforeInside : Inside before := first.before_inside
      rw [first.quoted_eq] at restQuoted
      obtain ⟨_, outIs⟩ := beforeInside.unique inside restQuoted
      cases word with
      | nil => cases first.word_isWord
      | cons c word =>
          have starts := (Bool.and_eq_true_iff.1 first.word_isWord).1
          rw [noWord c (by rw [← outIs]; rfl)] at starts
          cases starts

/-- A quoted key stands before no value of an array. -/
theorem no_key_in_array {before behind : Blanks} {spaces word rest out : List Char} {c : Char}
    (value : Layout) (spacesBlank : ∀ d ∈ spaces, isSpace d = true) (named : isWord word = true)
    (separates : Separates c)
    (same : spaces ++ '"' :: (word ++ '"' :: ':' :: rest) =
      before.text ++ (value.text ++ (behind.text ++ c :: out))) : False := by
  obtain ⟨d, tail, textIs, notSpace, ofQuote⟩ := value.text_eq_cons
  rw [textIs, List.cons_append] at same
  obtain ⟨_, isQuote, sameRest⟩ :=
    blanks_unique spacesBlank (fun _ => before.isSpace) (by decide) notSpace same
  obtain ⟨body, rfl⟩ := ofQuote isQuote.symm
  have tailIs : tail = body.text ++ ['"'] := (List.cons.inj textIs).2.symm
  rw [tailIs] at sameRest
  simp only [List.append_assoc, List.cons_append, List.nil_append] at sameRest
  obtain ⟨_, afterIs⟩ := (inside_of_isWord named).unique body.isBody.inside sameRest
  exact separates.notColon (behind.eq_of_cons (by decide) afterIs).1.symm

theorem lead_of_quoteKeys {kind : Kind} {c d : Char} {text out : List Char} (starts : kind.Starts c)
    {lead : Lead kind} (strict : lead.isStrict = true) (value : Layout) (behind : Blanks)
    (separates : Separates d)
    (quoted : quoteKeys (c :: text) =
      c :: (lead.text ++ (value.text ++ (behind.text ++ d :: out)))) :
    ∃ (found : Lead kind) (rest : List Char), text = found.text ++ rest ∧
      quoteKeys rest = value.text ++ (behind.text ++ d :: out) ∧
      ∀ document, found.entry document = lead.entry document := by
  cases lead with
  | item before =>
      have step : quoteKeys text = before.text ++ (value.text ++ (behind.text ++ d :: out)) := by
        rcases starts with isOpening | isComma
        · rw [quoteKeys_plain (by rw [isOpening]; decide)] at quoted
          exact (List.cons.inj quoted).2
        · cases read : bareKey? text with
          | none =>
              rw [quoteKeys_noKey (.inr isComma) read] at quoted
              exact (List.cons.inj quoted).2
          | some key =>
              obtain ⟨gap, found⟩ := keyAt_of_bareKey? read
              rw [quoteKeys_key (.inr isComma) read] at quoted
              exact (no_key_in_array value found.spaces_blank found.word_isWord separates
                (List.cons.inj quoted).2).elim
      obtain ⟨rest, rfl, restIs⟩ := eq_append_of_quoteKeys (fun _ => before.plain) step
      exact ⟨.item before, rest, rfl, restIs, fun _ => rfl⟩
  | member before key gap after =>
      have opens : Opens c := starts
      cases key with
      | bare word named => cases strict
      | quoted body =>
          simp only [Lead.text, Key.text, Body.quoted, List.append_assoc, List.cons_append,
            List.nil_append] at quoted
          cases read : bareKey? text with
          | none =>
              rw [quoteKeys_noKey opens read] at quoted
              obtain ⟨inner, rfl, innerIs⟩ :=
                eq_append_of_quoteKeys (fun _ => before.plain) (List.cons.inj quoted).2
              obtain ⟨more, rfl, moreIs⟩ := eq_of_quoteKeys_string body.isBody.inside
                (gap.noWord (noWord_cons (by decide) _)) innerIs
              obtain ⟨colon, rfl, colonIs⟩ := eq_append_of_quoteKeys (fun _ => gap.plain) moreIs
              obtain ⟨last, rfl⟩ := eq_cons_of_quoteKeys colonIs
              rw [quoteKeys_plain plain_colon] at colonIs
              obtain ⟨rest, rfl, restIs⟩ :=
                eq_append_of_quoteKeys (fun _ => after.plain) (List.cons.inj colonIs).2
              refine ⟨.member before (.quoted body) gap after, rest, ?_, restIs, fun _ => rfl⟩
              simp [Lead.text, Key.text, Body.quoted]
          | some key =>
              obtain ⟨spaces, word, inner⟩ := key
              obtain ⟨keyGap, found⟩ := keyAt_of_bareKey? read
              rw [quoteKeys_key opens read] at quoted
              obtain ⟨rfl, _, sameKey⟩ := blanks_unique found.spaces_blank (fun _ => before.isSpace)
                (by decide) (by decide) (List.cons.inj quoted).2
              obtain ⟨rfl, sameGap⟩ :=
                (inside_of_isWord found.word_isWord).unique body.isBody.inside sameKey
              have innerIs := (gap.eq_of_cons (by decide) sameGap).2
              obtain ⟨rest, rfl, restIs⟩ := eq_append_of_quoteKeys (fun _ => after.plain) innerIs
              refine ⟨.member before (.bare body.text found.word_isWord)
                ⟨keyGap, fun c member => mem_of_isSpace (found.gap_blank c member)⟩ after, rest, ?_,
                restIs, fun _ => rfl⟩
              exact found.text_eq.trans (by simp [Lead.text, Key.text])

theorem Kind.closing_not_isKeyStart (kind : Kind) : isKeyStart kind.closing = false := by
  cases kind <;> decide

theorem eq_of_quoteKeys_empty {kind : Kind} {within : Blanks} {text out : List Char}
    (quoted : quoteKeys text = kind.opening :: (within.text ++ kind.closing :: out)) :
    ∃ rest, text = kind.opening :: (within.text ++ kind.closing :: rest) ∧
      quoteKeys rest = out := by
  obtain ⟨inner, rfl⟩ := eq_cons_of_quoteKeys quoted
  have step : quoteKeys inner = within.text ++ kind.closing :: out := by
    cases kind with
    | array =>
        rw [quoteKeys_plain (by decide)] at quoted
        exact (List.cons.inj quoted).2
    | object =>
        have opens : Opens Kind.object.opening := .inl rfl
        cases read : bareKey? inner with
        | none =>
            rw [quoteKeys_noKey opens read] at quoted
            exact (List.cons.inj quoted).2
        | some key =>
            obtain ⟨gap, found⟩ := keyAt_of_bareKey? read
            rw [quoteKeys_key opens read] at quoted
            obtain ⟨_, isQuote, _⟩ := blanks_unique found.spaces_blank (fun _ => within.isSpace)
              (by decide) (by decide) (List.cons.inj quoted).2
            exact absurd isQuote (by decide)
  obtain ⟨closed, rfl, closedIs⟩ := eq_append_of_quoteKeys (fun _ => within.plain) step
  obtain ⟨rest, rfl⟩ := eq_cons_of_quoteKeys closedIs
  rw [quoteKeys_plain kind.plain_closing] at closedIs
  exact ⟨rest, rfl, (List.cons.inj closedIs).2⟩

mutual

theorem Layout.of_quoteKeys : ∀ {value : Layout} {text out : List Char}, value.isStrict = true →
    NoWord out → quoteKeys text = value.text ++ out →
    ∃ (found : Layout) (rest : List Char), text = found.text ++ rest ∧ quoteKeys rest = out ∧
      found.document = value.document
  | .atom atom, text, out, _, _, quoted => by
      obtain ⟨rest, textIs, restIs⟩ := eq_append_of_quoteKeys (fun _ => atom.plain) quoted
      exact ⟨.atom atom, rest, textIs, restIs, rfl⟩
  | .string body, text, out, _, noWord, quoted => by
      rw [Layout.text, Body.quoted, List.cons_append, List.append_assoc] at quoted
      obtain ⟨rest, rfl, restIs⟩ := eq_of_quoteKeys_string body.isBody.inside noWord quoted
      exact ⟨.string body, rest, by simp [Layout.text, Body.quoted], restIs, rfl⟩
  | .empty kind within, text, out, _, _, quoted => by
      rw [Layout.text, List.cons_append, List.append_assoc] at quoted
      obtain ⟨rest, rfl, restIs⟩ := eq_of_quoteKeys_empty quoted
      exact ⟨.empty kind within, rest, by simp [Layout.text], restIs, rfl⟩
  | .list kind items, text, out, strict, _, quoted => by
      rw [Layout.text, List.cons_append, List.append_assoc] at quoted
      obtain ⟨inner, rfl⟩ := eq_cons_of_quoteKeys quoted
      obtain ⟨found, rest, rfl, restIs, same⟩ := Items.of_quoteKeys strict (.inl rfl) quoted
      refine ⟨.list kind found, rest, by simp [Layout.text], restIs, ?_⟩
      rw [Layout.document, Layout.document, same]

theorem Items.of_quoteKeys : ∀ {kind : Kind} {items : Items kind} {c : Char} {text out : List Char},
    items.isStrict = true → kind.Starts c →
    quoteKeys (c :: text) = c :: (items.text ++ kind.closing :: out) →
    ∃ (found : Items kind) (rest : List Char), text = found.text ++ kind.closing :: rest ∧
      quoteKeys rest = out ∧ found.entries = items.entries
  | kind, .last lead value behind, c, text, out, strict, starts, quoted => by
      obtain ⟨leadStrict, valueStrict⟩ := Bool.and_eq_true_iff.1 strict
      simp only [Items.text, List.append_assoc] at quoted
      obtain ⟨foundLead, afterLead, rfl, afterLeadIs, sameLead⟩ :=
        lead_of_quoteKeys starts leadStrict value behind kind.separates_closing quoted
      obtain ⟨foundValue, afterValue, rfl, afterValueIs, sameValue⟩ :=
        Layout.of_quoteKeys valueStrict
          (behind.noWord (noWord_cons kind.closing_not_isKeyStart out)) afterLeadIs
      obtain ⟨closed, rfl, closedIs⟩ := eq_append_of_quoteKeys (fun _ => behind.plain) afterValueIs
      obtain ⟨rest, rfl⟩ := eq_cons_of_quoteKeys closedIs
      rw [quoteKeys_plain kind.plain_closing] at closedIs
      refine ⟨.last foundLead foundValue behind, rest, by simp [Items.text],
        (List.cons.inj closedIs).2, ?_⟩
      rw [Items.entries, Items.entries, sameLead, sameValue]
  | kind, .more lead value behind items, c, text, out, strict, starts, quoted => by
      obtain ⟨firstStrict, restStrict⟩ := Bool.and_eq_true_iff.1 strict
      obtain ⟨leadStrict, valueStrict⟩ := Bool.and_eq_true_iff.1 firstStrict
      simp only [Items.text, List.append_assoc, List.cons_append] at quoted
      obtain ⟨foundLead, afterLead, rfl, afterLeadIs, sameLead⟩ :=
        lead_of_quoteKeys starts leadStrict value behind separates_comma quoted
      obtain ⟨foundValue, afterValue, rfl, afterValueIs, sameValue⟩ :=
        Layout.of_quoteKeys valueStrict (behind.noWord (noWord_cons (by decide) _)) afterLeadIs
      obtain ⟨more, rfl, moreIs⟩ := eq_append_of_quoteKeys (fun _ => behind.plain) afterValueIs
      obtain ⟨next, rfl⟩ := eq_cons_of_quoteKeys moreIs
      obtain ⟨foundItems, rest, rfl, restIs, sameItems⟩ :=
        Items.of_quoteKeys restStrict (.inr rfl) moreIs
      refine ⟨.more foundLead foundValue behind foundItems, rest, by simp [Items.text], restIs, ?_⟩
      rw [Items.entries, Items.entries, sameLead, sameValue, sameItems]

end

/-- Quoting keys accepts exactly relaxed JSON.

A text becomes strict JSON for a document exactly when it is JSON for that document but for quotes
around some of its keys. Of a page it makes strict JSON for the document that the page with all its
keys in quotes is strict JSON for. It leaves strict JSON alone, and what it has made of any text. -/
theorem quoteKeys_exact (text : List Char) :
    (∀ document, Strict (quoteKeys text) document ↔ Spells text document) ∧
    (∀ page : Page, page.text = text →
      Strict page.inQuotes.text page.document ∧ Strict (quoteKeys text) page.document) ∧
    ((∃ document, Strict text document) → quoteKeys text = text) ∧
    quoteKeys (quoteKeys text) = quoteKeys text := by
  have strict_of_page (page : Page) (textIs : page.text = text) :
      Strict (quoteKeys text) page.document := by
    rw [← textIs, page.quoteKeys_text]
    exact putsQuotes_rewritten.strict page
  refine ⟨?_, ?_, ?_, quoteKeys_quoteKeys text⟩
  · intro document
    constructor
    · intro ⟨page, isStrict, quoted, documentIs⟩
      obtain ⟨inner, rfl, innerIs⟩ :=
        eq_append_of_quoteKeys (fun _ => page.before.plain) quoted.symm
      have ends : NoWord page.behind.text := by
        simpa using page.behind.noWord noWord_nil
      obtain ⟨found, rest, rfl, restIs, same⟩ := Layout.of_quoteKeys isStrict ends innerIs
      have restIsBehind : rest = page.behind.text := by
        obtain ⟨after, afterIs, none⟩ := eq_append_of_quoteKeys (fun _ => page.behind.plain)
          (restIs.trans (List.append_nil _).symm)
        rw [afterIs, eq_nil_of_quoteKeys none, List.append_nil]
      refine ⟨⟨page.before, found, page.behind⟩, by rw [restIsBehind]; rfl, ?_⟩
      exact same.trans documentIs
    · intro ⟨page, textIs, documentIs⟩
      rw [← documentIs]
      exact strict_of_page page textIs
  · intro page textIs
    exact ⟨putsQuotes_inQuotes.strict page, strict_of_page page textIs⟩
  · intro ⟨document, strict⟩
    exact strict.quoteKeys_eq

end ActorMachine.Relaxed
