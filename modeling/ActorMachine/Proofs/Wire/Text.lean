import ActorMachine.Proofs.Store.Encoding
import ActorMachine.Proofs.Wire.Documents
import ActorMachine.Wire

set_option autoImplicit false

/-!
The text of a wire datum.

The writer puts a wire datum behind the text so far; `Wire.text` is what it puts there. That is
strict JSON for the document that `Wire.json` gives. Main statements: `toList_write` and
`denotes_write`.
-/

namespace ActorMachine.Wire

def quotedText (text : String) : List Char := '"' :: (text.toList.flatMap escape ++ ['"'])

mutual

def text : Wire → List Char
  | .number x => x.wireText.toList
  | .symbol name => quotedText name
  | .list items => '[' :: (itemsText items ++ [']'])
  | .string text => '\x7b' :: '"' :: 's' :: '"' :: ':' :: (quotedText text ++ ['\x7d'])
  | .dotted items => '\x7b' :: '"' :: 'd' :: '"' :: ':' :: '[' :: (itemsText items ++ [']', '\x7d'])

def itemsText : List Wire → List Char
  | [] => []
  | item :: rest => item.text ++ moreText rest

def moreText : List Wire → List Char
  | [] => []
  | item :: rest => ',' :: (item.text ++ moreText rest)

end

theorem toList_writeString (out text : String) :
    (writeString out text).toList = out.toList ++ quotedText text := by
  rw [writeString, String.toList_push, Store.toList_foldl_escape, String.toList_push, quotedText]
  simp

mutual

theorem toList_writeTo : ∀ (wire : Wire) (out : String),
    (writeTo out wire).toList = out.toList ++ wire.text
  | .number x, out => by rw [writeTo, String.toList_append, text]
  | .symbol name, out => by rw [writeTo, toList_writeString, text]
  | .list items, out => by
      rw [writeTo, String.toList_push, toList_writeItems, String.toList_push, text]
      simp
  | .string text, out => by
      rw [writeTo, String.toList_push, toList_writeString, String.toList_append, Wire.text]
      simp
  | .dotted items, out => by
      rw [writeTo, String.toList_append, toList_writeItems, String.toList_append, text]
      simp

theorem toList_writeItems : ∀ (items : List Wire) (out : String),
    (writeItems out items).toList = out.toList ++ itemsText items
  | [], out => by rw [writeItems, itemsText, List.append_nil]
  | item :: rest, out => by
      rw [writeItems, toList_writeMore, toList_writeTo, itemsText, List.append_assoc]

theorem toList_writeMore : ∀ (items : List Wire) (out : String),
    (writeMore out items).toList = out.toList ++ moreText items
  | [], out => by rw [writeMore, moreText, List.append_nil]
  | item :: rest, out => by
      rw [writeMore, toList_writeMore, toList_writeTo, String.toList_push, moreText]
      simp

end

theorem toList_write (wire : Wire) : wire.write.toList = wire.text := by
  rw [write, toList_writeTo]
  rfl

/-! ### Documents -/

mutual

/-- How many arrays and objects enclose each other in the text. -/
def nesting : Wire → Nat
  | .number _ => 0
  | .symbol _ => 0
  | .list items => deepest items + 1
  | .string _ => 1
  | .dotted items => deepest items + 2

def deepest : List Wire → Nat
  | [] => 0
  | item :: rest => max item.nesting (deepest rest)

end

mutual

/-- The document that the text spells. -/
def json : Wire → Json
  | .number x => .number x
  | .symbol name => .string name
  | .list items => .array (documents items)
  | .string text => .object [("s", .string text)]
  | .dotted items => .object [("d", .array (documents items))]

def documents : List Wire → List Json
  | [] => []
  | item :: rest => item.json :: documents rest

end

mutual

theorem nesting_json : ∀ wire : Wire, wire.json.nesting = wire.nesting
  | .number x => rfl
  | .symbol name => rfl
  | .list items => by rw [json, Json.nesting, deepest_documents items, nesting]
  | .string text => rfl
  | .dotted items => by
      rw [json, Json.nesting, Json.deepestMember, Json.memberNesting, Json.nesting,
        deepest_documents items, nesting]
      rfl

theorem deepest_documents : ∀ items : List Wire, Json.deepest (documents items) = deepest items
  | [] => rfl
  | item :: rest => by
      rw [documents, Json.deepest, nesting_json item, deepest_documents rest, deepest]

end

/-! ### Strings -/

open Json

theorem escapes_escape (c : Char) : Escapes c (escape c) := by
  have byLetter : ∀ special ∈ ['"', '\\', '\x08', '\x0c', '\n', '\r', '\t'], ∃ d,
      escape special = ['\\', d] ∧ d ∈ ['"', '\\', '/', 'b', 'f', 'n', 'r', 't'] ∧
        unescape? d = some special := by
    simp [escape, unescape?]
  by_cases special : c ∈ ['"', '\\', '\x08', '\x0c', '\n', '\r', '\t']
  · obtain ⟨d, escapeIs, known, isLetter⟩ := byLetter c special
    rw [escapeIs]
    exact .letter known isLetter
  · simp only [List.mem_cons, List.not_mem_nil, or_false, not_or] at special
    obtain ⟨notQuote, notEscape, notBackspace, notFeed, notNewline, notReturn, notTab⟩ := special
    rw [escape, if_neg notQuote, if_neg notEscape, if_neg notBackspace, if_neg notFeed,
      if_neg notNewline, if_neg notReturn, if_neg notTab]
    split
    · rename_i control
      have known : ∀ n < 0x20,
          Number.hexValue? ['0', '0', hexDigit (n / 16), hexDigit (n % 16)] = some n ∧
            isLeading n = false ∧ isTrailing n = false := by decide
      obtain ⟨value, notLeading, notTrailing⟩ := known c.toNat control
      have byNumber := Escapes.unit value notLeading notTrailing
      rw [Char.ofNat_toNat] at byNumber
      exact byNumber
    · exact .plain notQuote notEscape (Nat.not_lt.1 ‹_›)

theorem bodyOf_escape (text : List Char) : BodyOf (text.flatMap escape) text := by
  induction text with
  | nil => exact .nil
  | cons c text ih => exact .cons (escapes_escape c) ih

/-! ### Strict JSON -/

open Relaxed

/-- A string, written without blanks. -/
def quotedLayout (text : String) : Layout := .string ⟨_, (bodyOf_escape text.toList).isBody⟩

/-- The only member of an object, written without blanks. -/
def oneMember (key : String) (value : Layout) : Layout :=
  let name : Body := ⟨_, (bodyOf_escape key.toList).isBody⟩
  .list .object (.last (.member noBlanks (.quoted name) noBlanks noBlanks) value noBlanks)

theorem text_oneMember (key : String) (value : Layout) :
    (oneMember key value).text = '\x7b' :: (quotedText key ++ ':' :: (value.text ++ ['\x7d'])) := by
  simp [oneMember, Layout.text, Items.text, Lead.text, Key.text, Body.quoted, Kind.opening,
    Kind.closing, quotedText]

theorem standsFor_oneMember {key : String} {value : Layout} {document : Json}
    (standsFor : value.StandsFor document) :
    (oneMember key value).StandsFor (.object [(key, document)]) :=
  .list (.last (.member (bodyOf_escape key.toList)) standsFor)

mutual

/-- A wire datum of finite numbers is written as strict JSON for its document. -/
theorem exists_layout : ∀ {wire : Wire}, wire.allFinite = true →
    ∃ layout : Layout, layout.StandsFor wire.json ∧ layout.text = wire.text
  | .number x, finite => by
      have below : x.pattern < Number.infinity := of_decide_eq_true finite
      obtain ⟨numeral, textIs, negative, samePattern⟩ := Number.numeral_of_wireText finite
      rw [← samePattern] at below
      have standsFor := Layout.StandsFor.number below
      rw [negative, samePattern, x.ofPattern_isNegative_pattern] at standsFor
      exact ⟨.atom (.number numeral), standsFor, textIs⟩
  | .symbol name, _ => ⟨quotedLayout name, .string (bodyOf_escape name.toList), rfl⟩
  | .list items, finite => by
      obtain ⟨layout, standsFor, textIs⟩ := exists_array finite
      refine ⟨layout, standsFor, ?_⟩
      rw [textIs, text]
  | .string text, _ => by
      refine ⟨oneMember "s" (quotedLayout text),
        standsFor_oneMember (.string (bodyOf_escape text.toList)), ?_⟩
      rw [text_oneMember]
      rfl
  | .dotted items, finite => by
      obtain ⟨layout, standsFor, textIs⟩ := exists_array finite
      refine ⟨oneMember "d" layout, standsFor_oneMember standsFor, ?_⟩
      rw [text_oneMember, textIs, text]
      simp [quotedText, escape]

theorem exists_array : ∀ {items : List Wire}, itemsFinite items = true →
    ∃ layout : Layout, layout.StandsFor (.array (documents items)) ∧
      layout.text = '[' :: (itemsText items ++ [']'])
  | [], _ => ⟨.empty .array noBlanks, .empty .array noBlanks, rfl⟩
  | item :: rest, finite => by
      obtain ⟨itemFinite, restFinite⟩ := Bool.and_eq_true_iff.1 finite
      obtain ⟨layout, standsFor, textIs⟩ := exists_layout itemFinite
      obtain ⟨items, standFor, itemsIs⟩ := exists_items standsFor textIs restFinite
      refine ⟨.list .array items, .list standFor, ?_⟩
      rw [Layout.text, itemsIs]
      rfl

theorem exists_items {item : Wire} {layout : Layout} (standsFor : layout.StandsFor item.json)
    (textIs : layout.text = item.text) : ∀ {rest : List Wire}, itemsFinite rest = true →
    ∃ items : Items .array, items.StandFor (item.json :: documents rest) ∧
      items.text = item.text ++ moreText rest
  | [], _ => by
      refine ⟨.last (.item noBlanks) layout noBlanks, .last .item standsFor, ?_⟩
      rw [Items.text, textIs]
      rfl
  | next :: rest, finite => by
      obtain ⟨nextFinite, restFinite⟩ := Bool.and_eq_true_iff.1 finite
      obtain ⟨nextLayout, nextStands, nextIs⟩ := exists_layout nextFinite
      obtain ⟨items, standFor, itemsIs⟩ := exists_items nextStands nextIs restFinite
      refine ⟨.more (.item noBlanks) layout noBlanks items, .more .item standsFor standFor, ?_⟩
      rw [Items.text, textIs, itemsIs]
      rfl

end

/-- What is written is strict JSON for the document of the wire datum. -/
theorem denotes_write {wire : Wire} (finite : wire.allFinite = true) :
    Denotes wire.write.toList wire.json := by
  obtain ⟨layout, standsFor, textIs⟩ := exists_layout finite
  exact ⟨⟨noBlanks, layout, noBlanks⟩, by simp [Page.text, textIs, toList_write], standsFor⟩

end ActorMachine.Wire
