import ActorMachine.Datum
import ActorMachine.Fault

set_option autoImplicit false

/-!
The reader of listing text.

`Datum.read` reads one datum: a number, a bare or quoted symbol, a string, or a list that may end in
a dotted tail. Blanks and comments may stand before and after every part. The reader goes through
the text once and reports the first place at which it cannot go on.
-/

namespace ActorMachine.Reader

/-- Why the reader cannot go on. -/
inductive Obstacle where
  | tooDeep
  | badNumber
  | unexpected

/-- A place where the reader cannot go on: the text that is left there. -/
structure Snag where
  obstacle : Obstacle
  rest : List Char

/-- The characters between data. -/
def isSpace (c : Char) : Bool := c = ' ' || c = '\t' || c = '\r' || c = '\n'

/-- Drops spaces and comments; a comment goes from a semicolon to the end of the line. -/
def skipFrom (inComment : Bool) : List Char → List Char
  | [] => []
  | c :: rest =>
      if inComment then skipFrom (c != '\n') rest
      else if isSpace c then skipFrom false rest
      else if c = ';' then skipFrom true rest
      else c :: rest

def skip (text : List Char) : List Char := skipFrom false text

theorem length_skipFrom_le (inComment : Bool) (text : List Char) :
    (skipFrom inComment text).length ≤ text.length := by
  induction text generalizing inComment with
  | nil => simp [skipFrom]
  | cons c rest ih =>
      have inside := ih true
      have outside := ih false
      have either := ih (c != '\n')
      unfold skipFrom
      split
      · simp only [List.length_cons]; omega
      · split
        · simp only [List.length_cons]; omega
        · split
          · simp only [List.length_cons]; omega
          · exact Nat.le_refl _

theorem length_skip_le (text : List Char) : (skip text).length ≤ text.length :=
  length_skipFrom_le false text

/-- The character that a backslash and `c` stand for between two `quote`s. -/
def unescape? (quote c : Char) : Option Char :=
  if c = 'n' then some '\n'
  else if c = 't' then some '\t'
  else if c = 'r' then some '\r'
  else if c = '\\' then some '\\'
  else if c = quote then some c
  else none

/-- The text up to the closing quote, and what follows it. `seen` holds the characters before, last
one first. -/
def readQuoted (quote : Char) (seen : List Char) : List Char → Except Snag (List Char × List Char)
  | [] => .error ⟨.unexpected, []⟩
  | c :: rest =>
      if c = quote then .ok (seen.reverse, rest)
      else if c = '\\' then
        match rest with
        | [] => .error ⟨.unexpected, [c]⟩
        | escaped :: after =>
            match unescape? quote escaped with
            | some plain => readQuoted quote (plain :: seen) after
            | none => .error ⟨.unexpected, c :: rest⟩
      else readQuoted quote (c :: seen) rest

theorem length_readQuoted_lt {quote : Char} {seen text inside after : List Char}
    (read : readQuoted quote seen text = .ok (inside, after)) : after.length < text.length := by
  fun_induction readQuoted quote seen text <;> simp_all <;> omega

/-- The longest run of atom characters, as a number or a symbol. -/
def readAtom (text : List Char) : Except Snag (Datum × List Char) :=
  let token := text.takeWhile Symbol.isAtomChar
  if token.isEmpty || token == ['.'] then .error ⟨.unexpected, text⟩
  else if Symbol.looksNumeric token then
    match Number.readNumber? token with
    | some x => .ok (.number x, text.drop token.length)
    | none => .error ⟨.badNumber, text⟩
  else .ok (.symbol (String.ofList token), text.drop token.length)

theorem length_readAtom_lt {text after : List Char} {datum : Datum}
    (read : readAtom text = .ok (datum, after)) : after.length < text.length := by
  have bound := (List.takeWhile_sublist Symbol.isAtomChar (l := text)).length_le
  unfold readAtom at read
  simp only at read
  split at read
  · contradiction
  · rename_i present
    have nonempty : 0 < (text.takeWhile Symbol.isAtomChar).length := by
      cases shape : text.takeWhile Symbol.isAtomChar with
      | nil => simp [shape] at present
      | cons c rest => simp
    split at read
    · split at read
      · simp only [Except.ok.injEq, Prod.mk.injEq] at read
        rw [← read.2, List.length_drop]; omega
      · contradiction
    · simp only [Except.ok.injEq, Prod.mk.injEq] at read
      rw [← read.2, List.length_drop]; omega

/-- Whether a point stands alone at the start of the text. -/
def atDot : List Char → Bool
  | ['.'] => true
  | '.' :: c :: _ => !Symbol.isAtomChar c
  | _ => false

/-- A datum and the text after it, which is shorter than `bound`. -/
abbrev Reading (bound : List Char) :=
  Except Snag { found : Datum × List Char // found.2.length < bound.length }

/-- An atom or quoted text, as a reading of a text that is not longer than `bound`. -/
def ofScan (bound : List Char) (scan : Except Snag (Datum × List Char))
    (shorter : ∀ datum after, scan = .ok (datum, after) → after.length < bound.length) :
    Reading bound :=
  match scan, shorter with
  | .ok (datum, after), shorter => .ok ⟨(datum, after), shorter datum after rfl⟩
  | .error snag, _ => .error snag

/-- A quoted text as the datum it stands for. -/
def readDelimited (quote : Char) (make : String → Datum) (text : List Char) :
    Except Snag (Datum × List Char) :=
  match readQuoted quote [] text with
  | .ok (inside, after) => .ok (make (String.ofList inside), after)
  | .error snag => .error snag

theorem length_readDelimited_lt {quote : Char} {make : String → Datum} {text after : List Char}
    {datum : Datum} (read : readDelimited quote make text = .ok (datum, after)) :
    after.length < text.length := by
  unfold readDelimited at read
  cases scan : readQuoted quote [] text with
  | error snag => simp [scan] at read
  | ok result =>
      obtain ⟨inside, rest⟩ := result
      simp only [scan, Except.ok.injEq, Prod.mk.injEq] at read
      rw [← read.2]
      exact length_readQuoted_lt scan

mutual

/-- The first datum of a text, `depth` lists deep. -/
def readDatum (bound : List Char) (depth : Nat) (text : List Char)
    (fits : text.length ≤ bound.length) : Reading bound :=
  match h : skip text with
  | [] => .error ⟨.unexpected, []⟩
  | c :: rest =>
      have shorter : rest.length + 1 ≤ text.length := by
        have := length_skip_le text
        rwa [h] at this
      if c = '(' then
        if maxDepth ≤ depth + 1 then .error ⟨.tooDeep, rest⟩
        else readItems bound (depth + 1) [] rest (by omega)
      else if c = '"' then
        ofScan bound (readDelimited '"' .string rest) fun _ _ scan => by
          have := length_readDelimited_lt scan; omega
      else if c = '|' then
        ofScan bound (readDelimited '|' .symbol rest) fun _ _ scan => by
          have := length_readDelimited_lt scan; omega
      else
        ofScan bound (readAtom (c :: rest)) fun _ _ scan => by
          have := length_readAtom_lt scan; simp only [List.length_cons] at this; omega
termination_by 2 * text.length

/-- The rest of a list whose first `items`, last one first, were read. -/
def readItems (bound : List Char) (depth : Nat) (items : List Datum) (text : List Char)
    (fits : text.length ≤ bound.length) : Reading bound :=
  match h : skip text with
  | [] => .error ⟨.unexpected, []⟩
  | c :: rest =>
      have shorter : rest.length + 1 ≤ text.length := by
        have := length_skip_le text
        rwa [h] at this
      if c = ')' then
        .ok ⟨(Datum.ofReversed .nil items, rest), by show rest.length < bound.length; omega⟩
      else if atDot (c :: rest) then
        if items.isEmpty then .error ⟨.unexpected, c :: rest⟩
        else
          match readDatum rest depth rest (Nat.le_refl _) with
          | .error snag => .error snag
          | .ok ⟨(tail, after), less⟩ =>
              match g : skip after with
              | [] => .error ⟨.unexpected, []⟩
              | d :: final =>
                  if d = ')' then
                    .ok ⟨(Datum.ofReversed tail items, final), by
                      have := length_skip_le after
                      rw [g] at this
                      simp only [List.length_cons] at this less ⊢
                      omega⟩
                  else .error ⟨.unexpected, d :: final⟩
      else
        match readDatum (c :: rest) depth (c :: rest) (Nat.le_refl _) with
        | .error snag => .error snag
        | .ok ⟨(item, after), less⟩ =>
            have : after.length < rest.length + 1 := less
            readItems bound depth (item :: items) after (by omega)
termination_by 2 * text.length + 1

end

/-- The report of a snag in a text. -/
def Snag.report (text : List Char) (snag : Snag) : ReadError :=
  let position := Text.byteSize text - Text.byteSize snag.rest
  match snag.obstacle, snag.rest with
  | .tooDeep, _ =>
      .plain .tooDeeplyNested
        ("Expression too deeply nested (max depth: " ++ toString maxDepth ++ ")")
  | _, [] => .plain .incomplete "Unexpected end of input"
  | .badNumber, _ =>
      .located .invalidSyntax ("Malformed number at position " ++ toString position) text position
  | .unexpected, _ =>
      .located .invalidSyntax ("Invalid syntax at position " ++ toString position) text position

/-- The one datum that a text spells, with nothing but blanks and comments around it. -/
def read (text : List Char) : Except ReadError Datum :=
  match readDatum text 0 text (Nat.le_refl _) with
  | .error snag => .error (snag.report text)
  | .ok ⟨(datum, after), _⟩ =>
      match skip after with
      | [] => .ok datum
      | rest =>
          .error (.located .trailingContent
            ("Unexpected remaining input: '" ++ String.ofList rest ++ "'") text
            (Text.byteSize text - Text.byteSize rest))

end ActorMachine.Reader

namespace ActorMachine

/-- Reads listing text. -/
def Datum.read (text : String) : Except ReadError Datum := Reader.read text.toList

end ActorMachine
