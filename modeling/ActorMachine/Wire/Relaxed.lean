set_option autoImplicit false

/-!
Relaxed JSON: object keys that are plain words may be written without quotes.

`quoteKeys` puts the quotes in. It goes through the text once, steps over string literals, and takes
a word for a key when an opening brace or a comma comes before it and a colon after it.
-/

namespace ActorMachine.Relaxed

def isSpace (c : Char) : Bool := c = ' ' || c = '\t' || c = '\r' || c = '\n'

/-- The characters that a bare key can start with. -/
def isKeyStart (c : Char) : Bool := c.isAlpha || c = '_'

/-- The characters of a bare key. -/
def isKeyChar (c : Char) : Bool := c.isAlphanum || c = '_'

/-- The rest of a string literal after its opening quote, with the closing quote, and the text after
it; `seen` holds the characters before, last one first. -/
def literal? (seen : List Char) : List Char → Option (List Char × List Char)
  | [] => none
  | '"' :: rest => some (('"' :: seen).reverse, rest)
  | '\\' :: c :: rest => literal? (c :: '\\' :: seen) rest
  | c :: rest => if c = '\\' then none else literal? (c :: seen) rest

/-- A key after an opening brace or a comma: the spaces before it, its word and the text after its
colon. -/
def bareKey? (text : List Char) : Option (List Char × List Char × List Char) :=
  let start := text.dropWhile isSpace
  match start with
  | [] => none
  | c :: _ =>
      if isKeyStart c then
        match (start.dropWhile isKeyChar).dropWhile isSpace with
        | ':' :: rest => some (text.takeWhile isSpace, start.takeWhile isKeyChar, rest)
        | _ => none
      else none

theorem length_literal_lt {seen text found after : List Char}
    (read : literal? seen text = some (found, after)) : after.length < text.length := by
  fun_induction literal? seen text <;> simp_all <;> omega

theorem length_bareKey_le {text spaces word after : List Char}
    (read : bareKey? text = some (spaces, word, after)) : after.length ≤ text.length := by
  unfold bareKey? at read
  simp only at read
  have outer := (List.dropWhile_sublist isSpace (l := text)).length_le
  split at read
  · contradiction
  · split at read
    · have middle := (List.dropWhile_sublist isKeyChar (l := text.dropWhile isSpace)).length_le
      have inner := (List.dropWhile_sublist isSpace
        (l := (text.dropWhile isSpace).dropWhile isKeyChar)).length_le
      split at read
      · rename_i colon
        simp only [Option.some.injEq, Prod.mk.injEq] at read
        rw [colon, read.2.2, List.length_cons] at inner
        omega
      · contradiction
    · contradiction

/-- Quotes the bare keys of `text`; `done` is the text so far, last character first. -/
def quoteFrom (done text : List Char) : List Char :=
  match text with
  | [] => done.reverse
  | c :: rest =>
      if c = '"' then
        match h : literal? [c] rest with
        | some (found, after) =>
            have := length_literal_lt h
            quoteFrom (found.reverse ++ done) after
        | none => quoteFrom (c :: done) rest
      else if c = '\x7b' ∨ c = ',' then
        match h : bareKey? rest with
        | some (spaces, word, after) =>
            have := length_bareKey_le h
            quoteFrom (':' :: '"' :: word.reverse ++ '"' :: spaces.reverse ++ c :: done) after
        | none => quoteFrom (c :: done) rest
      else quoteFrom (c :: done) rest
termination_by text.length

/-- The text with its bare keys quoted. -/
def quoteKeys (text : List Char) : List Char := quoteFrom [] text

end ActorMachine.Relaxed
