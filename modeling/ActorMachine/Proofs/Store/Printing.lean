import ActorMachine.Proofs.Datum.Elision
import ActorMachine.Proofs.Datum.Reading
import ActorMachine.Proofs.Store.Spelling

set_option autoImplicit false

/-!
Print, then read.

A value that spells a datum prints as the text of the datum, in which long lists are cut.
The reader takes that text back to the datum, as long as parentheses do not nest too deep in it.
Main statement: `read_render`.
-/

namespace ActorMachine

/-- A datum as a value with its pairs. -/
def Datum.tree : Datum → Tree
  | .nil => .leaf .nil
  | .symbol name => .leaf (.symbol name)
  | .number x => .leaf (.number x)
  | .string text => .leaf (.string text)
  | .cons head tail => .pair head.tree tail.tree

namespace Store

/-! ### Texts behind a text -/

theorem toList_foldl_push (out : String) (text : List Char) :
    (text.foldl String.push out).toList = out.toList ++ text := by
  induction text generalizing out with
  | nil => exact (List.append_nil _).symm
  | cons c text ih => rw [List.foldl_cons, ih, String.toList_push, List.append_assoc,
      List.singleton_append]

theorem toList_foldl_escape (escape : Char → List Char) (text : List Char) (out : String) :
    (text.foldl (fun out c => (escape c).foldl String.push out) out).toList =
      out.toList ++ text.flatMap escape := by
  induction text generalizing out with
  | nil => exact (List.append_nil _).symm
  | cons c text ih =>
      rw [List.foldl_cons, ih, toList_foldl_push, List.flatMap_cons, List.append_assoc]

theorem toList_writeQuoted (out : String) (quote : Char) (text : String) :
    (writeQuoted out quote text).toList = out.toList ++ Datum.quoted quote text.toList := by
  unfold writeQuoted Datum.quoted
  dsimp only
  rw [String.toList_push, toList_foldl_escape, String.toList_push, List.append_assoc,
    List.append_assoc, List.singleton_append]

theorem toList_writeSymbol (out name : String) :
    (writeSymbol out name).toList = out.toList ++ Datum.symbolText name := by
  unfold writeSymbol Datum.symbolText
  split
  · exact String.toList_append
  · exact toList_writeQuoted out '|' name

/-! ### The printer -/

/-- A value that spells the datum prints as the text of what is left of it when long lists are cut,
and so does one that spells it as the rest of a list of which `left` more items are printed. -/
structure PrintsAs (store : Store) (d : Datum) : Prop where
  whole : ∀ (depth : Nat) (out : String) (v : Value), store.Spells v d.tree →
    (store.writeValue depth out v).toList = out.toList ++ d.elided.print depth
  rest : ∀ (depth left : Nat) (out : String) (v : Value), store.Spells v d.tree →
    (store.writeRest (store.writeValue depth) left out v).toList =
      out.toList ++ (d.elidedRest left).printRest depth

/-- The tail of a list that is no list stands behind a point. -/
theorem printsAs_atom {store : Store} {d : Datum} {expected : Value} (text : List Char)
    (isLeaf : d.tree = .leaf expected) (printed : ∀ depth, d.elided.print depth = text)
    (printedRest : ∀ left depth, (d.elidedRest left).printRest depth = Datum.dotted text)
    (written : ∀ depth out, (store.writeValue depth out expected).toList = out.toList ++ text)
    (isTail : ∀ item left out, store.writeRest item left out expected =
      (item (out ++ " . ") expected).push ')') : PrintsAs store d where
  whole := by
    intro depth out v spelled
    rw [isLeaf] at spelled
    cases spelled
    rw [written, printed]
  rest := by
    intro depth left out v spelled
    rw [isLeaf] at spelled
    cases spelled
    rw [isTail, String.toList_push, written, printedRest, String.toList_append, Datum.dotted]
    simp only [List.append_assoc]
    rfl

theorem printsAs (store : Store) (d : Datum) : PrintsAs store d := by
  induction d with
  | nil =>
      constructor
      · rintro depth out _ ⟨⟩
        rw [writeValue, String.toList_append, Datum.elided, Datum.print]
        rfl
      · rintro depth left out _ ⟨⟩
        rw [writeRest, String.toList_push, Datum.elidedRest, Datum.printRest]
  | symbol name =>
      refine printsAs_atom (Datum.symbolText name) rfl (fun _ => rfl) (fun _ _ => rfl) ?_ ?_
      · intro depth out
        rw [writeValue, toList_writeSymbol]
      · intro item left out
        cases left <;> rfl
  | number x =>
      refine printsAs_atom x.text.toList rfl (fun _ => rfl) (fun _ _ => rfl) ?_ ?_
      · intro depth out
        rw [writeValue, String.toList_append]
      · intro item left out
        cases left <;> rfl
  | string text =>
      refine printsAs_atom (Datum.quoted '"' text.toList) rfl (fun _ => rfl) (fun _ _ => rfl) ?_ ?_
      · intro depth out
        rw [writeValue, toList_writeQuoted]
      · intro item left out
        cases left <;> rfl
  | cons head tail headIh tailIh =>
      constructor
      · rintro depth out _ ⟨ref, rfl, _, headSpelled, tailSpelled⟩
        cases depth with
        | zero =>
            rw [writeValue, String.toList_append, Datum.elided, Datum.print]
            rfl
        | succ depth =>
            rw [writeValue, tailIh.rest depth _ _ _ tailSpelled, headIh.whole depth _ _ headSpelled,
              String.toList_push, Datum.elided, Datum.print, List.append_assoc, List.append_assoc,
              List.singleton_append]
      · rintro depth left out _ ⟨ref, rfl, _, headSpelled, tailSpelled⟩
        cases left with
        | zero =>
            rw [writeRest, String.toList_append, Datum.elidedRest, Datum.printRest, Datum.printRest,
              Datum.print]
            rfl
        | succ left =>
            rw [writeRest, tailIh.rest depth _ _ _ tailSpelled, headIh.whole depth _ _ headSpelled,
              String.toList_push, Datum.elidedRest, Datum.printRest, List.append_assoc,
              List.append_assoc, List.singleton_append]

theorem toList_render_elided {store : Store} {v : Value} {d : Datum}
    (spelled : store.Spells v d.tree) : (store.render v).toList = d.elided.print maxDepth := by
  have printed := (printsAs store d).whole maxDepth "" v spelled
  exact printed

theorem toList_render {store : Store} {v : Value} {d : Datum} (spelled : store.Spells v d.tree)
    (short : d.longestList ≤ maxPrintLength) : (store.render v).toList = d.print maxDepth := by
  rw [toList_render_elided spelled, (Datum.elided_eq_self short).1]

/-! ### Data in the store -/

/-- A datum that is put into a store is spelled there, and so are the items in front of it. -/
structure LoadsAs (d : Datum) : Prop where
  whole : ∀ store : Store, (store.load d).2.Spells (store.load d).1 d.tree
  rest : ∀ (store : Store) (seen : List Value) (trees : List Tree),
    List.Forall₂ store.Spells seen trees →
      (store.loadRest seen d).2.Spells (store.loadRest seen d).1
        (trees.foldl (fun rest tree => .pair tree rest) d.tree)

theorem loadsAs (d : Datum) : LoadsAs d := by
  induction d with
  | nil => exact ⟨fun _ => rfl, fun _ _ _ spelled => spells_consReversed rfl spelled⟩
  | symbol name => exact ⟨fun _ => rfl, fun _ _ _ spelled => spells_consReversed rfl spelled⟩
  | number x => exact ⟨fun _ => rfl, fun _ _ _ spelled => spells_consReversed rfl spelled⟩
  | string text => exact ⟨fun _ => rfl, fun _ _ _ spelled => spells_consReversed rfl spelled⟩
  | cons head tail headIh tailIh =>
      constructor
      · intro store
        exact tailIh.rest (store.load head).2 [(store.load head).1] [head.tree]
          (.cons (headIh.whole store) .nil)
      · intro store seen trees spelled
        have grown := store.grows_load head
        exact tailIh.rest (store.load head).2 ((store.load head).1 :: seen) (head.tree :: trees)
          (.cons (headIh.whole store) (spelled.imp fun _ _ here => here.mono grown))

/-- What was printed is read back: a value made of nil, symbols, strings, finite numbers and pairs,
with lists of at most 65536 pairs and parentheses that nest at most 255 deep in its text, is read
from its text as the datum that it spells, and that datum is spelled the same way when it is put
into a store. -/
theorem read_render {store : Store} {v : Value} {d : Datum} (spelled : store.Spells v d.tree)
    (finite : d.allFinite = true) (short : d.longestList ≤ maxPrintLength)
    (shallow : Text.nesting (store.render v).toList ≤ maxDepth - 1) :
    Datum.read (store.render v) = .ok d ∧ (store.load d).2.Spells (store.load d).1 d.tree := by
  have printed := toList_render spelled short
  rw [printed, Datum.nesting_print d finite] at shallow
  have bound : d.nesting < maxDepth := by
    unfold maxDepth at *
    omega
  refine ⟨?_, (loadsAs d).whole store⟩
  unfold Datum.read
  rw [printed]
  exact Reader.read_print finite bound (Nat.le_of_lt bound)

/-- The list of a symbol that is a lone point, nil and minus one tenth, with a text that holds a
quote and a parenthesis as its tail. -/
def sample : Store :=
  { pairs := #[(.number ⟨0xBFB999999999999A⟩, .string "(\""), (.nil, .pair 0),
    (.symbol ".", .pair 1)] }

theorem read_render_sample :
    Datum.read (sample.render (.pair 2)) =
      .ok (.cons (.symbol ".") (.cons .nil (.cons (.number ⟨0xBFB999999999999A⟩)
        (.string "(\"")))) := by
  refine (read_render ?_ ?_ ?_ ?_).1
  · exact ⟨2, rfl, by decide, rfl, 1, rfl, by decide, rfl, 0, rfl, by decide, rfl, rfl⟩
  · decide
  · decide
  · decide +kernel

end Store

end ActorMachine
