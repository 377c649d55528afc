import ActorMachine.Proofs.Code.Listings
import ActorMachine.Proofs.Datum.Grammar
import ActorMachine.Proofs.Store.Encoding
import Mathlib

set_option autoImplicit false

/-!
Read, then print, then read again.

The reader accepts no more parentheses inside each other than the printer follows, so of what was
read nothing is lost in depth. Lists that are too long are cut, though, and infinity has a text that
the reader takes for a symbol. Main statement: `read_render_of_read`.
-/

namespace ActorMachine

/-! ### How deep the reader goes -/

namespace Grammar

/-- The items of a list are one parenthesis deeper than the list and its tail. -/
theorem nesting_foldr_le {items : List Datum} {tail : Datum} {depth limit : Nat}
    (inItems : ∀ item ∈ items, depth + 1 + item.nesting ≤ limit)
    (inTail : depth + tail.nesting ≤ limit) :
    depth + (items.foldr .cons tail).nesting ≤ limit := by
  induction items with
  | nil => exact inTail
  | cons item items ih =>
      have inItem := inItems item List.mem_cons_self
      have inRest := ih fun other member => inItems other (List.mem_cons_of_mem _ member)
      rw [List.foldr_cons, Datum.nesting]
      omega

mutual

theorem nesting_le_of_spells {depth : Nat} {text rest : List Char} {d : Datum}
    (spells : Spells depth text d rest) (shallow : depth ≤ 255) : depth + d.nesting ≤ 255 := by
  match spells with
  | .string _ _ => exact shallow
  | .quotedSymbol _ _ => exact shallow
  | .atom _ _ _ (.number _ _) => exact shallow
  | .atom _ _ _ (.symbol _) => exact shallow
  | .list _ shallower spelled ends =>
      have inItems := nesting_le_of_spellsAll spelled shallower
      have inTail := nesting_le_of_ends ends shallower
      exact nesting_foldr_le inItems (by omega)

theorem nesting_le_of_spellsAll {depth : Nat} {text rest : List Char} {items : List Datum}
    (spelled : SpellsAll depth text items rest) (shallow : depth ≤ 255) :
    ∀ item ∈ items, depth + item.nesting ≤ 255 := by
  match spelled with
  | .nil => exact nofun
  | .cons first others =>
      intro item member
      cases member with
      | head => exact nesting_le_of_spells first shallow
      | tail _ member => exact nesting_le_of_spellsAll others shallow item member

theorem nesting_le_of_ends {depth : Nat} {text rest : List Char} {items : List Datum}
    {tail : Datum} (ends : Ends depth items text tail rest) (shallow : depth ≤ 255) :
    depth + tail.nesting ≤ 256 := by
  match ends with
  | .proper _ => exact Nat.succ_le_succ shallow
  | .dotted _ _ _ spelled _ => exact Nat.le_succ_of_le (nesting_le_of_spells spelled shallow)

end

end Grammar

theorem Datum.nesting_lt_of_read {text : String} {d : Datum} (accepted : Datum.read text = .ok d) :
    d.nesting < maxDepth := by
  obtain ⟨rest, less, isRead, _⟩ := Reader.read_eq_ok.1 accepted
  have bound := Grammar.nesting_le_of_spells (Reader.spells_of_readDatum isRead) (Nat.zero_le _)
  rw [Nat.zero_add] at bound
  exact Nat.lt_succ_of_le bound

/-! ### Equal values -/

/-- Whether two data are equal, numbers by value. -/
def Datum.same : Datum → Datum → Bool
  | .nil, .nil => true
  | .symbol name, .symbol other => name == other
  | .number x, .number y => x.sameValue y
  | .string text, .string other => text == other
  | .cons head tail, .cons first rest => head.same first && tail.same rest
  | _, _ => false

theorem Datum.same_self {d : Datum} (finite : d.allFinite = true) : d.same d = true := by
  induction d with
  | nil => rfl
  | symbol name => exact beq_self_eq_true name
  | number x =>
      have isNumber : x.isNaN = false := by
        simp only [Datum.allFinite, Number.isFinite, decide_eq_true_eq] at finite
        exact decide_eq_false (Nat.not_lt.2 (Nat.le_of_lt finite))
      simp [Datum.same, Number.sameValue, isNumber]
  | string text => exact beq_self_eq_true text
  | cons head tail headIh tailIh =>
      obtain ⟨headFinite, tailFinite⟩ := Bool.and_eq_true_iff.1 finite
      rw [Datum.same, headIh headFinite, tailIh tailFinite]
      rfl

namespace Store

theorem equalWithin_atom {store : Store} {a b : Value} {d e : Datum} (fuel : Nat)
    (isLeaf : d.tree = .leaf a) (other : store.Spells b e.tree) :
    store.equalWithin fuel a b = some (d.same e) := by
  cases d with
  | cons head tail => cases isLeaf
  | _ =>
      cases isLeaf
      cases e with
      | cons head tail =>
          obtain ⟨ref, rfl, _⟩ := other
          cases fuel <;> rfl
      | _ =>
          cases other
          cases fuel <;> rfl

/-- Two values that spell data are equal just if the data are. -/
theorem equalWithin_of_spells {store : Store} {a b : Value} {d e : Datum} {fuel : Nat}
    (spelled : store.Spells a d.tree) (other : store.Spells b e.tree) (finite : d.allFinite = true)
    (enough : d.tree.size ≤ fuel) : store.equalWithin fuel a b = some (d.same e) := by
  induction d generalizing a b e fuel with
  | nil => exact equalWithin_atom fuel (congrArg Tree.leaf spelled.symm) other
  | symbol name => exact equalWithin_atom fuel (congrArg Tree.leaf spelled.symm) other
  | number x => exact equalWithin_atom fuel (congrArg Tree.leaf spelled.symm) other
  | string text => exact equalWithin_atom fuel (congrArg Tree.leaf spelled.symm) other
  | cons head tail headIh tailIh =>
      have represents := represents_of_spells spelled
      obtain ⟨headFinite, tailFinite⟩ := Bool.and_eq_true_iff.1 finite
      obtain ⟨ref, rfl, _, first, second⟩ := spelled
      simp only [Datum.tree, Tree.size] at enough
      cases fuel with
      | zero => omega
      | succ fuel =>
          cases e with
          | cons otherHead otherTail =>
              have otherwise := represents_of_spells other
              obtain ⟨otherRef, rfl, _, otherFirst, otherSecond⟩ := other
              rw [equalWithin]
              by_cases shared : ref = otherRef
              · -- A pair that is shared is one datum.
                subst shared
                rw [if_pos rfl, ← represents.unique otherwise, Datum.same_self finite]
              · rw [if_neg shared, headIh first otherFirst headFinite (by omega), Datum.same]
                cases head.same otherHead with
                | true => exact tailIh second otherSecond tailFinite (by omega)
                | false => rfl
          | _ =>
              cases other
              rfl

/-- A datum that is put into a store takes one new pair for each of its own, and one for each item
in front of it. -/
theorem size_load (d : Datum) :
    (∀ store : Store, (store.load d).2.pairs.size = store.pairs.size + d.tree.size) ∧
      ∀ (store : Store) (seen : List Value),
        (store.loadRest seen d).2.pairs.size = store.pairs.size + d.tree.size + seen.length := by
  induction d with
  | nil => exact ⟨fun _ => rfl, fun store seen => size_consReversed store _ seen⟩
  | symbol name => exact ⟨fun _ => rfl, fun store seen => size_consReversed store _ seen⟩
  | number x => exact ⟨fun _ => rfl, fun store seen => size_consReversed store _ seen⟩
  | string text => exact ⟨fun _ => rfl, fun store seen => size_consReversed store _ seen⟩
  | cons head tail headIh tailIh =>
      constructor
      · intro store
        have inTail := tailIh.2 (store.load head).2 [(store.load head).1]
        have inHead := headIh.1 store
        change ((store.load head).2.loadRest [(store.load head).1] tail).2.pairs.size = _
        simp only [Datum.tree, Tree.size, List.length_cons, List.length_nil] at *
        omega
      · intro store seen
        have inTail := tailIh.2 (store.load head).2 ((store.load head).1 :: seen)
        have inHead := headIh.1 store
        change ((store.load head).2.loadRest ((store.load head).1 :: seen) tail).2.pairs.size = _
        simp only [Datum.tree, Tree.size, List.length_cons] at *
        omega

/-- Two data that are put into a store one after the other are equal values just if they are equal
data. -/
theorem equal?_load (store : Store) {d e : Datum} (finite : e.allFinite = true) :
    let first := store.load d
    let second := first.2.load e
    second.2.equal? second.1 first.1 = some (e.same d) := by
  intro first second
  have grown := first.2.grows_load e
  have here := (loadsAs e).whole first.2
  have there := ((loadsAs d).whole store).mono grown
  exact equalWithin_of_spells here there finite (by
    rw [(size_load e).1]
    exact Nat.le_add_left _ _)

/-! ### Reading again -/

/-- A datum that does not nest too deep is read from its text with its long lists cut. -/
theorem read_render_load {d : Datum} (finite : d.allFinite = true) (shallow : d.nesting < maxDepth)
    (store : Store) : Datum.read ((store.load d).2.render (store.load d).1) = .ok d.elided := by
  have cut := (Datum.cutsFrom_elided d).1
  have cutShallow : d.elided.nesting < maxDepth := Nat.lt_of_le_of_lt cut.nesting shallow
  unfold Datum.read
  rw [toList_render_elided ((loadsAs d).whole store)]
  exact Reader.read_print (cut.finite finite) cutShallow (Nat.le_of_lt cutShallow)

/-- What was read, if its numbers are finite, is read again from its text, with the lists cut that
are too long. If no list has more than 65536 pairs then the text is read as the same datum, and that
is an equal value. -/
theorem read_render_of_read {text : String} {d : Datum} (accepted : Datum.read text = .ok d)
    (finite : d.allFinite = true) (store : Store) :
    let first := store.load d
    let second := first.2.load d.elided
    Datum.read (first.2.render first.1) = .ok d.elided ∧
      (d.longestList ≤ maxPrintLength →
        d.elided = d ∧ second.2.equal? second.1 first.1 = some true) := by
  intro first second
  refine ⟨read_render_load finite (Datum.nesting_lt_of_read accepted) store, ?_⟩
  intro short
  have whole := (Datum.elided_eq_self short).1
  have wholeFinite := (Datum.cutsFrom_elided d).1.finite finite
  refine ⟨whole, ?_⟩
  rw [equal?_load store wholeFinite, whole, Datum.same_self finite]

/-- A list with a symbol that is a lone point, a comment, negative zero and a dotted tail. -/
theorem read_render_of_read_list :
    let d : Datum := .cons (.symbol ".") (.cons (.cons (.number ⟨0x8000000000000000⟩) .nil)
      (.string "\""))
    let first := ({} : Store).load d
    Datum.read "(|.| ;\n(-0) . \"\\\"\")" = .ok d ∧
      Datum.read (first.2.render first.1) = .ok d := by
  intro d first
  have accepted : Datum.read "(|.| ;\n(-0) . \"\\\"\")" = .ok d := by cbv
  obtain ⟨again, short⟩ := read_render_of_read accepted rfl {}
  rw [(short (by decide)).1] at again
  exact ⟨accepted, again⟩

/-- A list of `n` items `a`, in front of a tail. -/
def rowBefore (tail : Datum) (n : Nat) : Datum := (List.replicate n (.symbol "a")).foldr .cons tail

/-- The text of a list of `n + 1` items `a`. -/
def rowText (n : Nat) : String :=
  String.ofList (['(', 'a'] ++ (List.replicate n [' ', 'a']).flatten ++ [')'])

theorem printRest_row (n depth : Nat) :
    (rowBefore .nil n).printRest depth = (List.replicate n [' ', 'a']).flatten ++ [')'] := by
  induction n with
  | zero => rfl
  | succ n ih =>
      change ' ' :: 'a' :: (rowBefore .nil n).printRest depth = _
      rw [ih, List.replicate_succ, List.flatten_cons, List.append_assoc]
      rfl

theorem row_plain (n : Nat) :
    (rowBefore .nil n).allFinite = true ∧ (rowBefore .nil n).nesting = 1 := by
  induction n with
  | zero => exact ⟨rfl, rfl⟩
  | succ n ih =>
      change (true && (rowBefore .nil n).allFinite) = true ∧ max 1 (rowBefore .nil n).nesting = 1
      rw [ih.1, ih.2]
      exact ⟨rfl, rfl⟩

theorem read_rowText (n : Nat) : Datum.read (rowText n) = .ok (rowBefore .nil (n + 1)) := by
  obtain ⟨finite, flat⟩ := row_plain (n + 1)
  have shallow : (rowBefore .nil (n + 1)).nesting < maxDepth := by
    rw [flat]
    decide
  have printed : (rowText n).toList = (rowBefore .nil (n + 1)).print maxDepth := by
    change _ = '(' :: 'a' :: (rowBefore .nil n).printRest 255
    rw [printRest_row, rowText, String.toList_ofList, List.append_assoc]
    rfl
  unfold Datum.read
  rw [printed]
  exact Reader.read_print finite shallow (Nat.le_of_lt shallow)

theorem elidedRest_row (left : Nat) :
    (rowBefore .nil (left + 1)).elidedRest left = rowBefore (.cons (.symbol "...") .nil) left := by
  induction left with
  | zero => rfl
  | succ left ih => exact congrArg (Datum.cons (.symbol "a")) ih

theorem elided_row : (rowBefore .nil (maxPrintLength + 1)).elided =
    rowBefore (.cons (.symbol "...") .nil) maxPrintLength := by
  obtain ⟨left, isLimit⟩ : ∃ left, maxPrintLength = left + 1 := ⟨65535, rfl⟩
  rw [isLimit]
  change Datum.cons (.symbol "a") ((rowBefore .nil (left + 1)).elidedRest (maxPrintLength - 1)) = _
  rw [isLimit, Nat.add_sub_cancel, elidedRest_row]
  rfl

theorem not_same_row (n : Nat) :
    (rowBefore (.cons (.symbol "...") .nil) n).same (rowBefore .nil (n + 1)) = false := by
  induction n with
  | zero => rfl
  | succ n ih => exact ih

theorem reread_row (store : Store) :
    let first := store.load (rowBefore .nil (maxPrintLength + 1))
    let cut := rowBefore (.cons (.symbol "...") .nil) maxPrintLength
    let second := first.2.load cut
    Datum.read (first.2.render first.1) = .ok cut ∧
      second.2.equal? second.1 first.1 = some false := by
  obtain ⟨finite, flat⟩ := row_plain (maxPrintLength + 1)
  have shallow : (rowBefore .nil (maxPrintLength + 1)).nesting < maxDepth := by
    rw [flat]
    decide
  have cutFinite := (Datum.cutsFrom_elided (rowBefore .nil (maxPrintLength + 1))).1.finite finite
  have again := read_render_load finite shallow store
  have compared := equal?_load store (d := rowBefore .nil (maxPrintLength + 1)) cutFinite
  rw [elided_row] at again compared
  rw [not_same_row] at compared
  exact ⟨again, compared⟩

/-- Two texts are accepted and their data not read again: infinity becomes a symbol, and the last of
65537 items becomes an ellipsis. -/
theorem not_read_render_of_read :
    (Datum.read "1e999" = .ok (.number ⟨0x7FF0000000000000⟩) ∧
      Datum.read (({} : Store).render (.number ⟨0x7FF0000000000000⟩)) = .ok (.symbol "inf") ∧
      ({} : Store).equal? (.symbol "inf") (.number ⟨0x7FF0000000000000⟩) = some false) ∧
    Datum.read (rowText maxPrintLength) = .ok (rowBefore .nil (maxPrintLength + 1)) ∧
    let first := ({} : Store).load (rowBefore .nil (maxPrintLength + 1))
    let cut := rowBefore (.cons (.symbol "...") .nil) maxPrintLength
    let second := first.2.load cut
    Datum.read (first.2.render first.1) = .ok cut ∧
      second.2.equal? second.1 first.1 = some false := by
  have infinity : Datum.read "1e999" = .ok (.number ⟨0x7FF0000000000000⟩) := by cbv
  have symbol : Datum.read (({} : Store).render (.number ⟨0x7FF0000000000000⟩)) =
      .ok (.symbol "inf") := by cbv
  exact ⟨⟨infinity, symbol, rfl⟩, read_rowText maxPrintLength, reread_row {}⟩

end Store

end ActorMachine
