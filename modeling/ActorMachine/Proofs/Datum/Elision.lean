import ActorMachine.Proofs.Datum.Text

set_option autoImplicit false

/-!
Long lists that are cut.

Of a list, no more than `maxPrintLength` items are printed, and an ellipsis in place of the others.
`Datum.elided` is the datum that this text spells. A datum whose lists are short enough is not cut.
-/

namespace ActorMachine.Datum

mutual

/-- A datum with its long lists cut. -/
def elided : Datum → Datum
  | .nil => .nil
  | .symbol name => .symbol name
  | .number x => .number x
  | .string text => .string text
  | .cons head tail => .cons head.elided (tail.elidedRest (Store.maxPrintLength - 1))

/-- The rest of a list of which `left` more items are kept. -/
def elidedRest : Datum → Nat → Datum
  | .nil, _ => .nil
  | .symbol name, _ => .symbol name
  | .number x, _ => .number x
  | .string text, _ => .string text
  | .cons _ _, 0 => .cons (.symbol "...") .nil
  | .cons head tail, left + 1 => .cons head.elided (tail.elidedRest left)

end

/-- Cutting keeps numbers finite and lets parentheses nest no deeper, in a datum and in one that is
the rest of a list. -/
structure CutsFrom (d cut : Datum) : Prop where
  finite : d.allFinite = true → cut.allFinite = true
  nesting : cut.nesting ≤ d.nesting

theorem CutsFrom.refl (d : Datum) : CutsFrom d d := ⟨id, Nat.le_refl _⟩

theorem CutsFrom.cons {head tail first rest : Datum} (inHead : CutsFrom head first)
    (inTail : CutsFrom tail rest) : CutsFrom (.cons head tail) (.cons first rest) where
  finite := by
    intro finite
    obtain ⟨headFinite, tailFinite⟩ := Bool.and_eq_true_iff.1 finite
    exact Bool.and_eq_true_iff.2 ⟨inHead.finite headFinite, inTail.finite tailFinite⟩
  nesting := by
    have headNesting := inHead.nesting
    have tailNesting := inTail.nesting
    simp only [Datum.nesting]
    omega

theorem cutsFrom_elided (d : Datum) :
    CutsFrom d d.elided ∧ ∀ left, CutsFrom d (d.elidedRest left) := by
  induction d with
  | nil => exact ⟨.refl _, fun _ => .refl _⟩
  | symbol name => exact ⟨.refl _, fun _ => .refl _⟩
  | number x => exact ⟨.refl _, fun _ => .refl _⟩
  | string text => exact ⟨.refl _, fun _ => .refl _⟩
  | cons head tail headIh tailIh =>
      refine ⟨headIh.1.cons (tailIh.2 _), ?_⟩
      intro left
      cases left with
      | zero =>
          refine ⟨fun _ => rfl, ?_⟩
          simp only [elidedRest, nesting]
          omega
      | succ left => exact headIh.1.cons (tailIh.2 left)

/-- Nothing is cut off a list of at most `left` pairs, in which no list is too long. -/
theorem elided_eq_self {d : Datum} (short : d.longestList ≤ Store.maxPrintLength) :
    d.elided = d ∧ ∀ left, d.spineLength ≤ left → d.elidedRest left = d := by
  induction d with
  | nil => exact ⟨rfl, fun _ _ => rfl⟩
  | symbol name => exact ⟨rfl, fun _ _ => rfl⟩
  | number x => exact ⟨rfl, fun _ _ => rfl⟩
  | string text => exact ⟨rfl, fun _ _ => rfl⟩
  | cons head tail headIh tailIh =>
      simp only [longestList] at short
      obtain ⟨headWhole, _⟩ := headIh (by omega)
      obtain ⟨_, tailWhole⟩ := tailIh (by omega)
      constructor
      · rw [elided, headWhole, tailWhole _ (by omega)]
      · intro left enough
        cases left with
        | zero => cases enough
        | succ left => rw [elidedRest, headWhole, tailWhole _ (Nat.le_of_succ_le_succ enough)]

end ActorMachine.Datum
