import Mathlib.Data.List.Basic

/-!
# The first element that fails

Whether an element of a list is refused may depend on the elements before it. `FirstAt P l before a` says that `a`, which
stands after the elements `before`, is the first one with `P`, and `Nowhere P l` that there is none. Both are followed
from the left: once an element has passed, it counts among those before the rest (`nowhere_cons`,
`exists_firstAt_cons`).
-/

namespace Phasor

variable {α : Type} {P : List α → α → Prop} {l before : List α} {a b : α}

/-- No element has `P` after the elements before it. -/
def Nowhere (P : List α → α → Prop) (l : List α) : Prop :=
  ∀ before a after, l = before ++ a :: after → ¬ P before a

/-- The element `a` after `before` is the first one with `P`. -/
structure FirstAt (P : List α → α → Prop) (l before : List α) (a : α) : Prop where
  split : ∃ after, l = before ++ a :: after
  fails : P before a
  passed : Nowhere P before

theorem nowhere_nil : Nowhere P [] :=
  fun before a after h => absurd h (by simp)

theorem nowhere_cons : Nowhere P (a :: l) ↔ ¬ P [] a ∧ Nowhere (fun before => P (a :: before)) l := by
  constructor
  · intro h
    refine ⟨h [] a l rfl, fun before b after hl => h (a :: before) b after ?_⟩
    rw [hl, List.cons_append]
  · rintro ⟨ha, hl⟩ before b after h
    cases before with
    | nil =>
      obtain ⟨rfl, -⟩ := List.cons.inj h
      exact ha
    | cons c before =>
      obtain ⟨rfl, htail⟩ := List.cons.inj h
      exact hl before b after htail

theorem not_firstAt_nil : ¬ FirstAt P [] before a := by
  rintro ⟨⟨after, h⟩, -, -⟩
  exact absurd h (by simp)

theorem firstAt_cons : FirstAt P (a :: l) before b ↔
    (P [] a ∧ before = [] ∧ b = a) ∨
      (¬ P [] a ∧ ∃ rest, before = a :: rest ∧ FirstAt (fun before => P (a :: before)) l rest b) := by
  constructor
  · rintro ⟨⟨after, h⟩, hfails, hpassed⟩
    cases before with
    | nil =>
      obtain ⟨rfl, -⟩ := List.cons.inj h
      exact .inl ⟨hfails, rfl, rfl⟩
    | cons c before =>
      obtain ⟨rfl, htail⟩ := List.cons.inj h
      obtain ⟨ha, hbefore⟩ := nowhere_cons.1 hpassed
      exact .inr ⟨ha, before, rfl, ⟨after, htail⟩, hfails, hbefore⟩
  · rintro (⟨ha, rfl, rfl⟩ | ⟨ha, rest, rfl, ⟨after, rfl⟩, hfails, hpassed⟩)
    · exact ⟨⟨l, rfl⟩, ha, nowhere_nil⟩
    · exact ⟨⟨after, rfl⟩, hfails, nowhere_cons.2 ⟨ha, hpassed⟩⟩

/-- The first element is at the front, or it is the first one of the rest. -/
theorem exists_firstAt_cons {Q : List α → α → Prop} : (∃ before b, FirstAt P (a :: l) before b ∧ Q before b) ↔
    (P [] a ∧ Q [] a) ∨
      (¬ P [] a ∧ ∃ before b, FirstAt (fun before => P (a :: before)) l before b ∧ Q (a :: before) b) := by
  constructor
  · rintro ⟨before, b, hfirst, hQ⟩
    rcases firstAt_cons.1 hfirst with ⟨ha, rfl, rfl⟩ | ⟨ha, rest, rfl, hrest⟩
    · exact .inl ⟨ha, hQ⟩
    · exact .inr ⟨ha, rest, b, hrest, hQ⟩
  · rintro (⟨ha, hQ⟩ | ⟨ha, rest, b, hrest, hQ⟩)
    · exact ⟨[], a, firstAt_cons.2 (.inl ⟨ha, rfl, rfl⟩), hQ⟩
    · exact ⟨a :: rest, b, firstAt_cons.2 (.inr ⟨ha, rest, rfl, hrest⟩), hQ⟩

/-- Where an element has `P`, one of them is the first. -/
theorem nowhere_iff : Nowhere P l ↔ ∀ before a, ¬ FirstAt P l before a := by
  constructor
  · rintro h before a ⟨⟨after, hl⟩, hfails, -⟩
    exact h before a after hl hfails
  · intro h
    induction l generalizing P with
    | nil => exact nowhere_nil
    | cons b l ih =>
      have hb : ¬ P [] b := fun hb => h [] b (firstAt_cons.2 (.inl ⟨hb, rfl, rfl⟩))
      refine nowhere_cons.2 ⟨hb, ih fun rest a hfirst => ?_⟩
      exact h (b :: rest) a (firstAt_cons.2 (.inr ⟨hb, rest, rfl, hfirst⟩))

end Phasor
