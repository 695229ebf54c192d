import Mathlib.Data.List.TakeWhile
import Phasor.Token
import Phasor.Expr

/-!
# The classes of tokens

Numbers, identifiers, binary symbols and the three separators have no token in common: a number
starts with a digit or a point, an identifier with a letter or `_`, and the others are known by name.
-/

namespace Phasor

theorem isBinarySymbol_iff {s : String} : isBinarySymbol s = true ↔
    s = "+" ∨ s = "-" ∨ s = "*" ∨ s = "/" ∨ s = "**" ∨ s = "^" := by
  simp [isBinarySymbol]

/-- A run of the elements that `p` holds of ends where another element comes. -/
theorem span_append {α : Type} {p : α → Bool} {l x : List α} (hl : ∀ a ∈ l, p a = true)
    (hx : ∀ a ∈ x.head?, p a = false) : (l ++ x).takeWhile p = l ∧ (l ++ x).dropWhile p = x := by
  have hstop : x.takeWhile p = [] ∧ x.dropWhile p = x := by
    cases x with
    | nil => exact ⟨rfl, rfl⟩
    | cons a x => simp [hx a rfl]
  rw [List.takeWhile_append_of_pos hl, List.dropWhile_append_of_pos hl, hstop.1, hstop.2, List.append_nil]
  exact ⟨rfl, rfl⟩

namespace Token

/-- The separators of infix text. -/
def IsSeparator (t : String) : Prop := t = "(" ∨ t = ")" ∨ t = ","

instance : DecidablePred IsSeparator :=
  fun t => inferInstanceAs (Decidable (t = "(" ∨ t = ")" ∨ t = ","))

/-! ### Characters -/

theorem isDigit_iff {c : Char} : isDigit c = true ↔ 0x30 ≤ c.toNat ∧ c.toNat ≤ 0x39 := by
  show (decide (c.val ≥ '0'.val) && decide (c.val ≤ '9'.val)) = true ↔ _
  rw [Bool.and_eq_true, decide_eq_true_iff, decide_eq_true_iff]
  exact Iff.rfl

theorem isAlpha_iff {c : Char} : c.isAlpha = true ↔
    (0x41 ≤ c.toNat ∧ c.toNat ≤ 0x5A) ∨ (0x61 ≤ c.toNat ∧ c.toNat ≤ 0x7A) := by
  show (decide (c.val ≥ 'A'.val ∧ c.val ≤ 'Z'.val) ||
    (decide (c.val ≥ 'a'.val) && decide (c.val ≤ 'z'.val))) = true ↔ _
  rw [Bool.or_eq_true, Bool.and_eq_true, decide_eq_true_iff, decide_eq_true_iff, decide_eq_true_iff]
  exact Iff.rfl

theorem isIdentRest_of_isDigit {c : Char} (h : isDigit c = true) : isIdentRest c = true := by
  have hd : c.isDigit = true := h
  show ((c.isAlpha || c.isDigit) || c == '_') = true
  rw [hd, Bool.or_true, Bool.true_or]

theorem isIdentRest_of_isIdentStart {c : Char} (h : isIdentStart c = true) : isIdentRest c = true := by
  show ((c.isAlpha || c.isDigit) || c == '_') = true
  rcases Bool.or_eq_true_iff.1 h with h | h
  · rw [h, Bool.true_or, Bool.true_or]
  · rw [h, Bool.or_true]

theorem isDigit_of_isIdentStart {c : Char} (h : isIdentStart c = true) : isDigit c = false := by
  rw [Bool.eq_false_iff]
  intro hd
  have hd := isDigit_iff.1 hd
  rcases Bool.or_eq_true_iff.1 h with h | h
  · have h := isAlpha_iff.1 h
    omega
  · rw [beq_iff_eq.1 h] at hd
    exact absurd hd (by decide)

/-- They lie between `0` and `z`. -/
theorem toNat_of_isIdentRest {c : Char} (h : isIdentRest c = true) : 0x30 ≤ c.toNat ∧ c.toNat ≤ 0x7A := by
  rcases Bool.or_eq_true_iff.1 h with h | h
  · rcases Bool.or_eq_true_iff.1 h with h | h
    · have h := isAlpha_iff.1 h
      omega
    · have h := isDigit_iff.1 h
      omega
  · rw [beq_iff_eq.1 h]
    decide

/-! ### What numbers and identifiers are made of -/

theorem isNumber_iff {t : String} : isNumber t = true ↔ t.toList ≠ [] ∧ number t.toList = t.toList := by
  simp [isNumber]

theorem isIdentifier_iff {t : String} :
    isIdentifier t = true ↔ t.toList ≠ [] ∧ identifier t.toList = t.toList := by
  simp [isIdentifier]

theorem number_eq_nil_of_head {c : Char} {r : List Char} (hd : isDigit c = false) (hp : c ≠ '.') :
    number (c :: r) = [] := by
  have hm : mantissa (c :: r) = [] := by
    unfold mantissa
    simp only [List.dropWhile_cons, hd, List.takeWhile_cons, Bool.false_eq_true, ↓reduceIte]
    split
    · rename_i h; exact absurd (List.cons.inj h).1 hp
    · rfl
  simp [number, hm]

theorem exists_cons_of_isIdentifier {t : String} (h : isIdentifier t = true) :
    ∃ c r, t.toList = c :: r ∧ isIdentStart c = true ∧ ∀ x ∈ r, isIdentRest x = true := by
  obtain ⟨hne, heq⟩ := isIdentifier_iff.1 h
  obtain ⟨c, r, hcr⟩ := List.exists_cons_of_ne_nil hne
  rw [hcr] at heq
  unfold identifier at heq
  split at heq
  · rename_i hc; injection hc with hc hr; subst hc hr
    split at heq
    · refine ⟨c, r, hcr, ‹_›, fun x hx => ?_⟩
      rw [← (List.cons.inj heq).2] at hx
      exact List.mem_takeWhile_imp hx
    · exact absurd heq (by simp)
  · exact absurd heq (by simp)

theorem isIdentRest_of_isIdentifier {t : String} (h : isIdentifier t = true) :
    ∀ c ∈ t.toList, isIdentRest c = true := by
  obtain ⟨c, r, hcr, hc, hr⟩ := exists_cons_of_isIdentifier h
  rw [hcr]
  exact List.forall_mem_cons.2 ⟨isIdentRest_of_isIdentStart hc, hr⟩

theorem isNumber_of_isIdentifier {t : String} (h : isIdentifier t = true) : isNumber t = false := by
  obtain ⟨c, r, hcr, hc, -⟩ := exists_cons_of_isIdentifier h
  have hp : c ≠ '.' := by rintro rfl; exact absurd hc (by decide)
  rw [Bool.eq_false_iff]
  intro hn
  obtain ⟨-, heq⟩ := isNumber_iff.1 hn
  rw [hcr, number_eq_nil_of_head (isDigit_of_isIdentStart hc) hp] at heq
  exact absurd heq (by simp)

theorem isIdentifier_of_isNumber {t : String} (h : isNumber t = true) : isIdentifier t = false := by
  rw [Bool.eq_false_iff]
  intro hi
  rw [isNumber_of_isIdentifier hi] at h
  exact absurd h (by decide)

theorem mem_mantissa {cs : List Char} {c : Char} (h : c ∈ mantissa cs) : isDigit c = true ∨ c = '.' := by
  unfold mantissa at h
  split at h
  · split at h
    · exact .inl (List.mem_takeWhile_imp h)
    · rcases List.mem_append.1 h with h | h
      · exact .inl (List.mem_takeWhile_imp h)
      rcases List.mem_cons.1 h with rfl | h
      · exact .inr rfl
      · exact .inl (List.mem_takeWhile_imp h)
  · exact .inl (List.mem_takeWhile_imp h)

theorem mem_exponentSign {cs : List Char} {c : Char} (h : c ∈ exponentSign cs) : c = '+' ∨ c = '-' := by
  unfold exponentSign at h
  split at h
  · exact .inl (List.mem_singleton.1 h)
  · exact .inr (List.mem_singleton.1 h)
  · exact absurd h List.not_mem_nil

theorem mem_exponent {cs : List Char} {c : Char} (h : c ∈ exponent cs) :
    isDigit c = true ∨ c = 'e' ∨ c = '+' ∨ c = '-' := by
  unfold exponent at h
  split at h
  · dsimp only at h
    split at h
    · exact absurd h List.not_mem_nil
    rcases List.mem_append.1 h with h | h
    · rcases List.mem_cons.1 h with rfl | h
      · exact .inr (.inl rfl)
      · exact .inr (.inr (mem_exponentSign h))
    · exact .inl (List.mem_takeWhile_imp h)
  · exact absurd h List.not_mem_nil

theorem mem_unit {cs : List Char} {c : Char} (h : c ∈ unit cs) : c = 'i' := by
  unfold unit at h
  split at h
  · exact List.mem_singleton.1 h
  · exact absurd h List.not_mem_nil

theorem mem_number {cs : List Char} {c : Char} (h : c ∈ number cs) :
    isDigit c = true ∨ c = '.' ∨ c = 'e' ∨ c = '+' ∨ c = '-' ∨ c = 'i' := by
  unfold number at h
  dsimp only at h
  split at h
  · exact absurd h List.not_mem_nil
  rcases List.mem_append.1 h with h | h
  · rcases List.mem_append.1 h with h | h
    · rcases mem_mantissa h with h | h
      · exact .inl h
      · exact .inr (.inl h)
    · rcases mem_exponent h with h | h | h | h
      · exact .inl h
      · exact .inr (.inr (.inl h))
      · exact .inr (.inr (.inr (.inl h)))
      · exact .inr (.inr (.inr (.inr (.inl h))))
  · exact .inr (.inr (.inr (.inr (.inr (mem_unit h)))))

/-! ### Tokens known by name -/

theorem isNumber_of_isSeparator {t : String} (h : IsSeparator t) : isNumber t = false := by
  rcases h with rfl | rfl | rfl <;> rfl

theorem isIdentifier_of_isSeparator {t : String} (h : IsSeparator t) : isIdentifier t = false := by
  rcases h with rfl | rfl | rfl <;> rfl

theorem isNumber_of_isBinarySymbol {t : String} (h : isBinarySymbol t = true) : isNumber t = false := by
  rcases isBinarySymbol_iff.1 h with rfl | rfl | rfl | rfl | rfl | rfl <;> rfl

theorem isIdentifier_of_isBinarySymbol {t : String} (h : isBinarySymbol t = true) :
    isIdentifier t = false := by
  rcases isBinarySymbol_iff.1 h with rfl | rfl | rfl | rfl | rfl | rfl <;> rfl

theorem isBinarySymbol_of_isSeparator {t : String} (h : IsSeparator t) : isBinarySymbol t = false := by
  rcases h with rfl | rfl | rfl <;> rfl

theorem isBinarySymbol_of_isOperand {t : String} (h : isNumber t = true ∨ isIdentifier t = true) :
    isBinarySymbol t = false := by
  rw [Bool.eq_false_iff]
  intro hs
  rw [isNumber_of_isBinarySymbol hs, isIdentifier_of_isBinarySymbol hs] at h
  exact absurd h (by decide)

theorem ne_separator {t s : String} (h : isNumber t = true ∨ isIdentifier t = true ∨ isBinarySymbol t = true)
    (hs : IsSeparator s) : t ≠ s := by
  rintro rfl
  rw [isNumber_of_isSeparator hs, isIdentifier_of_isSeparator hs, isBinarySymbol_of_isSeparator hs] at h
  exact absurd h (by decide)

theorem beq_separator {t s : String} (h : isNumber t = true ∨ isIdentifier t = true ∨ isBinarySymbol t = true)
    (hs : IsSeparator s) : (t == s) = false :=
  beq_eq_false_iff_ne.2 (ne_separator h hs)

end Token
end Phasor
