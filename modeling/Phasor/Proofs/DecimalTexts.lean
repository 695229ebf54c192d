import Mathlib
import Phasor.Decimal.Text
import Phasor.Proofs.Numerals

/-!
# Decimals in writing

`layout` writes a decimal as a numeral whose exact value is that of the decimal (`writes_layout`), positional or
scientific, and with the zeros at the end of the coefficient left out.
-/

namespace Phasor.Decimal

open Numeral

/-! ### Digits -/

theorem isDigits_toDigits (n : ℕ) : IsDigits (Nat.toDigits 10 n) :=
  fun _ hc => Nat.isDigit_of_mem_toDigits (by decide) (by decide) hc

theorem isDigits_zeros (k : ℕ) : IsDigits (List.replicate k '0') := by
  intro c hc
  rw [List.eq_of_mem_replicate hc]
  rfl

theorem isDigits_append {ds es : List Char} (hds : IsDigits ds) (hes : IsDigits es) : IsDigits (ds ++ es) :=
  List.forall_mem_append.2 ⟨hds, hes⟩

theorem ofDigitChars_zeros_append (k : ℕ) (ds : List Char) :
    Nat.ofDigitChars 10 (List.replicate k '0' ++ ds) 0 = Nat.ofDigitChars 10 ds 0 := by
  rw [Nat.ofDigitChars_append, Nat.ofDigitChars_replicate_zero, Nat.mul_zero]

theorem ofDigitChars_append_zeros (ds : List Char) (k : ℕ) :
    Nat.ofDigitChars 10 (ds ++ List.replicate k '0') 0 = Nat.ofDigitChars 10 ds 0 * 10 ^ k := by
  rw [Nat.ofDigitChars_append, Nat.ofDigitChars_replicate_zero, Nat.mul_comm]

theorem eq_dropTrailingZeros_append (ds : List Char) :
    ∃ k, ds = dropTrailingZeros ds ++ List.replicate k '0' := by
  refine ⟨(ds.reverse.takeWhile (· == '0')).length, ?_⟩
  have hzeros : ds.reverse.takeWhile (· == '0') = List.replicate (ds.reverse.takeWhile (· == '0')).length '0' :=
    List.eq_replicate_of_mem fun c hc => by simpa using List.mem_takeWhile_imp hc
  have hsplit : ds.reverse.takeWhile (· == '0') ++ ds.reverse.dropWhile (· == '0') = ds.reverse :=
    List.takeWhile_append_dropWhile
  rw [dropTrailingZeros, ← List.reverse_replicate, ← hzeros, ← List.reverse_append, hsplit, List.reverse_reverse]

theorem isDigits_dropTrailingZeros {ds : List Char} (h : IsDigits ds) : IsDigits (dropTrailingZeros ds) := by
  obtain ⟨k, hds⟩ := eq_dropTrailingZeros_append ds
  exact fun c hc => h c (by rw [hds]; exact List.mem_append_left _ hc)

theorem dropTrailingZeros_ne_nil {ds : List Char} (h : 0 < Nat.ofDigitChars 10 ds 0) : dropTrailingZeros ds ≠ [] := by
  obtain ⟨k, hds⟩ := eq_dropTrailingZeros_append ds
  intro hnil
  rw [hds, ofDigitChars_append_zeros, hnil] at h
  exact absurd h (by simp)

/-! ### Positional and scientific texts -/

variable {ds : List Char} {e : ℤ}

/-- What may follow a whole number in positional form. -/
def IsTail (tail : String) : Prop := tail = "" ∨ tail = ".0"

theorem writes_digits (hds : IsDigits ds) (hne : ds ≠ []) : Writes ds (Nat.ofDigitChars 10 ds 0) := by
  have h := writes_of_mantissaText (.whole ds hds hne) .none
  rw [List.append_nil] at h
  simpa using h

theorem writes_point {ws fs : List Char} (hws : IsDigits ws) (hfs : IsDigits fs) (hne : ws ≠ [] ∨ fs ≠ []) :
    Writes (ws ++ '.' :: fs) (Nat.ofDigitChars 10 (ws ++ fs) 0 * 10 ^ (-fs.length : ℤ)) := by
  have h := writes_of_mantissaText (.point ws fs hws hfs hne) .none
  rwa [List.append_nil, zero_sub] at h

theorem writes_tail {tail : String} (htail : IsTail tail) (hds : IsDigits ds) (hne : ds ≠ []) :
    Writes (ds ++ tail.toList) (Nat.ofDigitChars 10 ds 0) := by
  rcases htail with rfl | rfl
  · rw [show "".toList = [] by rfl, List.append_nil]
    exact writes_digits hds hne
  · have h := writes_point hds (isDigits_zeros 1) (.inl hne)
    have hvalue : (Nat.ofDigitChars 10 (ds ++ List.replicate 1 '0') 0 * 10 ^ (-(List.replicate 1 '0').length : ℤ) : ℚ) =
        Nat.ofDigitChars 10 ds 0 := by
      rw [ofDigitChars_append_zeros, List.length_replicate, pow_one, Nat.cast_mul, mul_assoc]
      norm_num
    rw [hvalue] at h
    exact h

theorem writes_positional {tail : String} (htail : IsTail tail) (hds : IsDigits ds) (hne : ds ≠ []) (e : ℤ) :
    Writes (positional tail ds e).toList (Nat.ofDigitChars 10 ds 0 * 10 ^ (e + 1 - ds.length)) := by
  unfold positional
  split
  · rename_i hneg
    have h := writes_point (isDigits_zeros 1) (isDigits_append (isDigits_zeros (e.natAbs - 1)) hds) (.inl (by simp))
    have hpower : (-(List.replicate (e.natAbs - 1) '0' ++ ds).length : ℤ) = e + 1 - ds.length := by
      rw [List.length_append, List.length_replicate]
      omega
    rw [hpower, ofDigitChars_zeros_append, ofDigitChars_zeros_append] at h
    rw [String.toList_ofList]
    exact h
  rename_i hpos
  dsimp only
  have hplaces : (e + 1 : ℤ) = (e.toNat + 1 : ℕ) := by omega
  rw [hplaces]
  generalize e.toNat + 1 = k
  split
  · rename_i hle
    have h := writes_tail htail (isDigits_append hds (isDigits_zeros (k - ds.length))) (by simp [hne])
    rw [ofDigitChars_append_zeros, Nat.cast_mul, Nat.cast_pow, Nat.cast_ofNat, ← zpow_natCast, Nat.cast_sub hle] at h
    rw [String.toList_append, String.toList_ofList]
    exact h
  · rename_i hlt
    have htake : IsDigits (ds.take k) := fun c hc => hds c (List.mem_of_mem_take hc)
    have hdrop : IsDigits (ds.drop k) := fun c hc => hds c (List.mem_of_mem_drop hc)
    have h := writes_point htake hdrop (.inr (by simp; omega))
    have hpower : (-(ds.drop k).length : ℤ) = k - ds.length := by
      rw [List.length_drop]
      omega
    rw [List.take_append_drop, hpower] at h
    rw [String.toList_ofList]
    exact h

theorem powerText_exponentText (e : ℤ) : PowerText (exponentText e).toList e := by
  obtain ⟨sign, hsign, htext⟩ : ∃ sign, SignText sign (decide (e < 0)) ∧
      (if e < 0 then "e-" else "e+").toList = 'e' :: sign := by
    by_cases hneg : e < 0
    · rw [decide_eq_true hneg, if_pos hneg]
      exact ⟨_, .minus, rfl⟩
    · rw [decide_eq_false hneg, if_neg hneg]
      exact ⟨_, .plus, rfl⟩
  obtain ⟨k, hpad⟩ : ∃ k, (if e.natAbs < 10 then "0" else "").toList = List.replicate k '0' := by
    split
    · exact ⟨1, rfl⟩
    · exact ⟨0, rfl⟩
  have hdigits : (toString e.natAbs).toList = Nat.toDigits 10 e.natAbs := Nat.toList_repr
  have hvalue : withMinus (decide (e < 0))
      (Nat.ofDigitChars 10 (List.replicate k '0' ++ Nat.toDigits 10 e.natAbs) 0) = e := by
    rw [ofDigitChars_zeros_append, Nat.ofDigitChars_ten_toDigits, withMinus]
    simp only [decide_eq_true_eq]
    omega
  have h := PowerText.some 'e' (.inl rfl) sign _ hsign (List.replicate k '0' ++ Nat.toDigits 10 e.natAbs)
    (isDigits_append (isDigits_zeros k) (isDigits_toDigits _)) (by simp)
  rw [hvalue] at h
  rw [exponentText, String.toList_append, String.toList_append, htext, hpad, hdigits, List.append_assoc]
  exact h

theorem writes_scientific (hds : IsDigits ds) (hne : ds ≠ []) (e : ℤ) :
    Writes (scientific ds e).toList (Nat.ofDigitChars 10 ds 0 * 10 ^ (e + 1 - ds.length)) := by
  obtain ⟨d, r, rfl⟩ := List.exists_cons_of_ne_nil hne
  obtain ⟨hd, hr⟩ := List.forall_mem_cons.1 hds
  have hdigit : IsDigits [d] := List.forall_mem_singleton.2 hd
  unfold scientific
  cases r with
  | nil =>
    have h := writes_of_mantissaText (.whole [d] hdigit (by simp)) (powerText_exponentText e)
    rw [String.toList_append, String.toList_ofList]
    simpa using h
  | cons d' r =>
    have h := writes_of_mantissaText (.point [d] (d' :: r) hdigit hr (.inl (by simp))) (powerText_exponentText e)
    have hpower : e + 1 - ((d :: d' :: r).length : ℤ) = e - (d' :: r).length := by
      rw [List.length_cons]
      omega
    rw [String.toList_append, String.toList_ofList, hpower]
    exact h

/-! ### Layout -/

theorem writes_layout {tail : String} (htail : IsTail tail) {d : Decimal} (hd : 0 < d.coefficient) :
    Writes (layout tail d).toList (d.coefficient * 10 ^ d.power) := by
  have hvalue : Nat.ofDigitChars 10 (Nat.toDigits 10 d.coefficient) 0 = d.coefficient := Nat.ofDigitChars_ten_toDigits
  obtain ⟨k, hds⟩ := eq_dropTrailingZeros_append (Nat.toDigits 10 d.coefficient)
  have hdigits := isDigits_dropTrailingZeros (isDigits_toDigits d.coefficient)
  have hne := dropTrailingZeros_ne_nil (hvalue.symm ▸ hd)
  unfold layout
  dsimp only
  generalize hall : Nat.toDigits 10 d.coefficient = all at hvalue hds hdigits hne ⊢
  generalize dropTrailingZeros all = ds at hds hdigits hne ⊢
  -- the zeros left out are in the power of the leading digit
  have hscaled : (Nat.ofDigitChars 10 ds 0 * 10 ^ (d.power + all.length - 1 + 1 - ds.length) : ℚ) =
      d.coefficient * 10 ^ d.power := by
    have hlength : (d.power + all.length - 1 + 1 - ds.length : ℤ) = k + d.power := by
      rw [hds, List.length_append, List.length_replicate]
      omega
    rw [hlength, zpow_add₀ (by norm_num), zpow_natCast, ← mul_assoc, ← hvalue, hds, ofDigitChars_append_zeros]
    push_cast
    rfl
  rw [← hscaled]
  split
  · exact writes_positional htail hdigits hne _
  · exact writes_scientific hdigits hne _

end Phasor.Decimal
