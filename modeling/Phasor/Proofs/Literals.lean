import Phasor.Proofs.NumberTexts

/-!
# Numbers of expressions and numbers as input

A number of an expression is a numeral, perhaps with the suffix `i`; a literal may have a sign as well, or be the suffix
alone; input may have both parts. Main statement: each of the three grammars lies in the next, and the readers agree on
what they share, where a number that is too large for a double is an error as a literal and an infinity as input
(`grammars_nest`).
-/

namespace Phasor

open Text Numeral

/-! ### Literals and input by their forms -/

namespace Complex

variable {t : String} {x y : Float} {z : Complex}

/-- A literal whose parts are finite, an error otherwise. -/
def finiteOr (t : String) (x y : Float) : Except EvalError Complex :=
  if x.isFinite && y.isFinite then .ok (ofParts x y) else .error (.invalidLiteral t)

theorem ofLiteral_of_realText (h : RealText t.toList x) : ofLiteral t = finiteOr t x 0 := by
  rw [ofLiteral, imaginary?_of_realText h, real?_eq_some_iff.2 h]
  rfl

theorem ofLiteral_of_imaginaryText (h : ImaginaryText t.toList y) : ofLiteral t = finiteOr t 0 y := by
  rw [ofLiteral, imaginary?_eq_some_iff.2 h]
  rfl

theorem ofLiteral_eq_ok (h : ofLiteral t = .ok z) :
    (∃ x, RealText t.toList x ∧ z = ofParts x 0) ∨ (∃ y, ImaginaryText t.toList y ∧ z = ofParts 0 y) := by
  unfold ofLiteral at h
  dsimp only at h
  cases himaginary : imaginary? t.toList with
  | some y =>
    rw [himaginary] at h
    dsimp only at h
    split at h
    · exact .inr ⟨y, imaginary?_eq_some_iff.1 himaginary, (Except.ok.inj h).symm⟩
    · exact absurd h (by simp)
  | none =>
    rw [himaginary] at h
    dsimp only at h
    cases hreal : real? t.toList with
    | some x =>
      rw [hreal] at h
      dsimp only [Option.map_some] at h
      split at h
      · exact .inl ⟨x, real?_eq_some_iff.1 hreal, (Except.ok.inj h).symm⟩
      · exact absurd h (by simp)
    | none =>
      rw [hreal] at h
      exact absurd h (by simp)

theorem ofInput_of_realText (h : RealText (squeeze t.toList) x) : ofInput t = .ok (ofParts x 0) := by
  rw [ofInput, real?_eq_some_iff.2 h]

theorem ofInput_of_imaginaryText (h : ImaginaryText (squeeze t.toList) y) : ofInput t = .ok (ofParts 0 y) := by
  rw [ofInput, real?_of_imaginaryText h, imaginary?_eq_some_iff.2 h]

theorem ofInput_of_sumText (h : SumText (squeeze t.toList) x y) : ofInput t = .ok (ofParts x y) := by
  rw [ofInput, real?_of_sumText h, imaginary?_of_sumText h, sum?_eq_some_iff.2 h]

theorem ofInput_eq_ok (h : ofInput t = .ok z) :
    (∃ x, RealText (squeeze t.toList) x ∧ z = ofParts x 0) ∨
    (∃ y, ImaginaryText (squeeze t.toList) y ∧ z = ofParts 0 y) ∨
    (∃ x y, SumText (squeeze t.toList) x y ∧ z = ofParts x y) := by
  unfold ofInput at h
  dsimp only at h
  split at h
  · rename_i x hreal
    exact .inl ⟨x, real?_eq_some_iff.1 hreal, (Except.ok.inj h).symm⟩
  · rename_i y _ himaginary
    exact .inr (.inl ⟨y, imaginary?_eq_some_iff.1 himaginary, (Except.ok.inj h).symm⟩)
  · rename_i x y _ _ hsum
    exact .inr (.inr ⟨x, y, sum?_eq_some_iff.1 hsum, (Except.ok.inj h).symm⟩)
  · exact absurd h (by simp)

end Complex

/-! ### Numbers of expressions -/

namespace Token

theorem mantissaText_mantissa (cs : List Char) (h : mantissa cs ≠ []) :
    ∃ ws fs, MantissaText (mantissa cs) ws fs := by
  have hwhole : IsDigits (cs.takeWhile isDigit) := fun c hc => List.mem_takeWhile_imp hc
  rcases mantissa_cases cs with hdigits | ⟨ds, hds, hne, hpoint⟩
  · rw [hdigits] at h ⊢
    exact ⟨_, _, .whole _ hwhole h⟩
  · rw [hpoint]
    exact ⟨_, _, .point _ ds hwhole hds (.inr hne)⟩

theorem powerText_exponent (cs : List Char) : ∃ p, PowerText (exponent cs) p := by
  rcases exponent_cases cs with hnone | ⟨sign, ds, hsign, hds, hne, hexponent⟩
  · rw [hnone]
    exact ⟨0, .none⟩
  · rw [hexponent]
    obtain ⟨negative, hsign⟩ : ∃ negative, SignText sign negative := by
      rcases hsign with rfl | rfl | rfl
      · exact ⟨_, .none⟩
      · exact ⟨_, .plus⟩
      · exact ⟨_, .minus⟩
    exact ⟨_, .some 'e' (.inl rfl) sign negative hsign ds hds hne⟩

/-- A number of an expression is a numeral, perhaps with the suffix. -/
theorem spells_of_isNumber {t : String} (h : isNumber t = true) :
    ∃ n ns, Spells ns n ∧ (t.toList = ns ∨ t.toList = ns ++ ['i']) := by
  obtain ⟨hne, hnumber⟩ := isNumber_iff.1 h
  rcases number_eq t.toList with hnil | ⟨hmantissa, ds, es, hparts⟩
  · exact absurd (hnumber.symm.trans hnil) hne
  obtain ⟨ws, fs, hms⟩ := mantissaText_mantissa _ hmantissa
  obtain ⟨p, hps⟩ := powerText_exponent ds
  have htext := hnumber.symm.trans hparts
  refine ⟨⟨ws, fs, p⟩, _, ⟨_, _, hms, hps, rfl⟩, ?_⟩
  rw [← List.append_assoc] at htext
  rcases unit_cases es with hunit | hunit
  · rw [hunit, List.append_nil] at htext
    exact .inl htext
  · rw [hunit] at htext
    exact .inr htext

end Token

/-! ### The grammars nest -/

namespace Complex

variable {t : String} {x y : Float} {z : Complex}

theorem isFinite_ofParts (x y : Float) : (ofParts x y).isFinite = (x.isFinite && y.isFinite) := by
  rw [isFinite, ofParts, Double.isFinite_add_zero, Double.isFinite_add_zero]

theorem isFinite_iff : z.isFinite = true ↔ z.re.isFinite = true ∧ z.im.isFinite = true :=
  Bool.and_eq_true_iff

theorem isFinite_ofParts_iff :
    (ofParts x y).isFinite = true ↔ x.isFinite = true ∧ y.isFinite = true := by
  rw [isFinite_ofParts, Bool.and_eq_true]

theorem finiteOr_eq (t : String) (x y : Float) :
    finiteOr t x y = if (ofParts x y).isFinite then .ok (ofParts x y) else .error (.invalidLiteral t) := by
  rw [finiteOr, isFinite_ofParts]

/-- The texts in two parts, `a+bi` and `a-bi`. -/
def InTwoParts (t : String) : Prop := ∃ x y, SumText t.toList x y

theorem isFinite_ofParts_left (x : Float) : (ofParts x 0).isFinite = x.isFinite := by
  rw [isFinite_ofParts]
  exact Bool.and_true _

theorem isFinite_ofParts_right (y : Float) : (ofParts 0 y).isFinite = y.isFinite := by
  rw [isFinite_ofParts]
  exact Bool.true_and _

/-- The number of an expression is read as its nearest double, if that is finite. -/
theorem ofLiteral_of_isNumber (h : Token.isNumber t = true) : ∃ n ns z, Spells ns n ∧
    (t.toList = ns ∧ z = ofParts (Double.nearest n.exact) 0 ∨
      t.toList = ns ++ ['i'] ∧ z = ofParts 0 (Double.nearest n.exact)) ∧
    ofLiteral t = if n.exact < Double.limit then .ok z else .error (.invalidLiteral t) := by
  obtain ⟨n, ns, hn, ht⟩ := Token.spells_of_isNumber h
  rcases ht with ht | ht
  · have htext : RealText t.toList n.value := ht ▸ .mk .none hn
    refine ⟨n, ns, ofParts n.value 0, hn, .inl ⟨ht, by rw [value_eq_nearest]⟩, ?_⟩
    rw [ofLiteral_of_realText htext, finiteOr_eq, isFinite_ofParts_left]
    simp only [isFinite_value]
  · have htext : ImaginaryText t.toList n.value := ht ▸ .mk .none (.numeral hn)
    refine ⟨n, ns, ofParts 0 n.value, hn, .inr ⟨ht, by rw [value_eq_nearest]⟩, ?_⟩
    rw [ofLiteral_of_imaginaryText htext, finiteOr_eq, isFinite_ofParts_right]
    simp only [isFinite_value]

theorem ofInput_of_ofLiteral (h : ofLiteral t = .ok z) : ofInput t = .ok z := by
  rcases ofLiteral_eq_ok h with ⟨x, hx, rfl⟩ | ⟨y, hy, rfl⟩
  · have hsqueeze := squeeze_eq_self_of_isNumberChar (isNumberChar_of_realText hx)
    exact ofInput_of_realText (hsqueeze.symm ▸ hx)
  · have hsqueeze := squeeze_eq_self_of_isNumberChar (isNumberChar_of_imaginaryText hy)
    exact ofInput_of_imaginaryText (hsqueeze.symm ▸ hy)

theorem ofLiteral_of_ofInput (hblank : ∀ c ∈ t.toList, isBlank c = false) (hparts : ¬ InTwoParts t)
    (h : ofInput t = .ok z) : ofLiteral t = if z.isFinite then .ok z else .error (.invalidLiteral t) := by
  have hcases := ofInput_eq_ok h
  rw [squeeze_eq_self hblank] at hcases
  rcases hcases with ⟨x, hx, rfl⟩ | ⟨y, hy, rfl⟩ | ⟨x, y, hsum, -⟩
  · rw [ofLiteral_of_realText hx, finiteOr_eq]
  · rw [ofLiteral_of_imaginaryText hy, finiteOr_eq]
  · exact absurd ⟨x, y, hsum⟩ hparts

/-- The numbers of expressions are literals unless they are too large for a double, literals are input with the same
value, and input without blanks that is not in two parts is a literal again where it is finite. -/
theorem grammars_nest (t : String) :
    (Token.isNumber t = true → ∃ n ns z, Spells ns n ∧
      (t.toList = ns ∧ z = ofParts (Double.nearest n.exact) 0 ∨
        t.toList = ns ++ ['i'] ∧ z = ofParts 0 (Double.nearest n.exact)) ∧
      ofLiteral t = if n.exact < Double.limit then .ok z else .error (.invalidLiteral t)) ∧
    (∀ z, ofLiteral t = .ok z → ofInput t = .ok z) ∧
    (∀ z, (∀ c ∈ t.toList, isBlank c = false) → ¬ InTwoParts t → ofInput t = .ok z →
      ofLiteral t = if z.isFinite then .ok z else .error (.invalidLiteral t)) :=
  ⟨ofLiteral_of_isNumber, fun _ => ofInput_of_ofLiteral, fun _ => ofLiteral_of_ofInput⟩

theorem grammars_nest_of_numbers :
    (Token.isNumber "2.5e-3i" = true ∧ ∃ z, ofLiteral "2.5e-3i" = .ok z ∧ ofInput "2.5e-3i" = .ok z) ∧
    (¬ InTwoParts "1e9999" ∧ ofInput "1e9999" = .ok ⟨1 / 0, 0⟩ ∧
      ofLiteral "1e9999" = .error (.invalidLiteral "1e9999")) := by
  have hnumber : Token.isNumber "2.5e-3i" = true := by decide +kernel
  have hinput : ofInput "1e9999" = .ok ⟨1 / 0, 0⟩ := by rfl
  have hreal : RealText "1e9999".toList (1 / 0) := real?_eq_some_iff.1 (by rfl)
  have hblank : ∀ c ∈ "1e9999".toList, isBlank c = false := fun c hc =>
    isBlank_of_isNumberChar (isNumberChar_of_realText hreal c hc)
  have hparts : ¬ InTwoParts "1e9999" := by
    rintro ⟨x, y, hsum⟩
    have hnone : sum? "1e9999".toList = none := by decide +kernel
    exact absurd (hnone.symm.trans (sum?_eq_some_iff.2 hsum)) (by simp)
  obtain ⟨hread, hagree, -⟩ := grammars_nest "2.5e-3i"
  obtain ⟨n, ns, z, -, -, hz⟩ := hread hnumber
  refine ⟨⟨hnumber, ?_⟩, hparts, hinput, ?_⟩
  · split at hz
    · exact ⟨z, hz, hagree z hz⟩
    · exact absurd hz (by decide +kernel)
  · have hlarge := (grammars_nest "1e9999").2.2 _ hblank hparts hinput
    rwa [if_neg (by decide +kernel)] at hlarge

end Complex
end Phasor
