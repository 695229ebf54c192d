import Phasor.Elementary.Platform
import Phasor.Proofs.Roots
import Phasor.Proofs.Safety
import Phasor.Proofs.SquareRoots

/-!
# Values that are not finite

Literals, negation, conjugates and powers give finite numbers or an error (`Complex.isFinite_of_power`). The other
operations do not look at their results, and are finite exactly if every number they compute is below the limit
(`Complex.isFinite_add_iff`, `isFinite_mul_iff`, `isFinite_div_iff`, `isFinite_sqrt_iff`, `applyRoot_overflows_iff`). So
where a tree has a value that is not finite, one of its nodes has finite operands and overflows
(`Expr.isFinite_or_overflows`).
-/

namespace Phasor

open Double (value limit)

namespace Complex

variable {z w p : Complex}

/-! ### Operations that stay finite -/

theorem isFinite_neg (h : z.isFinite = true) : z.neg.isFinite = true := by
  obtain ⟨hre, him⟩ := isFinite_iff.1 h
  exact isFinite_ofParts_iff.2 ⟨Double.isFinite_neg_iff.2 hre, Double.isFinite_neg_iff.2 him⟩

theorem isFinite_conj (h : z.isFinite = true) : z.conj.isFinite = true := by
  obtain ⟨hre, him⟩ := isFinite_iff.1 h
  exact isFinite_ofParts_iff.2 ⟨hre, Double.isFinite_neg_iff.2 him⟩

theorem isFinite_of_ofLiteral {t : String} (h : ofLiteral t = .ok z) : z.isFinite = true := by
  unfold ofLiteral at h
  dsimp only at h
  split at h
  · rename_i x y hread
    split at h
    · rename_i hfinite
      obtain rfl := Except.ok.inj h
      exact (isFinite_ofParts x y).trans hfinite
    · exact absurd h (by simp)
  · exact absurd h (by simp)

/-! ### Powers -/

theorem div_eq_ok (h : z.div w = .ok p) : (w.re * w.re + w.im * w.im == 0) = false ∧
    p = ofParts ((z.re * w.re + z.im * w.im) / (w.re * w.re + w.im * w.im))
      ((z.im * w.re - z.re * w.im) / (w.re * w.re + w.im * w.im)) := by
  unfold div at h
  dsimp only at h
  split at h
  · exact absurd h (by simp)
  · rename_i hne
    exact ⟨Bool.eq_false_of_not_eq_true hne, (Except.ok.inj h).symm⟩

/-- Inverting a finite number does not overflow: a number whose square is no longer a zero is not that small. -/
theorem isFinite_of_one_div (hw : w.isFinite = true) (h : one.div w = .ok p) : p.isFinite = true := by
  obtain ⟨hre, him⟩ := isFinite_iff.1 hw
  obtain ⟨hne, rfl⟩ := div_eq_ok h
  obtain ⟨hnum, hnum'⟩ := Double.one_mul_add_zero_mul hre him
  obtain ⟨hnumIm, hnumIm'⟩ := Double.zero_mul_sub_one_mul hre him
  refine isFinite_ofParts_iff.2 ⟨?_, ?_⟩
  · exact Double.isFinite_div_sum_of_squares hnum hre him (.inl (congrArg abs hnum')) hne
  · exact Double.isFinite_div_sum_of_squares hnumIm hre him (.inr ((congrArg abs hnumIm').trans (abs_neg _))) hne

theorem isFinite_of_mulTimes {n : ℕ} {acc : Complex} (hacc : acc.isFinite = true) (h : mulTimes z n acc = some p) :
    p.isFinite = true := by
  induction n generalizing acc with
  | zero =>
    obtain rfl := Option.some.inj h
    exact hacc
  | succ n ih =>
    rw [mulTimes] at h
    split at h
    · rename_i hfinite
      exact ih hfinite h
    · exact absurd h (by simp)

theorem isFinite_of_intPower {n : ℤ} (h : z.intPower n = .ok p) : p.isFinite = true := by
  unfold intPower at h
  split at h
  · exact absurd h (by simp)
  · rename_i q hq
    have hfinite := isFinite_of_mulTimes (by decide) hq
    split at h
    · exact isFinite_of_one_div hfinite h
    · obtain rfl := Except.ok.inj h
      exact hfinite

theorem isFinite_of_polarPower [Elementary] (h : z.polarPower w = .ok p) : p.isFinite = true := by
  unfold polarPower at h
  dsimp only at h
  split at h
  · exact absurd h (by simp)
  · exact absurd h (by simp)
  · generalize w.re * z.angle + w.im * Elementary.log _ = φ at h
    split at h
    · split at h
      · rename_i hfinite
        obtain rfl := Except.ok.inj h
        exact hfinite
      · exact absurd h (by simp)
    · exact absurd h (by simp)

/-- A power is finite or an error, whatever the numbers are. -/
theorem isFinite_of_power [Elementary] (h : z.power w = .ok p) : p.isFinite = true := by
  unfold power at h
  split at h
  · exact isFinite_of_intPower h
  · exact isFinite_of_polarPower h

/-! ### Operations that overflow -/

/-- The parts of a sum, before they are rounded. -/
def sums (z w : Complex) : List ℚ := [value z.re + value w.re, value z.im + value w.im]

def differences (z w : Complex) : List ℚ := [value z.re - value w.re, value z.im - value w.im]

/-- For each part of a product the two products it is put together from, and the part itself. -/
def products (z w : Complex) : List ℚ :=
  [value z.re * value w.re, value z.im * value w.im, value (z.re * w.re) - value (z.im * w.im),
    value z.re * value w.im, value z.im * value w.re, value (z.re * w.im) + value (z.im * w.re)]

/-- The same for the product with the conjugate. -/
def numerators (z w : Complex) : List ℚ :=
  [value z.re * value w.re, value z.im * value w.im, value (z.re * w.re) + value (z.im * w.im),
    value z.im * value w.re, value z.re * value w.im, value (z.im * w.re) - value (z.re * w.im)]

/-- The parts of a quotient, unless the square of the divisor's length overflows: then they are zeros. -/
def quotients (z w : Complex) : List ℚ :=
  let d := w.re * w.re + w.im * w.im
  if d.isFinite then
    [value (z.re * w.re + z.im * w.im) / value d, value (z.im * w.re - z.re * w.im) / value d]
  else []

theorem isFinite_add_iff (hz : z.isFinite = true) (hw : w.isFinite = true) :
    (z.add w).isFinite = true ↔ ∀ q ∈ sums z w, |q| < limit := by
  obtain ⟨hzre, hzim⟩ := isFinite_iff.1 hz
  obtain ⟨hwre, hwim⟩ := isFinite_iff.1 hw
  rw [add, isFinite_ofParts_iff, Double.isFinite_add_iff, Double.isFinite_add_iff]
  simp [sums, hzre, hzim, hwre, hwim]

theorem isFinite_sub_iff (hz : z.isFinite = true) (hw : w.isFinite = true) :
    (z.sub w).isFinite = true ↔ ∀ q ∈ differences z w, |q| < limit := by
  obtain ⟨hzre, hzim⟩ := isFinite_iff.1 hz
  obtain ⟨hwre, hwim⟩ := isFinite_iff.1 hw
  rw [sub, isFinite_ofParts_iff, Double.isFinite_sub_iff, Double.isFinite_sub_iff]
  simp [differences, hzre, hzim, hwre, hwim]

theorem isFinite_mul_iff (hz : z.isFinite = true) (hw : w.isFinite = true) :
    (z.mul w).isFinite = true ↔ ∀ q ∈ products z w, |q| < limit := by
  obtain ⟨hzre, hzim⟩ := isFinite_iff.1 hz
  obtain ⟨hwre, hwim⟩ := isFinite_iff.1 hw
  rw [mul, isFinite_ofParts_iff, Double.isFinite_mul_sub_mul_iff hzre hwre hzim hwim,
    Double.isFinite_mul_add_mul_iff hzre hwim hzim hwre]
  simp only [products, List.forall_mem_cons, List.not_mem_nil, false_implies, implies_true, and_true, and_assoc]

theorem isFinite_numerators_iff (hz : z.isFinite = true) (hw : w.isFinite = true) :
    (z.re * w.re + z.im * w.im).isFinite = true ∧ (z.im * w.re - z.re * w.im).isFinite = true ↔
      ∀ q ∈ numerators z w, |q| < limit := by
  obtain ⟨hzre, hzim⟩ := isFinite_iff.1 hz
  obtain ⟨hwre, hwim⟩ := isFinite_iff.1 hw
  rw [Double.isFinite_mul_add_mul_iff hzre hwre hzim hwim, Double.isFinite_mul_sub_mul_iff hzim hwre hzre hwim]
  simp only [numerators, List.forall_mem_cons, List.not_mem_nil, false_implies, implies_true, and_true, and_assoc]

theorem isFinite_div_iff (hz : z.isFinite = true) (hw : w.isFinite = true) (h : z.div w = .ok p) :
    p.isFinite = true ↔ ∀ q ∈ numerators z w ++ quotients z w, |q| < limit := by
  obtain ⟨hwre, hwim⟩ := isFinite_iff.1 hw
  obtain ⟨hne, rfl⟩ := div_eq_ok h
  rw [isFinite_ofParts_iff, List.forall_mem_append, ← isFinite_numerators_iff hz hw, quotients]
  rcases Double.sum_of_squares_cases hwre hwim with ⟨hd, -, -⟩ | hinf
  · have hvalue : value (w.re * w.re + w.im * w.im) ≠ 0 :=
      abs_pos.1 ((zpow_pos two_pos _).trans_le (Double.zpow_le_abs_value hd hne))
    rw [if_pos hd, Double.isFinite_div_iff hd hvalue, Double.isFinite_div_iff hd hvalue, and_and_and_comm]
    simp only [List.forall_mem_cons, List.not_mem_nil, false_implies, implies_true, and_true]
  · have hd : (w.re * w.re + w.im * w.im).isInf = true := Double.isInf_iff.2 ⟨_, hinf⟩
    have hfinite : ¬ (w.re * w.re + w.im * w.im).isFinite = true := by
      show ¬ (w.re * w.re + w.im * w.im).toModel.unpack.isFinite = true
      rw [hinf]
      exact Bool.false_ne_true
    rw [if_neg hfinite, Double.isFinite_div_iff_of_isInf hd, Double.isFinite_div_iff_of_isInf hd]
    simp only [List.not_mem_nil, false_implies, implies_true, and_true]

/-- The principal root overflows with the length of the number or with what it adds to that, and in no other way. -/
theorem isFinite_sqrt_iff [Elementary] (laws : Elementary.Lawful) (hz : z.isFinite = true) :
    (∃ p, z.sqrt = .ok p ∧ p.isFinite = true) ↔
      z.magnitude.isFinite = true ∧ value z.magnitude + |value z.re| < limit := by
  obtain ⟨hre, him⟩ := isFinite_iff.1 hz
  have hle : z.magnitude.isFinite = true → |value z.re| ≤ value z.magnitude := fun h => by
    rcases laws.hypot_cases hre him with hinf | ⟨-, hle, -⟩
    · have hmagnitude : z.magnitude = 1 / 0 := Double.eq_of_unpack hinf
      rw [hmagnitude] at h
      exact absurd h (by decide)
    · exact hle
  have hsum : (z.magnitude + z.re).isFinite = true → 0 ≤ value (z.magnitude + z.re) := fun h => by
    have hr := (Double.isFinite_add_iff.1 h).1
    refine (Double.roundsTo_add hr hre).nonneg h ?_
    linarith [hle hr, neg_abs_le (value z.re)]
  have hdifference : (z.magnitude - z.re).isFinite = true → 0 ≤ value (z.magnitude - z.re) := fun h => by
    have hr := (Double.isFinite_sub_iff.1 h).1
    refine (Double.roundsTo_sub hr hre).nonneg h ?_
    linarith [hle hr, le_abs_self (value z.re)]
  have hsign : ∀ x : Float, (if z.im < 0 then -x else x).isFinite = true ↔ x.isFinite = true := fun x => by
    split
    · exact Double.isFinite_neg_iff
    · exact Iff.rfl
  rw [sqrt_eq laws]
  simp only [Except.ok.injEq, exists_eq_left']
  rw [isFinite_ofParts_iff, hsign, Double.isFinite_sqrt_half_iff hsum, Double.isFinite_sqrt_half_iff hdifference,
    Double.isFinite_add_iff, Double.isFinite_sub_iff]
  constructor
  · rintro ⟨⟨hr, -, hadd⟩, -, -, hsub⟩
    refine ⟨hr, ?_⟩
    rcases abs_cases (value z.re) with ⟨habs, -⟩ | ⟨habs, -⟩
    · rw [habs]
      exact (le_abs_self _).trans_lt hadd
    · rw [habs, ← sub_eq_add_neg]
      exact (le_abs_self _).trans_lt hsub
  · rintro ⟨hr, hlimit⟩
    have hnonneg : |value z.magnitude| = value z.magnitude := abs_of_nonneg ((abs_nonneg _).trans (hle hr))
    refine ⟨⟨hr, hre, ?_⟩, hr, hre, ?_⟩
    · exact (abs_add_le _ _).trans_lt (hnonneg.symm ▸ hlimit)
    · exact (abs_sub _ _).trans_lt (hnonneg.symm ▸ hlimit)

end Complex

/-! ### Nodes that overflow -/

/-- Every variable is bound to a finite number or to a text that is read as a number. -/
def Environment.IsNumeric (env : Environment) : Prop :=
  ∀ p ∈ env, (∃ z, p.2 = .complex z ∧ z.isFinite = true) ∨
    ∃ text z, p.2 = .datum (.text text) ∧ Complex.ofInput text = .ok z

namespace Expr

section

variable [Elementary]

/-- The ways in which a node has a value that is not finite though those of its children are. -/
inductive Overflows (env : Environment) : Expr → List Complex → Prop
  | input {n text : String} {z : Complex} (hfind : env.find? n = some (.datum (.text text)))
    (hread : Complex.ofInput text = .ok z) (h : z.isFinite = false) : Overflows env (var n) []
  | sum (l r : Expr) {z w : Complex} (h : ∃ q ∈ z.sums w, limit ≤ |q|) : Overflows env (binary "+" l r) [z, w]
  | difference (l r : Expr) {z w : Complex} (h : ∃ q ∈ z.differences w, limit ≤ |q|) :
    Overflows env (binary "-" l r) [z, w]
  | product (l r : Expr) {z w : Complex} (h : ∃ q ∈ z.products w, limit ≤ |q|) : Overflows env (binary "*" l r) [z, w]
  | quotient (l r : Expr) {z w p : Complex} (hdiv : z.div w = .ok p)
    (h : ∃ q ∈ z.numerators w ++ z.quotients w, limit ≤ |q|) : Overflows env (binary "/" l r) [z, w]
  | sqrt (a : Expr) {z : Complex} (h : z.magnitude.isFinite = true → limit ≤ value z.magnitude + |value z.re|) :
    Overflows env (call "sqrt" [a]) [z]
  | root (a d : Expr) {z w : Complex} {n : ℤ} (him : ¬ w.im.abs > degreeBound) (hdegree : roundHalfUp w.re = .ok n)
    (hn : 0 < n) (h : z.magnitude.isFinite = false) : Overflows env (call "root" [a, d]) [z, w]

variable {env : Environment} {e n : Expr} {zs : List Complex} {z w : Complex}

omit [Elementary] in
theorem exists_limit_le_iff {qs : List ℚ} (h : z.isFinite = true ↔ ∀ q ∈ qs, |q| < limit) :
    (∃ q ∈ qs, limit ≤ |q|) ↔ z.isFinite = false := by
  rw [← Bool.not_eq_true, h, not_forall]
  simp only [not_forall, not_lt, exists_prop]

variable (laws : Elementary.Lawful)

include laws

theorem sqrt_overflows_iff (hz : z.isFinite = true) :
    (z.magnitude.isFinite = true → limit ≤ value z.magnitude + |value z.re|) ↔
      ∃ p, z.sqrt = .ok p ∧ p.isFinite = false := by
  have hiff := Complex.isFinite_sqrt_iff laws hz
  rw [Complex.sqrt_eq laws] at hiff ⊢
  simp only [Except.ok.injEq, exists_eq_left'] at hiff ⊢
  rw [← Bool.not_eq_true, hiff, not_and, not_lt]

theorem Overflows.exists_operate (h : Overflows env n zs) (hzs : ∀ z ∈ zs, z.isFinite = true) :
    ∃ w, n.operate env zs = .ok w ∧ w.isFinite = false := by
  cases h with
  | input hfind hread h =>
    refine ⟨_, ?_, h⟩
    rw [operate, Environment.value, hfind]
    show (Complex.ofInput _).mapError Failure.eval = _
    rw [hread]
    rfl
  | sum l r h =>
    exact ⟨_, rfl, (exists_limit_le_iff (Complex.isFinite_add_iff (hzs _ (by simp)) (hzs _ (by simp)))).1 h⟩
  | difference l r h =>
    exact ⟨_, rfl, (exists_limit_le_iff (Complex.isFinite_sub_iff (hzs _ (by simp)) (hzs _ (by simp)))).1 h⟩
  | product l r h =>
    exact ⟨_, rfl, (exists_limit_le_iff (Complex.isFinite_mul_iff (hzs _ (by simp)) (hzs _ (by simp)))).1 h⟩
  | @quotient l r z w p hdiv h =>
    have hiff := Complex.isFinite_div_iff (hzs z (by simp)) (hzs w (by simp)) hdiv
    refine ⟨p, ?_, (exists_limit_le_iff hiff).1 h⟩
    show (z.div w).mapError Failure.eval = _
    rw [hdiv]
    rfl
  | sqrt a h =>
    obtain ⟨p, hp, hnot⟩ := (sqrt_overflows_iff laws (hzs _ (List.mem_singleton_self _))).1 h
    refine ⟨p, ?_, hnot⟩
    show (Complex.sqrt _).mapError Failure.fault = _
    rw [hp]
    rfl
  | root a d him hdegree hn h =>
    exact (applyRoot_overflows_iff laws (hzs _ List.mem_cons_self)).2 ⟨him, _, hdegree, hn, h⟩

omit laws in
theorem overflows_of_value {n : String} (henv : env.IsNumeric) (h : env.value n = .ok w) (hw : w.isFinite = false) :
    Overflows env (var n) [] := by
  unfold Environment.value at h
  cases hfind : env.find? n with
  | none =>
    rw [hfind] at h
    exact absurd h (by simp)
  | some b =>
    rw [hfind] at h
    rcases henv _ (Environment.mem_of_find? hfind) with ⟨z, hb, hz⟩ | ⟨text, z, hb, hread⟩
    · obtain rfl : b = .complex z := hb
      obtain rfl := Except.ok.inj h
      exact absurd (hw.symm.trans hz) Bool.false_ne_true
    · obtain rfl : b = .datum (.text text) := hb
      have hvalue := mapError_eq_ok h
      exact .input hfind hvalue hw

omit laws in
theorem overflows_of_applyOperator {op : String} {l r : Expr} {p : Complex} (hop : isBinarySymbol op = true)
    (hz : z.isFinite = true) (hw : w.isFinite = true) (h : applyOperator op z w = .ok p) (hp : p.isFinite = false) :
    Overflows env (binary op l r) [z, w] := by
  rcases isBinarySymbol_iff.1 hop with rfl | rfl | rfl | rfl | rfl | rfl
  · obtain rfl := Except.ok.inj h
    exact .sum l r ((exists_limit_le_iff (Complex.isFinite_add_iff hz hw)).2 hp)
  · obtain rfl := Except.ok.inj h
    exact .difference l r ((exists_limit_le_iff (Complex.isFinite_sub_iff hz hw)).2 hp)
  · obtain rfl := Except.ok.inj h
    exact .product l r ((exists_limit_le_iff (Complex.isFinite_mul_iff hz hw)).2 hp)
  · exact .quotient l r h ((exists_limit_le_iff (Complex.isFinite_div_iff hz hw h)).2 hp)
  · exact absurd (hp.symm.trans (Complex.isFinite_of_power h)) Bool.false_ne_true
  · exact absurd (hp.symm.trans (Complex.isFinite_of_power h)) Bool.false_ne_true

theorem overflows_of_applyFunction {n : String} {args : List Expr} (hargs : args.length = functionArity n)
    (hlength : zs.length = args.length) (hzs : ∀ z ∈ zs, z.isFinite = true) (h : applyFunction n zs = .ok w)
    (hw : w.isFinite = false) : Overflows env (call n args) zs := by
  by_cases hn : n ∈ knownFunctions
  · simp only [knownFunctions, List.mem_cons, List.not_mem_nil, or_false] at hn
    rcases hn with rfl | rfl | rfl
    · obtain ⟨z, rfl⟩ := List.length_eq_one_iff.1 (hlength.trans hargs)
      obtain rfl := Except.ok.inj h
      exact absurd (hw.symm.trans (Complex.isFinite_conj (hzs z (List.mem_singleton_self z)))) Bool.false_ne_true
    · obtain ⟨a, rfl⟩ := List.length_eq_one_iff.1 hargs
      obtain ⟨z, rfl⟩ := List.length_eq_one_iff.1 hlength
      exact .sqrt a ((sqrt_overflows_iff laws (hzs z (List.mem_singleton_self z))).2 ⟨w, mapError_eq_ok h, hw⟩)
    · obtain ⟨a, d, rfl⟩ := List.length_eq_two.1 hargs
      obtain ⟨z, degree, rfl⟩ := List.length_eq_two.1 hlength
      obtain ⟨him, m, hdegree, hm, hlength⟩ :=
        (applyRoot_overflows_iff laws (hzs z List.mem_cons_self)).1 ⟨w, h, hw⟩
      exact .root a d him hdegree hm hlength
  · rw [applyFunction_unknown hn] at h
    exact absurd h (by simp)

/-- A node with finite operands has no other value that is not finite than by an overflow. -/
theorem overflows_of_operate (hn : n.Proper) (henv : env.IsNumeric) (hlength : zs.length = n.children.length)
    (hzs : ∀ z ∈ zs, z.isFinite = true) (h : n.operate env zs = .ok w) (hw : w.isFinite = false) :
    Overflows env n zs := by
  cases n with
  | lit t => exact absurd (hw.symm.trans (Complex.isFinite_of_ofLiteral (mapError_eq_ok h))) Bool.false_ne_true
  | var n =>
    obtain rfl := List.length_eq_zero_iff.1 hlength
    exact overflows_of_value henv h hw
  | unary op a =>
    obtain ⟨z, rfl⟩ := List.length_eq_one_iff.1 hlength
    obtain rfl := Except.ok.inj h
    exact absurd (hw.symm.trans (Complex.isFinite_neg (hzs z (List.mem_singleton_self z)))) Bool.false_ne_true
  | binary op l r =>
    obtain ⟨z, w, rfl⟩ := List.length_eq_two.1 hlength
    exact overflows_of_applyOperator hn (hzs z (by simp)) (hzs w (by simp)) (mapError_eq_ok h) hw
  | call n args => exact overflows_of_applyFunction laws hn.2 hlength hzs h hw

/-! ### Trees -/

/-- The children of the node have finite values, and the node overflows on them. -/
def OverflowsAt (env : Environment) (n : Expr) : Prop :=
  ∃ zs, evaluateAll env n.children = .ok zs ∧ (∀ z ∈ zs, z.isFinite = true) ∧ Overflows env n zs

theorem OverflowsAt.exists_evaluate (h : OverflowsAt env n) : ∃ w, n.evaluate env = .ok w ∧ w.isFinite = false := by
  obtain ⟨zs, hzs, hfinite, hoverflows⟩ := h
  obtain ⟨w, hw, hnot⟩ := hoverflows.exists_operate laws hfinite
  refine ⟨w, ?_, hnot⟩
  rw [evaluate_eq, hzs]
  exact hw

theorem exists_overflowsAt (he : e.WellFormed) (henv : env.IsNumeric) (h : e.evaluate env = .ok z)
    (hz : z.isFinite = false) : ∃ n ∈ e.nodes, OverflowsAt env n := by
  induction e using induction_children generalizing z with
  | h e ih =>
    obtain ⟨hproper, hchildren⟩ := everywhere_iff.1 he
    rw [evaluate_eq] at h
    cases hzs : evaluateAll env e.children with
    | error f =>
      rw [hzs] at h
      exact absurd h (by simp [Except.bind])
    | ok zs =>
      rw [hzs] at h
      -- either a child has a value that is not finite already, or it is the node itself that overflows
      by_cases hfinite : ∀ v ∈ zs, v.isFinite = true
      · refine ⟨e, ?_, zs, hzs, hfinite, ?_⟩
        · rw [nodes_eq]
          exact List.mem_append_right _ (List.mem_singleton_self e)
        · exact overflows_of_operate laws hproper henv (length_of_evaluateAll hzs) hfinite h hz
      · simp only [not_forall, Bool.not_eq_true] at hfinite
        obtain ⟨v, hv, hnot⟩ := hfinite
        obtain ⟨c, hc, hvalue⟩ := exists_of_mem_evaluateAll hzs hv
        obtain ⟨n, hn, hoverflows⟩ := ih c hc (hchildren c hc) hvalue hnot
        refine ⟨n, ?_, hoverflows⟩
        rw [nodes_eq]
        exact List.mem_append_left _ (List.mem_flatMap_of_mem hc hn)

end

end Expr

end Phasor
