import Phasor.Proofs.CheckOutcome
import Phasor.Proofs.Doubles
import Phasor.Postfix

/-!
# An expression compared with itself

A value is near itself exactly if it is finite (`near_self`), since an infinity less itself is no number. So a check of
an expression against itself finds a difference exactly if it comes to a draw that gives a value which is not finite
(`Check.run_self_differs_iff`).
-/

namespace Phasor

theorem Scalar.exceeds_of_isNaN {x : Float} (h : x.isNaN = true) (s : Scalar) : s.exceeds x = false := by
  cases s with
  | int n =>
    rw [exceeds, Double.ofFloat?_of_isNaN h]
    exact decide_eq_false (Double.not_lt_of_isNaN h _)
  | double y => exact decide_eq_false (Double.not_lt_of_isNaN h y)

theorem Scalar.exceeds_abs_sub_self {s : Scalar} (hs : s.exceeds 0 = true) (x : Float) :
    s.exceeds (x - x).abs = x.isFinite := by
  cases h : x.isFinite with
  | true =>
    rw [Double.sub_self_of_isFinite h]
    exact hs
  | false => exact exceeds_of_isNaN (Double.isNaN_abs (Double.isNaN_sub_self h)) s

theorem Complex.near_self {tolerance : Scalar} (h : tolerance.exceeds 0 = true) (z : Complex) :
    z.near z tolerance = z.isFinite := by
  rw [near, Scalar.exceeds_abs_sub_self h, Scalar.exceeds_abs_sub_self h, isFinite]

namespace Check

section

variable [Elementary] {tolerance : Scalar} {e : Expr} {env : Environment} {z : Complex}

theorem verdict_self (h : tolerance.exceeds 0 = true) (hz : e.evaluate env = .ok z) :
    verdict tolerance e e env = if z.isFinite then .agree ⟨env, z, z⟩ else .differ ⟨env, z, z⟩ := by
  rw [verdict, hz]
  dsimp only
  rw [Complex.near_self h]

omit [Elementary] in
theorem Ends.going_of_not_equivalent {s : Settings} {names : List String} {v : Nat → Verdict} {n : Nat} {r : Report}
    (h : Ends s names v n (.ok r)) (hr : r.equivalent = false) : ∃ m x, Going s v m ∧ v m = .differ x := by
  cases h with
  | none h => exact absurd hr (by simp [Report.agreement])
  | differ h hv => exact ⟨_, _, h, hv⟩
  | agree h hv hlast => exact absurd hr (by simp [Report.agreement])

/-- A check of an expression against itself says that they are not equivalent exactly if it comes to a draw that gives
a value which is not finite. -/
theorem run_self_differs_iff {s : Settings} (hs : s.tolerance.exceeds 0 = true) (draws : Draws) (e : Expr) (d : Nat)
    (env : Nat → Environment) (hdraws : ∀ k, draws (d + k) = .ok (env k)) :
    (∃ r, (run s draws e e d).result = .ok r ∧ r.equivalent = false) ↔
      ∃ n z, Going s (verdicts s e e env) n ∧ e.evaluate (env n) = .ok z ∧ z.isFinite = false := by
  constructor
  · rintro ⟨r, hr, hequivalent⟩
    obtain ⟨n, o, hends⟩ := exists_ends s (names e e) (verdicts s e e env)
    obtain ⟨-, hresult⟩ := hends.run_eq hdraws fun _ => rfl
    obtain rfl : o = .ok r := hresult.symm.trans hr
    obtain ⟨m, x, hgoing, hdiffer⟩ := hends.going_of_not_equivalent hequivalent
    obtain ⟨-, hleft, hright, hnear⟩ := values_of_verdict hdiffer
    rw [← Except.ok.inj (hleft.symm.trans hright), Complex.near_self hs] at hnear
    exact ⟨m, x.left, hgoing, hleft, hnear⟩
  · rintro ⟨n, z, hgoing, hz, hfinite⟩
    have hdiffer : verdicts s e e env n = .differ ⟨env n, z, z⟩ := by
      rw [verdicts, verdict_self hs hz, hfinite]
      rfl
    exact ⟨_, ((Ends.differ hgoing hdiffer).run_eq hdraws fun _ => rfl).2, rfl⟩

end

/-- The first draw agrees with itself, the second one gives an infinity. -/
theorem run_self_differs_of_infinity :
    let s : Settings := { trials := 3 }
    let e : Expr := .binary "*" (.var "x") (.lit "1e308")
    let env (k : Nat) : Environment := [("x", .complex ⟨if k = 0 then 1 else 10, 0⟩)]
    ∃ r, (run s (fun k => .ok (env k)) e e 0).result = .ok r ∧ r.equivalent = false := by
  intro s e env
  have hdraws : ∀ k, (fun k => Except.ok (env k) : Draws) (0 + k) = .ok (env k) := fun k => by rw [Nat.zero_add]
  have hgoing : Going s (verdicts s e e env) 1 := ⟨by decide +kernel, by decide +kernel, by decide +kernel⟩
  exact (run_self_differs_iff (by decide +kernel) (fun k => .ok (env k)) e 0 env hdraws).2
    ⟨1, ⟨1 / 0, 0⟩, hgoing, by decide +kernel, by decide +kernel⟩

/-- A text that gives an infinity is not equivalent to itself. -/
theorem run_self_not_equivalent :
    let s : Settings := { trials := 1 }
    let e : Expr := .binary "*" (.lit "1e308") (.lit "10")
    Expr.ofText "1e308*10" = .ok e ∧ s.tolerance.exceeds 0 = true ∧
      ∃ r, (run s (fun _ => .ok []) e e 0).result = .ok r ∧ r.equivalent = false := by
  intro s e
  have hvalue : e.evaluate [] = .ok ⟨1 / 0, 0⟩ := by decide +kernel
  have htolerance : s.tolerance.exceeds 0 = true := by decide +kernel
  have hdiffer : verdict s.tolerance e e [] = .differ ⟨[], ⟨1 / 0, 0⟩, ⟨1 / 0, 0⟩⟩ := by
    rw [verdict_self htolerance hvalue]
    exact if_neg (by decide +kernel)
  have hgoing : Going s (fun _ => verdict s.tolerance e e []) 0 := Going.zero (by decide)
  have hdraws : ∀ k, (fun _ => Except.ok [] : Draws) (0 + k) = .ok [] := fun _ => rfl
  exact ⟨by decide +kernel, htolerance, _, ((Ends.differ hgoing hdiffer).run_eq hdraws fun _ => rfl).2, rfl⟩

end Check

end Phasor
