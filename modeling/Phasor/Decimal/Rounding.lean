import Phasor.Dyadic

/-!
# Rounding on decimal grids

`roundHalfEven` rounds an exact quotient to an integer, `roundPlaces` a double to a number of decimal
places; a half goes to the even neighbour in both.
-/

namespace Phasor.Decimal

def roundHalfEven (num den : Nat) : Nat :=
  let q := num / den
  match compare (2 * (num % den)) den with
  | .lt => q
  | .eq => q + q % 2
  | .gt => q + 1

theorem roundHalfEven_of_dvd {num den : Nat} (hd : 0 < den) (h : den ∣ num) :
    roundHalfEven num den = num / den := by
  have hr : num % den = 0 := Nat.mod_eq_zero_of_dvd h
  have hc : compare (2 * (num % den)) den = .lt := by
    rw [hr]; exact Nat.compare_eq_lt.2 (by omega)
  simp only [roundHalfEven, hc]

/-- A double that is not finite stays as it is. -/
def roundPlaces (places : Nat) (x : Float) : Float :=
  match Dyadic.ofFloat? x with
  | none => x
  | some d =>
    let r := Float.ofScientific (roundHalfEven (d.num * Nat.pow 10 places) d.den) true places
    if d.negative then -r else r

def digitCount (n : Nat) : Nat := (Nat.toDigits 10 n).length

/-- The `k` with `10^k ≤ num / den < 10^(k+1)`, for a positive quotient. -/
def leadingPower (num den : Nat) : Int :=
  if den ≤ num then digitCount (num / den) - 1 else -digitCount ((den - 1) / num)

end Phasor.Decimal
