import Mathlib
import Phasor.Proofs.Rounding

/-!
# Doubles and what they unpack to

A double that is finite and not zero unpacks to a number on the grid, a number on the grid comes back from the bits it
is packed into (`unpack_pack`), and a double from what it unpacks to (`pack_unpack`). From this follows what single
operations give: a double less itself is zero unless the double is not finite (`sub_self_of_isFinite`,
`isNaN_sub_self`), and a whole number on the grid is its own double (`ofInt_of_exact`).
-/

namespace Phasor.Double

open Float.Model Float.Model.UnpackedFloat

/-! ### The bits of a double -/

theorem toNat_one_append {w : Nat} (v : BitVec w) : (1#1 ++ v).toNat = 2 ^ w + v.toNat := by
  rw [BitVec.toNat_append, ← Nat.shiftLeft_add_eq_or_of_lt v.isLt]
  simp [Nat.shiftLeft_eq]

variable {x : Float} {s : Sign} {m : Nat} {e : Int} {hm : 0 < m}

theorem onGrid_subnormal (hm : 0 < m) (h : m < 2 ^ 52) : OnGrid m (-1074) := by
  have hlog : m.log2 < 52 := (Nat.log2_lt (Nat.ne_of_gt hm)).2 h
  refine ⟨hm, by omega, ?_, by omega⟩
  rw [gridExponent]
  omega

theorem log2_two_pow_add (h : m < 2 ^ 52) : (2 ^ 52 + m).log2 = 52 :=
  (Nat.log2_eq_iff (by omega)).2 ⟨by omega, by omega⟩

theorem onGrid_normal (h : m < 2 ^ 52) (he : -1074 ≤ e) (he' : e ≤ 971) : OnGrid (2 ^ 52 + m) e :=
  onGrid_of_log2 (log2_two_pow_add h) he he'

theorem onGrid_of_unpack (h : x.toModel.unpack = .finite s m e hm) : OnGrid m e := by
  have hexponent := (@unpackExponent .binary64 x.toModel.toBits.toBitVec).isLt
  have hmantissa := (@unpackMantissa .binary64 x.toModel.toBits.toBitVec).isLt
  have hbias : ((Format.binary64.exponentBias : Nat) : Int) = 1023 := rfl
  unfold Float.Model.unpack UnpackedFloat.unpack at h
  dsimp only at h hexponent hmantissa
  split at h
  · split at h <;> exact absurd h (by simp)
  rename_i hinf
  split at h
  · rename_i hzero
    split at h
    · exact absurd h (by simp)
    · obtain ⟨-, rfl, rfl⟩ := UnpackedFloat.finite.inj h
      rw [hzero]
      exact onGrid_subnormal hm hmantissa
  · rename_i hzero
    obtain ⟨-, rfl, rfl⟩ := UnpackedFloat.finite.inj h
    rw [← BitVec.toNat_inj] at hinf hzero
    simp only [BitVec.neg_one_eq_allOnes, BitVec.toNat_allOnes, BitVec.toNat_ofNat, Nat.zero_mod] at hinf hzero
    rw [toNat_one_append]
    exact onGrid_normal hmantissa (by omega) (by omega)

theorem unpack_normal (s : Sign) {exponent : BitVec 11} (mantissa : BitVec 52) (hinf : exponent.toNat ≠ 2047)
    (hzero : exponent.toNat ≠ 0) :
    unpack .binary64 (packComponents .binary64 s exponent mantissa) =
      .finite s (2 ^ 52 + mantissa.toNat) (exponent.toNat - 1075) (Nat.add_pos_left (by decide) _) := by
  have hinf' : exponent ≠ -1#11 := fun h => hinf (by rw [h]; rfl)
  have hzero' : exponent ≠ 0#11 := fun h => hzero (by rw [h]; rfl)
  unfold UnpackedFloat.unpack
  simp only [unpackExponent_packComponents, unpackMantissa_packComponents, unpackSign_packComponents,
    Sign.ofBitVec_toBitVec, toNat_one_append, if_neg hinf', if_neg hzero']
  rfl

theorem unpack_subnormal (s : Sign) {mantissa : BitVec 52} (h : 0 < mantissa.toNat) :
    unpack .binary64 (packComponents .binary64 s 0#11 mantissa) = .finite s mantissa.toNat (-1074) h := by
  have hzero : mantissa ≠ 0#52 := fun hzero => by simp [hzero] at h
  unfold UnpackedFloat.unpack
  simp only [unpackExponent_packComponents, unpackMantissa_packComponents, unpackSign_packComponents,
    Sign.ofBitVec_toBitVec, dif_neg hzero]
  rfl

/-- A double that does not overflow is packed with a hidden bit if its mantissa fills the 53 bits. -/
theorem pack_finite (s : Sign) (hm : 0 < m) (he : e ≤ 971) :
    UnpackedFloat.pack .binary64 (.finite s m e hm) = if m.log2 = 52
      then packComponents .binary64 s (.ofNat 11 (e + 1075).toNat) (.ofNat 52 m)
      else packComponents .binary64 s 0#11 (.ofNat 52 m) := by
  have hbiased : (e + (Format.binary64.exponentBias : Int) + (52 : Nat)).toNat = (e + 1075).toNat := by
    show (e + 1023 + 52).toNat = _
    omega
  have hfull : m.log2 + 1 = Format.binary64.mantissaBits ↔ m.log2 = 52 := by
    show m.log2 + 1 = 53 ↔ _
    omega
  unfold UnpackedFloat.pack
  simp only [hbiased, hfull]
  exact if_neg (by omega)

theorem unpack_pack (s : Sign) (h : OnGrid m e) :
    (Float.Model.pack (.finite s m e h.pos)).unpack = .finite s m e h.pos := by
  have hge := h.ge
  have hle := h.le
  have hlt := h.lt
  have hgrid := h.grid
  rw [gridExponent] at hgrid
  show unpack .binary64 (UnpackedFloat.pack .binary64 (.finite s m e h.pos)) = _
  rw [pack_finite s h.pos hle]
  split
  · rename_i hlog
    obtain ⟨hlow, -⟩ := (Nat.log2_eq_iff (Nat.ne_of_gt h.pos)).1 hlog
    have hexponent : (BitVec.ofNat 11 (e + 1075).toNat).toNat = (e + 1075).toNat := by
      rw [BitVec.toNat_ofNat, Nat.mod_eq_of_lt (by omega)]
    have hmantissa : 2 ^ 52 + (BitVec.ofNat 52 m).toNat = m := by
      rw [BitVec.toNat_ofNat]
      omega
    rw [unpack_normal s _ (by omega) (by omega), UnpackedFloat.finite.injEq]
    exact ⟨rfl, hmantissa, by omega⟩
  · rename_i hlog
    have hlow : m < 2 ^ 52 := by
      have hfull := log2_le_of_lt hlt
      exact (Nat.log2_lt (Nat.ne_of_gt h.pos)).1 (by omega)
    have hmantissa : (BitVec.ofNat 52 m).toNat = m := by
      rw [BitVec.toNat_ofNat, Nat.mod_eq_of_lt hlow]
    rw [unpack_subnormal s (by rw [hmantissa]; exact h.pos), UnpackedFloat.finite.injEq]
    exact ⟨rfl, hmantissa, by omega⟩

theorem toBitVec_ofBitVec (b : BitVec 1) : (Sign.ofBitVec b).toBitVec = b := by
  rcases BitVec.eq_zero_or_eq_one b with rfl | rfl <;> rfl

theorem packComponents_unpack (b : BitVec Format.binary64.numBits) :
    packComponents .binary64 (Sign.ofBitVec (unpackSign b)) (unpackExponent b) (unpackMantissa b) = b := by
  rw [packComponents, toBitVec_ofBitVec]
  refine BitVec.eq_of_getLsbD_eq fun i hi => ?_
  have hlt : i < 64 := hi
  simp only [BitVec.getLsbD_append, unpackMantissa, unpackExponent, unpackSign, BitVec.getLsbD_cast,
    BitVec.getLsbD_extractLsb]
  split
  · grind
  · split <;> grind

/-- Nothing is lost by unpacking. -/
theorem pack_unpack (x : Float) : Float.Model.pack x.toModel.unpack = x.toModel := by
  have hbias : ((Format.binary64.exponentBias : Nat) : Int) = 1023 := rfl
  have hcomponents := packComponents_unpack x.toModel.toBits.toBitVec
  have hvalid := x.toModel.valid.eq_packedNaN
  have hbits : UnpackedFloat.pack .binary64 (UnpackedFloat.unpack .binary64 x.toModel.toBits.toBitVec) =
      x.toModel.toBits.toBitVec := by
    generalize x.toModel.toBits.toBitVec = b at hcomponents hvalid
    have hexponent := (@unpackExponent .binary64 b).isLt
    have hmantissa := (@unpackMantissa .binary64 b).isLt
    unfold UnpackedFloat.unpack
    dsimp only at hexponent hmantissa ⊢
    split
    · rename_i hinf
      split
      · rename_i hzero
        rw [hinf, hzero] at hcomponents
        exact hcomponents
      · rename_i hzero
        exact (hvalid hinf hzero).symm
    rename_i hinf
    split
    · rename_i hsub
      split
      · rename_i hzero
        rw [hsub, hzero] at hcomponents
        exact hcomponents
      · -- below the least normal number
        rename_i hzero
        have hpos : 0 < (@unpackMantissa .binary64 b).toNat := by
          rw [← BitVec.toNat_inj] at hzero
          exact Nat.pos_of_ne_zero hzero
        have hlog : (@unpackMantissa .binary64 b).toNat.log2 < 52 := (Nat.log2_lt hpos.ne').2 hmantissa
        rw [hsub] at hcomponents ⊢
        rw [pack_finite _ _ (by decide), if_neg (by omega), BitVec.ofNat_toNat, BitVec.setWidth_eq]
        exact hcomponents
    · rename_i hnormal
      rw [← BitVec.toNat_inj] at hinf hnormal
      simp only [BitVec.neg_one_eq_allOnes, BitVec.toNat_allOnes, BitVec.toNat_ofNat, Nat.zero_mod] at hinf hnormal
      have hfield : ((@unpackExponent .binary64 b).toNat - ((Format.binary64.exponentBias : Nat) + (52 : Nat)) : Int)
        + 1075 = (@unpackExponent .binary64 b).toNat := by omega
      rw [pack_finite _ _ (by omega), toNat_one_append, if_pos (log2_two_pow_add hmantissa), hfield, Int.toNat_natCast,
        BitVec.ofNat_toNat, BitVec.setWidth_eq]
      have hhidden : BitVec.ofNat 52 (2 ^ 52 + (@unpackMantissa .binary64 b).toNat) =
          @unpackMantissa .binary64 b := by
        rw [← BitVec.toNat_inj, BitVec.toNat_ofNat]
        show _ = (@unpackMantissa .binary64 b).toNat
        omega
      rw [hhidden]
      exact hcomponents
  have hword : (Float.Model.pack x.toModel.unpack).toBits = x.toModel.toBits := congrArg UInt64.ofBitVec hbits
  cases hx : x.toModel with
  | mk bits valid =>
    rw [hx] at hword
    cases hy : Float.Model.pack (Float.Model.unpack ⟨bits, valid⟩) with
    | mk bits' valid' =>
      rw [hy] at hword
      subst hword
      rfl

theorem ofModel_pack_unpack (x : Float) : Float.ofModel (.pack x.toModel.unpack) = x := by
  rw [pack_unpack]

theorem eq_of_unpack {x y : Float} (h : x.toModel.unpack = y.toModel.unpack) : x = y := by
  rw [← ofModel_pack_unpack x, h, ofModel_pack_unpack]

/-! ### Finite doubles -/

theorem unpack_neg (x : Float) : (-x).toModel.unpack = x.toModel.unpack.neg := by
  show (Float.Model.pack x.toModel.unpack.neg).unpack = _
  cases hx : x.toModel.unpack with
  | notANumber => rfl
  | infinity s => cases s <;> rfl
  | zero s => cases s <;> rfl
  | finite s m e hm => exact unpack_pack (-s) (onGrid_of_unpack hx)

theorem isFinite_unpack (s : Sign) {exponent : BitVec 11} (mantissa : BitVec 52) (h : exponent.toNat ≠ 2047) :
    (unpack .binary64 (packComponents .binary64 s exponent mantissa)).isFinite = true := by
  have hinf : exponent ≠ -1#11 := fun hinf => h (by rw [hinf]; rfl)
  unfold UnpackedFloat.unpack
  simp only [unpackExponent_packComponents, unpackMantissa_packComponents, if_neg hinf]
  split
  · split <;> rfl
  · rfl

theorem isFinite_pack {u : UnpackedFloat} (h : Within u) : (Float.Model.pack u).isFinite = true := by
  cases u with
  | notANumber => exact absurd h id
  | infinity s => exact absurd h id
  | zero s => cases s <;> rfl
  | finite s m e hm =>
    have hle : e ≤ 971 := h
    show (unpack .binary64 (UnpackedFloat.pack .binary64 (.finite s m e hm))).isFinite = true
    rw [pack_finite s hm hle]
    split
    · refine isFinite_unpack s _ ?_
      rw [BitVec.toNat_ofNat]
      omega
    · exact isFinite_unpack s _ (by decide)

theorem isNaN_iff : x.isNaN = true ↔ x.toModel.unpack = .notANumber := by
  show x.toModel.unpack.isNaN = true ↔ _
  cases x.toModel.unpack <;> simp [UnpackedFloat.isNaN]

theorem isInf_iff : x.isInf = true ↔ ∃ s, x.toModel.unpack = .infinity s := by
  show x.toModel.unpack.isInf = true ↔ _
  cases x.toModel.unpack <;> simp [UnpackedFloat.isInf]

theorem isFinite_iff : x.isFinite = true ↔
    (∃ s, x.toModel.unpack = .zero s) ∨ ∃ s m e hm, x.toModel.unpack = .finite s m e hm := by
  show x.toModel.unpack.isFinite = true ↔ _
  cases x.toModel.unpack with
  | notANumber => simp [UnpackedFloat.isFinite]
  | infinity s => simp [UnpackedFloat.isFinite]
  | zero s => simp [UnpackedFloat.isFinite]
  | finite s m e hm => exact iff_of_true rfl (.inr ⟨s, m, e, hm, rfl⟩)

theorem isFinite_trichotomy (x : Float) : x.isNaN = true ∨ x.isInf = true ∨ x.isFinite = true := by
  rw [isNaN_iff, isInf_iff, isFinite_iff]
  cases x.toModel.unpack with
  | notANumber => exact .inl rfl
  | infinity s => exact .inr (.inl ⟨s, rfl⟩)
  | zero s => exact .inr (.inr (.inl ⟨s, rfl⟩))
  | finite s m e hm => exact .inr (.inr (.inr ⟨s, m, e, hm, rfl⟩))

theorem exists_ofFloat? (h : x.isFinite = true) : ∃ d, Dyadic.ofFloat? x = some d := by
  rcases isFinite_iff.1 h with ⟨s, hx⟩ | ⟨s, m, e, hm, hx⟩
  · exact ⟨⟨s == .negative, 0, 0⟩, by rw [Dyadic.ofFloat?, hx]⟩
  · exact ⟨⟨s == .negative, m, e⟩, by rw [Dyadic.ofFloat?, hx]⟩

theorem ofFloat?_of_isInf (h : x.isInf = true) : Dyadic.ofFloat? x = none := by
  obtain ⟨s, hx⟩ := isInf_iff.1 h
  rw [Dyadic.ofFloat?, hx]

theorem ofFloat?_of_isNaN (h : x.isNaN = true) : Dyadic.ofFloat? x = none := by
  rw [Dyadic.ofFloat?, isNaN_iff.1 h]

theorem isFinite_of_ofFloat? {d : Dyadic} (h : Dyadic.ofFloat? x = some d) : x.isFinite = true := by
  rcases isFinite_trichotomy x with hnan | hinf | hfinite
  · exact absurd (h.symm.trans (ofFloat?_of_isNaN hnan)) (by simp)
  · exact absurd (h.symm.trans (ofFloat?_of_isInf hinf)) (by simp)
  · exact hfinite

theorem isNaN_of_isInf (h : x.isInf = true) : x.isNaN = false := by
  obtain ⟨s, hx⟩ := isInf_iff.1 h
  rw [Float.isNaN, Float.Model.isNaN, hx]
  rfl

theorem isNaN_of_isFinite (h : x.isFinite = true) : x.isNaN = false := by
  rw [Float.isNaN, Float.Model.isNaN]
  rcases isFinite_iff.1 h with ⟨s, hx⟩ | ⟨s, m, e, hm, hx⟩ <;> rw [hx] <;> rfl

theorem isInf_of_isFinite (h : x.isFinite = true) : x.isInf = false := by
  rw [Float.isInf, Float.Model.isInf]
  rcases isFinite_iff.1 h with ⟨s, hx⟩ | ⟨s, m, e, hm, hx⟩ <;> rw [hx] <;> rfl

theorem isInf_of_isNaN (h : x.isNaN = true) : x.isInf = false := by
  rw [Float.isInf, Float.Model.isInf, isNaN_iff.1 h]
  rfl

/-! ### A double less itself -/

theorem toModel_sub_self (x : Float) :
    (x - x).toModel = .pack (UnpackedFloat.sub .binary64 x.toModel.unpack x.toModel.unpack) :=
  rfl

theorem sub_self_of_isFinite (h : x.isFinite = true) : x - x = 0 := by
  have hzero : UnpackedFloat.sub .binary64 x.toModel.unpack x.toModel.unpack = .zero .positive := by
    rcases isFinite_iff.1 h with ⟨s, hx⟩ | ⟨s, m, e, hm, hx⟩
    · rw [hx]
      cases s <;> rfl
    · rw [hx]
      simp only [UnpackedFloat.sub, Int.sub_self]
      rfl
  show Float.ofModel (x - x).toModel = _
  rw [toModel_sub_self, hzero]
  rfl

theorem isNaN_sub_self (h : x.isFinite = false) : (x - x).isNaN = true := by
  have hnan : UnpackedFloat.sub .binary64 x.toModel.unpack x.toModel.unpack = .notANumber := by
    rcases isFinite_trichotomy x with hnan | hinf | hfinite
    · rw [isNaN_iff.1 hnan]
      rfl
    · obtain ⟨s, hx⟩ := isInf_iff.1 hinf
      rw [hx]
      cases s <;> rfl
    · exact absurd (h.symm.trans hfinite) Bool.false_ne_true
  rw [Float.isNaN, toModel_sub_self, hnan]
  rfl

theorem isNaN_abs (h : x.isNaN = true) : x.abs.isNaN = true := by
  show (Float.Model.pack x.toModel.unpack.abs).isNaN = true
  rw [isNaN_iff.1 h]
  rfl

theorem not_lt_of_isNaN (h : x.isNaN = true) (y : Float) : ¬ x < y := by
  intro hlt
  have hcompare : x.toModel.unpack.lt y.toModel.unpack = true := of_decide_eq_true hlt
  rw [isNaN_iff.1 h] at hcompare
  exact absurd hcompare (by simp [UnpackedFloat.lt, UnpackedFloat.compare])

/-! ### Adding zero -/

theorem toModel_add_zero (x : Float) :
    (x + 0).toModel = .pack (UnpackedFloat.add .binary64 x.toModel.unpack (.zero .positive)) :=
  rfl

theorem add_zero_of_finite (h : x.toModel.unpack = .finite s m e hm) : x + 0 = x := by
  show Float.ofModel (x + 0).toModel = _
  rw [toModel_add_zero, h]
  show Float.ofModel (.pack (.finite s m e hm)) = _
  rw [← h, ofModel_pack_unpack]

theorem add_zero_of_zero (h : x.toModel.unpack = .zero s) : x + 0 = 0 := by
  show Float.ofModel (x + 0).toModel = _
  rw [toModel_add_zero, h]
  cases s <;> rfl

theorem isFinite_add_zero (x : Float) : (x + 0).isFinite = x.isFinite := by
  rcases isFinite_trichotomy x with hnan | hinf | hfinite
  · have hx : x.isFinite = false := by rw [Float.isFinite, Float.Model.isFinite, isNaN_iff.1 hnan]; rfl
    rw [hx, Float.isFinite, toModel_add_zero, isNaN_iff.1 hnan]
    rfl
  · obtain ⟨s, hunpack⟩ := isInf_iff.1 hinf
    have hx : x.isFinite = false := by rw [Float.isFinite, Float.Model.isFinite, hunpack]; rfl
    rw [hx, Float.isFinite, toModel_add_zero, hunpack]
    cases s <;> rfl
  · rcases isFinite_iff.1 hfinite with ⟨s, hx⟩ | ⟨s, m, e, hm, hx⟩
    · rw [add_zero_of_zero hx, hfinite]
      rfl
    · rw [add_zero_of_finite hx]

/-! ### Adding a half -/

theorem toModel_add_half (x : Float) : (x + 0.5).toModel =
    .pack (UnpackedFloat.add .binary64 x.toModel.unpack (.finite .positive (2 ^ 52) (-53) (by decide))) :=
  rfl

theorem isInf_add_half (h : x.isInf = true) : (x + 0.5).isInf = true := by
  obtain ⟨s, hx⟩ := isInf_iff.1 h
  rw [Float.isInf, toModel_add_half, hx]
  cases s <;> rfl

theorem isNaN_add_half (h : x.isNaN = true) : (x + 0.5).isNaN = true := by
  rw [Float.isNaN, toModel_add_half, isNaN_iff.1 h]
  rfl

/-! ### Whole numbers -/

variable {n : Nat}

theorem unpack_toFloat (h : OnGrid m e) (hsmall : n < 2 ^ 53) (hpos : 0 < n)
    (hn : n * 2 ^ (-e).toNat = m * 2 ^ e.toNat) :
    n.toUInt64.toFloat.toModel.unpack = .finite .positive m e h.pos := by
  have hword : n.toUInt64.toNat = n := Nat.mod_eq_of_lt (by omega)
  have hround : UnpackedFloat.ofUInt64 .binary64 n.toUInt64 = .finite .positive m e h.pos := by
    show UnpackedFloat.normalize .binary64 (n.toUInt64.toNat : Int) 0 .positive = _
    have hcompare : compare (n : Int) 0 = .gt := Int.compare_eq_gt.2 (by omega)
    rw [hword, UnpackedFloat.normalize, hcompare]
    refine round_of_onGrid .positive h hpos ?_
    rwa [Int.zero_sub, Int.sub_zero]
  show (Float.Model.pack (UnpackedFloat.ofUInt64 .binary64 n.toUInt64)).unpack = _
  rw [hround, unpack_pack _ h]

/-- Without a power of ten a numeral is rounded from its digits alone, so a numeral on the grid stays as it is. -/
theorem ofScientific_of_onGrid (h : OnGrid m e) (he : 0 ≤ e) (hn : n = m * 2 ^ e.toNat) :
    UnpackedFloat.ofScientific .binary64 n 0 = .finite .positive m e h.pos := by
  have hpos : 0 < n := hn ▸ Nat.mul_pos h.pos (Nat.two_pow_pos _)
  have hlarge : ¬ (0 : Int) < -(2 ^ 11 + (n.log2 : Int)) := by omega
  have hmantissa : (n <<< 53) * 1 = m * 2 ^ (e.toNat + 53) := by
    rw [Nat.shiftLeft_eq, hn, Nat.mul_one, Nat.mul_assoc, ← Nat.pow_add]
  have hexponent : (-53 : Int) + 0 = e - (e.toNat + 53 : Nat) := by omega
  unfold UnpackedFloat.ofScientific
  rw [dif_neg (Nat.ne_of_gt hpos), if_neg (by decide), if_neg hlarge, if_pos (by decide)]
  show roundWithAccuracy .binary64 .positive ((n <<< 53) * 1) (-53 + 0) .exact = _
  rw [hmantissa, hexponent, roundWithAccuracy_of_onGrid _ h]

/-- A natural number that is on the grid is its own double. -/
theorem unpack_ofNat (h : OnGrid m e) (hn : n * 2 ^ (-e).toNat = m * 2 ^ e.toNat) :
    (Float.ofNat n).toModel.unpack = .finite .positive m e h.pos := by
  have hpos : 0 < n := by
    have hright : 0 < m * 2 ^ e.toNat := Nat.mul_pos h.pos (Nat.two_pow_pos _)
    rw [← hn] at hright
    exact Nat.pos_of_mul_pos_right hright
  show (Float.ofScientific n false 0).toModel.unpack = _
  unfold Float.ofScientific
  split
  · rename_i hsmall
    have hone : (Float.exactlyRepresentablePowersOfTen[0]).toModel.unpack =
        .finite .positive (2 ^ 52) (-52) (by decide) := rfl
    show (Float.Model.pack (UnpackedFloat.mul .binary64 n.toUInt64.toFloat.toModel.unpack
      (Float.exactlyRepresentablePowersOfTen[0]).toModel.unpack)).unpack = _
    rw [hone, unpack_toFloat h hsmall.1 hpos hn]
    show (Float.Model.pack (roundWithAccuracy .binary64 .positive (m * 2 ^ 52) (e - (52 : Nat)) .exact)).unpack = _
    rw [roundWithAccuracy_of_onGrid _ h, unpack_pack _ h]
  · -- no mantissa has more than 53 bits, so the exponent is positive
    rename_i hlarge
    have hlt := h.lt
    have hge : 0 ≤ e := by
      by_contra hneg
      rw [show e.toNat = 0 by omega, Nat.pow_zero, Nat.mul_one] at hn
      have := Nat.le_mul_of_pos_right n (Nat.two_pow_pos (-e).toNat)
      omega
    rw [show (-e).toNat = 0 by omega, Nat.pow_zero, Nat.mul_one] at hn
    show (Float.Model.pack (UnpackedFloat.ofScientific .binary64 n 0)).unpack = _
    rw [ofScientific_of_onGrid h hge hn, unpack_pack _ h]

/-- The number `n` is on the grid, whatever its sign. -/
def Exact (n : Int) : Prop := ∃ m e, OnGrid m e ∧ n.natAbs * 2 ^ (-e).toNat = m * 2 ^ e.toNat

theorem exact_of_lt {n : Int} (hn : n ≠ 0) (h : n.natAbs < 2 ^ 53) : Exact n := by
  refine ⟨_, _, onGrid_of_lt (by omega) h, ?_⟩
  rw [Int.neg_neg, Int.toNat_natCast, show (-(52 - n.natAbs.log2 : Nat) : Int).toNat = 0 by omega, Nat.pow_zero,
    Nat.mul_one]

theorem unpack_ofInt {n : Int} (h : OnGrid m e) (hn : n.natAbs * 2 ^ (-e).toNat = m * 2 ^ e.toNat) :
    ∃ s, (Float.ofInt n).toModel.unpack = .finite s m e h.pos := by
  cases n with
  | ofNat n => exact ⟨.positive, unpack_ofNat h hn⟩
  | negSucc n =>
    refine ⟨.negative, ?_⟩
    show (Float.Model.pack (Float.ofNat n.succ).toModel.unpack.neg).unpack = _
    rw [unpack_ofNat (n := n.succ) h hn]
    exact unpack_pack .negative h

theorem ofInt_of_exact {n : Int} (h : Exact n) :
    (Float.ofInt n).isFinite = true ∧ isInteger (Float.ofInt n) = true := by
  obtain ⟨m, e, hgrid, hn⟩ := h
  obtain ⟨s, hunpack⟩ := unpack_ofInt hgrid hn
  refine ⟨?_, ?_⟩
  · show (Float.ofInt n).toModel.unpack.isFinite = true
    rw [hunpack]
    rfl
  · have hdvd : m * 2 ^ e.toNat % 2 ^ (-e).toNat = 0 := by rw [← hn, Nat.mul_mod_left]
    rw [isInteger, Dyadic.ofFloat?, hunpack]
    show (m * Nat.pow 2 e.toNat % Nat.pow 2 (-e).toNat == 0) = true
    exact beq_iff_eq.2 hdvd

theorem exact_floor {d : Dyadic} (h : Dyadic.ofFloat? x = some d) : d.floor = 0 ∨ Exact d.floor := by
  by_cases hzero : d.floor = 0
  · exact .inl hzero
  refine .inr ?_
  unfold Dyadic.ofFloat? at h
  split at h
  · rename_i s hunpack
    obtain rfl := Option.some.inj h
    exact absurd (by cases s <;> rfl) hzero
  · rename_i s m e hm hunpack
    obtain rfl := Option.some.inj h
    have hgrid := onGrid_of_unpack hunpack
    have hlt := hgrid.lt
    have hnum : (Dyadic.signedNum ⟨s == .negative, m, e⟩).natAbs = m * 2 ^ e.toNat := by
      unfold Dyadic.signedNum
      split
      · exact Int.natAbs_neg _
      · rfl
    by_cases he : 0 ≤ e
    · -- without a denominator the floor is the double itself
      refine ⟨m, e, hgrid, ?_⟩
      have hden : (-e).toNat = 0 := by omega
      rw [Dyadic.floor, Dyadic.den, hden, Nat.pow_zero, Nat.mul_one, ← hnum]
      exact congrArg Int.natAbs (Int.ediv_one _)
    · refine exact_of_lt hzero (Nat.lt_of_le_of_lt (Int.natAbs_ediv_le_natAbs _ _) ?_)
      rw [hnum, show e.toNat = 0 by omega, Nat.pow_zero, Nat.mul_one]
      exact hlt
  · exact absurd h (by simp)
  · exact absurd h (by simp)

end Phasor.Double
