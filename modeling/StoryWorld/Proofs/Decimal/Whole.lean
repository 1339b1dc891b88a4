import Mathlib.Algebra.GroupWithZero.Nat
import Mathlib.Algebra.Ring.Int.Defs

/-!
# Whole numbers as floats

A whole number of no more than 64 bits is near a finite float (`isFinite_ofInt`). What is rounded
keeps an exponent that is not above the place of its highest bit, and an exponent that a double has
room for is still not above that place once it is packed into bits.
-/

namespace StoryWorld

namespace Decimal

open Float.Model Float.Model.UnpackedFloat

/-- Whether a number is zero, or finite with an exponent of `k` at most. -/
def Upto (k : ℤ) : UnpackedFloat → Prop
  | .zero _ => True
  | .finite _ _ e _ => e ≤ k
  | _ => False

theorem Upto.cases {k : ℤ} {x : UnpackedFloat} (h : Upto k x) : (∃ s, x = .zero s) ∨
    ∃ (s : Sign) (m : ℕ) (e : ℤ) (hm : 0 < m), x = .finite s m e hm ∧ e ≤ k := by
  cases x with
  | zero s => exact .inl ⟨s, rfl⟩
  | finite s m e hm => exact .inr ⟨s, m, e, hm, rfl, h⟩
  | infinity s => exact h.elim
  | notANumber => exact h.elim

/-- Whether the mantissa of a number, if it has one, is that of a double. -/
def Narrow : UnpackedFloat → Prop
  | .finite _ m _ _ => m < 2 ^ 53
  | _ => True

theorem of_dite {P : UnpackedFloat → Prop} {c : Prop} [Decidable c] {x : c → UnpackedFloat}
    {y : ¬ c → UnpackedFloat} (hx : ∀ h, P (x h)) (hy : ∀ h, P (y h)) : P (dite c x y) := by
  by_cases h : c
  · rw [dif_pos h]
    exact hx h
  · rw [dif_neg h]
    exact hy h

/-! ## Rounding -/

section Round

theorem log2_shiftRight (m n : ℕ) : (m >>> n).log2 = m.log2 - n := by
  induction n with
  | zero => rfl
  | succ n ih =>
    rw [Nat.shiftRight_succ, Nat.sub_succ, ← ih, Nat.log2_def (m >>> n)]
    split
    · rfl
    · have hhalf : m >>> n / 2 = 0 := Nat.div_eq_zero_iff.2 (.inr (Nat.lt_of_not_le (by assumption)))
      rw [hhalf]
      rfl

theorem log2_shiftLeft {m : ℕ} (hm : m ≠ 0) (n : ℕ) : (m <<< n).log2 = m.log2 + n := by
  induction n with
  | zero => rfl
  | succ n ih =>
    have hne : m <<< n ≠ 0 := by simp [hm]
    rw [Nat.shiftLeft_succ, Nat.log2_two_mul hne, ih, Nat.add_assoc]

theorem log2_le_of_le_succ {m n : ℕ} (h : m ≤ n + 1) : m.log2 ≤ n.log2 + 1 := by
  by_cases hm : m = 0
  · subst hm
    exact Nat.zero_le _
  · have hn : n < 2 ^ (n.log2 + 1) := Nat.lt_log2_self
    have hlt : m < 2 ^ (n.log2 + 2) := by
      rw [Nat.pow_succ]
      omega
    exact Nat.le_of_lt_succ ((Nat.log2_lt hm).2 hlt)

theorem mantissa_shiftRight (em : ExtendedMantissa) (n : ℕ) :
    (em >>> n).mantissa = em.mantissa >>> n := by
  show (n.repeat ExtendedMantissa.shiftRightOne em).mantissa = _
  induction n with
  | zero => rfl
  | succ n ih =>
    rw [Nat.shiftRight_succ, ← ih]
    rfl

theorem mantissa_ofMantissaAndAccuracy (m : ℕ) (a : Accuracy) :
    (ExtendedMantissa.ofMantissaAndAccuracy m a).mantissa = m := by
  unfold ExtendedMantissa.ofMantissaAndAccuracy
  split <;> rfl

theorem roundedMantissa_le (em : ExtendedMantissa) : em.roundedMantissa ≤ em.mantissa + 1 := by
  unfold ExtendedMantissa.roundedMantissa Accuracy.roundToNearestEven
  split <;> omega

variable {k e : ℤ} {m : ℕ}

/-- A shift takes no more off the mantissa than it adds to the exponent. -/
theorem snd_shiftToTargetExponent_le (a : Accuracy) (hk : -1074 ≤ k) (he : e ≤ k)
    (htotal : totalExponent m e ≤ k + 53) :
    (shiftToTargetExponent Format.binary64 m e a).2 ≤ k := by
  have hmin : Format.binary64.minExponent = -1074 := rfl
  have hbits : Format.binary64.mantissaBits = 53 := rfl
  simp only [shiftToTargetExponent, shiftToExponent, Format.targetExponent, hmin, hbits]
  omega

theorem totalExponent_shiftToTargetExponent_le (a : Accuracy) (hk : -1074 ≤ k) (he : e ≤ k)
    (htotal : totalExponent m e ≤ k) :
    totalExponent (shiftToTargetExponent Format.binary64 m e a).1.roundedMantissa
      (shiftToTargetExponent Format.binary64 m e a).2 ≤ k + 2 := by
  have hrounded := roundedMantissa_le (shiftToTargetExponent Format.binary64 m e a).1
  simp only [shiftToTargetExponent, shiftToExponent] at hrounded ⊢
  rw [mantissa_shiftRight, mantissa_ofMantissaAndAccuracy] at hrounded
  have hlog := log2_le_of_le_succ hrounded
  rw [log2_shiftRight] at hlog
  have hmin : Format.binary64.minExponent = -1074 := rfl
  have hbits : Format.binary64.mantissaBits = 53 := rfl
  simp only [totalExponent, Format.targetExponent, hmin, hbits] at htotal hlog ⊢
  omega

/-- The first shift leaves at most the bits that a double has room for, and rounding can add no more
than one to their number. -/
theorem upto_roundWithAccuracy (s : Sign) (a : Accuracy) (hk : -1074 ≤ k) (he : e ≤ k)
    (htotal : totalExponent m e ≤ k) : Upto k (roundWithAccuracy Format.binary64 s m e a) := by
  have he₁ : (shiftToTargetExponent Format.binary64 m e a).2 ≤ k :=
    snd_shiftToTargetExponent_le a hk he (by omega)
  have htotal₁ := totalExponent_shiftToTargetExponent_le a hk he htotal
  unfold roundWithAccuracy
  dsimp only
  exact of_dite (fun _ => trivial) fun _ =>
    snd_shiftToTargetExponent_le .exact hk he₁ (by omega)

theorem upto_round (s : Sign) (hk : -1074 ≤ k) (he : e ≤ k) (htotal : totalExponent m e ≤ k)
    (hm : m ≠ 0) : Upto k (round Format.binary64 s m e) := by
  unfold UnpackedFloat.round decreaseExponent
  simp only
  generalize (e - _).toNat = n
  refine upto_roundWithAccuracy s _ hk (by omega) ?_
  simp only [totalExponent, log2_shiftLeft hm] at htotal ⊢
  omega

end Round

/-! ## Bits -/

section Bits

variable {k : ℤ} {x : UnpackedFloat}

theorem narrow_unpack (x : Float) : Narrow x.toModel.unpack := by
  show Narrow (UnpackedFloat.unpack Format.binary64 x.toModel.toBits.toBitVec)
  unfold UnpackedFloat.unpack
  dsimp only
  refine of_dite (fun _ => of_dite (fun _ => trivial) fun _ => trivial) fun _ =>
    of_dite (fun _ => of_dite (fun _ => trivial) fun _ => ?_) fun _ => ?_
  · have hbits : 2 ^ 52 < 2 ^ 53 := by decide
    exact Nat.lt_trans (BitVec.isLt _) hbits
  · exact BitVec.isLt _

theorem upto_unpack_packComponents (s : Sign) {biased : BitVec 11} (mantissa : BitVec 52)
    (hlow : -1074 ≤ k) (hbiased : (biased.toNat : ℤ) ≤ k + 1075) (hne : biased ≠ -1#11) :
    Upto k (UnpackedFloat.unpack Format.binary64
      (packComponents Format.binary64 s biased mantissa)) := by
  have hbias : Format.binary64.exponentBias = 1023 := rfl
  unfold UnpackedFloat.unpack
  dsimp only
  rw [unpackExponent_packComponents, hbias, if_neg hne]
  refine of_dite (fun hzero => of_dite (fun _ => trivial) fun _ => ?_) fun _ => ?_
  · subst hzero
    show (0 : ℤ) - (1023 + 52) + 1 ≤ k
    omega
  · show (biased.toNat : ℤ) - (1023 + 52) ≤ k
    omega

/-- An exponent that a double has room for stays what it is, unless it is that of the least numbers,
which all have the same. -/
theorem upto_unpack_pack (hlow : -1074 ≤ k) (hhigh : k ≤ 971) (h : Upto k x) :
    Upto k (Float.Model.pack x).unpack := by
  show Upto k (UnpackedFloat.unpack Format.binary64 (UnpackedFloat.pack Format.binary64 x))
  have hleast : ∀ s mantissa, Upto k (UnpackedFloat.unpack Format.binary64
      (packComponents Format.binary64 s 0 mantissa)) := fun s mantissa =>
    upto_unpack_packComponents s mantissa hlow (by simp; omega) (by decide)
  rcases h.cases with ⟨s, rfl⟩ | ⟨s, m, e, hm, rfl, he⟩
  · exact hleast s 0
  · have hbias : Format.binary64.exponentBias = 1023 := rfl
    unfold UnpackedFloat.pack
    dsimp only
    rw [hbias]
    generalize hn : (e + (1023 : ℕ) + (52 : ℕ)).toNat = n
    have hroom : n < 2047 := by omega
    split
    · omega
    · split
      · refine upto_unpack_packComponents s _ hlow ?_ ?_
        · rw [BitVec.toNat_ofNat, Nat.mod_eq_of_lt (by omega)]
          omega
        · intro heq
          have htoNat := congrArg BitVec.toNat heq
          rw [BitVec.toNat_ofNat, Nat.mod_eq_of_lt (by omega)] at htoNat
          exact Nat.ne_of_lt hroom htoNat
      · exact hleast s _

end Bits

/-! ## Numbers -/

section Numbers

variable {k l : ℤ} {x y : Float} {n : ℕ}

theorem isFinite_of_upto (h : Upto k x.toModel.unpack) : x.isFinite = true := by
  show x.toModel.unpack.isFinite = true
  rcases h.cases with ⟨s, hx⟩ | ⟨s, m, e, hm, hx, -⟩ <;> rw [hx] <;> rfl

theorem log2_lt_of_lt (hk : 0 < k) (h : n < 2 ^ k.toNat) : n.log2 < k := by
  by_cases hn : n = 0
  · subst hn
    exact hk
  · have hlog := (Nat.log2_lt hn).2 h
    omega

theorem upto_toFloat (n : UInt64) : Upto 64 n.toFloat.toModel.unpack := by
  have hlog : (n.toNat.log2 : ℤ) < 64 := log2_lt_of_lt (by decide) n.toNat_lt
  refine upto_unpack_pack (by decide) (by decide) ?_
  show Upto 64 (UnpackedFloat.normalize Format.binary64 (n.toNat : ℤ) 0 .positive)
  unfold UnpackedFloat.normalize
  split
  · rename_i hlt
    rw [Int.compare_eq_lt] at hlt
    omega
  · trivial
  · rename_i hgt
    rw [Int.compare_eq_gt] at hgt
    refine upto_round _ (by decide) (by decide) ?_ (by omega)
    rw [Int.toNat_natCast, totalExponent]
    omega

theorem mul_finite (spec : Format) (s s' : Sign) {m m' : ℕ} (e e' : ℤ) (hm : 0 < m) (hm' : 0 < m') :
    UnpackedFloat.mul spec (.finite s m e hm) (.finite s' m' e' hm') =
      roundWithAccuracy spec (s * s') (m * m') (e + e') .exact := rfl

/-- Numbers that are not too great have a finite product. -/
theorem upto_mul (hx : Upto k x.toModel.unpack) (hy : Upto l y.toModel.unpack)
    (hlow : -1180 ≤ k + l) (hhigh : k + l ≤ 865) : Upto (k + l + 106) (x * y).toModel.unpack := by
  refine upto_unpack_pack (by omega) (by omega) ?_
  show Upto _ (UnpackedFloat.mul Format.binary64 x.toModel.unpack y.toModel.unpack)
  have hnarrow := narrow_unpack x
  have hnarrow' := narrow_unpack y
  rcases hx.cases with ⟨s, hs⟩ | ⟨s, m, e, hm, hs, he⟩ <;>
    rcases hy.cases with ⟨s', hs'⟩ | ⟨s', m', e', hm', hs', he'⟩ <;> rw [hs, hs']
  · trivial
  · trivial
  · trivial
  · rw [hs] at hnarrow
    rw [hs'] at hnarrow'
    have hproduct : m * m' < 2 ^ 53 * 2 ^ 53 := Nat.mul_lt_mul'' hnarrow hnarrow'
    have hlog : ((m * m').log2 : ℤ) < 106 := log2_lt_of_lt (by decide) hproduct
    rw [mul_finite]
    refine upto_roundWithAccuracy _ _ (by omega) (by omega) ?_
    rw [totalExponent]
    omega

/-- A number that is too great to be multiplied by one as it is is rounded at once. -/
theorem upto_ofScientific (hn : n ≠ 0) (h : n < 2 ^ 64) :
    Upto 118 (UnpackedFloat.ofScientific Format.binary64 n 0) := by
  have hlog : (n.log2 : ℤ) < 64 := log2_lt_of_lt (by decide) h
  have hbound : ¬ (0 : ℤ) < -((2 : ℤ) ^ 11 + n.log2) := by omega
  have hbits : Format.binary64.mantissaBits = 53 := rfl
  have hunit : 10 ^ Int.toNat 0 = 1 := rfl
  have htotal : totalExponent (n <<< 53) (-(53 : ℕ) + 0) ≤ 118 := by
    rw [totalExponent, log2_shiftLeft hn]
    omega
  rw [UnpackedFloat.ofScientific, dif_neg hn, if_neg (by decide), if_neg hbound,
    if_pos (Int.le_refl 0), mul_finite, hbits, hunit, Nat.mul_one]
  -- Left as it is, the shift would be carried out here.
  generalize n <<< 53 = m at htotal ⊢
  exact upto_roundWithAccuracy _ _ (by decide) (by decide) htotal

theorem upto_ofNat (h : n < 2 ^ 64) : Upto 118 (Float.ofNat n).toModel.unpack := by
  show Upto 118 (Float.ofScientific n false 0).toModel.unpack
  unfold Float.ofScientific
  split
  · have hone : Upto (-52) (Float.ofBits 0x3FF0000000000000).toModel.unpack :=
      Int.le_refl (-52)
    exact upto_mul (upto_toFloat _) hone (by decide) (by decide)
  · exact upto_unpack_pack (by decide) (by decide) (upto_ofScientific (by omega) h)

theorem upto_neg (hlow : -1074 ≤ k) (hhigh : k ≤ 971) (h : Upto k x.toModel.unpack) :
    Upto k (-x).toModel.unpack := by
  refine upto_unpack_pack hlow hhigh ?_
  show Upto k x.toModel.unpack.neg
  rcases h.cases with ⟨s, hs⟩ | ⟨s, m, e, hm, hs, he⟩ <;> rw [hs]
  · trivial
  · exact he

/-- A whole number of 64 bits is near a finite float. -/
theorem isFinite_ofInt {n : ℤ} (h : n.natAbs < 2 ^ 64) : (Float.ofInt n).isFinite = true := by
  cases n with
  | ofNat n => exact isFinite_of_upto (upto_ofNat h)
  | negSucc n => exact isFinite_of_upto (upto_neg (by decide) (by decide) (upto_ofNat h))

end Numbers

end Decimal

end StoryWorld
