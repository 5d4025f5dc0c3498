import Mathlib
import Rundown.Sequence.Score

/-!
# The order and the range of 64-bit numbers

A number of 64 bits that is not a NaN has a rank, its kind before its exponent
before its significand, and numbers compare as their ranks do.  So the numbers
without a NaN are ordered linearly, the two zeros having the same rank.

The second part says which results are numbers and which are finite, or at
least not beyond all finite numbers.  The exponent of a result is bounded through
the bounds of its operands; nothing is said about the value to which a result is
rounded.
-/

namespace Rundown.Binary64

open Float.Model Float.Model.UnpackedFloat

/-- The sign, significand and exponent of a number. -/
def parts (x : Float) : UnpackedFloat :=
  x.toModel.unpack

/-! ## The order -/

/-- A place in the order of the numbers. -/
abbrev Rank : Type :=
  ℤ ×ₗ ℤ ×ₗ ℤ

/-- A rank from its three parts. -/
def rankOf (kind exponent significand : ℤ) : Rank :=
  toLex (kind, toLex (exponent, significand))

/-- The rank of the parts of a number; the one of a NaN has no meaning. -/
def rankOfParts : UnpackedFloat → Rank
  | .infinity .negative => rankOf (-2) 0 0
  | .finite .negative m e _ => rankOf (-1) (-e) (-m)
  | .zero _ => rankOf 0 0 0
  | .finite .positive m e _ => rankOf 1 e m
  | .infinity .positive => rankOf 2 0 0
  | .notANumber => rankOf 0 0 0

/-- The rank of a number. -/
def rank (x : Float) : Rank :=
  rankOfParts (parts x)

theorem compare_rankOf (a b c a' b' c' : ℤ) :
    compare (rankOf a b c) (rankOf a' b' c') =
      (compare a a').then ((compare b b').then (compare c c')) := by
  unfold rankOf
  rw [Prod.Lex.compare_def]
  simp only [compareLex, compareOn, Prod.Lex.compare_def]
  rfl

theorem compare_neg_neg (a b : ℤ) : compare (-a) (-b) = (compare a b).swap := by
  rcases lt_trichotomy a b with h | h | h
  · rw [compare_lt_iff_lt.mpr h, compare_gt_iff_gt.mpr (by omega)]
    rfl
  · rw [compare_eq_iff_eq.mpr h, compare_eq_iff_eq.mpr (by omega)]
    rfl
  · rw [compare_gt_iff_gt.mpr h, compare_lt_iff_lt.mpr (by omega)]
    rfl

theorem compare_natCast (m n : ℕ) : compare (m : ℤ) (n : ℤ) = compare m n := by
  rcases lt_trichotomy m n with h | h | h
  · rw [compare_lt_iff_lt.mpr h, compare_lt_iff_lt.mpr (by omega)]
  · rw [compare_eq_iff_eq.mpr h, compare_eq_iff_eq.mpr (by omega)]
  · rw [compare_gt_iff_gt.mpr h, compare_gt_iff_gt.mpr (by omega)]

theorem compare_parts {u v : UnpackedFloat} (hu : u.isNaN = false) (hv : v.isNaN = false) :
    u.compare v = some (compare (rankOfParts u) (rankOfParts v)) := by
  -- Only two finite numbers of one sign share their kind and differ in the rest.
  cases u with
  | notANumber => cases hu
  | infinity s =>
      cases v with
      | notANumber => cases hv
      | infinity t => cases s <;> cases t <;> rfl
      | zero t => cases s <;> rfl
      | finite t m e hm => cases s <;> cases t <;> rfl
  | zero s =>
      cases v with
      | notANumber => cases hv
      | infinity t => cases t <;> rfl
      | zero t => rfl
      | finite t m e hm => cases t <;> rfl
  | finite s m e hm =>
      cases v with
      | notANumber => cases hv
      | infinity t => cases s <;> cases t <;> rfl
      | zero t => cases s <;> rfl
      | finite t n d hn =>
          cases s with
          | negative =>
              cases t with
              | negative =>
                  have hranks : compare (rankOf (-1) (-e) (-m)) (rankOf (-1) (-d) (-n)) =
                      ((compare e d).then (compare m n)).swap := by
                    rw [compare_rankOf, compare_neg_neg e d, compare_neg_neg m n, compare_natCast,
                      Ordering.swap_then]
                    rfl
                  exact congrArg some hranks.symm
              | positive => rfl
          | positive =>
              cases t with
              | negative => rfl
              | positive =>
                  have hranks : compare (rankOf 1 e m) (rankOf 1 d n) =
                      (compare e d).then (compare m n) := by
                    rw [compare_rankOf, compare_natCast]
                    rfl
                  exact congrArg some hranks.symm

theorem lt_iff_compare {x y : Float} : x < y ↔ (parts x).compare (parts y) = some .lt := by
  change decide ((parts x).lt (parts y) = true) = true ↔ _
  unfold UnpackedFloat.lt
  rw [decide_eq_true_iff, beq_iff_eq]

section Order

variable {x y : Float} (hx : x.isNaN = false) (hy : y.isNaN = false)

include hx hy

theorem compare_eq_rank :
    (parts x).compare (parts y) = some (compare (rank x) (rank y)) :=
  compare_parts hx hy

theorem lt_iff_rank_lt : x < y ↔ rank x < rank y := by
  rw [lt_iff_compare, compare_eq_rank hx hy, Option.some_inj, compare_lt_iff_lt]

theorem beq_iff_rank_eq : (x == y) = true ↔ rank x = rank y := by
  change (parts x).beq (parts y) = true ↔ _
  unfold UnpackedFloat.beq
  rw [compare_eq_rank hx hy, beq_iff_eq, Option.some_inj, compare_eq_iff_eq]

theorem le_iff_rank_le : x ≤ y ↔ rank x ≤ rank y := by
  change decide ((parts x).le (parts y) = true) = true ↔ _
  unfold UnpackedFloat.le
  rw [compare_eq_rank hx hy, decide_eq_true_iff, Option.any_some, Ordering.isLE_iff_ne_gt]
  exact compare_gt_iff_gt.not.trans not_lt

end Order

/-- A NaN is not even at most itself. -/
theorem isNaN_of_le_self {x : Float} (h : x ≤ x) : x.isNaN = false := by
  change decide ((parts x).le (parts x) = true) = true at h
  change (parts x).isNaN = false
  cases hparts : parts x with
  | notANumber =>
      rw [hparts] at h
      exact absurd h (by decide)
  | infinity s => rfl
  | zero s => rfl
  | finite s m e hm => rfl

/-! ## Results that are numbers -/

theorem isNaN_of_isFinite_parts {u : UnpackedFloat} (h : u.isFinite = true) : u.isNaN = false := by
  cases u with
  | notANumber => cases h
  | infinity s => rfl
  | zero s => rfl
  | finite s m e hm => rfl

theorem isNaN_roundWithAccuracy (s : Sign) (m : ℕ) (e : ℤ) (a : Accuracy) :
    (roundWithAccuracy .binary64 s m e a).isNaN = false := by
  simp only [roundWithAccuracy]
  split <;> rfl

theorem isNaN_normalize (m e : ℤ) (s : Sign) :
    (UnpackedFloat.normalize .binary64 m e s).isNaN = false := by
  unfold UnpackedFloat.normalize
  split
  · exact isNaN_roundWithAccuracy ..
  · rfl
  · exact isNaN_roundWithAccuracy ..

/-! ## Results that are finite -/

/-- A finite number of 53 bits with an exponent of at most `k`. -/
inductive Within (k : ℤ) : UnpackedFloat → Prop
  | zero (s : Sign) : Within k (.zero s)
  | finite {s : Sign} {m : ℕ} {e : ℤ} (hm : 0 < m) (bits : m < 2 ^ 53) (bound : e ≤ k) :
      Within k (.finite s m e hm)

namespace Within

variable {k : ℤ} {u : UnpackedFloat}

theorem isNaN (h : Within k u) : u.isNaN = false := by
  cases h <;> rfl

theorem isFinite (h : Within k u) : u.isFinite = true := by
  cases h <;> rfl

theorem mono (h : Within k u) {l : ℤ} (hkl : k ≤ l) : Within l u := by
  cases h with
  | zero s => exact .zero s
  | finite hm hbits hbound => exact .finite hm hbits (hbound.trans hkl)

end Within

/-- The parts of a result once it is held in 64 bits. -/
def held (u : UnpackedFloat) : UnpackedFloat :=
  UnpackedFloat.unpack .binary64 (UnpackedFloat.pack .binary64 u)

/-- Every exponent field but the greatest one is that of a finite number. -/
theorem within_unpack {b : BitVec (Format.numBits .binary64)} (h : unpackExponent b ≠ -1#11) :
    Within (max ((unpackExponent b).toNat - 1075) (-1074)) (UnpackedFloat.unpack .binary64 b) := by
  unfold UnpackedFloat.unpack
  simp only [if_neg h]
  split
  · split
    · exact .zero _
    · refine .finite _ ?_ ?_
      · exact (unpackMantissa b).isLt.trans (by decide)
      · rename_i hzero _
        rw [hzero]
        decide
  · refine .finite _ ?_ ?_
    · exact (1#1 ++ unpackMantissa b).isLt
    · exact le_max_left _ _

theorem pack_finite (s : Sign) {m : ℕ} (e : ℤ) (hm : 0 < m) :
    UnpackedFloat.pack .binary64 (.finite s m e hm) =
      if 2048 ≤ (e + 1075).toNat + 1 then packedInfinity .binary64 s
      else if m.log2 + 1 = 53 then
        packComponents .binary64 s (BitVec.ofNat 11 (e + 1075).toNat) (BitVec.ofNat 52 m)
      else packComponents .binary64 s (BitVec.ofNat 11 0) (BitVec.ofNat 52 m) := by
  have hbias : e + 1075 = e + (1023 : ℕ) + (52 : ℕ) := by omega
  rw [hbias]
  rfl

theorem within_held_finite (s : Sign) {m : ℕ} {e : ℤ} (hm : 0 < m) (h : e ≤ 971) :
    Within (max e (-1074)) (held (.finite s m e hm)) := by
  have hfields : ∀ (field : ℕ) m', field < 2047 → (field : ℤ) ≤ max (e + 1075) 0 →
      Within (max e (-1074)) (UnpackedFloat.unpack .binary64
        (packComponents .binary64 s (BitVec.ofNat 11 field) m')) := by
    intro field m' hfield hbound
    have hnat : (BitVec.ofNat 11 field).toNat = field := by
      rw [BitVec.toNat_ofNat, Nat.mod_eq_of_lt (by omega)]
    have hgreatest : BitVec.ofNat 11 field ≠ -1#11 := by
      intro hones
      rw [hones] at hnat
      have : field = 2047 := hnat.symm
      omega
    have hwithin := within_unpack
      (b := packComponents .binary64 s (BitVec.ofNat 11 field) m') (by
        rw [unpackExponent_packComponents]
        exact hgreatest)
    rw [unpackExponent_packComponents, hnat] at hwithin
    exact hwithin.mono (by omega)
  unfold held
  rw [pack_finite, if_neg (by omega)]
  split
  · exact hfields _ _ (by omega) (by omega)
  · exact hfields 0 _ (by omega) (by omega)

theorem within_held {k : ℤ} {u : UnpackedFloat} (h : Within k u) (hlow : -1074 ≤ k)
    (hhigh : k ≤ 971) : Within k (held u) := by
  cases h with
  | zero s => cases s <;> exact .zero _
  | finite hm hbits hbound =>
      exact (within_held_finite _ hm (hbound.trans hhigh)).mono (max_le hbound hlow)

/-- What is held as a number is a number. -/
theorem isNaN_held {u : UnpackedFloat} (h : u.isNaN = false) : (held u).isNaN = false := by
  cases u with
  | notANumber => cases h
  | infinity s => cases s <;> rfl
  | zero s => cases s <;> rfl
  | finite s m e hm =>
      by_cases hrange : e ≤ 971
      · exact (within_held_finite s hm hrange).isNaN
      · -- Beyond the range it is held as an infinity.
        unfold held
        rw [pack_finite, if_pos (by omega)]
        cases s <;> rfl

theorem mantissa_ofMantissaAndAccuracy (m : ℕ) (a : Accuracy) :
    (ExtendedMantissa.ofMantissaAndAccuracy m a).mantissa = m := by
  cases a with
  | exact => rfl
  | inexact half => cases half <;> rfl

theorem mantissa_shiftRight (x : ExtendedMantissa) (n : ℕ) :
    (x >>> n).mantissa = x.mantissa / 2 ^ n := by
  induction n with
  | zero => exact (Nat.div_one _).symm
  | succ n ih =>
      change (x >>> n).mantissa / 2 = _
      rw [ih, Nat.div_div_eq_div_mul, Nat.pow_succ]

theorem roundedMantissa_le (x : ExtendedMantissa) : x.roundedMantissa ≤ x.mantissa + 1 := by
  unfold ExtendedMantissa.roundedMantissa
  cases x.accuracy with
  | exact => exact Nat.le_succ _
  | inexact half =>
      cases half <;> simp only [Accuracy.roundToNearestEven] <;> omega

theorem targetExponent_eq (t : ℤ) : Format.binary64.targetExponent t = max (t - 53) (-1074) :=
  rfl

/-- Shifted to its target exponent a significand has at most 53 bits. -/
theorem shifted_lt (m : ℕ) (e : ℤ) :
    m / 2 ^ (Format.binary64.targetExponent (totalExponent m e) - e).toNat < 2 ^ 53 := by
  rw [targetExponent_eq, totalExponent]
  generalize hn : (max ((m.log2 : ℤ) + 1 + e - 53) (-1074) - e).toNat = n
  have hbits : m.log2 + 1 ≤ 53 + n := by omega
  rw [Nat.div_lt_iff_lt_mul (Nat.two_pow_pos n), ← Nat.pow_add]
  exact Nat.lt_log2_self.trans_le (Nat.pow_le_pow_right (by decide) hbits)

theorem totalExponent_le {m bits : ℕ} (hm : m < 2 ^ bits) (hbits : 0 < bits) (e : ℤ) :
    totalExponent m e ≤ bits + e := by
  unfold totalExponent
  rcases Nat.eq_zero_or_pos m with rfl | hpos
  · rw [Nat.log2_zero]
    omega
  · have := (Nat.log2_lt hpos.ne').mpr hm
    omega

/-- Rounding adds at most one to the exponent, when the significand is carried
over into another bit. -/
theorem within_roundWithAccuracy (s : Sign) {m : ℕ} {e k : ℤ} (a : Accuracy)
    (htotal : totalExponent m e ≤ k + 53) (hexponent : e ≤ k) (hlow : -1074 ≤ k) :
    Within (k + 1) (roundWithAccuracy .binary64 s m e a) := by
  have hfirst := shifted_lt m e
  unfold roundWithAccuracy shiftToTargetExponent shiftToExponent
  simp only
  generalize hn : (Format.binary64.targetExponent (totalExponent m e) - e).toNat = n at hfirst
  generalize hrounded :
    (ExtendedMantissa.ofMantissaAndAccuracy m a >>> n).roundedMantissa = rounded
  have hshift : e + n ≤ k := by
    rw [targetExponent_eq] at hn
    omega
  -- Rounding may carry into another bit, which a second shift takes back.
  have hcarry : rounded < 2 ^ 54 := by
    have hle := roundedMantissa_le (ExtendedMantissa.ofMantissaAndAccuracy m a >>> n)
    rw [hrounded, mantissa_shiftRight, mantissa_ofMantissaAndAccuracy] at hle
    omega
  have hagain := totalExponent_le hcarry (by decide) (e + n)
  have hsecond := shifted_lt rounded (e + n)
  split
  · exact .zero s
  · refine .finite _ ?_ ?_
    · rw [mantissa_shiftRight, mantissa_ofMantissaAndAccuracy]
      exact hsecond
    · rw [targetExponent_eq]
      omega

theorem shiftLeft_lt {m bits : ℕ} (hm : m < 2 ^ bits) (n : ℕ) : m <<< n < 2 ^ (bits + n) := by
  rw [Nat.shiftLeft_eq, Nat.pow_add]
  exact Nat.mul_lt_mul_of_pos_right hm (Nat.two_pow_pos n)

theorem within_round (s : Sign) {m bits : ℕ} {e k : ℤ} (hm : m < 2 ^ bits) (hbits : 0 < bits)
    (htotal : bits + e ≤ k + 53) (hexponent : e ≤ k) (hlow : -1074 ≤ k) :
    Within (k + 1) (UnpackedFloat.round .binary64 s m e) := by
  unfold UnpackedFloat.round decreaseExponent
  simp only
  generalize (e - Format.binary64.targetExponent (totalExponent m e)).toNat = n
  have hsame := totalExponent_le (shiftLeft_lt hm n) (by omega) (e - n)
  exact within_roundWithAccuracy s .exact (by omega) (by omega) hlow

theorem within_normalize (s : Sign) {m e k : ℤ} {bits : ℕ} (hm : m.natAbs < 2 ^ bits)
    (hbits : 0 < bits) (htotal : bits + e ≤ k + 53) (hexponent : e ≤ k) (hlow : -1074 ≤ k) :
    Within (k + 1) (UnpackedFloat.normalize .binary64 m e s) := by
  unfold UnpackedFloat.normalize
  split
  · exact within_round _ (by omega) hbits htotal hexponent hlow
  · exact .zero s
  · exact within_round _ (by omega) hbits htotal hexponent hlow

/-! ## Signs -/

/-- Parts with a sign; a NaN has none. -/
inductive HasSign (s : Sign) : UnpackedFloat → Prop
  | zero : HasSign s (.zero s)
  | finite {m : ℕ} {e : ℤ} (hm : 0 < m) : HasSign s (.finite s m e hm)
  | infinity : HasSign s (.infinity s)

theorem sign_packComponents (s : Sign) (exponent : BitVec 11) (mantissa : BitVec 52) :
    Sign.ofBitVec (unpackSign (packComponents .binary64 s exponent mantissa)) = s := by
  simp only [unpackSign, packComponents, BitVec.extractLsb]
  rw [BitVec.extractLsb'_append_eq_of_le (by omega), BitVec.extractLsb'_append_eq_of_le (by omega)]
  cases s <;> rfl

theorem hasSign_unpack {b : BitVec (Format.numBits .binary64)}
    (h : (UnpackedFloat.unpack .binary64 b).isNaN = false) :
    HasSign (Sign.ofBitVec (unpackSign b)) (UnpackedFloat.unpack .binary64 b) := by
  unfold UnpackedFloat.unpack at h ⊢
  simp only at h ⊢
  split
  · split
    · exact .infinity
    · rename_i hgreatest hnan
      rw [if_pos hgreatest, if_neg hnan] at h
      cases h
  · split
    · split
      · exact .zero
      · exact .finite _
    · exact .finite _

namespace HasSign

variable {s : Sign} {u : UnpackedFloat}

theorem isNaN (h : HasSign s u) : u.isNaN = false := by
  cases h <;> rfl

/-- The sign survives when the parts are held in 64 bits, whatever they are rounded to. -/
theorem sign_pack (h : HasSign s u) :
    Sign.ofBitVec (unpackSign (UnpackedFloat.pack .binary64 u)) = s := by
  cases h with
  | zero => exact sign_packComponents ..
  | infinity => exact sign_packComponents ..
  | finite hm =>
      rw [pack_finite]
      split
      · exact sign_packComponents ..
      · split <;> exact sign_packComponents ..

theorem held (h : HasSign s u) : HasSign s (held u) := by
  have hunpack := hasSign_unpack (isNaN_held h.isNaN)
  rwa [h.sign_pack] at hunpack

end HasSign

theorem hasSign_roundWithAccuracy (s : Sign) (m : ℕ) (e : ℤ) (a : Accuracy) :
    HasSign s (roundWithAccuracy .binary64 s m e a) := by
  simp only [roundWithAccuracy]
  split
  · exact .zero
  · exact .finite _

theorem hasSign_abs {u : UnpackedFloat} (h : u.isNaN = false) : HasSign .positive u.abs := by
  cases u with
  | notANumber => cases h
  | infinity s => exact .infinity
  | zero s => exact .zero
  | finite s m e hm => exact .finite hm

/-! ## Numbers that are not beyond all others -/

/-- Neither a NaN nor the positive infinity. -/
inductive Below (u : UnpackedFloat) : Prop
  | finite (h : u.isFinite = true)
  | negative (h : HasSign .negative u)

theorem Below.isNaN {u : UnpackedFloat} (h : Below u) : u.isNaN = false := by
  cases h with
  | negative hsign => exact hsign.isNaN
  | finite hfinite => exact isNaN_of_isFinite_parts hfinite

theorem Within.below_held {k : ℤ} {u : UnpackedFloat} (h : Within k u) (hlow : -1074 ≤ k)
    (hhigh : k ≤ 971) : Below (held u) :=
  .finite (within_held h hlow hhigh).isFinite

/-- A difference is negative or no greater than what is subtracted from. -/
theorem below_normalize {m e k : ℤ} {bits : ℕ} (hm : m < 2 ^ bits) (hbits : 0 < bits)
    (htotal : bits + e ≤ k + 53) (hexponent : e ≤ k) (hlow : -1074 ≤ k) (hhigh : k ≤ 970) :
    Below (held (UnpackedFloat.normalize .binary64 m e .positive)) := by
  unfold UnpackedFloat.normalize
  split
  · exact .negative (hasSign_roundWithAccuracy ..).held
  · exact .finite rfl
  · rename_i hgreater
    have hpos : 0 < m := compare_gt_iff_gt.mp hgreater
    have hnat : m.toNat < 2 ^ bits := by
      zify
      rwa [Int.toNat_of_nonneg hpos.le]
    exact (within_round .positive hnat hbits htotal hexponent hlow).below_held (by omega) (by omega)

theorem apply_le (s : Sign) (n : ℕ) : s.apply n ≤ n := by
  cases s with
  | negative =>
      change -(n : ℤ) ≤ n
      omega
  | positive => exact le_rfl

/-- Whatever is subtracted, if only it has a plus, the result does not grow. -/
theorem below_sub_parts {k : ℤ} {u v : UnpackedFloat} (hu : Within k u) (hv : HasSign .positive v)
    (hlow : -1074 ≤ k) (hhigh : k ≤ 970) : Below (held (UnpackedFloat.sub .binary64 u v)) := by
  cases hv with
  | infinity =>
      have hnegative : HasSign .negative (.infinity .negative) := .infinity
      cases hu with
      | zero s => exact .negative hnegative.held
      | finite hm hbits hbound => exact .negative hnegative.held
  | zero =>
      cases hu with
      | zero s => cases s <;> exact .finite rfl
      | finite hm hbits hbound =>
          exact (Within.finite hm hbits hbound).below_held hlow (by omega)
  | finite hn =>
      cases hu with
      | zero s =>
          rename_i n d
          have hnegative : HasSign .negative (.finite .negative n d hn) := .finite hn
          exact .negative hnegative.held
      | finite hm hbits hbound =>
          rename_i n d s m e
          unfold UnpackedFloat.sub decreaseExponent
          simp only
          generalize hspan : (e - min e d).toNat = span
          have hleft : m <<< span < 2 ^ (53 + span) := shiftLeft_lt hbits span
          zify at hleft
          exact below_normalize
            ((Int.sub_le_self _ (Int.natCast_nonneg _)).trans_lt ((apply_le s _).trans_lt hleft))
            (by omega) (by omega) (by omega) hlow hhigh

/-! ## Operations on parts -/

theorem isNaN_sub_parts {u v : UnpackedFloat} (hu : u.isNaN = false) (hv : v.isNaN = false)
    (hfinite : u.isFinite = true ∨ v.isFinite = true) :
    (UnpackedFloat.sub .binary64 u v).isNaN = false := by
  cases u with
  | notANumber => cases hu
  | infinity s =>
      cases v with
      | notANumber => cases hv
      | infinity t => simp [UnpackedFloat.isFinite] at hfinite
      | zero t => rfl
      | finite t m e hm => rfl
  | zero s =>
      cases v with
      | notANumber => cases hv
      | infinity t => rfl
      | zero t => cases s <;> cases t <;> rfl
      | finite t m e hm => rfl
  | finite s m e hm =>
      cases v with
      | notANumber => cases hv
      | infinity t => rfl
      | zero t => rfl
      | finite t n d hn => apply isNaN_normalize

/-- The sum is a NaN only for two infinities of different signs. -/
theorem isNaN_add_parts {u v : UnpackedFloat} (hu : Below u) (hv : Below v) :
    (UnpackedFloat.add .binary64 u v).isNaN = false := by
  cases u with
  | notANumber => cases hu.isNaN
  | infinity s =>
      cases hu with
      | finite hfinite => cases hfinite
      | negative hsign =>
          cases hsign
          cases v with
          | notANumber => cases hv.isNaN
          | infinity t =>
              cases hv with
              | finite hfinite => cases hfinite
              | negative hsign => cases hsign; rfl
          | zero t => rfl
          | finite t m e hm => rfl
  | zero s =>
      cases v with
      | notANumber => cases hv.isNaN
      | infinity t => rfl
      | zero t => cases s <;> cases t <;> rfl
      | finite t m e hm => rfl
  | finite s m e hm =>
      cases v with
      | notANumber => cases hv.isNaN
      | infinity t => rfl
      | zero t => rfl
      | finite t n d hn => apply isNaN_normalize

/-- Neither a zero nor an infinity nor a NaN. -/
def isFiniteNonzero : UnpackedFloat → Bool
  | .finite .. => true
  | _ => false

theorem isNaN_mul_parts {u v : UnpackedFloat} (hu : u.isNaN = false)
    (hv : isFiniteNonzero v = true) : (UnpackedFloat.mul .binary64 u v).isNaN = false := by
  cases v with
  | notANumber => cases hv
  | infinity s => cases hv
  | zero s => cases hv
  | finite s m e hm =>
      cases u with
      | notANumber => cases hu
      | infinity t => rfl
      | zero t => rfl
      | finite t n d hn => apply isNaN_roundWithAccuracy

theorem isNaN_div_parts {u v : UnpackedFloat} (hu : u.isNaN = false)
    (hv : isFiniteNonzero v = true) : (UnpackedFloat.div .binary64 u v).isNaN = false := by
  cases v with
  | notANumber => cases hv
  | infinity s => cases hv
  | zero s => cases hv
  | finite s m e hm =>
      cases u with
      | notANumber => cases hu
      | infinity t => rfl
      | zero t => rfl
      | finite t n d hn => apply isNaN_roundWithAccuracy

/-! ## Operations on numbers -/

section Operations

variable {x y : Float}

theorem isNaN_sub (hx : x.isNaN = false) (hy : y.isNaN = false)
    (hfinite : x.isFinite = true ∨ y.isFinite = true) : (x - y).isNaN = false :=
  isNaN_held (isNaN_sub_parts hx hy hfinite)

theorem below_sub {k : ℤ} (hx : Within k (parts x)) (hy : HasSign .positive (parts y))
    (hlow : -1074 ≤ k) (hhigh : k ≤ 970) : Below (parts (x - y)) :=
  below_sub_parts hx hy hlow hhigh

theorem isNaN_add (hx : Below (parts x)) (hy : Below (parts y)) : (x + y).isNaN = false :=
  isNaN_held (isNaN_add_parts hx hy)

theorem hasSign_parts_abs (hx : x.isNaN = false) : HasSign .positive (parts x.abs) :=
  (hasSign_abs hx).held

theorem isNaN_mul (hx : x.isNaN = false) (hy : isFiniteNonzero (parts y) = true) :
    (x * y).isNaN = false :=
  isNaN_held (isNaN_mul_parts hx hy)

theorem isNaN_div (hx : x.isNaN = false) (hy : isFiniteNonzero (parts y) = true) :
    (x / y).isNaN = false :=
  isNaN_held (isNaN_div_parts hx hy)

theorem isNaN_of_isFinite (hx : x.isFinite = true) : x.isNaN = false :=
  isNaN_of_isFinite_parts hx

/-- Only the infinities lie beyond every finite number. -/
theorem isFinite_of_between {low high : Float} (hlow : low.isFinite = true)
    (hhigh : high.isFinite = true) (hx : x.isNaN = false) (hleast : ¬ x < low)
    (hgreatest : ¬ high < x) : x.isFinite = true := by
  change (parts low).isFinite = true at hlow
  change (parts high).isFinite = true at hhigh
  change (parts x).isNaN = false at hx
  change (parts x).isFinite = true
  rw [lt_iff_compare] at hleast hgreatest
  generalize parts x = u at *
  generalize parts low = v at *
  generalize parts high = w at *
  cases u with
  | notANumber => cases hx
  | zero s => rfl
  | finite s m e hm => rfl
  | infinity s =>
      exfalso
      cases s with
      | negative =>
          apply hleast
          cases v with
          | notANumber => cases hlow
          | infinity t => cases hlow
          | zero t => rfl
          | finite t m e hm => cases t <;> rfl
      | positive =>
          apply hgreatest
          cases w with
          | notANumber => cases hhigh
          | infinity t => cases hhigh
          | zero t => rfl
          | finite t m e hm => cases t <;> rfl

end Operations

/-! ## Whole numbers -/

theorem within_mul_one {k : ℤ} {u : UnpackedFloat} (hu : Within k u) (hlow : -1074 ≤ k) :
    Within (k + 1)
      (UnpackedFloat.mul .binary64 u (.finite .positive (2 ^ 52) (-52) (by decide))) := by
  cases hu with
  | zero s => exact .zero _
  | finite hm hbits hbound =>
      rename_i s m e
      have hproduct : m * 2 ^ 52 < 2 ^ 105 := by omega
      have htotal := totalExponent_le hproduct (by decide) (e + -52)
      exact within_roundWithAccuracy _ .exact (by omega) (by omega) hlow

theorem ofNat_of_lt {n : ℕ} (h : n < 2 ^ 53) :
    Float.ofNat n = n.toUInt64.toFloat * Float.ofBits 0x3FF0000000000000 := by
  change Float.ofScientific n false 0 = _
  unfold Float.ofScientific
  rw [dif_pos ⟨h, by decide⟩]
  rfl

theorem ofNat_of_ge {n : ℕ} (h : 2 ^ 53 ≤ n) :
    Float.ofNat n = .ofModel (.ofScientific n 0) := by
  change Float.ofScientific n false 0 = _
  unfold Float.ofScientific
  rw [dif_neg (by omega)]
  rfl

theorem ofScientific_zero {n : ℕ} (hn : n ≠ 0) :
    UnpackedFloat.ofScientific .binary64 n 0 =
      roundWithAccuracy .binary64 .positive (n <<< 53) (-53 + 0) .exact := by
  have hlow : ¬ (0 : ℤ) < -((2 ^ 11 : ℤ) + n.log2) := by omega
  unfold UnpackedFloat.ofScientific
  rw [dif_neg hn, if_neg (by decide), if_neg hlow, if_pos (by decide),
    ← Nat.mul_one (n <<< 53)]
  rfl

theorem within_ofNat {n : ℕ} (h : n < 2 ^ 64) : Within 13 (parts (Float.ofNat n)) := by
  by_cases hsmall : n < 2 ^ 53
  · have hword : Within 12 (parts n.toUInt64.toFloat) := by
      have hbits : (n.toUInt64.toNat : ℤ).natAbs < 2 ^ 64 := n.toUInt64.toNat_lt
      exact within_held (within_normalize .positive (k := 11) hbits (by decide) (by decide)
        (by decide) (by decide)) (by decide) (by decide)
    rw [ofNat_of_lt hsmall]
    exact within_held (within_mul_one hword (by decide)) (by decide) (by decide)
  · rw [ofNat_of_ge (not_lt.mp hsmall)]
    change Within 13 (held (UnpackedFloat.ofScientific .binary64 n 0))
    have htotal := totalExponent_le (shiftLeft_lt h 53) (by decide) (-53 + 0)
    rw [ofScientific_zero (by omega)]
    exact within_held (within_roundWithAccuracy _ .exact (k := 12) (by omega) (by decide)
      (by decide)) (by decide) (by decide)

theorem hasSign_normalize {m : ℤ} (h : 0 ≤ m) (e : ℤ) :
    HasSign .positive (UnpackedFloat.normalize .binary64 m e .positive) := by
  unfold UnpackedFloat.normalize
  split
  · rename_i hless
    exact absurd (compare_lt_iff_lt.mp hless) (by omega)
  · exact .zero
  · exact hasSign_roundWithAccuracy ..

theorem hasSign_mul_one {u : UnpackedFloat} (hu : HasSign .positive u) :
    HasSign .positive
      (UnpackedFloat.mul .binary64 u (.finite .positive (2 ^ 52) (-52) (by decide))) := by
  cases hu with
  | zero => exact .zero
  | finite hm => exact hasSign_roundWithAccuracy ..
  | infinity => exact .infinity

/-- Every natural number is converted to a number with a plus, if it be an infinity. -/
theorem hasSign_ofNat (n : ℕ) : HasSign .positive (parts (Float.ofNat n)) := by
  by_cases hsmall : n < 2 ^ 53
  · have hword : HasSign .positive (parts n.toUInt64.toFloat) :=
      (hasSign_normalize (Int.natCast_nonneg _) 0).held
    rw [ofNat_of_lt hsmall]
    exact (hasSign_mul_one hword).held
  · rw [ofNat_of_ge (not_lt.mp hsmall)]
    change HasSign .positive (held (UnpackedFloat.ofScientific .binary64 n 0))
    rw [ofScientific_zero (by omega)]
    exact (hasSign_roundWithAccuracy ..).held

theorem isNaN_ofNat (n : ℕ) : (Float.ofNat n).isNaN = false :=
  (hasSign_ofNat n).isNaN

end Rundown.Binary64
