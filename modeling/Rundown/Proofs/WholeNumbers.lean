import Rundown.Proofs.Binary64

/-!
# Whole numbers among the 64-bit numbers

The bits of a number and its parts say the same, so what is cut off or rounded
to a whole number can be computed from the parts.  A whole number below two to
the power 53 has an exact conversion and comes back unchanged; a greater one
comes back as some number that is at least as far from zero as that power.

The last part is about signs only: a product of positive numbers is cut off to a
number that is not negative.  How far a rounded product misses the exact one is
not said.
-/

namespace Rundown.Binary64

open Float.Model Float.Model.UnpackedFloat

/-! ## The value of the parts -/

/-- The sign is a minus. -/
def isMinus : Sign → Bool
  | .negative => true
  | .positive => false

/-- The exact value of finite parts. -/
def exactValue? : UnpackedFloat → Option Decimal.Binary
  | .zero s => some ⟨isMinus s, 0, -1074⟩
  | .finite s m e _ => some ⟨isMinus s, m, e⟩
  | .infinity _ => none
  | .notANumber => none

theorem toNat_one_append {w : ℕ} (v : BitVec w) : (1#1 ++ v).toNat = 2 ^ w + v.toNat := by
  rw [BitVec.toNat_append, ← Nat.shiftLeft_add_eq_or_of_lt v.isLt, Nat.shiftLeft_eq]
  simp

theorem toNat_unpackMantissa (b : BitVec (Format.numBits .binary64)) :
    (unpackMantissa b).toNat = b.toNat % Decimal.fractionCount := by
  simp only [unpackMantissa, BitVec.toNat_cast, BitVec.extractLsb_toNat, Nat.shiftRight_zero]
  rfl

theorem toNat_unpackExponent (b : BitVec (Format.numBits .binary64)) :
    (unpackExponent b).toNat = b.toNat / Decimal.fractionCount % Decimal.exponentCount := by
  simp only [unpackExponent, BitVec.toNat_cast, BitVec.extractLsb_toNat, Nat.shiftRight_eq_div_pow]
  rfl

/-- The bits of a number, as the format divides them. -/
def bits (x : Float) : BitVec (Format.numBits .binary64) :=
  x.toModel.toBits.toBitVec

/-- The sign of a number, which a zero and an infinity have too. -/
def sign (x : Float) : Sign :=
  Sign.ofBitVec (unpackSign (bits x))

theorem isNegative_eq (x : Float) : Decimal.isNegative x = isMinus (sign x) := by
  have htop : (unpackSign (bits x)).toNat = (x.toBits >>> 63).toNat := by
    have hword : (bits x).toNat < 2 ^ 64 := (bits x).isLt
    simp only [unpackSign, BitVec.toNat_cast, BitVec.extractLsb_toNat]
    change (bits x).toNat >>> 63 % 2 = (bits x).toNat >>> 63
    rw [Nat.shiftRight_eq_div_pow]
    omega
  unfold Decimal.isNegative sign Sign.ofBitVec
  rw [Bool.eq_iff_iff, beq_iff_eq, ← UInt64.toNat_inj, ← htop]
  change (unpackSign (bits x)).toNat = 1 ↔ _
  have hbit := (unpackSign (bits x)).isLt
  split
  · rename_i hzero
    rw [hzero]
    decide
  · rename_i hone
    rw [BitVec.toNat_eq] at hone
    change ¬ (unpackSign (bits x)).toNat = 0 at hone
    simp only [isMinus, iff_true]
    omega

theorem of?_eq_fields (x : Float) :
    Decimal.Binary.of? x =
      if (unpackExponent (bits x)).toNat = 2047 then none
      else if (unpackExponent (bits x)).toNat = 0 then
        some ⟨isMinus (sign x), (unpackMantissa (bits x)).toNat, -1074⟩
      else
        some ⟨isMinus (sign x), 2 ^ 52 + (unpackMantissa (bits x)).toNat,
          (unpackExponent (bits x)).toNat - 1075⟩ := by
  rw [toNat_unpackExponent, toNat_unpackMantissa, ← isNegative_eq]
  rfl

theorem of?_eq (x : Float) : Decimal.Binary.of? x = exactValue? (parts x) := by
  have hgreatest : unpackExponent (bits x) = -1#11 ↔ (unpackExponent (bits x)).toNat = 2047 := by
    rw [BitVec.toNat_eq]
    rfl
  have hleast : unpackExponent (bits x) = 0#11 ↔ (unpackExponent (bits x)).toNat = 0 := by
    rw [BitVec.toNat_eq]
    rfl
  change _ = exactValue? (UnpackedFloat.unpack .binary64 (bits x))
  rw [of?_eq_fields]
  unfold UnpackedFloat.unpack
  simp only
  by_cases htop : unpackExponent (bits x) = -1#11
  · rw [if_pos (hgreatest.mp htop), if_pos htop]
    split <;> rfl
  · rw [if_neg (mt hgreatest.mpr htop), if_neg htop]
    by_cases hbottom : unpackExponent (bits x) = 0#11
    · rw [if_pos (hleast.mp hbottom), if_pos hbottom]
      split
      · rename_i hzero
        rw [hzero]
        rfl
      · rw [hbottom]
        rfl
    · rw [if_neg (mt hleast.mpr hbottom), if_neg hbottom, exactValue?, toNat_one_append]
      rfl

/-! ## Signs -/

/-- A positive number has the parts of a finite one or is infinite. -/
theorem parts_of_pos {x : Float} (h : 0 < x) :
    (∃ m e hm, parts x = .finite .positive m e hm) ∨ parts x = .infinity .positive := by
  rw [lt_iff_compare] at h
  change (UnpackedFloat.zero .positive).compare (parts x) = some .lt at h
  cases hx : parts x with
  | notANumber => rw [hx] at h; cases h
  | zero s => rw [hx] at h; cases h
  | infinity s =>
      rw [hx] at h
      cases s with
      | negative => cases h
      | positive => exact .inr rfl
  | finite s m e hm =>
      rw [hx] at h
      cases s with
      | negative => cases h
      | positive => exact .inl ⟨m, e, hm, rfl⟩

theorem sign_mul_of_pos {x y : Float} (hx : 0 < x) (hy : 0 < y) : sign (x * y) = .positive := by
  have hproduct : HasSign .positive (UnpackedFloat.mul .binary64 (parts x) (parts y)) := by
    rcases parts_of_pos hx with ⟨m, e, hm, hx⟩ | hx <;>
      rcases parts_of_pos hy with ⟨n, d, hn, hy⟩ | hy <;> rw [hx, hy]
    · exact hasSign_roundWithAccuracy ..
    · exact .infinity
    · exact .infinity
    · exact .infinity
  exact hproduct.sign_pack

/-! ## Cutting off -/

theorem truncate_of_exact {x : Float} {b : Decimal.Binary} (h : exactValue? (parts x) = some b) :
    Decimal.truncate x = b.signed b.floorMagnitude := by
  unfold Decimal.truncate
  rw [of?_eq, h]

theorem truncate_nonneg {x : Float} (h : sign x = .positive) : 0 ≤ Decimal.truncate x := by
  have hplus : isMinus (sign x) = false := by
    rw [h]
    rfl
  unfold Decimal.truncate
  rw [of?_eq_fields, isNegative_eq, hplus]
  split
  · rename_i b hb
    have hsign : b.negative = false := by
      split at hb
      · cases hb
      · split at hb <;> rw [← Option.some.inj hb]
    simp [Decimal.Binary.signed, hsign]
  · split
    · exact le_rfl
    · exact Int.natCast_nonneg _

/-- A product of positive numbers is cut off to no negative number, even when it is
rounded to zero or beyond the finite numbers. -/
theorem truncateToWord_mul_nonneg {x y : Float} (hx : 0 < x) (hy : 0 < y) :
    0 ≤ Decimal.truncateToWord (x * y) := by
  have hproduct := truncate_nonneg (sign_mul_of_pos hx hy)
  simp only [Decimal.truncateToWord, Decimal.clampWord, Decimal.leastWord, Decimal.greatestWord]
  omega

/-! ## Rounding a significand of many bits -/

theorem log2_mul_two_pow {m k : ℕ} (hlog : m.log2 = k) (hm : 0 < m) (n : ℕ) :
    (m * 2 ^ n).log2 = k + n := by
  have hpos : 0 < m * 2 ^ n := Nat.mul_pos hm (Nat.two_pow_pos n)
  obtain ⟨hlow, hhigh⟩ := (Nat.log2_eq_iff hm.ne').mp hlog
  refine (Nat.log2_eq_iff hpos.ne').mpr ⟨?_, ?_⟩
  · rw [Nat.pow_add]
    exact Nat.mul_le_mul_right _ hlow
  · rw [Nat.add_right_comm, Nat.pow_add]
    exact Nat.mul_lt_mul_of_pos_right hhigh (Nat.two_pow_pos n)

/-- A significand of 53 bits whose exponent is in range is held as it is. -/
theorem held_finite (s : Sign) {m : ℕ} {e : ℤ} (hm : 0 < m) (hlog : m.log2 = 52)
    (hlow : -1074 ≤ e) (hhigh : e ≤ 971) : held (.finite s m e hm) = .finite s m e hm := by
  -- The field of the exponent is neither the greatest nor the least one, so the
  -- number is read back as a normal one.
  have hfield : (BitVec.ofNat 11 (e + 1075).toNat).toNat = (e + 1075).toNat := by
    rw [BitVec.toNat_ofNat, Nat.mod_eq_of_lt (by omega)]
  have hgreatest : BitVec.ofNat 11 (e + 1075).toNat ≠ -1#11 := by
    intro hones
    rw [hones] at hfield
    change 2047 = _ at hfield
    omega
  have hleast : BitVec.ofNat 11 (e + 1075).toNat ≠ 0#11 := by
    intro hzeros
    rw [hzeros] at hfield
    change 0 = _ at hfield
    omega
  obtain ⟨hfrom, hbelow⟩ := (Nat.log2_eq_iff hm.ne').mp hlog
  have hmantissa : (1#1 ++ BitVec.ofNat 52 m).toNat = m := by
    rw [toNat_one_append, BitVec.toNat_ofNat]
    omega
  have hexponent : ((e + 1075).toNat : ℤ) - 1075 = e := by omega
  unfold held
  rw [pack_finite, if_neg (by omega), if_pos (by omega)]
  unfold UnpackedFloat.unpack
  simp only [unpackExponent_packComponents, unpackMantissa_packComponents, sign_packComponents,
    if_neg hgreatest, if_neg hleast, hmantissa, hfield]
  congr 1

theorem shiftRight_exact (q n : ℕ) :
    (⟨q * 2 ^ n, false, false⟩ : ExtendedMantissa) >>> n = ⟨q, false, false⟩ := by
  induction n generalizing q with
  | zero =>
      rw [Nat.pow_zero, Nat.mul_one]
      rfl
  | succ n ih =>
      have hhalf := ih (q * 2)
      rw [Nat.mul_assoc, ← Nat.pow_succ'] at hhalf
      change ((⟨q * 2 ^ (n + 1), false, false⟩ : ExtendedMantissa) >>> n).shiftRightOne = _
      rw [hhalf]
      simp [ExtendedMantissa.shiftRightOne]

theorem le_roundedMantissa (x : ExtendedMantissa) : x.mantissa ≤ x.roundedMantissa := by
  unfold ExtendedMantissa.roundedMantissa
  cases x.accuracy with
  | exact => exact le_rfl
  | inexact half => cases half <;> simp only [Accuracy.roundToNearestEven] <;> omega

/-- Shifting to the target exponent leaves 53 bits. -/
theorem shiftToTargetExponent_eq {m n : ℕ} {e : ℤ} (hlog : m.log2 = 52 + n)
    (hlow : -1074 ≤ e + n) :
    shiftToTargetExponent .binary64 m e .exact =
      ((⟨m, false, false⟩ : ExtendedMantissa) >>> n, e + n) := by
  have hshift : (Format.binary64.targetExponent (totalExponent m e) - e).toNat = n := by
    rw [targetExponent_eq, totalExponent, hlog]
    omega
  unfold shiftToTargetExponent shiftToExponent
  simp only [hshift]
  rfl

theorem roundWithAccuracy_eq (s : Sign) {m n r k : ℕ} {e : ℤ} (hlog : m.log2 = 52 + n)
    (hlow : -1074 ≤ e + n)
    (hrounded : ((⟨m, false, false⟩ : ExtendedMantissa) >>> n).roundedMantissa = r)
    (hcarry : r.log2 = 52 + k) (hpos : 0 < r / 2 ^ k) :
    roundWithAccuracy .binary64 s m e .exact = .finite s (r / 2 ^ k) (e + n + k) hpos := by
  have hfirst := shiftToTargetExponent_eq hlog hlow
  have hsecond := shiftToTargetExponent_eq (e := e + n) hcarry (by omega)
  have hfinal := mantissa_shiftRight (⟨r, false, false⟩ : ExtendedMantissa) k
  unfold roundWithAccuracy
  simp only [hfirst, hrounded, hsecond, hfinal, dif_neg hpos.ne']

/-- No bit is lost when the bits beyond the leading 53 are zero. -/
theorem roundWithAccuracy_exact (s : Sign) {q : ℕ} (hq : 0 < q) (hlog : q.log2 = 52) (n : ℕ)
    {e : ℤ} (hlow : -1074 ≤ e + n) :
    roundWithAccuracy .binary64 s (q * 2 ^ n) e .exact = .finite s q (e + n) hq := by
  have hrounded :
      ((⟨q * 2 ^ n, false, false⟩ : ExtendedMantissa) >>> n).roundedMantissa = q := by
    rw [shiftRight_exact]
    rfl
  have hresult := roundWithAccuracy_eq s (k := 0) (log2_mul_two_pow hlog hq n) hlow hrounded hlog
    (by rwa [Nat.pow_zero, Nat.div_one])
  simpa using hresult

/-- Whatever is lost, 53 bits are left, and the number keeps its size. -/
theorem roundWithAccuracy_full (s : Sign) {m n : ℕ} {e : ℤ} (hm : 0 < m)
    (hlog : m.log2 = 52 + n) (hlow : -1074 ≤ e + n) :
    ∃ q k, ∃ hq : 0 < q, roundWithAccuracy .binary64 s m e .exact = .finite s q k hq ∧
      q.log2 = 52 ∧ e + n ≤ k ∧ k ≤ e + n + 1 := by
  obtain ⟨hfrom, hbelow⟩ := (Nat.log2_eq_iff hm.ne').mp hlog
  generalize hrounded : ((⟨m, false, false⟩ : ExtendedMantissa) >>> n).roundedMantissa = r
  have hleast : 2 ^ 52 ≤ m / 2 ^ n := by
    rwa [Nat.le_div_iff_mul_le (Nat.two_pow_pos n), ← Nat.pow_add]
  have hgreatest : m / 2 ^ n < 2 ^ 53 := by
    rwa [Nat.div_lt_iff_lt_mul (Nat.two_pow_pos n), ← Nat.pow_add, ← Nat.add_right_comm 52 n 1]
  have hdown := le_roundedMantissa ((⟨m, false, false⟩ : ExtendedMantissa) >>> n)
  have hup := roundedMantissa_le ((⟨m, false, false⟩ : ExtendedMantissa) >>> n)
  rw [mantissa_shiftRight, hrounded] at hdown hup
  change m / 2 ^ n ≤ r at hdown
  change r ≤ m / 2 ^ n + 1 at hup
  -- Rounding up may carry into another bit, and then all others are zero.
  rcases Nat.lt_or_ge r (2 ^ 53) with hsame | hmore
  · have hcarry : r.log2 = 52 := (Nat.log2_eq_iff (by omega)).mpr ⟨by omega, hsame⟩
    have hpos : 0 < r / 2 ^ 0 := by omega
    refine ⟨r / 2 ^ 0, e + n + (0 : ℕ), hpos,
      roundWithAccuracy_eq s hlog hlow hrounded hcarry hpos, ?_, by omega, by omega⟩
    rwa [Nat.pow_zero, Nat.div_one]
  · have hcarry : r.log2 = 52 + 1 := (Nat.log2_eq_iff (by omega)).mpr ⟨hmore, by omega⟩
    have hpos : 0 < r / 2 ^ 1 := by omega
    refine ⟨r / 2 ^ 1, e + n + (1 : ℕ), hpos,
      roundWithAccuracy_eq s hlog hlow hrounded hcarry hpos, ?_, by omega, by omega⟩
    exact (Nat.log2_eq_iff (by omega)).mpr ⟨by omega, by omega⟩

/-! ## Conversions of whole numbers -/

theorem parts_zero : parts (Decimal.ofInt 0) = .zero .positive := rfl

theorem parts_word {n j : ℕ} (hn : 0 < n) (hj : n.log2 + j = 52) :
    parts n.toUInt64.toFloat =
      .finite .positive (n * 2 ^ j) (-j) (Nat.mul_pos hn (Nat.two_pow_pos j)) := by
  have hlog := log2_mul_two_pow rfl hn j
  rw [hj] at hlog
  have hword : n.toUInt64.toNat = n := by
    have hbits := (Nat.log2_lt hn.ne').mp (show n.log2 < 53 by omega)
    exact Nat.mod_eq_of_lt (by omega)
  have hround : UnpackedFloat.round .binary64 .positive n 0 =
      .finite .positive (n * 2 ^ j) (-j) (Nat.mul_pos hn (Nat.two_pow_pos j)) := by
    have hshift : (0 - Format.binary64.targetExponent (totalExponent n 0)).toNat = j := by
      rw [targetExponent_eq, totalExponent]
      omega
    have hexact := roundWithAccuracy_exact .positive (Nat.mul_pos hn (Nat.two_pow_pos j)) hlog 0
      (e := -j) (by omega)
    unfold UnpackedFloat.round decreaseExponent
    simp only [hshift, Nat.shiftLeft_eq]
    simpa using hexact
  have hpositive : compare (n : ℤ) 0 = .gt := compare_gt_iff_gt.mpr (by omega)
  change held (UnpackedFloat.normalize .binary64 n.toUInt64.toNat 0 .positive) = _
  unfold UnpackedFloat.normalize
  rw [hword, hpositive]
  change held (UnpackedFloat.round .binary64 .positive n 0) = _
  rw [hround]
  exact held_finite _ _ hlog (by omega) (by omega)

theorem mul_finite (s t : Sign) {m n : ℕ} {e d : ℤ} (hm : 0 < m) (hn : 0 < n) :
    UnpackedFloat.mul .binary64 (.finite s m e hm) (.finite t n d hn) =
      roundWithAccuracy .binary64 (s * t) (m * n) (e + d) .exact := rfl

theorem parts_mul (x y : Float) :
    parts (x * y) = held (UnpackedFloat.mul .binary64 (parts x) (parts y)) := rfl

theorem parts_one : parts (Float.ofBits 0x3FF0000000000000) =
    .finite .positive (2 ^ 52) (-52) (by decide) := rfl

theorem parts_ofNat {n j : ℕ} (hn : 0 < n) (hj : n.log2 + j = 52) :
    parts (Float.ofNat n) =
      .finite .positive (n * 2 ^ j) (-j) (Nat.mul_pos hn (Nat.two_pow_pos j)) := by
  have hlog := log2_mul_two_pow rfl hn j
  rw [hj] at hlog
  have hproduct := roundWithAccuracy_exact (.positive * .positive)
    (Nat.mul_pos hn (Nat.two_pow_pos j)) hlog 52 (e := -j + -52) (by omega)
  have hback : -(j : ℤ) + -52 + (52 : ℕ) = -j := by omega
  rw [ofNat_of_lt ((Nat.log2_lt hn.ne').mp (by omega)), parts_mul, parts_word hn hj, parts_one,
    mul_finite, hproduct]
  simp only [hback]
  exact held_finite _ _ hlog (by omega) (by omega)

theorem parts_neg (x : Float) : parts (-x) = held (parts x).neg := rfl

/-- A number other than zero below two to the power 53 has an exact conversion. -/
theorem parts_ofInt {n : ℤ} (hn : n ≠ 0) (h : n.natAbs < 2 ^ 53) :
    ∃ s j hm, parts (Decimal.ofInt n) = .finite s (n.natAbs * 2 ^ j) (-(j : ℕ)) hm ∧
      isMinus s = decide (n < 0) := by
  have hpos : 0 < n.natAbs := Int.natAbs_pos.mpr hn
  have hbits := (Nat.log2_lt hpos.ne').mpr h
  obtain ⟨j, hj⟩ : ∃ j, n.natAbs.log2 + j = 52 := ⟨52 - n.natAbs.log2, by omega⟩
  have hlog := log2_mul_two_pow rfl hpos j
  rw [hj] at hlog
  cases n with
  | ofNat n =>
      refine ⟨_, j, _, parts_ofNat hpos hj, ?_⟩
      simp [isMinus]
  | negSucc n =>
      refine ⟨.negative, j, Nat.mul_pos hpos (Nat.two_pow_pos j), ?_, ?_⟩
      · have hmagnitude := parts_ofNat hpos hj
        change parts (Float.ofNat (n + 1)) = _ at hmagnitude
        change parts (-Float.ofNat (n + 1)) = _
        rw [parts_neg, hmagnitude]
        exact held_finite _ _ hlog (by omega) (by omega)
      · simp [isMinus, Int.negSucc_lt_zero]

/-- A whole number that was scaled up is a fraction over the same scale. -/
theorem fraction_whole (negative : Bool) (n j : ℕ) :
    (⟨negative, n * 2 ^ j, -(j : ℤ)⟩ : Decimal.Binary).fraction = (n * 2 ^ j, 2 ^ j) := by
  rcases Nat.eq_zero_or_pos j with rfl | hj
  · simp [Decimal.Binary.fraction, Decimal.twoTo]
  · have hbelow : -(j : ℤ) < 0 := by omega
    simp only [Decimal.Binary.fraction, if_pos hbelow, Int.natAbs_neg, Int.natAbs_natCast,
      Decimal.twoTo]
    rfl

theorem floorMagnitude_whole (negative : Bool) (n j : ℕ) :
    (⟨negative, n * 2 ^ j, -(j : ℤ)⟩ : Decimal.Binary).floorMagnitude = n := by
  rw [Decimal.Binary.floorMagnitude, fraction_whole]
  exact Nat.mul_div_cancel n (Nat.two_pow_pos j)

theorem roundHalfUp_whole (negative : Bool) (n j : ℕ) :
    (⟨negative, n * 2 ^ j, -(j : ℤ)⟩ : Decimal.Binary).roundHalfUp = n := by
  have hpos := Nat.two_pow_pos j
  have hsplit : 2 * (n * 2 ^ j) + 2 ^ j = 2 ^ j + 2 * 2 ^ j * n := by ring
  rw [Decimal.Binary.roundHalfUp, fraction_whole]
  simp only
  rw [hsplit, Nat.add_mul_div_left _ _ (by omega), Nat.div_eq_of_lt (by omega), Nat.zero_add]

theorem truncate_ofInt {n : ℤ} (h : n.natAbs < 2 ^ 53) :
    Decimal.truncate (Decimal.ofInt n) = n := by
  by_cases hn : n = 0
  · rw [hn, truncate_of_exact (b := ⟨false, 0, -1074⟩) (by rw [parts_zero]; rfl)]
    simp [Decimal.Binary.signed, Decimal.Binary.floorMagnitude, Decimal.Binary.fraction]
  · obtain ⟨s, j, hm, hparts, hsign⟩ := parts_ofInt hn h
    rw [truncate_of_exact (b := ⟨isMinus s, n.natAbs * 2 ^ j, -j⟩) (by rw [hparts]; rfl),
      floorMagnitude_whole, Decimal.Binary.signed]
    simp only [hsign, decide_eq_true_eq]
    omega

theorem truncateToWord_ofInt {n : ℤ} (h : n.natAbs < 2 ^ 53) :
    Decimal.truncateToWord (Decimal.ofInt n) = n := by
  rw [Decimal.truncateToWord, truncate_ofInt h]
  exact Decimal.clampWord_of_natAbs_lt (by omega)

/-- A whole number of 32 bits comes back unchanged. -/
theorem truncateToHalfWord_ofInt {n : ℤ} (hlow : -2147483648 ≤ n) (hhigh : n ≤ 2147483647) :
    Decimal.truncateToHalfWord (Decimal.ofInt n) = n := by
  rw [Decimal.truncateToHalfWord, truncate_ofInt (by omega)]
  simp only [Decimal.clampHalfWord]
  omega

theorem ofInt_bne_zero {n : ℤ} (h : n.natAbs < 2 ^ 53) : (Decimal.ofInt n != 0) = decide (n ≠ 0) := by
  by_cases hn : n = 0
  · rw [hn]
    rfl
  · obtain ⟨s, j, hm, hparts, _⟩ := parts_ofInt hn h
    have hbeq : (Decimal.ofInt n == 0) = false := by
      change (parts (Decimal.ofInt n)).beq (.zero .positive) = false
      rw [hparts]
      cases s <;> rfl
    rw [bne, hbeq]
    simp [hn]

/-- A whole number of more than 53 bits keeps at least that size. -/
theorem parts_ofNat_of_ge {n : ℕ} (h : 2 ^ 53 ≤ n) (hword : n < 2 ^ 64) :
    ∃ q k, ∃ hq : 0 < q, parts (Float.ofNat n) = .finite .positive q k hq ∧
      q.log2 = 52 ∧ 1 ≤ k ∧ k ≤ 13 := by
  have hpos : 0 < n := by omega
  have hlow : 53 ≤ n.log2 := (Nat.le_log2 hpos.ne').mpr h
  have hhigh : n.log2 < 64 := (Nat.log2_lt hpos.ne').mpr hword
  have hlog : (n * 2 ^ 53).log2 = 52 + (n.log2 + 1) := by
    rw [log2_mul_two_pow rfl hpos 53]
    omega
  obtain ⟨q, k, hq, hround, hfull, hleast, hgreatest⟩ :=
    roundWithAccuracy_full .positive (Nat.mul_pos hpos (Nat.two_pow_pos 53)) hlog
      (e := -53 + 0) (by omega)
  refine ⟨q, k, hq, ?_, hfull, by omega, by omega⟩
  rw [ofNat_of_ge h]
  change held (UnpackedFloat.ofScientific .binary64 n 0) = _
  rw [ofScientific_zero hpos.ne', Nat.shiftLeft_eq, hround]
  exact held_finite _ _ hfull (by omega) (by omega)

theorem two_pow_le_floorMagnitude (negative : Bool) {q : ℕ} {k : ℤ} (hq : 0 < q)
    (hfull : q.log2 = 52) (hk : 1 ≤ k) :
    2 ^ 53 ≤ (⟨negative, q, k⟩ : Decimal.Binary).floorMagnitude := by
  have hleast : 2 ^ 52 ≤ q := ((Nat.log2_eq_iff hq.ne').mp hfull).1
  have hscale : 2 ^ 1 ≤ Nat.pow 2 k.natAbs := Nat.pow_le_pow_right (by decide) (by omega)
  have habove : ¬ k < 0 := by omega
  simp only [Decimal.Binary.floorMagnitude, Decimal.Binary.fraction, if_neg habove,
    Decimal.twoTo, Nat.div_one]
  exact Nat.mul_le_mul hleast hscale

theorem le_truncate_ofInt {n : ℤ} (h : 2 ^ 53 ≤ n) (hword : n < 2 ^ 64) :
    2 ^ 53 ≤ Decimal.truncate (Decimal.ofInt n) := by
  obtain ⟨m, rfl⟩ := Int.eq_ofNat_of_zero_le (show 0 ≤ n by omega)
  obtain ⟨q, k, hq, hparts, hfull, hk, _⟩ := parts_ofNat_of_ge (n := m) (by omega) (by omega)
  have hsize := two_pow_le_floorMagnitude false hq hfull hk
  change 2 ^ 53 ≤ Decimal.truncate (Float.ofNat m)
  rw [truncate_of_exact (b := ⟨false, q, k⟩) (by rw [hparts]; rfl)]
  simp only [Decimal.Binary.signed, Bool.false_eq_true, if_false]
  omega

theorem truncate_ofInt_le {n : ℤ} (h : n ≤ -2 ^ 53) (hword : -2 ^ 64 < n) :
    Decimal.truncate (Decimal.ofInt n) ≤ -2 ^ 53 := by
  obtain ⟨m, rfl⟩ := Int.eq_negSucc_of_lt_zero (show n < 0 by omega)
  obtain ⟨q, k, hq, hparts, hfull, hk, hbound⟩ :=
    parts_ofNat_of_ge (n := m + 1) (by omega) (by omega)
  have hsize := two_pow_le_floorMagnitude true hq hfull hk
  have hnegative : parts (-Float.ofNat (m + 1)) = .finite .negative q k hq := by
    rw [parts_neg, hparts]
    exact held_finite _ _ hfull (by omega) (by omega)
  change Decimal.truncate (-Float.ofNat (m + 1)) ≤ -2 ^ 53
  rw [truncate_of_exact (b := ⟨true, q, k⟩) (by rw [hnegative]; rfl)]
  simp only [Decimal.Binary.signed, if_true]
  omega

theorem isWord_iff {n : ℤ} :
    Text.isWord n = true ↔ -9223372036854775808 ≤ n ∧ n ≤ 9223372036854775807 := by
  rw [Text.isWord, Bool.and_eq_true, decide_eq_true_iff, decide_eq_true_iff]
  rfl

/-- Bounds of fewer bits tell a whole number and its conversion apart in nothing. -/
theorem clamp_truncateToWord_ofInt {n low high : ℤ} (hword : Text.isWord n = true)
    (hlow : low.natAbs ≤ 2 ^ 53) (hhigh : high.natAbs ≤ 2 ^ 53) :
    max low (min high (Decimal.truncateToWord (Decimal.ofInt n))) = max low (min high n) := by
  rw [isWord_iff] at hword
  by_cases hsmall : n.natAbs < 2 ^ 53
  · rw [truncateToWord_ofInt hsmall]
  · -- Beyond 53 bits both are on the same side of both bounds.
    simp only [Decimal.truncateToWord, Decimal.clampWord, Decimal.leastWord, Decimal.greatestWord]
    rcases Int.lt_or_le n 0 with hnegative | hpositive
    · have := truncate_ofInt_le (n := n) (by omega) (by omega)
      omega
    · have := le_truncate_ofInt (n := n) (by omega) (by omega)
      omega

end Rundown.Binary64
