import CellCollapse.Proofs.Number.Rounding

set_option autoImplicit false

/-!
# Sums of positive numbers

A positive number is counted in units of the smallest one. The sum of two numbers has the rounded
sum of their counts, up to the count of infinity, and a number is finite as long as its count is
below that of infinity.
-/
namespace CellCollapse.Binary64

open Float.Model (Format totalExponent UnpackedFloat)
open Float.Model.UnpackedFloat

/-- A mantissa after its last `s` digits were dropped, with what is known of these digits. -/
structure Shifted (m s : Nat) (em : ExtendedMantissa) : Prop where
  quotient : em.mantissa = m / 2 ^ s
  half : em.roundBit = true ↔ 2 ^ s ≤ 2 * (m % 2 ^ s)
  between : em.stickyBit = true ↔ m % 2 ^ s ≠ 0 ∧ 2 * (m % 2 ^ s) ≠ 2 ^ s

theorem Shifted.shiftRightOne {m s : Nat} {em : ExtendedMantissa} (h : Shifted m s em) :
    Shifted m (s + 1) em.shiftRightOne := by
  have rest : m % 2 ^ (s + 1) = m % 2 ^ s + 2 ^ s * (m / 2 ^ s % 2) := by
    rw [Nat.pow_succ, Nat.mod_mul]
  have below := Nat.mod_lt m (Nat.two_pow_pos s)
  have digit : m / 2 ^ s % 2 = 0 ∨ m / 2 ^ s % 2 = 1 := by omega
  constructor
  · rw [ExtendedMantissa.shiftRightOne, h.quotient, Nat.div_div_eq_div_mul, Nat.pow_succ]
  · rw [rest, Nat.pow_succ]
    simp only [ExtendedMantissa.shiftRightOne, h.quotient, bne_iff_ne]
    rcases digit with digit | digit <;> rw [digit] <;> omega
  · rw [rest, Nat.pow_succ]
    simp only [ExtendedMantissa.shiftRightOne, Bool.or_eq_true, h.half, h.between]
    rcases digit with digit | digit <;> rw [digit] <;> omega

theorem shifted_shiftRight (m s : Nat) :
    Shifted m s (ExtendedMantissa.ofMantissaAndAccuracy m .exact >>> s) := by
  induction s with
  | zero =>
    constructor <;>
      simp [HShiftRight.hShiftRight, Nat.repeat, ExtendedMantissa.ofMantissaAndAccuracy,
        Nat.mod_one]
  | succ s ih => exact ih.shiftRightOne

theorem Shifted.roundedMantissa {m s : Nat} {em : ExtendedMantissa} (h : Shifted m s em) :
    em.roundedMantissa = nearestNat m (2 ^ s) := by
  obtain ⟨q, upper, rest⟩ := em
  obtain ⟨rfl, half, between⟩ := h
  unfold nearestNat
  dsimp only at half between ⊢
  cases upper <;> cases rest <;>
    simp only [ExtendedMantissa.roundedMantissa, ExtendedMantissa.accuracy,
      Accuracy.roundToNearestEven, Bool.false_eq_true, false_iff, true_iff] at half between ⊢
  all_goals split_ifs <;> omega

/-- The count of `m · 2^e`. -/
def units (m : Nat) (e : Int) : Nat := m * 2 ^ (e + 1074).toNat

theorem units_natCast_sub (m k : Nat) : units m (k - 1074) = m * 2 ^ k := by
  rw [units, show ((k : Int) - 1074 + 1074).toNat = k by omega]

theorem units_pos {m : Nat} (positive : 0 < m) (e : Int) : 0 < units m e :=
  Nat.mul_pos positive (Nat.two_pow_pos _)

/-- The number of `n` units, with a mantissa of at most 53 digits. -/
def canonical (n : Nat) (positive : 0 < n) : UnpackedFloat :=
  .finite .positive (n / 2 ^ excess n) (excess n - 1074) (div_excess_pos positive)

theorem canonical_mul_two_pow {m j : Nat} (digits : m < 2 ^ 53) (normal : 2 ^ 52 ≤ m ∨ j = 0)
    (positive : 0 < m * 2 ^ j) :
    canonical (m * 2 ^ j) positive =
      .finite .positive m (j - 1074) (Nat.pos_of_mul_pos_right positive) := by
  have hexcess := excess_mul_two_pow digits normal
  simp only [canonical, hexcess, Nat.mul_div_cancel _ (Nat.two_pow_pos j)]

theorem targetExponent_eq {m : Nat} (positive : 0 < m) {e : Int} (least : -1074 ≤ e) :
    Format.binary64.targetExponent (totalExponent m e) = excess (units m e) - 1074 := by
  have bits : (Format.binary64.mantissaBits : Int) = 53 := rfl
  have low : Format.binary64.minExponent = -1074 := rfl
  rw [Format.targetExponent, totalExponent, bits, low, excess, units, log2_mul_two_pow positive]
  omega

theorem shiftToTargetExponent_eq {m : Nat} (positive : 0 < m) {e : Int} (least : -1074 ≤ e)
    (room : e ≤ excess (units m e) - 1074) :
    ∃ em, shiftToTargetExponent .binary64 m e .exact = (em, (excess (units m e) - 1074 : Int)) ∧
      em.roundedMantissa = nearestNat (units m e) (2 ^ excess (units m e)) ∧
      em.mantissa = units m e / 2 ^ excess (units m e) := by
  have scale : 2 ^ excess (units m e) =
      2 ^ (excess (units m e) - 1074 - e).toNat * 2 ^ (e + 1074).toNat := by
    rw [← Nat.pow_add]
    congr 1
    omega
  have shifted := shifted_shiftRight m (excess (units m e) - 1074 - e).toNat
  refine ⟨_, ?_, shifted.roundedMantissa.trans ?_, shifted.quotient.trans ?_⟩
  · rw [shiftToTargetExponent, targetExponent_eq positive least, shiftToExponent]
    congr 1
    omega
  · rw [scale, ← nearestNat_mul_mul (Nat.two_pow_pos (e + 1074).toNat)]
    rfl
  · rw [scale, ← Nat.mul_div_mul_right _ _ (Nat.two_pow_pos (e + 1074).toNat)]
    rfl

theorem roundWithAccuracy_eq {m : Nat} (positive : 0 < m) {e : Int} (least : -1074 ≤ e)
    (room : e ≤ excess (units m e) - 1074) :
    roundWithAccuracy .binary64 .positive m e .exact =
      canonical (rounded (units m e)) (rounded_pos (units_pos positive e)) := by
  obtain ⟨em, first, nearest, _⟩ := shiftToTargetExponent_eq positive least room
  have hpos := rounded_pos (units_pos positive e)
  -- The rounded mantissa may have one digit too many, and is shifted once more.
  have same : units (nearestNat (units m e) (2 ^ excess (units m e))) (excess (units m e) - 1074) =
      rounded (units m e) := units_natCast_sub _ _
  obtain ⟨em', second, _, final⟩ :=
    shiftToTargetExponent_eq (m := nearestNat (units m e) (2 ^ excess (units m e)))
      (e := excess (units m e) - 1074) (Nat.pos_of_mul_pos_right hpos) (by omega) (by
        rw [same]
        have := excess_le_excess_rounded (units m e)
        omega)
  rw [same] at second final
  unfold roundWithAccuracy
  simp only [first, nearest, second]
  rw [dif_neg (by rw [final]; exact (div_excess_pos hpos).ne')]
  simp only [final]
  rfl

theorem round_eq {m : Nat} (positive : 0 < m) {e : Int} (least : -1074 ≤ e) :
    UnpackedFloat.round .binary64 .positive m e =
      canonical (rounded (units m e)) (rounded_pos (units_pos positive e)) := by
  have target := targetExponent_eq positive least
  generalize hs : (e - (excess (units m e) - 1074)).toNat = s at *
  have same : units (m <<< s) (e - s) = units m e := by
    rw [units, units, Nat.shiftLeft_eq, Nat.mul_assoc, ← Nat.pow_add,
      show s + (e - s + 1074).toNat = (e + 1074).toNat by omega]
  have hshift : 0 < m <<< s := by
    rw [Nat.shiftLeft_eq]
    positivity
  have settled := roundWithAccuracy_eq hshift (e := e - s) (by omega) (by rw [same]; omega)
  simp only [same] at settled
  rw [← settled, UnpackedFloat.round, target, decreaseExponent, hs]

theorem add_finite {m n : Nat} (hm : 0 < m) (hn : 0 < n) {d e : Int} (hd : -1074 ≤ d)
    (he : -1074 ≤ e) :
    UnpackedFloat.add .binary64 (.finite .positive m d hm) (.finite .positive n e hn) =
      canonical (rounded (units m d + units n e))
        (rounded_pos (Nat.add_pos_left (units_pos hm d) _)) := by
  generalize hs : (d - min d e).toNat = s
  generalize ht : (e - min d e).toNat = t
  have sum : units (m <<< s + n <<< t) (min d e) = units m d + units n e := by
    simp only [units, Nat.shiftLeft_eq, Nat.add_mul, Nat.mul_assoc, ← Nat.pow_add]
    congr 3 <;> omega
  have positive : 0 < m <<< s + n <<< t := by
    rw [Nat.shiftLeft_eq]
    positivity
  have gt : compare ((m <<< s : Nat) + (n <<< t : Nat) : Int) 0 = .gt := by
    rw [Int.compare_eq_gt]
    omega
  have rounds := round_eq positive (e := min d e) (by omega)
  simp only [sum] at rounds
  rw [← rounds]
  simp only [UnpackedFloat.add, decreaseExponent, Sign.apply, UnpackedFloat.normalize, hs, ht, gt]
  rfl

theorem add_canonical {a b : Nat} (ha : 0 < a) (hb : 0 < b) (exact : Exact a) (exact' : Exact b) :
    UnpackedFloat.add .binary64 (canonical a ha) (canonical b hb) =
      canonical (rounded (a + b)) (rounded_pos (Nat.add_pos_left ha b)) := by
  have sum := add_finite (div_excess_pos ha) (div_excess_pos hb) (d := excess a - 1074)
    (e := excess b - 1074) (by omega) (by omega)
  simp only [units_natCast_sub, div_mul_excess exact.digits, div_mul_excess exact'.digits] at sum
  exact sum

theorem unpack_pack_infinity :
    unpack .binary64 (pack .binary64 (.infinity .positive)) = .infinity .positive := by
  with_unfolding_all rfl

/-- An exponent field of zero stands for the least exponent, with no leading digit. -/
theorem unpack_packComponents {k f : Nat} (finite : k < 2047) (width : f < 2 ^ 52)
    (positive : 0 < k + f) :
    unpack .binary64 (packComponents .binary64 .positive (BitVec.ofNat 11 k) (BitVec.ofNat 52 f)) =
      .finite .positive (if k = 0 then f else 2 ^ 52 + f) (max k 1 - 1075)
        (by split <;> omega) := by
  have bias : (Format.binary64.exponentBias : Int) = 1023 := rfl
  have hk : (BitVec.ofNat 11 k).toNat = k := by
    rw [BitVec.toNat_ofNat, Nat.mod_eq_of_lt (by omega)]
  have hf : (BitVec.ofNat 52 f).toNat = f := by
    rw [BitVec.toNat_ofNat, Nat.mod_eq_of_lt width]
  have notAll : BitVec.ofNat 11 k ≠ -1#11 := by
    rw [ne_eq, ← BitVec.toNat_inj, hk]
    exact finite.ne
  unfold unpack
  simp only [unpackExponent_packComponents, unpackMantissa_packComponents,
    unpackSign_packComponents, Sign.ofBitVec_toBitVec, bias, hk, if_neg notAll]
  rcases Nat.eq_zero_or_pos k with rfl | above
  · have filled : BitVec.ofNat 52 f ≠ 0#52 := by
      rw [ne_eq, ← BitVec.toNat_inj, hf]
      change f ≠ 0
      omega
    rw [if_pos rfl, dif_neg filled]
    simp [hf]
  · have notZero : BitVec.ofNat 11 k ≠ 0#11 := by
      rw [ne_eq, ← BitVec.toNat_inj, hk]
      exact above.ne'
    rw [if_neg notZero]
    simp only [BitVec.toNat_append, hf, ← Nat.shiftLeft_add_eq_or_of_lt width, if_neg above.ne']
    congr 1
    omega

theorem pack_normal {m k : Nat} (digits : m < 2 ^ 53) (normal : 2 ^ 52 ≤ m) (small : k ≤ 2045)
    (positive : 0 < m) :
    pack .binary64 (.finite .positive m (k - 1074) positive) =
      packComponents .binary64 .positive (BitVec.ofNat 11 (k + 1))
        (BitVec.ofNat 52 (m - 2 ^ 52)) := by
  have bias : (Format.binary64.exponentBias : Int) = 1023 := rfl
  have biased : ((k : Int) - 1074 + 1023 + (52 : Nat)).toNat = k + 1 := by omega
  have hlog : m.log2 = 52 := (Nat.log2_eq_iff positive.ne').2 ⟨normal, digits⟩
  have low : BitVec.ofNat 52 m = BitVec.ofNat 52 (m - 2 ^ 52) := by
    apply BitVec.eq_of_toNat_eq
    simp only [BitVec.toNat_ofNat]
    omega
  simp only [UnpackedFloat.pack, bias, biased, hlog]
  rw [if_neg (by omega), if_pos (show 52 + 1 = Format.binary64.mantissaBits from rfl), low]

theorem pack_subnormal {m : Nat} (short : m < 2 ^ 52) (positive : 0 < m) :
    pack .binary64 (.finite .positive m (-1074) positive) =
      packComponents .binary64 .positive (BitVec.ofNat 11 0) (BitVec.ofNat 52 m) := by
  have bias : (Format.binary64.exponentBias : Int) = 1023 := rfl
  have hlog : m.log2 < 52 := (Nat.log2_lt positive.ne').2 short
  simp only [UnpackedFloat.pack, bias]
  rw [if_neg (by decide), if_neg (by change _ ≠ 53; omega)]

theorem pack_canonical_of_le {n : Nat} (large : limit ≤ n) (positive : 0 < n) :
    pack .binary64 (canonical n positive) = pack .binary64 (.infinity .positive) := by
  have bias : (Format.binary64.exponentBias : Int) = 1023 := rfl
  have long : ¬ excess n ≤ 2045 := by
    rw [excess_le_iff]
    exact Nat.not_lt.2 large
  simp only [canonical, UnpackedFloat.pack, bias]
  rw [if_pos (by omega)]

/-- A positive number and its count. -/
inductive Counts : UnpackedFloat → Nat → Prop
  | finite {n : Nat} (positive : 0 < n) (exact : Exact n) (small : n < limit) :
    Counts (canonical n positive) n
  | infinity : Counts (.infinity .positive) limit

theorem counts_finite {m k : Nat} (digits : m < 2 ^ 53) (normal : 2 ^ 52 ≤ m ∨ k = 0)
    (small : k ≤ 2045) (positive : 0 < m) :
    Counts (.finite .positive m (k - 1074) positive) (m * 2 ^ k) := by
  have hpos : 0 < m * 2 ^ k := Nat.mul_pos positive (Nat.two_pow_pos k)
  have bounded : m * 2 ^ k < limit := by
    rwa [← excess_le_iff, excess_mul_two_pow digits normal]
  rw [← canonical_mul_two_pow digits normal hpos]
  exact .finite hpos ⟨rounded_of_digits digits k, bounded.le⟩ bounded

theorem Counts.exact {x : UnpackedFloat} {n : Nat} (h : Counts x n) : Exact n := by
  cases h with
  | finite positive exact small => exact exact
  | infinity => exact exact_limit

theorem Counts.unpack_pack {x : UnpackedFloat} {n : Nat} (h : Counts x n) :
    unpack .binary64 (pack .binary64 x) = x := by
  cases h with
  | infinity => exact unpack_pack_infinity
  | finite positive exact small =>
    have digits := div_excess_lt n
    have hpos := div_excess_pos positive
    have short := (excess_le_iff n).2 small
    unfold canonical
    by_cases normal : 2 ^ 52 ≤ n / 2 ^ excess n
    · rw [pack_normal digits normal short, unpack_packComponents (by omega) (by omega) (by omega)]
      simp only [if_neg (Nat.succ_ne_zero _), Nat.add_sub_cancel' normal]
      congr 1
      omega
    · have zero : excess n = 0 := (le_div_excess n).resolve_left normal
      simp only [zero] at normal hpos ⊢
      exact (congrArg _ (pack_subnormal (by omega) hpos)).trans
        (unpack_packComponents (by omega) (by omega) (by omega))

theorem Counts.add {x y : UnpackedFloat} {a b : Nat} (hx : Counts x a) (hy : Counts y b) :
    Counts (unpack .binary64 (pack .binary64 (UnpackedFloat.add .binary64 x y))) (plus a b) := by
  have top : Counts (unpack .binary64 (pack .binary64 (.infinity .positive))) limit := by
    rw [unpack_pack_infinity]
    exact .infinity
  cases hx with
  | infinity =>
    rw [plus_of_le (Nat.le_add_right _ _)]
    cases hy <;> exact top
  | finite ha exact _ =>
    cases hy with
    | infinity =>
      rw [plus_of_le (Nat.le_add_left _ _)]
      exact top
    | finite hb exact' _ =>
      have hpos := rounded_pos (Nat.add_pos_left ha b)
      rw [add_canonical ha hb exact exact']
      rcases Nat.lt_or_ge (rounded (a + b)) limit with small | large
      · have sum : Counts (canonical (rounded (a + b)) hpos) (rounded (a + b)) :=
          .finite hpos ⟨rounded_rounded _, small.le⟩ small
        rw [sum.unpack_pack, plus, Nat.min_eq_left small.le]
        exact sum
      · rw [pack_canonical_of_le large hpos, plus, Nat.min_eq_right large]
        exact top

/-- The count of a number, whatever its sign. -/
def count (x : Binary64) : Nat :=
  match x.reading with
  | .finite _ m e => units m e
  | .infinite _ | .notANumber => limit

theorem count_one : one.count = 2 ^ 1074 := by
  decide +kernel

theorem count_of_isInfinite {x : Binary64} (infinite : x.isInfinite = true) : x.count = limit := by
  have infinite : x.magnitude = 2047 * 2 ^ 52 := beq_iff_eq.1 infinite
  simp [count, reading, infinite]

theorem toBitVec_eq_packComponents {b : UInt64} (h : b.toNat < 2 ^ 63) :
    b.toBitVec = packComponents .binary64 .positive (BitVec.ofNat 11 (b.toNat / 2 ^ 52))
      (BitVec.ofNat 52 (b.toNat % 2 ^ 52)) := by
  apply BitVec.eq_of_toNat_eq
  rw [packComponents, BitVec.toNat_append, BitVec.toNat_append,
    ← Nat.shiftLeft_add_eq_or_of_lt (BitVec.isLt _),
    ← Nat.shiftLeft_add_eq_or_of_lt (BitVec.isLt _)]
  simp only [Sign.toBitVec, BitVec.toNat_ofNat, Nat.shiftLeft_eq]
  change b.toNat = _
  omega

theorem counts_unpack {w : Binary64} (h : w.isPositive = true) :
    Counts (unpack .binary64 w.bits.toBitVec) w.count := by
  simp only [isPositive, Bool.and_eq_true, decide_eq_true_eq] at h
  obtain ⟨positive, bounded⟩ := h
  change _ ≤ 2047 * 2 ^ 52 at bounded
  have magnitude : w.bits.toNat % 2 ^ 63 = w.bits.toNat := Nat.mod_eq_of_lt (by omega)
  rw [toBitVec_eq_packComponents (by omega)]
  unfold count reading
  simp only [Binary64.magnitude, Nat.pow_eq, magnitude]
  have width := Nat.mod_lt w.bits.toNat (Nat.two_pow_pos 52)
  have split := Nat.div_add_mod w.bits.toNat (2 ^ 52)
  generalize w.bits.toNat / 2 ^ 52 = k at *
  generalize w.bits.toNat % 2 ^ 52 = f at *
  obtain top | zero | ⟨above, below⟩ : k = 2047 ∨ k = 0 ∨ 0 < k ∧ k < 2047 := by omega
  · obtain rfl : f = 0 := by omega
    subst top
    have unpacked := unpack_pack_infinity
    simp only [UnpackedFloat.pack, packedInfinity] at unpacked
    exact (congrArg (Counts · limit) unpacked).mpr .infinity
  · subst zero
    rw [unpack_packComponents (by omega) width (by omega)]
    exact counts_finite (m := f) (k := 0) (by omega) (.inr rfl) (by omega) (by omega)
  · obtain ⟨k, rfl⟩ : ∃ j, k = j + 1 := ⟨k - 1, by omega⟩
    rw [unpack_packComponents below width (by omega)]
    simp only [if_neg above.ne', if_neg below.ne, Nat.max_eq_left above]
    have exponent : ((k + 1 : Nat) : Int) - 1075 = k - 1074 := by omega
    simp only [exponent, units_natCast_sub]
    exact counts_finite (by omega) (.inl (by omega)) (by omega) (by omega)

theorem counts_toFloat {w : Binary64} (h : w.isPositive = true) :
    Counts w.toFloat.toModel.unpack w.count := by
  have h := counts_unpack h
  rw [show w.toFloat.toModel.unpack = _ from h.unpack_pack]
  exact h

theorem counts_add {x y : Float} {a b : Nat} (hx : Counts x.toModel.unpack a)
    (hy : Counts y.toModel.unpack b) : Counts (x + y).toModel.unpack (plus a b) :=
  hx.add hy

theorem isFinite_iff {x : Float} {n : Nat} (h : Counts x.toModel.unpack n) :
    x.isFinite = true ↔ n < limit := by
  change x.toModel.unpack.isFinite = true ↔ n < limit
  generalize x.toModel.unpack = u at h ⊢
  cases h with
  | finite positive exact small => simp [canonical, UnpackedFloat.isFinite, small]
  | infinity => simp [UnpackedFloat.isFinite]

end CellCollapse.Binary64
