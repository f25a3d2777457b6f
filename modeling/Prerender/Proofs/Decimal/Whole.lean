import Mathlib
import Prerender.Decimal.Layout

set_option autoImplicit false

namespace Prerender.Decimal

open Float.Model
open Float.Model.UnpackedFloat (Sign unpackSign unpackExponent unpackMantissa ExtendedMantissa
  shiftToTargetExponent roundWithAccuracy)

abbrev format : Format := Format.binary64

theorem toNat_unpackMantissa (b : BitVec 64) :
    (@unpackMantissa format b).toNat = b.toNat % 2 ^ 52 := by
  simp [unpackMantissa]

theorem toNat_unpackExponent (b : BitVec 64) :
    (@unpackExponent format b).toNat = b.toNat / 2 ^ 52 % 2 ^ 11 := by
  simp [unpackExponent, Nat.shiftRight_eq_div_pow]

theorem toNat_unpackSign (b : BitVec 64) : (@unpackSign format b).toNat = b.toNat / 2 ^ 63 % 2 := by
  simp [unpackSign, Nat.shiftRight_eq_div_pow]

theorem eq_of_fields {b c : BitVec 64} (sign : @unpackSign format b = @unpackSign format c)
    (exponent : b.toNat / 2 ^ 52 % 2 ^ 11 = c.toNat / 2 ^ 52 % 2 ^ 11)
    (mantissa : b.toNat % 2 ^ 52 = c.toNat % 2 ^ 52) : b = c := by
  have top := congrArg BitVec.toNat sign
  rw [toNat_unpackSign, toNat_unpackSign] at top
  have b_low := b.isLt
  have c_low := c.isLt
  apply BitVec.eq_of_toNat_eq
  omega

def signOf (b : BitVec 64) : Sign := Sign.ofBitVec (@unpackSign format b)

theorem unpackSign_eq_of_signOf {b c : BitVec 64} (same : signOf b = signOf c) :
    @unpackSign format b = @unpackSign format c := by
  have decided : ∀ u v : BitVec 1, Sign.ofBitVec u = Sign.ofBitVec v → u = v := by
    intro u v
    rcases BitVec.eq_zero_or_eq_one u with rfl | rfl <;> rcases BitVec.eq_zero_or_eq_one v with rfl | rfl <;>
      simp [Sign.ofBitVec]
  exact decided _ _ same

theorem finite_congr {s : Sign} {m n : Nat} {q r : Int} {m_pos : 0 < m} {n_pos : 0 < n} (mantissa : m = n)
    (exponent : q = r) : UnpackedFloat.finite s m q m_pos = .finite s n r n_pos := by
  subst mantissa exponent
  rfl

theorem toNat_implicit (v : BitVec 52) : (1#1 ++ v).toNat = 2 ^ 52 + v.toNat := by
  rw [BitVec.toNat_append, ← Nat.shiftLeft_add_eq_or_of_lt v.isLt]
  rfl

theorem bias_add : ((format.exponentBias : Int) + (format.mantissaBitsWithoutImplicit : Int)) = 1075 := by decide

theorem unpack_cases (b : BitVec 64) :
    let exponent : Nat := b.toNat / 2 ^ 52 % 2 ^ 11
    let mantissa : Nat := b.toNat % 2 ^ 52
    let number := UnpackedFloat.unpack format b
    (exponent = 2047 ∧ mantissa = 0 ∧ number = .infinity (signOf b)) ∨
    (exponent = 2047 ∧ mantissa ≠ 0 ∧ number = .notANumber) ∨
    (exponent = 0 ∧ mantissa = 0 ∧ number = .zero (signOf b)) ∨
    (exponent = 0 ∧ ∃ pos, number = .finite (signOf b) mantissa (-1074) pos) ∨
    (0 < exponent ∧ exponent < 2047 ∧
      ∃ pos, number = .finite (signOf b) (2 ^ 52 + mantissa) ((exponent : Int) - 1075) pos) := by
  intro exponent mantissa number
  have full : @unpackExponent format b = -1#_ ↔ exponent = 2047 := by
    rw [← BitVec.toNat_inj, toNat_unpackExponent]
    rfl
  have bare : @unpackExponent format b = 0#_ ↔ exponent = 0 := by
    rw [← BitVec.toNat_inj, toNat_unpackExponent]
    rfl
  have empty : @unpackMantissa format b = 0#_ ↔ mantissa = 0 := by
    rw [← BitVec.toNat_inj, toNat_unpackMantissa]
    rfl
  have low : exponent < 2 ^ 11 := Nat.mod_lt _ (by decide)
  simp only [number, UnpackedFloat.unpack, full, bare, empty]
  by_cases special : exponent = 2047
  · by_cases nothing : mantissa = 0
    · exact .inl ⟨special, nothing, by rw [if_pos special, if_pos nothing]; rfl⟩
    · exact .inr (.inl ⟨special, nothing, by rw [if_pos special, if_neg nothing]⟩)
  · rw [if_neg special]
    by_cases small : exponent = 0
    · by_cases nothing : mantissa = 0
      · exact .inr (.inr (.inl ⟨small, nothing, by rw [if_pos small, dif_pos nothing]; rfl⟩))
      · refine .inr (.inr (.inr (.inl ⟨small, Nat.pos_of_ne_zero nothing, ?_⟩)))
        rw [if_pos small, dif_neg nothing]
        refine finite_congr (toNat_unpackMantissa b) ?_
        rw [toNat_unpackExponent, bias_add]
        omega
    · refine .inr (.inr (.inr (.inr ⟨Nat.pos_of_ne_zero small, by omega, by omega, ?_⟩)))
      rw [if_neg small]
      refine finite_congr ((toNat_implicit _).trans (congrArg (2 ^ 52 + ·) (toNat_unpackMantissa b))) ?_
      rw [toNat_unpackExponent, bias_add]

def fieldsOf : UnpackedFloat → Option (Sign × Nat × Nat)
  | .notANumber => none
  | .infinity s => some (s, 2047, 0)
  | .zero s => some (s, 0, 0)
  | .finite s m q _ => if m < 2 ^ 52 then some (s, 0, m) else some (s, (q + 1075).toNat, m - 2 ^ 52)

theorem fieldsOf_unpack (b : BitVec 64) :
    fieldsOf (UnpackedFloat.unpack format b) =
      if b.toNat / 2 ^ 52 % 2 ^ 11 = 2047 ∧ b.toNat % 2 ^ 52 ≠ 0 then none
      else some (signOf b, b.toNat / 2 ^ 52 % 2 ^ 11, b.toNat % 2 ^ 52) := by
  rcases unpack_cases b with ⟨exponent, mantissa, is⟩ | ⟨exponent, mantissa, is⟩ | ⟨exponent, mantissa, is⟩ |
    ⟨exponent, _, is⟩ | ⟨_, exponent, _, is⟩
  · rw [is, if_neg (fun nan => nan.2 mantissa), exponent, mantissa, fieldsOf]
  · rw [is, if_pos ⟨exponent, mantissa⟩, fieldsOf]
  · rw [is, if_neg (fun nan => nan.2 mantissa), exponent, mantissa, fieldsOf]
  · rw [is, if_neg (by omega), fieldsOf, if_pos (Nat.mod_lt _ (by decide)), exponent]
  · rw [is, if_neg (by omega), fieldsOf, if_neg (by omega), Nat.add_sub_cancel_left]
    congr 3
    omega

theorem unpack_injective (x y : Float) (same : x.toModel.unpack = y.toModel.unpack) : x = y := by
  obtain ⟨⟨⟨b⟩, b_valid⟩⟩ := x
  obtain ⟨⟨⟨c⟩, c_valid⟩⟩ := y
  have canonical (b : BitVec 64) (valid : format.Valid b)
      (nan : b.toNat / 2 ^ 52 % 2 ^ 11 = 2047 ∧ b.toNat % 2 ^ 52 ≠ 0) : b = UnpackedFloat.packedNaN format := by
    refine valid.eq_packedNaN ?_ ?_
    · rw [← BitVec.toNat_inj, toNat_unpackExponent]
      exact nan.1
    · rw [ne_eq, ← BitVec.toNat_inj, toNat_unpackMantissa]
      exact nan.2
  have bits : b = c := by
    have fields := congrArg fieldsOf
      (show UnpackedFloat.unpack format b = UnpackedFloat.unpack format c from same)
    rw [fieldsOf_unpack, fieldsOf_unpack] at fields
    by_cases b_nan : b.toNat / 2 ^ 52 % 2 ^ 11 = 2047 ∧ b.toNat % 2 ^ 52 ≠ 0
    · by_cases c_nan : c.toNat / 2 ^ 52 % 2 ^ 11 = 2047 ∧ c.toNat % 2 ^ 52 ≠ 0
      · exact (canonical b b_valid b_nan).trans (canonical c c_valid c_nan).symm
      · rw [if_pos b_nan, if_neg c_nan] at fields
        cases fields
    · by_cases c_nan : c.toNat / 2 ^ 52 % 2 ^ 11 = 2047 ∧ c.toNat % 2 ^ 52 ≠ 0
      · rw [if_neg b_nan, if_pos c_nan] at fields
        cases fields
      · rw [if_neg b_nan, if_neg c_nan] at fields
        obtain ⟨sign, exponent, mantissa⟩ := Prod.mk.inj (Option.some.inj fields) |>.imp_right Prod.mk.inj
        exact eq_of_fields (unpackSign_eq_of_signOf sign) exponent mantissa
  subst bits
  rfl

structure Normal (m : Nat) (q : Int) : Prop where
  filled : 2 ^ 52 ≤ m
  bounded : m < 2 ^ 53
  least : -1074 ≤ q
  greatest : q ≤ 971

theorem Normal.log {m : Nat} {q : Int} (normal : Normal m q) (j : Nat) : (m * 2 ^ j).log2 = 52 + j := by
  have filled := Nat.mul_le_mul_right (2 ^ j) normal.filled
  have bounded := Nat.mul_lt_mul_of_pos_right normal.bounded (Nat.two_pow_pos j)
  rw [← Nat.pow_add] at filled bounded
  have some_bit : m * 2 ^ j ≠ 0 := by
    have := Nat.two_pow_pos (52 + j)
    omega
  rw [Nat.log2_eq_iff some_bit]
  exact ⟨filled, by rw [Nat.add_right_comm]; exact bounded⟩

theorem unpackSign_packComponents (spec : Format) (s : Sign) (e : BitVec spec.exponentBits)
    (m : BitVec spec.mantissaBitsWithoutImplicit) :
    unpackSign (UnpackedFloat.packComponents spec s e m) = s.toBitVec := by
  apply BitVec.eq_of_getLsbD_eq
  intro i low
  obtain rfl : i = 0 := by omega
  simp [unpackSign, UnpackedFloat.packComponents, BitVec.getLsbD_append, BitVec.getElem_append]

theorem signOf_packComponents (s : Sign) (e : BitVec 11) (m : BitVec 52) :
    signOf (UnpackedFloat.packComponents format s e m) = s := by
  rw [signOf, unpackSign_packComponents]
  cases s <;> rfl

theorem unpack_pack (s : Sign) {m : Nat} {q : Int} (pos : 0 < m) (normal : Normal m q) :
    (Float.Model.pack (.finite s m q pos)).unpack = .finite s m q pos := by
  have filled := normal.filled
  have bounded := normal.bounded
  have least := normal.least
  have greatest := normal.greatest
  have log := normal.log 0
  rw [Nat.pow_zero, Nat.mul_one] at log
  have bits : UnpackedFloat.pack format (.finite s m q pos) =
      UnpackedFloat.packComponents format s (BitVec.ofNat 11 (q + 1075).toNat) (BitVec.ofNat 52 m) := by
    have biased : q + (format.exponentBias : Int) + (format.mantissaBitsWithoutImplicit : Int) = q + 1075 := by
      rw [Int.add_assoc, bias_add]
    have fits : ¬ 2 ^ format.exponentBits ≤ (q + 1075).toNat + 1 := by
      change ¬ 2 ^ 11 ≤ (q + 1075).toNat + 1
      omega
    simp only [UnpackedFloat.pack, biased, if_neg fits]
    rw [if_pos (show m.log2 + 1 = format.mantissaBits from congrArg (· + 1) log)]
  have sign := signOf_packComponents s (BitVec.ofNat 11 (q + 1075).toNat) (BitVec.ofNat 52 m)
  rw [← bits] at sign
  have exponent : (UnpackedFloat.pack format (.finite s m q pos)).toNat / 2 ^ 52 % 2 ^ 11 =
      (q + 1075).toNat % 2 ^ 11 := by
    rw [← toNat_unpackExponent, bits, UnpackedFloat.unpackExponent_packComponents]
    rfl
  have mantissa : (UnpackedFloat.pack format (.finite s m q pos)).toNat % 2 ^ 52 = m % 2 ^ 52 := by
    rw [← toNat_unpackMantissa, bits, UnpackedFloat.unpackMantissa_packComponents]
    rfl
  change UnpackedFloat.unpack format (UnpackedFloat.pack format (.finite s m q pos)) = _
  rcases unpack_cases (UnpackedFloat.pack format (.finite s m q pos)) with
    ⟨full, _, _⟩ | ⟨full, _, _⟩ | ⟨bare, _, _⟩ | ⟨bare, _⟩ | ⟨_, _, _, is⟩
  · omega
  · omega
  · omega
  · omega
  · rw [is, sign]
    refine finite_congr ?_ ?_ <;> omega

theorem shiftRight_exact (m j : Nat) :
    (⟨m * 2 ^ j, false, false⟩ : ExtendedMantissa) >>> j = ⟨m, false, false⟩ := by
  change Nat.repeat ExtendedMantissa.shiftRightOne j ⟨m * 2 ^ j, false, false⟩ = _
  induction j generalizing m with
  | zero => rw [Nat.pow_zero, Nat.mul_one]; rfl
  | succ j ih =>
      have double : m * 2 ^ (j + 1) = m * 2 * 2 ^ j := by ring
      rw [double, Nat.repeat, ih (m * 2)]
      simp [ExtendedMantissa.shiftRightOne]

theorem shiftToTargetExponent_normal {m : Nat} {q : Int} (normal : Normal m q) (j : Nat) :
    shiftToTargetExponent format (m * 2 ^ j) (q - j) .exact = (⟨m, false, false⟩, q) := by
  have least := normal.least
  have target : format.targetExponent (totalExponent (m * 2 ^ j) (q - j)) = q := by
    simp only [totalExponent, normal.log j, Format.targetExponent]
    change max (((52 + j : Nat) : Int) + 1 + (q - j) - 53) (-1074) = q
    omega
  have amount : (q - (q - j)).toNat = j := by omega
  simp only [shiftToTargetExponent, UnpackedFloat.shiftToExponent, target, amount,
    ExtendedMantissa.ofMantissaAndAccuracy, shiftRight_exact]
  refine Prod.ext rfl ?_
  simp

theorem roundWithAccuracy_normal (s : Sign) {m : Nat} {q : Int} (pos : 0 < m) (normal : Normal m q) (j : Nat) :
    roundWithAccuracy format s (m * 2 ^ j) (q - j) .exact = .finite s m q pos := by
  have again := shiftToTargetExponent_normal normal 0
  simp only [Nat.pow_zero, Nat.mul_one, Nat.cast_zero, Int.sub_zero] at again
  have rounded : (⟨m, false, false⟩ : ExtendedMantissa).roundedMantissa = m := rfl
  simp only [roundWithAccuracy, shiftToTargetExponent_normal normal j, rounded, again]
  rw [dif_neg (Nat.ne_of_gt pos)]

theorem Normal.log_whole {n j : Nat} (normal : Normal (n * 2 ^ j) (-(j : Int))) (low : j ≤ 52) :
    n ≠ 0 ∧ n.log2 = 52 - j := by
  have filled := normal.filled
  have bounded := normal.bounded
  have some_bit : n ≠ 0 := by
    rintro rfl
    simp at filled
  refine ⟨some_bit, (Nat.log2_eq_iff some_bit).mpr ⟨?_, ?_⟩⟩
  · apply Nat.le_of_mul_le_mul_right _ (Nat.two_pow_pos j)
    rw [← Nat.pow_add, Nat.sub_add_cancel low]
    exact filled
  · apply Nat.lt_of_mul_lt_mul_right (a := 2 ^ j)
    rw [← Nat.pow_add, show 52 - j + 1 + j = 53 by omega]
    exact bounded

theorem ofNat_normal {n j : Nat} (pos : 0 < n * 2 ^ j) (normal : Normal (n * 2 ^ j) (-(j : Int))) (low : j ≤ 52) :
    UnpackedFloat.ofNat format n = .finite .positive (n * 2 ^ j) (-(j : Int)) pos := by
  obtain ⟨some_bit, log⟩ := normal.log_whole low
  have positive : compare (n : Int) 0 = .gt := by
    rw [Int.compare_eq_gt]
    omega
  have target : format.targetExponent (totalExponent n 0) = -(j : Int) := by
    simp only [totalExponent, log, Format.targetExponent]
    change max (((52 - j : Nat) : Int) + 1 + 0 - 53) (-1074) = -(j : Int)
    omega
  have rounded := roundWithAccuracy_normal .positive pos normal 0
  rw [Nat.pow_zero, Nat.mul_one, Nat.cast_zero, Int.sub_zero] at rounded
  simp only [UnpackedFloat.ofNat, UnpackedFloat.ofInt, UnpackedFloat.normalize, positive, UnpackedFloat.round,
    Int.toNat_natCast, target, UnpackedFloat.decreaseExponent, Nat.shiftLeft_eq, Int.zero_sub, Int.neg_neg, rounded]

def one : Float := Float.ofBits 0x3FF0000000000000

theorem unpack_one : one.toModel.unpack = .finite .positive (2 ^ 52) (-52) (by decide) := rfl

theorem unpack_ofNat {n j : Nat} (pos : 0 < n * 2 ^ j) (normal : Normal (n * 2 ^ j) (-(j : Int))) (low : j ≤ 52) :
    (Float.ofNat n).toModel.unpack = .finite .positive (n * 2 ^ j) (-(j : Int)) pos := by
  have bounded : n < 2 ^ 53 := Nat.lt_of_le_of_lt (Nat.le_mul_of_pos_right n (Nat.two_pow_pos j)) normal.bounded
  have scaled : Float.ofNat n = n.toUInt64.toFloat * one := by
    change Float.ofScientific n false 0 = _
    rw [Float.ofScientific, dif_pos ⟨bounded, by decide⟩]
    rfl
  have word : n.toUInt64.toNat = n := by
    change n % 2 ^ 64 = n
    omega
  have converted : n.toUInt64.toFloat.toModel.unpack = .finite .positive (n * 2 ^ j) (-(j : Int)) pos := by
    change (Float.Model.pack (UnpackedFloat.ofNat format n.toUInt64.toNat)).unpack = _
    rw [word, ofNat_normal pos normal low, unpack_pack .positive pos normal]
  have product : UnpackedFloat.mul format (.finite .positive (n * 2 ^ j) (-(j : Int)) pos)
      (.finite .positive (2 ^ 52) (-52) (by decide)) = .finite .positive (n * 2 ^ j) (-(j : Int)) pos :=
    roundWithAccuracy_normal .positive pos normal 52
  rw [scaled]
  change (Float.Model.pack (UnpackedFloat.mul format n.toUInt64.toFloat.toModel.unpack one.toModel.unpack)).unpack = _
  rw [converted, unpack_one, product, unpack_pack .positive pos normal]

theorem unpack_neg (x : Float) (s : Sign) {m : Nat} {q : Int} (pos : 0 < m) (normal : Normal m q)
    (is : x.toModel.unpack = .finite s m q pos) : (Float.neg x).toModel.unpack = .finite (-s) m q pos := by
  change (Float.Model.pack x.toModel.unpack.neg).unpack = _
  rw [is]
  exact unpack_pack (-s) pos normal

theorem normal_of_unpack (x : Float) {s : Sign} {m : Nat} {q : Int} {pos : 0 < m}
    (is : x.toModel.unpack = .finite s m q pos) : (m < 2 ^ 52 ∧ q = -1074) ∨ Normal m q := by
  obtain ⟨⟨⟨b⟩, valid⟩⟩ := x
  change UnpackedFloat.unpack format b = _ at is
  have low : b.toNat % 2 ^ 52 < 2 ^ 52 := Nat.mod_lt _ (by decide)
  rcases unpack_cases b with ⟨_, _, other⟩ | ⟨_, _, other⟩ | ⟨_, _, other⟩ | ⟨_, _, other⟩ | ⟨least, greatest, _, other⟩
  · cases other.symm.trans is
  · cases other.symm.trans is
  · cases other.symm.trans is
  · obtain ⟨-, rfl, rfl⟩ := UnpackedFloat.finite.inj (other.symm.trans is)
    exact .inl ⟨low, rfl⟩
  · obtain ⟨-, rfl, rfl⟩ := UnpackedFloat.finite.inj (other.symm.trans is)
    exact .inr ⟨by omega, by omega, by omega, by omega⟩

-- A whole number keeps within its mantissa all the bits that its exponent shifts out.
theorem whole_of_integer (x : Float) {s : Sign} {m : Nat} {q : Int} {pos : 0 < m} {n : Int}
    (is : x.toModel.unpack = .finite s m q pos) (whole : integer? x = some n) :
    ∃ k j : Nat, n = s.apply (k : Int) ∧ m = k * 2 ^ j ∧ q = -(j : Int) ∧ j ≤ 52 ∧ Normal m q := by
  obtain ⟨whole, small⟩ := Option.filter_eq_some_iff.mp whole
  have small : n.natAbs < 10 ^ 15 := of_decide_eq_true small
  simp only [whole?, is, Nat.pow_eq] at whole
  have canonical := normal_of_unpack x is
  by_cases big : 0 ≤ q
  · rw [if_pos big] at whole
    have filled := (canonical.resolve_left (by omega)).filled
    have grown := Nat.le_mul_of_pos_right m (Nat.two_pow_pos q.toNat)
    obtain rfl := Option.some.inj whole
    cases s <;> simp only [Sign.apply] at small <;> omega
  · rw [if_neg big] at whole
    split at whole
    next exact_division =>
      obtain ⟨j, rfl⟩ : ∃ j : Nat, q = -(j : Int) := ⟨(-q).toNat, by omega⟩
      rw [Int.neg_neg, Int.toNat_natCast] at exact_division whole
      have product : m = m / 2 ^ j * 2 ^ j := by
        rw [Nat.div_mul_cancel (Nat.dvd_of_mod_eq_zero exact_division)]
      have within : 2 ^ j ≤ m := Nat.le_of_dvd pos (Nat.dvd_of_mod_eq_zero exact_division)
      have low : j ≤ 52 := by
        rcases canonical with ⟨tiny, least⟩ | normal
        · have huge : 2 ^ 52 ≤ 2 ^ j := Nat.pow_le_pow_right (by decide) (by omega)
          omega
        · have shallow : 2 ^ j < 2 ^ 53 := Nat.lt_of_le_of_lt within normal.bounded
          exact Nat.le_of_lt_succ ((Nat.pow_lt_pow_iff_right (by decide)).mp shallow)
      exact ⟨m / 2 ^ j, j, (Option.some.inj whole).symm, product, rfl, low, canonical.resolve_left (by omega)⟩
    next => cases whole

theorem ofInt_integer (x : Float) (n : Int) (whole : integer? x = some n)
    (unsigned : x.toModel.unpack ≠ .zero .negative) : Float.ofInt n = x := by
  apply unpack_injective
  cases is : x.toModel.unpack with
  | notANumber => simp [integer?, whole?, is] at whole
  | infinity s => simp [integer?, whole?, is] at whole
  | zero s =>
      simp only [integer?, whole?, is] at whole
      obtain rfl : 0 = n := Option.some.inj whole
      cases s with
      | negative => exact absurd is unsigned
      | positive => rfl
  | finite s m q pos =>
      obtain ⟨k, j, rfl, rfl, rfl, low, normal⟩ := whole_of_integer x is whole
      cases s with
      | positive => exact unpack_ofNat pos normal low
      | negative =>
          have some_bit := (normal.log_whole low).1
          obtain ⟨k, rfl⟩ := Nat.exists_eq_succ_of_ne_zero some_bit
          exact unpack_neg (Float.ofNat (k + 1)) .positive pos normal (unpack_ofNat pos normal low)

end Prerender.Decimal
