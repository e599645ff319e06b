import Mathlib.Data.Int.Bitwise
import Mathlib.Data.Int.ModEq
import EtherLang.Eval.Primitive

/-!
# Integers as words of 64 bits

Arithmetic of the language is that of words of 64 bits, read as two's complement. Folding a number
keeps the lowest 64 bits of it and takes the highest of these for the sign; what comes out is the
only number in range that is congruent to it. So sums, differences, products and negations are those
of the words.

Division rounds toward zero, which is to divide the absolute values and to negate the quotient where
the signs differ. Of two numbers in range the quotient is in range too and needs no folding, but for
a single pair: the negation of the least integer is one too large.
-/

namespace EtherLang

namespace Integer

/-- The number is one of the language. -/
def InRange (n : Int) : Prop :=
  minValue ≤ n ∧ n ≤ maxValue

/-- The word that a number is kept in. -/
def word (n : Int) : BitVec 64 :=
  BitVec.ofInt 64 n

/-- The lowest 64 bits of a number, the highest of which stands for the sign. -/
def lowBits (n : Int) : Int :=
  let bits := n.land (modulus - 1 : Nat)
  if maxValue < bits then bits - modulus else bits

/-- The quotient of the absolute values, negated if the signs differ. -/
def signedQuotient (a b : Int) : Int :=
  let quotient : Int := (a.natAbs / b.natAbs : Nat)
  if (a < 0 ↔ b < 0) then quotient else -quotient

/-- The number is the quotient of a division toward zero: what remains is smaller than the divisor,
and it is zero or has the sign of the dividend. -/
def IsQuotient (a b q : Int) : Prop :=
  ∃ r, a = q * b + r ∧ r.natAbs < b.natAbs ∧ (r = 0 ∨ r.sign = a.sign)

instance (n : Int) : Decidable (InRange n) :=
  inferInstanceAs (Decidable (minValue ≤ n ∧ n ≤ maxValue))

section Folding

variable {n r : Int}

/-- A number is folded to the one number in range that is congruent to it. -/
theorem wrap_eq_iff : wrap n = r ↔ InRange r ∧ r ≡ n [ZMOD modulus] := by
  constructor
  · rintro rfl
    exact ⟨wrap_mem n, wrap_emod n⟩
  · rintro ⟨⟨lower, upper⟩, hcongruent⟩
    have hsame : (n % modulus).bmod modulus = (r % modulus).bmod modulus :=
      congrArg (Int.bmod · modulus) hcongruent.symm
    rw [Int.emod_bmod, Int.emod_bmod] at hsame
    exact hsame.trans (wrap_eq_self lower upper)

/-- The lowest bits of a number, taken by a mask, are its remainder by the power of two. -/
theorem land_two_pow_sub_one (n : Int) (w : Nat) :
    n.land (2 ^ w - 1 : Nat) = n % (2 ^ w : Nat) := by
  cases n with
  | ofNat m => exact congrArg Int.ofNat (Nat.and_two_pow_sub_one_eq_mod m w)
  | negSucc m =>
    have hpos : 0 < 2 ^ w := Nat.two_pow_pos w
    have hlt : m % 2 ^ w < 2 ^ w := Nat.mod_lt m hpos
    -- The bits of a negative number are those of its complement, turned around.
    have hbits : (2 ^ w - 1).ldiff m = 2 ^ w - (m % 2 ^ w + 1) := by
      refine Nat.eq_of_testBit_eq fun i => ?_
      rw [Nat.testBit_ldiff, Nat.testBit_two_pow_sub_one, Nat.testBit_two_pow_sub_succ hlt,
        Nat.testBit_mod_two_pow]
      cases decide (i < w) <;> rfl
    have hland : (Int.negSucc m).land (2 ^ w - 1 : Nat) = ((2 ^ w - 1).ldiff m : Nat) := rfl
    rw [hland, hbits, Int.negSucc_emod m (Int.natCast_pos.mpr hpos), ← Int.natCast_emod]
    omega

/-- Folding keeps the lowest 64 bits. -/
theorem wrap_eq_lowBits (n : Int) : wrap n = lowBits n := by
  have hbits : n.land (modulus - 1 : Nat) = n % modulus := land_two_pow_sub_one n 64
  have hpos : (0 : Int) < modulus := by decide
  have hnonneg := Int.emod_nonneg n (Int.ne_of_gt hpos)
  have hlt := Int.emod_lt_of_pos n hpos
  have hsame := Int.mod_modEq n modulus
  refine wrap_eq_iff.mpr ?_
  rw [lowBits, hbits]
  split
  · next hsigned =>
    refine ⟨?_, Int.sub_modulus_modEq_iff.mpr hsame⟩
    simp only [InRange, minValue, maxValue, modulus] at *
    omega
  · next hunsigned =>
    refine ⟨?_, hsame⟩
    simp only [InRange, minValue, maxValue, modulus] at *
    omega

/-- The word of a number is read as the folded number. -/
theorem toInt_word (n : Int) : (word n).toInt = wrap n :=
  BitVec.toInt_ofInt n

/-- The word of a number in range is read as the number. -/
theorem InRange.toInt_word (h : InRange n) : (word n).toInt = n :=
  (Integer.toInt_word n).trans (wrap_eq_self h.1 h.2)

end Folding

section Division

variable {a b q : Int}

/-- Rounding toward zero is to divide the absolute values and to set the sign. -/
theorem tdiv_eq_signedQuotient (a b : Int) : a.tdiv b = signedQuotient a b := by
  have habs : (a.natAbs / b.natAbs : Nat) = (a.natAbs : Int).tdiv b.natAbs :=
    Int.ofNat_tdiv ..
  rw [signedQuotient, habs]
  obtain ha | ha := Int.lt_or_le a 0 <;> obtain hb | hb := Int.lt_or_le b 0
  · rw [if_pos (by omega), Int.ofNat_natAbs_of_nonpos (Int.le_of_lt ha),
      Int.ofNat_natAbs_of_nonpos (Int.le_of_lt hb), Int.tdiv_neg, Int.neg_tdiv, Int.neg_neg]
  · rw [if_neg (by omega), Int.ofNat_natAbs_of_nonpos (Int.le_of_lt ha),
      Int.natAbs_of_nonneg hb, Int.neg_tdiv, Int.neg_neg]
  · rw [if_neg (by omega), Int.natAbs_of_nonneg ha,
      Int.ofNat_natAbs_of_nonpos (Int.le_of_lt hb), Int.tdiv_neg, Int.neg_neg]
  · rw [if_pos (by omega), Int.natAbs_of_nonneg ha, Int.natAbs_of_nonneg hb]

/-- What remains of a division toward zero is on the same side of zero as the dividend. -/
theorem sameSide_of_sign {r : Int} (h : r = 0 ∨ r.sign = a.sign) :
    (0 ≤ a → 0 ≤ r) ∧ (a ≤ 0 → r ≤ 0) := by
  obtain rfl | hsign := h
  · exact ⟨fun _ => Int.le_refl 0, fun _ => Int.le_refl 0⟩
  · rw [← Int.sign_nonneg_iff (x := r), ← Int.sign_nonpos_iff (x := r), hsign,
      Int.sign_nonneg_iff, Int.sign_nonpos_iff]
    exact ⟨id, id⟩

/-- There is at most one quotient. -/
theorem IsQuotient.unique {q' : Int} (h : IsQuotient a b q) (h' : IsQuotient a b q') : q = q' := by
  obtain ⟨r, ha, hless, hsign⟩ := h
  obtain ⟨r', ha', hless', hsign'⟩ := h'
  have hside := sameSide_of_sign hsign
  have hside' := sameSide_of_sign hsign'
  -- Both remainders lie on the same side of zero, so they differ by less than the divisor.
  have hnear : (r - r').natAbs < b.natAbs := by
    obtain hnonneg | hnonpos := Int.le_total 0 a
    · have hr := hside.1 hnonneg
      have hr' := hside'.1 hnonneg
      omega
    · have hr := hside.2 hnonpos
      have hr' := hside'.2 hnonpos
      omega
  have hmultiple : b * (q' - q) = r - r' := by
    rw [Int.mul_comm, Int.sub_mul]
    omega
  have hzero := Int.eq_zero_of_dvd_of_natAbs_lt_natAbs ⟨q' - q, hmultiple.symm⟩ hnear
  rw [hzero, Int.mul_eq_zero] at hmultiple
  obtain hb | hsame := hmultiple
  · subst hb
    exact absurd hless (Nat.not_lt_zero _)
  · omega

/-- Rounding toward zero gives a quotient. -/
theorem isQuotient_tdiv (a : Int) (hb : b ≠ 0) : IsQuotient a b (a.tdiv b) := by
  refine ⟨a.tmod b, ?_, ?_, ?_⟩
  · rw [Int.mul_comm]
    exact (Int.mul_tdiv_add_tmod a b).symm
  · rw [Int.natAbs_tmod]
    exact Nat.mod_lt _ (Int.natAbs_pos.mpr hb)
  · rw [← Int.sign_eq_zero_iff_zero, Int.sign_tmod]
    split
    · exact .inl rfl
    · exact .inr rfl

/-- The one quotient is the one that is rounded toward zero. -/
theorem isQuotient_iff (hb : b ≠ 0) : IsQuotient a b q ↔ q = a.tdiv b := by
  constructor
  · intro h
    exact h.unique (isQuotient_tdiv a hb)
  · rintro rfl
    exact isQuotient_tdiv a hb

/-- The quotient of numbers in range is in range, but for one pair of them. -/
theorem InRange.tdiv (ha : InRange a) (hb : b ≠ 0) (hpair : ¬(a = minValue ∧ b = -1)) :
    InRange (a.tdiv b) := by
  have habs : (a.tdiv b).natAbs = a.natAbs / b.natAbs := Int.natAbs_tdiv a b
  simp only [InRange, minValue, maxValue] at *
  by_cases hone : b.natAbs = 1
  · obtain rfl | rfl : b = 1 ∨ b = -1 := by omega
    · rwa [Int.tdiv_one]
    · rw [Int.tdiv_neg, Int.tdiv_one]
      omega
  · have hhalf : a.natAbs / b.natAbs ≤ a.natAbs / 2 := Nat.div_le_div_left (by omega) (by decide)
    omega

/-- The folded quotient of numbers in range is the quotient, but for one pair of them. -/
theorem wrap_tdiv_eq_iff (ha : InRange a) (hb : b ≠ 0) :
    wrap (a.tdiv b) = q ↔ if a = minValue ∧ b = -1 then q = minValue else IsQuotient a b q := by
  split
  · next hpair =>
    obtain ⟨rfl, rfl⟩ := hpair
    have hwrap : wrap (minValue.tdiv (-1)) = minValue := by decide
    rw [hwrap]
    exact eq_comm
  · next hpair =>
    have hrange := ha.tdiv hb hpair
    rw [isQuotient_iff hb, wrap_eq_self hrange.1 hrange.2]
    exact eq_comm

end Division

section Words

variable {a b : Int}

/-- The sum of words is read as the folded sum. -/
theorem toInt_word_add (ha : InRange a) (hb : InRange b) :
    (word a + word b).toInt = wrap (a + b) := by
  rw [BitVec.toInt_add, ha.toInt_word, hb.toInt_word]
  rfl

/-- The difference of words is read as the folded difference. -/
theorem toInt_word_sub (ha : InRange a) (hb : InRange b) :
    (word a - word b).toInt = wrap (a - b) := by
  rw [BitVec.toInt_sub, ha.toInt_word, hb.toInt_word]
  rfl

/-- The product of words is read as the folded product. -/
theorem toInt_word_mul (ha : InRange a) (hb : InRange b) :
    (word a * word b).toInt = wrap (a * b) := by
  rw [BitVec.toInt_mul, ha.toInt_word, hb.toInt_word]
  rfl

/-- The negation of a word is read as the folded negation. -/
theorem toInt_word_neg (ha : InRange a) : (-word a).toInt = wrap (-a) := by
  rw [BitVec.toInt_neg, ha.toInt_word]
  rfl

/-- The signed quotient of words is read as the folded quotient. -/
theorem toInt_word_sdiv (ha : InRange a) (hb : InRange b) :
    ((word a).sdiv (word b)).toInt = wrap (a.tdiv b) := by
  rw [BitVec.toInt_sdiv, ha.toInt_word, hb.toInt_word]
  rfl

end Words

end Integer

open Integer

section Operators

variable {a b : Int}

/-- Division by something else than zero gives the folded quotient. -/
theorem BinaryOp.onIntegers_div_of_ne (hb : b ≠ 0) :
    onIntegers .div a b = .ok (.int (wrap (a.tdiv b))) := by
  rw [onIntegers, quotient?, if_neg hb]

/-- Division fails by zero only. -/
theorem BinaryOp.onIntegers_div_eq_error_iff {cause : EvalError.Cause} :
    onIntegers .div a b = .error cause ↔ b = 0 ∧ cause = .divisionByZero a := by
  by_cases hb : b = 0
  · subst hb
    rw [onIntegers, quotient?, if_pos rfl, Except.error.injEq, eq_comm]
    exact (and_iff_right rfl).symm
  · rw [onIntegers_div_of_ne hb]
    exact iff_of_false nofun fun h => hb h.1

end Operators

/-- Arithmetic is that of words of 64 bits. Folding gives the only number in range that is congruent
to the given one, by keeping its lowest 64 bits. On numbers in range the operators `+`, `-` and `*`
and the sign are the operations on words. Division is the signed division of words, which divides
the absolute values: it gives the one number that leaves a remainder smaller than the divisor and on
the side of the dividend, except that the least integer by minus one is the least integer. Division
fails by zero and only then. -/
theorem integers_behave_as_words :
    (∀ n r, wrap n = r ↔ InRange r ∧ r ≡ n [ZMOD modulus]) ∧
      (∀ n, wrap n = lowBits n) ∧
      (∀ a b, b ≠ 0 → quotient? a b = some (wrap (signedQuotient a b))) ∧
      ∀ a b, InRange a → InRange b →
        (BinaryOp.onIntegers .add a b = .ok (.int (word a + word b).toInt) ∧
          BinaryOp.onIntegers .sub a b = .ok (.int (word a - word b).toInt) ∧
          BinaryOp.onIntegers .mul a b = .ok (.int (word a * word b).toInt) ∧
          Value.unary (.known .negate) (.int a) = .ok (.int (-word a).toInt)) ∧
        (b ≠ 0 →
          BinaryOp.onIntegers .div a b = .ok (.int ((word a).sdiv (word b)).toInt) ∧
          ∀ q, BinaryOp.onIntegers .div a b = .ok (.int q) ↔
            if a = minValue ∧ b = -1 then q = minValue else IsQuotient a b q) ∧
        ((∃ cause, BinaryOp.onIntegers .div a b = .error cause ∧
          cause.category = .zeroDivision) ↔ b = 0) := by
  refine ⟨fun n r => wrap_eq_iff, wrap_eq_lowBits, fun a b hb => ?_, fun a b ha hb => ?_⟩
  · rw [quotient?, if_neg hb, tdiv_eq_signedQuotient]
  · refine ⟨?_, fun hzero => ?_, ?_⟩
    · rw [toInt_word_add ha hb, toInt_word_sub ha hb, toInt_word_mul ha hb, toInt_word_neg ha]
      exact ⟨rfl, rfl, rfl, rfl⟩
    · rw [BinaryOp.onIntegers_div_of_ne hzero, toInt_word_sdiv ha hb]
      refine ⟨rfl, fun q => ?_⟩
      rw [Except.ok.injEq, Value.int.injEq]
      exact wrap_tdiv_eq_iff ha hzero
    · constructor
      · rintro ⟨cause, hfails, -⟩
        exact (BinaryOp.onIntegers_div_eq_error_iff.mp hfails).1
      · intro hzero
        exact ⟨_, BinaryOp.onIntegers_div_eq_error_iff.mpr ⟨hzero, rfl⟩, rfl⟩

/-- The least integer overflows when it is negated, decreased or divided by minus one, and a
negative quotient is rounded toward zero. -/
theorem integers_behave_as_words_leastInteger :
    InRange minValue ∧ InRange (-1) ∧ InRange (-7) ∧ InRange 2 ∧
      Value.unary (.known .negate) (.int minValue) = .ok (.int minValue) ∧
      BinaryOp.onIntegers .add minValue (-1) = .ok (.int maxValue) ∧
      BinaryOp.onIntegers .div minValue (-1) = .ok (.int minValue) ∧
      BinaryOp.onIntegers .div (-7) 2 = .ok (.int (-3)) ∧ IsQuotient (-7) 2 (-3) := by
  have hleast : InRange minValue := by decide
  have hone : InRange (-1) := by decide
  have hseven : InRange (-7) := by decide
  have htwo : InRange 2 := by decide
  obtain ⟨-, -, -, hall⟩ := integers_behave_as_words
  obtain ⟨⟨hadd, -, -, hnegate⟩, hdivide, -⟩ := hall minValue (-1) hleast hone
  obtain ⟨-, hpair⟩ := hdivide (by decide)
  obtain ⟨-, hdivide, -⟩ := hall (-7) 2 hseven htwo
  obtain ⟨-, hrounded⟩ := hdivide (by decide)
  have hquotient : BinaryOp.onIntegers .div (-7) 2 = .ok (.int (-3)) := rfl
  exact ⟨hleast, hone, hseven, htwo, hnegate, hadd, (hpair minValue).mpr rfl, hquotient,
    (hrounded (-3)).mp hquotient⟩

end EtherLang
