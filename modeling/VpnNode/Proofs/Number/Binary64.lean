import Mathlib.Algebra.Order.Field.Power
import Mathlib.Algebra.Order.Floor.Semifield
import Mathlib.Data.Rat.Floor
import Mathlib.Tactic.FieldSimp
import Mathlib.Tactic.Linarith
import Mathlib.Tactic.NormNum
import Mathlib.Tactic.Positivity
import Mathlib.Tactic.Ring
import VpnNode.Number.Binary64

/-!
# Rounding to binary floating point

A magnitude lies in exactly one binade, whose numbers stand `2 ^ q` apart; its code is made of
`q` and of the magnitude in units of `2 ^ q`, rounded. So the code depends on the magnitude
alone, and not on the fraction that it is given as.

Main statements:

* `nearestCode_congr`: fractions of one value have one code.
* `nearestCode_of_near`: what is nearer to a number than one part in `2 ^ 54` rounds to it.
* `ofDecimal_congr`: decimals of one value are one number.
-/

namespace VpnNode.Binary64

/-! ## Halves -/

/-- The whole number nearest to a number from zero up, a half going to the even neighbour. -/
def roundEven (x : ℚ) : Nat :=
  let q := ⌊x⌋₊
  let r := x - q
  if 2 * r < 1 then q
  else if 1 < 2 * r then q + 1
  else if q % 2 = 0 then q else q + 1

/-- The rounded quotient depends on the quotient only. -/
theorem divEven_eq (num : Nat) {den : Nat} (hden : 0 < den) :
    divEven num den = roundEven ((num : ℚ) / den) := by
  have hpos : (0 : ℚ) < den := Nat.cast_pos.2 hden
  have hfloor : ⌊(num : ℚ) / den⌋₊ = num / den := Nat.floor_div_eq_div num den
  have hrest : (num : ℚ) / den - (num / den : Nat) = (num % den : Nat) / den := by
    have hsum : (den : ℚ) * (num / den : Nat) + (num % den : Nat) = num := by
      exact_mod_cast Nat.div_add_mod num den
    rw [sub_eq_iff_eq_add, ← hsum]
    field_simp
    rw [add_comm]
  have hless : 2 * (((num % den : Nat) : ℚ) / den) < 1 ↔ 2 * (num % den) < den := by
    rw [mul_div_assoc', div_lt_one hpos]
    exact_mod_cast Iff.rfl
  have hmore : 1 < 2 * (((num % den : Nat) : ℚ) / den) ↔ den < 2 * (num % den) := by
    rw [mul_div_assoc', one_lt_div hpos]
    exact_mod_cast Iff.rfl
  unfold divEven roundEven
  dsimp only
  rw [hfloor, hrest]
  simp only [hless, hmore]

/-- What is nearer than a half to a whole number is rounded to it. -/
theorem roundEven_eq {x : ℚ} (hx : 0 ≤ x) {n : Nat} (h : |x - n| < 1 / 2) : roundEven x = n := by
  obtain ⟨hbelow, habove⟩ := abs_lt.1 h
  have hfloor : (⌊x⌋₊ : ℚ) ≤ x := Nat.floor_le hx
  have hceil : x < ⌊x⌋₊ + 1 := Nat.lt_floor_add_one x
  have hlow : (⌊x⌋₊ : ℚ) < n + 1 := by linarith
  have hhigh : (n : ℚ) < ⌊x⌋₊ + 2 := by linarith
  have hlow' : ⌊x⌋₊ ≤ n := by exact_mod_cast Nat.lt_succ_iff.1 (by exact_mod_cast hlow)
  have hhigh' : n < ⌊x⌋₊ + 2 := by exact_mod_cast hhigh
  obtain heq | heq : n = ⌊x⌋₊ ∨ n = ⌊x⌋₊ + 1 := by omega
  · unfold roundEven
    dsimp only
    rw [if_pos, heq]
    rw [heq] at habove
    linarith
  · have hcast : (n : ℚ) = ⌊x⌋₊ + 1 := by rw [heq]; push_cast; rfl
    unfold roundEven
    dsimp only
    rw [if_neg, if_pos, heq]
    · rw [hcast] at hbelow
      linarith
    · rw [hcast] at hbelow
      linarith

/-! ## Binades -/

/-- The numbers around a magnitude stand `2 ^ q` apart: the magnitude has at most 53 bits in this
    unit, and exactly so many unless the unit is the least one. -/
structure InBinade (x : ℚ) (q : Int) : Prop where
  least : -1074 ≤ q
  below : x < 2 ^ 53 * 2 ^ q
  above : q = -1074 ∨ 2 ^ 52 * 2 ^ q ≤ x

theorem InBinade.le {x : ℚ} {p q : Int} (hp : InBinade x p) (hq : InBinade x q) : p ≤ q := by
  by_contra hlt
  have hstep : q + 1 ≤ p := not_le.1 hlt
  obtain heq | habove := hp.above
  · have := hq.least
    omega
  · have hpow : (2 : ℚ) ^ (q + 1) ≤ 2 ^ p := zpow_le_zpow_right₀ (by norm_num) hstep
    have hunit : (2 : ℚ) ^ (q + 1) = 2 * 2 ^ q := by
      rw [zpow_add_one₀ (by norm_num), mul_comm]
    have hbelow := hq.below
    rw [hunit] at hpow
    linarith

/-- A magnitude lies in one binade. -/
theorem InBinade.unique {x : ℚ} {p q : Int} (hp : InBinade x p) (hq : InBinade x q) : p = q :=
  le_antisymm (hp.le hq) (hq.le hp)

/-- A fraction in units of a power of a base, as a fraction. -/
def scaledBy (base num den : Nat) (e : Int) : Nat × Nat :=
  if 0 ≤ e then (num, den * base ^ e.toNat) else (num * base ^ (-e).toNat, den)

theorem scaledBy_pos {base : Nat} (hbase : 0 < base) (num : Nat) {den : Nat} (hden : 0 < den)
    (e : Int) : 0 < (scaledBy base num den e).2 := by
  unfold scaledBy
  split
  · exact Nat.mul_pos hden (Nat.pow_pos hbase)
  · exact hden

theorem scaledBy_eq (base num den : Nat) (e : Int) :
    ((scaledBy base num den e).1 : ℚ) / (scaledBy base num den e).2 =
      (num : ℚ) / den / (base : ℚ) ^ e := by
  unfold scaledBy
  split
  · rename_i he
    obtain ⟨n, rfl⟩ := Int.eq_ofNat_of_zero_le he
    rw [Int.toNat_natCast]
    push_cast
    rw [zpow_natCast, div_div]
  · rename_i he
    obtain ⟨n, hn⟩ := Int.eq_ofNat_of_zero_le (show 0 ≤ -e by omega)
    obtain rfl : e = -n := by omega
    rw [neg_neg, Int.toNat_natCast]
    push_cast
    rw [zpow_neg, zpow_natCast, div_inv_eq_mul, div_mul_eq_mul_div]

/-- The exponent that is tried first, from the bits of the fraction. -/
def firstUnit (num den : Nat) : Int := max ((num.log2 : Int) - den.log2 - 53) (-1074)

/-- The exponent that is taken. -/
def unit (num den : Nat) : Int :=
  let (n, d) := scaledBy 2 num den (firstUnit num den)
  if n / d < 2 ^ 53 then firstUnit num den else firstUnit num den + 1

theorem nearestCode_eq {num : Nat} (hnum : num ≠ 0) (den : Nat) :
    nearestCode num den = (unit num den + 1074).toNat * 2 ^ 52 +
      divEven (scaledBy 2 num den (unit num den)).1 (scaledBy 2 num den (unit num den)).2 := by
  unfold nearestCode
  simp only [Nat.shiftLeft_eq, Nat.one_mul]
  rw [if_neg hnum]
  rfl

/-- The bits of a fraction tell its magnitude up to a factor of four. -/
theorem log2_bounds {num den : Nat} (hnum : num ≠ 0) (hden : den ≠ 0) :
    (2 : ℚ) ^ ((num.log2 : Int) - den.log2 - 1) < (num : ℚ) / den ∧
      (num : ℚ) / den < 2 ^ ((num.log2 : Int) - den.log2 + 1) := by
  have hpos : (0 : ℚ) < den := Nat.cast_pos.2 (Nat.pos_of_ne_zero hden)
  have hnumLow : (2 : ℚ) ^ num.log2 ≤ num := by exact_mod_cast Nat.log2_self_le hnum
  have hnumHigh : (num : ℚ) < 2 ^ (num.log2 + 1) := by exact_mod_cast Nat.lt_log2_self
  have hdenLow : (2 : ℚ) ^ den.log2 ≤ den := by exact_mod_cast Nat.log2_self_le hden
  have hdenHigh : (den : ℚ) < 2 ^ (den.log2 + 1) := by exact_mod_cast Nat.lt_log2_self
  constructor
  · rw [lt_div_iff₀ hpos]
    calc (2 : ℚ) ^ ((num.log2 : Int) - den.log2 - 1) * den
        < 2 ^ ((num.log2 : Int) - den.log2 - 1) * 2 ^ (den.log2 + 1) :=
          mul_lt_mul_of_pos_left hdenHigh (by positivity)
      _ = 2 ^ num.log2 := by
          rw [← zpow_natCast, ← zpow_natCast, ← zpow_add₀ (by norm_num)]
          congr 1
          push_cast
          ring
      _ ≤ num := hnumLow
  · rw [div_lt_iff₀ hpos]
    calc (num : ℚ) < 2 ^ (num.log2 + 1) := hnumHigh
      _ = 2 ^ ((num.log2 : Int) - den.log2 + 1) * 2 ^ den.log2 := by
          rw [← zpow_natCast, ← zpow_natCast, ← zpow_add₀ (by norm_num)]
          congr 1
          push_cast
          ring
      _ ≤ 2 ^ ((num.log2 : Int) - den.log2 + 1) * den :=
          mul_le_mul_of_nonneg_left hdenLow (by positivity)

/-- The exponent that is taken is the one of the binade. -/
theorem inBinade_unit {num den : Nat} (hnum : num ≠ 0) (hden : den ≠ 0) :
    InBinade ((num : ℚ) / den) (unit num den) := by
  have hdenPos := Nat.pos_of_ne_zero hden
  obtain ⟨hlow, hhigh⟩ := log2_bounds hnum hden
  have hleast : -1074 ≤ firstUnit num den := le_max_right _ _
  have hguess : (num.log2 : Int) - den.log2 - 53 ≤ firstUnit num den := le_max_left _ _
  have hpos := scaledBy_pos two_pos num hdenPos (firstUnit num den)
  have hfit : (scaledBy 2 num den (firstUnit num den)).1 /
      (scaledBy 2 num den (firstUnit num den)).2 < 2 ^ 53 ↔
        (num : ℚ) / den < 2 ^ 53 * 2 ^ firstUnit num den := by
    have hscale := scaledBy_eq 2 num den (firstUnit num den)
    rw [Nat.cast_ofNat] at hscale
    rw [Nat.div_lt_iff_lt_mul hpos, ← div_lt_iff₀ (by positivity), ← hscale,
      div_lt_iff₀ (Nat.cast_pos.2 hpos)]
    exact_mod_cast Iff.rfl
  unfold unit
  dsimp only
  split
  · rename_i hless
    refine ⟨hleast, hfit.1 hless, ?_⟩
    obtain heq | heq := max_choice ((num.log2 : Int) - den.log2 - 53) (-1074)
    · right
      have hfirst : firstUnit num den = (num.log2 : Int) - den.log2 - 53 := heq
      rw [hfirst, ← zpow_natCast, ← zpow_add₀ (by norm_num)]
      refine le_of_eq_of_le ?_ hlow.le
      congr 1
      push_cast
      ring
    · exact .inl heq
  · rename_i hmore
    have habove : 2 ^ 53 * 2 ^ firstUnit num den ≤ (num : ℚ) / den := not_lt.1 fun h => hmore (hfit.2 h)
    refine ⟨by omega, ?_, .inr ?_⟩
    · refine lt_of_lt_of_le hhigh ?_
      rw [← zpow_natCast, ← zpow_add₀ (by norm_num)]
      refine zpow_le_zpow_right₀ (by norm_num) ?_
      push_cast
      omega
    · rw [zpow_add_one₀ (by norm_num)]
      linarith

/-- The code of a fraction, from the binade and the value of the fraction. -/
theorem nearestCode_eq_of_inBinade {num den : Nat} (hnum : num ≠ 0) (hden : den ≠ 0) {q : Int}
    (h : InBinade ((num : ℚ) / den) q) :
    nearestCode num den = (q + 1074).toNat * 2 ^ 52 + roundEven ((num : ℚ) / den / 2 ^ q) := by
  have hunit : unit num den = q := (inBinade_unit hnum hden).unique h
  rw [nearestCode_eq hnum, hunit,
    divEven_eq _ (scaledBy_pos two_pos num (Nat.pos_of_ne_zero hden) q), scaledBy_eq, Nat.cast_ofNat]

/-- Fractions of one value have one code. -/
theorem nearestCode_congr {num den num' den' : Nat} (hnum : num ≠ 0) (hden : den ≠ 0)
    (hnum' : num' ≠ 0) (hden' : den' ≠ 0) (h : (num : ℚ) / den = num' / den') :
    nearestCode num den = nearestCode num' den' := by
  have hunit := inBinade_unit hnum hden
  rw [nearestCode_eq_of_inBinade hnum hden hunit]
  rw [h] at hunit ⊢
  rw [nearestCode_eq_of_inBinade hnum' hden' hunit]

/-! ## The value of a code -/

/-- The magnitude of a code. -/
def value (code : Nat) : ℚ := ((ratio code).1 : ℚ) / (ratio code).2

/-- A code is made of the exponent of its unit and of its magnitude in that unit. -/
structure Parts (code : Nat) (q : Int) (n : Nat) : Prop where
  least : -1074 ≤ q
  below : n < 2 ^ 53
  above : q = -1074 ∨ 2 ^ 52 ≤ n
  code_eq : code = (q + 1074).toNat * 2 ^ 52 + n
  value_eq : value code = n * 2 ^ q

theorem div_two_pow (n k : Nat) : (n : ℚ) / (2 ^ k : Nat) = n * 2 ^ (-(k : Int)) := by
  rw [zpow_neg, zpow_natCast, ← div_eq_mul_inv, Nat.cast_pow, Nat.cast_ofNat]

theorem exists_parts (code : Nat) : ∃ q n, Parts code q n := by
  have hfield : code % 2 ^ 52 < 2 ^ 52 := Nat.mod_lt _ (by decide)
  have hcode : code = code / 2 ^ 52 * 2 ^ 52 + code % 2 ^ 52 := (Nat.div_add_mod' code _).symm
  have hvalue : value code = ((ratio code).1 : ℚ) / (ratio code).2 := rfl
  unfold ratio at hvalue
  -- a power as large as this one is not to be computed
  generalize hlow : 1074 = low at hvalue
  rw [Nat.shiftRight_eq_div_pow] at hvalue
  simp only [Nat.shiftLeft_eq, Nat.one_mul] at hvalue
  generalize code / 2 ^ 52 = e at hcode hvalue
  generalize code % 2 ^ 52 = f at hcode hvalue hfield
  cases e with
  | zero =>
    refine ⟨-1074, f, le_refl _, hfield.trans (by decide), .inl rfl, hcode, ?_⟩
    rw [hvalue, if_pos rfl, div_two_pow, ← hlow]
    rfl
  | succ k =>
    refine ⟨(k : Int) - 1074, 2 ^ 52 + f, by omega, by omega, .inr (Nat.le_add_right _ _), ?_, ?_⟩
    · rw [sub_add_cancel, Int.toNat_natCast, hcode]
      ring
    rw [hvalue, if_neg k.succ_ne_zero]
    split
    · have hexp : (k : Int) - 1074 = -((1075 - (k + 1) : Nat) : Int) := by omega
      rw [hexp]
      exact div_two_pow (2 ^ 52 + f) (1075 - (k + 1))
    · have hexp : (k : Int) - 1074 = ((k + 1 - 1075 : Nat) : Int) := by omega
      rw [hexp, zpow_natCast]
      push_cast
      rw [div_one]

/-- No finite magnitude but zero is beyond 400 places before or after the point. -/
theorem value_bounds {code : Fin codeLimit} (h : code.val ≠ 0) :
    (10 : ℚ) ^ (-400 : Int) < value code ∧ value code < 10 ^ (400 : Int) := by
  obtain ⟨q, n, hleast, hbelow, habove, hcode, hvalue⟩ := exists_parts code
  have hlimit : code.val < 2047 * 2 ^ 52 := code.isLt
  have hn : n ≠ 0 := by omega
  have hmost : q ≤ 971 := by omega
  have hpos : (0 : ℚ) < 2 ^ q := by positivity
  have htens : (2 : ℚ) ^ (1200 : Int) ≤ 10 ^ (400 : Int) := by
    have hpower : (2 : ℚ) ^ (1200 : Int) = (2 ^ (3 : Int)) ^ (400 : Int) := zpow_mul 2 3 400
    rw [hpower]
    exact zpow_le_zpow_left₀ (by decide) (by norm_num) (by norm_num)
  rw [hvalue]
  constructor
  · calc (10 : ℚ) ^ (-400 : Int) ≤ 2 ^ (-1200 : Int) := by
          rw [zpow_neg, zpow_neg]
          exact inv_anti₀ (by positivity) htens
      _ < 2 ^ q := zpow_lt_zpow_right₀ (by norm_num) (by omega)
      _ ≤ n * 2 ^ q := le_mul_of_one_le_left hpos.le (by exact_mod_cast Nat.one_le_iff_ne_zero.2 hn)
  · calc (n : ℚ) * 2 ^ q < 2 ^ (53 : Int) * 2 ^ q :=
          mul_lt_mul_of_pos_right (by exact_mod_cast hbelow) hpos
      _ = 2 ^ (53 + q) := (zpow_add₀ (by norm_num) 53 q).symm
      _ ≤ 2 ^ (1200 : Int) := zpow_le_zpow_right₀ (by norm_num) (by omega)
      _ ≤ 10 ^ (400 : Int) := htens

/-- A fraction that is nearer than half a unit to a multiple of its unit. -/
theorem nearestCode_of_inBinade {num den : Nat} (hnum : num ≠ 0) (hden : den ≠ 0) {q : Int}
    (h : InBinade ((num : ℚ) / den) q) {n : Nat} (hnear : |(num : ℚ) / den / 2 ^ q - n| < 1 / 2) :
    nearestCode num den = (q + 1074).toNat * 2 ^ 52 + n := by
  rw [nearestCode_eq_of_inBinade hnum hden h, roundEven_eq (by positivity) hnear]

/-- What is nearer to `n` units than one part in `2 ^ 54` of them lies in the binade of that unit,
    or just below it. The numbers below a power of two stand closer together than the ones above. -/
theorem inBinade_of_near {x : ℚ} {q : Int} {n : Nat} (hleast : -1074 ≤ q) (hbelow : n < 2 ^ 53)
    (habove : q = -1074 ∨ 2 ^ 52 ≤ n) (h : |x / 2 ^ q - n| * 2 ^ 54 < n) :
    InBinade x q ∨ -1074 < q ∧ n = 2 ^ 52 ∧ InBinade x (q - 1) := by
  have hpos : (0 : ℚ) < 2 ^ q := by positivity
  obtain ⟨y, rfl⟩ : ∃ y, x = y * 2 ^ q := ⟨x / 2 ^ q, (div_mul_cancel₀ x hpos.ne').symm⟩
  rw [mul_div_cancel_right₀ y hpos.ne'] at h
  have hbelow' : (n : ℚ) + 1 ≤ 2 ^ 53 := by exact_mod_cast hbelow
  obtain ⟨hfrom, hto⟩ := abs_lt.1 ((lt_div_iff₀ (by positivity)).2 h)
  by_cases hown : q = -1074 ∨ 2 ^ 52 ≤ y
  · have hfit : y < 2 ^ 53 := by linarith
    exact .inl ⟨hleast, mul_lt_mul_of_pos_right hfit hpos,
      hown.imp_right fun hy => mul_le_mul_of_nonneg_right hy hpos.le⟩
  · obtain ⟨hmore, hy⟩ := not_or.1 hown
    have hless : y < 2 ^ 52 := not_le.1 hy
    have hn : n = 2 ^ 52 := by
      have hlow : (n : ℚ) < 2 ^ 52 + 1 := by linarith
      have hlow' : n < 2 ^ 52 + 1 := by exact_mod_cast hlow
      have := habove.resolve_left hmore
      omega
    have hfull : 2 ^ 52 - 1 / 4 < y := by
      rw [hn] at hfrom
      push_cast at hfrom
      linarith
    have hunit : y * 2 ^ q = 2 * y * 2 ^ (q - 1) := by
      rw [zpow_sub_one₀ (by norm_num)]
      ring
    have hpos' : (0 : ℚ) < 2 ^ (q - 1) := by positivity
    refine .inr ⟨by omega, hn, by omega, ?_, .inr ?_⟩
    · rw [hunit]
      exact mul_lt_mul_of_pos_right (by linarith) hpos'
    · rw [hunit]
      exact mul_le_mul_of_nonneg_right (by linarith) hpos'.le

/-- What is nearer to a number than one part in `2 ^ 54` of it rounds to it. -/
theorem nearestCode_of_near {num den : Nat} (hnum : num ≠ 0) (hden : den ≠ 0) {code : Nat}
    (h : |(num : ℚ) / den - value code| * 2 ^ 54 < value code) : nearestCode num den = code := by
  obtain ⟨q, n, hleast, hbelow, habove, hcode, hvalue⟩ := exists_parts code
  generalize hx : (num : ℚ) / den = x at h
  have hpos : (0 : ℚ) < 2 ^ q := by positivity
  have hnear : |x / 2 ^ q - n| * 2 ^ 54 < n := by
    have hscale : x - n * 2 ^ q = (x / 2 ^ q - n) * 2 ^ q := by
      rw [sub_mul, div_mul_cancel₀ x hpos.ne']
    rw [hvalue, hscale, abs_mul, abs_of_pos hpos, mul_right_comm] at h
    exact lt_of_mul_lt_mul_right h hpos.le
  obtain hown | ⟨hmore, rfl, hlower⟩ := inBinade_of_near hleast hbelow habove hnear
  · have hbelow' : (n : ℚ) < 2 ^ 53 := by exact_mod_cast hbelow
    rw [nearestCode_of_inBinade hnum hden (hx ▸ hown), hcode]
    rw [hx]
    linarith
  · have hdouble : x / 2 ^ (q - 1) - (2 ^ 53 : Nat) = 2 * (x / 2 ^ q - (2 ^ 52 : Nat)) := by
      rw [zpow_sub_one₀ (by norm_num)]
      push_cast
      field_simp
      ring
    rw [nearestCode_of_inBinade (n := 2 ^ 53) hnum hden (hx ▸ hlower), hcode]
    · omega
    · rw [hx, hdouble, abs_mul, abs_two]
      push_cast at hnear ⊢
      linarith

/-! ## Decimals -/

theorem ofRatio_eq_finite_iff {negative : Bool} {num den : Nat} {code : Fin codeLimit} :
    ofRatio negative num den = .finite negative code ↔ nearestCode num den = code := by
  unfold ofRatio
  dsimp only
  split
  · simp [Fin.ext_iff]
  · rename_i hout
    simp only [reduceCtorEq, false_iff]
    intro heq
    exact hout (heq ▸ code.isLt)

/-- An exponent for which a decimal is rounded, and not settled by its size alone. -/
def InRange (exponent : Int) : Prop := -1100 ≤ exponent ∧ exponent ≤ 1100

/-- A decimal is rounded as a fraction, whatever its sign. -/
theorem exists_ofDecimal_eq {digits : Nat} (hdigits : digits ≠ 0) {exponent : Int}
    (h : InRange exponent) :
    ∃ num den : Nat, num ≠ 0 ∧ den ≠ 0 ∧ (num : ℚ) / den = digits * 10 ^ exponent ∧
      ∀ negative, ofDecimal negative digits exponent = ofRatio negative num den := by
  obtain ⟨hlow, hhigh⟩ := h
  have hpow : ∀ n, Nat.pow 10 n ≠ 0 := fun n => (Nat.pow_pos (by decide)).ne'
  have hcast : ∀ n, ((Nat.pow 10 n : Nat) : ℚ) = 10 ^ n := fun n => Nat.cast_pow 10 n
  by_cases hsign : 0 ≤ exponent
  · refine ⟨digits * Nat.pow 10 exponent.toNat, 1, Nat.mul_ne_zero hdigits (hpow _), one_ne_zero,
      ?_, fun negative => ?_⟩
    · obtain ⟨n, rfl⟩ := Int.eq_ofNat_of_zero_le hsign
      rw [Nat.cast_mul, hcast, Nat.cast_one, div_one, Int.toNat_natCast, zpow_natCast]
    · unfold ofDecimal
      dsimp only
      rw [if_neg hdigits, if_neg (by omega), if_neg (by omega), if_pos hsign]
  · refine ⟨digits, Nat.pow 10 (-exponent).toNat, hdigits, hpow _, ?_, fun negative => ?_⟩
    · obtain ⟨n, hn⟩ := Int.eq_ofNat_of_zero_le (show 0 ≤ -exponent by omega)
      obtain rfl : exponent = -n := by omega
      rw [hcast, neg_neg, Int.toNat_natCast, zpow_neg, zpow_natCast, div_eq_mul_inv]
    · unfold ofDecimal
      dsimp only
      rw [if_neg hdigits, if_neg (by omega), if_neg (by omega), if_neg hsign]

/-- Decimals of one value are one number. -/
theorem ofDecimal_congr {digits digits' : Nat} (hdigits : digits ≠ 0) (hdigits' : digits' ≠ 0)
    {exponent exponent' : Int} (h : InRange exponent) (h' : InRange exponent')
    (hvalue : (digits : ℚ) * 10 ^ exponent = digits' * 10 ^ exponent') (negative : Bool) :
    ofDecimal negative digits exponent = ofDecimal negative digits' exponent' := by
  obtain ⟨num, den, hnum, hden, hratio, heq⟩ := exists_ofDecimal_eq hdigits h
  obtain ⟨num', den', hnum', hden', hratio', heq'⟩ := exists_ofDecimal_eq hdigits' h'
  have hcode : nearestCode num den = nearestCode num' den' :=
    nearestCode_congr hnum hden hnum' hden' (by rw [hratio, hratio', hvalue])
  rw [heq, heq']
  unfold ofRatio
  rw [hcode]

/-- A decimal that is nearer to a number than one part in `2 ^ 54` of it is that number. -/
theorem ofDecimal_of_near {digits : Nat} (hdigits : digits ≠ 0) {exponent : Int}
    (h : InRange exponent) {code : Fin codeLimit}
    (hnear : |digits * 10 ^ exponent - value code| * 2 ^ 54 < value code) (negative : Bool) :
    ofDecimal negative digits exponent = .finite negative code := by
  obtain ⟨num, den, hnum, hden, hratio, heq⟩ := exists_ofDecimal_eq hdigits h
  rw [heq, ofRatio_eq_finite_iff]
  exact nearestCode_of_near hnum hden (hratio ▸ hnear)

/-- The sign of a decimal is the sign of its number. -/
theorem ofDecimal_sign {digits : Nat} (hdigits : digits ≠ 0) {exponent : Int}
    (h : InRange exponent) {negative : Bool} {code : Fin codeLimit}
    (hread : ofDecimal negative digits exponent = .finite negative code) (negative' : Bool) :
    ofDecimal negative' digits exponent = .finite negative' code := by
  obtain ⟨num, den, -, -, -, heq⟩ := exists_ofDecimal_eq hdigits h
  rw [heq, ofRatio_eq_finite_iff] at hread ⊢
  exact hread

theorem ofRatio_ne_nan (negative : Bool) (num den : Nat) : ofRatio negative num den ≠ .nan := by
  unfold ofRatio
  dsimp only
  split <;> exact fun h => Binary64.noConfusion h

end VpnNode.Binary64
