import VpnNode.Number.Shortest
import VpnNode.Proofs.Number.Binary64
import VpnNode.Proofs.Text.Numeral

/-!
# The shortest decimal is read back

With seventeen digits the decimals of a size stand closer together than the binary numbers, so
that one of the two decimals around a number rounds to it: the search ends. What it finds rounds
to the number by its own check, and neither trailing zeros nor the place of the point change the
value.

Main statements:

* `onGrid?_seventeen`: seventeen digits are enough.
* `ofDecimal_ofCode`: the shortest decimal of a number is that number.
* `exists_positional`: positional notation has the value of its decimal.
-/

namespace VpnNode

namespace Shortest

open Binary64 (codeLimit ratio scaledBy InRange ofDecimal)
open VpnNode.Decimal (isDigit_of_mem_toDigits head?_toDigits value_toDigits value_append
  value_replicate_zero)

/-- The value of a decimal. -/
def Decimal.value (d : Decimal) : ℚ := d.digits * 10 ^ d.exponent

/-! ## The size of a number -/

theorem width_bounds {n : Nat} (h : n ≠ 0) : 10 ^ (width n - 1) ≤ n ∧ n < 10 ^ width n := by
  have hpos : 0 < width n := Nat.length_toDigits_pos
  refine ⟨?_, (Nat.length_toDigits_le_iff (by decide) hpos).1 (le_refl _)⟩
  by_cases hone : width n - 1 = 0
  · rw [hone]
    exact Nat.one_le_iff_ne_zero.2 h
  · refine not_lt.1 fun hless => ?_
    have hle : width n ≤ width n - 1 :=
      (Nat.length_toDigits_le_iff (by decide) (Nat.pos_of_ne_zero hone)).2 hless
    omega

theorem magnitude_bounds {num den : Nat} (hnum : num ≠ 0) (hden : den ≠ 0) :
    (10 : ℚ) ^ (magnitude num den - 1) ≤ (num : ℚ) / den ∧
      (num : ℚ) / den < 10 ^ magnitude num den := by
  have hnumPos := Nat.pos_of_ne_zero hnum
  have hdenPos := Nat.pos_of_ne_zero hden
  have hnumPos' : (0 : ℚ) < num := Nat.cast_pos.2 hnumPos
  have hdenPos' : (0 : ℚ) < den := Nat.cast_pos.2 hdenPos
  unfold magnitude
  split
  · rename_i hle
    have hwhole : num / den ≠ 0 := (Nat.div_pos hle hdenPos).ne'
    obtain ⟨hlow, hhigh⟩ := width_bounds hwhole
    have hone : 0 < width (num / den) := Nat.length_toDigits_pos
    have hexp : (width (num / den) : Int) - 1 = ((width (num / den) - 1 : Nat) : Int) := by omega
    rw [hexp, zpow_natCast, zpow_natCast]
    constructor
    · rw [le_div_iff₀ hdenPos']
      exact_mod_cast (Nat.le_div_iff_mul_le hdenPos).1 hlow
    · rw [div_lt_iff₀ hdenPos']
      exact_mod_cast (Nat.div_lt_iff_lt_mul hdenPos).1 hhigh
  · rename_i hlt
    have hup : (den + num - 1) / num - 1 = (den - 1) / num := by
      have hsum : den + num - 1 = den - 1 + num := by omega
      rw [hsum, Nat.add_div_right _ hnumPos, Nat.add_sub_cancel]
    have hwhole : (den - 1) / num ≠ 0 := (Nat.div_pos (by omega) hnumPos).ne'
    obtain ⟨hlow, hhigh⟩ := width_bounds hwhole
    have hone : 0 < width ((den - 1) / num) := Nat.length_toDigits_pos
    rw [hup]
    generalize width ((den - 1) / num) = w at hlow hhigh hone
    have hleast : (1 : Int) - w - 1 = -(w : Int) := by omega
    have hmost : (1 : Int) - w = -((w - 1 : Nat) : Int) := by omega
    rw [hleast, hmost, zpow_neg, zpow_neg, zpow_natCast, zpow_natCast]
    constructor
    · rw [le_div_iff₀ hdenPos', inv_mul_le_iff₀ (by positivity)]
      have hle := (Nat.div_lt_iff_lt_mul hnumPos).1 hhigh
      have hle' : den ≤ 10 ^ w * num := by omega
      exact_mod_cast hle'
    · rw [div_lt_iff₀ hdenPos', lt_inv_mul_iff₀ (by positivity)]
      have hle := (Nat.le_div_iff_mul_le hnumPos).1 hlow
      have hlt' : 10 ^ (w - 1) * num < den := by omega
      exact_mod_cast hlt'

/-- The number of digits before the point of a magnitude. -/
def size (code : Nat) : Int := magnitude (ratio code).1 (ratio code).2

theorem ratio_ne_zero {code : Fin codeLimit} (h : code.val ≠ 0) :
    (ratio code).1 ≠ 0 ∧ (ratio code).2 ≠ 0 := by
  have hpos : (0 : ℚ) < Binary64.value code :=
    (by positivity : (0 : ℚ) < 10 ^ (-400 : Int)).trans (Binary64.value_bounds h).1
  constructor <;> intro hzero <;> simp [Binary64.value, hzero] at hpos

theorem size_bounds {code : Fin codeLimit} (h : code.val ≠ 0) :
    (10 : ℚ) ^ (size code - 1) ≤ Binary64.value code ∧ Binary64.value code < 10 ^ size code :=
  magnitude_bounds (ratio_ne_zero h).1 (ratio_ne_zero h).2

theorem size_range {code : Fin codeLimit} (h : code.val ≠ 0) :
    -400 < size code ∧ size code ≤ 400 := by
  obtain ⟨hlow, hhigh⟩ := Binary64.value_bounds h
  obtain ⟨hfrom, hto⟩ := size_bounds h
  have hlow' := (zpow_lt_zpow_iff_right₀ (by norm_num : (1 : ℚ) < 10)).1 (hlow.trans hto)
  have hhigh' := (zpow_lt_zpow_iff_right₀ (by norm_num : (1 : ℚ) < 10)).1 (hfrom.trans_lt hhigh)
  omega

/-! ## The search -/

theorem readsBack_iff {code : Fin codeLimit} {d : Decimal} :
    readsBack code d = true ↔ ofDecimal false d.digits d.exponent = .finite false code := by
  unfold readsBack
  rw [dif_pos code.isLt, beq_iff_eq]

/-- A magnitude in units of its `n`-th digit, as a fraction. -/
def onScale (code n : Nat) : Nat × Nat :=
  scaledBy 10 (ratio code).1 (ratio code).2 (size code - n)

/-- The decimal of `n` digits just below a magnitude. -/
def lower (code n : Nat) : Decimal :=
  ⟨(onScale code n).1 / (onScale code n).2, size code - n⟩

/-- The one just above it. -/
def upper (code n : Nat) : Decimal :=
  ⟨(onScale code n).1 / (onScale code n).2 + 1, size code - n⟩

theorem lower_exponent (code n : Nat) : (lower code n).exponent = size code - n := rfl

theorem upper_exponent (code n : Nat) : (upper code n).exponent = size code - n := rfl

/-- The nearer one of them. -/
def nearer (code n : Nat) : Decimal :=
  let (p, q) := onScale code n
  let r := p % q
  if 2 * r < q ∨ (2 * r = q ∧ (lower code n).digits % 2 = 0) then lower code n else upper code n

theorem nearer_eq (code n : Nat) : nearer code n = lower code n ∨ nearer code n = upper code n := by
  unfold nearer
  dsimp only
  split
  · exact .inl rfl
  · exact .inr rfl

theorem onGrid?_eq (code n : Nat) : onGrid? code n =
    match readsBack code (lower code n), readsBack code (upper code n) with
    | true, true => some (nearer code n)
    | true, false => some (lower code n)
    | false, true => some (upper code n)
    | false, false => none := rfl

/-- What is found on a grid is one of the two decimals around the number, and rounds to it. -/
theorem of_onGrid?_eq_some {code n : Nat} {d : Decimal} (h : onGrid? code n = some d) :
    (d = lower code n ∨ d = upper code n) ∧ readsBack code d = true := by
  rw [onGrid?_eq] at h
  split at h
  · rename_i hlower hupper
    obtain rfl := Option.some.inj h
    refine ⟨nearer_eq code n, ?_⟩
    obtain heq | heq := nearer_eq code n
    · rw [heq, hlower]
    · rw [heq, hupper]
  · rename_i hlower _
    obtain rfl := Option.some.inj h
    exact ⟨.inl rfl, hlower⟩
  · rename_i _ hupper
    obtain rfl := Option.some.inj h
    exact ⟨.inr rfl, hupper⟩
  · exact absurd h (by simp)

/-- If one of them rounds to it, something is found. -/
theorem onGrid?_isSome {code n : Nat}
    (h : readsBack code (lower code n) = true ∨ readsBack code (upper code n) = true) :
    (onGrid? code n).isSome = true := by
  rw [onGrid?_eq]
  split
  · rfl
  · rfl
  · rfl
  · rename_i hlower hupper
    rw [hlower, hupper] at h
    simp at h

/-- A decimal whose unit is small enough, and that is no more than half a unit away from a number,
    rounds to it. -/
theorem readsBack_of_near {code : Fin codeLimit} {d : Decimal} {e : Int} (he : d.exponent = e)
    (hrange : InRange e) (hunit : (10 : ℚ) ^ 16 * 10 ^ e ≤ Binary64.value code)
    (hnear : |d.value - Binary64.value code| ≤ 10 ^ e / 2) : readsBack code d = true := by
  subst he
  have hpos : (0 : ℚ) < 10 ^ d.exponent := by positivity
  have hdigits : d.digits ≠ 0 := by
    intro hzero
    have hvalue : d.value = 0 := by
      unfold Decimal.value
      rw [hzero, Nat.cast_zero, zero_mul]
    have hlow := (abs_le.1 hnear).1
    rw [hvalue] at hlow
    linarith
  exact readsBack_iff.2 (Binary64.ofDecimal_of_near hdigits hrange
    (show |d.value - Binary64.value code| * 2 ^ 54 < _ by linarith) false)

/-- One of the ends of an interval is no more than half its length away. -/
theorem near_end {x low high u : ℚ} (hhigh : high = low + u) (hbelow : low ≤ x) (habove : x < high) :
    |low - x| ≤ u / 2 ∨ |high - x| ≤ u / 2 := by
  obtain hhalf | hhalf := le_total (x - low) (u / 2)
  · exact .inl (abs_le.2 ⟨by linarith, by linarith⟩)
  · exact .inr (abs_le.2 ⟨by linarith, by linarith⟩)

/-- Seventeen digits are enough: one of the two decimals is no more than half a unit away. -/
theorem onGrid?_seventeen {code : Fin codeLimit} (h : code.val ≠ 0) :
    (onGrid? code 17).isSome = true := by
  obtain ⟨hleast, hmost⟩ := size_range h
  have hrange : InRange (size code - (17 : Nat)) := ⟨by omega, by omega⟩
  have hunit : (10 : ℚ) ^ 16 * 10 ^ (size code - (17 : Nat)) ≤ Binary64.value code := by
    refine le_of_eq_of_le ?_ (size_bounds h).1
    rw [← zpow_natCast, ← zpow_add₀ (by norm_num)]
    congr 1
    push_cast
    ring
  have hlower : (lower code 17).value =
      ⌊Binary64.value code / 10 ^ (size code - (17 : Nat))⌋₊ * 10 ^ (size code - (17 : Nat)) := by
    have hscale : ((onScale code 17).1 : ℚ) / (onScale code 17).2 =
        Binary64.value code / 10 ^ (size code - (17 : Nat)) := Binary64.scaledBy_eq 10 _ _ _
    rw [← hscale, Nat.floor_div_eq_div]
    rfl
  have hupper : (upper code 17).value = (lower code 17).value + 10 ^ (size code - (17 : Nat)) := by
    unfold upper lower Decimal.value
    push_cast
    ring
  have hpos : (0 : ℚ) < 10 ^ (size code - (17 : Nat)) := by positivity
  have hbelow : (lower code 17).value ≤ Binary64.value code := by
    rw [hlower, ← le_div_iff₀ hpos]
    exact Nat.floor_le (div_nonneg (by linarith) hpos.le)
  have habove : Binary64.value code < (upper code 17).value := by
    rw [hupper, hlower, ← add_one_mul, ← div_lt_iff₀ hpos]
    exact Nat.lt_floor_add_one _
  exact onGrid?_isSome ((near_end hupper hbelow habove).imp
    (readsBack_of_near (lower_exponent code 17) hrange hunit)
    (readsBack_of_near (upper_exponent code 17) hrange hunit))

/-! ## The decimal that is found -/

/-- Trailing zeros do not change the value. -/
theorem trimZeros_spec (d : Decimal) (fuel : Nat) :
    (trimZeros d fuel).value = d.value ∧ ((trimZeros d fuel).digits = 0 ↔ d.digits = 0) ∧
      d.exponent ≤ (trimZeros d fuel).exponent ∧
      (trimZeros d fuel).exponent ≤ d.exponent + fuel := by
  induction fuel generalizing d with
  | zero => exact ⟨rfl, Iff.rfl, le_refl _, by simp [trimZeros]⟩
  | succ fuel ih =>
    rw [trimZeros]
    split
    · rename_i hzero
      obtain ⟨hvalue, hdigits, hleast, hmost⟩ := ih ⟨d.digits / 10, d.exponent + 1⟩
      have hten : d.digits = d.digits / 10 * 10 := by omega
      refine ⟨hvalue.trans ?_, hdigits.trans ?_, ?_, ?_⟩
      · unfold Decimal.value
        have hcast : (d.digits : ℚ) = (d.digits / 10 : Nat) * 10 := by exact_mod_cast hten
        rw [hcast, zpow_add_one₀ (by norm_num)]
        ring
      · dsimp only
        omega
      · dsimp only at hleast
        omega
      · dsimp only at hmost
        push_cast
        omega
    · exact ⟨rfl, Iff.rfl, le_refl _, by omega⟩

/-- The shortest decimal of a number is that number, under either sign. -/
theorem ofDecimal_ofCode {code : Fin codeLimit} (h : code.val ≠ 0) :
    (ofCode code).digits ≠ 0 ∧ -450 ≤ (ofCode code).exponent ∧ (ofCode code).exponent ≤ 450 ∧
      ∀ negative, ofDecimal negative (ofCode code).digits (ofCode code).exponent =
        .finite negative code := by
  obtain ⟨hleast, hmost⟩ := size_range h
  unfold ofCode
  rw [if_neg h]
  split
  · rename_i d hfound
    obtain ⟨n, hn, hgrid⟩ := List.exists_of_findSome?_eq_some hfound
    have hfew : n < 17 := List.mem_range.1 hn
    obtain ⟨hd, hread⟩ := of_onGrid?_eq_some hgrid
    have hexponent : d.exponent = size code - (n + 1 : Nat) := by
      obtain rfl | rfl := hd
      · exact lower_exponent code (n + 1)
      · exact upper_exponent code (n + 1)
    have hread' := readsBack_iff.1 hread
    have hdigits : d.digits ≠ 0 := by
      intro hzero
      rw [hzero] at hread'
      exact h (congrArg Fin.val (Binary64.finite.inj hread').2).symm
    obtain ⟨hvalue, htrim, hfrom, hto⟩ := trimZeros_spec d 20
    have hrange : InRange d.exponent := ⟨by omega, by omega⟩
    have hrange' : InRange (trimZeros d 20).exponent := ⟨by omega, by omega⟩
    have hdigits' : (trimZeros d 20).digits ≠ 0 := fun hzero => hdigits (htrim.1 hzero)
    refine ⟨hdigits', by omega, by omega, fun negative => ?_⟩
    rw [Binary64.ofDecimal_congr hdigits' hdigits hrange' hrange hvalue]
    exact Binary64.ofDecimal_sign hdigits hrange hread' negative
  · rename_i hnone
    have hsome := onGrid?_seventeen h
    rw [List.findSome?_eq_none_iff.1 hnone 16 (List.mem_range.2 (by decide))] at hsome
    exact absurd hsome (by decide)

/-! ## Positional notation -/

/-- A decimal is written as digits before a point and digits behind it. -/
structure Decimal.IsWrittenAs (d : Decimal) (whole fraction : List Char) : Prop where
  text : d.positional = whole ++ '.' :: fraction
  whole_ne_nil : whole ≠ []
  fraction_ne_nil : fraction ≠ []
  isDigit : ∀ c ∈ whole ++ fraction, c.isDigit = true
  /-- No zero stands before other digits. -/
  lead : whole.length = 1 ∨ whole.head? ≠ some '0'
  length_le : (fraction.length : Int) ≤ max 1 (-d.exponent)
  value_eq : (VpnNode.Decimal.value (whole ++ fraction) : ℚ) * 10 ^ (-(fraction.length : Int)) =
    d.value

theorem isDigit_of_mem_zeros {n : Nat} {c : Char} (h : c ∈ zeros n) : c.isDigit = true := by
  rw [List.eq_of_mem_replicate h]
  rfl

/-- Moving the point to the left by `n` places takes back what `n` more places have added. -/
theorem value_shift {d : Decimal} {cs : List Char} {n t : Nat}
    (h : VpnNode.Decimal.value cs = d.digits * 10 ^ t) (ht : (t : Int) = d.exponent + n) :
    (VpnNode.Decimal.value cs : ℚ) * 10 ^ (-(n : Int)) = d.value := by
  unfold Decimal.value
  rw [h, Nat.cast_mul, Nat.cast_pow, Nat.cast_ofNat, ← zpow_natCast, mul_assoc,
    ← zpow_add₀ (by norm_num), ht, add_neg_cancel_right]

/-- A number below one is written with zeros behind the point. -/
theorem isWrittenAs_of_small {d : Decimal} (hzero : d.digits ≠ 0)
    (hpoint : (Nat.toDigits 10 d.digits).length + d.exponent ≤ 0) :
    d.IsWrittenAs ['0'] (zeros (-((Nat.toDigits 10 d.digits).length + d.exponent)).toNat ++
      Nat.toDigits 10 d.digits) := by
  have hlength : 0 < (Nat.toDigits 10 d.digits).length := Nat.length_toDigits_pos
  have hplaces : ((zeros (-((Nat.toDigits 10 d.digits).length + d.exponent)).toNat ++
      Nat.toDigits 10 d.digits).length : Int) = -d.exponent := by
    rw [List.length_append, zeros, List.length_replicate]
    omega
  refine ⟨?_, by simp, by simp [Nat.toDigits_ne_nil], ?_, .inl rfl, ?_, ?_⟩
  · unfold Decimal.positional Decimal.digitsAndPoint
    dsimp only
    rw [if_neg hzero, if_pos hpoint]
    rfl
  · intro c hc
    simp only [List.mem_append, List.mem_singleton] at hc
    obtain rfl | hc | hc := hc
    · rfl
    · exact isDigit_of_mem_zeros hc
    · exact isDigit_of_mem_toDigits hc
  · rw [hplaces]
    exact le_max_right _ _
  · apply value_shift (t := 0)
    · have hone : VpnNode.Decimal.value ['0'] = 0 := rfl
      rw [value_append, value_append, hone, zeros, value_replicate_zero, value_toDigits]
      omega
    · rw [hplaces, add_neg_cancel]
      rfl

/-- A whole number is written with zeros before the point and one behind it. -/
theorem isWrittenAs_of_whole {d : Decimal} (hzero : d.digits ≠ 0) (hwhole : 0 ≤ d.exponent) :
    d.IsWrittenAs (Nat.toDigits 10 d.digits ++
      zeros (((Nat.toDigits 10 d.digits).length + d.exponent).toNat -
        (Nat.toDigits 10 d.digits).length)) ['0'] := by
  have hlength : 0 < (Nat.toDigits 10 d.digits).length := Nat.length_toDigits_pos
  have hplace : (['0'] : List Char).length = 1 := rfl
  refine ⟨?_, by simp [Nat.toDigits_ne_nil], by simp, ?_, .inr ?_, le_max_left _ _, ?_⟩
  · unfold Decimal.positional Decimal.digitsAndPoint
    dsimp only
    rw [if_neg hzero, if_neg (by omega), if_pos (by omega)]
  · intro c hc
    simp only [List.mem_append, List.mem_singleton] at hc
    obtain (hc | hc) | rfl := hc
    · exact isDigit_of_mem_toDigits hc
    · exact isDigit_of_mem_zeros hc
    · rfl
  · rw [List.head?_append_of_ne_nil _ Nat.toDigits_ne_nil]
    exact fun hhead => hzero (head?_toDigits hhead)
  · apply value_shift (t := ((Nat.toDigits 10 d.digits).length + d.exponent).toNat -
        (Nat.toDigits 10 d.digits).length + 1)
    · have hone : VpnNode.Decimal.value ['0'] = 0 := rfl
      rw [value_append, value_append, hone, zeros, value_replicate_zero, value_toDigits,
        List.length_replicate, hplace]
      ring
    · rw [hplace]
      omega

/-- Any other number has its point between its digits. -/
theorem isWrittenAs_of_mixed {d : Decimal} (hzero : d.digits ≠ 0)
    (hpoint : 0 < (Nat.toDigits 10 d.digits).length + d.exponent) (hwhole : d.exponent < 0) :
    d.IsWrittenAs
      ((Nat.toDigits 10 d.digits).take ((Nat.toDigits 10 d.digits).length + d.exponent).toNat)
      ((Nat.toDigits 10 d.digits).drop ((Nat.toDigits 10 d.digits).length + d.exponent).toNat) := by
  have hplaces : (((Nat.toDigits 10 d.digits).drop
      ((Nat.toDigits 10 d.digits).length + d.exponent).toNat).length : Int) = -d.exponent := by
    rw [List.length_drop]
    omega
  refine ⟨?_, ?_, ?_, ?_, .inr ?_, ?_, ?_⟩
  · unfold Decimal.positional Decimal.digitsAndPoint
    dsimp only
    rw [if_neg hzero, if_neg (by omega), if_neg (by omega)]
  · exact List.ne_nil_of_length_pos (by rw [List.length_take]; omega)
  · exact List.ne_nil_of_length_pos (by omega)
  · intro c hc
    rw [List.take_append_drop] at hc
    exact isDigit_of_mem_toDigits hc
  · rw [List.head?_take, if_neg (by omega)]
    exact fun hhead => hzero (head?_toDigits hhead)
  · rw [hplaces]
    exact le_max_right _ _
  · apply value_shift (t := 0)
    · rw [List.take_append_drop, value_toDigits, pow_zero, mul_one]
    · rw [hplaces, add_neg_cancel]
      rfl

/-- Positional notation has the value of its decimal. -/
theorem exists_positional (d : Decimal) : ∃ whole fraction, d.IsWrittenAs whole fraction := by
  by_cases hzero : d.digits = 0
  · refine ⟨['0'], ['0'], ?_, by simp, by simp, by simp, .inl rfl, le_max_left _ _, ?_⟩
    · unfold Decimal.positional
      exact if_pos hzero
    · have hnone : VpnNode.Decimal.value (['0'] ++ ['0']) = 0 := rfl
      unfold Decimal.value
      rw [hzero, hnone, Nat.cast_zero, zero_mul, zero_mul]
  by_cases hpoint : (Nat.toDigits 10 d.digits).length + d.exponent ≤ 0
  · exact ⟨_, _, isWrittenAs_of_small hzero hpoint⟩
  by_cases hwhole : 0 ≤ d.exponent
  · exact ⟨_, _, isWrittenAs_of_whole hzero hwhole⟩
  · exact ⟨_, _, isWrittenAs_of_mixed hzero (not_le.1 hpoint) (not_le.1 hwhole)⟩

end Shortest

end VpnNode
