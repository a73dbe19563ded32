import Mathlib.Data.List.TakeWhile
import VpnNode.Proofs.Number.Shortest
import VpnNode.Proofs.Toml.Scalar

/-!
# Fractions are read back

A fraction is written as digits, a point and more digits, so that it is read by its value, and as
the number whose shortest decimal it is.

Main statements:

* `Number.real?_writeReal`: every number is read back from its text.
* `ofWord?_writeReal`: so it is as a word.
-/

namespace VpnNode.Toml

namespace Number

theorem isGrouped_of_isDigit {c : Char} (h : c.isDigit = true) : isGrouped c = true := by
  rw [isGrouped, h]
  rfl

theorem ungroup_digits {cs : List Char} (hne : cs ≠ []) (h : ∀ c ∈ cs, c.isDigit = true) :
    ungroup Char.isDigit cs = some cs :=
  ungroup_of_all hne (List.all_eq_true.2 h) (by decide)

/-- What stands behind the point. -/
theorem tail?_point {fraction : List Char} (hne : fraction ≠ [])
    (h : ∀ c ∈ fraction, c.isDigit = true) : tail? ('.' :: fraction) = some (fraction, 0) := by
  have hgrouped : ∀ c ∈ fraction, isGrouped c = true := fun c hc => isGrouped_of_isDigit (h c hc)
  rw [tail?, List.takeWhile_eq_self_iff.2 hgrouped, List.dropWhile_eq_nil_iff.2 hgrouped,
    ungroup_digits hne h]
  rfl

/-- Digits around a point are read by their value. -/
theorem real?_of_digits {cs whole fraction : List Char} {negative : Bool}
    (hsign : splitSign cs = (negative, whole ++ '.' :: fraction)) (hwhole : whole ≠ [])
    (hfraction : fraction ≠ []) (hdigits : ∀ c ∈ whole ++ fraction, c.isDigit = true)
    (hlead : whole.length = 1 ∨ whole.head? ≠ some '0') {code : Fin Binary64.codeLimit}
    (hread : Binary64.ofDecimal negative (Decimal.value (whole ++ fraction))
      (-(fraction.length : Int)) = .finite negative code) :
    real? cs = some (.finite negative code) := by
  have hfront : ∀ c ∈ whole, c.isDigit = true := fun c hc => hdigits c (List.mem_append_left _ hc)
  have hback : ∀ c ∈ fraction, c.isDigit = true :=
    fun c hc => hdigits c (List.mem_append_right _ hc)
  have hgrouped : ∀ c ∈ whole, isGrouped c = true := fun c hc => isGrouped_of_isDigit (hfront c hc)
  have htake : (whole ++ '.' :: fraction).takeWhile isGrouped = whole := by
    rw [List.takeWhile_append_of_pos hgrouped]
    exact List.append_nil whole
  have hdrop : (whole ++ '.' :: fraction).dropWhile isGrouped = '.' :: fraction := by
    rw [List.dropWhile_append_of_pos hgrouped]
    rfl
  have hlead' : decimalDigits? whole = some whole := by
    unfold decimalDigits?
    rw [ungroup_digits hwhole hfront]
    exact if_pos hlead
  have hname : ∀ c name, c.isDigit = false → whole ++ '.' :: fraction ≠ c :: name := by
    intro c name hc heq
    obtain ⟨d, more, rfl⟩ := List.exists_cons_of_ne_nil hwhole
    exact Text.ne_of_test (hfront d List.mem_cons_self) hc (List.cons.inj heq).1
  unfold real?
  rw [hsign]
  dsimp only
  rw [if_neg (hname _ _ (by decide)), if_neg (hname _ _ (by decide)), htake, hdrop, hlead',
    tail?_point hfraction hback]
  simp only [Option.bind_eq_bind, Option.bind_some, zero_sub]
  rw [hread]

/-- The decimal of a number is read as that number, under either sign. -/
theorem ofDecimal_of_isWrittenAs {code : Fin Binary64.codeLimit} {whole fraction : List Char}
    (h : (Shortest.ofCode code).IsWrittenAs whole fraction) (negative : Bool) :
    Binary64.ofDecimal negative (Decimal.value (whole ++ fraction)) (-(fraction.length : Int)) =
      .finite negative code := by
  have hpower : (10 : ℚ) ^ (-(fraction.length : Int)) ≠ 0 := by positivity
  have hvalue := h.value_eq
  by_cases hzero : code.val = 0
  · have hnothing : (Shortest.ofCode code).value = 0 := by
      rw [hzero]
      exact zero_mul _
    rw [hnothing, mul_eq_zero, Nat.cast_eq_zero] at hvalue
    rw [hvalue.resolve_right hpower]
    exact congrArg (Binary64.finite negative) (Fin.ext hzero.symm)
  · obtain ⟨hdigits, hleast, hmost, hread⟩ := Shortest.ofDecimal_ofCode hzero
    have hlength := h.length_le
    have hne : Decimal.value (whole ++ fraction) ≠ 0 := by
      intro hnothing
      rw [hnothing, Nat.cast_zero, zero_mul] at hvalue
      have hdecimal : (Shortest.ofCode code).value ≠ 0 :=
        mul_ne_zero (Nat.cast_ne_zero.2 hdigits) (by positivity)
      exact hdecimal hvalue.symm
    rw [Binary64.ofDecimal_congr hne hdigits ⟨by omega, by omega⟩ ⟨by omega, by omega⟩ hvalue]
    exact hread negative

/-- Every number is read back from its text. -/
theorem real?_writeReal (x : Binary64) : real? (writeReal x) = some x := by
  cases x with
  | nan => rfl
  | infinite negative => cases negative <;> rfl
  | finite negative code =>
    obtain ⟨whole, fraction, h⟩ := Shortest.exists_positional (Shortest.ofCode code)
    refine real?_of_digits ?_ h.whole_ne_nil h.fraction_ne_nil h.isDigit h.lead
      (ofDecimal_of_isWrittenAs h negative)
    cases negative with
    | true =>
      rw [writeReal, h.text]
      rfl
    | false =>
      rw [writeReal, h.text]
      obtain ⟨d, more, rfl⟩ := List.exists_cons_of_ne_nil h.whole_ne_nil
      exact splitSign_of_isDigit (h.isDigit d List.mem_cons_self) _

end Number

/-! ## Values -/

/-- The text of a number is one word, and a fraction if it is finite. -/
theorem ofWord?_writeReal (x : Binary64) : Value.ofWord? (Number.writeReal x) = some (.real x) := by
  have hread := Number.real?_writeReal x
  cases x with
  | nan => rfl
  | infinite negative => cases negative <;> rfl
  | finite negative code =>
    obtain ⟨whole, fraction, h⟩ := Shortest.exists_positional (Shortest.ofCode code)
    have hplain : ∀ c ∈ whole ++ '.' :: fraction, c ≠ ':' ∧ c ≠ '-' := by
      intro c hc
      simp only [List.mem_append, List.mem_cons] at hc
      obtain hc | rfl | hc := hc
      · have hdigit := h.isDigit c (List.mem_append_left _ hc)
        exact ⟨Text.ne_of_test hdigit (by decide), Text.ne_of_test hdigit (by decide)⟩
      · decide
      · have hdigit := h.isDigit c (List.mem_append_right _ hc)
        exact ⟨Text.ne_of_test hdigit (by decide), Text.ne_of_test hdigit (by decide)⟩
    cases negative with
    | true =>
      rw [Number.writeReal, h.text] at hread ⊢
      rw [ofWord?_of_point (by simp) hplain, hread]
      rfl
    | false =>
      rw [Number.writeReal, h.text] at hread ⊢
      obtain ⟨d, more, rfl⟩ := List.exists_cons_of_ne_nil h.whole_ne_nil
      rw [List.cons_append] at hread hplain ⊢
      rw [ofWord?_of_point (by simp) fun c hc => hplain c (List.mem_cons_of_mem _ hc), hread]
      rfl

theorem forall_isWordChar_writeReal (x : Binary64) :
    ∀ c ∈ Number.writeReal x, isWordChar c = true := by
  have hfinite : ∀ code, ∀ c ∈ (Shortest.ofCode code).positional, isWordChar c = true := by
    intro code c hc
    obtain ⟨whole, fraction, hwritten⟩ := Shortest.exists_positional (Shortest.ofCode code)
    rw [hwritten.text] at hc
    simp only [List.mem_append, List.mem_cons] at hc
    obtain hc | rfl | hc := hc
    · exact isWordChar_of_isDigit (hwritten.isDigit c (List.mem_append_left _ hc))
    · decide
    · exact isWordChar_of_isDigit (hwritten.isDigit c (List.mem_append_right _ hc))
  unfold Number.writeReal
  split
  · exact List.all_eq_true.1 rfl
  · exact List.all_eq_true.1 rfl
  · exact List.all_eq_true.1 rfl
  · exact hfinite _
  · exact List.forall_mem_cons.2 ⟨by decide, hfinite _⟩

end VpnNode.Toml
