import VpnNode.Proofs.Text.Decimal
import VpnNode.Toml.Scalar

/-!
# Words are read back

A word that stands before the end of its line is read as a whole. Which kind of value it is
follows from its characters: a moment has a colon or a minus sign at one of two places, and a
whole number has no point.

Main statements:

* `readWord_append`: a word is read up to the end of its line.
* `ofWord?_toDigits`: a whole number is read back from its digits.
* `ofWord?_of_point`: what has a point is a fraction.
-/

namespace VpnNode.Toml

open Decimal (isDigit_of_mem_toDigits value_toDigits head?_toDigits)

/-! ## Words -/

theorem isWordChar_of_isDigit {c : Char} (h : c.isDigit = true) : isWordChar c = true := by
  have halpha : c.isAlphanum = true := by
    rw [Char.isAlphanum, h, Bool.or_true]
  rw [isWordChar, halpha]
  rfl

/-- A word is read up to the end of its line. -/
theorem readWord_append {word : List Char} (hword : ∀ c ∈ word, isWordChar c = true) {v : Value}
    (hv : Value.ofWord? word = some v) (r : List Char) :
    readWord (word ++ '\n' :: r) = some (v, '\n' :: r) := by
  have htake : (word ++ '\n' :: r).takeWhile isWordChar = word := by
    rw [List.takeWhile_append_of_pos hword]
    exact List.append_nil word
  have hdrop : (word ++ '\n' :: r).dropWhile isWordChar = '\n' :: r := by
    rw [List.dropWhile_append_of_pos hword]
    rfl
  unfold readWord
  dsimp only
  rw [htake, hdrop, hv]
  rfl

namespace Moment

theorem isTime_eq_false {cs : List Char} (h : cs[2]? ≠ some ':') : isTime cs = false := by
  unfold isTime dropTime
  split
  · exact absurd rfl h
  · rfl

theorem isDate_eq_false {cs : List Char} (h : cs[4]? ≠ some '-') : isDate cs = false := by
  unfold isDate
  split
  · exact absurd rfl h
  · rfl

/-- A moment has a colon or a minus sign at its place. -/
theorem isMoment_eq_false {cs : List Char} (htime : cs[2]? ≠ some ':') (hdate : cs[4]? ≠ some '-') :
    isMoment cs = false := by
  have hfront : (cs.take 10)[4]? ≠ some '-' := by
    rwa [List.getElem?_take_of_lt (by decide)]
  unfold isMoment
  rw [isTime_eq_false htime, isDate_eq_false hdate, isDate_eq_false hfront]
  split <;> rfl

end Moment

/-- So a word that has neither behind its first character is none. -/
theorem isMoment_cons {c : Char} {cs : List Char} (h : ∀ d ∈ cs, d ≠ ':' ∧ d ≠ '-') :
    Moment.isMoment (c :: cs) = false := by
  apply Moment.isMoment_eq_false
  · intro hget
    exact (h ':' (List.mem_of_getElem? (i := 1) hget)).1 rfl
  · intro hget
    exact (h '-' (List.mem_of_getElem? (i := 3) hget)).2 rfl

namespace Number

/-! ## Whole numbers -/

/-- Digits that are grouped with underscores contain nothing else. -/
theorem ungroup_eq_none {isDigit : Char → Bool} {c : Char} (hc : isDigit c = false)
    (hne : c ≠ '_') {cs : List Char} (h : c ∈ cs) : ungroup isDigit cs = none := by
  fun_induction ungroup isDigit cs with
  | case1 => exact absurd h List.not_mem_nil
  | case2 d hd =>
    rw [List.mem_singleton.1 h, hd] at hc
    exact Bool.noConfusion hc
  | case3 d hd => rfl
  | case4 d r hd ih =>
    have hr : c ∈ r := by
      simp only [List.mem_cons] at h
      obtain rfl | rfl | h := h
      · rw [hd] at hc
        exact Bool.noConfusion hc
      · exact absurd rfl hne
      · exact h
    rw [ih hr]
    rfl
  | case5 d r hd => rfl
  | case6 d r _ _ hd ih =>
    have hr : c ∈ r := by
      obtain rfl | h := List.mem_cons.1 h
      · rw [hd] at hc
        exact Bool.noConfusion hc
      · exact h
    rw [ih hr]
    rfl
  | case7 d r _ _ hd => rfl

/-- The digits of a number stand for themselves. -/
theorem decimalDigits?_toDigits (n : Nat) :
    decimalDigits? (Nat.toDigits 10 n) = some (Nat.toDigits 10 n) := by
  have hungroup : ungroup Char.isDigit (Nat.toDigits 10 n) = some (Nat.toDigits 10 n) :=
    ungroup_of_all Nat.toDigits_ne_nil
      (List.all_eq_true.2 fun _ hc => isDigit_of_mem_toDigits hc) (by decide)
  have hlead : (Nat.toDigits 10 n).length = 1 ∨ (Nat.toDigits 10 n).head? ≠ some '0' := by
    by_cases hn : n = 0
    · subst hn
      exact .inl rfl
    · exact .inr fun h => hn (head?_toDigits h)
  unfold decimalDigits?
  rw [hungroup]
  exact if_pos hlead

theorem splitSign_of_isDigit {c : Char} (h : c.isDigit = true) (cs : List Char) :
    splitSign (c :: cs) = (false, c :: cs) := by
  unfold splitSign
  split
  · rename_i heq
    rw [(List.cons.inj heq).1] at h
    exact absurd h (by decide)
  · rename_i heq
    rw [(List.cons.inj heq).1] at h
    exact absurd h (by decide)
  · rfl

/-- A whole number is read back from its digits, if it fits. -/
theorem integer?_toDigits {n : Nat} (h : isWritable n = true) :
    integer? (Nat.toDigits 10 n) = some (n : Int) := by
  have hdecimal := decimalDigits?_toDigits n
  have hvalue := value_toDigits n
  have hdigits : ∀ c ∈ Nat.toDigits 10 n, c.isDigit = true := fun _ hc => isDigit_of_mem_toDigits hc
  obtain ⟨d, more, heq, hd⟩ := Decimal.exists_toDigits_eq n
  rw [heq] at hdecimal hvalue hdigits ⊢
  have hnoBase : ∀ c r, c.isDigit = false → more ≠ c :: r := by
    rintro c r hc rfl
    have hc' := hdigits c (List.mem_cons_of_mem _ List.mem_cons_self)
    rw [hc] at hc'
    exact Bool.noConfusion hc'
  unfold integer?
  split
  · exact absurd (List.cons.inj ‹_›).2 (hnoBase _ _ (by decide))
  · exact absurd (List.cons.inj ‹_›).2 (hnoBase _ _ (by decide))
  · exact absurd (List.cons.inj ‹_›).2 (hnoBase _ _ (by decide))
  · simp only [splitSign_of_isDigit hd, hdecimal, Option.bind_eq_bind, Option.bind_some, hvalue]
    exact if_pos h

theorem decimalDigits?_of_point {cs : List Char} (h : '.' ∈ cs) : decimalDigits? cs = none := by
  unfold decimalDigits?
  rw [ungroup_eq_none (by decide) (by decide) h]
  rfl

theorem ofBase?_of_point (base : Nat) {cs : List Char} (h : '.' ∈ cs) : ofBase? base cs = none := by
  unfold ofBase?
  dsimp only
  rw [ungroup_eq_none rfl (by decide) h]
  rfl

/-- What has a point is no whole number. -/
theorem integer?_of_point {cs : List Char} (h : '.' ∈ cs) : integer? cs = none := by
  unfold integer?
  split
  · rename_i r
    have hr : '.' ∈ r := by simpa using h
    rw [ofBase?_of_point 16 hr]
    rfl
  · rename_i r
    have hr : '.' ∈ r := by simpa using h
    rw [ofBase?_of_point 8 hr]
    rfl
  · rename_i r
    have hr : '.' ∈ r := by simpa using h
    rw [ofBase?_of_point 2 hr]
    rfl
  · have hr : '.' ∈ (splitSign cs).2 := by
      unfold splitSign
      split
      · simpa using h
      · simpa using h
      · exact h
    dsimp only
    rw [decimalDigits?_of_point hr]
    rfl

end Number

/-! ## Values -/

theorem ofWord?_toDigits {n : Nat} (h : isWritable n = true) :
    Value.ofWord? (Nat.toDigits 10 n) = some (.integer n) := by
  have hinteger := Number.integer?_toDigits h
  have hdigits : ∀ c ∈ Nat.toDigits 10 n, c.isDigit = true := fun _ hc => isDigit_of_mem_toDigits hc
  obtain ⟨d, more, heq, hd⟩ := Decimal.exists_toDigits_eq n
  rw [heq] at hinteger hdigits ⊢
  have hmoment : Moment.isMoment (d :: more) = false := by
    refine isMoment_cons fun c hc => ?_
    have hc' := hdigits c (List.mem_cons_of_mem _ hc)
    exact ⟨Text.ne_of_test hc' (by decide), Text.ne_of_test hc' (by decide)⟩
  unfold Value.ofWord?
  rw [if_neg, if_neg, hmoment, hinteger]
  · rfl
  · exact fun h => Text.ne_of_test hd (by decide) (List.cons.inj h).1
  · exact fun h => Text.ne_of_test hd (by decide) (List.cons.inj h).1

/-- What has a point, and neither a colon nor a minus sign behind its first character, is a
    fraction. -/
theorem ofWord?_of_point {c : Char} {cs : List Char} (hpoint : '.' ∈ c :: cs)
    (hplain : ∀ d ∈ cs, d ≠ ':' ∧ d ≠ '-') :
    Value.ofWord? (c :: cs) = (Number.real? (c :: cs)).map .real := by
  unfold Value.ofWord?
  rw [if_neg, if_neg, isMoment_cons hplain, Number.integer?_of_point hpoint]
  · rfl
  · intro h
    rw [h] at hpoint
    exact absurd hpoint (by decide)
  · intro h
    rw [h] at hpoint
    exact absurd hpoint (by decide)

end VpnNode.Toml
