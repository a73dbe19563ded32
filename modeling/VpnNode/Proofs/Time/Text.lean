import VpnNode.Time.Text

/-!
# Points in time are read back

A point in time of the years 0 to 9999 is read back from its own text. A leap second must
be the last second of a minute: elsewhere its text is that of the second after it.

Main statements:

* `scanDigits_padded`: a padded number is read back.
* `scanFraction_fractionChars`: so is a fraction.
* `parse?_render`: so is a point in time.
-/

namespace VpnNode.Time

/-! ## Numbers -/

theorem isDigit_digit : ∀ n < 10, (Char.ofNat (48 + n)).isDigit = true := by decide

theorem toNat_digit : ∀ n < 10, (Char.ofNat (48 + n)).toNat = 48 + n := by decide

theorem isBlank_of_isDigit {c : Char} (hc : c.isDigit) : Text.isBlank c = false := by
  simp only [Char.isDigit, Bool.and_eq_true, decide_eq_true_eq] at hc
  have h1 : 48 ≤ c.toNat := hc.1
  have h2 : c.toNat ≤ 57 := hc.2
  unfold Text.isBlank
  simp only [Bool.or_eq_false_iff, Bool.and_eq_false_iff, decide_eq_false_iff_not,
    beq_eq_false_iff_ne]
  omega

theorem isDigit_padded (w n : Nat) : ∀ c ∈ padded w n, c.isDigit := by
  induction w generalizing n with
  | zero => simp [padded]
  | succ w ih =>
    intro c hc
    obtain hc | hc := List.mem_append.1 hc
    · exact ih _ c hc
    · rw [List.mem_singleton.1 hc]
      exact isDigit_digit _ (Nat.mod_lt n (by decide))

theorem length_padded (w n : Nat) : (padded w n).length = w := by
  induction w generalizing n with
  | zero => rfl
  | succ w ih => rw [padded, List.length_append, ih, List.length_singleton]

theorem value_padded {w n : Nat} (hn : n < Nat.pow 10 w) : Decimal.value (padded w n) = n := by
  induction w generalizing n with
  | zero =>
    obtain rfl : n = 0 := Nat.lt_one_iff.1 hn
    rfl
  | succ w ih =>
    have hlt : n < Nat.pow 10 w * 10 := hn
    have hvalue := ih (n := n / 10) (by omega)
    unfold Decimal.value at hvalue ⊢
    rw [padded, Nat.ofDigitChars_append, hvalue, Nat.ofDigitChars_cons,
      toNat_digit _ (Nat.mod_lt n (by decide))]
    show 10 * (n / 10) + (48 + n % 10 - 48) = n
    omega

/-- A padded number starts with a digit. -/
theorem exists_padded_eq (w n : Nat) : ∃ c cs, padded (w + 1) n = c :: cs ∧ c.isDigit := by
  cases heq : padded (w + 1) n with
  | nil =>
    have := length_padded (w + 1) n
    rw [heq] at this
    cases this
  | cons c cs => exact ⟨c, cs, rfl, isDigit_padded (w + 1) n c (heq ▸ List.mem_cons_self)⟩

theorem skipBlanks_padded (w n : Nat) (r : List Char) :
    skipBlanks (padded (w + 1) n ++ r) = padded (w + 1) n ++ r := by
  obtain ⟨c, cs, heq, hc⟩ := exists_padded_eq w n
  rw [heq]
  exact List.dropWhile_cons_of_neg (by simp [isBlank_of_isDigit hc])

/-- A padded number is read back. -/
theorem scanDigits_padded {w n : Nat} (hn : n < Nat.pow 10 (w + 1)) (r : List Char) :
    scanDigits (w + 1) (padded (w + 1) n ++ r) = some (n, r) := by
  have htake : ((padded (w + 1) n ++ r).take (w + 1)).takeWhile Char.isDigit =
      padded (w + 1) n := by
    rw [List.take_left' (length_padded _ _)]
    rw [← List.append_nil (padded (w + 1) n), List.takeWhile_append_of_pos (isDigit_padded _ _)]
    rfl
  have hne : (padded (w + 1) n).isEmpty = false := by
    obtain ⟨c, cs, heq, -⟩ := exists_padded_eq w n
    rw [heq]
    rfl
  unfold scanDigits
  rw [htake]
  dsimp only
  rw [hne, value_padded hn, List.drop_left]
  rfl

theorem scanPart_padded {n : Nat} (hn : n < 100) (r : List Char) :
    scanPart (padded 2 n ++ r) = some (n, r) := by
  unfold scanPart
  rw [skipBlanks_padded, scanDigits_padded hn]

theorem scanYear_padded {n : Nat} (hn : n < 10000) (r : List Char) :
    scanYear (padded 4 n ++ r) = some ((n : Int), r) := by
  obtain ⟨c, cs, heq, hc⟩ := exists_padded_eq 3 n
  have hscan := scanDigits_padded (w := 3) hn r
  unfold scanYear
  rw [skipBlanks_padded]
  rw [heq, List.cons_append] at hscan ⊢
  split
  · obtain ⟨rfl, -⟩ := List.cons.inj ‹_›
    cases hc
  · obtain ⟨rfl, -⟩ := List.cons.inj ‹_›
    cases hc
  · rw [hscan]
    rfl

theorem scanSeparator_cons {c : Char} (hc : Text.isBlank c = false) (r : List Char) :
    scanSeparator c (c :: r) = some ((), r) := by
  unfold scanSeparator skipBlanks
  rw [List.dropWhile_cons_of_neg (by simp [hc])]
  exact if_pos rfl

/-! ## Fractions -/

/-- A fraction of so many digits counts in units of their last place. -/
theorem scanFraction_padded {w n m : Nat} (hw : w + 1 ≤ 9) (hn : n < Nat.pow 10 (w + 1))
    (hm : n * Nat.pow 10 (9 - (w + 1)) = m) :
    scanFraction ('.' :: padded (w + 1) n ++ ['Z']) = some (m, ['Z']) := by
  subst hm
  have hdigits := isDigit_padded (w + 1) n
  have htake : (padded (w + 1) n ++ ['Z']).takeWhile Char.isDigit = padded (w + 1) n := by
    rw [List.takeWhile_append_of_pos hdigits]
    simp
  have hdrop : (padded (w + 1) n ++ ['Z']).dropWhile Char.isDigit = ['Z'] := by
    rw [List.dropWhile_append_of_pos hdigits]
    rfl
  have hne : (padded (w + 1) n).isEmpty = false := by
    obtain ⟨c, cs, heq, -⟩ := exists_padded_eq w n
    rw [heq]
    rfl
  have hnine : (padded (w + 1) n).take 9 = padded (w + 1) n :=
    List.take_of_length_le (by rwa [length_padded])
  show (let digits := (padded (w + 1) n ++ ['Z']).takeWhile Char.isDigit
    if digits.isEmpty then none
    else
      let nine := digits.take 9
      some (Decimal.value nine * Nat.pow 10 (9 - nine.length),
        (padded (w + 1) n ++ ['Z']).dropWhile Char.isDigit)) = _
  rw [htake, hdrop]
  dsimp only
  rw [hne, hnine, value_padded hn, length_padded]
  rfl

/-- A fraction is read back. -/
theorem scanFraction_fractionChars {n : Nat} (hn : n < 1000000000) :
    scanFraction (fractionChars n ++ ['Z']) = some (n, ['Z']) := by
  unfold fractionChars
  split
  · rename_i h
    rw [h]
    rfl
  · split
    · exact scanFraction_padded (w := 2) (by decide) (show n / 1000000 < 1000 by omega)
        (show n / 1000000 * 1000000 = n by omega)
    · split
      · exact scanFraction_padded (w := 5) (by decide) (show n / 1000 < 1000000 by omega)
          (show n / 1000 * 1000 = n by omega)
      · exact scanFraction_padded (w := 8) (by decide) hn n.mul_one

/-! ## Points in time -/

/-- The year of a point in time has four digits. -/
def IsCommon (t : Time) : Prop := 0 ≤ t.date.year ∧ t.date.year ≤ 9999

/-- Besides, a leap second is the last second of a minute. -/
def IsPlain (t : Time) : Prop := t.IsCommon ∧ (t.isLeap → t.second.val % 60 = 59)

theorem shift?_zero (t : Time) : shift? t.date t.second.val t.nanos.val 0 = some t := by
  have hs := t.second.isLt
  have hn := t.nanos.isLt
  have hmod : ((t.second.val : Int) % 86400).toNat = t.second.val := by omega
  unfold shift?
  simp only [Int.sub_zero, Option.bind_eq_bind, Option.bind_some, hmod]
  rw [if_neg (by decide), if_neg (by omega), if_neg (by omega)]
  exact dif_pos ⟨hs, hn⟩

theorem ofParts?_self (d : Date) : Date.ofParts? d.year d.month d.day = some d := dif_pos d.valid

theorem bind_of_eq {x : Option α} {a : α} (h : x = some a) (f : α → Option β) :
    (x >>= f) = f a := by
  rw [h]
  rfl

/-- The digits of a point in time: year, month and day, hour, minute and second, and the
    nanoseconds; a leap second is the sixtieth. -/
theorem ofChars?_eq {year month day hour minute second nanos : Nat} (hyear : year < 10000)
    (hmonth : month < 100) (hday : day < 100) (hhour : hour < 24) (hminute : minute < 60)
    (hsecond : second < 61) (hnanos : nanos < 1000000000) :
    ofChars? (padded 4 year ++ '-' :: (padded 2 month ++ '-' :: (padded 2 day ++
      'T' :: (padded 2 hour ++ ':' :: (padded 2 minute ++ ':' :: (padded 2 second ++
        (fractionChars nanos ++ ['Z']))))))) =
      (Date.ofParts? year month day).bind fun date =>
        shift? date (hour * 3600 + minute * 60 + (if second = 60 then 59 else second : Nat))
          (if second = 60 then nanos + 1000000000 else nanos) 0 := by
  unfold ofChars?
  refine (bind_of_eq (scanYear_padded hyear _) _).trans ?_
  refine (bind_of_eq (scanSeparator_cons (by decide) _) _).trans ?_
  refine (bind_of_eq (scanPart_padded hmonth _) _).trans ?_
  refine (bind_of_eq (scanSeparator_cons (by decide) _) _).trans ?_
  refine (bind_of_eq (scanPart_padded hday _) _).trans ?_
  refine (bind_of_eq (scanPart_padded (n := hour) (by omega) _) _).trans ?_
  refine (bind_of_eq (scanSeparator_cons (by decide) _) _).trans ?_
  refine (bind_of_eq (scanPart_padded (n := minute) (by omega) _) _).trans ?_
  refine (bind_of_eq (scanSeparator_cons (by decide) _) _).trans ?_
  refine (bind_of_eq (scanPart_padded (n := second) (by omega) _) _).trans ?_
  refine (bind_of_eq (scanFraction_fractionChars hnanos) _).trans ?_
  refine (bind_of_eq (show scanZone (skipBlanks ['Z']) = some (0, []) from rfl) _).trans ?_
  refine if_neg ?_
  simp only [skipBlanks, List.dropWhile_nil, List.isEmpty_nil, Bool.not_true, Bool.false_eq_true,
    false_or]
  omega

theorem daysInMonth_le (year : Int) (month : Nat) : daysInMonth year month ≤ 31 := by
  unfold daysInMonth
  split
  · split <;> decide
  · decide
  · decide
  · decide
  · decide
  · decide

/-- A point in time is read back from its text. -/
theorem parse?_render {t : Time} (ht : t.IsPlain) : parse? t.render = some t := by
  obtain ⟨⟨hlow, hhigh⟩, hleap⟩ := ht
  have hs := t.second.isLt
  have hn := t.nanos.isLt
  have hvalid := t.date.valid
  simp only [Date.isDay, Bool.and_eq_true, decide_eq_true_eq] at hvalid
  obtain ⟨⟨⟨-, hmonth⟩, -⟩, hday⟩ := hvalid
  have hdays := daysInMonth_le t.date.year t.date.month
  have hyear : (t.date.year.toNat : Int) = t.date.year := Int.toNat_of_nonneg hlow
  have hdate : Date.ofParts? t.date.year.toNat t.date.month t.date.day = some t.date := by
    rw [hyear]
    exact ofParts?_self t.date
  have hchars : yearChars t.date.year = padded 4 t.date.year.toNat := if_pos ⟨hlow, hhigh⟩
  unfold parse? render
  rw [String.toList_ofList]
  unfold chars
  rw [hchars]
  simp only [List.append_assoc, List.cons_append]
  cases hl : t.isLeap with
  | true =>
    -- The sixtieth second.
    have hlast := hleap hl
    have hnanos : 1000000000 ≤ t.nanos.val := of_decide_eq_true hl
    rw [if_pos rfl, ofChars?_eq (by omega) (by omega) (by omega) (by omega) (by omega) (by omega)
      (by omega), hdate, Option.bind_some, if_pos (by omega), if_pos (by omega)]
    refine Eq.trans ?_ (shift?_zero t)
    congr 1 <;> omega
  | false =>
    have hnanos : ¬ 1000000000 ≤ t.nanos.val := of_decide_eq_false hl
    rw [if_neg (by decide), ofChars?_eq (by omega) (by omega) (by omega) (by omega) (by omega)
      (by omega) (by omega), hdate, Option.bind_some, if_neg (by omega), if_neg (by omega)]
    refine Eq.trans ?_ (shift?_zero t)
    congr 1 <;> omega

/-- A leap second that is not the last second of a minute has the text of the second after
    it, so it is read as that. -/
theorem exists_parse?_render {t : Time} (ht : t.IsCommon) :
    ∃ t', parse? t.render = some t' := by
  by_cases hleap : t.isLeap → t.second.val % 60 = 59
  · exact ⟨t, parse?_render ⟨ht, hleap⟩⟩
  · obtain ⟨hl, hlast⟩ := Classical.not_imp.1 hleap
    have hnanos : 1000000000 ≤ t.nanos.val := of_decide_eq_true hl
    have hs := t.second.isLt
    have hn := t.nanos.isLt
    let t' : Time := ⟨t.date, ⟨t.second.val + 1, by omega⟩, ⟨t.nanos.val - 1000000000, by omega⟩⟩
    have hl' : t'.isLeap = false := decide_eq_false (by show ¬ 1000000000 ≤ t.nanos.val - _; omega)
    have hplain : t'.IsPlain := ⟨ht, fun h => by rw [hl'] at h; cases h⟩
    have hchars : t.chars = t'.chars := by
      have hsecond : t'.second.val = t.second.val + 1 := rfl
      have hnanos' : t'.nanos.val % 1000000000 = t.nanos.val % 1000000000 := by
        show (t.nanos.val - 1000000000) % _ = _
        omega
      have hhours : (t.second.val + 1) / 3600 = t.second.val / 3600 := by omega
      have hminutes : (t.second.val + 1) / 60 % 60 = t.second.val / 60 % 60 := by omega
      have hseconds : (t.second.val + 1) % 60 = t.second.val % 60 + 1 := by omega
      unfold chars
      rw [hl, hl']
      dsimp only
      rw [hsecond, hnanos', hhours, hminutes, hseconds]
      rfl
    refine ⟨t', ?_⟩
    rw [render, hchars]
    exact parse?_render hplain

end VpnNode.Time
