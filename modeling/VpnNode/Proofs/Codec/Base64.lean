import VpnNode.Codec.Base64
import VpnNode.Proofs.Text.Pieces

/-!
# Octets in Base64 and back

Main statements:

* `decode_encode`: octets are read back from their spelling.
* `decode_eq_ok_iff_eq_encode`: octets have one spelling.
* `trim_encode`: a spelling has no blanks that trimming could remove.
-/

namespace VpnNode.Base64

theorem isBlank_symbol : ∀ n < 64, Text.isBlank (symbol n) = false := by decide

/-- A group of three octets, whatever follows it. -/
theorem read?_group (a b c : UInt8) (r : List Char) :
    read? (symbol (a.toNat / 4) :: symbol (a.toNat % 4 * 16 + b.toNat / 16) ::
      symbol (b.toNat % 16 * 4 + c.toNat / 64) :: symbol (c.toNat % 64) :: r) =
    (read? r).map fun bs => a :: b :: c :: bs := by
  have ha := a.toNat_lt
  have hb := b.toNat_lt
  have hc := c.toNat_lt
  have hpad : symbol (c.toNat % 64) ≠ '=' := symbol_ne_pad _ (by omega)
  have hw := sextet?_symbol (a.toNat / 4) (by omega)
  have hx := sextet?_symbol (a.toNat % 4 * 16 + b.toNat / 16) (by omega)
  have hy := sextet?_symbol (b.toNat % 16 * 4 + c.toNat / 64) (by omega)
  have hz := sextet?_symbol (c.toNat % 64) (by omega)
  have e1 : a.toNat / 4 * 4 + (a.toNat % 4 * 16 + b.toNat / 16) / 16 = a.toNat := by omega
  have e2 : (a.toNat % 4 * 16 + b.toNat / 16) % 16 * 16 +
      (b.toNat % 16 * 4 + c.toNat / 64) / 4 = b.toNat := by omega
  have e3 : (b.toNat % 16 * 4 + c.toNat / 64) % 4 * 64 + c.toNat % 64 = c.toNat := by omega
  rw [read?]
  · simp only [hw, hx, hy, hz, Option.bind_eq_bind, Option.bind_some, e1, e2, e3,
      UInt8.ofNat_toNat, Option.pure_def]
    cases read? r <;> rfl
  · exact fun _ h => absurd h hpad
  · exact fun h => absurd h hpad

/-- Octets are read back from their symbols. -/
theorem read?_write (bs : List UInt8) : read? (write bs) = some bs := by
  induction bs using write.induct with
  | case1 => rfl
  | case2 a =>
    have ha := a.toNat_lt
    have hw := sextet?_symbol (a.toNat / 4) (by omega)
    have hx := sextet?_symbol (a.toNat % 4 * 16) (by omega)
    have e1 : a.toNat / 4 * 4 + a.toNat % 4 * 16 / 16 = a.toNat := by omega
    have e2 : a.toNat % 4 * 16 % 16 = 0 := by omega
    simp only [write, read?, hw, hx, Option.bind_eq_bind, Option.bind_some, e1, e2, if_true,
      UInt8.ofNat_toNat, Option.pure_def]
  | case3 a b =>
    have ha := a.toNat_lt
    have hb := b.toNat_lt
    have hpad : symbol (b.toNat % 16 * 4) ≠ '=' := symbol_ne_pad _ (by omega)
    have hw := sextet?_symbol (a.toNat / 4) (by omega)
    have hx := sextet?_symbol (a.toNat % 4 * 16 + b.toNat / 16) (by omega)
    have hy := sextet?_symbol (b.toNat % 16 * 4) (by omega)
    have e1 : a.toNat / 4 * 4 + (a.toNat % 4 * 16 + b.toNat / 16) / 16 = a.toNat := by omega
    have e2 : (a.toNat % 4 * 16 + b.toNat / 16) % 16 * 16 + b.toNat % 16 * 4 / 4 = b.toNat := by
      omega
    have e3 : b.toNat % 16 * 4 % 4 = 0 := by omega
    rw [write, read?]
    · simp only [hw, hx, hy, Option.bind_eq_bind, Option.bind_some, e1, e2, e3, if_true,
        UInt8.ofNat_toNat, Option.pure_def]
    · exact hpad
  | case4 a b c r ih => rw [write, read?_group, ih, Option.map_some]

/-- Octets are read back from their spelling. -/
theorem decode_encode (bs : List UInt8) : decode (encode bs) = .ok bs := by
  rw [decode_eq_ok_iff, encode, String.toList_ofList]
  exact read?_write bs

/-- The strict reader takes nothing but what is written. -/
theorem write_of_read? {cs : List Char} {bs : List UInt8} (h : read? cs = some bs) :
    write bs = cs := by
  have hoctet : ∀ n < 256, (UInt8.ofNat n).toNat = n := fun n hn => UInt8.toNat_ofNat_of_lt' hn
  fun_induction read? cs generalizing bs with
  | case1 =>
    cases h
    rfl
  | case2 w x =>
    simp only [Option.bind_eq_bind, Option.bind_eq_some_iff] at h
    obtain ⟨a, ha, b, hb, h⟩ := h
    obtain ⟨ha, rfl⟩ := symbol_of_sextet? ha
    obtain ⟨hb, rfl⟩ := symbol_of_sextet? hb
    split at h
    · cases h
      rw [write, hoctet _ (by omega), show (a * 4 + b / 16) / 4 = a by omega,
        show (a * 4 + b / 16) % 4 * 16 = b by omega]
    · cases h
  | case3 w x y =>
    simp only [Option.bind_eq_bind, Option.bind_eq_some_iff] at h
    obtain ⟨a, ha, b, hb, c, hc, h⟩ := h
    obtain ⟨ha, rfl⟩ := symbol_of_sextet? ha
    obtain ⟨hb, rfl⟩ := symbol_of_sextet? hb
    obtain ⟨hc, rfl⟩ := symbol_of_sextet? hc
    split at h
    · cases h
      rw [write, hoctet _ (by omega), hoctet _ (by omega),
        show (a * 4 + b / 16) / 4 = a by omega,
        show (a * 4 + b / 16) % 4 * 16 + (b % 16 * 16 + c / 4) / 16 = b by omega,
        show (b % 16 * 16 + c / 4) % 16 * 4 = c by omega]
    · cases h
  | case4 w x y z r _ _ ih =>
    simp only [Option.bind_eq_bind, Option.bind_eq_some_iff] at h
    obtain ⟨a, ha, b, hb, c, hc, d, hd, rest, hrest, h⟩ := h
    obtain ⟨ha, rfl⟩ := symbol_of_sextet? ha
    obtain ⟨hb, rfl⟩ := symbol_of_sextet? hb
    obtain ⟨hc, rfl⟩ := symbol_of_sextet? hc
    obtain ⟨hd, rfl⟩ := symbol_of_sextet? hd
    cases h
    rw [write, hoctet _ (by omega), hoctet _ (by omega), hoctet _ (by omega), ih hrest,
      show (a * 4 + b / 16) / 4 = a by omega,
      show (a * 4 + b / 16) % 4 * 16 + (b % 16 * 16 + c / 4) / 16 = b by omega,
      show (b % 16 * 16 + c / 4) % 16 * 4 + (c % 4 * 64 + d) / 64 = c by omega,
      show (c % 4 * 64 + d) % 64 = d by omega]
  | case5 => cases h

/-- Octets have one spelling. -/
theorem decode_eq_ok_iff_eq_encode {s : String} {bs : List UInt8} :
    decode s = .ok bs ↔ s = encode bs := by
  constructor
  · intro h
    rw [encode, write_of_read? (decode_eq_ok_iff.1 h), String.ofList_toList]
  · rintro rfl
    exact decode_encode bs

theorem isBlank_write (bs : List UInt8) : ∀ c ∈ write bs, Text.isBlank c = false := by
  have hpad : Text.isBlank '=' = false := by decide
  induction bs using write.induct with
  | case1 => simp [write]
  | case2 a =>
    have ha := a.toNat_lt
    simp only [write, List.forall_mem_cons]
    exact ⟨isBlank_symbol _ (by omega), isBlank_symbol _ (by omega), hpad, hpad, by simp⟩
  | case3 a b =>
    have ha := a.toNat_lt
    have hb := b.toNat_lt
    simp only [write, List.forall_mem_cons]
    exact ⟨isBlank_symbol _ (by omega), isBlank_symbol _ (by omega), isBlank_symbol _ (by omega),
      hpad, by simp⟩
  | case4 a b c r ih =>
    have ha := a.toNat_lt
    have hb := b.toNat_lt
    have hc := c.toNat_lt
    simp only [write, List.forall_mem_cons]
    exact ⟨isBlank_symbol _ (by omega), isBlank_symbol _ (by omega), isBlank_symbol _ (by omega),
      isBlank_symbol _ (by omega), ih⟩

/-- A spelling has no blanks that trimming could remove. -/
theorem trim_encode (bs : List UInt8) : Text.trim (encode bs) = encode bs :=
  Text.trim_ofList (isBlank_write bs)

end VpnNode.Base64
