import VpnNode.Text.Utf8

/-!
# Texts and their octets

Main statements:

* `decode?_octets`: every text is read back from its octets.
* `octets_of_ascii`, `ascii_of_octets`: a text is ASCII if its octets are, and has then one
  octet for each character.
-/

namespace VpnNode.Utf8

theorem octets_ofList (cs : List Char) :
    octets (String.ofList cs) = cs.flatMap String.utf8EncodeChar := by
  show (String.ofList cs).toByteArray.data.toList = _
  rw [String.toByteArray_ofList]
  show (cs.flatMap String.utf8EncodeChar).toByteArray.data.toList = _
  rw [List.data_toByteArray]

/-! ## One character -/

theorem continuation_zero (acc taken lo hi : Nat) (r : List UInt8) :
    continuation acc 0 taken lo hi r = .char (Char.ofNat acc) taken := by
  cases r <;> rfl

theorem toNat_ofNat {n : Nat} (h : n < 256) : (UInt8.ofNat n).toNat = n :=
  UInt8.toNat_ofNat_of_lt' h

theorem continuation_succ {acc need taken lo hi : Nat} {n : Nat} (h : n < 256) (hlo : lo ≤ n)
    (hhi : n ≤ hi) (r : List UInt8) :
    continuation acc (need + 1) taken lo hi (UInt8.ofNat n :: r) =
      continuation (acc * 64 + n % 64) need (taken + 1) 0x80 0xBF r := by
  rw [continuation, toNat_ofNat h, if_pos ⟨hlo, hhi⟩]

section Lengths

variable {n : Nat} (r : List UInt8)

theorem front_one (h : n < 0x80) : front (UInt8.ofNat n) r = .char (Char.ofNat n) 0 := by
  unfold front
  dsimp only
  rw [toNat_ofNat (by omega), if_pos h]

theorem front_two (hlo : 0x80 ≤ n) (hhi : n < 0x800) :
    front (UInt8.ofNat (n / 64 % 32 + 192)) (UInt8.ofNat (n % 64 + 128) :: r) =
      .char (Char.ofNat n) 1 := by
  have hn : (n / 64 % 32 + 192) % 32 * 64 + (n % 64 + 128) % 64 = n := by omega
  unfold front
  dsimp only
  rw [toNat_ofNat (by omega), if_neg (by omega), if_pos (by omega),
    continuation_succ (by omega) (by omega) (by omega), continuation_zero, hn]

/-- The range of the second octet excludes shorter characters and surrogates. -/
theorem front_three (hlo : 0x800 ≤ n) (hhi : n < 0x10000) (hvalid : n < 0xD800 ∨ 0xDFFF < n) :
    front (UInt8.ofNat (n / 4096 % 16 + 224))
      (UInt8.ofNat (n / 64 % 64 + 128) :: UInt8.ofNat (n % 64 + 128) :: r) =
      .char (Char.ofNat n) 2 := by
  have hn : ((n / 4096 % 16 + 224) % 16 * 64 + (n / 64 % 64 + 128) % 64) * 64 +
      (n % 64 + 128) % 64 = n := by omega
  have hrest : ∀ lo hi, lo ≤ n / 64 % 64 + 128 → n / 64 % 64 + 128 ≤ hi →
      continuation ((n / 4096 % 16 + 224) % 16) 2 0 lo hi
        (UInt8.ofNat (n / 64 % 64 + 128) :: UInt8.ofNat (n % 64 + 128) :: r) =
      .char (Char.ofNat n) 2 := by
    intro lo hi hlo hhi
    rw [continuation_succ (by omega) hlo hhi, continuation_succ (by omega) (by omega) (by omega),
      continuation_zero, hn]
  unfold front
  dsimp only
  rw [toNat_ofNat (by omega), if_neg (by omega), if_neg (by omega)]
  split
  · exact hrest _ _ (by omega) (by omega)
  split
  · exact hrest _ _ (by omega) (by omega)
  · rw [if_pos (by omega)]
    exact hrest _ _ (by omega) (by omega)

/-- The range of the second octet excludes shorter characters and what is beyond the last. -/
theorem front_four (hlo : 0x10000 ≤ n) (hhi : n < 0x110000) :
    front (UInt8.ofNat (n / 262144 % 8 + 240))
      (UInt8.ofNat (n / 4096 % 64 + 128) :: UInt8.ofNat (n / 64 % 64 + 128) ::
        UInt8.ofNat (n % 64 + 128) :: r) = .char (Char.ofNat n) 3 := by
  have hn : (((n / 262144 % 8 + 240) % 8 * 64 + (n / 4096 % 64 + 128) % 64) * 64 +
      (n / 64 % 64 + 128) % 64) * 64 + (n % 64 + 128) % 64 = n := by omega
  have hrest : ∀ lo hi, lo ≤ n / 4096 % 64 + 128 → n / 4096 % 64 + 128 ≤ hi →
      continuation ((n / 262144 % 8 + 240) % 8) 3 0 lo hi
        (UInt8.ofNat (n / 4096 % 64 + 128) :: UInt8.ofNat (n / 64 % 64 + 128) ::
          UInt8.ofNat (n % 64 + 128) :: r) = .char (Char.ofNat n) 3 := by
    intro lo hi hlo hhi
    rw [continuation_succ (by omega) hlo hhi, continuation_succ (by omega) (by omega) (by omega),
      continuation_succ (by omega) (by omega) (by omega), continuation_zero, hn]
  unfold front
  dsimp only
  rw [toNat_ofNat (by omega), if_neg (by omega), if_neg (by omega), if_neg (by omega),
    if_neg (by omega), if_neg (by omega)]
  split
  · exact hrest _ _ (by omega) (by omega)
  split
  · exact hrest _ _ (by omega) (by omega)
  · rw [if_pos (by omega)]
    exact hrest _ _ (by omega) (by omega)

end Lengths

/-- The octets of a character are read as just that character, whatever follows. -/
theorem front_encode (c : Char) (r : List UInt8) :
    ∃ b bs, String.utf8EncodeChar c = b :: bs ∧ front b (bs ++ r) = .char c bs.length := by
  have hvalid : c.val.toNat < 0xD800 ∨ 0xDFFF < c.val.toNat ∧ c.val.toNat < 0x110000 := c.valid
  have hchar : Char.ofNat c.val.toNat = c := Char.ofNat_toNat c
  unfold String.utf8EncodeChar
  dsimp only
  split
  · refine ⟨_, _, rfl, ?_⟩
    rw [List.nil_append, front_one r (by omega), hchar]
    rfl
  split
  · refine ⟨_, _, rfl, ?_⟩
    rw [List.cons_append, List.nil_append, front_two r (by omega) (by omega), hchar]
    rfl
  split
  · refine ⟨_, _, rfl, ?_⟩
    rw [List.cons_append, List.cons_append, List.nil_append,
      front_three r (by omega) (by omega) (by omega), hchar]
    rfl
  · refine ⟨_, _, rfl, ?_⟩
    rw [List.cons_append, List.cons_append, List.cons_append, List.nil_append,
      front_four r (by omega) (by omega), hchar]
    rfl

/-! ## Texts -/

/-- The octets of a text consist of the octets of its characters. -/
theorem mapM_fronts (cs : List Char) :
    (fronts (cs.flatMap String.utf8EncodeChar)).mapM Front.char? = some cs := by
  induction cs with
  | nil => simp [fronts]
  | cons c cs ih =>
    obtain ⟨b, bs, hbs, hfront⟩ := front_encode c (cs.flatMap String.utf8EncodeChar)
    rw [List.flatMap_cons, hbs, List.cons_append, fronts, hfront]
    show (Front.char c bs.length :: fronts (List.drop bs.length _)).mapM Front.char? = _
    rw [List.drop_left, List.mapM_cons, ih]
    rfl

/-- Every text is read back from its octets. -/
theorem decode?_octets (s : String) : decode? (octets s) = some s := by
  have hcs := mapM_fronts s.toList
  rw [← octets_ofList, String.ofList_toList] at hcs
  rw [decode?, hcs, Option.map_some, String.ofList_toList]

/-! ## ASCII -/

theorem encode_of_ascii {c : Char} (h : c.toNat < 128) :
    String.utf8EncodeChar c = [UInt8.ofNat c.toNat] := by
  have hle : c.val.toNat ≤ 0x7f := Nat.le_of_lt_succ h
  unfold String.utf8EncodeChar
  dsimp only
  rw [if_pos hle]
  rfl

/-- A character that is not ASCII has an octet that is not either. -/
theorem exists_encode_ge {c : Char} (h : 128 ≤ c.toNat) :
    ∃ b ∈ String.utf8EncodeChar c, 128 ≤ b.toNat := by
  have hgt : ¬ c.val.toNat ≤ 0x7f := Nat.not_le_of_gt h
  unfold String.utf8EncodeChar
  dsimp only
  rw [if_neg hgt]
  split
  · exact ⟨_, List.mem_cons_self, by rw [toNat_ofNat (by omega)]; omega⟩
  split
  · exact ⟨_, List.mem_cons_self, by rw [toNat_ofNat (by omega)]; omega⟩
  · exact ⟨_, List.mem_cons_self, by rw [toNat_ofNat (by omega)]; omega⟩

/-- A text of ASCII has one octet for each character. -/
theorem octets_of_ascii {cs : List Char} (h : ∀ c ∈ cs, c.toNat < 128) :
    octets (String.ofList cs) = cs.map fun c => UInt8.ofNat c.toNat := by
  rw [octets_ofList]
  induction cs with
  | nil => rfl
  | cons c cs ih =>
    obtain ⟨hc, hcs⟩ := List.forall_mem_cons.1 h
    rw [List.flatMap_cons, List.map_cons, encode_of_ascii hc, ih hcs]
    rfl

/-- A text is ASCII if its octets are. -/
theorem ascii_of_octets {s : String} (h : ∀ b ∈ octets s, b.toNat < 128) :
    ∀ c ∈ s.toList, c.toNat < 128 := by
  intro c hc
  refine Nat.lt_of_not_le fun hge => ?_
  obtain ⟨b, hb, hbge⟩ := exists_encode_ge hge
  refine absurd (h b ?_) (Nat.not_lt_of_ge hbge)
  rw [← String.ofList_toList (s := s), octets_ofList]
  exact List.mem_flatMap.2 ⟨c, hc, hb⟩

end VpnNode.Utf8
