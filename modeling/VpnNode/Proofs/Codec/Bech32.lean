import VpnNode.Codec.Bech32
import VpnNode.Proofs.Codec.Bits
import VpnNode.Proofs.Codec.Form
import VpnNode.Proofs.Result
import VpnNode.Proofs.Text.Case
import VpnNode.Proofs.Text.Utf8

/-!
# Octets in Bech32 and back

The residue of symbols is linear: exclusive or of two runs of symbols gives that of their
residues. So six symbols at the end change the residue by just the number that they spell,
and the checksum is the number that brings it to where it should be.

Main statements:

* `residue_checksum`: with its checksum every run of symbols has the right residue.
* `ofSymbols?_toSymbols`: octets are read back from their symbols.
* `exists_readableCase_iff`: what may stand before the separator.
* `decode_textOf`: a readable part, in lower case, and octets are read back from their text.
-/

namespace VpnNode.Bech32

/-! ## The checksum -/

/-- Exclusive or goes through a choice of two values of which one is zero. -/
theorem pick_xor (a b i g : Nat) :
    (if (a ^^^ b).testBit i then g else 0) =
      (if a.testBit i then g else 0) ^^^ (if b.testBit i then g else 0) := by
  rw [Nat.testBit_xor]
  cases a.testBit i <;> cases b.testBit i <;> simp

theorem reduction_xor (a b : Nat) : reduction (a ^^^ b) = reduction a ^^^ reduction b := by
  simp only [reduction, pick_xor]
  ac_rfl

theorem xor_lt {a b : Nat} (ha : a < 1 <<< 30) (hb : b < 1 <<< 30) : a ^^^ b < 1 <<< 30 :=
  Nat.xor_lt_two_pow (n := 30) ha hb

theorem reduction_lt (top : Nat) : reduction top < 1 <<< 30 := by
  have hpick : ∀ i g, g < 1 <<< 30 → (if top.testBit i then g else 0) < 1 <<< 30 := by
    intro i g hg
    split
    · exact hg
    · decide
  unfold reduction
  refine xor_lt (xor_lt (xor_lt (xor_lt ?_ ?_) ?_) ?_) ?_ <;> exact hpick _ _ (by decide)

theorem residueStep_xor (c d v w : Nat) :
    residueStep (c ^^^ d) (v ^^^ w) = residueStep c v ^^^ residueStep d w := by
  have hlow : (c ^^^ d) % 0x2000000 * 32 = (c % 0x2000000 * 32) ^^^ (d % 0x2000000 * 32) := by
    have h := Nat.xor_mod_two_pow (a := c) (b := d) (n := 25)
    have hshift := Nat.shiftLeft_xor_distrib (i := 5) (a := c % 2 ^ 25) (b := d % 2 ^ 25)
    rw [← h, Nat.shiftLeft_eq, Nat.shiftLeft_eq, Nat.shiftLeft_eq] at hshift
    exact hshift
  unfold residueStep
  rw [hlow, Nat.shiftRight_xor_distrib, reduction_xor]
  ac_rfl

theorem residueStep_lt (c : Nat) {v : Nat} (hv : v < 1 <<< 30) : residueStep c v < 1 <<< 30 := by
  refine xor_lt (xor_lt ?_ hv) (reduction_lt _)
  omega

/-- The residue of what is there already, and that of what is appended, come together by
    exclusive or. -/
theorem foldl_residueStep_xor (vs : List Nat) (s t : Nat) :
    vs.foldl residueStep (s ^^^ t) =
      (List.replicate vs.length 0).foldl residueStep s ^^^ vs.foldl residueStep t := by
  induction vs generalizing s t with
  | nil => rfl
  | cons v vs ih =>
    rw [List.foldl_cons, List.foldl_cons, List.length_cons, List.replicate_succ, List.foldl_cons,
      ← ih, ← residueStep_xor, Nat.zero_xor]

/-- The next symbol of a number is appended to those before. -/
theorem residueStep_digit {c : Nat} (hc : c < 1 <<< 30) (place : Nat) :
    residueStep (c >>> (place + 5)) ((c >>> place) % 32) = c >>> place := by
  have hle : c >>> (place + 5) ≤ c / 2 ^ 5 := by
    rw [Nat.add_comm, Nat.shiftRight_add, Nat.shiftRight_eq_div_pow c 5]
    exact Nat.shiftRight_le _ _
  have hlt : c >>> (place + 5) < 0x2000000 := by omega
  have htop : c >>> (place + 5) >>> 25 = 0 :=
    (Nat.shiftRight_eq_div_pow _ 25).trans (Nat.div_eq_of_lt hlt)
  have hzero : reduction 0 = 0 := rfl
  unfold residueStep
  rw [htop, hzero, Nat.xor_zero, Nat.mod_eq_of_lt hlt, Nat.shiftRight_add]
  refine Nat.eq_of_testBit_eq fun i => ?_
  rw [Nat.testBit_xor, show 32 = 2 ^ 5 from rfl, Nat.testBit_mul_two_pow, Nat.testBit_mod_two_pow,
    Nat.testBit_shiftRight]
  obtain hi | hi := Nat.lt_or_ge i 5
  · simp [hi, Nat.not_le_of_lt hi]
  · simp [hi, Nat.not_lt_of_ge hi, Nat.add_sub_cancel' hi]

/-- Six symbols of a number, one after the other, have the number as their residue. -/
theorem foldl_digits {c : Nat} (hc : c < 1 <<< 30) :
    ([25, 20, 15, 10, 5, 0].map fun place => (c >>> place) % 32).foldl residueStep 0 = c := by
  have hstart : c >>> 30 = 0 := (Nat.shiftRight_eq_div_pow c 30).trans (Nat.div_eq_of_lt hc)
  have hstep := residueStep_digit hc
  have hfirst : residueStep 0 (c >>> 25 % 32) = c >>> 25 := by
    have h : residueStep (c >>> 30) (c >>> 25 % 32) = c >>> 25 := hstep 25
    rwa [hstart] at h
  simp only [List.map_cons, List.map_nil, List.foldl_cons, List.foldl_nil]
  rw [hfirst, hstep 20, hstep 15, hstep 10, hstep 5]
  exact hstep 0

/-- With its checksum every run of symbols has the right residue. -/
theorem residue_checksum (part : List Char) (data : List Nat) :
    residue (expand part ++ (data ++ checksum part data)) = target := by
  let s := residue (expand part ++ data)
  let p := (List.replicate 6 0).foldl residueStep s
  have hp : p < 1 <<< 30 := by
    show ((List.replicate 5 0 ++ [0]).foldl residueStep s) < 1 <<< 30
    rw [List.foldl_append]
    exact residueStep_lt _ (by decide)
  have hc : p ^^^ target < 1 <<< 30 := xor_lt hp (by decide)
  have hchecksum : checksum part data =
      [25, 20, 15, 10, 5, 0].map fun place => ((p ^^^ target) >>> place) % 32 := by
    unfold checksum residue
    rw [List.foldl_append]
    rfl
  calc residue (expand part ++ (data ++ checksum part data))
      = (checksum part data).foldl residueStep (s ^^^ 0) := by
        rw [Nat.xor_zero, ← List.append_assoc, residue, List.foldl_append]
        rfl
    _ = p ^^^ (checksum part data).foldl residueStep 0 := foldl_residueStep_xor _ _ _
    _ = p ^^^ (p ^^^ target) := by rw [hchecksum, foldl_digits hc]
    _ = target := by rw [← Nat.xor_assoc, Nat.xor_self, Nat.zero_xor]

/-! ## Octets and symbols -/

theorem length_fill {g : List Bool} (hg : g.length ≤ 5) :
    (g ++ List.replicate (5 - g.length) false).length = 5 := by
  rw [List.length_append, List.length_replicate]
  omega

theorem toSymbols_lt (bs : List UInt8) : ∀ v ∈ toSymbols bs, v < 32 := by
  intro v hv
  obtain ⟨g, hg, rfl⟩ := List.mem_map.1 hv
  exact Bits.ofBits_lt (length_fill (Bits.length_of_mem_chunks hg))

theorem checksum_lt (part : List Char) (data : List Nat) : ∀ v ∈ checksum part data, v < 32 := by
  intro v hv
  obtain ⟨place, -, rfl⟩ := List.mem_map.1 hv
  exact Nat.mod_lt _ (by decide)

/-- The bits of octets, and fewer than a symbol's after them. -/
theorem exists_bits_toSymbols (bs : List UInt8) : ∃ k ≤ 4,
    (toSymbols bs).flatMap (fun v => Bits.toBits 5 v) =
      (bs.flatMap fun b => Bits.toBits 8 b.toNat) ++ List.replicate k false := by
  obtain ⟨k, hk, hfill⟩ := Bits.exists_fill 4 (bs.flatMap fun b => Bits.toBits 8 b.toNat)
  refine ⟨k, hk, ?_⟩
  rw [← hfill, toSymbols, List.flatMap_map, List.flatMap_def, List.flatMap_def]
  refine congrArg List.flatten (List.map_congr_left fun g hg => ?_)
  exact Bits.toBits_ofBits (length_fill (Bits.length_of_mem_chunks hg))

theorem length_bits (bs : List UInt8) :
    (bs.flatMap fun b => Bits.toBits 8 b.toNat).length = 8 * bs.length := by
  induction bs with
  | nil => rfl
  | cons b bs ih =>
    rw [List.flatMap_cons, List.length_append, Bits.length_toBits, ih, List.length_cons]
    omega

/-- Octets are read back from their bits. -/
theorem map_ofBits_chunks (bs : List UInt8) :
    (Bits.chunks 7 (bs.flatMap fun b => Bits.toBits 8 b.toNat)).map
      (fun g => UInt8.ofNat (Bits.ofBits g)) = bs := by
  have hlength : ∀ b : UInt8, (Bits.toBits 8 b.toNat).length = 7 + 1 :=
    fun b => Bits.length_toBits 8 _
  rw [Bits.chunks_flatMap hlength, List.map_map]
  refine (List.map_congr_left fun b _ => ?_).trans (List.map_id bs)
  have hb : b.toNat < 1 <<< 8 := by
    rw [Nat.shiftLeft_eq, Nat.one_mul]
    exact b.toNat_lt
  rw [Function.comp_apply, Bits.ofBits_toBits hb, UInt8.ofNat_toNat, id]

/-- Octets are read back from their symbols. -/
theorem ofSymbols?_toSymbols (bs : List UInt8) : ofSymbols? (toSymbols bs) = some bs := by
  obtain ⟨k, hk, hbits⟩ := exists_bits_toSymbols bs
  have hoctets := length_bits bs
  have hwhole : (8 * bs.length + k) / 8 * 8 = 8 * bs.length := by omega
  unfold ofSymbols?
  dsimp only
  rw [hbits, List.length_append, List.length_replicate, hoctets, hwhole, List.drop_left' hoctets,
    List.take_left' hoctets, map_ofBits_chunks, if_pos]
  rw [List.length_replicate]
  exact ⟨by omega, by simp⟩

/-! ## The readable part -/

/-- Is an octet a lower-case letter? -/
def IsLower (b : UInt8) : Prop := 97 ≤ b ∧ b ≤ 122

/-- Is an octet an upper-case letter? -/
def IsUpper (b : UInt8) : Prop := 65 ≤ b ∧ b ≤ 90

instance (b : UInt8) : Decidable (IsUpper b) := inferInstanceAs (Decidable (_ ∧ _))

/-- What may stand before the separator: 1 to 83 visible characters of ASCII, the separator
    among them, without letters of both cases. -/
structure IsReadable (part : String) : Prop where
  length_pos : 1 ≤ (Utf8.octets part).length
  length_le : (Utf8.octets part).length ≤ 83
  visible : ∀ b ∈ Utf8.octets part, 33 ≤ b ∧ b ≤ 126
  one_case : ¬ ((∃ b ∈ Utf8.octets part, IsLower b) ∧ ∃ b ∈ Utf8.octets part, IsUpper b)

theorem isLower_iff (b : UInt8) : (Char.ofNat b.toNat).isLower ↔ IsLower b :=
  Form.forall_octet (P := fun b => (Char.ofNat b.toNat).isLower ↔ 97 ≤ b ∧ b ≤ 122)
    (by decide +kernel) b

theorem isUpper_iff (b : UInt8) : (Char.ofNat b.toNat).isUpper ↔ IsUpper b :=
  Form.forall_octet (P := fun b => (Char.ofNat b.toNat).isUpper ↔ 65 ≤ b ∧ b ≤ 90)
    (by decide +kernel) b

theorem IsLower.not_isUpper {b : UInt8} (h : IsLower b) : ¬ IsUpper b := by
  obtain ⟨h1, h2⟩ := h
  rintro ⟨h3, h4⟩
  exact absurd (UInt8.le_trans h1 h4) (by decide)

/-- What may follow after letters of a case. -/
def LetterCase.Admits (bs : List UInt8) : LetterCase → Prop
  | .none => (∀ b ∈ bs, ¬ IsLower b) ∨ ∀ b ∈ bs, ¬ IsUpper b
  | .lower => ∀ b ∈ bs, ¬ IsUpper b
  | .upper => ∀ b ∈ bs, ¬ IsLower b

theorem next?_of_lower {b : UInt8} (h : IsLower b) (seen : LetterCase) :
    seen.next? (Char.ofNat b.toNat) = if seen = .upper then Option.none else some .lower :=
  if_pos ((isLower_iff b).2 h)

theorem next?_of_upper {b : UInt8} (h : IsUpper b) (seen : LetterCase) :
    seen.next? (Char.ofNat b.toNat) = if seen = .lower then Option.none else some .upper := by
  unfold LetterCase.next?
  rw [if_neg (fun hl => IsLower.not_isUpper ((isLower_iff b).1 hl) h), if_pos ((isUpper_iff b).2 h)]

theorem next?_of_other {b : UInt8} (hl : ¬ IsLower b) (hu : ¬ IsUpper b) (seen : LetterCase) :
    seen.next? (Char.ofNat b.toNat) = some seen := by
  unfold LetterCase.next?
  rw [if_neg (fun h => hl ((isLower_iff b).1 h)), if_neg (fun h => hu ((isUpper_iff b).1 h))]

/-- A step of the scan goes on exactly if the rest may follow. -/
theorem admits_cons_iff (b : UInt8) (bs : List UInt8) (seen : LetterCase) :
    seen.Admits (b :: bs) ↔ ∃ s, seen.next? (Char.ofNat b.toNat) = some s ∧ s.Admits bs := by
  by_cases hl : IsLower b
  · have hu := hl.not_isUpper
    rw [next?_of_lower hl]
    cases seen <;> simp [LetterCase.Admits, hl, hu]
  · by_cases hu : IsUpper b
    · rw [next?_of_upper hu]
      cases seen <;> simp [LetterCase.Admits, hl, hu]
    · rw [next?_of_other hl hu]
      cases seen <;> simp [LetterCase.Admits, hl, hu]

theorem exists_scanReadable_iff (bs : List UInt8) (seen : LetterCase) :
    (∃ s, scanReadable seen bs = .ok s) ↔ (∀ b ∈ bs, 33 ≤ b ∧ b ≤ 126) ∧ seen.Admits bs := by
  induction bs generalizing seen with
  | nil => cases seen <;> simp [scanReadable, LetterCase.Admits]
  | cons b bs ih =>
    rw [admits_cons_iff, List.forall_mem_cons, scanReadable]
    by_cases hb : b < 33 ∨ 126 < b
    · have hnot : ¬ (33 ≤ b ∧ b ≤ 126) := fun h =>
        hb.elim (fun hlt => UInt8.not_lt.2 h.1 hlt) fun hlt => UInt8.not_lt.2 h.2 hlt
      rw [if_pos hb]
      simp [hnot]
    · have hvisible : 33 ≤ b ∧ b ≤ 126 :=
        ⟨UInt8.not_lt.1 fun h => hb (.inl h), UInt8.not_lt.1 fun h => hb (.inr h)⟩
      rw [if_neg hb]
      cases hnext : seen.next? (Char.ofNat b.toNat) with
      | none => simp
      | some s =>
        dsimp only
        rw [ih]
        simp [hvisible]

theorem exists_readableCase_iff (part : String) :
    (∃ s, readableCase part = .ok s) ↔ IsReadable part := by
  have hcase : LetterCase.none.Admits (Utf8.octets part) ↔
      ¬ ((∃ b ∈ Utf8.octets part, IsLower b) ∧ ∃ b ∈ Utf8.octets part, IsUpper b) := by
    rw [LetterCase.Admits, Classical.not_and_iff_not_or_not]
    simp only [not_exists, not_and]
  unfold readableCase
  dsimp only
  by_cases hlength : (Utf8.octets part).isEmpty ∨ 83 < (Utf8.octets part).length
  · rw [if_pos hlength]
    refine ⟨fun ⟨s, hs⟩ => (by cases hs), fun h => ?_⟩
    obtain hempty | hlong := hlength
    · have hpos := h.length_pos
      rw [List.isEmpty_iff.1 hempty] at hpos
      exact absurd hpos (by simp)
    · exact absurd h.length_le (Nat.not_le_of_lt hlong)
  · rw [if_neg hlength, exists_scanReadable_iff, hcase]
    rw [not_or, Bool.not_eq_true, List.isEmpty_eq_false_iff, Nat.not_lt] at hlength
    exact ⟨fun ⟨hvisible, hcase⟩ => ⟨List.length_pos_iff.2 hlength.1, hlength.2, hvisible, hcase⟩,
      fun h => ⟨h.visible, h.one_case⟩⟩

/-! ## Lower case -/

/-- Visible characters stay visible in lower case, and no letter is in upper case then. -/
theorem toLower_of_visible : ∀ n < 127, 33 ≤ n →
    (Char.ofNat n).toLower.toNat < 128 ∧ 33 ≤ UInt8.ofNat (Char.ofNat n).toLower.toNat ∧
      UInt8.ofNat (Char.ofNat n).toLower.toNat ≤ 126 ∧
      ¬ IsUpper (UInt8.ofNat (Char.ofNat n).toLower.toNat) := by
  decide +kernel

/-- A readable part has one visible character for each octet. -/
theorem IsReadable.characters {part : String} (h : IsReadable part) :
    Utf8.octets part = part.toList.map (fun c => UInt8.ofNat c.toNat) ∧
      ∀ c ∈ part.toList, 33 ≤ c.toNat ∧ c.toNat < 127 := by
  have hascii := Utf8.ascii_of_octets fun b hb =>
    Nat.lt_of_le_of_lt (UInt8.le_iff_toNat_le.1 (h.visible b hb).2) (by decide)
  have hoctets : Utf8.octets part = part.toList.map fun c => UInt8.ofNat c.toNat := by
    rw [← Utf8.octets_of_ascii hascii, String.ofList_toList]
  refine ⟨hoctets, fun c hc => ?_⟩
  have hmem : UInt8.ofNat c.toNat ∈ Utf8.octets part := by
    rw [hoctets]
    exact List.mem_map_of_mem hc
  obtain ⟨hlo, hhi⟩ := h.visible _ hmem
  rw [UInt8.le_iff_toNat_le, Utf8.toNat_ofNat (by have := hascii c hc; omega)] at hlo hhi
  exact ⟨hlo, Nat.lt_succ_of_le hhi⟩

/-- What can be said of every visible character holds of those of a readable part. -/
theorem IsReadable.lower_characters {part : String} (h : IsReadable part) :
    ∀ c ∈ part.toList, c.toLower.toNat < 128 ∧ 33 ≤ UInt8.ofNat c.toLower.toNat ∧
      UInt8.ofNat c.toLower.toNat ≤ 126 ∧ ¬ IsUpper (UInt8.ofNat c.toLower.toNat) := by
  intro c hc
  obtain ⟨hlo, hhi⟩ := h.characters.2 c hc
  have hc := toLower_of_visible c.toNat hhi hlo
  rwa [Char.ofNat_toNat] at hc

theorem IsReadable.octets_asciiLower {part : String} (h : IsReadable part) :
    Utf8.octets (Text.asciiLower part) =
      part.toList.map fun c => UInt8.ofNat c.toLower.toNat := by
  rw [Text.asciiLower, Utf8.octets_of_ascii, List.map_map]
  · rfl
  · intro c hc
    obtain ⟨c, hmem, rfl⟩ := List.mem_map.1 hc
    exact (h.lower_characters c hmem).1

/-- In lower case a readable part is one still, without letters in upper case. -/
theorem IsReadable.asciiLower {part : String} (h : IsReadable part) :
    IsReadable (Text.asciiLower part) ∧
      ∀ b ∈ Utf8.octets (Text.asciiLower part), ¬ IsUpper b := by
  have hlength : (Utf8.octets (Text.asciiLower part)).length = (Utf8.octets part).length := by
    rw [h.octets_asciiLower, h.characters.1, List.length_map, List.length_map]
  have hall : ∀ b ∈ Utf8.octets (Text.asciiLower part), (33 ≤ b ∧ b ≤ 126) ∧ ¬ IsUpper b := by
    intro b hb
    rw [h.octets_asciiLower] at hb
    obtain ⟨c, hc, rfl⟩ := List.mem_map.1 hb
    obtain ⟨-, hlo, hhi, hupper⟩ := h.lower_characters c hc
    exact ⟨⟨hlo, hhi⟩, hupper⟩
  refine ⟨⟨?_, ?_, fun b hb => (hall b hb).1, ?_⟩, fun b hb => (hall b hb).2⟩
  · rw [hlength]
    exact h.length_pos
  · rw [hlength]
    exact h.length_le
  · rintro ⟨-, b, hb, hupper⟩
    exact (hall b hb).2 hupper

theorem scanReadable_ne_upper {bs : List UInt8} (hbs : ∀ b ∈ bs, ¬ IsUpper b)
    {seen s : LetterCase} (hseen : seen ≠ .upper) (h : scanReadable seen bs = .ok s) :
    s ≠ .upper := by
  induction bs generalizing seen with
  | nil =>
    cases h
    exact hseen
  | cons b bs ih =>
    obtain ⟨hb, hbs⟩ := List.forall_mem_cons.1 hbs
    rw [scanReadable] at h
    split at h
    · cases h
    · split at h
      · cases h
      · rename_i s' hnext
        refine ih hbs ?_ h
        by_cases hl : IsLower b
        · rw [next?_of_lower hl, if_neg hseen, Option.some.injEq] at hnext
          rw [← hnext]
          decide
        · rw [next?_of_other hl hb, Option.some.injEq] at hnext
          rwa [← hnext]

/-- The letters of a readable part in lower case are not in upper case. -/
theorem IsReadable.exists_readableCase {part : String} (h : IsReadable part) :
    ∃ s, readableCase (Text.asciiLower part) = .ok s ∧ s ≠ .upper := by
  obtain ⟨hlower, hupper⟩ := h.asciiLower
  obtain ⟨s, hs⟩ := (exists_readableCase_iff _).2 hlower
  refine ⟨s, hs, ?_⟩
  unfold readableCase at hs
  dsimp only at hs
  split at hs
  · cases hs
  · exact scanReadable_ne_upper hupper (by decide) hs

/-! ## Texts -/

/-- The text of octets under a readable part in lower case. -/
def textOf (lower : String) (payload : List UInt8) : String :=
  let data := toSymbols payload
  lower ++ "1" ++ String.ofList ((data ++ checksum lower.toList data).map symbol)

/-- A text can be written exactly under a readable part. -/
theorem encode_eq_ok_iff {part text : String} {payload : List UInt8} :
    encode part payload = .ok text ↔
      IsReadable part ∧ text = textOf (Text.asciiLower part) payload := by
  rw [← exists_readableCase_iff]
  unfold encode readable textOf
  cases readableCase part with
  | error f => simp [bind, Except.bind]
  | ok s => simp [bind, Except.bind, pure, Except.pure, eq_comm]

theorem symbol_spec : ∀ n < 32, (symbol n).toNat ≤ 127 ∧ (symbol n).isUpper = false ∧
    (symbol n).toLower = symbol n ∧ symbol n ≠ '1' := by
  decide

/-- Symbols are read back from their characters, which are in lower case. -/
theorem scanSymbols_map_symbol {vs : List Nat} (hvs : ∀ v ∈ vs, v < 32) {seen : LetterCase}
    (hseen : seen ≠ .upper) : scanSymbols seen (vs.map symbol) = .ok vs := by
  induction vs generalizing seen with
  | nil => rfl
  | cons v vs ih =>
    obtain ⟨hv, hvs⟩ := List.forall_mem_cons.1 hvs
    obtain ⟨hascii, hupper, hlower, -⟩ := symbol_spec v hv
    obtain ⟨s, hs, hnext⟩ : ∃ s, s ≠ .upper ∧ seen.next? (symbol v) = some s := by
      unfold LetterCase.next?
      rw [if_neg hseen, hupper]
      split
      · exact ⟨.lower, by decide, rfl⟩
      · exact ⟨seen, hseen, rfl⟩
    rw [List.map_cons, scanSymbols, if_neg (Nat.not_lt_of_le hascii), hnext, hlower]
    dsimp only
    rw [symbolOf?_symbol v hv]
    dsimp only
    rw [ih hvs hs]
    rfl

/-- The separator is the last of its kind. -/
theorem splitLast_append {cs ds : List Char} (hds : '1' ∉ ds) :
    splitLast (cs ++ '1' :: ds) = some (cs, ds) := by
  have hafter : (((cs ++ '1' :: ds).reverse).takeWhile (· ≠ '1')).reverse = ds := by
    have hall : ∀ c ∈ ds.reverse, (decide (c ≠ '1')) = true := by
      intro c hc
      exact decide_eq_true fun h => hds (h ▸ List.mem_reverse.1 hc)
    rw [List.reverse_append, List.reverse_cons, List.append_assoc,
      List.takeWhile_append_of_pos hall, List.singleton_append,
      List.takeWhile_cons_of_neg (by simp), List.append_nil, List.reverse_reverse]
  have hbefore : (cs ++ '1' :: ds).take ((cs ++ '1' :: ds).length - ds.length) = cs ++ ['1'] := by
    rw [List.append_cons, List.length_append, Nat.add_sub_cancel, List.take_left]
  unfold splitLast
  dsimp only
  rw [hafter, hbefore]
  simp

/-- A readable part, in lower case, and octets are read back from their text. -/
theorem decode_textOf {part : String} (h : IsReadable part) (payload : List UInt8) :
    decode (textOf (Text.asciiLower part) payload) = .ok (Text.asciiLower part, payload) := by
  obtain ⟨seen, hseen, hne⟩ := h.exists_readableCase
  let lower := Text.asciiLower part
  let data := toSymbols payload
  let sum := checksum lower.toList data
  have hsum : sum.length = 6 := rfl
  have hvs : ∀ v ∈ data ++ sum, v < 32 := fun v hv =>
    (List.mem_append.1 hv).elim (toSymbols_lt payload v) (checksum_lt _ _ v)
  have hsplit : splitLast (textOf lower payload).toList =
      some (lower.toList, (data ++ sum).map symbol) := by
    have htext : (textOf lower payload).toList = lower.toList ++ '1' :: (data ++ sum).map symbol := by
      unfold textOf
      simp only [String.toList_append, String.toList_ofList, List.append_assoc]
      rfl
    rw [htext, splitLast_append]
    intro hmem
    obtain ⟨v, hv, h1⟩ := List.mem_map.1 hmem
    exact (symbol_spec v (hvs v hv)).2.2.2 h1
  have hlength : (data ++ sum).length - 6 = data.length := by
    rw [List.length_append, hsum, Nat.add_sub_cancel]
  unfold decode
  rw [hsplit]
  simp only [Option.elim_some, bind, Except.bind, String.ofList_toList]
  rw [hseen]
  dsimp only
  rw [scanSymbols_map_symbol hvs hne]
  dsimp only
  rw [if_neg (by rw [List.length_append, hsum]; omega), Text.asciiLower_asciiLower,
    if_neg fun hne => hne.1 (residue_checksum lower.toList data), hlength, List.take_left,
    ofSymbols?_toSymbols]
  rfl

end VpnNode.Bech32
