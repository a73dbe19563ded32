import VpnNode.Proofs.Codec.Uuid
import VpnNode.Proofs.Text.Case

/-!
# The spellings of a UUID

A UUID is spelled with digits alone, with hyphens, with hyphens in braces, or with hyphens
after `urn:uuid:`, and each letter in either case. A text is read as a UUID exactly if it
is one of these four forms when its letters are put in lower case.

Main statements:

* `Hex.ofChars?_eq_some_iff`: octets are read from their digits in either case.
* `Uuid.unhyphenate?_eq_some_iff`: what stands between hyphens.
* `Uuid.parse_eq_ok_iff_mem_forms`: the texts that are read as a UUID.
-/

namespace VpnNode

/-! ## Digits -/

namespace Hex

theorem digit?_toLower (c : Char) : digit? c.toLower = digit? c :=
  Text.forall_char (P := fun c c' => digit? c' = digit? c) (by decide +kernel) (fun _ _ => rfl) c

theorem ofChars?_map_toLower (cs : List Char) : ofChars? (cs.map Char.toLower) = ofChars? cs := by
  fun_induction ofChars? cs with
  | case1 => rfl
  | case2 => rfl
  | case3 h l r ih =>
    rw [List.map_cons, List.map_cons, ofChars?, ih, digit?_toLower, digit?_toLower]

/-- All digits are characters of ASCII. -/
theorem digit?_of_ge {c : Char} (h : 128 ≤ c.toNat) : digit? c = none := by
  have hgt : ∀ a : Char, a.toNat < 128 → ¬ c ≤ a := fun a ha hle =>
    Nat.not_lt_of_le (Nat.le_trans h hle) ha
  unfold digit?
  rw [if_neg fun hc => hgt '9' (by decide) hc.2, if_neg fun hc => hgt 'f' (by decide) hc.2,
    if_neg fun hc => hgt 'F' (by decide) hc.2]

/-- A digit in lower case is the one that is written. -/
theorem toLower_of_digit? {c : Char} {n : Nat} (h : digit? c = some n) : c.toLower = digit n := by
  refine Text.forall_char (P := fun c c' => ∀ n, digit? c = some n → c' = digit n)
    (fun m hm n hn => ?_) (fun c hc n hn => ?_) c n h
  · have key : ∀ m < 128, ∀ n < 16, digit? (Char.ofNat m) = some n →
        (Char.ofNat m).toLower = digit n := by decide +kernel
    exact key m hm n (digit?_lt hn) hn
  · rw [digit?_of_ge hc] at hn
    cases hn

/-- Octets are read from their digits in either case. -/
theorem ofChars?_eq_some_iff {cs : List Char} {bs : List UInt8} :
    ofChars? cs = some bs ↔ cs.map Char.toLower = chars bs := by
  constructor
  · intro hread
    fun_induction ofChars? cs generalizing bs with
    | case1 =>
      cases hread
      rfl
    | case2 => cases hread
    | case3 h l r ih =>
      simp only [Option.bind_eq_bind, Option.bind_eq_some_iff] at hread
      obtain ⟨a, ha, b, hb, rest, hrest, hread⟩ := hread
      cases hread
      have ha16 := digit?_lt ha
      have hb16 := digit?_lt hb
      have hlt : a * 16 + b < 256 := by omega
      have hn : (UInt8.ofNat (a * 16 + b)).toNat = a * 16 + b := UInt8.toNat_ofNat_of_lt' hlt
      have hchars : chars (UInt8.ofNat (a * 16 + b) :: rest) = digit a :: digit b :: chars rest := by
        unfold chars
        rw [List.flatMap_cons, hn, show (a * 16 + b) / 16 = a by omega,
          show (a * 16 + b) % 16 = b by omega]
        rfl
      rw [hchars, List.map_cons, List.map_cons, ih hrest, toLower_of_digit? ha, toLower_of_digit? hb]
  · intro h
    rw [← ofChars?_map_toLower, h, ofChars?_chars]

end Hex

/-! ## Hyphens -/

namespace Uuid

theorem ofDigits?_eq_some_iff {cs : List Char} {u : Uuid} :
    ofDigits? cs = some u ↔ cs.map Char.toLower = Hex.chars u.octets := by
  obtain ⟨bs, hlength⟩ := u
  rw [← Hex.ofChars?_eq_some_iff, ofDigits?]
  cases Hex.ofChars? cs with
  | none => simp
  | some bs' =>
    dsimp only
    split
    · simp
    · rename_i hne
      refine ⟨fun h => (by cases h), fun h => ?_⟩
      rw [Option.some.injEq] at h
      exact absurd (h ▸ hlength) hne

theorem eq_take_cons_drop {cs : List α} {i : Nat} {c : α} (h : cs[i]? = some c) :
    cs = cs.take i ++ c :: cs.drop (i + 1) := by
  obtain ⟨hi, rfl⟩ := List.getElem?_eq_some_iff.1 h
  rw [← List.drop_eq_getElem_cons hi, List.take_append_drop]

/-- Five groups of characters with hyphens between them. -/
theorem unhyphenate?_eq_some_iff {cs ds : List Char} :
    unhyphenate? cs = some ds ↔ ∃ a b c d e : List Char, a.length = 8 ∧ b.length = 4 ∧
      c.length = 4 ∧ d.length = 4 ∧ e.length = 12 ∧
      cs = a ++ '-' :: (b ++ '-' :: (c ++ '-' :: (d ++ '-' :: e))) ∧
      ds = a ++ b ++ c ++ d ++ e := by
  constructor
  · intro h
    unfold unhyphenate? at h
    split at h
    · rename_i hcs
      obtain ⟨hlength, hhyphens⟩ := hcs
      simp only [List.all_cons, List.all_nil, Bool.and_true, Bool.and_eq_true, beq_iff_eq] at hhyphens
      obtain ⟨h8, h13, h18, h23⟩ := hhyphens
      have hlater : ∀ i n, cs[i + n]? = some '-' →
          cs.drop i = (cs.drop i).take n ++ '-' :: cs.drop (i + n + 1) := by
        intro i n hin
        have hi : (cs.drop i)[n]? = some '-' := by rw [List.getElem?_drop, hin]
        have hdrop := eq_take_cons_drop hi
        rwa [List.drop_drop, ← Nat.add_assoc] at hdrop
      cases h
      refine ⟨_, _, _, _, _, ?_, ?_, ?_, ?_, ?_, ?_, rfl⟩
      · simp [hlength]
      · simp [hlength]
      · simp [hlength]
      · simp [hlength]
      · simp [hlength]
      · rw [← hlater 19 4 h23, ← hlater 14 4 h18, ← hlater 9 4 h13, ← eq_take_cons_drop h8]
    · cases h
  · rintro ⟨a, b, c, d, e, ha, hb, hc, hd, he, rfl, rfl⟩
    exact unhyphenate?_groups ha hb hc hd he

theorem ofHyphenated?_eq_some_iff {cs : List Char} {u : Uuid} :
    ofHyphenated? cs = some u ↔ cs.map Char.toLower = hyphenated groupSizes u.octets := by
  have hhyphen : ∀ c : Char, c.toLower = '-' → c = '-' :=
    Text.forall_char (P := fun c c' => c' = '-' → c = '-') (by decide +kernel) (fun _ _ h => h)
  have hlength := u.length_eq
  rw [ofHyphenated?, Option.bind_eq_some_iff, hyphenated_eq hlength]
  constructor
  · rintro ⟨ds, hds, hread⟩
    obtain ⟨a, b, c, d, e, ha, hb, hc, hd, he, rfl, rfl⟩ := unhyphenate?_eq_some_iff.1 hds
    rw [ofDigits?_eq_some_iff, ← chars_groups u.octets] at hread
    simp only [List.map_append] at hread
    -- The groups are told apart by their lengths.
    have hsize : ∀ {l : List Char} {n : Nat} {bs : List UInt8}, l.length = 2 * n → bs.length = n →
        (l.map Char.toLower).length = (Hex.chars bs).length := by
      intro l n bs hl hbs
      rw [List.length_map, Hex.length_chars, hl, hbs]
    obtain ⟨hread, h5⟩ := List.append_inj' hread (hsize (n := 6) he (by simp [hlength]))
    obtain ⟨hread, h4⟩ := List.append_inj' hread (hsize (n := 2) hd (by simp [hlength]))
    obtain ⟨hread, h3⟩ := List.append_inj' hread (hsize (n := 2) hc (by simp [hlength]))
    obtain ⟨h1, h2⟩ := List.append_inj' hread (hsize (n := 2) hb (by simp [hlength]))
    simp only [List.map_append, List.map_cons, h1, h2, h3, h4, h5]
    rfl
  · intro h
    obtain ⟨a, r, rfl, ha, h⟩ := List.map_eq_append_iff.1 h
    obtain ⟨x, r, rfl, hx, h⟩ := List.map_eq_cons_iff.1 h
    obtain ⟨b, r, rfl, hb, h⟩ := List.map_eq_append_iff.1 h
    obtain ⟨y, r, rfl, hy, h⟩ := List.map_eq_cons_iff.1 h
    obtain ⟨c, r, rfl, hc, h⟩ := List.map_eq_append_iff.1 h
    obtain ⟨z, r, rfl, hz, h⟩ := List.map_eq_cons_iff.1 h
    obtain ⟨d, r, rfl, hd, h⟩ := List.map_eq_append_iff.1 h
    obtain ⟨w, e, rfl, hw, he⟩ := List.map_eq_cons_iff.1 h
    have hsize : ∀ {l : List Char} {bs : List UInt8}, l.map Char.toLower = Hex.chars bs →
        l.length = 2 * bs.length := by
      intro l bs hl
      rw [← Hex.length_chars, ← hl, List.length_map]
    rw [hhyphen x hx, hhyphen y hy, hhyphen z hz, hhyphen w hw]
    refine ⟨a ++ b ++ c ++ d ++ e, unhyphenate?_groups ?_ ?_ ?_ ?_ ?_, ?_⟩
    · simp [hsize ha, hlength]
    · simp [hsize hb, hlength]
    · simp [hsize hc, hlength]
    · simp [hsize hd, hlength]
    · simp [hsize he, hlength]
    · rw [ofDigits?_eq_some_iff, ← chars_groups u.octets]
      simp only [List.map_append, ha, hb, hc, hd, he]

/-! ## The four forms -/

/-- The texts of a UUID, with letters in lower case. -/
def forms (u : Uuid) : List (List Char) :=
  let text := hyphenated groupSizes u.octets
  [Hex.chars u.octets, text, '\x7b' :: (text ++ ['\x7d']), urn ++ text]

theorem unbrace?_eq_some_iff {cs inner : List Char} :
    unbrace? cs = some inner ↔ cs = '\x7b' :: (inner ++ ['\x7d']) := by
  constructor
  · intro h
    unfold unbrace? at h
    split at h
    · rename_i r
      split at h
      · rename_i hlast
        obtain ⟨ys, rfl⟩ := List.getLast?_eq_some_iff.1 hlast
        rw [List.dropLast_concat, Option.some.injEq] at h
        rw [h]
      · cases h
    · cases h
  · rintro rfl
    rw [unbrace?, List.getLast?_concat, if_pos rfl, List.dropLast_concat]

theorem eq_brace_of_toLower (c : Char) :
    (c.toLower = '\x7b' → c = '\x7b') ∧ (c.toLower = '\x7d' → c = '\x7d') :=
  Text.forall_char (P := fun c c' => (c' = '\x7b' → c = '\x7b') ∧ (c' = '\x7d' → c = '\x7d'))
    (by decide +kernel) (fun _ _ => ⟨id, id⟩) c

theorem mem_forms_of_ofChars? {cs : List Char} {u : Uuid} (h : ofChars? cs = some u) :
    cs.map Char.toLower ∈ u.forms := by
  simp only [forms, List.mem_cons, List.not_mem_nil, or_false]
  unfold ofChars? at h
  split at h
  · exact .inl (ofDigits?_eq_some_iff.1 h)
  split at h
  · exact .inr (.inl (ofHyphenated?_eq_some_iff.1 h))
  split at h
  · obtain ⟨inner, hinner, hread⟩ := Option.bind_eq_some_iff.1 h
    rw [unbrace?_eq_some_iff.1 hinner, ← ofHyphenated?_eq_some_iff.1 hread]
    exact .inr (.inr (.inl (by simp)))
  split at h
  · rename_i hurn
    have hfront : (cs.take 9).map Char.toLower = urn := beq_iff_eq.1 hurn.2
    rw [← ofHyphenated?_eq_some_iff.1 h, ← hfront, ← List.map_append, List.take_append_drop]
    exact .inr (.inr (.inr rfl))
  · cases h

/-- The forms have different lengths. -/
theorem ofChars?_of_mem_forms {cs : List Char} {u : Uuid} (h : cs.map Char.toLower ∈ u.forms) :
    ofChars? cs = some u := by
  have hdigits : (Hex.chars u.octets).length = 32 := by
    rw [Hex.length_chars, u.length_eq]
  have htext := length_hyphenated u.length_eq
  have hlength : ∀ {ds : List Char}, cs.map Char.toLower = ds → cs.length = ds.length := by
    rintro _ rfl
    exact (List.length_map _).symm
  simp only [forms, List.mem_cons, List.not_mem_nil, or_false] at h
  unfold ofChars?
  obtain h | h | h | h := h
  · rw [if_pos ((hlength h).trans hdigits)]
    exact ofDigits?_eq_some_iff.2 h
  · have h36 : cs.length = 36 := (hlength h).trans htext
    rw [if_neg (by omega), if_pos h36]
    exact ofHyphenated?_eq_some_iff.2 h
  · have h38 : cs.length = 38 := by
      rw [hlength h, List.length_cons, List.length_append, htext]
      rfl
    rw [if_neg (by omega), if_neg (by omega), if_pos h38]
    obtain ⟨x, r, rfl, hx, h⟩ := List.map_eq_cons_iff.1 h
    obtain ⟨inner, r, rfl, hinner, h⟩ := List.map_eq_append_iff.1 h
    obtain ⟨y, rfl, hy⟩ := List.map_eq_singleton_iff.1 h
    rw [(eq_brace_of_toLower x).1 hx, (eq_brace_of_toLower y).2 hy,
      unbrace?_eq_some_iff.2 rfl, Option.bind_some]
    exact ofHyphenated?_eq_some_iff.2 hinner
  · have h45 : cs.length = 45 := by
      rw [hlength h, List.length_append, htext]
      rfl
    obtain ⟨front, rest, rfl, hfront, hrest⟩ := List.map_eq_append_iff.1 h
    have hsize : front.length = 9 := by
      rw [← List.length_map (f := Char.toLower), hfront]
      rfl
    have hurn : hasUrn (front ++ rest) := by
      rw [hasUrn, List.take_left' hsize, hfront]
      exact beq_self_eq_true urn
    rw [if_neg (by omega), if_neg (by omega), if_neg (by omega), if_pos ⟨h45, hurn⟩,
      List.drop_left' hsize]
    exact ofHyphenated?_eq_some_iff.2 hrest

/-- A text is read as a UUID exactly if it is one of its forms in lower case. -/
theorem parse_eq_ok_iff_mem_forms {s : String} {u : Uuid} :
    parse s = .ok u ↔ s.toList.map Char.toLower ∈ u.forms := by
  rw [parse_eq_ok_iff]
  exact ⟨mem_forms_of_ofChars?, ofChars?_of_mem_forms⟩

/-- The letters of the canonical text are in lower case. -/
theorem asciiLower_render (u : Uuid) : Text.asciiLower u.render = u.render := by
  have hlength := length_hyphenated u.length_eq
  have hread := parse_eq_ok_iff.1 u.parse_render
  rw [render, String.toList_ofList, ofChars?, if_neg (by omega), if_pos hlength,
    ofHyphenated?_eq_some_iff] at hread
  rw [Text.asciiLower, render, String.toList_ofList, hread]

end Uuid

end VpnNode
