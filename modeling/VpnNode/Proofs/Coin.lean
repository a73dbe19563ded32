import VpnNode.Coin
import VpnNode.Proofs.Result
import VpnNode.Proofs.Text.Decimal
import VpnNode.Proofs.Text.Pieces

/-!
# The grammar of price lists

A price is a numeral, of a value below 2 to the power of 128, with a denomination after it.
Between the commas of a list stand prices, with blanks around them, and places that are
blank. Exactly such texts are read, and each is read as the prices that stand in it.

Main statements:

* `ofChars_eq_ok_iff`: the texts of one price.
* `parseList_eq_ok_iff`: the texts of a list of prices.
* `parseList_of_listed`: prices are read back from a list in which they are written down.
* `price_lists_exact`: these laws together, and where a text that is no list breaks off.
-/

namespace VpnNode.Coin

/-! ## One price -/

/-- A denomination: letters, digits and slashes, of which the first is no digit. -/
structure IsDenom (cs : List Char) : Prop where
  chars : ∀ c ∈ cs, c.isAlphanum ∨ c = '/'
  head : ∃ c ∈ cs.head?, c.isDigit = false

/-- A price is spelled as a numeral of its amount, which may have leading zeros, and its
    denomination. -/
inductive Spells (coin : Coin) : List Char → Prop where
  | price {digits : List Char} (hdigits : Decimal.isNumeral digits)
      (hamount : Decimal.value digits = coin.amount) (hlimit : coin.amount < amountLimit)
      (hdenom : IsDenom coin.denom.toList) : Spells coin (digits ++ coin.denom.toList)

theorem isDenomChar_iff {c : Char} : isDenomChar c ↔ c.isAlphanum ∨ c = '/' := by
  simp [isDenomChar]

theorem isDenomChar_of_isDigit {c : Char} (h : c.isDigit) : isDenomChar c :=
  isDenomChar_iff.2 (.inl (by simp [Char.isAlphanum, h]))

theorem isBlank_of_isDenomChar {c : Char} (h : isDenomChar c) : Text.isBlank c = false := by
  have hrange : 47 ≤ c.toNat ∧ c.toNat ≤ 122 := by
    obtain h | rfl := isDenomChar_iff.1 h
    · delta Char.isAlphanum Char.isAlpha Char.isUpper Char.isLower Char.isDigit at h
      simp only [Bool.or_eq_true, Bool.and_eq_true, decide_eq_true_eq,
        UInt32.le_iff_toNat_le] at h
      change ((65 ≤ c.toNat ∧ c.toNat ≤ 90) ∨ (97 ≤ c.toNat ∧ c.toNat ≤ 122)) ∨
        (48 ≤ c.toNat ∧ c.toNat ≤ 57) at h
      omega
    · decide
  unfold Text.isBlank
  simp only [Bool.or_eq_false_iff, Bool.and_eq_false_iff, decide_eq_false_iff_not,
    beq_eq_false_iff_ne]
  omega

theorem IsDenom.ne_nil {cs : List Char} (h : IsDenom cs) : cs ≠ [] := by
  rintro rfl
  obtain ⟨c, hc, -⟩ := h.head
  cases hc

section Spelling

variable {coin : Coin} {cs : List Char}

theorem Spells.isDenomChar (h : Spells coin cs) : ∀ c ∈ cs, isDenomChar c := by
  obtain ⟨hdigits, -, -, hdenom⟩ := h
  intro c hc
  obtain hc | hc := List.mem_append.1 hc
  · exact isDenomChar_of_isDigit ((Decimal.isNumeral_iff.1 hdigits).2 c hc)
  · exact isDenomChar_iff.2 (hdenom.chars c hc)

theorem Spells.ne_nil (h : Spells coin cs) : cs ≠ [] := by
  obtain ⟨hdigits, -, -, -⟩ := h
  simp [(Decimal.isNumeral_iff.1 hdigits).1]

/-- A spelling has no blanks that trimming could remove. -/
theorem Spells.trimChars (h : Spells coin cs) : Text.trimChars cs = cs :=
  Text.trimChars_of_forall fun c hc => isBlank_of_isDenomChar (h.isDenomChar c hc)

theorem Spells.not_blank (h : Spells coin cs) : ¬ cs.all Text.isBlank := by
  intro hall
  exact h.ne_nil (h.trimChars ▸ Text.trimChars_eq_nil_iff.2 hall)

/-- The digits of a spelling end where its denomination starts. -/
theorem span_digits {digits denom : List Char} (hdigits : ∀ c ∈ digits, c.isDigit)
    (hdenom : IsDenom denom) : (digits ++ denom).takeWhile Char.isDigit = digits ∧
      (digits ++ denom).dropWhile Char.isDigit = denom := by
  obtain ⟨c, hc, hno⟩ := hdenom.head
  cases denom with
  | nil => cases hc
  | cons d denom =>
    obtain rfl : d = c := Option.some.inj hc
    have hno : ¬ d.isDigit = true := by simp [hno]
    rw [List.takeWhile_append_of_pos hdigits, List.takeWhile_cons_of_neg hno, List.append_nil,
      List.dropWhile_append_of_pos hdigits, List.dropWhile_cons_of_neg hno]
    exact ⟨rfl, rfl⟩

/-- What is read as a price spells it. -/
theorem spells_of_ofChars (h : ofChars cs = .ok coin) : Spells coin cs := by
  have hhead := List.head?_dropWhile_not Char.isDigit cs
  have hspan := List.takeWhile_append_dropWhile (p := Char.isDigit) (l := cs)
  have hdigit : ∀ c ∈ cs.takeWhile Char.isDigit, c.isDigit := List.all_eq_true.1 List.all_takeWhile
  unfold ofChars at h
  dsimp only at h
  generalize cs.takeWhile Char.isDigit = digits at *
  generalize cs.dropWhile Char.isDigit = denom at *
  subst hspan
  split at h
  · cases h
  rename_i hdenom
  split at h
  · cases h
  rename_i hdigits
  split at h
  · cases h
  rename_i hchars
  split at h
  · rename_i hlimit
    cases h
    have hall : IsDenom denom := by
      refine ⟨fun c hc => isDenomChar_iff.1 (by simp_all), ?_⟩
      cases denom with
      | nil => simp at hdenom
      | cons c denom => exact ⟨c, rfl, hhead⟩
    have hspells : Spells ⟨String.ofList denom, Decimal.value digits⟩
        (digits ++ (String.ofList denom).toList) :=
      .price (Decimal.isNumeral_iff.2 ⟨by simpa using hdigits, hdigit⟩) rfl hlimit
        (by rwa [String.toList_ofList])
    rwa [String.toList_ofList] at hspells
  · cases h

/-- A price is read from its spelling. -/
theorem Spells.ofChars_eq (h : Spells coin cs) : ofChars cs = .ok coin := by
  obtain ⟨hdigits, hamount, hlimit, hdenom⟩ := h
  obtain ⟨hne, hdigit⟩ := Decimal.isNumeral_iff.1 hdigits
  obtain ⟨htake, hdrop⟩ := span_digits hdigit hdenom
  have hchars : coin.denom.toList.all Coin.isDenomChar :=
    List.all_eq_true.2 fun c hc => isDenomChar_iff.2 (hdenom.chars c hc)
  unfold ofChars
  dsimp only
  rw [htake, hdrop, if_neg (by simpa using hdenom.ne_nil), if_neg (by simpa using hne),
    if_neg (by simpa using hchars), if_pos (hamount ▸ hlimit), String.ofList_toList, hamount]

/-- A text is read as a price exactly if it spells that price. -/
theorem ofChars_eq_ok_iff : ofChars cs = .ok coin ↔ Spells coin cs :=
  ⟨spells_of_ofChars, Spells.ofChars_eq⟩

end Spelling

/-! ## Lists of prices -/

/-- The places of a list and the prices in them, written as `Writes` says: each place is
    blank, or holds the next price with blanks around it. -/
inductive Listed (Writes : Coin → List Char → Prop) : List (List Char) → List Coin → Prop where
  | nil : Listed Writes [] []
  | blank {place : List Char} {places : List (List Char)} {coins : List Coin}
      (hplace : place.all Text.isBlank) (h : Listed Writes places coins) :
      Listed Writes (place :: places) coins
  | price {before cs after : List Char} {places : List (List Char)} {coin : Coin}
      {coins : List Coin} (hbefore : before.all Text.isBlank) (hcoin : Writes coin cs)
      (hafter : after.all Text.isBlank) (h : Listed Writes places coins) :
      Listed Writes ((before ++ cs ++ after) :: places) (coin :: coins)

section Places

variable {place : List Char} {places : List (List Char)} {coin : Coin} {coins : List Coin}

theorem listed_nil_iff {Writes : Coin → List Char → Prop} : Listed Writes [] coins ↔ coins = [] := by
  constructor
  · rintro ⟨⟩
    rfl
  · rintro rfl
    exact .nil

/-- A blank place holds no price. -/
theorem listed_blank_iff (hplace : place.all Text.isBlank) :
    Listed Spells (place :: places) coins ↔ Listed Spells places coins := by
  constructor
  · intro h
    cases h with
    | blank _ h => exact h
    | price hbefore hcoin hafter h =>
      rw [List.all_append, List.all_append, Bool.and_eq_true, Bool.and_eq_true] at hplace
      exact absurd hplace.1.2 hcoin.not_blank
  · exact .blank hplace

/-- Any other place holds the price that it spells without the blanks at its ends. -/
theorem listed_price_iff (hplace : ¬ place.all Text.isBlank) :
    Listed Spells (place :: places) coins ↔
      ∃ coin rest, coins = coin :: rest ∧ Spells coin (Text.trimChars place) ∧
        Listed Spells places rest := by
  constructor
  · intro h
    cases h with
    | blank hblank _ => exact absurd hblank hplace
    | price hbefore hcoin hafter h =>
      refine ⟨_, _, rfl, ?_, h⟩
      rwa [Text.trimChars_append hbefore hafter, hcoin.trimChars]
  · rintro ⟨coin, rest, rfl, hcoin, h⟩
    obtain ⟨before, after, hbefore, hafter, heq⟩ := Text.exists_trimChars_eq place
    rw [heq]
    exact .price hbefore hcoin hafter h

/-- Reads what is left of a place without the blanks at its ends. -/
def readPart (p : List Char) : Except Fault Coin :=
  (ofChars p).mapError fun d => ⟨String.ofList p, d⟩

/-- Reads the places of a list. -/
def readPlaces (places : List (List Char)) : Except Fault (List Coin) :=
  ((places.map Text.trimChars).filter fun p => !p.isEmpty).mapM readPart

theorem parseList_eq (s : String) : parseList s = readPlaces (s.toList.splitOn ',') := by
  rw [← Text.split_eq_splitOn]
  rfl

theorem readPlaces_blank (hplace : place.all Text.isBlank) :
    readPlaces (place :: places) = readPlaces places := by
  rw [readPlaces, List.map_cons, Text.trimChars_eq_nil_iff.2 hplace]
  rfl

theorem readPlaces_price (hplace : ¬ place.all Text.isBlank) :
    readPlaces (place :: places) =
      (readPart (Text.trimChars place)).bind fun coin =>
        (readPlaces places).bind fun coins => .ok (coin :: coins) := by
  have hne : (!(Text.trimChars place).isEmpty) = true := by
    rwa [Bool.not_eq_true', List.isEmpty_eq_false_iff, ne_eq, Text.trimChars_eq_nil_iff]
  rw [readPlaces, List.map_cons, List.filter_cons, if_pos hne, List.mapM_cons]
  rfl

theorem readPart_eq_ok_iff : readPart place = .ok coin ↔ Spells coin place := by
  rw [readPart, mapError_eq_ok_iff, ofChars_eq_ok_iff]

/-- What is refused is reported, and is the spelling of no price. -/
theorem readPart_eq_error {fault : Fault} (h : readPart place = .error fault) :
    (∀ coin, ¬ Spells coin place) ∧ fault.text = String.ofList place := by
  constructor
  · intro coin hcoin
    rw [readPart_eq_ok_iff.2 hcoin] at h
    cases h
  · obtain ⟨defect, -, rfl⟩ := mapError_eq_error_iff.1 h
    rfl

/-- The places of a list are read as the prices that stand in them. -/
theorem readPlaces_eq_ok_iff : readPlaces places = .ok coins ↔ Listed Spells places coins := by
  induction places generalizing coins with
  | nil =>
    rw [listed_nil_iff]
    show (Except.ok [] : Except Fault (List Coin)) = .ok coins ↔ _
    rw [Except.ok.injEq, eq_comm]
  | cons place places ih =>
    by_cases hplace : place.all Text.isBlank
    · rw [readPlaces_blank hplace, listed_blank_iff hplace, ih]
    · rw [readPlaces_price hplace, listed_price_iff hplace]
      constructor
      · intro h
        obtain ⟨coin, hcoin, h⟩ := bind_eq_ok_iff.1 h
        obtain ⟨rest, hrest, h⟩ := bind_eq_ok_iff.1 h
        cases h
        exact ⟨coin, rest, rfl, readPart_eq_ok_iff.1 hcoin, ih.1 hrest⟩
      · rintro ⟨coin, rest, rfl, hcoin, hrest⟩
        rw [readPart_eq_ok_iff.2 hcoin, ih.2 hrest]
        rfl

/-- Reading breaks off at the first place that holds something else than a price, and says
    what it has found there. -/
theorem exists_of_readPlaces_eq_error {fault : Fault} (h : readPlaces places = .error fault) :
    ∃ before place after, places = before ++ place :: after ∧
      (∃ coins, Listed Spells before coins) ∧ ¬ place.all Text.isBlank ∧
      (∀ coin, ¬ Spells coin (Text.trimChars place)) ∧
      fault.text = String.ofList (Text.trimChars place) := by
  induction places with
  | nil => cases h
  | cons place places ih =>
    by_cases hplace : place.all Text.isBlank
    · rw [readPlaces_blank hplace] at h
      obtain ⟨before, bad, after, rfl, ⟨coins, hbefore⟩, hbad⟩ := ih h
      exact ⟨place :: before, bad, after, rfl, ⟨coins, .blank hplace hbefore⟩, hbad⟩
    · rw [readPlaces_price hplace] at h
      obtain hpart | ⟨coin, hcoin, h⟩ := bind_eq_error_iff.1 h
      · obtain ⟨hno, htext⟩ := readPart_eq_error hpart
        exact ⟨[], place, places, rfl, ⟨[], .nil⟩, hplace, hno, htext⟩
      · obtain hrest | ⟨coins, -, h⟩ := bind_eq_error_iff.1 h
        · obtain ⟨before, bad, after, rfl, ⟨coins, hbefore⟩, hbad⟩ := ih hrest
          have hlisted : Listed Spells (place :: before) (coin :: coins) :=
            (listed_price_iff hplace).2 ⟨coin, coins, rfl, readPart_eq_ok_iff.1 hcoin, hbefore⟩
          exact ⟨place :: before, bad, after, rfl, ⟨_, hlisted⟩, hbad⟩
        · cases h

end Places

/-- A text is read as these prices exactly if they stand between its commas. -/
theorem parseList_eq_ok_iff {s : String} {coins : List Coin} :
    parseList s = .ok coins ↔ Listed Spells (s.toList.splitOn ',') coins := by
  rw [parseList_eq, readPlaces_eq_ok_iff]

example : parseList ",007udvpn,\t 5ibc/A1 ," = .ok [⟨"udvpn", 7⟩, ⟨"ibc/A1", 5⟩] := rfl

/-! ## Writing prices -/

/-- The text of a price. -/
def render (c : Coin) : String := Decimal.render c.amount ++ c.denom

/-- A price that can be read: the amount is not too large, and the denomination is one. -/
structure IsSound (c : Coin) : Prop where
  limit : c.amount < amountLimit
  denom : IsDenom c.denom.toList

theorem IsSound.spells {c : Coin} (h : c.IsSound) : Spells c c.render.toList := by
  rw [render, String.toList_append, Decimal.render, Nat.toList_repr]
  exact .price (Decimal.isNumeral_toDigits c.amount) (Decimal.value_toDigits c.amount) h.limit
    h.denom

section Writing

variable {places : List (List Char)} {coins : List Coin}

theorem Listed.mono {W W' : Coin → List Char → Prop} (h : Listed W places coins)
    (hw : ∀ c ∈ coins, ∀ cs, W c cs → W' c cs) : Listed W' places coins := by
  induction h with
  | nil => exact .nil
  | blank hplace _ ih => exact .blank hplace (ih hw)
  | price hbefore hcoin hafter _ ih =>
    obtain ⟨hfirst, hrest⟩ := List.forall_mem_cons.1 hw
    exact .price hbefore (hfirst _ hcoin) hafter (ih hrest)

/-- No comma stands in a place. -/
theorem Listed.comma_notMem (h : Listed Spells places coins) : ∀ p ∈ places, ',' ∉ p := by
  have hblank : ∀ cs : List Char, cs.all Text.isBlank → ',' ∉ cs := fun cs hcs hmem =>
    absurd (List.all_eq_true.1 hcs _ hmem) (by decide)
  induction h with
  | nil => simp
  | blank hplace _ ih => exact List.forall_mem_cons.2 ⟨hblank _ hplace, ih⟩
  | price hbefore hcoin hafter _ ih =>
    refine List.forall_mem_cons.2 ⟨fun hmem => ?_, ih⟩
    rw [List.mem_append, List.mem_append] at hmem
    obtain (hmem | hmem) | hmem := hmem
    · exact hblank _ hbefore hmem
    · exact absurd (hcoin.isDenomChar _ hmem) (by decide)
    · exact hblank _ hafter hmem

/-- Prices are read back from a list in which they are written down, whatever blanks stand
    around them and whatever places are blank. -/
theorem parseList_of_listed (hcoins : ∀ c ∈ coins, c.IsSound)
    (h : Listed (fun c cs => cs = c.render.toList) places coins) :
    parseList (String.ofList ([','].intercalate places)) = .ok coins := by
  have hspelled : Listed Spells places coins := h.mono fun c hc cs hcs => hcs ▸ (hcoins c hc).spells
  rw [parseList_eq_ok_iff, String.toList_ofList]
  by_cases hne : places = []
  · subst hne
    obtain rfl := listed_nil_iff.1 hspelled
    exact .blank rfl .nil
  · rwa [List.splitOn_intercalate ',' hspelled.comma_notMem hne]

/-- Prices with nothing but commas between them. -/
theorem listed_render (coins : List Coin) :
    Listed (fun c cs => cs = c.render.toList) (coins.map fun c => c.render.toList) coins := by
  induction coins with
  | nil => exact .nil
  | cons c coins ih =>
    have hplace : c.render.toList = [] ++ c.render.toList ++ [] := by simp
    rw [List.map_cons, hplace]
    exact .price rfl rfl rfl ih

end Writing

/-- A text is a list of prices exactly if every place between its commas is blank or holds,
    between blanks, a numeral below 2 to the power of 128 and a denomination, and it is read
    as the prices that stand there, in order. Any other text is refused for its first place
    that is neither. Prices that are sound are read back when they are written with commas
    between them, also with blanks around them and with blank places in the list. -/
theorem price_lists_exact :
    (∀ s coins, parseList s = .ok coins ↔ Listed Spells (s.toList.splitOn ',') coins) ∧
    (∀ s fault, parseList s = .error fault → ∃ before place after,
      s.toList.splitOn ',' = before ++ place :: after ∧ (∃ coins, Listed Spells before coins) ∧
        ¬ place.all Text.isBlank ∧ (∀ coin, ¬ Spells coin (Text.trimChars place)) ∧
        fault.text = String.ofList (Text.trimChars place)) ∧
    ∀ coins : List Coin, (∀ c ∈ coins, c.IsSound) →
      parseList (",".intercalate (coins.map render)) = .ok coins ∧
        ∀ places, Listed (fun c cs => cs = c.render.toList) places coins →
          parseList (String.ofList ([','].intercalate places)) = .ok coins := by
  refine ⟨fun s coins => parseList_eq_ok_iff, fun s fault h => ?_, fun coins hcoins => ⟨?_, ?_⟩⟩
  · rw [parseList_eq] at h
    exact exists_of_readPlaces_eq_error h
  · have hread := parseList_of_listed hcoins (listed_render coins)
    rwa [← String.ofList_toList (s := ",".intercalate _), String.toList_intercalate, List.map_map]
  · exact fun places => parseList_of_listed hcoins

end VpnNode.Coin
