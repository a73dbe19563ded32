import VpnNode.Json.Record
import VpnNode.Proofs.Text.Decimal

/-!
# JSON is read back

A value whose numbers are whole, and fit into 64 bits with or without a sign, is read back
from its own text, whatever its strings are.

Main statements:

* `readString_quote`: a string is read back from its quotation.
* `readUnsigned_toDigits`: a whole number is read back from its digits.
* `readsBack`: a value is read back from its text, before any text that does not go on with
  a number.
* `ofText?_render`: a value is all that its text holds.
-/

namespace VpnNode.Json

open Decimal (exists_toDigits_eq head?_toDigits)
open Text (ne_of_test)

namespace Source

/-! ## Strings -/

/-- One character inside quotes is one piece. -/
theorem piece_escapeChar (c : Char) (r : List Char) : piece (escapeChar c ++ r) = .char c r := by
  unfold escapeChar
  split
  -- Characters with an escape of their own.
  iterate 7 rfl
  · rename_i hquote hback _ _ _ _ _
    split
    · rename_i hlow
      have h1 := Hex.digit?_digit (c.toNat / 16) (by omega)
      have h2 := Hex.digit?_digit (c.toNat % 16) (by omega)
      have hunit : hexUnit? ('0' :: '0' :: Hex.digit (c.toNat / 16) ::
          Hex.digit (c.toNat % 16) :: r) = some (c.toNat, r) := by
        unfold hexUnit?
        dsimp only
        rw [h1, h2, show Hex.digit? '0' = some 0 from rfl]
        simp only [Option.bind_eq_bind, Option.bind_some, Option.pure_def, Option.some.injEq,
          Prod.mk.injEq, and_true]
        omega
      show unitPiece ('0' :: '0' :: _ :: _ :: r) = _
      unfold unitPiece
      rw [hunit]
      dsimp only
      rw [if_neg (by omega), if_neg (by omega), Char.ofNat_toNat]
    · rename_i hlow
      have hc : ¬ (c.toNat < 0x20 ∨ c = '\\') := not_or.2 ⟨hlow, hback⟩
      show piece (c :: r) = _
      unfold piece
      split
      · cases ‹_ :: _ = []›
      · exact absurd (List.cons.inj ‹_›).1 hquote
      · exact absurd (List.cons.inj ‹_›).1 hback
      · exact absurd (List.cons.inj ‹_›).1 hback
      · obtain ⟨rfl, rfl⟩ := List.cons.inj ‹_›
        exact if_neg hc

/-- The inside of a string up to its end. -/
theorem stringBody_escape (cs r : List Char) {fuel : Nat} (hf : cs.length < fuel) :
    stringBody fuel (cs.flatMap escapeChar ++ '"' :: r) = some (some cs, r) := by
  induction cs generalizing fuel with
  | nil =>
    obtain ⟨fuel, rfl⟩ := Nat.exists_eq_succ_of_ne_zero (Nat.ne_of_gt hf)
    rfl
  | cons c cs ih =>
    obtain ⟨fuel, rfl⟩ := Nat.exists_eq_succ_of_ne_zero (Nat.ne_of_gt (Nat.zero_lt_of_lt hf))
    rw [List.flatMap_cons, List.append_assoc, stringBody, piece_escapeChar]
    dsimp only
    rw [ih (Nat.lt_of_succ_lt_succ hf)]
    rfl

theorem length_le_escape (cs : List Char) : cs.length ≤ (cs.flatMap escapeChar).length := by
  induction cs with
  | nil => exact Nat.le_refl 0
  | cons c cs ih =>
    have hpos : 0 < (escapeChar c).length := by
      refine List.length_pos_iff.2 fun hnil => ?_
      have hpiece := piece_escapeChar c []
      rw [hnil] at hpiece
      cases hpiece
    rw [List.flatMap_cons, List.length_append, List.length_cons]
    omega

/-- A string is read back from its quotation. -/
theorem readString_quote (s : String) (r : List Char) :
    readString (s.toList.flatMap escapeChar ++ '"' :: r) = some (some s, r) := by
  have hlen := length_le_escape s.toList
  have hfuel : s.toList.length < (s.toList.flatMap escapeChar ++ '"' :: r).length + 1 := by
    rw [List.length_append]
    omega
  unfold readString
  rw [stringBody_escape _ _ hfuel]
  simp

/-! ## Numbers -/

/-- A number does not go on in a text. -/
def Stops (r : List Char) : Prop :=
  ∀ c ∈ r.head?, c.isDigit = false ∧ c ≠ '.' ∧ c ≠ 'e' ∧ c ≠ 'E'

theorem le_ofDigitChars (cs : List Char) (n : Nat) : n ≤ Nat.ofDigitChars 10 cs n := by
  rw [Nat.ofDigitChars_eq_ofDigitChars_zero]
  have := Nat.le_mul_of_pos_left n (Nat.pow_pos (n := cs.length) (by decide : 0 < 10))
  omega

theorem takeDigits_eq {cs : List Char} (hcs : ∀ c ∈ cs, c.isDigit) {significand : Nat}
    (hlt : Nat.ofDigitChars 10 cs significand < UInt64.size) (taken : Nat) :
    takeDigits significand taken cs =
      (Nat.ofDigitChars 10 cs significand, taken + cs.length, []) := by
  induction cs generalizing significand taken with
  | nil => rfl
  | cons c cs ih =>
    obtain ⟨hc, hcs⟩ := List.forall_mem_cons.1 hcs
    have hcons : Nat.ofDigitChars 10 (c :: cs) significand =
        Nat.ofDigitChars 10 cs (significand * 10 + (c.toNat - 48)) := by
      rw [Nat.ofDigitChars_cons, Nat.mul_comm 10 significand]
      rfl
    rw [hcons] at hlt ⊢
    have hle := le_ofDigitChars cs (significand * 10 + (c.toNat - 48))
    unfold takeDigits
    rw [if_pos ⟨hc, Nat.lt_of_le_of_lt hle hlt⟩, ih hcs hlt, List.length_cons, Nat.add_assoc,
      Nat.add_comm 1]

theorem isSpace_of_isDigit {c : Char} (hc : c.isDigit) : isSpace c = false := by
  simp [isSpace, ne_of_test hc (d := ' ') (by decide), ne_of_test hc (d := '\t') (by decide),
    ne_of_test hc (d := '\n') (by decide), ne_of_test hc (d := '\r') (by decide)]

/-- A whole number is read back from its digits. -/
theorem readUnsigned_toDigits {n : Nat} (hn : n < UInt64.size) (negative : Bool) {r : List Char}
    (hr : Stops r) :
    readUnsigned negative (Nat.toDigits 10 n ++ r) = some (some (wholeNumber negative n), r) := by
  have hdigits : ∀ c ∈ Nat.toDigits 10 n, c.isDigit := fun c hc =>
    Nat.isDigit_of_mem_toDigits (by decide) (by decide) hc
  have hends : r.takeWhile Char.isDigit = [] ∧ r.dropWhile Char.isDigit = r := by
    cases r with
    | nil => exact ⟨rfl, rfl⟩
    | cons c r =>
      have hc := (hr c rfl).1
      exact ⟨List.takeWhile_cons_of_neg (by simp [hc]), List.dropWhile_cons_of_neg (by simp [hc])⟩
  have htake : (Nat.toDigits 10 n ++ r).takeWhile Char.isDigit = Nat.toDigits 10 n := by
    rw [List.takeWhile_append_of_pos hdigits, hends.1, List.append_nil]
  have hdrop : (Nat.toDigits 10 n ++ r).dropWhile Char.isDigit = r := by
    rw [List.dropWhile_append_of_pos hdigits, hends.2]
  have hvalue : takeDigits 0 0 (Nat.toDigits 10 n) = (n, (Nat.toDigits 10 n).length, []) := by
    rw [takeDigits_eq hdigits, Nat.ofDigitChars_ten_toDigits, Nat.zero_add]
    rwa [Nat.ofDigitChars_ten_toDigits]
  have hlead : ∀ d more, Nat.toDigits 10 n = d :: more → ¬ (d = '0' ∧ !more.isEmpty) := by
    rintro d more heq ⟨rfl, hmore⟩
    have hzero := head?_toDigits (congrArg List.head? heq)
    subst hzero
    obtain ⟨-, rfl⟩ := List.cons.inj heq
    cases hmore
  obtain ⟨d, more, heq, -⟩ := exists_toDigits_eq n
  unfold readUnsigned
  rw [htake, hdrop, heq]
  dsimp only
  rw [if_neg (hlead d more heq), ← heq, hvalue]
  dsimp only
  cases r with
  | nil => exact if_pos rfl
  | cons c r =>
    obtain ⟨-, hpoint, he, hE⟩ := hr c rfl
    split
    · exact absurd (List.cons.inj ‹_›).1 hpoint
    · exact absurd (List.cons.inj ‹_›).1 he
    · exact absurd (List.cons.inj ‹_›).1 hE
    · exact if_pos rfl

/-! ## Values -/

mutual

/-- The structure of the text of a value. -/
def ofJson : Json → Source
  | .null => .null
  | .bool b => .bool b
  | .number n => .number (some n)
  | .string s => .string (some s)
  | .array vs => .array (ofItems vs) true
  | .object ms => .object (ofMembers ms) true

def ofItems : List Json → List Source
  | [] => []
  | v :: vs => ofJson v :: ofItems vs

def ofMembers : List (String × Json) → List (Option String × Source)
  | [] => []
  | (k, v) :: ms => (some k, ofJson v) :: ofMembers ms

end

mutual

/-- All numbers of a value are whole and fit into 64 bits. -/
def IsWhole : Json → Prop
  | .null | .bool _ | .string _ => True
  | .number (.integer n) => Int64.minValue.toInt ≤ n ∧ n < UInt64.size
  | .number (.real _) => False
  | .array vs => AreWhole vs
  | .object ms => MembersAreWhole ms

def AreWhole : List Json → Prop
  | [] => True
  | v :: vs => IsWhole v ∧ AreWhole vs

def MembersAreWhole : List (String × Json) → Prop
  | [] => True
  | (_, v) :: ms => IsWhole v ∧ MembersAreWhole ms

end

theorem skipSpace_cons {c : Char} (hc : isSpace c = false) (r : List Char) :
    skipSpace (c :: r) = c :: r := List.dropWhile_cons_of_neg (by simp [hc])

theorem quote_append (s : String) (r : List Char) :
    quote s ++ r = '"' :: (s.toList.flatMap escapeChar ++ '"' :: r) := by
  simp [quote]

theorem value_quote (s : String) (r : List Char) (fuel : Nat) :
    value (fuel + 1) (quote s ++ r) = (.string (some s), some r) := by
  rw [quote_append, value]
  simp only [skipSpace_cons (c := '"') (by decide), readString_quote]

theorem value_digit {c : Char} (hc : c.isDigit) (r : List Char) (fuel : Nat) :
    value (fuel + 1) (c :: r) = readNumber false (c :: r) := by
  unfold value
  rw [skipSpace_cons (isSpace_of_isDigit hc)]
  split
  -- No other value starts with a digit.
  iterate 7 exact absurd (List.cons.inj ‹_›).1 (ne_of_test hc (by decide))
  · obtain ⟨rfl, rfl⟩ := List.cons.inj ‹_›
    exact if_pos hc
  · cases ‹_ :: _ = []›

theorem readNumber_toDigits {n : Nat} (hn : n < UInt64.size) (negative : Bool) {r : List Char}
    (hr : Stops r) : readNumber negative (Nat.toDigits 10 n ++ r) =
      (.number (some (wholeNumber negative n)), some r) := by
  unfold readNumber
  rw [readUnsigned_toDigits hn negative hr]

theorem value_integer {n : Int} (hn : IsWhole (.ofInt n)) {r : List Char} (hr : Stops r)
    (fuel : Nat) :
    value (fuel + 1) ((ofInt n).chars ++ r) = (.number (some (.integer n)), some r) := by
  obtain ⟨hmin, hmax⟩ := hn
  have hmin' : Int64.minValue.toInt = -9223372036854775808 := rfl
  have hsize : UInt64.size = 18446744073709551616 := rfl
  show value (fuel + 1) ((Decimal.renderInt n).toList ++ r) = _
  unfold Decimal.renderInt
  split
  · rename_i hneg
    have hwhole : wholeNumber true n.natAbs = .integer n := by
      unfold wholeNumber
      rw [if_pos rfl, if_neg (by omega), if_pos (by omega)]
      congr 1
      omega
    rw [String.toList_append, Decimal.render, Nat.toList_repr, List.append_assoc]
    refine (readNumber_toDigits (by omega) true hr).trans ?_
    rw [hwhole]
  · rename_i hpos
    have hwhole : wholeNumber false n.natAbs = .integer n := by
      unfold wholeNumber
      rw [if_neg (by simp)]
      congr 1
      omega
    obtain ⟨d, more, heq, hd⟩ := exists_toDigits_eq n.natAbs
    have hread := readNumber_toDigits (n := n.natAbs) (by omega) false hr
    rw [heq] at hread
    rw [Decimal.render, Nat.toList_repr, heq, List.cons_append, value_digit hd,
      ← List.cons_append, hread, hwhole]

/-- The text of a value starts with a character that is no space and closes nothing. -/
theorem exists_chars_eq {v : Json} (hv : IsWhole v) :
    ∃ c cs, v.chars = c :: cs ∧ isSpace c = false ∧ c ≠ ']' := by
  match v with
  | .null => exact ⟨_, _, rfl, by decide, by decide⟩
  | .bool true => exact ⟨_, _, rfl, by decide, by decide⟩
  | .bool false => exact ⟨_, _, rfl, by decide, by decide⟩
  | .number (.integer n) =>
    show ∃ c cs, (Decimal.renderInt n).toList = c :: cs ∧ _
    unfold Decimal.renderInt
    split
    · exact ⟨'-', _, by rw [String.toList_append]; rfl, by decide, by decide⟩
    · obtain ⟨d, more, heq, hd⟩ := exists_toDigits_eq n.natAbs
      rw [Decimal.render, Nat.toList_repr]
      exact ⟨d, more, heq, isSpace_of_isDigit hd, ne_of_test hd (by decide)⟩
  | .string s => exact ⟨_, _, rfl, by decide, by decide⟩
  | .array [] => exact ⟨_, _, rfl, by decide, by decide⟩
  | .array (v :: vs) => exact ⟨_, _, rfl, by decide, by decide⟩
  | .object [] => exact ⟨_, _, rfl, by decide, by decide⟩
  | .object ((k, v) :: ms) => exact ⟨_, _, rfl, by decide, by decide⟩

theorem Stops.of_cons {c : Char} (hc : c.isDigit = false) (h1 : c ≠ '.') (h2 : c ≠ 'e')
    (h3 : c ≠ 'E') (r : List Char) : Stops (c :: r) := by
  rintro _ ⟨⟩
  exact ⟨hc, h1, h2, h3⟩

theorem stops_itemChars (vs : List Json) (r : List Char) : Stops (itemChars vs ++ r) := by
  cases vs <;> exact .of_cons (by decide) (by decide) (by decide) (by decide) _

theorem stops_memberChars (ms : List (String × Json)) (r : List Char) :
    Stops (memberChars ms ++ r) := by
  cases ms with
  | nil => exact .of_cons (by decide) (by decide) (by decide) (by decide) _
  | cons m ms =>
    obtain ⟨k, v⟩ := m
    exact .of_cons (by decide) (by decide) (by decide) (by decide) _

theorem value_bracket {c : Char} (hspace : isSpace c = false) (hclose : c ≠ ']') (r : List Char)
    (fuel : Nat) : value (fuel + 1) ('[' :: c :: r) =
      (.array (items fuel (c :: r)).1 (items fuel (c :: r)).2.isSome, (items fuel (c :: r)).2) := by
  rw [value]
  simp only [skipSpace_cons (c := '[') (by decide), skipSpace_cons hspace]
  split
  · exact absurd (List.cons.inj ‹_›).1 hclose
  · rfl

theorem value_brace (k : String) (r : List Char) (fuel : Nat) :
    value (fuel + 1) ('\x7b' :: (quote k ++ r)) =
      (.object (members fuel (quote k ++ r)).1 (members fuel (quote k ++ r)).2.isSome,
        (members fuel (quote k ++ r)).2) := rfl

/-- The last member. -/
theorem members_quote_last {k : String} {v : Source} {r s : List Char} {fuel : Nat}
    (h : value fuel r = (v, some ('\x7d' :: s))) :
    members (fuel + 1) (quote k ++ ':' :: r) = ([(some k, v)], some s) := by
  rw [quote_append, members]
  simp only [skipSpace_cons (c := '"') (by decide), readString_quote,
    skipSpace_cons (c := ':') (by decide), h, skipSpace_cons (c := '\x7d') (by decide)]

/-- A member that another one follows. -/
theorem members_quote_more {k : String} {v : Source} {r s : List Char} {fuel : Nat}
    (h : value fuel r = (v, some (',' :: s))) :
    members (fuel + 1) (quote k ++ ':' :: r) =
      ((some k, v) :: (members fuel s).1, (members fuel s).2) := by
  rw [quote_append, members]
  simp only [skipSpace_cons (c := '"') (by decide), readString_quote,
    skipSpace_cons (c := ':') (by decide), h, skipSpace_cons (c := ',') (by decide)]

/-- With so many calls left, values, items and members whose texts are no longer than that
    are read back. -/
structure ReadsBack (fuel : Nat) : Prop where
  value : ∀ v, IsWhole v → v.chars.length ≤ fuel → ∀ r, Stops r →
    value fuel (v.chars ++ r) = (ofJson v, some r)
  items : ∀ v vs, IsWhole v → AreWhole vs → v.chars.length + (itemChars vs).length ≤ fuel →
    ∀ r, items fuel (v.chars ++ (itemChars vs ++ r)) = (ofItems (v :: vs), some r)
  members : ∀ k v ms, IsWhole v → MembersAreWhole ms →
    v.chars.length + (memberChars ms).length ≤ fuel →
    ∀ r, members fuel (quote k ++ ':' :: (v.chars ++ (memberChars ms ++ r))) =
      (ofMembers ((k, v) :: ms), some r)

namespace ReadsBack

variable {fuel : Nat}

theorem length_pos {v : Json} (hv : IsWhole v) : 0 < v.chars.length := by
  obtain ⟨c, cs, hcs, -⟩ := exists_chars_eq hv
  rw [hcs]
  exact Nat.succ_pos _

theorem value_succ (h : ReadsBack fuel) {v : Json} (hv : IsWhole v)
    (hf : v.chars.length ≤ fuel + 1) {r : List Char} (hr : Stops r) :
    Source.value (fuel + 1) (v.chars ++ r) = (ofJson v, some r) := by
  match v with
  | .null => rfl
  | .bool true => rfl
  | .bool false => rfl
  | .number (.integer n) => exact value_integer hv hr fuel
  | .string s => exact value_quote s r fuel
  | .array [] => rfl
  | .array (v :: vs) =>
    obtain ⟨d, ds, hds, hspace, hclose⟩ := exists_chars_eq hv.1
    have htext : (Json.array (v :: vs)).chars = '[' :: (v.chars ++ itemChars vs) := by
      rw [chars, List.cons_append]
    rw [htext, List.length_cons, List.length_append] at hf
    have hread := h.items v vs hv.1 hv.2 (Nat.le_of_succ_le_succ hf) r
    rw [htext, List.cons_append, List.append_assoc]
    rw [hds, List.cons_append] at hread ⊢
    rw [value_bracket hspace hclose, hread]
    rfl
  | .object [] => rfl
  | .object ((k, v) :: ms) =>
    have htext : (Json.object ((k, v) :: ms)).chars =
        '\x7b' :: (quote k ++ ':' :: (v.chars ++ memberChars ms)) := by
      rw [chars]
      simp
    rw [htext, List.length_cons, List.length_append, List.length_cons, List.length_append] at hf
    have hread := h.members k v ms hv.1 hv.2 (by omega) r
    rw [htext, List.cons_append, List.append_assoc, List.cons_append, List.append_assoc,
      value_brace, hread]
    rfl

theorem items_succ (h : ReadsBack fuel) {v : Json} {vs : List Json} (hv : IsWhole v)
    (hvs : AreWhole vs) (hf : v.chars.length + (itemChars vs).length ≤ fuel + 1) (r : List Char) :
    Source.items (fuel + 1) (v.chars ++ (itemChars vs ++ r)) = (ofItems (v :: vs), some r) := by
  have hclose : 0 < (itemChars vs).length := by
    cases vs <;> exact Nat.succ_pos _
  unfold Source.items
  rw [h.value v hv (by omega) _ (stops_itemChars vs r)]
  match vs with
  | [] => rfl
  | v' :: vs =>
    have htext : itemChars (v' :: vs) = ',' :: (v'.chars ++ itemChars vs) := by
      rw [itemChars, List.cons_append]
    rw [htext, List.length_cons, List.length_append] at hf
    have hread := h.items v' vs hvs.1 hvs.2 (by omega) r
    rw [htext, List.cons_append, List.append_assoc]
    show (ofJson v :: (Source.items fuel _).1, (Source.items fuel _).2) = _
    rw [hread]
    rfl

theorem members_succ (h : ReadsBack fuel) {v : Json} {ms : List (String × Json)} (hv : IsWhole v)
    (hms : MembersAreWhole ms) (hf : v.chars.length + (memberChars ms).length ≤ fuel + 1)
    (k : String) (r : List Char) :
    Source.members (fuel + 1) (quote k ++ ':' :: (v.chars ++ (memberChars ms ++ r))) =
      (ofMembers ((k, v) :: ms), some r) := by
  have hclose : 0 < (memberChars ms).length := by
    cases ms <;> exact Nat.succ_pos _
  have hvalue := h.value v hv (by omega) _ (stops_memberChars ms r)
  match ms with
  | [] => exact members_quote_last hvalue
  | (k', v') :: ms =>
    have htext : memberChars ((k', v') :: ms) =
        ',' :: (quote k' ++ ':' :: (v'.chars ++ memberChars ms)) := by
      rw [memberChars]
      simp
    rw [htext, List.length_cons, List.length_append, List.length_cons, List.length_append] at hf
    have hread := h.members k' v' ms hms.1 hms.2 (by omega) r
    rw [htext, List.cons_append, List.append_assoc, List.cons_append, List.append_assoc] at hvalue ⊢
    rw [members_quote_more hvalue, hread]
    rfl

end ReadsBack

/-- The induction is on the calls of the reader: each of them reads back what its own calls
    have read back. -/
theorem readsBack (fuel : Nat) : ReadsBack fuel := by
  induction fuel with
  | zero =>
    refine ⟨fun v hv hf => ?_, fun v vs hv _ hf => ?_, fun k v ms hv _ hf => ?_⟩
    all_goals
      have := ReadsBack.length_pos hv
      omega
  | succ fuel ih =>
    exact ⟨fun v hv hf r hr => ih.value_succ hv hf hr,
      fun v vs hv hvs hf r => ih.items_succ hv hvs hf r,
      fun k v ms hv hms hf r => ih.members_succ hv hms hf k r⟩

/-- A value is all that its text holds. -/
theorem ofText?_render {v : Json} (hv : IsWhole v) : ofText? v.render = some (ofJson v) := by
  have hread : read v.render = (ofJson v, some []) := by
    have hchars := (readsBack (2 * v.chars.length + 2)).value v hv (by omega) [] (by simp [Stops])
    rw [List.append_nil] at hchars
    unfold read Json.render
    rw [String.toList_ofList]
    exact hchars
  unfold ofText?
  rw [hread]
  rfl

end Source

/-! ## Lists -/

section Lists

open Source (ofJson ofItems AreWhole IsWhole)

variable {f : α → Json}

theorem areWhole_map (h : ∀ a, IsWhole (f a)) (as : List α) : AreWhole (as.map f) := by
  induction as with
  | nil => trivial
  | cons a as ih => exact ⟨h a, ih⟩

/-- A list is read back if its items are. -/
theorem list_eq {item : Reader α} (h : ∀ a, item (ofJson (f a)) = .ok a) (as : List α) :
    Reader.list item (ofJson (.array (as.map f))) = .ok as := by
  have hitems : (ofItems (as.map f)).mapM item = .ok as := by
    induction as with
    | nil => rfl
    | cons a as ih =>
      rw [List.map_cons, ofItems, List.mapM_cons, h, ih]
      rfl
  show ((ofItems (as.map f)).mapM item >>= fun xs => if true then .ok xs else _) = _
  rw [hitems]
  rfl

end Lists

/-! ## Records -/

namespace Record

/-- A record takes all these members, and then has this value. -/
def Reads (r : Record α) (ms : List (Option String × Source)) (a : α) : Prop :=
  ∃ r', r.takeAll ms = .ok r' ∧ r'.finish = .ok a

theorem Reads.pure (a : α) : (Record.pure a).Reads [] a := ⟨.pure a, rfl, rfl⟩

theorem takeAll_cons (r : Record α) (key : String) (v : Source)
    (ms : List (Option String × Source)) :
    r.takeAll ((some key, v) :: ms) =
      match r.take key v with
      | .error e => .error e
      | .ok (some r) => r.takeAll ms
      | .ok none => if v.isSound then r.takeAll ms else .error .malformed := rfl

theorem take_field_of_ne {rest : Record (β → α)} {name key : String} (hne : name ≠ key)
    (read : Reader β) (fallback value : Option β) (v : Source) :
    (field rest name read fallback value).take key v =
      match rest.take key v with
      | .error e => .error e
      | .ok none => .ok none
      | .ok (some rest) => .ok (some (field rest name read fallback value)) := by
  rw [take.eq_def]
  dsimp only
  rw [if_neg hne]
  cases rest.take key v with
  | error e => rfl
  | ok taken => cases taken <;> rfl

/-- Members that do not have the name of the last member go to the others. -/
theorem takeAll_field {rest : Record (β → α)} {name : String} {read : Reader β}
    {fallback value : Option β} {ms : List (Option String × Source)}
    (hname : ∀ m ∈ ms, m.1 ≠ some name) :
    (field rest name read fallback value).takeAll ms =
      (rest.takeAll ms).map fun rest => field rest name read fallback value := by
  induction ms generalizing rest with
  | nil => rfl
  | cons m ms ih =>
    obtain ⟨hm, hms⟩ := List.forall_mem_cons.1 hname
    obtain ⟨key, v⟩ := m
    cases key with
    | none => rfl
    | some key =>
      have hne : name ≠ key := fun he => hm (by rw [he])
      rw [takeAll_cons, takeAll_cons, take_field_of_ne hne]
      cases htake : rest.take key v with
      | error e => rfl
      | ok taken =>
        cases taken with
        | some rest' => exact ih hms
        | none =>
          dsimp only
          split
          · exact ih hms
          · rfl

theorem takeAll_append (r : Record α) (a b : List (Option String × Source)) :
    r.takeAll (a ++ b) = (r.takeAll a).bind (·.takeAll b) := by
  induction a generalizing r with
  | nil => rfl
  | cons m a ih =>
    obtain ⟨key, v⟩ := m
    cases key with
    | none => rfl
    | some key =>
      rw [List.cons_append, takeAll_cons, takeAll_cons]
      cases r.take key v with
      | error e => rfl
      | ok taken =>
        cases taken with
        | some r' => exact ih r'
        | none =>
          dsimp only
          split
          · exact ih r
          · rfl

/-- A member that comes last is read last. -/
theorem Reads.required {rest : Record (β → α)} {ms : List (Option String × Source)} {f : β → α}
    (h : rest.Reads ms f) (name : String) (hname : ∀ m ∈ ms, m.1 ≠ some name) {read : Reader β}
    {v : Source} {b : β} (hread : read v = .ok b) :
    (rest.required name read).Reads (ms ++ [(some name, v)]) (f b) := by
  obtain ⟨rest', htake, hfinish⟩ := h
  refine ⟨.field rest' name read none (some b), ?_, ?_⟩
  · unfold Record.required
    rw [takeAll_append, takeAll_field hname, htake]
    show (field rest' name read none none).takeAll [(some name, v)] = _
    rw [takeAll_cons, take.eq_def]
    dsimp only
    rw [if_pos rfl, hread]
    rfl
  · unfold finish
    rw [hfinish]
    rfl

/-- A record is read from an object with these members. -/
theorem Reads.read {r : Record α} {ms : List (Option String × Source)} {a : α}
    (h : r.Reads ms a) : r.read (.object ms true) = .ok a := by
  obtain ⟨r', htake, hfinish⟩ := h
  unfold Record.read
  dsimp only
  rw [htake]
  exact hfinish

end Record

end VpnNode.Json
