import VpnNode.Text.Decimal
import VpnNode.Text.Hex
import VpnNode.Text.Utf8

/-!
# UUIDs

Sixteen octets, written as 32 hexadecimal digits with hyphens after the 8th,
12th, 16th and 20th. Reading also takes the digits without hyphens, the
hyphenated form in braces, and the hyphenated form after `urn:uuid:`.
-/

namespace VpnNode

/-- A UUID: sixteen octets. -/
structure Uuid where
  octets : List UInt8
  length_eq : octets.length = 16
  deriving DecidableEq

namespace Uuid

/-- The number of octets in each of the five groups. -/
def groupSizes : List Nat := [4, 2, 2, 2, 6]

/-- Digits as groups with hyphens between them. -/
def hyphenated : List Nat → List UInt8 → List Char
  | [], _ => []
  | [n], bs => Hex.chars (bs.take n)
  | n :: sizes, bs => Hex.chars (bs.take n) ++ '-' :: hyphenated sizes (bs.drop n)

/-- The canonical text: lower-case digits in five groups. -/
def render (u : Uuid) : String := String.ofList (hyphenated groupSizes u.octets)

/-! ## Reading -/

/-- Sixteen octets from 32 digits. -/
def ofDigits? (cs : List Char) : Option Uuid :=
  match Hex.ofChars? cs with
  | some bs => if h : bs.length = 16 then some ⟨bs, h⟩ else none
  | none => none

/-- Removes the hyphens of the five groups, which must stand at their places. -/
def unhyphenate? (cs : List Char) : Option (List Char) :=
  if cs.length = 36 ∧ [8, 13, 18, 23].all (fun i => cs[i]? == some '-') then
    some (cs.take 8 ++ (cs.drop 9).take 4 ++ (cs.drop 14).take 4 ++ (cs.drop 19).take 4 ++
      cs.drop 24)
  else none

/-- Reads the hyphenated form. -/
def ofHyphenated? (cs : List Char) : Option Uuid := (unhyphenate? cs).bind ofDigits?

/-- What stands before the hyphenated form in a name of the `urn` scheme. -/
def urn : List Char := "urn:uuid:".toList

/-- Does a text start with `urn:uuid:`, in any case of its letters? -/
def hasUrn (cs : List Char) : Bool := (cs.take 9).map Char.toLower == urn

/-- What stands between braces. -/
def unbrace? (cs : List Char) : Option (List Char) :=
  match cs with
  | '\x7b' :: r => if r.getLast? = some '\x7d' then some r.dropLast else none
  | _ => none

/-- Reads any of the four forms. -/
def ofChars? (cs : List Char) : Option Uuid :=
  if cs.length = 32 then ofDigits? cs
  else if cs.length = 36 then ofHyphenated? cs
  else if cs.length = 38 then (unbrace? cs).bind ofHyphenated?
  else if cs.length = 45 ∧ hasUrn cs then ofHyphenated? (cs.drop 9)
  else none

/-! ## Faults -/

/-- Why a text is no UUID. Lengths and places are counted in octets. -/
inductive Fault where
  | length (found : Nat)
  | character (c : Char) (index : Nat)
  | groupCount (found : Nat)
  | groupLength (group expected found : Nat)
  deriving DecidableEq, Repr

def Fault.message : Fault → String
  | .length found => s!"invalid length: found {Decimal.render found}"
  | .character c index => s!"invalid character: found `{c}` at {Decimal.render index}"
  | .groupCount found => s!"invalid group count: expected 5, found {Decimal.render found}"
  | .groupLength group expected found =>
    s!"invalid group length in group {Decimal.render group}: expected " ++
      s!"{Decimal.render expected}, found {Decimal.render found}"

/-- The first character that is neither a digit nor a hyphen, with the place of
    its first octet. The scan is at octet `i`. -/
def strayChar (i : Nat) : List Char → Option Fault
  | [] => none
  | c :: r =>
    if (Hex.digit? c).isSome ∨ c = '-' then strayChar (i + 1) r else some (.character c i)

/-- The places of the hyphens, from `i` on. -/
def hyphens (i : Nat) : List Char → List Nat
  | [] => []
  | c :: r => if c = '-' then i :: hyphens (i + 1) r else hyphens (i + 1) r

/-- Where each group starts, and how many digits it has. -/
def groups : List (Nat × Nat) := [(0, 8), (9, 4), (14, 4), (19, 4), (24, 12)]

/-- The first group whose hyphen is out of place; else the last one, whose
    length is counted to the end of the text of `total` octets. -/
def groupFault (total : Nat) : Nat → List (Nat × Nat) → List Nat → Fault
  | k, (start, size) :: gs, h :: hs =>
    if h = start + size then groupFault total (k + 1) gs hs
    else .groupLength k size (h - start)
  | _, _, _ => .groupLength 4 12 (total - 24)

/-- Why a text is refused. Where the length and the frame fit one of the forms,
    only the part inside the frame is looked at. -/
def fault (cs : List Char) : Fault :=
  let size (s : List Char) := (Utf8.octets (String.ofList s)).length
  let total := size cs
  let (looked, offset, inner, simple) :=
    match unbrace? cs with
    | some inner =>
      if total = 36 then (cs, 0, cs, false)
      else if total = 38 then (inner, 0, inner, false)
      else (cs, 1, inner, false)
    | none =>
      if total = 36 then (cs, 0, cs, false)
      else if hasUrn cs then
        if total = 45 then (cs.drop 9, 0, cs.drop 9, false) else (cs, 9, cs.drop 9, false)
      else (cs, 0, cs, true)
  let length := size looked
  if length = 0 ∨ 45 < length then .length length
  else match strayChar offset inner with
    | some f => f
    | none =>
      let hs := hyphens 0 inner
      if simple ∧ hs.isEmpty then .length length
      else if hs.length ≠ 4 then .groupCount (hs.length + 1)
      else groupFault length 0 groups hs

/-- Reads a UUID, or says what is wrong with the text. -/
def parse (s : String) : Except Fault Uuid :=
  match ofChars? s.toList with
  | some u => .ok u
  | none => .error (fault s.toList)

theorem parse_eq_ok_iff {s : String} {u : Uuid} :
    parse s = .ok u ↔ ofChars? s.toList = some u := by
  unfold parse; split <;> simp_all

end VpnNode.Uuid
