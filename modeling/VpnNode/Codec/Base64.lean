import VpnNode.Text.Decimal
import VpnNode.Text.Utf8

/-!
# Base64

The standard alphabet with padding. Three octets are four symbols; a last group
of one or two octets is filled up with `=`. Only the canonical spelling is
read: the padding must be there and the unused low bits must be zero.

Main statements:

* `sextet?_symbol`, `symbol_of_sextet?`: symbols and sextets are in bijection.
* `decode_eq_ok_iff`: decoding succeeds exactly where the strict reader does.
-/

namespace VpnNode.Base64

/-! ## Symbols -/

/-- The symbol of a number below 64. -/
def symbol (n : Nat) : Char :=
  if n < 26 then Char.ofNat (65 + n)
  else if n < 52 then Char.ofNat (71 + n)
  else if n < 62 then Char.ofNat (n - 4)
  else if n = 62 then '+' else '/'

/-- The number of a symbol. -/
def sextet? (c : Char) : Option Nat :=
  if 'A' ≤ c ∧ c ≤ 'Z' then some (c.toNat - 65)
  else if 'a' ≤ c ∧ c ≤ 'z' then some (c.toNat - 71)
  else if '0' ≤ c ∧ c ≤ '9' then some (c.toNat + 4)
  else if c = '+' then some 62
  else if c = '/' then some 63
  else none

theorem sextet?_symbol : ∀ n < 64, sextet? (symbol n) = some n := by decide

/-! ## Writing and reading -/

/-- The symbols of octets. -/
def write : List UInt8 → List Char
  | [] => []
  | [a] => [symbol (a.toNat / 4), symbol (a.toNat % 4 * 16), '=', '=']
  | [a, b] =>
    [symbol (a.toNat / 4), symbol (a.toNat % 4 * 16 + b.toNat / 16),
      symbol (b.toNat % 16 * 4), '=']
  | a :: b :: c :: r =>
    symbol (a.toNat / 4) :: symbol (a.toNat % 4 * 16 + b.toNat / 16) ::
      symbol (b.toNat % 16 * 4 + c.toNat / 64) :: symbol (c.toNat % 64) :: write r

/-- The octets of a canonical spelling. -/
def read? : List Char → Option (List UInt8)
  | [] => some []
  | [w, x, '=', '='] => do
    let w ← sextet? w
    let x ← sextet? x
    if x % 16 = 0 then return [UInt8.ofNat (w * 4 + x / 16)] else none
  | [w, x, y, '='] => do
    let w ← sextet? w
    let x ← sextet? x
    let y ← sextet? y
    if y % 4 = 0 then
      return [UInt8.ofNat (w * 4 + x / 16), UInt8.ofNat (x % 16 * 16 + y / 4)]
    else none
  | w :: x :: y :: z :: r => do
    let w ← sextet? w
    let x ← sextet? x
    let y ← sextet? y
    let z ← sextet? z
    return UInt8.ofNat (w * 4 + x / 16) :: UInt8.ofNat (x % 16 * 16 + y / 4) ::
      UInt8.ofNat (y % 4 * 64 + z) :: (← read? r)
  | _ => none

/-! ## Faults -/

/-- Why a text is no canonical spelling. -/
inductive Fault where
  /-- An octet that is no symbol, or padding out of place. -/
  | invalidByte (offset : Nat) (byte : UInt8)
  /-- The length leaves one symbol over. -/
  | danglingSymbol
  /-- The padding does not fill the last group. -/
  | padding
  /-- Unused low bits of the last symbol are set. -/
  | lastSymbol (offset : Nat) (byte : UInt8)
  deriving DecidableEq, Repr

def Fault.message : Fault → String
  | .invalidByte offset byte =>
    s!"Invalid byte {Decimal.render byte.toNat}, offset {Decimal.render offset}."
  | .danglingSymbol => "Encoded text cannot have a 6-bit remainder."
  | .padding => "Invalid padding"
  | .lastSymbol offset byte =>
    s!"Invalid last symbol {Decimal.render byte.toNat}, offset {Decimal.render offset}."

/-- Is an octet one of the 64 symbols? -/
def isSymbol (b : UInt8) : Bool := (sextet? (Char.ofNat b.toNat)).isSome

/-- The first fault in the tail of a text, which starts at `start`. Padding may
    stand only in the second half of a group, and nothing but padding may follow
    it. The scan is at index `i` of the tail and knows the first padding. -/
def scanTail (start : Nat) : Nat → Option Nat → List UInt8 → Option Fault
  | _, _, [] => none
  | i, firstPad, b :: r =>
    if b = 61 then
      if i % 4 < 2 then some (.invalidByte (start + firstPad.getD i) 61)
      else scanTail start (i + 1) (some (firstPad.getD i)) r
    else
      match firstPad with
      | some p => some (.invalidByte (start + p) 61)
      | none =>
        if isSymbol b then scanTail start (i + 1) none r
        else some (.invalidByte (start + i) b)

/-- Why a text that is no canonical spelling is refused. The octets before the
    last group of eight are looked at first, then that tail from left to right,
    then its padding and its unused bits. -/
def fault (bs : List UInt8) : Fault :=
  let n := bs.length
  let last := bs.getLastD 0
  if n % 4 = 1 then
    if last = 61 ∨ isSymbol last then .danglingSymbol else .invalidByte (n - 1) last
  else
    let start := n - (if n % 8 = 0 then 8 else n % 8)
    match (bs.take start).findIdx? (fun b => !isSymbol b) with
    | some i => .invalidByte i (bs.getD i 0)
    | none =>
      match scanTail start 0 none (bs.drop start) with
      | some f => f
      | none =>
        if n % 4 ≠ 0 then .padding
        else
          let symbols := bs.takeWhile (· ≠ 61)
          .lastSymbol (symbols.length - 1) (symbols.getLastD 0)

/-- Writes octets. -/
def encode (bs : List UInt8) : String := String.ofList (write bs)

/-- Reads a canonical spelling, or says what is wrong with it. -/
def decode (s : String) : Except Fault (List UInt8) :=
  match read? s.toList with
  | some bs => .ok bs
  | none => .error (fault (Utf8.octets s))

/-! ## Laws -/

theorem symbol_of_sextet? {c : Char} {n : Nat} (h : sextet? c = some n) : n < 64 ∧ symbol n = c := by
  have key : ∀ {a b : Char}, a ≤ b → a.toNat ≤ b.toNat := fun h => h
  unfold sextet? at h
  split at h
  · rename_i hc
    have h1 := key hc.1
    have h2 := key hc.2
    simp at h h1 h2
    refine ⟨by omega, ?_⟩
    have : 65 + n = c.toNat := by omega
    simp [symbol, show n < 26 by omega, this]
  · split at h
    · rename_i hc
      have h1 := key hc.1
      have h2 := key hc.2
      simp at h h1 h2
      refine ⟨by omega, ?_⟩
      have : 71 + n = c.toNat := by omega
      simp [symbol, show ¬ n < 26 by omega, show n < 52 by omega, this]
    · split at h
      · rename_i hc
        have h1 := key hc.1
        have h2 := key hc.2
        simp at h h1 h2
        refine ⟨by omega, ?_⟩
        have : n - 4 = c.toNat := by omega
        simp [symbol, show ¬ n < 26 by omega, show ¬ n < 52 by omega, show n < 62 by omega, this]
      · split at h
        · rename_i hc; simp at h; subst h hc; decide
        · split at h
          · rename_i hc; simp at h; subst h hc; decide
          · simp at h

theorem symbol_ne_pad : ∀ n < 64, symbol n ≠ '=' := by decide

/-- Decoding succeeds exactly where the strict reader does. -/
theorem decode_eq_ok_iff {s : String} {bs : List UInt8} :
    decode s = .ok bs ↔ read? s.toList = some bs := by
  unfold decode
  split <;> simp_all

end VpnNode.Base64
