import VpnNode.Proofs.Session.Usage
import VpnNode.Proofs.Text.Numeral

/-!
# Counters of any size

The byte counters and the byte quota of a session are numbers without a limit, kept as
numerals. Nothing is lost between what a report of usage writes, what is read for the quota
and what is sent to the chain.

Main statements:

* `exists_applyUsage`: what a report of usage, of one direction or both, leaves behind.
* `counters_exact`: the value of a numeral, and the way of a counter from its report to the
  chain.
-/

namespace VpnNode.Session

/-- A counter that goes up is written anew. -/
theorem revised_of_lt {text : String} {stored n : Nat} (h : stored < n) :
    revised stored text (some n) = Decimal.render n := if_pos h

/-- A report raises the counters that it speaks of, and leaves the other texts of counters
    alone. -/
theorem exists_applyUsage {s : Session} {down up : Nat}
    (hdown : Decimal.parse? s.downloadBytes = some down)
    (hup : Decimal.parse? s.uploadBytes = some up) (download upload : Option Nat) (now : Time) :
    ∃ t, s.applyUsage download upload now = .ok t ∧
      t.downloadBytes = revised down s.downloadBytes download ∧
      t.uploadBytes = revised up s.uploadBytes upload := by
  by_cases hnone : download.isNone ∧ upload.isNone
  · obtain ⟨rfl, rfl⟩ : download = none ∧ upload = none := by simpa using hnone
    exact ⟨s, rfl, rfl, rfl⟩
  · exact ⟨_, applyUsage_of_parse? hdown hup hnone now, rfl, rfl⟩

/-- A number of any size is read back from its numeral, which has no leading zeros. A text is
    read as a number exactly if it consists of digits, and of one at least; it is then read as
    its positional value, and written back without its leading zeros. So the byte quota is the
    number that it was set to. And if the counters of a session are numerals, then they are
    numerals after a report as well: of the larger of what was stored and what is reported,
    which is the number that is read, and the number that is sent. -/
theorem counters_exact :
    (∀ n : Nat, Decimal.parse? (Decimal.render n) = some n ∧
      Decimal.withoutLeadingZeros (Decimal.render n).toList = (Decimal.render n).toList) ∧
    (∀ text : String, (Decimal.parse? text).isSome ↔
      text ≠ "" ∧ ∀ c ∈ text.toList, '0'.toNat ≤ c.toNat ∧ c.toNat ≤ '9'.toNat) ∧
    (∀ (text : String) (n : Nat), Decimal.parse? text = some n →
      n = Nat.ofDigits 10 (text.toList.map Decimal.digit).reverse ∧
        (Decimal.render n).toList = Decimal.withoutLeadingZeros text.toList) ∧
    (∀ (s : Session) (n : Nat), (s.withMaxBytes n).maxBytes = Decimal.render n ∧
      (s.withMaxBytes n).byteQuota = .ok n) ∧
    ∀ (s : Session) (down up : Nat) (download upload : Option Nat) (now : Time),
      Decimal.parse? s.downloadBytes = some down → Decimal.parse? s.uploadBytes = some up →
      ∃ t, s.applyUsage download upload now = .ok t ∧
        t.Carries (max down (download.getD 0)) (max up (upload.getD 0)) ∧
        (∀ n, download = some n → down < n → t.downloadBytes = Decimal.render n) ∧
        ∀ n, upload = some n → up < n → t.uploadBytes = Decimal.render n := by
  refine ⟨fun n => ⟨Decimal.parse?_render n, ?_⟩, fun text => ?_, fun text n h => ⟨?_, ?_⟩,
    fun s n => ⟨rfl, ?_⟩, fun s down up download upload now hdown hup => ?_⟩
  · exact (Decimal.toList_render_of_parse? (Decimal.parse?_render n)).symm
  · simp only [Option.isSome_iff_exists, Decimal.parse?_eq_some_iff, exists_and_left, exists_eq',
      and_true]
  · exact (Decimal.parse?_eq_some_iff.1 h).2.symm
  · exact Decimal.toList_render_of_parse? h
  · exact counter_of_parse? _ _ (Decimal.parse?_render n)
  · obtain ⟨t, ht, hdownload, hupload⟩ := exists_applyUsage hdown hup download upload now
    refine ⟨t, ht, carries_of_parse? ?_ ?_, fun n hn hlt => ?_, fun n hn hlt => ?_⟩
    · rw [hdownload, parse?_revised hdown]
    · rw [hupload, parse?_revised hup]
    · rw [hdownload, hn, revised_of_lt hlt]
    · rw [hupload, hn, revised_of_lt hlt]

/-- An evening in the spring of 2024. -/
def evening : Time := ⟨⟨2024, 5, 1, by decide⟩, ⟨75600, by decide⟩, ⟨750000000, by decide⟩⟩

/-- A session with a counter that has leading zeros. -/
def zeroPadded : Session :=
  { Session.new 9 "sent1" "sentnode1" "peer-9" .wireguard evening with uploadBytes := "007" }

theorem counters_beyond_words :
    (Decimal.parse? "007" = some 7 ∧
      (Decimal.render 7).toList = Decimal.withoutLeadingZeros "007".toList) ∧
    ∃ t, zeroPadded.applyUsage (some 340282366920938463463374607431768211457) (some 8) evening =
        .ok t ∧
      t.Carries 340282366920938463463374607431768211457 8 ∧
      t.downloadBytes = Decimal.render 340282366920938463463374607431768211457 ∧
      t.uploadBytes = Decimal.render 8 := by
  have hdown : Decimal.parse? zeroPadded.downloadBytes = some 0 := rfl
  have hup : Decimal.parse? zeroPadded.uploadBytes = some 7 := rfl
  obtain ⟨-, -, hback, -, hreport⟩ := counters_exact
  obtain ⟨t, ht, hcarries, hdownload, hupload⟩ := hreport zeroPadded 0 7
    (some 340282366920938463463374607431768211457) (some 8) evening hdown hup
  exact ⟨⟨hup, (hback "007" 7 hup).2⟩, t, ht, hcarries, hdownload _ rfl (by decide),
    hupload _ rfl (by decide)⟩

end VpnNode.Session
