import Mathlib.Data.List.Induction
import VpnNode.Proofs.Ledger.WellFormed

/-!
# A row through its updates

A row that no operation takes away is changed by updates only. Each of them raises the
counters for which it brings a number, so in the end a counter is the largest number there
was, in whatever order the updates came. The duration is that of the last update with a
counter, and the time of the last update of all is kept.

Main statements:

* `Updated.of_foldl`: what updates make of a row, one after the other.
* `amount_le_of_updated`: the counters of a row do not go down.
* `WellFormed.updated_of_stays`: what operations on the ledger make of a row that stays.
-/

namespace VpnNode.Ledger

open Session (amount Counted nanosOfDuration)

variable {l : Ledger} {s t : Session} {id : UInt64} {us : List Update} {ops : List Operation}

/-! ## Updates one after the other -/

/-- What updates make of a row. -/
structure Updated (us : List Update) (s t : Session) : Prop where
  fixed : s.Fixed t
  /-- A counter is the largest of its number at the start and those that came. -/
  downloaded : ∃ n, s.downloaded = .ok n ∧
    t.downloaded = .ok ((us.filterMap (·.download)).foldl max n)
  uploaded : ∃ n, s.uploaded = .ok n ∧ t.uploaded = .ok ((us.filterMap (·.upload)).foldl max n)
  /-- The duration is that of the last update with a counter. -/
  duration : t.duration.toInt = (us.filter (·.reportsUsage)).getLast?.elim s.duration.toInt
    fun u => min Int64.maxValue.toInt (max 0 (u.now.since s.createdAt))
  signature : t.signature = (us.filterMap (·.signature)).getLast?.getD s.signature
  updatedAt : t.updatedAt = us.getLast?.elim s.updatedAt (·.now)

namespace Updated

theorem nil (h : Counted s) : Updated [] s s where
  fixed := .refl s
  downloaded := ⟨_, Session.counter_eq s _ h.download, Session.counter_eq s _ h.download⟩
  uploaded := ⟨_, Session.counter_eq s _ h.upload, Session.counter_eq s _ h.upload⟩
  duration := rfl
  signature := rfl
  updatedAt := rfl

/-- A counter is raised once more. -/
theorem amount_concat {text : String} (h : (Decimal.parse? text).isSome) {n : Nat}
    {report : Update → Option Nat} (ht : amount text = (us.filterMap report).foldl max n)
    (u : Update) :
    amount (Update.raised text (report u)) = ((us ++ [u]).filterMap report).foldl max n := by
  rw [Update.amount_raised h, List.filterMap_append, List.foldl_append, ht]
  cases hu : report u <;> simp [hu]

/-- One update more. -/
theorem concat (h : Updated us s t) (ht : Counted t) (u : Update) :
    Updated (us ++ [u]) s (u.written t) := by
  have hcounted := u.counted_written ht
  obtain ⟨d, hd, hd'⟩ := h.downloaded
  obtain ⟨n, hn, hn'⟩ := h.uploaded
  have hdownload : amount t.downloadBytes = (us.filterMap (·.download)).foldl max d :=
    Except.ok.inj ((Session.counter_eq t _ ht.download).symm.trans hd')
  have hupload : amount t.uploadBytes = (us.filterMap (·.upload)).foldl max n :=
    Except.ok.inj ((Session.counter_eq t _ ht.upload).symm.trans hn')
  refine ⟨h.fixed.trans (u.fixed_written t), ⟨d, hd, ?_⟩, ⟨n, hn, ?_⟩, ?_, ?_, ?_⟩
  · exact (Session.counter_eq _ _ hcounted.download).trans
      (congrArg Except.ok (amount_concat ht.download hdownload u))
  · exact (Session.counter_eq _ _ hcounted.upload).trans
      (congrArg Except.ok (amount_concat ht.upload hupload u))
  · show (if u.reportsUsage then nanosOfDuration (t.elapsed u.now) else t.duration).toInt = _
    rw [List.filter_append]
    cases hu : u.reportsUsage with
    | true =>
      rw [if_pos rfl, Session.toInt_nanosOfDuration, Session.elapsed, Int.ofNat_toNat,
        h.fixed.createdAt, Int.max_comm, Int.min_comm]
      simp [hu]
    | false =>
      rw [if_neg Bool.false_ne_true, h.duration]
      simp [hu]
  · show u.signature.getD t.signature = _
    rw [List.filterMap_append, h.signature]
    cases hu : u.signature <;> simp [hu]
  · show u.now = _
    simp

/-- Updates one after the other, on a row with numerals. -/
theorem of_foldl (h : Counted s) (us : List Update) :
    Updated us s (us.foldl (fun s u => u.written s) s) ∧
      Counted (us.foldl (fun s u => u.written s) s) := by
  induction us using List.reverseRecOn with
  | nil => exact ⟨nil h, h⟩
  | append_singleton us u ih =>
    rw [List.foldl_append]
    exact ⟨ih.1.concat ih.2 u, u.counted_written ih.2⟩

end Updated

theorem le_foldl_max (n : Nat) (ns : List Nat) : n ≤ ns.foldl max n := by
  induction ns generalizing n with
  | nil => exact Nat.le_refl n
  | cons m ns ih => exact Nat.le_trans (Nat.le_max_left n m) (ih (max n m))

/-- The counters of a row do not go down. -/
theorem amount_le_of_updated (hs : Counted s) (ht : Counted t) (h : Updated us s t) :
    amount s.downloadBytes ≤ amount t.downloadBytes ∧
      amount s.uploadBytes ≤ amount t.uploadBytes := by
  have hvalue : ∀ {r : Session} {field text : String} {n : Nat}, (Decimal.parse? text).isSome →
      r.counter field text = .ok n → amount text = n := fun hsome hn =>
    Except.ok.inj ((Session.counter_eq _ _ hsome).symm.trans hn)
  obtain ⟨d, hd, hd'⟩ := h.downloaded
  obtain ⟨n, hn, hn'⟩ := h.uploaded
  rw [hvalue hs.download hd, hvalue ht.download hd', hvalue hs.upload hn, hvalue ht.upload hn']
  exact ⟨le_foldl_max d _, le_foldl_max n _⟩

/-! ## Rows that stay -/

/-- A row stands under an id before, between and after operations. -/
def Stays (id : UInt64) : Ledger → List Operation → Prop
  | l, [] => ∃ s, l.Holds id s
  | l, op :: ops => (∃ s, l.Holds id s) ∧ Stays id (l.perform op) ops

/-- The updates that operations write into the row under an id, in order. -/
def updatesOf (id : UInt64) : Ledger → List Operation → List Update
  | _, [] => []
  | l, op :: ops =>
    ((l.row? id).bind fun s => op.update? l s).toList ++ updatesOf id (l.perform op) ops

theorem Stays.exists_holds (h : Stays id l ops) : ∃ s, l.Holds id s := by
  cases ops with
  | nil => exact h
  | cons op ops => exact h.1

theorem stays_append {ops' : List Operation} :
    Stays id l (ops ++ ops') ↔ Stays id l ops ∧ Stays id (ops.foldl perform l) ops' := by
  induction ops generalizing l with
  | nil => exact ⟨fun h => ⟨h.exists_holds, h⟩, And.right⟩
  | cons op ops ih => exact (and_congr_right fun _ => ih).trans and_assoc.symm

theorem updatesOf_append {ops' : List Operation} :
    updatesOf id l (ops ++ ops') = updatesOf id l ops ++ updatesOf id (ops.foldl perform l) ops' := by
  induction ops generalizing l with
  | nil => rfl
  | cons op ops ih =>
    rw [List.cons_append, updatesOf, updatesOf, ih, List.append_assoc]
    rfl

namespace WellFormed

/-- Operations change a row that stays by the updates that they write into it. -/
theorem holds_foldl_perform (h : l.WellFormed) (hs : l.Holds id s) (hstays : Stays id l ops) :
    (ops.foldl Ledger.perform l).Holds id
      ((updatesOf id l ops).foldl (fun s u => u.written s) s) := by
  induction ops generalizing l s with
  | nil => exact hs
  | cons op ops ih =>
    obtain ⟨t, ht⟩ := hstays.2.exists_holds
    have hrest := ih (h.perform op) ht hstays.2
    rw [h.eq_of_perform hs ht] at hrest
    rw [updatesOf, row?_eq_some_iff.2 hs, List.foldl_append, Option.bind_some]
    cases hu : op.update? l s with
    | none => rwa [hu] at hrest
    | some u => rwa [hu] at hrest

/-- What operations make of a row that stays. -/
theorem updated_of_stays (h : l.WellFormed) (hs : l.Holds id s) (hstays : Stays id l ops) :
    ∃ t, (ops.foldl Ledger.perform l).Holds id t ∧ Updated (updatesOf id l ops) s t :=
  ⟨_, h.holds_foldl_perform hs hstays, (Updated.of_foldl (h.counted id s hs) _).1⟩

end WellFormed

end VpnNode.Ledger
