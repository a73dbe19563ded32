import VpnNode.Retry

/-!
# Calls of a retried operation

An operation that is retried is called until it succeeds or the policy allows no other call.
What it comes to is then what the last call comes to, in the surroundings that the failed
calls and the pauses after them have left behind. The counter is the number of the call that
is made.

Main statements:

* `RetryPolicy.map_counterAfter`: the counter takes the values from 1 to the number of calls
  that the policy allows, and no other.
* `run_retry`: a retried operation against any surroundings.
* `retry_exact`: a retried operation with any sequence of outcomes: its result, its calls, the
  pauses between them, and the counter.
-/

namespace VpnNode

/-! ## The counter -/

namespace RetryPolicy

variable {p : RetryPolicy}

/-- The counter of the call that follows a number of failed ones; none if there is no such
    call. -/
def counterAfter (p : RetryPolicy) : Nat → Option UInt32
  | 0 => some 1
  | failed + 1 => (p.counterAfter failed).bind p.next?

theorem exists_counterAfter {failed : Nat} (h : failed < p.attempts) :
    ∃ counter, p.counterAfter failed = some counter ∧ counter.toNat = failed + 1 := by
  induction failed with
  | zero => exact ⟨1, rfl, rfl⟩
  | succ failed ih =>
    obtain ⟨counter, hcounter, hcount⟩ := ih (Nat.lt_of_succ_lt h)
    obtain ⟨next, hnext⟩ := Option.ne_none_iff_exists'.1
      (mt next?_eq_none_iff.1 (show ¬ p.attempts ≤ counter.toNat by omega))
    refine ⟨next, by rw [counterAfter, hcounter, Option.bind_some, hnext], ?_⟩
    rw [(next?_eq_some_iff.1 hnext).2, hcount]

theorem counterAfter_eq_none {failed : Nat} (h : p.attempts ≤ failed) :
    p.counterAfter failed = none := by
  induction h with
  | refl =>
    have hpos := p.attempts_pos
    obtain ⟨last, hlast⟩ : ∃ last, p.attempts = last + 1 := ⟨p.attempts - 1, by omega⟩
    obtain ⟨counter, hcounter, hcount⟩ := exists_counterAfter (show last < p.attempts by omega)
    rw [hlast, counterAfter, hcounter, Option.bind_some, next?_eq_none_iff]
    omega
  | step _ ih => rw [counterAfter, ih, Option.bind_none]

/-- The counter is the number of the call, as long as there is one. -/
theorem map_counterAfter (p : RetryPolicy) (failed : Nat) :
    (p.counterAfter failed).map UInt32.toNat =
      if failed < p.attempts then some (failed + 1) else none := by
  split
  · rename_i hlt
    obtain ⟨counter, hcounter, hcount⟩ := exists_counterAfter hlt
    rw [hcounter, Option.map_some, hcount]
  · rename_i hle
    rw [counterAfter_eq_none (Nat.not_lt.1 hle), Option.map_none]

end RetryPolicy

namespace Retry

/-! ## Calls in surroundings -/

section Surroundings

variable {σ ε α : Type}

/-- One turn of the loop. -/
theorem run_retryFrom (pause : StateM σ Unit) (p : RetryPolicy) (call : StateM σ (Except ε α))
    (counter : UInt32) (s : σ) :
    (retryFrom pause p call counter).run s =
      match call.run s with
      | (.ok a, s) => (.ok a, s)
      | (.error e, s) =>
        match p.next? counter with
        | none => (.error e, s)
        | some next => (retryFrom pause p call next).run (pause.run s).2 := by
  obtain ⟨outcome, s', hcall⟩ : ∃ outcome s', call.run s = (outcome, s') := ⟨_, _, rfl⟩
  rw [retryFrom_eq, StateT.run_bind, hcall]
  cases outcome with
  | ok a => rfl
  | error e => cases p.next? counter <;> rfl

variable (sleep : UInt64 → StateM σ Unit) (p : RetryPolicy) (call : StateM σ (Except ε α))

/-- The surroundings that a call meets after a number of failed ones, each with a pause after
    it. -/
def met (s : σ) : Nat → σ
  | 0 => s
  | failed + 1 => ((sleep p.delay).run (call.run (met s failed)).2).2

/-- What the call comes to that follows a number of failed ones. -/
def outcome (s : σ) (failed : Nat) : Except ε α := (call.run (met sleep p call s failed)).1

variable {sleep p call} {s : σ}

/-- As long as calls fail, the loop goes on, with the number of the next call in its
    counter. -/
theorem run_retry_of_failed {failed : Nat} {counter : UInt32}
    (hcounter : p.counterAfter failed = some counter)
    (hfail : ∀ i < failed, ∃ e, outcome sleep p call s i = .error e) :
    (retry sleep p call).run s =
      (retryFrom (sleep p.delay) p call counter).run (met sleep p call s failed) := by
  induction failed generalizing counter with
  | zero =>
    cases hcounter
    rfl
  | succ failed ih =>
    obtain ⟨before, hbefore, hnext⟩ := Option.bind_eq_some_iff.1 hcounter
    obtain ⟨e, he⟩ := hfail failed (Nat.lt_succ_self failed)
    have hcall : call.run (met sleep p call s failed) =
        (.error e, (call.run (met sleep p call s failed)).2) := Prod.ext he rfl
    rw [ih hbefore fun i hi => hfail i (Nat.lt_succ_of_lt hi), run_retryFrom, hcall]
    simp only [hnext]
    rfl

/-- A retried operation comes to what its last call comes to: the first that succeeds, or the
    last that the policy allows. -/
theorem run_retry {last : Nat} (hlast : last < p.attempts)
    (hfail : ∀ i < last, ∃ e, outcome sleep p call s i = .error e)
    (hends : ∀ e, outcome sleep p call s last = .error e → last + 1 = p.attempts) :
    (retry sleep p call).run s = call.run (met sleep p call s last) := by
  obtain ⟨counter, hcounter, hcount⟩ := RetryPolicy.exists_counterAfter hlast
  obtain ⟨result, s', hcall⟩ : ∃ result s', call.run (met sleep p call s last) = (result, s') :=
    ⟨_, _, rfl⟩
  rw [run_retry_of_failed hcounter hfail, run_retryFrom, hcall]
  cases result with
  | ok a => rfl
  | error e =>
    have hlimit := hends e (congrArg Prod.fst hcall)
    have hnone : p.next? counter = none := RetryPolicy.next?_eq_none_iff.2 (by omega)
    simp only [hnone]

end Surroundings

/-! ## The record of a run -/

/-- What can be seen while an operation is retried: calls, which have numbers, and pauses. -/
inductive Event where
  | begins (call : Nat)
  | ends (call : Nat)
  | sleeps (ms : UInt64)
  deriving DecidableEq

/-- The number of calls so far, and what could be seen, in order. -/
structure Record where
  calls : Nat := 0
  events : List Event := []
  deriving DecidableEq

/-- A pause. -/
def pause (ms : UInt64) : StateM Record Unit :=
  modify fun r => { r with events := r.events ++ [.sleeps ms] }

/-- A call of an operation that has a sequence of outcomes. -/
def call (outcomes : Nat → α) : StateM Record α := do
  let r ← get
  let number := r.calls + 1
  set ({ calls := number, events := r.events ++ [.begins number, .ends number] } : Record)
  return outcomes r.calls

/-- A number of failed calls, each with a pause after it. -/
def failures (delay : UInt64) (failed : Nat) : List Event :=
  (List.range failed).flatMap fun n => [.begins (n + 1), .ends (n + 1), .sleeps delay]

/-- A number of failed calls, each with a pause after it, and one last call. -/
def history (delay : UInt64) (failed : Nat) : List Event :=
  failures delay failed ++ [.begins (failed + 1), .ends (failed + 1)]

theorem failures_succ (delay : UInt64) (failed : Nat) :
    failures delay (failed + 1) = history delay failed ++ [.sleeps delay] := by
  simp [failures, history, List.range_succ]

example : history 6000 2 =
    [.begins 1, .ends 1, .sleeps 6000, .begins 2, .ends 2, .sleeps 6000, .begins 3, .ends 3] := rfl

section Recorded

variable {α ε : Type} (p : RetryPolicy) (outcomes : Nat → Except ε α)

theorem met_record (failed : Nat) :
    met pause p (call outcomes) {} failed = ⟨failed, failures p.delay failed⟩ := by
  induction failed with
  | zero => rfl
  | succ failed ih =>
    rw [met, ih, failures_succ]
    rfl

theorem run_call_met (failed : Nat) :
    (call outcomes).run (met pause p (call outcomes) {} failed) =
      (outcomes failed, ⟨failed + 1, history p.delay failed⟩) := by
  rw [met_record]
  rfl

theorem outcome_record (failed : Nat) :
    outcome pause p (call outcomes) {} failed = outcomes failed :=
  congrArg Prod.fst (run_call_met p outcomes failed)

/-- A retried operation whose calls have the outcomes of a sequence. -/
theorem run_retry_record {last : Nat} (hlast : last < p.attempts)
    (hfail : ∀ i < last, ∃ e, outcomes i = .error e)
    (hends : ∀ e, outcomes last = .error e → last + 1 = p.attempts) :
    (retry pause p (call outcomes)).run {} =
      (outcomes last, ⟨last + 1, history p.delay last⟩) := by
  rw [run_retry hlast _ _, run_call_met]
  · simpa only [outcome_record] using hfail
  · simpa only [outcome_record] using hends

end Recorded

/-- A policy allows as many calls as it says, and at least one. For any sequence of outcomes,
    the operation is called up to the first success, if that is within the allowed calls, and
    gives its value; else it is called as often as allowed, and the last error is given. Each
    call has ended before the next begins, with one pause in between and none after the last.
    The counter is the number of the next call, as an exact number and not only modulo 2 to
    the power of 32, and is raised as long as a call is allowed. -/
theorem retry_exact {ε α : Type} (p : RetryPolicy) (outcomes : Nat → Except ε α) :
    p.attempts = max 1 p.maxAttempts.toNat ∧
    (∀ n a, n < p.attempts → (∀ i < n, ∃ e, outcomes i = .error e) → outcomes n = .ok a →
      (retry pause p (call outcomes)).run {} = (.ok a, ⟨n + 1, history p.delay n⟩)) ∧
    ((∀ i < p.attempts, ∃ e, outcomes i = .error e) →
      ∃ e, outcomes (p.attempts - 1) = .error e ∧
        (retry pause p (call outcomes)).run {} =
          (.error e, ⟨p.attempts, history p.delay (p.attempts - 1)⟩)) ∧
    (∀ failed, (p.counterAfter failed).map UInt32.toNat =
      if failed < p.attempts then some (failed + 1) else none) ∧
    ∀ failed counter, p.counterAfter failed = some counter →
      (∀ i < failed, ∃ e, outcomes i = .error e) →
      (retry pause p (call outcomes)).run {} =
        (retryFrom (pause p.delay) p (call outcomes) counter).run
          ⟨failed, failures p.delay failed⟩ := by
  have hpos := p.attempts_pos
  refine ⟨rfl, fun n a hn hfail hok => ?_, fun hfail => ?_, p.map_counterAfter,
    fun failed counter hcounter hfail => ?_⟩
  · rw [run_retry_record p outcomes hn hfail (by simp [hok]), hok]
  · obtain ⟨e, he⟩ := hfail (p.attempts - 1) (by omega)
    refine ⟨e, he, ?_⟩
    rw [run_retry_record p outcomes (by omega) (fun i hi => hfail i (by omega))
      (fun _ _ => Nat.sub_add_cancel hpos), he, Nat.sub_add_cancel hpos]
  · rw [run_retry_of_failed hcounter (by simpa only [outcome_record] using hfail), met_record]

/-- An operation that fails at first. -/
def transient (n : Nat) : Except Nat String := if n < 2 then .error (n + 1) else .ok "done"

/-- An operation that always fails. -/
def lasting (n : Nat) : Except Nat String := .error (n + 1)

theorem retry_transient_and_lasting :
    (retry pause ⟨4294967295, 1000⟩ (call transient)).run {} = (.ok "done", ⟨3,
      [.begins 1, .ends 1, .sleeps 1000, .begins 2, .ends 2, .sleeps 1000, .begins 3, .ends 3]⟩) ∧
    (∃ e, lasting 4 = .error e ∧
      (retry pause ⟨5, 6000⟩ (call lasting)).run {} = (.error e, ⟨5, history 6000 4⟩)) ∧
    (retry pause ⟨4294967295, 1000⟩ (call transient)).run {} =
      (retryFrom (pause 1000) ⟨4294967295, 1000⟩ (call transient) 3).run
        ⟨2, failures 1000 2⟩ := by
  have hfail : ∀ i < 2, ∃ e, transient i = .error e := fun i hi => ⟨i + 1, if_pos hi⟩
  obtain ⟨-, hok, -, -, hcounter⟩ := retry_exact ⟨4294967295, 1000⟩ transient
  obtain ⟨-, -, herror, -⟩ := retry_exact ⟨5, 6000⟩ lasting
  exact ⟨hok 2 "done" (by decide) hfail rfl, herror fun i _ => ⟨i + 1, rfl⟩,
    hcounter 2 3 (by decide) hfail⟩

end Retry

end VpnNode
