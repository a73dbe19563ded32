/-!
# Retrying

A policy allows a number of attempts, at least one, with a pause between two of them. A
counter of 32 bits numbers the attempts.

Main statements:

* `attempts_pos`: there is always an attempt.
* `next?_eq_some_iff`: the counter goes up by one while the policy allows more attempts, and
  does not wrap around.
* `retry_eq_retryMore`: the attempts that remain can be counted down instead.
-/

namespace VpnNode

/-- How often an operation is attempted, and how many milliseconds pass between two
    attempts. -/
structure RetryPolicy where
  maxAttempts : UInt32
  delay : UInt64
  deriving DecidableEq, Repr

namespace RetryPolicy

/-- The number of attempts that the policy allows. -/
def attempts (p : RetryPolicy) : Nat := max 1 p.maxAttempts.toNat

theorem attempts_pos (p : RetryPolicy) : 0 < p.attempts := by unfold attempts; omega

theorem attempts_lt (p : RetryPolicy) : p.attempts < UInt32.size :=
  Nat.max_lt.2 ⟨by decide, p.maxAttempts.toNat_lt_size⟩

/-- The counter of the attempt after a failed one; none if the policy allows no other. -/
def next? (p : RetryPolicy) (counter : UInt32) : Option UInt32 :=
  if p.attempts ≤ counter.toNat then none else some (counter + 1)

theorem next?_eq_none_iff {p : RetryPolicy} {counter : UInt32} :
    p.next? counter = none ↔ p.attempts ≤ counter.toNat := by
  simp [next?]

/-- The counter goes up by one while the policy allows more attempts. There is room for
    that, since the number of attempts is itself a number of 32 bits. -/
theorem next?_eq_some_iff {p : RetryPolicy} {counter next : UInt32} :
    p.next? counter = some next ↔
      counter.toNat < p.attempts ∧ next.toNat = counter.toNat + 1 := by
  have hadd : counter.toNat < p.attempts → (counter + 1).toNat = counter.toNat + 1 := by
    intro hlt
    have hroom : p.attempts < 4294967296 := p.attempts_lt
    rw [UInt32.toNat_add, UInt32.toNat_one]
    omega
  unfold next?
  split
  · rename_i hle
    simp [Nat.not_lt.2 hle]
  · rename_i hlt
    rw [Nat.not_le] at hlt
    rw [Option.some.injEq, ← UInt32.toNat_inj, hadd hlt, eq_comm, and_iff_right hlt]

end RetryPolicy

/-- Makes the attempts from the one with this counter on, with a pause before each of the
    others, until one of them succeeds or the policy allows no more. -/
def retryFrom {m : Type → Type} [Monad m] (pause : m Unit) (p : RetryPolicy)
    (attempt : m (Except ε α)) (counter : UInt32) : m (Except ε α) := do
  match ← attempt with
  | .ok a => return .ok a
  | .error e =>
    match _h : p.next? counter with
    | none => return .error e
    | some next =>
      pause
      retryFrom pause p attempt next
termination_by p.attempts - counter.toNat
decreasing_by
  obtain ⟨hlt, hnext⟩ := RetryPolicy.next?_eq_some_iff.1 _h
  omega

/-- Attempts an operation until it succeeds or the policy allows no more; gives the
    first success, or the error of the last attempt. -/
def retry {m : Type → Type} [Monad m] (sleep : UInt64 → m Unit) (p : RetryPolicy)
    (attempt : m (Except ε α)) : m (Except ε α) :=
  retryFrom (sleep p.delay) p attempt 1

/-! ## Counting down -/

/-- Makes one attempt, and up to `more` others while they fail, with a pause before each
    of those. -/
def retryMore {m : Type → Type} [Monad m] (pause : m Unit) (attempt : m (Except ε α)) :
    Nat → m (Except ε α)
  | 0 => attempt
  | more + 1 => do
    match ← attempt with
    | .ok a => return .ok a
    | .error _ =>
      pause
      retryMore pause attempt more

section Countdown

variable {m : Type → Type} [Monad m] (pause : m Unit) (p : RetryPolicy) (attempt : m (Except ε α))

theorem retryFrom_eq (counter : UInt32) :
    retryFrom pause p attempt counter = attempt >>= fun
      | .ok a => pure (.ok a)
      | .error e =>
        match p.next? counter with
        | none => pure (.error e)
        | some next => pause >>= fun _ => retryFrom pause p attempt next := by
  rw [retryFrom]
  congr
  funext outcome
  cases outcome with
  | ok a => rfl
  | error e =>
    dsimp only
    split <;> rename_i h <;> rw [h]

variable [LawfulMonad m]

/-- While the policy allows `more` attempts after the one with this counter. -/
theorem retryFrom_eq_retryMore {more : Nat} {counter : UInt32}
    (h : counter.toNat + more = p.attempts) :
    retryFrom pause p attempt counter = retryMore pause attempt more := by
  induction more generalizing counter with
  | zero =>
    have hlast : p.next? counter = none := RetryPolicy.next?_eq_none_iff.2 (by omega)
    have hgives : ∀ outcome : Except ε α, (match outcome with
        | .ok a => pure (.ok a)
        | .error e => pure (.error e) : m (Except ε α)) = pure outcome := by
      intro outcome
      cases outcome <;> rfl
    rw [retryFrom_eq, hlast]
    simp only [hgives, bind_pure]
    rfl
  | succ more ih =>
    obtain ⟨next, hnext⟩ := Option.ne_none_iff_exists'.1
      (mt RetryPolicy.next?_eq_none_iff.1 (show ¬ p.attempts ≤ counter.toNat by omega))
    obtain ⟨-, hcount⟩ := RetryPolicy.next?_eq_some_iff.1 hnext
    rw [retryFrom_eq, hnext]
    simp only [ih (show next.toNat + more = p.attempts by omega)]
    rfl

/-- The attempts that remain after the first can be counted down instead. -/
theorem retry_eq_retryMore (sleep : UInt64 → m Unit) :
    retry sleep p attempt = retryMore (sleep p.delay) attempt (p.attempts - 1) := by
  have hpos := p.attempts_pos
  exact retryFrom_eq_retryMore _ p attempt (show (1 : UInt32).toNat + _ = _ by
    rw [UInt32.toNat_one]; omega)

end Countdown

end VpnNode
