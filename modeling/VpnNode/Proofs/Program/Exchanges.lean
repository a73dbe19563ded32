import VpnNode.Program
import VpnNode.Retry

/-!
# What a task asks and is told

A task that runs alone leaves a record of exchanges: its requests, each with its answer.
A request that is retried shows in that record as failed attempts, each followed by a
pause, and one last attempt that need not fail.

Main statements:

* `exchanges_bind`: the exchanges of a composed task are those of its parts.
* `retry_request`: what a retried request comes to against surroundings that answer as
  they like.
-/

namespace VpnNode

namespace Program

/-- A request, and the answer to it. -/
structure Exchange where
  request : Request
  answer : request.Answer

variable {answer : (r : Request) → σ → r.Answer × σ}

/-- What a task that runs alone asks of its surroundings and is told, in order. -/
def exchanges (answer : (r : Request) → σ → r.Answer × σ) : Program α → σ → List Exchange
  | .done _, _ => []
  | .abort _, _ => []
  | .ask r next, s =>
    let (a, s) := answer r s
    ⟨r, a⟩ :: exchanges answer (next a) s

/-- The exchanges of a composed task are those of its parts, one after the other. -/
theorem exchanges_bind (p : Program α) (f : α → Program β) (s : σ) :
    (p.bind f).exchanges answer s = p.exchanges answer s ++
      match p.run answer s with
      | (.value a, s) => (f a).exchanges answer s
      | (.broken _, _) => [] := by
  induction p generalizing s with
  | done a => rfl
  | abort message => rfl
  | ask r next ih => simp only [bind, exchanges, run, ih, List.cons_append]

/-- Every exchange is answered by the surroundings, in some state. -/
theorem answer_of_mem_exchanges {p : Program α} {s : σ} {e : Exchange}
    (he : e ∈ p.exchanges answer s) : ∃ s', e.answer = (answer e.request s').1 := by
  induction p generalizing s with
  | done a => exact absurd he List.not_mem_nil
  | abort message => exact absurd he List.not_mem_nil
  | ask r next ih =>
    rcases List.mem_cons.1 he with rfl | he
    · exact ⟨s, rfl⟩
    · exact ih _ he

/-- A task that goes on with the answer to a request. -/
theorem run_ask_of_answer {r : Request} {next : r.Answer → Program α} {s s' : σ} {a : r.Answer}
    (h : answer r s = (a, s')) : (ask r next).run answer s = (next a).run answer s' := by
  simp only [run, h]

/-- A task that goes on with the value of a part: how it runs, and what it asks. -/
theorem bind_of_run {p : Program α} {f : α → Program β} {s s' : σ} {a : α}
    (h : p.run answer s = (.value a, s')) :
    (p.bind f).run answer s = (f a).run answer s' ∧
      (p.bind f).exchanges answer s = p.exchanges answer s ++ (f a).exchanges answer s' := by
  rw [run_bind, exchanges_bind, h]
  exact ⟨rfl, rfl⟩

theorem run_bind_of_value {p : Program α} {f : α → Program β} {s s' : σ} {a : α}
    (h : p.run answer s = (.value a, s')) : (p >>= f).run answer s = (f a).run answer s' :=
  (bind_of_run h).1

end Program

open Program (Exchange)

/-! ## Attempts -/

/-- Attempts at something, of which a number is allowed: all but the last fail, and the
    last fails only if no other is allowed. -/
structure Attempted (allowed : Nat) (fails : α → Prop) (failed : List α) (last : α) : Prop where
  length_lt : failed.length < allowed
  fails_of_mem : ∀ a ∈ failed, fails a
  exhausted : fails last → failed.length + 1 = allowed

namespace Attempted

variable {allowed : Nat} {fails : α → Prop} {failed : List α} {a last : α}

/-- One attempt, which fails only if it is the only one. -/
theorem single (h : fails last → allowed = 1) (hpos : 0 < allowed) :
    Attempted allowed fails [] last where
  length_lt := hpos
  fails_of_mem := nofun
  exhausted hlast := (h hlast).symm

/-- A failed attempt before others. -/
theorem cons (ha : fails a) (h : Attempted allowed fails failed last) :
    Attempted (allowed + 1) fails (a :: failed) last where
  length_lt := Nat.succ_lt_succ h.length_lt
  fails_of_mem := List.forall_mem_cons.2 ⟨ha, h.fails_of_mem⟩
  exhausted hlast := congrArg (· + 1) (h.exhausted hlast)

theorem of_map {f : β → α} {failed : List β} {last : β}
    (h : Attempted allowed fails (failed.map f) (f last)) :
    Attempted allowed (fun b => fails (f b)) failed last where
  length_lt := by simpa using h.length_lt
  fails_of_mem b hb := h.fails_of_mem (f b) (List.mem_map_of_mem hb)
  exhausted hlast := by simpa using h.exhausted hlast

end Attempted

/-- The exchanges of attempts at a request, with a pause after each that fails. -/
def attemptExchanges (pause : UInt64) (r : Request) (failed : List r.Answer) (last : r.Answer) :
    List Exchange :=
  (failed.flatMap fun a => [⟨r, a⟩, ⟨.sleep pause, ()⟩]) ++ [⟨r, last⟩]

/-- An attempt: one request, and how its answer is read. -/
def attemptAt (r : Request) (read : r.Answer → Except ε α) : Program (Except ε α) :=
  .ask r fun a => .done (read a)

/-- A pause between two attempts. -/
def pauseFor (ms : UInt64) : Program Unit := .ask (.sleep ms) .done

theorem retryMore_succ (pause : Program Unit) (r : Request) (read : r.Answer → Except ε α)
    (more : Nat) :
    retryMore pause (attemptAt r read) (more + 1) = .ask r fun a =>
      match read a with
      | .ok x => .done (.ok x)
      | .error _ => pause.bind fun _ => retryMore pause (attemptAt r read) more :=
  rfl

/-- A retried request is put at once, and not again after a success. -/
theorem retry_eq_ask (p : RetryPolicy) (r : Request) (read : r.Answer → Except ε α) :
    ∃ next, retry pauseFor p (attemptAt r read) = .ask r next ∧
      ∀ a x, read a = .ok x → next a = .done (.ok x) := by
  rw [retry_eq_retryMore]
  cases p.attempts - 1 with
  | zero => exact ⟨fun a => .done (read a), rfl, fun a x h => congrArg Program.done h⟩
  | succ more =>
    refine ⟨_, retryMore_succ _ r read more, fun a x h => ?_⟩
    simp only [h]

variable (answer : (r : Request) → σ → r.Answer × σ)

/-- A request that is attempted up to `more` times again. -/
theorem retryMore_request (ms : UInt64) (r : Request) (read : r.Answer → Except ε α)
    (more : Nat) (s : σ) :
    ∃ failed last s',
      (retryMore (pauseFor ms) (attemptAt r read) more).run answer s = (.value (read last), s') ∧
      (retryMore (pauseFor ms) (attemptAt r read) more).exchanges answer s =
        attemptExchanges ms r failed last ∧
      Attempted (more + 1) (fun a => ∃ e, read a = .error e) failed last := by
  induction more generalizing s with
  | zero =>
    have hone : Attempted 1 (fun a => ∃ e, read a = .error e) [] (answer r s).1 :=
      .single (fun _ => rfl) Nat.one_pos
    exact ⟨[], (answer r s).1, (answer r s).2, rfl, rfl, hone⟩
  | succ more ih =>
    obtain ⟨a, s₁, ha⟩ : ∃ a s₁, answer r s = (a, s₁) := ⟨_, _, rfl⟩
    rw [retryMore_succ]
    simp only [Program.run, Program.exchanges, ha]
    cases hread : read a with
    | ok x =>
      have hone : Attempted (more + 1 + 1) (fun a => ∃ e, read a = .error e) [] a :=
        .single (fun h => by simp [hread] at h) (Nat.succ_pos _)
      refine ⟨[], a, s₁, ?_, rfl, hone⟩
      rw [hread]
      rfl
    | error e =>
      obtain ⟨failed, last, s', hrun, hexchanges, hattempted⟩ := ih (answer (.sleep ms) s₁).2
      refine ⟨a :: failed, last, s', hrun, ?_, hattempted.cons ⟨e, hread⟩⟩
      exact congrArg (fun rest => ⟨r, a⟩ :: ⟨.sleep ms, ()⟩ :: rest) hexchanges

/-- What a retried request comes to: the attempts that the policy allows, up to the first
    that succeeds, and the result of the last one made. -/
theorem retry_request (p : RetryPolicy) (r : Request) (read : r.Answer → Except ε α) (s : σ) :
    ∃ failed last s',
      (retry pauseFor p (attemptAt r read)).run answer s = (.value (read last), s') ∧
      (retry pauseFor p (attemptAt r read)).exchanges answer s =
        attemptExchanges p.delay r failed last ∧
      Attempted p.attempts (fun a => ∃ e, read a = .error e) failed last := by
  have h := retryMore_request answer p.delay r read (p.attempts - 1) s
  rwa [Nat.sub_add_cancel p.attempts_pos, ← retry_eq_retryMore] at h

end VpnNode
