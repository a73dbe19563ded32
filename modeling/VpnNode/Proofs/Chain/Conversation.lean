import VpnNode.Proofs.Chain.Broadcast

/-!
# Queries and broadcasts as calls

A query that is retried is answered within the attempts that it has, or it fails with the error
of the last. A broadcast submits one batch again and again and then polls for one hash. Both say
what they come to in terms of the calls that were made.

Main statements:

* `run_querySession`: the calls of a query, and what it gives.
* `run_broadcast`: the calls of a broadcast, and what it gives.
-/

namespace VpnNode.Chain

/-- The calls of a query for a session that may be attempted a number of times, and what it
    gives, where `known` are the sessions of the chain. -/
inductive Queried (known : UInt64 → Option Session) (allowed : Nat) (id : UInt64) :
    List Call → Except Error (Option Session) → Prop
  /-- Fewer attempts have failed than are allowed. -/
  | answered {failures : List Error} (h : failures.length < allowed) :
    Queried known allowed id
      (failures.map (fun e => .query id (.error e)) ++ [.query id (.ok (known id))])
      (.ok (known id))
  /-- All attempts have failed. -/
  | exhausted {failures : List Error} {last : Error} (h : failures.length + 1 = allowed) :
    Queried known allowed id ((failures ++ [last]).map fun e => .query id (.error e)) (.error last)

/-- A query that is answered gives the session. -/
theorem Queried.eq_known {known : UInt64 → Option Session} {allowed : Nat} {id : UInt64}
    {made : List Call} {x : Option Session} (h : Queried known allowed id made (.ok x)) :
    x = known id := by
  cases h
  rfl

/-- The calls of a broadcast of a batch, and what it gives. -/
inductive Broadcasts (p : Policies) (batch : List Message) :
    List Call → Except Error Inclusion → Prop
  /-- All submissions were refused. -/
  | refused {outcomes : List (Except Error Receipt)} {last : Except Error Receipt} {e : Error}
    (h : Attempted p.broadcast.attempts (fun outcome => ∃ e, Refuses outcome e) outcomes last)
    (hlast : Refuses last e) :
    Broadcasts p batch ((outcomes ++ [last]).map (.submission batch)) (.error e)
  /-- The last submission was accepted, and the transaction was polled for. -/
  | polled {outcomes : List (Except Error Receipt)} {last : Except Error Receipt} {hash : String}
    {polls : List (Except Error Inclusion)} {lastPoll result : Except Error Inclusion}
    (h : Attempted p.broadcast.attempts (fun outcome => ∃ e, Refuses outcome e) outcomes last)
    (hlast : Accepts last hash)
    (hpolls : Attempted p.confirm.attempts (fun outcome => ∃ e, outcome = .error e) polls lastPoll)
    (hresult : Concludes lastPoll result) :
    Broadcasts p batch ((outcomes ++ [last]).map (.submission batch) ++
      (polls ++ [lastPoll]).map (.poll hash)) result

variable {answer : (r : Request) → σ → r.Answer × σ} {known : UInt64 → Option Session}

/-- Outcomes that are all errors. -/
theorem exists_map_error {outcomes : List (Except ε α)} (h : ∀ x ∈ outcomes, ∃ e, x = .error e) :
    ∃ errors : List ε, outcomes = errors.map .error := by
  induction outcomes with
  | nil => exact ⟨[], rfl⟩
  | cons x outcomes ih =>
    rw [List.forall_mem_cons] at h
    obtain ⟨⟨e, rfl⟩, h⟩ := h
    obtain ⟨errors, rfl⟩ := ih h
    exact ⟨e :: errors, rfl⟩

/-- Attempts at a query whose last answer, if it is one, gives the session. -/
theorem queried_of_attempted {allowed : Nat} {id : UInt64}
    {failed : List (Except Error (Option Session))} {last : Except Error (Option Session)}
    (h : Attempted allowed (fun x => ∃ e, x = .error e) failed last)
    (hlast : ∀ x, last = .ok x → x = known id) :
    Queried known allowed id ((failed ++ [last]).map (.query id)) last := by
  obtain ⟨failures, rfl⟩ := exists_map_error h.fails_of_mem
  have hlength := h.length_lt
  rw [List.length_map] at hlength
  cases last with
  | error e =>
    have hexhausted := h.exhausted ⟨e, rfl⟩
    rw [List.length_map] at hexhausted
    have hall : failures.map Except.error ++ [.error e] =
        (failures ++ [e]).map (Except.error (α := Option Session)) := by
      rw [List.map_append, List.map_singleton]
    rw [hall, List.map_map]
    exact .exhausted hexhausted
  | ok x =>
    obtain rfl := hlast x rfl
    rw [List.map_append, List.map_map]
    exact .answered hlength

/-- A query, put to a chain whose answers give its sessions. -/
theorem run_querySession
    (hknown : ∀ id s x, (answer (.querySession id) s).1 = .ok x → x = known id) (p : Policies)
    (id : UInt64) (s : σ) :
    ∃ x s', (querySession p id).run answer s = (.value x, s') ∧
      Queried known p.query.attempts id (calls ((querySession p id).exchanges answer s)) x := by
  obtain ⟨failed, last, s', hrun, hexchanges, hattempted⟩ :=
    retry_request answer p.query (.querySession id) (fun a => a) s
  have hcalls : calls ((querySession p id).exchanges answer s) =
      (failed ++ [last]).map (Call.query id) :=
    (congrArg calls hexchanges).trans (calls_attemptExchanges (fun _ => rfl) _ failed last)
  have hlast : (⟨.querySession id, last⟩ : Program.Exchange) ∈
      attemptExchanges p.query.delay (.querySession id) failed last :=
    List.mem_append_right _ (List.mem_singleton_self _)
  rw [← hexchanges] at hlast
  obtain ⟨s₁, hs₁⟩ := Program.answer_of_mem_exchanges hlast
  refine ⟨last, s', hrun, ?_⟩
  rw [hcalls]
  exact queried_of_attempted hattempted fun x hx => hknown id s₁ x (hs₁.symm.trans hx)

/-- A broadcast of a batch that has messages. -/
theorem run_broadcast (p : Policies) {batch : List Message} (hbatch : batch ≠ []) (s : σ) :
    ∃ result s', (broadcast p batch).run answer s = (.value result, s') ∧
      Broadcasts p batch (calls ((broadcast p batch).exchanges answer s)) result := by
  obtain ⟨outcomes, last, s₁, hrun, hcalls, hattempted⟩ :=
    run_submit answer p batch (answer .lockAccount s).2
  obtain ⟨hrest, hexchanges⟩ := Program.bind_of_run (f := fun submitted =>
    .ask .unlockAccount fun _ => afterSubmission p submitted) hrun
  have hlocked : calls ((broadcast p batch).exchanges answer s) =
      (outcomes ++ [last]).map (.submission batch) ++
        calls ((afterSubmission p (accepted last)).exchanges answer
          (answer .unlockAccount s₁).2) := by
    rw [broadcast_eq hbatch, ← hcalls]
    exact (congrArg calls hexchanges).trans (calls_append _ _)
  rw [broadcast_eq hbatch] at hlocked ⊢
  rw [hlocked]
  rcases accepted_cases last with ⟨hash, hok, haccepts⟩ | ⟨e, herror, hrefuses⟩
  · obtain ⟨polls, lastPoll, result, s', hconfirm, hpolls, hpolled, hconcludes⟩ :=
      run_afterSubmission_ok answer p hash (answer .unlockAccount s₁).2
    rw [hok] at hrest ⊢
    rw [hpolls]
    exact ⟨result, s', hrest.trans hconfirm, .polled hattempted haccepts hpolled hconcludes⟩
  · rw [herror] at hrest ⊢
    refine ⟨.error e, _, hrest, ?_⟩
    have h : Broadcasts p batch ((outcomes ++ [last]).map (.submission batch)) (.error e) :=
      .refused hattempted hrefuses
    rwa [← List.append_nil (List.map _ _)] at h

end VpnNode.Chain
