import VpnNode.Chain.Client
import VpnNode.Proofs.Chain.Calls

/-!
# The protocol of a broadcast

A broadcast is two loops of attempts, one after the other. The first hands the
transaction in, and here an error can be a success: a pool that holds the transaction
already names its hash. The second polls for the transaction under that hash, and here
an answer can be a failure: the transaction was executed with an error.

The chain may answer as it likes: the surroundings that answer the requests are
arbitrary, with a state of their own.

Main statements:

* `accepted_eq_ok_iff`, `accepted_eq_error_iff`: how the answer to a submission is read.
* `run_submit`, `run_confirm`: the calls that each loop makes, and what it gives.
* `broadcast_protocol`: the calls that a broadcast makes, and what it gives.
-/

namespace VpnNode.Chain

/-! ## Submission -/

/-- A submission is accepted under a hash: the chain takes the transaction with code 0, or
    its pool holds the transaction already. -/
inductive Accepts : Except Error Receipt → String → Prop
  | taken {receipt : Receipt} (h : receipt.code = 0) : Accepts (.ok receipt) receipt.hash
  | pooled (hash : String) : Accepts (.error (.alreadyPooled hash)) hash

/-- A submission is refused for a reason: the chain answers with another code, or with any
    other error. -/
inductive Refuses : Except Error Receipt → Error → Prop
  | code {receipt : Receipt} (h : receipt.code ≠ 0) :
    Refuses (.ok receipt) (.rejected receipt.code receipt.log)
  | error {e : Error} (h : ∀ hash, e ≠ .alreadyPooled hash) : Refuses (.error e) e

theorem Receipt.isOk_iff {receipt : Receipt} : receipt.isOk ↔ receipt.code = 0 := beq_iff_eq

theorem Inclusion.isOk_iff {i : Inclusion} : i.isOk ↔ i.code = 0 := beq_iff_eq

/-- Every submission is accepted or refused, and is read as such. -/
theorem accepted_cases (outcome : Except Error Receipt) :
    (∃ hash, accepted outcome = .ok hash ∧ Accepts outcome hash) ∨
      ∃ e, accepted outcome = .error e ∧ Refuses outcome e := by
  rcases outcome with e | receipt
  · by_cases h : ∃ hash, e = .alreadyPooled hash
    · obtain ⟨hash, rfl⟩ := h
      exact .inl ⟨hash, rfl, .pooled hash⟩
    · have hother : ∀ hash, e ≠ .alreadyPooled hash := fun hash he => h ⟨hash, he⟩
      refine .inr ⟨e, ?_, .error hother⟩
      cases e with
      | alreadyPooled hash => exact absurd rfl (hother hash)
      | _ => rfl
  · by_cases h : receipt.code = 0
    · exact .inl ⟨receipt.hash, if_pos (Receipt.isOk_iff.2 h), .taken h⟩
    · exact .inr ⟨_, if_neg fun hok => h (Receipt.isOk_iff.1 hok), .code h⟩

/-- No submission is both accepted and refused, or has two hashes. -/
theorem Accepts.unique {outcome : Except Error Receipt} {hash : String}
    (h : Accepts outcome hash) :
    (∀ hash', Accepts outcome hash' → hash' = hash) ∧ ∀ e, ¬Refuses outcome e := by
  cases h with
  | taken h =>
    refine ⟨fun hash' h' => ?_, fun e h' => ?_⟩
    · cases h' with
      | taken _ => rfl
    · cases h' with
      | code hne => exact hne h
  | pooled hash =>
    refine ⟨fun hash' h' => ?_, fun e h' => ?_⟩
    · cases h' with
      | pooled _ => rfl
    · cases h' with
      | error hne => exact hne hash rfl

theorem accepted_eq_ok_iff {outcome : Except Error Receipt} {hash : String} :
    accepted outcome = .ok hash ↔ Accepts outcome hash := by
  rcases accepted_cases outcome with ⟨hash', heq, haccepts⟩ | ⟨e, heq, hrefuses⟩
  · rw [heq, Except.ok.injEq]
    constructor
    · rintro rfl
      exact haccepts
    · exact fun h => h.unique.1 _ haccepts
  · rw [heq]
    exact ⟨nofun, fun h => absurd hrefuses (h.unique.2 e)⟩

theorem accepted_eq_error_iff {outcome : Except Error Receipt} {e : Error} :
    accepted outcome = .error e ↔ Refuses outcome e := by
  rcases accepted_cases outcome with ⟨hash, heq, haccepts⟩ | ⟨e', heq, hrefuses⟩
  · rw [heq]
    exact ⟨nofun, fun h => absurd h (haccepts.unique.2 e)⟩
  · rw [heq, Except.error.injEq]
    constructor
    · rintro rfl
      exact hrefuses
    · intro h
      cases hrefuses with
      | code _ => cases h; rfl
      | error _ => cases h; rfl

variable (answer : (r : Request) → σ → r.Answer × σ)

/-- The submissions of a transaction: refused ones, as many as are allowed, up to the first
    that is accepted. -/
theorem run_submit (p : Policies) (batch : List Message) (s : σ) :
    ∃ refused last s',
      (submit p batch).run answer s = (.value (accepted last), s') ∧
      calls ((submit p batch).exchanges answer s) =
        (refused ++ [last]).map (Call.submission batch) ∧
      Attempted p.broadcast.attempts (fun outcome => ∃ e, Refuses outcome e) refused last := by
  obtain ⟨refused, last, s', hrun, hexchanges, hattempted⟩ :=
    retry_request answer p.broadcast (.submit batch) accepted s
  have hcalls : calls ((submit p batch).exchanges answer s) =
      (refused ++ [last]).map (Call.submission batch) :=
    (congrArg calls hexchanges).trans (calls_attemptExchanges (fun _ => rfl) _ refused last)
  have hiff : (fun outcome => ∃ e, accepted outcome = .error e) =
      fun outcome => ∃ e, Refuses outcome e := by
    funext outcome
    simp only [accepted_eq_error_iff]
  exact ⟨refused, last, s', hrun, hcalls, hiff ▸ hattempted⟩

/-! ## Confirmation -/

/-- The polls for a transaction: failed ones, as many as are allowed, up to the first that
    finds it. -/
theorem run_confirm (p : Policies) (hash : String) (s : σ) :
    ∃ failed last s',
      (confirm p hash).run answer s = (.value last, s') ∧
      calls ((confirm p hash).exchanges answer s) = (failed ++ [last]).map (Call.poll hash) ∧
      Attempted p.confirm.attempts (fun outcome => ∃ e, outcome = .error e) failed last := by
  obtain ⟨failed, last, s', hrun, hexchanges, hattempted⟩ :=
    retry_request answer p.confirm (.pollTransaction hash) id s
  have hcalls : calls ((confirm p hash).exchanges answer s) =
      (failed ++ [last]).map (Call.poll hash) :=
    (congrArg calls hexchanges).trans (calls_attemptExchanges (fun _ => rfl) _ failed last)
  exact ⟨failed, last, s', hrun, hcalls, hattempted⟩

/-- What a broadcast gives after its last poll. -/
inductive Concludes : Except Error Inclusion → Except Error Inclusion → Prop
  | executed {i : Inclusion} (h : i.code = 0) : Concludes (.ok i) (.ok i)
  | rejected {i : Inclusion} (h : i.code ≠ 0) : Concludes (.ok i) (.error (.rejected i.code i.log))
  | unconfirmed (e : Error) : Concludes (.error e) (.error e)

theorem concludes_executed (i : Inclusion) : Concludes (.ok i) (executed i) := by
  unfold executed
  by_cases h : i.code = 0
  · rw [if_pos (Inclusion.isOk_iff.2 h)]
    exact .executed h
  · rw [if_neg fun hok => h (Inclusion.isOk_iff.1 hok)]
    exact .rejected h

/-! ## Broadcasts -/

/-- What is left of a broadcast after its submissions. -/
def afterSubmission (p : Policies) : Except Error String → Program (Except Error Inclusion)
  | .error e => .done (.error e)
  | .ok hash => (confirm p hash).bind fun
    | .error e => .done (.error e)
    | .ok i => .done (executed i)

/-- A broadcast of messages, in its parts. -/
theorem broadcast_eq {batch : List Message} (h : batch ≠ []) (p : Policies) :
    broadcast p batch = .ask .lockAccount fun _ =>
      (submit p batch).bind fun submitted => .ask .unlockAccount fun _ =>
        afterSubmission p submitted := by
  unfold broadcast
  rw [if_neg (by simpa using h)]
  rfl

/-- A broadcast whose first submission is accepted. -/
theorem broadcast_eq_ask (p : Policies) {batch : List Message} (h : batch ≠ []) :
    ∃ next, broadcast p batch = .ask .lockAccount (fun _ => .ask (.submit batch) next) ∧
      ∀ a hash, Accepts a hash → ∃ rest, next a =
        .ask .unlockAccount fun _ => .ask (.pollTransaction hash) rest := by
  obtain ⟨next, hnext, hfirst⟩ := retry_eq_ask p.broadcast (.submit batch) accepted
  refine ⟨fun a => (next a).bind fun submitted => .ask .unlockAccount fun _ =>
    afterSubmission p submitted, ?_, fun a hash ha => ?_⟩
  · rw [broadcast_eq h, show submit p batch = _ from hnext]
    rfl
  · obtain ⟨rest, hrest, -⟩ := retry_eq_ask p.confirm (.pollTransaction hash) id
    have hdone : next a = .done (.ok hash) := hfirst a hash (accepted_eq_ok_iff.2 ha)
    have hconfirm : confirm p hash = .ask (.pollTransaction hash) rest := hrest
    show ∃ rest, (next a).bind _ = _
    rw [hdone, Program.bind_done, afterSubmission, hconfirm]
    exact ⟨_, rfl⟩

/-- After a submission that is accepted the transaction is polled for under its hash. -/
theorem run_afterSubmission_ok (p : Policies) (hash : String) (s : σ) :
    ∃ failed last result s',
      (afterSubmission p (.ok hash)).run answer s = (.value result, s') ∧
      calls ((afterSubmission p (.ok hash)).exchanges answer s) =
        (failed ++ [last]).map (Call.poll hash) ∧
      Attempted p.confirm.attempts (fun outcome => ∃ e, outcome = .error e) failed last ∧
      Concludes last result := by
  obtain ⟨failed, last, s', hrun, hcalls, hattempted⟩ := run_confirm answer p hash s
  obtain ⟨hrest, hexchanges⟩ := Program.bind_of_run (f := fun
    | .error e => .done (.error e)
    | .ok i => .done (executed i)) hrun
  cases last with
  | error e =>
    refine ⟨failed, .error e, .error e, s', hrest, ?_, hattempted, .unconfirmed e⟩
    rw [← hcalls]
    exact congrArg calls (hexchanges.trans (List.append_nil _))
  | ok i =>
    refine ⟨failed, .ok i, executed i, s', hrest, ?_, hattempted, concludes_executed i⟩
    rw [← hcalls]
    exact congrArg calls (hexchanges.trans (List.append_nil _))

/-- The protocol of a broadcast, against a chain that answers as it likes. A batch without
    messages is refused without a call. Any other is submitted, unchanged, until a
    submission is accepted or no other is allowed. If the last one is refused, its reason is
    the result and nothing is polled. Otherwise the transaction is polled for under the
    hash of that submission and no other, until it is found or no other poll is allowed; the
    last poll decides the result. -/
theorem broadcast_protocol (p : Policies) (batch : List Message) (s : σ) :
    ∃ result s', (broadcast p batch).run answer s = (.value result, s') ∧
      (batch = [] → (broadcast p batch).exchanges answer s = [] ∧
        result = .error (.invalidRequest "transaction has no messages")) ∧
      (batch ≠ [] → ∃ refused last polls,
        calls ((broadcast p batch).exchanges answer s) =
          (refused ++ [last]).map (Call.submission batch) ++ polls ∧
        Attempted (max 1 p.broadcast.maxAttempts.toNat) (fun outcome => ∃ e, Refuses outcome e)
          refused last ∧
        ((∃ e, Refuses last e ∧ polls = [] ∧ result = .error e) ∨
          ∃ hash, Accepts last hash ∧ ∃ failed lastPoll,
            polls = (failed ++ [lastPoll]).map (Call.poll hash) ∧
            Attempted (max 1 p.confirm.maxAttempts.toNat) (fun outcome => ∃ e, outcome = .error e)
              failed lastPoll ∧
            Concludes lastPoll result)) := by
  by_cases hbatch : batch = []
  · subst hbatch
    exact ⟨_, s, rfl, fun _ => ⟨rfl, rfl⟩, fun h => absurd rfl h⟩
  · obtain ⟨refused, last, s₁, hrun, hcalls, hattempted⟩ :=
      run_submit answer p batch (answer .lockAccount s).2
    obtain ⟨hrest, hexchanges⟩ := Program.bind_of_run (f := fun submitted =>
      .ask .unlockAccount fun _ => afterSubmission p submitted) hrun
    -- Locking and unlocking are no calls to the chain.
    have hall : ∀ rest, (afterSubmission p (accepted last)).exchanges answer
        (answer .unlockAccount s₁).2 = rest →
        calls ((broadcast p batch).exchanges answer s) =
          (refused ++ [last]).map (Call.submission batch) ++ calls rest := by
      rintro rest rfl
      have hlock : calls ((broadcast p batch).exchanges answer s) =
          calls (((submit p batch).bind fun submitted => .ask .unlockAccount fun _ =>
            afterSubmission p submitted).exchanges answer (answer .lockAccount s).2) := by
        rw [broadcast_eq hbatch]
        rfl
      rw [hlock, hexchanges, calls_append, hcalls]
      rfl
    have hsame : (broadcast p batch).run answer s =
        (afterSubmission p (accepted last)).run answer (answer .unlockAccount s₁).2 := by
      rw [broadcast_eq hbatch]
      exact hrest
    rcases accepted_cases last with ⟨hash, hok, haccepts⟩ | ⟨e, herror, hrefuses⟩
    · rw [hok] at hall hsame
      obtain ⟨failed, lastPoll, result, s', hconfirm, hpolls, hpolled, hconcludes⟩ :=
        run_afterSubmission_ok answer p hash (answer .unlockAccount s₁).2
      refine ⟨result, s', hsame.trans hconfirm, fun h => absurd h hbatch, fun _ => ?_⟩
      refine ⟨refused, last, _, hall _ rfl, hattempted, .inr ⟨hash, haccepts, ?_⟩⟩
      exact ⟨failed, lastPoll, hpolls, hpolled, hconcludes⟩
    · rw [herror] at hall hsame
      refine ⟨.error e, _, hsame, fun h => absurd h hbatch, fun _ => ?_⟩
      exact ⟨refused, last, _, hall [] rfl, hattempted, .inl ⟨e, hrefuses, rfl, rfl⟩⟩

end VpnNode.Chain
