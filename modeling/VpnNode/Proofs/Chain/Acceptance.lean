import VpnNode.Proofs.Admission.Decision
import VpnNode.Proofs.Chain.Broadcast
import VpnNode.Proofs.Simulation.Network

/-!
# Accepted submissions and their hashes

A submission that is accepted is polled for under its hash. The gateway says with a status and
a body whether it has taken the transaction. Each member of the body has a default: a body
without a code has the code of success, and one without a hash the empty hash. A duplicate
counts as accepted only under a hash; a success counts without one.

Main statements:

* `accepts_submit_iff`: which answers of the gateway are read as an acceptance.
* `submit_traffic`: what the gateway is sent and answers, and what comes of it.
* `polls_iff_taken`: for which hash a broadcast polls.
-/

namespace VpnNode

open Http (Response)

/-! ## Answers of the gateway -/

namespace Gateway

/-- The receipt in a body, where members that are missing have their defaults. -/
def receipt? (r : Response) : Option Chain.Receipt :=
  r.text.toOption.bind receiptRecord.read.ofText?

/-- An answer says that the transaction is taken, under a hash. -/
inductive Takes (r : Response) (hash : String) : Prop
  /-- It is a success with code 0. The hash is what the body has in its place, if anything. -/
  | success {receipt : Chain.Receipt} (hread : receipt? r = some receipt)
    (hhash : receipt.hash = hash) (hsuccess : r.isSuccess = true) (hcode : receipt.code = 0)
  /-- It refuses a duplicate, and names it. -/
  | duplicate {receipt : Chain.Receipt} (hread : receipt? r = some receipt)
    (hhash : receipt.hash = hash) (hrefused : r.isSuccess = true → receipt.code ≠ 0)
    (hne : hash ≠ "") (hlog : Chain.saysDuplicate receipt.log)

theorem not_takes_of_unread {r : Response} {hash : String} (h : receipt? r = none) :
    ¬Takes r hash := by
  intro htakes
  cases htakes with
  | success hread | duplicate hread =>
    rw [h] at hread
    cases hread

theorem takes_iff_of_read {r : Response} {receipt : Chain.Receipt} {hash : String}
    (h : receipt? r = some receipt) :
    Takes r hash ↔ receipt.hash = hash ∧
      if r.isSuccess = true ∧ receipt.code = 0 then True
      else hash ≠ "" ∧ Chain.saysDuplicate receipt.log := by
  constructor
  · intro htakes
    cases htakes with
    | success hread hhash hsuccess hcode =>
      obtain rfl := Option.some.inj (h.symm.trans hread)
      exact ⟨hhash, by rw [if_pos ⟨hsuccess, hcode⟩]; trivial⟩
    | duplicate hread hhash hrefused hne hlog =>
      obtain rfl := Option.some.inj (h.symm.trans hread)
      exact ⟨hhash, by rw [if_neg fun hok => hrefused hok.1 hok.2]; exact ⟨hne, hlog⟩⟩
  · rintro ⟨hhash, hif⟩
    split at hif
    · rename_i hok
      exact .success h hhash hok.1 hok.2
    · rename_i hrefused
      exact .duplicate h hhash (fun hsuccess hcode => hrefused ⟨hsuccess, hcode⟩) hif.1 hif.2

/-- An answer, if there is one, says that the transaction is taken under a hash. -/
def Taken (answer : Option Response) (hash : String) : Prop := ∃ r, answer = some r ∧ Takes r hash

/-- A transaction is taken without a hash exactly if the answer is a success with code 0 whose
    body has no hash. -/
theorem taken_empty_iff {answer : Option Response} :
    Taken answer "" ↔ ∃ r receipt, answer = some r ∧ receipt? r = some receipt ∧
      r.isSuccess = true ∧ receipt.code = 0 ∧ receipt.hash = "" := by
  constructor
  · rintro ⟨r, rfl, htakes⟩
    cases htakes with
    | success hread hhash hsuccess hcode => exact ⟨r, _, rfl, hread, hsuccess, hcode, hhash⟩
    | duplicate _ _ _ hne _ => exact absurd rfl hne
  · rintro ⟨r, receipt, rfl, hread, hsuccess, hcode, hhash⟩
    exact ⟨r, rfl, .success hread hhash hsuccess hcode⟩

variable {base hash : String} {tx : Chain.TxOptions} {batch : List Chain.Message}

open Chain (Accepts)

theorem accepts_ok_iff {receipt : Chain.Receipt} :
    Accepts (.ok receipt) hash ↔ receipt.code = 0 ∧ receipt.hash = hash := by
  constructor
  · rintro ⟨hcode⟩
    exact ⟨hcode, rfl⟩
  · rintro ⟨hcode, rfl⟩
    exact .taken hcode

theorem accepts_error_iff {e : Chain.Error} :
    Accepts (.error e) hash ↔ e = .alreadyPooled hash := by
  constructor
  · rintro ⟨⟩
    rfl
  · rintro rfl
    exact .pooled hash

/-- A refusal is read as an acceptance exactly if it names a duplicate. -/
theorem refusal_eq_alreadyPooled_iff {body : String} {receipt : Option Chain.Receipt} :
    refusal body receipt = .alreadyPooled hash ↔
      ∃ r, receipt = some r ∧ r.hash = hash ∧ hash ≠ "" ∧ Chain.saysDuplicate r.log := by
  cases receipt with
  | none => simp [refusal, Chain.Error.ofBroadcastMessage]
  | some r =>
    rw [refusal, Chain.Error.ofBroadcastMessage_eq_alreadyPooled_iff]
    constructor
    · rintro ⟨hnamed, hlog⟩
      split at hnamed
      · cases hnamed
      · rename_i hempty
        obtain rfl : r.hash = hash := Option.some.inj hnamed
        exact ⟨r, rfl, rfl, fun h => hempty (String.isEmpty_iff.2 h), hlog⟩
    · rintro ⟨_, ⟨⟩, rfl, hne, hlog⟩
      exact ⟨if_neg fun hempty => hne (String.isEmpty_iff.1 hempty), hlog⟩

/-- A status and a text that are read as an acceptance. -/
theorem accepts_readSubmission_iff {r : Response} {body : String}
    (hbody : receipt? r = receiptRecord.read.ofText? body) :
    Accepts (readSubmission r.isSuccess body) hash ↔ Takes r hash := by
  unfold readSubmission
  rw [← hbody]
  cases hread : receipt? r with
  | none =>
    refine iff_of_false (fun h => ?_) (not_takes_of_unread hread)
    cases hsuccess : r.isSuccess with
    | false =>
      rw [hsuccess] at h
      obtain ⟨_, hnone, _⟩ := refusal_eq_alreadyPooled_iff.1 (accepts_error_iff.1 h)
      cases hnone
    | true =>
      rw [hsuccess] at h
      exact nomatch accepts_error_iff.1 h
  | some receipt =>
    rw [takes_iff_of_read hread]
    cases hsuccess : r.isSuccess with
    | false =>
      refine accepts_error_iff.trans (refusal_eq_alreadyPooled_iff.trans ?_)
      simp only [Option.some.injEq, exists_eq_left', Bool.false_eq_true, false_and, if_false]
    | true =>
      by_cases hcode : receipt.code = 0
      · have hok : receipt.isOk = true := Chain.Receipt.isOk_iff.2 hcode
        simp only [hok, hcode, Bool.not_true, Bool.false_and, Bool.false_eq_true, if_false,
          accepts_ok_iff, and_self, if_true, true_and, and_true]
      · have hok : receipt.isOk = false :=
          Bool.eq_false_iff.2 fun h => hcode (Chain.Receipt.isOk_iff.1 h)
        simp only [hok, hcode, Bool.not_true, Bool.not_false, Bool.false_eq_true, if_false,
          Bool.true_and, true_and]
        cases hdup : !receipt.hash.isEmpty && Chain.saysDuplicate receipt.log with
        | true =>
          obtain ⟨hne, hlog⟩ := Bool.and_eq_true_iff.1 hdup
          rw [if_pos rfl, accepts_error_iff, Chain.Error.alreadyPooled.injEq]
          refine ⟨fun hhash => ⟨hhash, fun hempty => ?_, hlog⟩, And.left⟩
          rw [hhash, hempty] at hne
          cases hne
        | false =>
          rw [if_neg Bool.false_ne_true, accepts_ok_iff]
          refine iff_of_false (fun h => hcode h.1) fun ⟨hhash, hne, hlog⟩ => ?_
          rw [hlog, Bool.and_true, hhash, Bool.not_eq_false'] at hdup
          exact hne (String.isEmpty_iff.1 hdup)

/-- The answers of the gateway that are read as an acceptance. -/
theorem accepts_submit_iff {answer : Option Response} :
    Accepts ((submit base tx batch).answer answer) hash ↔ Taken answer hash := by
  cases answer with
  | none =>
    rw [Http.Call.answer_none]
    exact accepts_error_iff.trans ⟨nofun, fun ⟨r, hr, _⟩ => nomatch hr⟩
  | some r =>
    have htaken : Taken (some r) hash ↔ Takes r hash := by simp [Taken]
    rw [htaken]
    cases hbody : r.text with
    | error f =>
      have hanswer : (submit base tx batch).answer (some r) = .error (transport f) := by
        simp only [submit, Http.Call.answer, hbody]
      have hunread : receipt? r = none := by
        rw [receipt?, hbody]
        rfl
      rw [hanswer, accepts_error_iff]
      exact iff_of_false nofun (not_takes_of_unread hunread)
    | ok body =>
      have hanswer : (submit base tx batch).answer (some r) =
          readSubmission r.isSuccess body := by
        simp only [submit, Http.Call.answer, hbody]
      have hreceipt : receipt? r = receiptRecord.read.ofText? body := by
        rw [receipt?, hbody]
        rfl
      rw [hanswer]
      exact accepts_readSubmission_iff hreceipt

end Gateway

/-! ## Submissions and polls over the network -/

namespace Chain

open Gateway (Taken receipt?)
open Simulation (World)
open Simulation.World (performOver traffic retry_traffic)

variable {config : NodeConfig} {network : Http.Request → ν → Option Response × ν}

variable (config network) in
/-- What goes over the network for a submission, and what comes of it: refusals, as many as are
    allowed, up to the first answer that takes the transaction. -/
theorem submit_traffic (batch : List Message) (w : World) (n : ν) :
    ∃ refused last submitted s,
      (submit config.policies batch).run (performOver config network) (w, n) =
        (.value submitted, s) ∧
      traffic config network (submit config.policies batch) w n =
        (refused ++ [last]).map (⟨(Gateway.submit w.state.rpc config.tx batch).request, ·⟩) ∧
      Attempted config.policies.broadcast.attempts (fun a => ∀ hash, ¬Taken a hash) refused last ∧
      ∀ hash, submitted = .ok hash ↔ Taken last hash := by
  obtain ⟨refused, last, s, hrun, htraffic, hattempted⟩ := retry_traffic (r := .submit batch)
    (w := w) rfl config.policies.broadcast accepted n
  have htaken : ∀ a hash, accepted ((Gateway.submit w.state.rpc config.tx batch).answer a) =
      .ok hash ↔ Taken a hash := fun a hash =>
    accepted_eq_ok_iff.trans Gateway.accepts_submit_iff
  have hrefused : (fun a => ∃ e, accepted ((Gateway.submit w.state.rpc config.tx batch).answer a) =
      .error e) = fun a => ∀ hash, ¬Taken a hash := by
    funext a
    simp only [← htaken]
    cases accepted ((Gateway.submit w.state.rpc config.tx batch).answer a) <;> simp
  exact ⟨refused, last, _, s, hrun, htraffic, hrefused ▸ hattempted, htaken last⟩

/-- The calls of a broadcast: those of the submission, and those that come after it. -/
theorem calls_broadcast {answer : (r : Request) → σ → r.Answer × σ} {p : Policies}
    {batch : List Message} (h : batch ≠ []) {s s' : σ} {submitted : Except Error String}
    (hrun : (submit p batch).run answer (answer .lockAccount s).2 = (.value submitted, s')) :
    calls ((broadcast p batch).exchanges answer s) =
      calls ((submit p batch).exchanges answer (answer .lockAccount s).2) ++
        calls ((afterSubmission p submitted).exchanges answer (answer .unlockAccount s').2) := by
  obtain ⟨-, hexchanges⟩ := Program.bind_of_run (f := fun submitted =>
    .ask .unlockAccount fun _ => afterSubmission p submitted) hrun
  have hlock : calls ((broadcast p batch).exchanges answer s) =
      calls (((submit p batch).bind fun submitted => .ask .unlockAccount fun _ =>
        afterSubmission p submitted).exchanges answer (answer .lockAccount s).2) := by
    rw [broadcast_eq h]
    rfl
  rw [hlock, hexchanges, calls_append]
  rfl

/-- A broadcast polls for a hash exactly if it has messages and its submission was accepted
    under that hash. -/
theorem poll_mem_calls_iff {answer : (r : Request) → σ → r.Answer × σ} {p : Policies}
    {batch : List Message} {s s' : σ} {submitted : Except Error String}
    (hrun : (submit p batch).run answer (answer .lockAccount s).2 = (.value submitted, s'))
    (hash : String) :
    (∃ outcome, Call.poll hash outcome ∈ calls ((broadcast p batch).exchanges answer s)) ↔
      batch ≠ [] ∧ submitted = .ok hash := by
  by_cases h : batch = []
  · subst h
    refine iff_of_false ?_ fun hne => hne.1 rfl
    rintro ⟨_, ⟨⟩⟩
  rw [and_iff_right h]
  obtain ⟨refused, last, _, _, hsubmissions, -⟩ :=
    run_submit answer p batch (answer .lockAccount s).2
  rw [calls_broadcast h hrun, hsubmissions]
  cases submitted with
  | error e => simp [afterSubmission, Program.exchanges, calls]
  | ok hash' =>
    obtain ⟨failed, lastPoll, _, _, -, hpolls, -⟩ :=
      run_afterSubmission_ok answer p hash' (answer .unlockAccount s').2
    rw [hpolls, Except.ok.injEq]
    constructor
    · rintro ⟨outcome, hmem⟩
      rcases List.mem_append.1 hmem with hmem | hmem
      · obtain ⟨_, -, hcall⟩ := List.mem_map.1 hmem
        cases hcall
      · obtain ⟨_, -, hcall⟩ := List.mem_map.1 hmem
        cases hcall
        rfl
    · rintro rfl
      exact ⟨lastPoll, by simp⟩

variable (config network) in
/-- A broadcast over HTTP, with a gateway that answers each submission with any status and any
    body, or not at all: the submissions go on up to the first answer that takes the
    transaction. The result of the submission is the hash of that answer, and polls are made
    for that hash and no other. It is empty exactly if the answer is a success with code 0
    whose body has no hash. -/
theorem polls_iff_taken (batch : List Message) (w : World) (n : ν) :
    ∃ refused last submitted s,
      (submit config.policies batch).run (performOver config network) (w, n) =
        (.value submitted, s) ∧
      traffic config network (submit config.policies batch) w n =
        (refused ++ [last]).map (⟨(Gateway.submit w.state.rpc config.tx batch).request, ·⟩) ∧
      Attempted config.policies.broadcast.attempts (fun a => ∀ hash, ¬Taken a hash) refused last ∧
      (∀ hash, submitted = .ok hash ↔ Taken last hash) ∧
      (∀ hash, (∃ outcome, Call.poll hash outcome ∈ calls
        ((broadcast config.policies batch).exchanges (performOver config network) (w, n))) ↔
          batch ≠ [] ∧ Taken last hash) ∧
      (Taken last "" ↔ ∃ r receipt, last = some r ∧ receipt? r = some receipt ∧
        r.isSuccess = true ∧ receipt.code = 0 ∧ receipt.hash = "") := by
  obtain ⟨refused, last, submitted, s, hrun, htraffic, hattempted, htaken⟩ :=
    submit_traffic config network batch w n
  exact ⟨refused, last, submitted, s, hrun, htraffic, hattempted, htaken,
    fun hash => (poll_mem_calls_iff hrun hash).trans (and_congr_right fun _ => htaken hash),
    Gateway.taken_empty_iff⟩

/-! ## A sample -/

/-- A success whose body is an empty object. -/
def bareSuccess : Response := ⟨200, Utf8.octets "\x7b\x7d", true⟩

/-- The status of the sample node as a message. -/
def sampleBatch : List Message := [.updateNodeStatus Admission.sampleNode.nodeAddress .active]

/-- An empty object is read as an acceptance under the empty hash. -/
theorem accepted_bareSuccess (base : String) (tx : TxOptions) (batch : List Message) :
    accepted ((Gateway.submit base tx batch).read (.ok bareSuccess)) = .ok "" := by
  have hread : accepted (Gateway.readSubmission bareSuccess.isSuccess
      (Utf8.decodeLossy bareSuccess.body)) = .ok "" := by
    decide +kernel
  exact hread

/-- A gateway that only ever says that it has succeeded. -/
def bareNetwork : Http.Request → Unit → Option Response × Unit := fun _ _ => (some bareSuccess, ())

/-- The sample is taken without a hash, and is polled for all the same. -/
theorem polls_bareNetwork :
    ∃ outcome, Call.poll "" outcome ∈
      calls ((broadcast Admission.sampleNode.policies sampleBatch).exchanges
        (performOver Admission.sampleNode bareNetwork) (Admission.sampleWorld, ())) := by
  obtain ⟨refused, last, submitted, s, hrun, -, -, htaken, hpolls, -⟩ :=
    polls_iff_taken Admission.sampleNode bareNetwork sampleBatch Admission.sampleWorld ()
  obtain ⟨next, hnext, hfirst⟩ :=
    retry_eq_ask Admission.sampleNode.policies.broadcast (.submit sampleBatch) accepted
  have hsubmit : submit Admission.sampleNode.policies sampleBatch =
      .ask (.submit sampleBatch) next := hnext
  have hanswer : performOver Admission.sampleNode bareNetwork (.submit sampleBatch)
      (Admission.sampleWorld, ()) =
        ((Gateway.submit _ Admission.sampleNode.tx sampleBatch).read (.ok bareSuccess), _, ()) :=
    rfl
  rw [hsubmit, Program.run_ask_of_answer hanswer, hfirst _ "" (accepted_bareSuccess ..)] at hrun
  obtain rfl : submitted = .ok "" := by
    cases hrun
    rfl
  exact (hpolls "").2 ⟨nofun, (htaken "").1 rfl⟩

/-- Not every submission that is accepted is accepted under a hash. -/
theorem accepted_without_hash :
    ¬ ∀ (base : String) (tx : TxOptions) (batch : List Message) (r : Response) (hash : String),
      accepted ((Gateway.submit base tx batch).read (.ok r)) = .ok hash →
      ∃ receipt, receipt? r = some receipt ∧ receipt.hash = hash ∧ hash ≠ "" := by
  intro hclaim
  obtain ⟨_, -, -, hne⟩ := hclaim _ _ _ _ _
    (accepted_bareSuccess "" Admission.sampleNode.tx sampleBatch)
  exact hne rfl

end Chain

end VpnNode
