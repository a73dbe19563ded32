import Mathlib.Logic.Function.Basic
import VpnNode.Proofs.Chain.Blocks

/-!
# Submissions are made one broadcast at a time

The account is held by one broadcast at a time, from before its first attempt to submit
until after its last, pauses included. In the log of all that is sent and answered, the
attempts of a broadcast therefore stand in one block.

Main statements:

* `Staged.answer`, `Logged.step`: what an answer does to the account and to the log.
* `never_stuck`: as long as a broadcast has not returned, a request can be sent or
  answered.
* `submissions_serialized`: the attempts to submit form one block for each broadcast.
-/

namespace VpnNode.Chain.Account

open Interleaving (getElem?_concat_iff getElem?_set_iff)

/-! ## The account -/

/-- Every broadcast is in a stage, and at most one in a stage that holds the account. -/
structure Staged (c : Client) (stage : Nat → Stage) (holder : Option Nat) : Prop where
  keeps : ∀ k t, c.tasks[k]? = some t →
    Keeps t.batch t.rest (stage k) fun _ st => st = .confirming
  unborn : ∀ k, c.tasks.length ≤ k → stage k = .waiting
  idle : ∀ k, c.batch? k = some [] → stage k = .confirming
  holds : ∀ k, (stage k).holdsAccount = true ↔ holder = some k
  held : c.held = holder.isSome

/-- The log stands in blocks; the broadcasts with a block have left the account, but for
    the last, which may still hold it. -/
structure Logged (c : Client) (stage : Nat → Stage) (order : List Nat) : Prop where
  blocks : Blocks order c.attempts
  entered : ∀ k ∈ order, ∃ e ∈ c.attempts, e.task = k
  carried : ∀ e ∈ c.attempts, ∃ batch, c.batch? e.task = some batch ∧ batch ≠ [] ∧
    e.request = .submit batch
  listed : ∀ k ∈ order, stage k = .confirming ∨
    (stage k).holdsAccount = true ∧ order.getLast? = some k
  tried : ∀ k batch, c.batch? k = some batch → batch ≠ [] → (stage k).tried = true → k ∈ order

/-- Who holds the account has not left it. -/
theorem Stage.ne_confirming {st : Stage} (h : st.holdsAccount = true) : st ≠ .confirming := by
  rintro rfl
  exact nomatch h

theorem Stage.holdsAccount_initial (batch : List Message) :
    (Stage.initial batch).holdsAccount = false := by
  unfold Stage.initial
  split <;> rfl

/-- A request that submits nothing makes no attempt, and does not lead back. -/
theorem Stage.next_of_not_submit {st st' : Stage} {batch : List Message} {r : Request}
    (h : st.next batch r = some st') (hr : ∀ b, r ≠ .submit b) :
    (st'.tried = true → st.tried = true) ∧ (st = .confirming → st' = .confirming) ∧
      (st.holdsAccount = true → st'.holdsAccount = true ∨ st' = .confirming) := by
  by_cases hlock : r = .lockAccount
  · subst hlock
    obtain ⟨rfl, rfl⟩ := next_lockAccount h
    exact ⟨nofun, nofun, nofun⟩
  by_cases hunlock : r = .unlockAccount
  · subst hunlock
    obtain ⟨rfl, rfl⟩ := next_unlockAccount h
    exact ⟨fun _ => rfl, nofun, fun _ => .inr rfl⟩
  · obtain rfl := next_of_other h hlock hunlock hr
    exact ⟨id, id, .inl⟩

variable {c : Client} {stage : Nat → Stage} {st : Stage} {holder holder' : Option Nat}
  {order : List Nat} {k j : Nat} {t : Task} {batch : List Message} {r : Request}
  {next : r.Answer → Program (Except Error Inclusion)}

/-- The stage of one broadcast changes, and with it who holds the account. -/
theorem holds_update (h : ∀ k, (stage k).holdsAccount = true ↔ holder = some k)
    (hself : st.holdsAccount = true ↔ holder' = some k)
    (hother : ∀ j, j ≠ k → (holder' = some j ↔ holder = some j)) (j : Nat) :
    (Function.update stage k st j).holdsAccount = true ↔ holder' = some j := by
  by_cases hj : j = k
  · subst hj
    rw [Function.update_self]
    exact hself
  · rw [Function.update_of_ne hj, hother j hj]
    exact h j

theorem batch?_eq (h : c.tasks[k]? = some t) : c.batch? k = some t.batch := by
  rw [Client.batch?, h]
  rfl

theorem batch?_set {tasks : List Task} (h : tasks[k]? = some t) (u : Task)
    (hu : u.batch = t.batch) (j : Nat) :
    (tasks.set k u)[j]?.map (·.batch) = tasks[j]?.map (·.batch) := by
  by_cases hj : k = j
  · subst hj
    obtain ⟨hlt, -⟩ := List.getElem?_eq_some_iff.1 h
    rw [List.getElem?_set_self hlt, h]
    exact congrArg some hu
  · rw [List.getElem?_set_ne hj]

/-- Sending leaves the messages of the broadcasts alone. -/
theorem batch?_send (hk : c.tasks[k]? = some ⟨batch, .ask r next, false⟩) (j : Nat) :
    (c.send k batch r next).batch? j = c.batch? j :=
  batch?_set hk ⟨batch, .ask r next, true⟩ rfl j

/-- So does answering. -/
theorem batch?_answer (hk : c.tasks[k]? = some ⟨batch, .ask r next, true⟩)
    (rest : Program (Except Error Inclusion)) (j : Nat) :
    (c.answer k batch r rest).batch? j = c.batch? j :=
  batch?_set hk ⟨batch, rest, false⟩ rfl j

theorem batch?_begin (p : Policies) (c : Client) {batch b : List Message} :
    (c.begin p batch).batch? j = some b ↔
      c.batch? j = some b ∨ j = c.tasks.length ∧ b = batch := by
  have hmap : (c.begin p batch).batch? j = (c.tasks.map (·.batch) ++ [batch])[j]? := by
    rw [Client.batch?, ← List.getElem?_map, Client.begin, List.map_append]
    rfl
  rw [hmap, getElem?_concat_iff, List.length_map, List.getElem?_map]
  rfl

theorem lt_of_batch? (h : c.batch? k = some batch) : k < c.tasks.length := by
  obtain ⟨t, ht, -⟩ := Option.map_eq_some_iff.1 h
  exact (List.getElem?_eq_some_iff.1 ht).1

namespace Staged

/-- Only one broadcast holds the account. -/
theorem eq_of_holds (h : Staged c stage holder) (hj : (stage j).holdsAccount = true)
    (hk : (stage k).holdsAccount = true) : j = k :=
  Option.some.inj (((h.holds j).1 hj).symm.trans ((h.holds k).1 hk))

theorem start : Staged {} (fun _ => .waiting) none where
  keeps := nofun
  unborn _ _ := rfl
  idle := nofun
  holds _ := ⟨nofun, nofun⟩
  held := rfl

/-- A broadcast begins, and holds no account. -/
theorem begin (h : Staged c stage holder) (p : Policies) (batch : List Message) :
    Staged (c.begin p batch) (Function.update stage c.tasks.length (.initial batch)) holder where
  keeps j t ht := by
    rcases getElem?_concat_iff.1 ht with ht | ⟨rfl, rfl⟩
    · have hlt : j < c.tasks.length := (List.getElem?_eq_some_iff.1 ht).1
      rw [Function.update_of_ne (Nat.ne_of_lt hlt)]
      exact h.keeps j t ht
    · rw [Function.update_self]
      exact keeps_broadcast p batch
  unborn j hj := by
    have hlt : c.tasks.length < j := by
      rw [Client.begin, List.length_append, List.length_singleton] at hj
      exact hj
    rw [Function.update_of_ne (Nat.ne_of_gt hlt)]
    exact h.unborn j (Nat.le_of_lt hlt)
  idle j hj := by
    rcases (batch?_begin p c).1 hj with hj | ⟨rfl, rfl⟩
    · rw [Function.update_of_ne (Nat.ne_of_lt (lt_of_batch? hj))]
      exact h.idle j hj
    · rw [Function.update_self]
      exact if_pos rfl
  holds := by
    refine holds_update h.holds ?_ fun j _ => Iff.rfl
    have hunborn := h.holds c.tasks.length
    rw [h.unborn _ (Nat.le_refl _)] at hunborn
    rw [Stage.holdsAccount_initial]
    exact hunborn
  held := h.held

/-- A request is sent: the stages stay as they are. -/
theorem send (h : Staged c stage holder) (hk : c.tasks[k]? = some ⟨batch, .ask r next, false⟩) :
    Staged (c.send k batch r next) stage holder where
  keeps j t ht := by
    rcases (getElem?_set_iff hk).1 ht with ⟨rfl, rfl⟩ | ⟨-, ht⟩
    · exact h.keeps j ⟨batch, .ask r next, false⟩ hk
    · exact h.keeps j t ht
  unborn j hj := h.unborn j (by rwa [Client.send, List.length_set] at hj)
  idle j hj := h.idle j (by rwa [batch?_send hk] at hj)
  holds := h.holds
  held := h.held

/-- Who holds the account after a request that leads a broadcast from one stage to another:
    it is given only if it is free, and left by who has it. -/
theorem exists_holder (h : Staged c stage holder) (hnext : (stage k).next batch r = some st)
    (hmay : mayAnswer c.held r = true) :
    ∃ holder', (st.holdsAccount = true ↔ holder' = some k) ∧
      (∀ j, j ≠ k → (holder' = some j ↔ holder = some j)) ∧
      Interleaving.holding c.held r = holder'.isSome := by
  by_cases hlock : r = .lockAccount
  · subst hlock
    obtain ⟨-, rfl⟩ := Stage.next_lockAccount hnext
    have hfree : holder = none := by
      rw [mayAnswer, h.held] at hmay
      simpa using hmay
    subst hfree
    refine ⟨some k, ⟨fun _ => rfl, fun _ => rfl⟩, fun j hj => ?_, rfl⟩
    exact ⟨fun he => absurd (Option.some.inj he).symm hj, nofun⟩
  by_cases hunlock : r = .unlockAccount
  · subst hunlock
    obtain ⟨hst, rfl⟩ := Stage.next_unlockAccount hnext
    have hholder : holder = some k := (h.holds k).1 (by rw [hst]; rfl)
    subst hholder
    refine ⟨none, ⟨nofun, nofun⟩, fun j hj => ?_, rfl⟩
    exact ⟨nofun, fun he => absurd (Option.some.inj he).symm hj⟩
  · have hsame : st.holdsAccount = (stage k).holdsAccount := by
      by_cases hsubmit : ∃ b, r = .submit b
      · obtain ⟨b, rfl⟩ := hsubmit
        obtain ⟨hholds, -, rfl⟩ := Stage.next_submit hnext
        exact hholds.symm
      · rw [Stage.next_of_other hnext hlock hunlock fun b hb => hsubmit ⟨b, hb⟩]
    refine ⟨holder, ?_, fun _ _ => Iff.rfl, ?_⟩
    · rw [hsame]
      exact h.holds k
    · rw [← h.held]
      cases r <;> first | rfl | exact absurd rfl hlock | exact absurd rfl hunlock

/-- A request is answered: the broadcast comes to the next stage. -/
theorem answer (h : Staged c stage holder) (hk : c.tasks[k]? = some ⟨batch, .ask r next, true⟩)
    (hmay : mayAnswer c.held r = true) (a : r.Answer) :
    ∃ st holder', (stage k).next batch r = some st ∧
      Staged (c.answer k batch r (next a)) (Function.update stage k st) holder' := by
  obtain ⟨st, hnext, hrest⟩ := h.keeps k _ hk
  obtain ⟨holder', hself, hother, hheld⟩ := h.exists_holder hnext hmay
  have hlt : k < c.tasks.length := (List.getElem?_eq_some_iff.1 hk).1
  refine ⟨st, holder', hnext, ?_, ?_, ?_, holds_update h.holds hself hother, hheld⟩
  · intro j t ht
    rcases (getElem?_set_iff hk).1 ht with ⟨rfl, rfl⟩ | ⟨hj, ht⟩
    · rw [Function.update_self]
      exact hrest a
    · rw [Function.update_of_ne hj]
      exact h.keeps j t ht
  · intro j hj
    rw [Client.answer, List.length_set] at hj
    rw [Function.update_of_ne (by omega)]
    exact h.unborn j hj
  · intro j hj
    rw [batch?_answer hk] at hj
    have hidle := h.idle j hj
    by_cases hjk : j = k
    · subst hjk
      rw [Function.update_self]
      have hsubmit : ∀ b, r ≠ .submit b := by
        rintro b rfl
        exact Stage.ne_confirming (Stage.next_submit hnext).1 hidle
      exact (Stage.next_of_not_submit hnext hsubmit).2.1 hidle
    · rw [Function.update_of_ne hjk]
      exact hidle

end Staged

/-! ## The log -/

/-- The broadcast whose attempt this is comes to the list, unless it is there. -/
def joined (order : List Nat) (k : Nat) : List Nat := if k ∈ order then order else order ++ [k]

theorem mem_joined : j ∈ joined order k ↔ j ∈ order ∨ j = k := by
  unfold joined
  split
  · rename_i hk
    exact ⟨.inl, fun h => h.elim id fun hj => hj ▸ hk⟩
  · rw [List.mem_append, List.mem_singleton]

namespace Logged

theorem start : Logged {} (fun _ => .waiting) [] where
  blocks := .nil
  entered _ hk := absurd hk List.not_mem_nil
  carried _ he := absurd he List.not_mem_nil
  listed _ hk := absurd hk List.not_mem_nil
  tried _ _ _ _ htried := nomatch htried

/-- A broadcast with a block has messages. -/
theorem exists_batch (h : Logged c stage order) (hk : k ∈ order) :
    ∃ batch, c.batch? k = some batch ∧ batch ≠ [] := by
  obtain ⟨e, he, rfl⟩ := h.entered k hk
  obtain ⟨batch, hbatch, hne, -⟩ := h.carried e he
  exact ⟨batch, hbatch, hne⟩

/-- A broadcast begins, without a block. -/
theorem begin (h : Logged c stage order) (p : Policies) (batch : List Message) :
    Logged (c.begin p batch) (Function.update stage c.tasks.length (.initial batch)) order where
  blocks := h.blocks
  entered := h.entered
  carried e he := by
    obtain ⟨b, hb, hrest⟩ := h.carried e he
    exact ⟨b, (batch?_begin p c).2 (.inl hb), hrest⟩
  listed k hk := by
    obtain ⟨b, hb, -⟩ := h.exists_batch hk
    rw [Function.update_of_ne (Nat.ne_of_lt (lt_of_batch? hb))]
    exact h.listed k hk
  tried k b hb hne htried := by
    rcases (batch?_begin p c).1 hb with hb | ⟨rfl, rfl⟩
    · rw [Function.update_of_ne (Nat.ne_of_lt (lt_of_batch? hb))] at htried
      exact h.tried k b hb hne htried
    · rw [Function.update_self, Stage.initial, if_neg hne] at htried
      exact absurd htried Bool.false_ne_true

variable {c' : Client}

/-- A request that makes no attempt leaves the blocks as they are. -/
theorem other (h : Logged c stage order) (hlog : c'.attempts = c.attempts)
    (hbatch : ∀ j, c'.batch? j = c.batch? j) (htried : st.tried = true → (stage k).tried = true)
    (hconfirming : stage k = .confirming → st = .confirming)
    (hholds : (stage k).holdsAccount = true → st.holdsAccount = true ∨ st = .confirming) :
    Logged c' (Function.update stage k st) order where
  blocks := by rw [hlog]; exact h.blocks
  entered := by rw [hlog]; exact h.entered
  carried := by simpa only [hlog, hbatch] using h.carried
  listed j hj := by
    by_cases hjk : j = k
    · subst hjk
      rw [Function.update_self]
      rcases h.listed j hj with hdone | ⟨hhere, hlast⟩
      · exact .inl (hconfirming hdone)
      · exact (hholds hhere).elim (fun hst => .inr ⟨hst, hlast⟩) .inl
    · rw [Function.update_of_ne hjk]
      exact h.listed j hj
  tried j b hb hne hj := by
    rw [hbatch] at hb
    by_cases hjk : j = k
    · subst hjk
      rw [Function.update_self] at hj
      exact h.tried j b hb hne (htried hj)
    · rw [Function.update_of_ne hjk] at hj
      exact h.tried j b hb hne hj

/-- A block of the broadcast that holds the account is the last. -/
theorem getLast?_of_holds (h : Logged c stage order) (hholds : (stage k).holdsAccount = true)
    (hk : k ∈ order) : order.getLast? = some k :=
  ((h.listed k hk).resolve_left (Stage.ne_confirming hholds)).2

theorem getLast?_joined (h : Logged c stage order) (hholds : (stage k).holdsAccount = true) :
    (joined order k).getLast? = some k := by
  unfold joined
  split
  · rename_i hk
    exact h.getLast?_of_holds hholds hk
  · exact List.getLast?_concat

/-- The blocks after an entry about an attempt of the broadcast that holds the account. -/
theorem blocks_append (h : Logged c stage order) (e : Entry)
    (hholds : (stage e.task).holdsAccount = true) :
    Blocks (joined order e.task) (c.attempts ++ [e]) := by
  unfold joined
  split
  · rename_i hmem
    obtain ⟨front, rfl⟩ := List.getLast?_eq_some_iff.1 (h.getLast?_of_holds hholds hmem)
    exact h.blocks.append_last
  · rename_i hmem
    exact h.blocks.append_new hmem

/-- An attempt of the broadcast that holds the account goes into its block. -/
theorem attempt (h : Logged c stage order) (hs : Staged c stage holder) {phase : Phase}
    (hlog : c'.attempts = c.attempts ++ [⟨k, .submit batch, phase⟩])
    (hbatch : ∀ j, c'.batch? j = c.batch? j) (hk : c.batch? k = some batch)
    (hbefore : (stage k).holdsAccount = true) (hafter : st.holdsAccount = true) :
    Logged c' (Function.update stage k st) (joined order k) where
  blocks := by
    rw [hlog]
    exact h.blocks_append ⟨k, .submit batch, phase⟩ hbefore
  entered j hj := by
    rw [hlog]
    rcases mem_joined.1 hj with hj | rfl
    · obtain ⟨e, he, rfl⟩ := h.entered j hj
      exact ⟨e, List.mem_append_left _ he, rfl⟩
    · exact ⟨_, List.mem_append_right _ (List.mem_singleton.2 rfl), rfl⟩
  carried e he := by
    rw [hlog, List.mem_append, List.mem_singleton] at he
    rw [hbatch]
    rcases he with he | rfl
    · exact h.carried e he
    · refine ⟨batch, hk, ?_, rfl⟩
      rintro rfl
      exact Stage.ne_confirming hbefore (hs.idle k hk)
  listed j hj := by
    by_cases hjk : j = k
    · subst hjk
      rw [Function.update_self]
      exact .inr ⟨hafter, h.getLast?_joined hbefore⟩
    · -- Only one broadcast holds the account, so the others in the list have left it.
      rw [Function.update_of_ne hjk]
      refine (h.listed j ((mem_joined.1 hj).resolve_right hjk)).imp_right fun ⟨hholds, _⟩ => ?_
      exact absurd (hs.eq_of_holds hholds hbefore) hjk
  tried j b hb hne hj := by
    rw [hbatch] at hb
    rw [mem_joined]
    by_cases hjk : j = k
    · exact .inr hjk
    · rw [Function.update_of_ne hjk] at hj
      exact .inl (h.tried j b hb hne hj)

end Logged

/-! ## Moves -/

theorem attempts_of_submit {c' : Client} {b : List Message} {phase : Phase}
    (h : c'.log = c.log ++ [⟨k, .submit b, phase⟩]) :
    c'.attempts = c.attempts ++ [⟨k, .submit b, phase⟩] := by
  rw [Client.attempts, h, List.filter_append]
  rfl

theorem attempts_of_not_submit {c' : Client} {phase : Phase}
    (h : c'.log = c.log ++ [⟨k, r, phase⟩]) (hr : ∀ b, r ≠ .submit b) :
    c'.attempts = c.attempts := by
  have hno : Entry.isAttempt ⟨k, r, phase⟩ = false := by
    cases r <;> first | rfl | exact absurd rfl (hr _)
  rw [Client.attempts, h, List.filter_append, List.filter_cons_of_neg (by rw [hno]; nofun),
    List.filter_nil, List.append_nil, Client.attempts]

/-- The log after a request is sent or answered: the stage stays or is the next one. -/
theorem Logged.step {st' : Stage} {phase : Phase} (h : Logged c stage order)
    (hs : Staged c stage holder) (hk : c.batch? k = some batch)
    (hnext : (stage k).next batch r = some st') (hst : st = stage k ∨ st = st') (c' : Client)
    (hlog : c'.log = c.log ++ [⟨k, r, phase⟩]) (hbatch : ∀ j, c'.batch? j = c.batch? j) :
    ∃ order, Logged c' (Function.update stage k st) order := by
  by_cases hr : ∃ b, r = .submit b
  · obtain ⟨b, rfl⟩ := hr
    obtain ⟨hholds, rfl, rfl⟩ := Stage.next_submit hnext
    have hafter : st.holdsAccount = true := by
      rcases hst with rfl | rfl
      · exact hholds
      · rfl
    exact ⟨joined order k, h.attempt hs (attempts_of_submit hlog) hbatch hk hholds hafter⟩
  · have hsubmit : ∀ b, r ≠ .submit b := fun b hb => hr ⟨b, hb⟩
    obtain ⟨htried, hconfirming, hholds⟩ := Stage.next_of_not_submit hnext hsubmit
    have hlog := attempts_of_not_submit hlog hsubmit
    rcases hst with rfl | rfl
    · exact ⟨order, h.other hlog hbatch id id .inl⟩
    · exact ⟨order, h.other hlog hbatch htried hconfirming hholds⟩

/-- What holds of a client in every interleaving. -/
def Serial (c : Client) : Prop :=
  ∃ stage holder order, Staged c stage holder ∧ Logged c stage order

theorem Serial.start : Serial {} := ⟨_, _, _, Staged.start, Logged.start⟩

theorem Serial.move (h : Serial c) (p : Policies) (m : Move) : Serial (c.move p m) := by
  obtain ⟨stage, holder, order, hs, hl⟩ := h
  obtain heq | ⟨batch, heq⟩ | ⟨k, batch, r, next, hk, heq⟩ | ⟨k, batch, r, next, a, hk, hmay, heq⟩ :=
    c.move_cases p m
  · rw [heq]
    exact ⟨stage, holder, order, hs, hl⟩
  · rw [heq]
    exact ⟨_, _, _, hs.begin p batch, hl.begin p batch⟩
  · rw [heq]
    obtain ⟨st, hnext, -⟩ := hs.keeps k ⟨batch, .ask r next, false⟩ hk
    obtain ⟨order', hl'⟩ := hl.step hs (batch?_eq hk) hnext (.inl rfl)
      (c.send k batch r next) rfl (batch?_send hk)
    rw [Function.update_eq_self] at hl'
    exact ⟨_, _, _, hs.send hk, hl'⟩
  · rw [heq]
    obtain ⟨st, holder', hnext, hs'⟩ := hs.answer hk hmay a
    obtain ⟨order', hl'⟩ := hl.step hs (batch?_eq hk) hnext (.inr rfl)
      (c.answer k batch r (next a)) rfl (batch?_answer hk (next a))
    exact ⟨_, _, _, hs', hl'⟩

/-- In every interleaving the stages are kept and the log stands in blocks. -/
theorem serial_after (p : Policies) (moves : List Move) : Serial (Client.after p moves) := by
  have hrun : ∀ c, Serial c → Serial (moves.foldl (Client.move p) c) := by
    induction moves with
    | nil => exact fun c hc => hc
    | cons m moves ih => exact fun c hc => ih _ (hc.move p m)
  exact hrun {} Serial.start

/-! ## Going on -/

/-- A surrounding that accepts every submission. -/
def obliging (r : Request) : r.Answer :=
  (Simulation.World.perform r
    { table := .empty .wireguard 0
      wallClock := ⟨⟨1970, 1, 1, by decide⟩, ⟨0, by decide⟩, ⟨0, by decide⟩⟩ }).1

/-- A broadcast whose next request may be answered can go on. -/
theorem exists_move (p : Policies) (hk : c.tasks[k]? = some t) (hrest : t.rest = .ask r next)
    (hmay : mayAnswer c.held r = true) :
    ∃ m, (c.move p m).log.length = c.log.length + 1 := by
  obtain ⟨batch, rest, underway⟩ := t
  subst hrest
  cases underway with
  | false =>
    refine ⟨.send k, ?_⟩
    rw [show c.move p (.send k) = c.sendNext k from rfl, Client.sendNext_eq hk]
    exact List.length_append
  | true =>
    refine ⟨.answer k obliging, ?_⟩
    rw [show c.move p (.answer k obliging) = c.answerNext k obliging from rfl,
      Client.answerNext_eq hk hmay]
    exact List.length_append

/-- Who holds the account can go on. -/
theorem Staged.exists_move_of_held (h : Staged c stage holder) (p : Policies)
    (hheld : c.held = true) : ∃ m, (c.move p m).log.length = c.log.length + 1 := by
  rw [h.held] at hheld
  obtain ⟨j, rfl⟩ := Option.isSome_iff_exists.1 hheld
  have hholds : (stage j).holdsAccount = true := (h.holds j).2 rfl
  obtain ⟨t, ht⟩ : ∃ t, c.tasks[j]? = some t := by
    rcases Nat.lt_or_ge j c.tasks.length with hlt | hge
    · exact ⟨_, List.getElem?_eq_getElem hlt⟩
    · rw [h.unborn j hge] at hholds
      exact nomatch hholds
  have hkeeps := h.keeps j t ht
  cases hrest : t.rest with
  | done a =>
    rw [hrest] at hkeeps
    exact absurd hkeeps (Stage.ne_confirming hholds)
  | abort message =>
    rw [hrest] at hkeeps
    exact hkeeps.elim
  | ask r next =>
    rw [hrest] at hkeeps
    obtain ⟨st, hnext, -⟩ := hkeeps
    refine exists_move p ht hrest ?_
    cases r with
    | lockAccount =>
      rw [(Stage.next_lockAccount hnext).1] at hholds
      exact nomatch hholds
    | _ => rfl

/-- Who has an attempt in flight holds the account. -/
theorem Staged.holdsAccount_of_inFlight (h : Staged c stage holder) {b : List Message}
    (hk : c.InFlight k (.submit b)) : (stage k).holdsAccount = true := by
  obtain ⟨t, next, ht, hrest, -⟩ := hk
  have hkeeps := h.keeps k t ht
  rw [hrest] at hkeeps
  obtain ⟨st, hnext, -⟩ := hkeeps
  exact (Stage.next_submit hnext).1

/-- Who has returned has made an attempt, if there was anything to submit. -/
theorem Staged.tried_of_returned (h : Staged c stage holder) (hk : c.tasks[k]? = some t)
    (ht : t.returned = true) : (stage k).tried = true := by
  have hkeeps := h.keeps k t hk
  cases hrest : t.rest with
  | done a =>
    rw [hrest] at hkeeps
    rw [show stage k = .confirming from hkeeps]
    rfl
  | abort message =>
    rw [hrest] at hkeeps
    exact hkeeps.elim
  | ask r next => simp [Task.returned, hrest] at ht

/-- As long as a broadcast has not returned, a request can be sent or answered: the account
    is left on every way out of the submissions. -/
theorem never_stuck (p : Policies) (moves : List Move) (k : Nat) (t : Task)
    (hk : (Client.after p moves).tasks[k]? = some t) (ht : t.returned = false) :
    ∃ m, (Client.after p (moves ++ [m])).log.length = (Client.after p moves).log.length + 1 := by
  obtain ⟨stage, holder, order, hs, -⟩ := serial_after p moves
  have hlast : ∀ m, Client.after p (moves ++ [m]) = (Client.after p moves).move p m := fun m =>
    List.foldl_concat ..
  simp only [hlast]
  cases hrest : t.rest with
  | done a => simp [Task.returned, hrest] at ht
  | abort message => simp [Task.returned, hrest] at ht
  | ask r next =>
    by_cases hmay : mayAnswer (Client.after p moves).held r = true
    · exact exists_move p hk hrest hmay
    · refine hs.exists_move_of_held p ?_
      cases r with
      | lockAccount => simpa [mayAnswer] using hmay
      | _ => exact absurd rfl hmay

/-! ## Overlap -/

/-- While a broadcast is polling, the next one submits. -/
theorem exists_overlap (p : Policies) {first second : List Message} (hfirst : first ≠ [])
    (hsecond : second ≠ []) :
    ∃ moves hash, (Client.after p moves).batch? 0 = some first ∧
      (Client.after p moves).batch? 1 = some second ∧
      (Client.after p moves).InFlight 0 (.pollTransaction hash) ∧
      (Client.after p moves).InFlight 1 (.submit second) := by
  obtain ⟨next, hnext, haccepted⟩ := broadcast_eq_ask p hfirst
  obtain ⟨next', hnext', -⟩ := broadcast_eq_ask p hsecond
  obtain ⟨hash, haccepts⟩ : ∃ hash, Accepts (obliging (.submit first)) hash := ⟨_, .taken rfl⟩
  obtain ⟨rest, hrest⟩ := haccepted _ hash haccepts
  have hbegun : Client.after p [.begin first, .begin second] =
      ⟨[⟨first, .ask .lockAccount fun _ => .ask (.submit first) next, false⟩,
        ⟨second, .ask .lockAccount fun _ => .ask (.submit second) next', false⟩], false, []⟩ := by
    rw [← hnext, ← hnext']
    rfl
  have happend : ∀ xs ys, Client.after p (xs ++ ys) = ys.foldl (Client.move p) (Client.after p xs) :=
    fun _ _ => List.foldl_append
  obtain ⟨moves, log, hsubmitted⟩ : ∃ moves log, Client.after p moves =
      ⟨[⟨first, next (obliging (.submit first)), false⟩,
        ⟨second, .ask .lockAccount fun _ => .ask (.submit second) next', false⟩], true, log⟩ := by
    refine ⟨[.begin first, .begin second] ++
      [.send 0, .answer 0 obliging, .send 0, .answer 0 obliging], ?_⟩
    rw [happend, hbegun]
    exact ⟨_, rfl⟩
  obtain ⟨moves', log', hpolling⟩ : ∃ moves log', Client.after p moves =
      ⟨[⟨first, .ask (.pollTransaction hash) rest, true⟩,
        ⟨second, .ask (.submit second) next', true⟩], true, log'⟩ := by
    refine ⟨moves ++ [.send 0, .answer 0 obliging, .send 0, .send 1, .answer 1 obliging, .send 1],
      ?_⟩
    rw [happend, hsubmitted, hrest]
    exact ⟨_, rfl⟩
  refine ⟨moves', hash, ?_⟩
  rw [hpolling]
  exact ⟨rfl, rfl, ⟨_, rest, rfl, rfl, rfl⟩, ⟨_, next', rfl, rfl, rfl⟩⟩

/-! ## Serialization -/

/-- Submissions of an account are made one broadcast at a time, in every interleaving of
    broadcasts and whatever the chain answers, and whenever it does. At most one attempt to
    submit is in flight. All attempts stand in blocks, one for each broadcast of messages:
    a block holds all the attempts of its broadcast, all with its messages, and from the
    first of them to the last, pauses included, no other broadcast attempts anything. But
    one broadcast may poll while another submits. -/
theorem submissions_serialized (p : Policies) :
    (∀ moves : List Move,
      (∀ j k b b', (Client.after p moves).InFlight j (.submit b) →
        (Client.after p moves).InFlight k (.submit b') → j = k) ∧
      (∃ order, Blocks order (Client.after p moves).attempts ∧
        (∀ k ∈ order, entriesOf (Client.after p moves).attempts k ≠ [] ∧
          ∃ batch, (Client.after p moves).batch? k = some batch ∧ batch ≠ [] ∧
            ∀ e ∈ entriesOf (Client.after p moves).attempts k, e.request = .submit batch) ∧
        ∀ (k : Nat) (t : Task), (Client.after p moves).tasks[k]? = some t → t.batch ≠ [] →
          t.returned = true → k ∈ order) ∧
      ∀ first e last : Entry, [first, e, last].Sublist (Client.after p moves).log →
        first.isAttempt = true → e.isAttempt = true → last.isAttempt = true →
        last.task = first.task → e.task = first.task) ∧
    ∀ first second : List Message, first ≠ [] → second ≠ [] →
      ∃ moves hash, (Client.after p moves).batch? 0 = some first ∧
        (Client.after p moves).batch? 1 = some second ∧
        (Client.after p moves).InFlight 0 (.pollTransaction hash) ∧
        (Client.after p moves).InFlight 1 (.submit second) := by
  refine ⟨fun moves => ?_, fun first second hfirst hsecond => exists_overlap p hfirst hsecond⟩
  obtain ⟨stage, holder, order, hs, hl⟩ := serial_after p moves
  refine ⟨?_, ⟨order, hl.blocks, ?_, ?_⟩, ?_⟩
  · intro j k b b' hj hk
    exact hs.eq_of_holds (hs.holdsAccount_of_inFlight hj) (hs.holdsAccount_of_inFlight hk)
  · intro k hk
    obtain ⟨e, he, rfl⟩ := hl.entered k hk
    obtain ⟨batch, hbatch, hne, -⟩ := hl.carried e he
    refine ⟨List.ne_nil_of_mem (mem_entriesOf.2 ⟨he, rfl⟩), batch, hbatch, hne, ?_⟩
    intro e' he'
    obtain ⟨hmem, htask⟩ := mem_entriesOf.1 he'
    obtain ⟨batch', hbatch', -, hrequest⟩ := hl.carried e' hmem
    rw [htask, hbatch] at hbatch'
    rw [hrequest, Option.some.inj hbatch']
  · intro k t hk hne hreturned
    exact hl.tried k t.batch (batch?_eq hk) hne (hs.tried_of_returned hk hreturned)
  · intro first e last hsub hfirst he hlast htask
    have hattempts := hsub.filter Entry.isAttempt
    rw [List.filter_cons_of_pos hfirst, List.filter_cons_of_pos he, List.filter_cons_of_pos hlast,
      List.filter_nil] at hattempts
    exact hl.blocks.task_of_between hattempts htask

end VpnNode.Chain.Account
