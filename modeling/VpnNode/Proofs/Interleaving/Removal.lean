import Mathlib.Data.Set.List
import VpnNode.Proofs.Interleaving.Basic
import VpnNode.Proofs.Simulation.Run

/-!
# Removals of one peer beside each other

A removal by key asks the backend whether it has the peer, and removes the peer only if it
has. Between its two requests other removals of the same peer may have theirs. The peer is
gone once all have returned, and nothing else is touched; but a removal that has been told
of the peer before another one took it finds nobody, and fails.

A removal goes through phases: it probes, it removes, it has settled.

Main statements:

* `Calls.step_inFlight`: what an answer to a removal comes to.
* `Calls.after_filter`: moves of calls that do not exist change nothing.
* `removals_succeed_iff`: what removals of one peer leave, what they return, and when all
  of them succeed.
-/

namespace VpnNode.Interleaving

open Simulation (World)
open Simulation.World (afterProbe removeIfPresent_eq perform_hasPeer perform_removePeer)

/-! ## Calls beside each other -/

/-- What is left of calls that run beside each other, and the surroundings they share. -/
structure Calls (α : Type) where
  world : World
  rest : List (Program α)

namespace Calls

/-- The next request of a call is answered; a call that has returned does nothing. -/
def step (c : Calls α) (k : Nat) : Calls α :=
  match c.rest[k]? with
  | some (.ask r next) =>
    ⟨(World.perform r c.world).2, c.rest.set k (next (World.perform r c.world).1)⟩
  | _ => c

/-- The calls after moves; each move names the call that goes on. -/
def after (c : Calls α) (moves : List Nat) : Calls α := moves.foldl step c

/-- All calls have returned, with these results. -/
def Returned (c : Calls α) (results : List α) : Prop := c.rest = results.map .done

/-- Any number of removals by one key, before the first of them has asked anything. -/
def removals (w : World) (key : String) (n : Nat) : Calls (Except Peer.Error Unit) :=
  ⟨w, List.replicate n (Peer.removeIfPresent w.table.service key)⟩

theorem length_rest_step (c : Calls α) (k : Nat) : (c.step k).rest.length = c.rest.length := by
  unfold step
  split
  · exact List.length_set
  · rfl

theorem step_of_le {c : Calls α} {k : Nat} (h : c.rest.length ≤ k) : c.step k = c := by
  unfold step
  rw [List.getElem?_eq_none h]

/-- Moves of calls that do not exist change nothing. -/
theorem after_filter (c : Calls α) (moves : List Nat) :
    c.after (moves.filter (· < c.rest.length)) = c.after moves := by
  induction moves generalizing c with
  | nil => rfl
  | cons k moves ih =>
    have hrest := ih (c.step k)
    rw [length_rest_step] at hrest
    by_cases hk : k < c.rest.length
    · rw [List.filter_cons_of_pos (by simpa using hk)]
      exact hrest
    · rw [List.filter_cons_of_neg (by simpa using hk)]
      rw [step_of_le (Nat.not_lt.1 hk)] at hrest
      rw [hrest]
      exact congrArg (after · moves) (step_of_le (Nat.not_lt.1 hk)).symm

end Calls

/-! ## Phases of a removal -/

/-- How far a removal has come. -/
inductive Phase where
  | probing
  /-- The backend has said that it has the peer. -/
  | removing
  | settled (result : Except Peer.Error Unit)
  deriving DecidableEq

namespace Phase

/-- What is left of a removal. -/
def program (i : Peer.Identity) : Phase → Program (Except Peer.Error Unit)
  | .probing => .ask (.hasPeer i) (afterProbe i)
  | .removing => .ask (.removePeer i) .done
  | .settled result => .done result

/-- The phase after an answer of a backend that has the peer, or has not. -/
def next (key : String) (connected : Bool) : Phase → Phase
  | .probing => if connected then .removing else .settled (.ok ())
  | .removing => .settled (if connected then .ok () else .error (.notFound key))
  | .settled result => .settled result

/-- The table after the answer. -/
def leaves (key : String) (t : Peer.Table) : Phase → Peer.Table
  | .removing => t.dismiss key
  | _ => t

theorem service_leaves (key : String) (t : Peer.Table) (p : Phase) :
    (p.leaves key t).service = t.service := by
  cases p with
  | removing => exact t.service_dismiss key
  | _ => rfl

/-- How many answers a removal may still need. -/
def requests : Phase → Nat
  | .probing => 2
  | .removing => 1
  | .settled _ => 0

theorem requests_next (key : String) (connected : Bool) (p : Phase) :
    (p.next key connected).requests ≤ p.requests - 1 := by
  cases p with
  | probing =>
    cases connected with
    | true => exact Nat.le_refl 1
    | false => exact Nat.zero_le 1
  | removing => exact Nat.le_refl 0
  | settled result => exact Nat.le_refl 0

end Phase

variable {w : World} {i : Peer.Identity} {t : Peer.Table} {phases : List Phase}

/-- Removals in these phases, at a table. -/
def inFlight (w : World) (i : Peer.Identity) (t : Peer.Table) (phases : List Phase) :
    Calls (Except Peer.Error Unit) :=
  ⟨{ w with table := t }, phases.map (Phase.program i)⟩

/-- The request of a removal is answered. -/
theorem Calls.step_inFlight (hf : w.faults = []) (hs : i.service = t.service) {k : Nat} {p : Phase}
    (hk : phases[k]? = some p) :
    (inFlight w i t phases).step k =
      inFlight w i (p.leaves i.key t) (phases.set k (p.next i.key (t.contains i.key))) := by
  have hmap : (phases.map (Phase.program i))[k]? = some (p.program i) := by
    rw [List.getElem?_map, hk]
    rfl
  have hfaults : ({ w with table := t } : World).faults = [] := hf
  unfold step inFlight
  simp only [hmap]
  cases p with
  | probing =>
    simp only [Phase.program, perform_hasPeer hfaults, Peer.Table.has_eq hs]
    rw [List.map_set]
    cases t.contains i.key <;> rfl
  | removing =>
    simp only [Phase.program, perform_removePeer hfaults]
    rw [List.map_set]
    cases hc : t.contains i.key with
    | true =>
      rw [Peer.Table.remove_eq_dismiss hs hc]
      rfl
    | false =>
      rw [Peer.Table.remove_of_not_contains hs hc, Phase.leaves,
        Peer.Table.dismiss_of_not_contains hc]
      rfl
  | settled result =>
    obtain ⟨hlt, heq⟩ := List.getElem?_eq_some_iff.1 hk
    have hset : phases.set k (.settled result) = phases := by
      rw [← heq]
      exact List.set_getElem_self hlt
    simp only [Phase.program, Phase.next, Phase.leaves, hset]

/-- What every answer keeps holds after any moves. -/
theorem Calls.after_induction {P : Peer.Table → List Phase → Prop} (hf : w.faults = [])
    (hstep : ∀ t phases k p, P t phases → phases[k]? = some p →
      P (p.leaves i.key t) (phases.set k (p.next i.key (t.contains i.key))))
    (hs : i.service = t.service) (h : P t phases) (moves : List Nat) :
    ∃ t' phases', (inFlight w i t phases).after moves = inFlight w i t' phases' ∧ P t' phases' := by
  induction moves generalizing t phases with
  | nil => exact ⟨t, phases, rfl, h⟩
  | cons k moves ih =>
    show ∃ t' phases', ((inFlight w i t phases).step k).after moves = _ ∧ _
    cases hk : phases[k]? with
    | none =>
      rw [step_of_le (by simpa [inFlight] using List.getElem?_eq_none_iff.1 hk)]
      exact ih hs h
    | some p =>
      rw [step_inFlight hf hs hk]
      exact ih (by rw [Phase.service_leaves, hs]) (hstep t phases k p h hk)

/-! ## What removals come to -/

/-- As long as nobody has removed the peer, nobody has settled; after that the peer is gone,
    and who settles has succeeded or found nobody. -/
def Progress (w : World) (i : Peer.Identity) (t : Peer.Table) (phases : List Phase) : Prop :=
  (t = w.table ∧ t.contains i.key = true ∧ ∀ r, .settled r ∉ phases) ∨
    (t = w.table.dismiss i.key ∧
      ∀ r, .settled r ∈ phases → r = .ok () ∨ r = .error (.notFound i.key))

theorem Progress.next {k : Nat} {p : Phase} (h : Progress w i t phases) (hk : phases[k]? = some p) :
    Progress w i (p.leaves i.key t) (phases.set k (p.next i.key (t.contains i.key))) := by
  have hmem := List.mem_of_getElem? hk
  rcases h with ⟨rfl, hc, hnone⟩ | ⟨rfl, hsettled⟩
  · rw [hc]
    cases p with
    | probing =>
      refine .inl ⟨rfl, hc, fun r hr => ?_⟩
      rcases List.mem_or_eq_of_mem_set hr with hr | hr
      · exact hnone r hr
      · cases hr
    | removing =>
      refine .inr ⟨rfl, fun r hr => ?_⟩
      rcases List.mem_or_eq_of_mem_set hr with hr | hr
      · exact absurd hr (hnone r)
      · cases hr
        exact .inl rfl
    | settled r => exact absurd hmem (hnone r)
  · rw [Peer.Table.contains_dismiss]
    have hall : ∀ r, .settled r ∈ phases.set k (p.next i.key false) →
        r = .ok () ∨ r = .error (.notFound i.key) := by
      intro r hr
      rcases List.mem_or_eq_of_mem_set hr with hr | hr
      · exact hsettled r hr
      · cases p with
        | probing =>
          cases hr
          exact .inl rfl
        | removing =>
          cases hr
          exact .inr rfl
        | settled r' =>
          cases hr
          exact hsettled r hmem
    refine .inr ⟨?_, hall⟩
    cases p with
    | removing => exact Peer.Table.dismiss_dismiss _ _
    | _ => rfl

/-- The peer is gone, and every removal succeeds. -/
def Quiet (i : Peer.Identity) (t : Peer.Table) (phases : List Phase) : Prop :=
  t.contains i.key = false ∧ ∀ p ∈ phases, p = .probing ∨ p = .settled (.ok ())

theorem Quiet.next {k : Nat} {p : Phase} (h : Quiet i t phases) (hk : phases[k]? = some p) :
    Quiet i (p.leaves i.key t) (phases.set k (p.next i.key (t.contains i.key))) := by
  obtain ⟨hc, hall⟩ := h
  rw [hc]
  rcases hall p (List.mem_of_getElem? hk) with rfl | rfl
  all_goals
    refine ⟨hc, fun q hq => ?_⟩
    rcases List.mem_or_eq_of_mem_set hq with hq | rfl
    · exact hall q hq
    · exact .inr rfl

/-- A removal fails, or will: two have been told of the peer, or one has been told of it and
    it is gone. -/
def Doomed (i : Peer.Identity) (t : Peer.Table) (phases : List Phase) : Prop :=
  (t.contains i.key = true ∧
      ∃ j k : Nat, j ≠ k ∧ phases[j]? = some Phase.removing ∧ phases[k]? = some Phase.removing) ∨
    (t.contains i.key = false ∧ ∃ k : Nat, phases[k]? = some Phase.removing ∨
      phases[k]? = some (Phase.settled (.error (.notFound i.key))))

theorem Doomed.next {k : Nat} {p : Phase} (h : Doomed i t phases) (hk : phases[k]? = some p) :
    Doomed i (p.leaves i.key t) (phases.set k (p.next i.key (t.contains i.key))) := by
  have hother : ∀ {j : Nat} {q q' : Phase}, phases[j]? = some q → j ≠ k →
      (phases.set k q')[j]? = some q := fun hj hne => by
    rw [List.getElem?_set_ne (Ne.symm hne)]
    exact hj
  have hself : ∀ q', (phases.set k q')[k]? = some q' := fun q' =>
    List.getElem?_set_self (List.getElem?_eq_some_iff.1 hk).1
  rcases h with ⟨hc, a, b, hab, ha, hb⟩ | ⟨hc, a, ha⟩
  · rw [hc]
    by_cases hp : p = .removing
    · -- The peer is gone, and one of the two has still to find that out.
      subst hp
      refine .inr ⟨t.contains_dismiss i.key, ?_⟩
      by_cases hka : a = k
      · exact ⟨b, .inl (hother hb fun hkb => hab (hka.trans hkb.symm))⟩
      · exact ⟨a, .inl (hother ha hka)⟩
    · have hleaves : p.leaves i.key t = t := by
        cases p with
        | removing => exact absurd rfl hp
        | _ => rfl
      have hne : ∀ {j : Nat}, phases[j]? = some .removing → j ≠ k := by
        rintro j hj rfl
        rw [hk] at hj
        exact hp (Option.some.inj hj)
      rw [hleaves]
      exact .inl ⟨hc, a, b, hab, hother ha (hne ha), hother hb (hne hb)⟩
  · rw [hc]
    refine .inr ⟨?_, a, ?_⟩
    · cases p with
      | removing => exact t.contains_dismiss i.key
      | _ => exact hc
    · by_cases hka : a = k
      · subst hka
        rw [hk, Option.some.injEq, Option.some.injEq] at ha
        rcases ha with rfl | rfl
        · exact .inr (hself _)
        · exact .inr (hself _)
      · exact ha.imp (fun ha => hother ha hka) fun ha => hother ha hka

/-! ## Removals from their beginning -/

theorem Phase.program_injective (i : Peer.Identity) : Function.Injective (Phase.program i) := by
  intro p q h
  cases p with
  | probing => cases q with
    | probing => rfl
    | _ => cases h
  | removing => cases q with
    | removing => rfl
    | _ => cases h
  | settled r => cases q with
    | settled r' => rw [Program.done.inj h]
    | _ => cases h

theorem returned_inFlight_iff {results : List (Except Peer.Error Unit)} :
    (inFlight w i t phases).Returned results ↔ phases = results.map .settled := by
  have hdone : results.map Program.done = (results.map Phase.settled).map (Phase.program i) := by
    rw [List.map_map]
    rfl
  unfold Calls.Returned inFlight
  rw [hdone]
  exact (List.map_injective_iff.2 (Phase.program_injective i)).eq_iff

theorem removals_eq {key : String} (hi : Peer.Identity.ofKey w.table.service key = .ok i)
    (n : Nat) :
    Calls.removals w key n = inFlight w i w.table (List.replicate n .probing) := by
  unfold Calls.removals inFlight
  rw [removeIfPresent_eq hi, List.map_replicate]
  rfl

/-- Removals return once each has had as many moves as it needs. -/
theorem exists_returned (hf : w.faults = []) (hs : i.service = t.service) {moves : List Nat}
    (h : ∀ (k : Nat) p, phases[k]? = some p → p.requests ≤ moves.count k) :
    ∃ results, ((inFlight w i t phases).after moves).Returned results := by
  induction moves generalizing t phases with
  | nil =>
    have hsettled : phases ∈ Set.range (List.map Phase.settled) := by
      rw [Set.range_list_map]
      intro p hp
      obtain ⟨k, hk⟩ := List.getElem?_of_mem hp
      have hle := h k p hk
      rw [List.count_nil] at hle
      cases p with
      | settled r => exact ⟨r, rfl⟩
      | probing => exact absurd hle (by decide)
      | removing => exact absurd hle (by decide)
    obtain ⟨results, hresults⟩ := hsettled
    exact ⟨results, returned_inFlight_iff.2 hresults.symm⟩
  | cons j moves ih =>
    show ∃ results, (((inFlight w i t phases).step j).after moves).Returned results
    cases hj : phases[j]? with
    | none =>
      rw [Calls.step_of_le (by simpa [inFlight] using List.getElem?_eq_none_iff.1 hj)]
      refine ih hs fun k p hk => ?_
      have hne : j ≠ k := by
        rintro rfl
        rw [hj] at hk
        cases hk
      have hle := h k p hk
      rwa [List.count_cons_of_ne hne] at hle
    | some q =>
      rw [Calls.step_inFlight hf hs hj]
      refine ih (by rw [Phase.service_leaves, hs]) fun k p hk => ?_
      rcases (getElem?_set_iff hj).1 hk with ⟨rfl, rfl⟩ | ⟨hne, hk⟩
      · have hle := h k q hj
        have hnext := q.requests_next i.key (t.contains i.key)
        rw [List.count_cons_self] at hle
        omega
      · have hle := h k p hk
        rwa [List.count_cons_of_ne (Ne.symm hne)] at hle

/-- The backend tells a removal of its peer. -/
theorem step_probing (hf : w.faults = []) (hs : i.service = t.service)
    (hc : t.contains i.key = true) {k : Nat} (hk : phases[k]? = some .probing) :
    (inFlight w i t phases).step k = inFlight w i t (phases.set k .removing) := by
  rw [Calls.step_inFlight hf hs hk, hc]
  rfl

theorem getElem?_replicate_probing {n k : Nat} (hk : k < n) :
    (List.replicate n Phase.probing)[k]? = some .probing := by
  rw [List.getElem?_replicate, if_pos hk]

/-- Removals of which each has two moves return. -/
theorem exists_returned_of_count (hf : w.faults = []) (hs : i.service = w.table.service) {n : Nat}
    {moves : List Nat} (h : ∀ k < n, 2 ≤ moves.count k) :
    ∃ results,
      ((inFlight w i w.table (List.replicate n .probing)).after moves).Returned results := by
  refine exists_returned hf hs fun k p hk => ?_
  obtain ⟨hlt, hp⟩ := List.getElem?_eq_some_iff.1 hk
  rw [List.getElem_replicate] at hp
  subst hp
  exact h k (by simpa using hlt)

/-- Two removals that are told of the peer before it is gone do not both succeed. -/
theorem notFound_mem (hf : w.faults = []) (hs : i.service = w.table.service) {n j k : Nat}
    (hc : w.table.contains i.key = true) (hj : j < n) (hk : k < n) (hjk : j ≠ k)
    {moves : List Nat} {results : List (Except Peer.Error Unit)}
    (h : ((inFlight w i w.table (List.replicate n .probing)).after (j :: k :: moves)).Returned
      results) : .error (.notFound i.key) ∈ results := by
  have hj₀ := getElem?_replicate_probing hj
  have hk₀ : ((List.replicate n Phase.probing).set j .removing)[k]? = some .probing := by
    rw [List.getElem?_set_ne hjk]
    exact getElem?_replicate_probing hk
  have hdoomed : Doomed i w.table (((List.replicate n Phase.probing).set j .removing).set k
      .removing) := by
    refine .inl ⟨hc, j, k, hjk, ?_, List.getElem?_set_self (by simpa using hk)⟩
    rw [List.getElem?_set_ne (Ne.symm hjk)]
    exact List.getElem?_set_self (by simpa using hj)
  obtain ⟨t', phases', heq, hdoomed'⟩ :=
    Calls.after_induction hf (fun _ _ _ _ hd hk => hd.next hk) hs hdoomed moves
  replace h : (((inFlight w i w.table (List.replicate n .probing)).step j).step k).after moves
    |>.Returned results := h
  rw [step_probing hf hs hc hj₀, step_probing hf hs hc hk₀, heq, returned_inFlight_iff] at h
  -- Nobody is in flight any more, so the removal that had to fail has failed.
  have hmem : ∀ {q}, q ∈ phases' → ∃ r ∈ results, Phase.settled r = q := fun hq => by
    rw [h] at hq
    exact List.mem_map.1 hq
  rcases hdoomed' with ⟨-, a, -, -, ha, -⟩ | ⟨-, a, ha | ha⟩
  · obtain ⟨r, -, hr⟩ := hmem (List.mem_of_getElem? ha)
    cases hr
  · obtain ⟨r, -, hr⟩ := hmem (List.mem_of_getElem? ha)
    cases hr
  · obtain ⟨r, hr, he⟩ := hmem (List.mem_of_getElem? ha)
    rw [Phase.settled.inj he] at hr
    exact hr

/-- If the first removal that is told of the peer takes it at once, all succeed. -/
theorem all_ok_of_quiet (hf : w.faults = []) (hs : i.service = t.service) (hq : Quiet i t phases)
    {moves : List Nat} {results : List (Except Peer.Error Unit)}
    (h : ((inFlight w i t phases).after moves).Returned results) : ∀ r ∈ results, r = .ok () := by
  obtain ⟨t', phases', heq, -, hall⟩ :=
    Calls.after_induction (P := Quiet i) hf (fun _ _ _ _ hq hk => hq.next hk) hs hq moves
  rw [heq, returned_inFlight_iff] at h
  intro r hr
  have hmem : Phase.settled r ∈ phases' := h ▸ List.mem_map_of_mem hr
  rcases hall _ hmem with he | he
  · cases he
  · exact Phase.settled.inj he

/-- If the removal that is told of the peer first takes it before another has asked, all
    succeed. -/
theorem all_ok_of_first (hf : w.faults = []) (hs : i.service = w.table.service) {n k : Nat}
    (hk : k < n) {moves : List Nat} {results : List (Except Peer.Error Unit)}
    (h : ((inFlight w i w.table (List.replicate n .probing)).after (k :: k :: moves)).Returned
      results) (hc : w.table.contains i.key = true) : ∀ r ∈ results, r = .ok () := by
  have hk₀ := getElem?_replicate_probing hk
  have hk₁ : ((List.replicate n Phase.probing).set k .removing)[k]? = some .removing :=
    List.getElem?_set_self (by simpa using hk)
  replace h : (((inFlight w i w.table (List.replicate n .probing)).step k).step k).after moves
    |>.Returned results := h
  rw [step_probing hf hs hc hk₀, Calls.step_inFlight hf hs hk₁, hc, List.set_set] at h
  refine all_ok_of_quiet hf (by rw [Phase.service_leaves, hs]) ⟨?_, fun p hp => ?_⟩ h
  · exact w.table.contains_dismiss i.key
  · rcases List.mem_or_eq_of_mem_set hp with hp | rfl
    · exact .inl (List.eq_of_mem_replicate hp)
    · exact .inr rfl

/-- One move is not enough for a removal of a peer that is there. -/
theorem not_returned_of_one (hf : w.faults = []) (hs : i.service = w.table.service) {n k : Nat}
    (hc : w.table.contains i.key = true) (hk : k < n) (results : List (Except Peer.Error Unit)) :
    ¬((inFlight w i w.table (List.replicate n .probing)).after [k]).Returned results := by
  show ¬((inFlight w i w.table (List.replicate n .probing)).step k).Returned results
  rw [step_probing hf hs hc (getElem?_replicate_probing hk), returned_inFlight_iff]
  intro h
  have hmem : Phase.removing ∈ (List.replicate n Phase.probing).set k .removing :=
    List.mem_of_getElem? (List.getElem?_set_self (by simpa using hk))
  rw [h] at hmem
  obtain ⟨r, -, hr⟩ := List.mem_map.1 hmem
  cases hr

/-- What removals of one peer leave and return once all have returned. -/
theorem outcome_of_returned (hf : w.faults = []) (hs : i.service = w.table.service) {n : Nat}
    {moves : List Nat} {results : List (Except Peer.Error Unit)}
    (h : ((inFlight w i w.table (List.replicate n .probing)).after moves).Returned results) :
    (∀ r ∈ results, r = .ok () ∨ r = .error (.notFound i.key)) ∧
      ∃ t, ((inFlight w i w.table (List.replicate n .probing)).after moves).world =
          { w with table := t } ∧
        (n ≠ 0 → t = w.table.dismiss i.key) ∧ (t = w.table ∨ t = w.table.dismiss i.key) := by
  have hstart : Progress w i w.table (List.replicate n .probing) := by
    have hnone : ∀ r, Phase.settled r ∉ List.replicate n Phase.probing := fun r hr =>
      nomatch List.eq_of_mem_replicate hr
    cases hc : w.table.contains i.key with
    | true => exact .inl ⟨rfl, hc, hnone⟩
    | false =>
      exact .inr ⟨(Peer.Table.dismiss_of_not_contains hc).symm, fun r hr => absurd hr (hnone r)⟩
  obtain ⟨t, phases, heq, hprogress, hlength⟩ :=
    Calls.after_induction (P := fun t phases => Progress w i t phases ∧ phases.length = n) hf
      (fun _ _ _ _ h hk => ⟨h.1.next hk, List.length_set.trans h.2⟩) hs
      ⟨hstart, List.length_replicate⟩ moves
  rw [heq, returned_inFlight_iff] at h
  rw [heq]
  subst h
  have hmem : ∀ r ∈ results, Phase.settled r ∈ results.map Phase.settled := fun r hr =>
    List.mem_map_of_mem hr
  rcases hprogress with ⟨rfl, -, hnone⟩ | ⟨rfl, hsettled⟩
  · refine ⟨fun r hr => absurd (hmem r hr) (hnone r), w.table, rfl, fun hn => ?_, .inl rfl⟩
    rw [List.length_map] at hlength
    obtain ⟨r, hr⟩ := List.exists_mem_of_length_pos (Nat.pos_of_ne_zero (hlength ▸ hn))
    exact absurd (hmem r hr) (hnone r)
  · exact ⟨fun r hr => hsettled r (hmem r hr), _, rfl, fun _ => rfl, .inr rfl⟩

/-- All removals succeed exactly if the first that is told of the peer takes it before
    another has asked. -/
theorem all_ok_iff (hf : w.faults = []) (hs : i.service = w.table.service) {n : Nat}
    {turns : List Nat} (hturns : ∀ k ∈ turns, k < n) {results : List (Except Peer.Error Unit)}
    (h : ((inFlight w i w.table (List.replicate n .probing)).after turns).Returned results) :
    (∀ r ∈ results, r = .ok ()) ↔ (w.table.contains i.key = true → turns[0]? = turns[1]?) := by
  cases hc : w.table.contains i.key with
  | false =>
    have hquiet : Quiet i w.table (List.replicate n .probing) :=
      ⟨hc, fun p hp => .inl (List.eq_of_mem_replicate hp)⟩
    exact ⟨fun _ => nofun, fun _ => all_ok_of_quiet hf hs hquiet h⟩
  | true =>
    rw [show (true = true → turns[0]? = turns[1]?) ↔ turns[0]? = turns[1]? from
      ⟨fun h => h rfl, fun h _ => h⟩]
    match turns with
    | [] =>
      refine ⟨fun _ => rfl, fun _ r hr => ?_⟩
      replace h : (inFlight w i w.table (List.replicate n .probing)).Returned results := h
      rw [returned_inFlight_iff] at h
      have hmem : Phase.settled r ∈ List.replicate n Phase.probing := h ▸ List.mem_map_of_mem hr
      cases List.eq_of_mem_replicate hmem
    | [k] => exact absurd h (not_returned_of_one hf hs hc (hturns k List.mem_cons_self) results)
    | j :: k :: moves =>
      have hj : j < n := hturns j List.mem_cons_self
      have hk : k < n := hturns k (List.mem_cons_of_mem _ List.mem_cons_self)
      show _ ↔ some j = some k
      rw [Option.some.injEq]
      constructor
      · intro hall
        by_contra hjk
        cases hall _ (notFound_mem hf hs hc hj hk hjk h)
      · rintro rfl
        exact all_ok_of_first hf hs hj h hc

/-- Any number of removals of one peer from a backend in memory run beside each other,
    interleaved in any way at their two requests. Each returns, and reports success or that
    the peer was not found. Once all have returned, the peer is gone, and no other peer has
    changed. All of them report success exactly if the peer was not there in the first place
    or the first two turns are those of one removal: if another asks before the first has
    taken the peer, it finds nobody to remove and fails. -/
theorem removals_succeed_iff (w : World) (hf : w.faults = []) {key : String} {i : Peer.Identity}
    (hi : Peer.Identity.ofKey w.table.service key = .ok i) (n : Nat) (moves : List Nat) :
    let c := (Calls.removals w key n).after moves
    let turns := moves.filter (· < n)
    ((∀ k < n, 2 ≤ moves.count k) → ∃ results, c.Returned results) ∧
    ∀ results, c.Returned results →
      (∀ r ∈ results, r = .ok () ∨ r = .error (.notFound i.key)) ∧
      (n ≠ 0 → c.world.table.contains i.key = false) ∧
      (∀ k, k ≠ i.key → c.world.table.peers[k]? = w.table.peers[k]?) ∧
      ((∀ r ∈ results, r = .ok ()) ↔
        (w.table.contains i.key = true → turns[0]? = turns[1]?)) := by
  intro c turns
  have hs : i.service = w.table.service := Peer.Identity.service_ofKey hi
  have hc : c = (inFlight w i w.table (List.replicate n .probing)).after moves :=
    congrArg (Calls.after · moves) (removals_eq hi n)
  have hturns : (inFlight w i w.table (List.replicate n .probing)).after turns = c := by
    have hfilter := (inFlight w i w.table (List.replicate n .probing)).after_filter moves
    rwa [show (inFlight w i w.table (List.replicate n .probing)).rest.length = n by
      simp [inFlight], ← hc] at hfilter
  refine ⟨fun hmoves => ?_, fun results hresults => ?_⟩
  · rw [hc]
    exact exists_returned_of_count hf hs hmoves
  · obtain ⟨hall, t, ht, hgone, hcases⟩ := outcome_of_returned hf hs (hc ▸ hresults)
    rw [← hc] at ht
    rw [ht]
    refine ⟨hall, fun hn => ?_, fun k hk => ?_, ?_⟩
    · rw [hgone hn]
      exact w.table.contains_dismiss i.key
    · rcases hcases with rfl | rfl
      · rfl
      · exact (w.table.getElem?_dismiss i.key k).trans (if_neg (Ne.symm hk))
    · rw [← hturns] at hresults
      exact all_ok_iff hf hs (fun k hk => by simpa using (List.mem_filter.1 hk).2) hresults

/-- A key of a client. -/
def sampleKey : String := "AQEBAQEBAQEBAQEBAQEBAQEBAQEBAQEBAQEBAQEBAQE="

/-- A backend with one peer. -/
def sampleBackend : World where
  table := ⟨.wireguard, 1, (∅ : Std.ExtTreeMap String Peer.Usage).insert sampleKey ⟨0, 0⟩, 0⟩
  wallClock := ⟨⟨2024, 3, 1, by decide⟩, ⟨28800, by decide⟩, ⟨250000000, by decide⟩⟩

theorem contains_sampleBackend : sampleBackend.table.contains sampleKey = true :=
  Std.ExtTreeMap.contains_insert_self

/-- One removal after the other: both succeed. -/
theorem removals_succeed_in_turn :
    ∃ results, ((Calls.removals sampleBackend sampleKey 2).after [1, 1, 0, 0]).Returned results ∧
      ∀ r ∈ results, r = .ok () := by
  have hi : Peer.Identity.ofKey sampleBackend.table.service sampleKey =
      .ok (.wireguard sampleKey) := rfl
  obtain ⟨hreturn, hresults⟩ := removals_succeed_iff sampleBackend rfl hi 2 [1, 1, 0, 0]
  obtain ⟨results, h⟩ := hreturn (by decide)
  obtain ⟨-, -, -, hiff⟩ := hresults results h
  exact ⟨results, h, hiff.2 fun _ => rfl⟩

/-- Both removals ask before either removes: not both succeed. -/
theorem removals_fail_side_by_side :
    ∃ results, ((Calls.removals sampleBackend sampleKey 2).after [0, 1, 0, 1]).Returned results ∧
      ¬∀ r ∈ results, r = .ok () := by
  have hi : Peer.Identity.ofKey sampleBackend.table.service sampleKey =
      .ok (.wireguard sampleKey) := rfl
  have hs : (Peer.Identity.wireguard sampleKey).service = sampleBackend.table.service := rfl
  rw [removals_eq hi]
  have hcount : ∀ k < 2, 2 ≤ [0, 1, 0, 1].count k := by decide
  obtain ⟨results, h⟩ := exists_returned_of_count (w := sampleBackend) rfl hs hcount
  have hfailed := notFound_mem rfl hs contains_sampleBackend (by decide) (by decide) (by decide) h
  exact ⟨results, h, fun hall => nomatch hall _ hfailed⟩

end VpnNode.Interleaving
