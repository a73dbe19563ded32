import VpnNode.Proofs.Interleaving.Metered
import VpnNode.Proofs.Interleaving.Tasks

/-!
# No peer without a row

Whatever tasks are in flight and however they are interleaved, a connected peer has a row
in the ledger, or the admission that connected it has not returned.

Main statements:

* `Sound.move`: the invariant outlasts every move.
* `connected_stored_or_admitting`: what holds of every connected peer after any moves.
-/

namespace VpnNode.Interleaving

open Simulation (World)

/-! ## Tasks in flight -/

theorem Errand.role_eq_alignment_iff {e : Errand} :
    e.role = .alignment ↔ e = .pass .sessionValidation := by
  cases e with
  | admission r => simp [role]
  | pass j => cases j <;> simp [role]

theorem Errand.exists_of_role_eq_admission {e : Errand} (h : e.role = .admission) :
    ∃ r, e = .admission r := by
  cases e with
  | admission r => exact ⟨r, rfl⟩
  | pass j => cases j <;> cases h

theorem Task.isAligning_iff {t : Task} :
    t.isAligning ↔ t.errand = .pass .sessionValidation ∧ t.inFlight := by
  simp [isAligning]

/-- The task at this place is an alignment in flight. -/
def Node.Aligning (n : Node) (k : Nat) : Prop := ∃ t, n.tasks[k]? = some t ∧ t.isAligning

/-! ## The invariant -/

/-- The duties of the tasks fit what they have still to do, and keep every peer metered. -/
structure Sound (config : NodeConfig) (n : Node) (duty : Nat → Duty) : Prop where
  metered : Metered config.service n.world n.connectedBy duty n.Aligning
  obeys : ∀ {k t}, n.tasks[k]? = some t →
    Obeys config.service t.errand.role t.rest (duty k) fun _ d => d.owes = none
  owing : ∀ {k key}, (duty k).owes = some key →
    ∃ t, n.tasks[k]? = some t ∧ t.errand.role = .admission
  single : ∀ {j k}, n.Aligning j → n.Aligning k → j = k

namespace Sound

variable {config : NodeConfig} {n : Node} {duty : Nat → Duty}

/-- Who owes a row is an admission that has not returned. -/
theorem isAdmitting (h : Sound config n duty) {k : Nat} {key : String}
    (howes : (duty k).owes = some key) : ∃ t, n.tasks[k]? = some t ∧ t.isAdmitting := by
  obtain ⟨t, ht, hrole⟩ := h.owing howes
  obtain ⟨r, he⟩ := Errand.exists_of_role_eq_admission hrole
  refine ⟨t, ht, ?_⟩
  obtain ⟨e, rest⟩ := t
  obtain rfl : e = .admission r := he
  have hobeys := h.obeys ht
  cases rest with
  | ask q next => rfl
  | done a =>
    have hnone : (duty k).owes = none := hobeys
    rw [hnone] at howes
    cases howes
  | abort message =>
    have hnone : (duty k).owes = none := hobeys
    rw [hnone] at howes
    cases howes

theorem start (config : NodeConfig) (capacity : Nat) (w : World) :
    Sound config (.start config capacity w) fun _ => {} where
  metered := {
    indexed := .empty
    faultless := rfl
    service_eq := rfl
    canonical := fun hkey => by simp [Node.start, Peer.Table.empty, Peer.Table.contains] at hkey
    covered := fun hkey => by simp [Node.start, Peer.Table.empty, Peer.Table.contains] at hkey
    recalled := fun _ hs => by cases hs
    severed := fun _ hs => by cases hs }
  obeys ht := by cases ht
  owing howes := by cases howes
  single := by
    rintro j k ⟨t, ht, -⟩
    cases ht

/-! ## Moves -/

/-- A task begins. -/
theorem begin (h : Sound config n duty) {e : Errand} (he : n.admits e) :
    Sound config (n.begin config e) (Function.update duty n.tasks.length {}) := by
  have hnone : n.tasks[n.tasks.length]? = none := List.getElem?_eq_none (Nat.le_refl _)
  have hnew : (duty n.tasks.length).owes = none := by
    rw [Option.eq_none_iff_forall_ne_some]
    intro key howes
    obtain ⟨t, ht, -⟩ := h.owing howes
    rw [hnone] at ht
    cases ht
  -- If the new task is an alignment, then it is the only one.
  have haligning : ∀ {j}, (n.begin config e).Aligning j →
      n.Aligning j ∨ j = n.tasks.length ∧ ∀ k, ¬ n.Aligning k := by
    rintro j ⟨t, ht, halign⟩
    obtain ht | ⟨hj, rfl⟩ := (Node.getElem?_begin config).1 ht
    · exact .inl ⟨t, ht, halign⟩
    · refine .inr ⟨hj, ?_⟩
      rintro k ⟨u, hu, hualign⟩
      obtain rfl := (Task.isAligning_iff.1 halign).1
      rw [Node.admits_alignment_iff.1 he u (List.mem_of_getElem? hu)] at hualign
      cases hualign
  refine ⟨h.metered.fresh hnew fun j hj => (haligning hj).imp_right And.left, ?_, ?_, ?_⟩
  · intro j t ht
    by_cases hj : j = n.tasks.length
    · subst hj
      obtain ht | ⟨-, rfl⟩ := (Node.getElem?_begin config).1 ht
      · rw [hnone] at ht
        cases ht
      · rw [Function.update_self]
        exact program_obeys config e rfl
    · rw [Function.update_of_ne hj]
      exact h.obeys (((Node.getElem?_begin config).1 ht).resolve_right fun hlast => hj hlast.1)
  · intro j key howes
    by_cases hj : j = n.tasks.length
    · subst hj
      rw [Function.update_self] at howes
      cases howes
    · rw [Function.update_of_ne hj] at howes
      obtain ⟨t, ht, hrole⟩ := h.owing howes
      exact ⟨t, (Node.getElem?_begin config).2 (.inl ht), hrole⟩
  · intro j k hj hk
    obtain hj | ⟨rfl, hno⟩ := haligning hj
    · obtain hk | ⟨-, hno⟩ := haligning hk
      · exact h.single hj hk
      · exact absurd hj (hno j)
    · obtain hk | ⟨rfl, -⟩ := haligning hk
      · exact absurd hk (hno k)
      · rfl

/-- The request of a task is answered. -/
theorem answer (h : Sound config n duty) {k : Nat} {e : Errand} {r : Request}
    {next : r.Answer → Program Unit} (ht : n.tasks[k]? = some ⟨e, .ask r next⟩) :
    Sound config (n.answer k e r next)
      (Function.update duty k ((duty k).next r (World.perform r n.world).1)) := by
  obtain ⟨hallowed, hnext⟩ := h.obeys ht
  have haligning : ∀ j, (n.answer k e r next).Aligning j → n.Aligning j := by
    rintro j ⟨t, hj, halign⟩
    obtain ⟨rfl, rfl⟩ | ⟨-, hj⟩ := (Node.getElem?_answer ht r next).1 hj
    · exact ⟨_, ht, Task.isAligning_iff.2 ⟨(Task.isAligning_iff.1 halign).1, rfl⟩⟩
    · exact ⟨t, hj, halign⟩
  have hrole : e.role = .alignment → n.Aligning k ∧ ∀ j, n.Aligning j → j = k := by
    intro hrole
    have hk : n.Aligning k :=
      ⟨_, ht, Task.isAligning_iff.2 ⟨Errand.role_eq_alignment_iff.1 hrole, rfl⟩⟩
    exact ⟨hk, fun j hj => h.single hj hk⟩
  refine ⟨(h.metered.answer hallowed hrole).mono haligning, ?_, ?_, fun hj hk =>
    h.single (haligning _ hj) (haligning _ hk)⟩
  · intro j t hj
    obtain ⟨rfl, rfl⟩ | ⟨hne, hj⟩ := (Node.getElem?_answer ht r next).1 hj
    · rw [Function.update_self]
      exact hnext _ (h.metered.possible hallowed)
    · rw [Function.update_of_ne hne]
      exact h.obeys hj
  · intro j key howes
    by_cases hj : j = k
    · subst hj
      refine ⟨_, (Node.getElem?_answer ht r next).2 (.inl ⟨rfl, rfl⟩), ?_⟩
      by_contra hrole
      have hno : (duty j).owes = none := by
        rw [Option.eq_none_iff_forall_ne_some]
        intro key howes
        obtain ⟨t, ht', hadmission⟩ := h.owing howes
        rw [ht] at ht'
        cases ht'
        exact hrole hadmission
      rw [Function.update_self, Duty.owes_next ?_ hno] at howes
      · cases howes
      · rintro i rfl
        exact hrole hallowed.1
    · rw [Function.update_of_ne hj] at howes
      obtain ⟨t, ht', hrole⟩ := h.owing howes
      exact ⟨t, (Node.getElem?_answer ht r next).2 (.inr ⟨hj, ht'⟩), hrole⟩

/-- The invariant outlasts every move. -/
theorem move (h : Sound config n duty) (m : Move) :
    ∃ duty', Sound config (n.move config m) duty' := by
  cases m with
  | begin e =>
    show ∃ duty', Sound config (if n.admits e then n.begin config e else n) duty'
    split
    · rename_i he
      exact ⟨_, h.begin he⟩
    · exact ⟨duty, h⟩
  | step k =>
    show ∃ duty', Sound config (n.step k) duty'
    obtain hn | ⟨e, r, next, ht, hn⟩ := n.step_cases k
    · rw [hn]
      exact ⟨duty, h⟩
    · rw [hn]
      exact ⟨_, h.answer ht⟩
  | chain c => exact ⟨duty, h.metered.frame rfl rfl rfl, h.obeys, h.owing, h.single⟩
  | clock now => exact ⟨duty, h.metered.frame rfl rfl rfl, h.obeys, h.owing, h.single⟩
  | traffic key usage => exact ⟨duty, h.metered.traffic key usage, h.obeys, h.owing, h.single⟩

/-- So does any number of moves from the start. -/
theorem after (config : NodeConfig) (capacity : Nat) (w : World) (moves : List Move) :
    ∃ duty, Sound config (.after config capacity w moves) duty := by
  suffices ∀ n, (∃ duty, Sound config n duty) →
      ∃ duty, Sound config (moves.foldl (Node.move config) n) duty from
    this _ ⟨_, start config capacity w⟩
  induction moves with
  | nil => exact fun _ h => h
  | cons m moves ih =>
    rintro n ⟨duty, h⟩
    exact ih _ (h.move m)

end Sound

/-! ## Peers and rows -/

/-- Admissions and passes of jobs, at most one of them an alignment with the chain, run
    beside each other from an empty ledger and an empty backend, interleaved in any way at
    their requests, while the chain changes at will. Whenever a peer is connected, its key
    stands in a row, or the task that connected it is an admission that has not returned.
    So while no admission is in flight, every connected peer has a row. -/
theorem connected_stored_or_admitting (config : NodeConfig) (capacity : Nat) (w : World)
    (moves : List Move) :
    let n := Node.after config capacity w moves
    (∀ key, n.world.table.contains key →
      (∃ id s, n.world.ledger.Holds id s ∧ s.peerKey = key) ∨
        ∃ k t, n.connectedBy key = some k ∧ n.tasks[k]? = some t ∧ t.isAdmitting) ∧
    ((∀ t ∈ n.tasks, ¬ t.isAdmitting) → ∀ key, n.world.table.contains key →
      ∃ id s, n.world.ledger.Holds id s ∧ s.peerKey = key) := by
  intro n
  obtain ⟨duty, h⟩ := Sound.after config capacity w moves
  have hcovered : ∀ key, n.world.table.contains key →
      (∃ id s, n.world.ledger.Holds id s ∧ s.peerKey = key) ∨
        ∃ k t, n.connectedBy key = some k ∧ n.tasks[k]? = some t ∧ t.isAdmitting := by
    intro key hkey
    obtain hstored | ⟨k, hk, howes⟩ := h.metered.covered hkey
    · exact .inl hstored
    · obtain ⟨t, ht, hadmitting⟩ := h.isAdmitting howes
      exact .inr ⟨k, t, hk, ht, hadmitting⟩
  refine ⟨hcovered, fun hno key hkey => (hcovered key hkey).resolve_right ?_⟩
  rintro ⟨k, t, -, ht, hadmitting⟩
  exact hno t (List.mem_of_getElem? ht) hadmitting

end VpnNode.Interleaving
