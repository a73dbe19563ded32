import VpnNode.Admission
import VpnNode.Job.Run
import VpnNode.Simulation.World

/-!
# A node with tasks in flight

Admissions and passes of jobs run beside each other on one ledger and one backend. A move
begins a task, answers the next request of one, or changes what the node does not
control: the chain, the clock and the counters of connected peers. Any task may be next,
so a list of moves is an arbitrary interleaving of tasks at their requests.

A pass that aligns the ledger with the chain begins only while no other is in flight: the
scheduler runs a job again only after its run has returned.

Main statements:

* `getElem?_begin`, `getElem?_answer`: the tasks after a move.
* `admits_alignment_iff`: an alignment begins only if no other is in flight.
* `step_cases`: a step answers the request of a task in flight, or nothing happens.
-/

namespace VpnNode.Interleaving

open Simulation (World)

/-! ## Places in a list -/

/-- What comes to a list has the next place; the others keep theirs. -/
theorem getElem?_concat_iff {l : List α} {a b : α} {j : Nat} :
    (l ++ [b])[j]? = some a ↔ l[j]? = some a ∨ j = l.length ∧ a = b := by
  obtain hj | hj := Nat.lt_or_ge j l.length
  · rw [List.getElem?_append_left hj]
    exact ⟨.inl, fun h => h.resolve_right fun h => by omega⟩
  · rw [List.getElem?_append_right hj, List.getElem?_singleton, List.getElem?_eq_none hj]
    by_cases hlast : j = l.length
    · rw [if_pos (by omega), Option.some.injEq]
      exact ⟨fun h => .inr ⟨hlast, h.symm⟩, fun h => (h.resolve_left nofun).2.symm⟩
    · rw [if_neg (by omega)]
      exact ⟨nofun, fun h => absurd (h.resolve_left nofun).1 hlast⟩

/-- Only what is replaced changes. -/
theorem getElem?_set_iff {l : List α} {a b c : α} {j k : Nat} (hk : l[k]? = some c) :
    (l.set k b)[j]? = some a ↔ j = k ∧ a = b ∨ j ≠ k ∧ l[j]? = some a := by
  obtain ⟨hlt, -⟩ := List.getElem?_eq_some_iff.1 hk
  by_cases hj : j = k
  · subst hj
    rw [List.getElem?_set_self hlt, Option.some.injEq]
    exact ⟨fun h => .inl ⟨rfl, h.symm⟩, fun h => (h.resolve_right fun h => h.1 rfl).2.symm⟩
  · rw [List.getElem?_set_ne (Ne.symm hj)]
    exact ⟨fun h => .inr ⟨hj, h⟩, fun h => (h.resolve_left fun h => hj h.1).2⟩

/-! ## Tasks -/

/-- What a task is for. -/
inductive Errand where
  | admission (r : Admission.Request)
  | pass (j : Job)
  deriving DecidableEq

/-- The program of a task; what it gives does not matter here. -/
def Errand.program (config : NodeConfig) : Errand → Program Unit
  | .admission r => (Admission.accept config r).bind fun _ => .done ()
  | .pass j => (j.run config).bind fun _ => .done ()

/-- A task, and what is left of its program. -/
structure Task where
  errand : Errand
  rest : Program Unit

namespace Task

/-- Is there a request of the task that has not been answered? -/
def inFlight (t : Task) : Bool :=
  match t.rest with
  | .ask _ _ => true
  | _ => false

/-- Is this an admission that has not returned? -/
def isAdmitting (t : Task) : Bool :=
  match t.errand with
  | .admission _ => t.inFlight
  | .pass _ => false

/-- Is this an alignment with the chain that has not returned? -/
def isAligning (t : Task) : Bool := t.errand = .pass .sessionValidation && t.inFlight

end Task

/-! ## Nodes -/

/-- A node with its tasks, in the order in which they began. -/
structure Node where
  world : World
  tasks : List Task
  /-- The task that connected a key last, by its place. -/
  connectedBy : String → Option Nat
  /-- Does a task hold the account? -/
  held : Bool

/-- What happens next at a node. -/
inductive Move where
  | begin (e : Errand)
  /-- The request of a task is answered. -/
  | step (k : Nat)
  | chain (c : Simulation.Chain)
  | clock (now : Time)
  /-- A connected peer has sent and received. -/
  | traffic (key : String) (usage : Peer.Usage)

/-- Who connected the keys last, after an answer to a task. -/
def connectors (c : String → Option Nat) (k : Nat) : (r : Request) → r.Answer → String → Option Nat
  | .addPeer i, .ok _ => fun key => if key = i.key then some k else c key
  | _, _ => c

/-- Is the account held after an answer? -/
def holding (held : Bool) : Request → Bool
  | .lockAccount => true
  | .unlockAccount => false
  | _ => held

namespace Node

/-- A node without rows, peers and tasks. -/
def start (config : NodeConfig) (capacity : Nat) (w : World) : Node where
  world := { w with ledger := .empty, table := .empty config.service capacity, faults := [] }
  tasks := []
  connectedBy _ := none
  held := false

/-- May a task begin? -/
def admits (n : Node) (e : Errand) : Bool :=
  e ≠ .pass .sessionValidation || n.tasks.all fun t => !t.isAligning

/-- A task begins. -/
def begin (config : NodeConfig) (n : Node) (e : Errand) : Node :=
  { n with tasks := n.tasks ++ [⟨e, e.program config⟩] }

/-- The request of a task is answered. -/
def answer (n : Node) (k : Nat) (e : Errand) (r : Request) (next : r.Answer → Program Unit) :
    Node where
  world := (World.perform r n.world).2
  tasks := n.tasks.set k ⟨e, next (World.perform r n.world).1⟩
  connectedBy := connectors n.connectedBy k r (World.perform r n.world).1
  held := holding n.held r

/-- A task goes on; one that waits for the account does so once the account is free. -/
def step (n : Node) (k : Nat) : Node :=
  match n.tasks[k]? with
  | some ⟨e, .ask .lockAccount next⟩ => if n.held then n else n.answer k e .lockAccount next
  | some ⟨e, .ask r next⟩ => n.answer k e r next
  | _ => n

def move (config : NodeConfig) (n : Node) : Move → Node
  | .begin e => if n.admits e then n.begin config e else n
  | .step k => n.step k
  | .chain chain => { n with world := { n.world with chain } }
  | .clock now => { n with world := { n.world with wallClock := now } }
  | .traffic key usage =>
    { n with world := { n.world with table := n.world.table.setUsage key usage } }

/-- The node after moves from the start. -/
def after (config : NodeConfig) (capacity : Nat) (w : World) (moves : List Move) : Node :=
  moves.foldl (move config) (start config capacity w)

/-! ## Tasks after a move -/

variable {n : Node} {j k : Nat} {t u : Task} {e : Errand}

/-- A task that begins has the next place; the others keep theirs. -/
theorem getElem?_begin (config : NodeConfig) :
    (n.begin config e).tasks[j]? = some t ↔
      n.tasks[j]? = some t ∨ j = n.tasks.length ∧ t = ⟨e, e.program config⟩ :=
  getElem?_concat_iff

/-- Only the task whose request is answered goes on. -/
theorem getElem?_answer (hk : n.tasks[k]? = some u) (r : Request)
    (next : r.Answer → Program Unit) :
    (n.answer k e r next).tasks[j]? = some t ↔
      j = k ∧ t = ⟨e, next (World.perform r n.world).1⟩ ∨ j ≠ k ∧ n.tasks[j]? = some t :=
  getElem?_set_iff hk

/-- An alignment begins only if no other is in flight. -/
theorem admits_alignment_iff :
    n.admits (.pass .sessionValidation) ↔ ∀ t ∈ n.tasks, t.isAligning = false := by
  simp [admits]

/-- A step answers the request of a task in flight, or nothing happens. -/
theorem step_cases (n : Node) (k : Nat) :
    n.step k = n ∨ ∃ e r next, n.tasks[k]? = some ⟨e, .ask r next⟩ ∧
      n.step k = n.answer k e r next := by
  unfold step
  split
  · rename_i e next ht
    by_cases hheld : n.held
    · exact .inl (if_pos hheld)
    · exact .inr ⟨e, .lockAccount, next, ht, if_neg hheld⟩
  · rename_i e r next _ ht
    exact .inr ⟨e, r, next, ht, rfl⟩
  · exact .inl rfl

end Node

end VpnNode.Interleaving
