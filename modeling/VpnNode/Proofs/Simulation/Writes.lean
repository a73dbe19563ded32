import VpnNode.Proofs.Ledger.History
import VpnNode.Proofs.Program.Exchanges
import VpnNode.Simulation.World

/-!
# What tasks write into the ledger

A task writes into the ledger by requests only, and each of those is an operation on the
ledger. So the ledger after a task is the ledger after the operations among its requests.

Main statements:

* `ledger_perform`: what a request does to the ledger.
* `ledger_run`: what a task does to the ledger.
-/

namespace VpnNode

/-- The operation on the ledger that a request is, if it is one. -/
def Ledger.Operation.ofRequest? : Request → Option Ledger.Operation
  | .insertRow s => some (.insert s)
  | .updateRow f u => some (.updateOne f u)
  | .deleteRow f => some (.deleteOne f)
  | _ => none

namespace Simulation.World

open Ledger (Operation)

/-- The operations on the ledger that a task which runs alone performs, in order. -/
def writes (p : Program α) (w : World) : List Operation :=
  (p.exchanges perform w).filterMap fun e => Operation.ofRequest? e.request

theorem ledger_takeFault (w : World) (call : BackendCall) :
    (w.takeFault call).2.ledger = w.ledger := by
  unfold takeFault
  split <;> rfl

theorem ledger_updateTable (w : World) (x : Except Peer.Error (α × Peer.Table)) :
    (w.updateTable x).2.ledger = w.ledger := by
  unfold updateTable
  cases x <;> rfl

/-- A call to the backend leaves the ledger alone. -/
theorem ledger_callBackend (w : World) (call : BackendCall)
    {f : World → Except Peer.Error α × World} (hf : ∀ w, (f w).2.ledger = w.ledger) :
    (w.callBackend call f).2.ledger = w.ledger := by
  have hfault := w.ledger_takeFault call
  unfold callBackend
  revert hfault
  rcases w.takeFault call with ⟨_ | e, w'⟩
  · exact (hf w').trans
  · exact id

theorem updateLedger_eq (w : World) (x : Except ε (α × Ledger)) :
    w.updateLedger x =
      (x.map (·.1), { w with ledger := w.ledger.settle (x.map (·.2)) }) := by
  cases x <;> rfl

/-- A request is an operation on the ledger, or leaves it alone. -/
theorem ledger_perform (r : Request) (w : World) :
    (perform r w).2.ledger = (Operation.ofRequest? r).elim w.ledger w.ledger.perform := by
  cases r with
  | insertRow s =>
    show (World.updateLedger _ _).2.ledger = _
    rw [updateLedger_eq]
    show w.ledger.settle (((w.ledger.insert s).map fun l => ((), l)).map (·.2)) = _
    cases hi : w.ledger.insert s <;> simp [Operation.ofRequest?, Ledger.perform, hi, Except.map]
  | updateRow f u => exact congrArg (·.2.ledger) (updateLedger_eq _ (w.ledger.updateOne f u))
  | deleteRow f => exact congrArg (·.2.ledger) (updateLedger_eq _ (w.ledger.deleteOne f))
  | addPeer i => exact ledger_callBackend _ _ fun w => w.ledger_updateTable _
  | hasPeer i => exact ledger_callBackend _ _ fun _ => rfl
  | removePeer i => exact ledger_callBackend _ _ fun w => w.ledger_updateTable _
  | peerStatistics => exact ledger_callBackend _ _ fun _ => rfl
  | peerCount => exact ledger_callBackend _ _ fun _ => rfl
  | _ => rfl

/-- The ledger after a task is the ledger after what the task writes. -/
theorem ledger_run (p : Program α) (w : World) :
    (w.run p).2.ledger = (writes p w).foldl Ledger.perform w.ledger := by
  unfold World.run writes
  induction p generalizing w with
  | done a => rfl
  | abort message => rfl
  | ask r next ih =>
    simp only [Program.run, Program.exchanges]
    rw [ih, ledger_perform]
    cases hr : Operation.ofRequest? r with
    | none => simp only [List.filterMap_cons, hr, Option.elim_none]
    | some op => simp only [List.filterMap_cons, hr, Option.elim_some, List.foldl_cons]

end Simulation.World

end VpnNode
