import VpnNode.Chain.Basic
import VpnNode.Chain.Error
import VpnNode.Ledger.Basic
import VpnNode.Peer.Identity
import VpnNode.Peer.Statistic
import VpnNode.State

/-!
# Tasks of the node

A task is written as a program: it puts one request after another to its surroundings
and goes on with the answers. Each request is one step that other tasks cannot
interrupt; between two of them they can. A task ends with a value, or it breaks down
with a message because a stored value was corrupt.

What the requests do is not said here. The same program runs alone, beside others, or
against anything else that answers requests.

Main statements:

* `run_bind`: a composed program runs as its parts do, one after the other.
* `bind_assoc`, `bind_done`: programs are a monad.
* `perform_eq_run`: running a task is a case of performing it with effects.
-/

namespace VpnNode

/-- What a task asks of its surroundings. -/
inductive Request where
  /-- Lets milliseconds pass. -/
  | sleep (ms : UInt64)
  /-- Reads the wall clock. -/
  | now
  /-- Waits for the right to submit transactions of the node's account. -/
  | lockAccount
  | unlockAccount
  | querySession (id : UInt64)
  /-- Hands in a transaction with these messages. -/
  | submit (batch : List Chain.Message)
  /-- Looks for a transaction in the chain's blocks. -/
  | pollTransaction (hash : String)
  | addPeer (i : Peer.Identity)
  | hasPeer (i : Peer.Identity)
  | removePeer (i : Peer.Identity)
  | peerStatistics
  | peerCount
  | findRows (f : Ledger.Filter)
  | insertRow (s : Session)
  | updateRow (f : Ledger.Filter) (u : Ledger.Update)
  | deleteRow (f : Ledger.Filter)
  /-- Probes endpoints at the same time; the answer lists those that are alive, by
      place, with their latencies in nanoseconds. -/
  | probe (endpoints : List String) (timeout : UInt64)
  | readState
  | publishEndpoint (address : String)
  | publishLocation (location : Location)
  | publishSpeed (speed : Speed)
  /-- Finds out where the node is. -/
  | locate
  /-- Measures how fast the node is. -/
  | measureSpeed

/-- The type of the answer to a request. -/
def Request.Answer : Request → Type
  | .sleep _ | .lockAccount | .unlockAccount => Unit
  | .publishEndpoint _ | .publishLocation _ | .publishSpeed _ => Unit
  | .now => Time
  | .querySession _ => Except Chain.Error (Option Chain.Session)
  | .submit _ => Except Chain.Error Chain.Receipt
  | .pollTransaction _ => Except Chain.Error Chain.Inclusion
  | .addPeer _ => Except Peer.Error (List UInt8)
  | .hasPeer _ => Except Peer.Error Bool
  | .removePeer _ => Except Peer.Error Unit
  | .peerStatistics => Except Peer.Error (List Peer.Statistic)
  | .peerCount => Except Peer.Error Nat
  | .findRows _ => Except Ledger.Error (List Session)
  | .insertRow _ => Except Ledger.Error Unit
  | .updateRow _ _ => Except Ledger.Failure (Option Session)
  | .deleteRow _ => Except Ledger.Error (Option Session)
  | .probe _ _ => List (Nat × Nat)
  | .readState => State
  | .locate => Except String Location
  | .measureSpeed => Except String Speed

/-- A task: a value, a breakdown, or a request and how to go on with its answer. -/
inductive Program (α : Type) : Type where
  | done (a : α)
  | abort (message : String)
  | ask (r : Request) (next : r.Answer → Program α)

namespace Program

/-- Goes on with the value of a task; a breakdown stays one. -/
def bind (p : Program α) (f : α → Program β) : Program β :=
  match p with
  | .done a => f a
  | .abort message => .abort message
  | .ask r next => .ask r fun a => bind (next a) f

instance : Monad Program where
  pure := .done
  bind := bind

/-- Puts one request and gives its answer. -/
def request (r : Request) : Program r.Answer := .ask r .done

/-- The value, or a breakdown on a corrupt value. -/
def ofCorruption : Except Session.Corruption α → Program α
  | .ok a => .done a
  | .error c => .abort c.message

/-- The value or the error of an operation; a breakdown on a corrupt value. -/
def ofFailure : Except Ledger.Failure α → Program (Except Ledger.Error α)
  | .ok a => .done (.ok a)
  | .error (.error e) => .done (.error e)
  | .error (.corrupt c) => .abort c.message

/-! ## Running a task alone -/

/-- How a task has ended. -/
inductive Outcome (α : Type) where
  | value (a : α)
  | broken (message : String)
  deriving DecidableEq

/-- Runs a task alone: each request is answered by a surrounding, which it may change. -/
def run (answer : (r : Request) → σ → r.Answer × σ) : Program α → σ → Outcome α × σ
  | .done a, s => (.value a, s)
  | .abort message, s => (.broken message, s)
  | .ask r next, s =>
    let (a, s) := answer r s
    run answer (next a) s

/-- Runs a task alone, where answering a request has effects. -/
def perform {m : Type → Type} [Monad m] (answer : (r : Request) → m r.Answer) :
    Program α → m (Outcome α)
  | .done a => return .value a
  | .abort message => return .broken message
  | .ask r next => do
    let a ← answer r
    perform answer (next a)

@[simp] theorem bind_done (a : α) (f : α → Program β) : bind (.done a) f = f a := rfl

theorem bind_assoc (p : Program α) (f : α → Program β) (g : β → Program γ) :
    bind (bind p f) g = bind p fun a => bind (f a) g := by
  induction p with
  | done a => rfl
  | abort m => rfl
  | ask r next ih => simp only [bind]; congr; funext a; exact ih a

theorem bind_done_eq (p : Program α) : bind p .done = p := by
  induction p with
  | done a => rfl
  | abort m => rfl
  | ask r next ih => simp only [bind, ih]

instance : LawfulMonad Program :=
  .mk' Program bind_done_eq (fun _ _ => rfl) bind_assoc

/-- A composed program runs as its parts do, one after the other. -/
theorem run_bind (answer : (r : Request) → σ → r.Answer × σ) (p : Program α) (f : α → Program β)
    (s : σ) :
    run answer (bind p f) s =
      match run answer p s with
      | (.value a, s) => run answer (f a) s
      | (.broken message, s) => (.broken message, s) := by
  induction p generalizing s with
  | done a => rfl
  | abort m => rfl
  | ask r next ih => simp only [bind, run, ih]

/-- To run a task is to perform it with changes of the surrounding as the effects. -/
theorem perform_eq_run (answer : (r : Request) → σ → r.Answer × σ) (p : Program α) :
    p.perform (m := StateM σ) answer = p.run answer := by
  induction p with
  | done a => rfl
  | abort message => rfl
  | ask r next ih =>
    funext s
    exact congrFun (ih (answer r s).1) (answer r s).2

end VpnNode.Program
