import VpnNode.Proofs.Program.Exchanges

/-!
# Calls to the chain

Among the exchanges of a task, those that reach the chain: queries, submissions and
polls, each with its outcome. Pauses and everything that concerns the node alone are
passed over.

Main statement:

* `calls_attemptExchanges`: attempts at a call are calls, the pauses between them are not.
-/

namespace VpnNode.Chain

open Program (Exchange)

/-- A call to the chain, with what it came to. -/
inductive Call where
  | query (id : UInt64) (outcome : Except Error (Option Session))
  | submission (batch : List Message) (outcome : Except Error Receipt)
  | poll (hash : String) (outcome : Except Error Inclusion)

/-- The call to the chain that an exchange is, if it is one. -/
def Call.ofExchange? : Exchange → Option Call
  | ⟨.querySession id, outcome⟩ => some (.query id outcome)
  | ⟨.submit batch, outcome⟩ => some (.submission batch outcome)
  | ⟨.pollTransaction hash, outcome⟩ => some (.poll hash outcome)
  | _ => none

/-- The calls to the chain among exchanges. -/
def calls (exchanges : List Exchange) : List Call := exchanges.filterMap Call.ofExchange?

@[simp] theorem calls_append (xs ys : List Exchange) : calls (xs ++ ys) = calls xs ++ calls ys :=
  List.filterMap_append

/-- Attempts at a call are calls; the pauses between them are not. -/
theorem calls_attemptExchanges {r : Request} {call : r.Answer → Call}
    (h : ∀ a, Call.ofExchange? ⟨r, a⟩ = some (call a)) (pause : UInt64) (failed : List r.Answer)
    (last : r.Answer) :
    calls (attemptExchanges pause r failed last) = (failed ++ [last]).map call := by
  have hlast : calls [⟨r, last⟩] = [call last] := by
    rw [calls, List.filterMap_cons_some (h last), List.filterMap_nil]
  have hfailed : calls (failed.flatMap fun a => [⟨r, a⟩, ⟨.sleep pause, ()⟩]) = failed.map call := by
    induction failed with
    | nil => rfl
    | cons a failed ih =>
      rw [List.flatMap_cons, calls_append, ih, calls, List.filterMap_cons_some (h a)]
      rfl
  rw [attemptExchanges, calls_append, hfailed, hlast, List.map_append, List.map_singleton]

end VpnNode.Chain
