import VpnNode.Proofs.Endpoint.Race

/-!
# The best endpoint

Results are compared by their latency first and by their place second. That is a total
order, so the winner of a list depends on what is in it and not on how it is ordered.

Main statements:

* `select_eq_some_iff`: what is selected is the first place among those of lowest latency.
* `best_live`: the best endpoint is the candidate at the place that is selected, and there
  is none only if no candidate is alive.
-/

namespace VpnNode.Endpoint

variable {a b c : Nat × Nat}

theorem better_iff : better a b ↔ a.2 < b.2 ∨ a.2 = b.2 ∧ a.1 ≤ b.1 := by
  simp [better]

theorem better_refl (a : Nat × Nat) : better a a := better_iff.2 (.inr ⟨rfl, Nat.le_refl _⟩)

theorem better_trans (hab : better a b) (hbc : better b c) : better a c := by
  rw [better_iff] at *
  omega

theorem better_of_not_better (h : ¬ better a b) : better b a := by
  rw [better_iff] at *
  omega

theorem better_antisymm (hab : better a b) (hba : better b a) : a = b := by
  rw [better_iff] at *
  exact Prod.ext (by omega) (by omega)

/-- Going through a list with the better of two results at hand ends with the best one. -/
theorem foldl_better (alive : List (Nat × Nat)) (a : Nat × Nat) :
    let w := alive.foldl (fun a b => if better a b then a else b) a
    w ∈ a :: alive ∧ ∀ e ∈ a :: alive, better w e := by
  induction alive generalizing a with
  | nil => simp [better_refl]
  | cons b alive ih =>
    rw [List.foldl_cons]
    by_cases hab : better a b
    · rw [if_pos hab]
      obtain ⟨hmem, hbest⟩ := ih a
      have hwa := hbest a List.mem_cons_self
      refine ⟨?_, fun e he => ?_⟩
      · obtain hwinner | hwinner := List.mem_cons.1 hmem
        · exact List.mem_cons.2 (.inl hwinner)
        · exact List.mem_cons_of_mem _ (List.mem_cons_of_mem _ hwinner)
      · obtain rfl | rfl | he : e = a ∨ e = b ∨ e ∈ alive := by simpa using he
        · exact hwa
        · exact better_trans hwa hab
        · exact hbest e (List.mem_cons_of_mem _ he)
    · rw [if_neg hab]
      obtain ⟨hmem, hbest⟩ := ih b
      have hwb := hbest b List.mem_cons_self
      refine ⟨List.mem_cons_of_mem _ hmem, fun e he => ?_⟩
      obtain rfl | he := List.mem_cons.1 he
      · exact better_trans hwb (better_of_not_better hab)
      · exact hbest e he

/-- What is selected has the lowest latency, and no result of that latency has a smaller
    place. -/
theorem select_eq_some_iff {alive : List (Nat × Nat)} {i : Nat} :
    select alive = some i ↔
      ∃ l, (i, l) ∈ alive ∧ ∀ e ∈ alive, l < e.2 ∨ l = e.2 ∧ i ≤ e.1 := by
  cases alive with
  | nil => simp [select]
  | cons a alive =>
    obtain ⟨hmem, hbest⟩ := foldl_better alive a
    rw [select, Option.some.injEq]
    constructor
    · rintro rfl
      exact ⟨_, hmem, fun e he => better_iff.1 (hbest e he)⟩
    · rintro ⟨l, hil, hleast⟩
      have heq := better_antisymm (hbest _ hil) (better_iff.2 (hleast _ hmem))
      rw [heq]

example : select [(0, 30), (1, 10), (2, 10)] = some 1 := by decide

example : select [(2, 5), (0, 5)] = some 0 := by decide

theorem best_eq_some_iff {endpoints : List String} {alive : List (Nat × Nat)} {a : String} :
    best endpoints alive = some a ↔ ∃ i, select alive = some i ∧ endpoints[i]? = some a :=
  Option.bind_eq_some_iff

theorem mem_of_best {endpoints : List String} {alive : List (Nat × Nat)} {a : String}
    (h : best endpoints alive = some a) : a ∈ endpoints := by
  obtain ⟨i, -, hi⟩ := best_eq_some_iff.1 h
  exact List.mem_of_getElem? hi

/-- A candidate that is alive has a place in the list of candidates. -/
theorem lt_length_of_mem_live {limit : Nat} {bs : List Behaviour} {e : Nat × Nat}
    (he : e ∈ live limit bs) : e.1 < bs.length := by
  obtain ⟨ms, hms, -⟩ := mem_live_iff.1 he
  exact (List.getElem?_eq_some_iff.1 hms).1

/-- The best endpoint is the candidate at the place that is selected; there is none only
    if nothing is alive. -/
theorem best_live {limit : Nat} {endpoints : List String} {bs : List Behaviour}
    (hlength : bs.length = endpoints.length) :
    (∀ i, select (live limit bs) = some i →
      ∃ h : i < endpoints.length, best endpoints (live limit bs) = some endpoints[i]) ∧
    (best endpoints (live limit bs) = none ↔ live limit bs = []) := by
  have hsome : ∀ i, select (live limit bs) = some i →
      ∃ h : i < endpoints.length, best endpoints (live limit bs) = some endpoints[i] := by
    intro i hi
    obtain ⟨l, hmem, -⟩ := select_eq_some_iff.1 hi
    have hlt : i < endpoints.length := hlength ▸ lt_length_of_mem_live hmem
    exact ⟨hlt, best_eq_some_iff.2 ⟨i, hi, List.getElem?_eq_getElem hlt⟩⟩
  refine ⟨hsome, fun hnone => ?_, fun hnil => ?_⟩
  · cases hselect : select (live limit bs) with
    | none => exact select_eq_none_iff.1 hselect
    | some i =>
      obtain ⟨_, hbest⟩ := hsome i hselect
      rw [hnone] at hbest
      cases hbest
  · rw [hnil]
    rfl

end VpnNode.Endpoint
