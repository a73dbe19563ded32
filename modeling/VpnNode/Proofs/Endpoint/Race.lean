import VpnNode.Endpoint
import VpnNode.Proofs.Maximum

/-!
# Probing side by side

All probes begin at the same moment. From then on a probe that is due is looked at, and
only when none is due a millisecond passes. Which of several probes that are due is looked
at first is left open, so the results are those of every schedule: they depend neither on
the order in which the probes end nor on how many there are.

Main statements:

* `Race.results_of_finished`: a race that is over has the results that `live` gives, in the
  order of the candidates, and has taken the time that `elapsed` gives.
* `Race.goes_on`, `Race.moves_le`: a race that is not over can go on, but not for ever.
* `mem_live_iff`, `elapsed_le_iff`: which probes succeed in time, and how long it takes.
-/

namespace VpnNode.Endpoint

variable {limit now : Nat} {b : Behaviour} {bs : List Behaviour}

/-! ## Results and time -/

/-- The probing is over once every probe has ended or has been given up. -/
theorem elapsed_le_iff {t : Nat} : elapsed limit bs ≤ t ↔ ∀ b ∈ bs, b.ends limit ≤ t :=
  foldl_max_le_iff.trans (and_iff_right (Nat.zero_le t))

theorem liveFrom_eq_filterMap (i : Nat) (bs : List Behaviour) :
    liveFrom limit i bs = (bs.zipIdx i).filterMap fun e =>
      (e.1.latency? limit).map fun ms => (e.2, ms * nanosPerMilli) := by
  induction bs generalizing i with
  | nil => rfl
  | cons b bs ih =>
    rw [liveFrom, List.zipIdx_cons, List.filterMap_cons, ih]
    cases b.latency? limit <;> rfl

theorem latency?_eq_some_iff {ms : Nat} :
    b.latency? limit = some ms ↔ b = .succeeds ms ∧ ms ≤ limit := by
  cases b with
  | succeeds k =>
    simp only [Behaviour.latency?, Behaviour.succeeds.injEq]
    split <;> simp <;> omega
  | fails k => exact ⟨nofun, nofun⟩
  | hangs => exact ⟨nofun, nofun⟩

/-- A candidate is alive if its probe succeeds within the time limit. -/
theorem mem_live_iff {i l : Nat} :
    (i, l) ∈ live limit bs ↔
      ∃ ms, bs[i]? = some (.succeeds ms) ∧ ms ≤ limit ∧ l = ms * nanosPerMilli := by
  rw [live, liveFrom_eq_filterMap, List.mem_filterMap]
  simp only [Prod.exists, List.mem_zipIdx_iff_getElem?, Option.map_eq_some_iff,
    latency?_eq_some_iff, Prod.mk.injEq]
  constructor
  · rintro ⟨b, j, hb, ms, ⟨rfl, hms⟩, rfl, rfl⟩
    exact ⟨ms, hb, hms, rfl⟩
  · rintro ⟨ms, hb, hms, rfl⟩
    exact ⟨_, i, hb, ms, ⟨rfl, hms⟩, rfl, rfl⟩

theorem le_of_mem_liveFrom {i : Nat} {e : Nat × Nat} (he : e ∈ liveFrom limit i bs) :
    i ≤ e.1 := by
  rw [liveFrom_eq_filterMap, List.mem_filterMap] at he
  obtain ⟨⟨b, j⟩, hb, hmap⟩ := he
  obtain ⟨ms, -, rfl⟩ := Option.map_eq_some_iff.1 hmap
  exact List.le_snd_of_mem_zipIdx hb

/-- The results come in the order of the candidates. -/
theorem pairwise_liveFrom (i : Nat) (bs : List Behaviour) :
    (liveFrom limit i bs).Pairwise fun a b => a.1 < b.1 := by
  induction bs generalizing i with
  | nil => exact .nil
  | cons b bs ih =>
    rw [liveFrom]
    cases b.latency? limit with
    | none => exact ih (i + 1)
    | some ms => exact .cons (fun e he => le_of_mem_liveFrom he) (ih (i + 1))

/-! ## A race of probes -/

/-- What there is to see of a probe after `now` milliseconds: nothing yet, or that it has
    ended, with its latency if it has succeeded. Its own end counts before the time limit. -/
def Behaviour.look (limit now : Nat) : Behaviour → Option (Option Nat)
  | .succeeds ms => if ms ≤ now then some (some now) else if limit ≤ now then some none else none
  | .fails ms => if ms ≤ now || limit ≤ now then some none else none
  | .hangs => if limit ≤ now then some none else none

/-- A probe that is looked at in time is seen to end at the moment when it does. -/
theorem look_of_le (h : now ≤ b.ends limit) :
    b.look limit now = if now = b.ends limit then some (b.latency? limit) else none := by
  cases b with
  | succeeds ms | fails ms | hangs =>
    simp only [Behaviour.look, Behaviour.ends, Behaviour.latency?, Bool.or_eq_true,
      decide_eq_true_eq] at h ⊢
    grind

/-- A probe, and what has come of it. -/
structure Probe where
  behaviour : Behaviour
  /-- Its end, with the latency in milliseconds if it has succeeded. -/
  ended : Option (Option Nat)

/-- Probes side by side, and the milliseconds since they began. -/
structure Race where
  now : Nat
  probes : List Probe

namespace Race

/-- All probes begin. -/
def start (bs : List Behaviour) : Race where
  now := 0
  probes := bs.map fun b => ⟨b, none⟩

def finished (r : Race) : Prop := ∀ p ∈ r.probes, p.ended ≠ none

/-- What the probes that have succeeded give: their places, and their latencies in
    nanoseconds. -/
def results (r : Race) : List (Nat × Nat) :=
  r.probes.zipIdx.filterMap fun e => e.1.ended.join.map fun ms => (e.2, ms * nanosPerMilli)

/-- A move of a race: a probe that is due is looked at, or time passes because none is. -/
inductive Step (limit : Nat) (r : Race) : Race → Prop
  | look {i : Nat} {p : Probe} {x : Option Nat} (hp : r.probes[i]? = some p)
      (hrunning : p.ended = none) (hdue : p.behaviour.look limit r.now = some x) :
      Step limit r { r with probes := r.probes.set i { p with ended := some x } }
  | wait (hleft : ¬ r.finished)
      (hidle : ∀ p ∈ r.probes, p.ended = none → p.behaviour.look limit r.now = none) :
      Step limit r { r with now := r.now + 1 }

/-- The races that there may be after a number of moves. -/
inductive After (limit : Nat) (bs : List Behaviour) : Nat → Race → Prop
  | start : After limit bs 0 (start bs)
  | next {n : Nat} {r r' : Race} (h : After limit bs n r) (hstep : Step limit r r') :
      After limit bs (n + 1) r'

/-- The number of probes that have ended. -/
def ended (r : Race) : Nat := r.probes.countP fun p => p.ended.isSome

/-- Every probe has been looked at as soon as it was due. -/
structure OnTime (limit : Nat) (bs : List Behaviour) (r : Race) : Prop where
  behaviours : r.probes.map (·.behaviour) = bs
  running : ∀ p ∈ r.probes, p.ended = none → r.now ≤ p.behaviour.ends limit
  latency : ∀ p ∈ r.probes, ∀ x, p.ended = some x →
    x = p.behaviour.latency? limit ∧ p.behaviour.ends limit ≤ r.now
  now_le : r.now ≤ elapsed limit bs

variable {r r' : Race} {n : Nat}

theorem onTime_start (limit : Nat) (bs : List Behaviour) : OnTime limit bs (start bs) where
  behaviours := by simp [start, Function.comp_def]
  running := fun _ _ _ => Nat.zero_le _
  latency := by simp [start]
  now_le := Nat.zero_le _

theorem OnTime.ends_le_elapsed (h : OnTime limit bs r) {p : Probe} (hp : p ∈ r.probes) :
    p.behaviour.ends limit ≤ elapsed limit bs := by
  refine elapsed_le_iff.1 (Nat.le_refl _) _ ?_
  rw [← h.behaviours]
  exact List.mem_map_of_mem hp

theorem OnTime.look {i : Nat} {p : Probe} {x : Option Nat} (h : OnTime limit bs r)
    (hp : r.probes[i]? = some p) (hrunning : p.ended = none)
    (hdue : p.behaviour.look limit r.now = some x) :
    OnTime limit bs { r with probes := r.probes.set i { p with ended := some x } } := by
  have hmem := List.mem_of_getElem? hp
  -- The probe is seen at the very moment in which it ends.
  rw [look_of_le (h.running p hmem hrunning)] at hdue
  obtain ⟨hnow, hx⟩ : r.now = p.behaviour.ends limit ∧ p.behaviour.latency? limit = x := by
    simpa using hdue
  refine ⟨?_, fun q hq => ?_, fun q hq => ?_, h.now_le⟩
  · obtain ⟨hi, rfl⟩ := List.getElem?_eq_some_iff.1 hp
    rw [List.map_set, ← h.behaviours]
    refine List.ext_getElem (by simp) fun j _ _ => ?_
    by_cases hj : i = j <;> simp [hj]
  · obtain hq | rfl := List.mem_or_eq_of_mem_set hq
    · exact h.running q hq
    · exact nofun
  · obtain hq | rfl := List.mem_or_eq_of_mem_set hq
    · exact h.latency q hq
    · rintro _ ⟨⟩
      exact ⟨hx.symm, Nat.le_of_eq hnow.symm⟩

theorem OnTime.wait (h : OnTime limit bs r) (hleft : ¬ r.finished)
    (hidle : ∀ p ∈ r.probes, p.ended = none → p.behaviour.look limit r.now = none) :
    OnTime limit bs { r with now := r.now + 1 } := by
  -- A probe that is not due ends later than now.
  have hlater : ∀ p ∈ r.probes, p.ended = none → r.now + 1 ≤ p.behaviour.ends limit := by
    intro p hp hrunning
    have hle := h.running p hp hrunning
    have hnone := hidle p hp hrunning
    rw [look_of_le hle] at hnone
    obtain heq | hlt := Nat.eq_or_lt_of_le hle
    · rw [if_pos heq] at hnone
      exact absurd hnone nofun
    · exact hlt
  obtain ⟨p, hp, hrunning⟩ : ∃ p ∈ r.probes, p.ended = none := by
    simpa [finished] using hleft
  refine ⟨h.behaviours, hlater, fun q hq x hx => ?_, ?_⟩
  · obtain ⟨hlatency, hends⟩ := h.latency q hq x hx
    exact ⟨hlatency, Nat.le_succ_of_le hends⟩
  · exact Nat.le_trans (hlater p hp hrunning) (h.ends_le_elapsed hp)

theorem OnTime.step (h : OnTime limit bs r) (hstep : Step limit r r') : OnTime limit bs r' := by
  cases hstep with
  | look hp hrunning hdue => exact h.look hp hrunning hdue
  | wait hleft hidle => exact h.wait hleft hidle

theorem After.onTime (h : After limit bs n r) : OnTime limit bs r := by
  induction h with
  | start => exact onTime_start limit bs
  | next _ hstep ih => exact ih.step hstep

/-- Each move ends a probe or lets a millisecond pass. -/
theorem Step.progress (hstep : Step limit r r') :
    r'.now + r'.ended = r.now + r.ended + 1 := by
  cases hstep with
  | look hp hrunning hdue =>
    obtain ⟨hi, rfl⟩ := List.getElem?_eq_some_iff.1 hp
    simp only [ended, List.countP_set hi, hrunning]
    simp
    omega
  | wait => simp only [ended]; omega

theorem After.moves_eq (h : After limit bs n r) : n = r.now + r.ended := by
  induction h with
  | start => simp [Race.start, ended, List.countP_map, Function.comp_def]
  | next _ hstep ih => rw [hstep.progress, ih]

/-- A race cannot go on for ever. -/
theorem moves_le (h : After limit bs n r) : n ≤ elapsed limit bs + bs.length := by
  have hlength : r.ended ≤ bs.length := by
    rw [← h.onTime.behaviours, List.length_map]
    exact List.countP_le_length
  rw [h.moves_eq]
  exact Nat.add_le_add h.onTime.now_le hlength

/-- A race that is not over can go on. -/
theorem goes_on (limit : Nat) (hleft : ¬ r.finished) : ∃ r', Step limit r r' := by
  by_cases hidle : ∀ p ∈ r.probes, p.ended = none → p.behaviour.look limit r.now = none
  · exact ⟨_, .wait hleft hidle⟩
  · obtain ⟨p, hp, hrunning, hdue⟩ : ∃ p ∈ r.probes, p.ended = none ∧
        p.behaviour.look limit r.now ≠ none := by
      simpa using hidle
    obtain ⟨i, hi⟩ := List.getElem?_of_mem hp
    obtain ⟨x, hx⟩ := Option.ne_none_iff_exists'.1 hdue
    exact ⟨_, .look hi hrunning hx⟩

/-- A race that is over has found what is alive, in the time of its slowest probe. -/
theorem results_of_finished (h : After limit bs n r) (hfinished : r.finished) :
    r.results = live limit bs ∧ r.now = elapsed limit bs := by
  have hon := h.onTime
  have hended : ∀ p ∈ r.probes, p.ended = some (p.behaviour.latency? limit) ∧
      p.behaviour.ends limit ≤ r.now := by
    intro p hp
    obtain ⟨x, hx⟩ := Option.ne_none_iff_exists'.1 (hfinished p hp)
    obtain ⟨rfl, hends⟩ := hon.latency p hp x hx
    exact ⟨hx, hends⟩
  constructor
  · have hprobes : r.probes = bs.map fun b => ⟨b, some (b.latency? limit)⟩ := by
      rw [← hon.behaviours, List.map_map]
      refine (List.map_id' r.probes).symm.trans (List.map_congr_left fun p hp => ?_)
      exact congrArg (Probe.mk p.behaviour) (hended p hp).1
    rw [results, hprobes, List.zipIdx_map, List.filterMap_map, live, liveFrom_eq_filterMap]
    rfl
  · refine Nat.le_antisymm hon.now_le (elapsed_le_iff.2 fun b hb => ?_)
    rw [← hon.behaviours] at hb
    obtain ⟨p, hp, rfl⟩ := List.mem_map.1 hb
    exact (hended p hp).2

end Race

end VpnNode.Endpoint
