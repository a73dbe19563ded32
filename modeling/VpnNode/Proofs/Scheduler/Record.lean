import Mathlib.Data.List.Perm.Basic
import VpnNode.Proofs.Scheduler.Lifecycle

/-!
# What a scheduler notes

The notes of a scheduler over any number of calls, and those of the lane at one place.
The order in which a scheduler gives its notes mixes those of different lanes, but none is
lost and none is made up.

Main statements:

* `recordFrom_perm`: a scheduler notes its registrations and what its lanes note.
* `recordAt_of_absent`: a lane that is not begun notes nothing.
* `following_idle`: what the passing of time keeps holds of a lane and its notes until the
  next call to start or stop.
-/

namespace VpnNode.Scheduler

variable {s : Scheduler} {place : Nat} {l : Lane}

/-- Everything that is noted during further calls. -/
def recordFrom : Scheduler → List Call → List Entry
  | _, [] => []
  | s, c :: calls => (s.obey c.command).2 ++ recordFrom (s.obey c.command).1 calls

/-- Everything that a new scheduler notes during calls. -/
def record (calls : List Call) : List Entry := recordFrom {} calls

/-- What the lane at a place notes during further calls. -/
def recordAt (place : Nat) : Scheduler → List Call → List Entry
  | _, [] => []
  | s, c :: calls =>
    s.lanes[place]?.elim [] (s.notes c) ++ recordAt place (s.obey c.command).1 calls

theorem recordAt_append (place : Nat) (s : Scheduler) (calls more : List Call) :
    recordAt place s (calls ++ more) =
      recordAt place s calls ++ recordAt place (following s calls) more := by
  induction calls generalizing s with
  | nil => rfl
  | cons c calls ih =>
    rw [List.cons_append, recordAt, ih, recordAt, List.append_assoc]
    rfl

theorem length_le_following (s : Scheduler) (calls : List Call) :
    s.lanes.length ≤ (following s calls).lanes.length := by
  induction calls generalizing s with
  | nil => exact Nat.le_refl _
  | cons c calls ih =>
    refine Nat.le_trans ?_ (ih (s.obey c.command).1)
    rw [lanes_obey, List.length_append, List.length_map]
    exact Nat.le_add_right _ _

/-- Going through the places of a list is going through the list. -/
theorem flatMap_range_getElem? (f : α → List β) {l : List α} {n : Nat} (h : l.length ≤ n) :
    ((List.range n).flatMap fun i => l[i]?.elim [] f) = l.flatMap f := by
  induction n generalizing l with
  | zero => rw [List.length_eq_zero_iff.1 (Nat.le_zero.1 h)]; rfl
  | succ n ih =>
    rw [List.range_succ_eq_map, List.flatMap_cons, List.flatMap_map]
    cases l with
    | nil => simp
    | cons a l => simpa using ih (Nat.le_of_succ_le_succ h)

/-- A scheduler notes what is registered and what the lanes note, place by place. -/
theorem recordFrom_perm (h : s.remains = []) (calls : List Call) {n : Nat}
    (hn : (following s calls).lanes.length ≤ n) :
    ∃ registered, (∀ e ∈ registered, ∃ ms, e.note = .registered ms) ∧
      (recordFrom s calls).Perm
        (registered ++ (List.range n).flatMap fun place => recordAt place s calls) := by
  induction calls generalizing s with
  | nil => exact ⟨[], nofun, by simp [recordFrom, recordAt]⟩
  | cons c calls ih =>
    obtain ⟨earlier, hearlier, hnow⟩ := obey_perm h c
    obtain ⟨later, hlater, hrest⟩ := ih (remains_obey h c) hn
    have hlength : s.lanes.length ≤ n := Nat.le_trans (length_le_following s (c :: calls)) hn
    refine ⟨earlier ++ later, List.forall_mem_append.2 ⟨hearlier, hlater⟩, ?_⟩
    have hplaces : (s.lanes.flatMap (s.notes c) ++ (List.range n).flatMap fun place =>
          recordAt place (s.obey c.command).1 calls).Perm
        ((List.range n).flatMap fun place => recordAt place s (c :: calls)) := by
      rw [← flatMap_range_getElem? (s.notes c) hlength]
      exact List.flatMap_append_perm ..
    refine (hnow.append hrest).trans ?_
    rw [List.append_assoc, List.append_assoc]
    exact ((List.perm_append_comm_assoc ..).trans (hplaces.append_left later)).append_left earlier

/-! ## Places where nothing has been begun -/

/-- A lane that has not been begun stays so without a start, and notes nothing. -/
theorem told_of_absent (hl : l.stage = .absent) {c : Call} (hc : c ≠ .start) :
    (s.told c l).stage = .absent ∧ s.notes c l = [] := by
  cases c with
  | register routines => exact ⟨hl, rfl⟩
  | start => exact absurd rfl hc
  | sleep | settle =>
    simp only [told, notes, Lane.runBefore, Lane.turnsBefore_absent hl]
    exact ⟨hl, trivial⟩
  | stop => exact ⟨l.stage_stop, Lane.stop_absent hl⟩

theorem recordAt_of_absent (hplace : ∀ l, s.lanes[place]? = some l → l.stage = .absent)
    {calls : List Call} (hcalls : .start ∉ calls) :
    recordAt place s calls = [] ∧
      ∀ l, (following s calls).lanes[place]? = some l → l.stage = .absent := by
  induction calls generalizing s with
  | nil => exact ⟨rfl, hplace⟩
  | cons c calls ih =>
    have hc : c ≠ .start := (List.ne_of_not_mem_cons hcalls).symm
    have hnext : ∀ l, (s.obey c.command).1.lanes[place]? = some l → l.stage = .absent := by
      intro l' hl'
      rw [lanes_obey, List.getElem?_append, List.length_map, List.getElem?_map] at hl'
      split at hl'
      · obtain ⟨l, hl, rfl⟩ := Option.map_eq_some_iff.1 hl'
        exact (told_of_absent (hplace l hl) hc).1
      · cases c with
        | register routines =>
          rw [Call.added, List.getElem?_map] at hl'
          obtain ⟨routine, -, rfl⟩ := Option.map_eq_some_iff.1 hl'
          rfl
        | start | sleep | settle | stop => simp [Call.added] at hl'
    obtain ⟨hnil, habsent⟩ := ih hnext (List.not_mem_of_not_mem_cons hcalls)
    refine ⟨?_, habsent⟩
    rw [recordAt, hnil, List.append_nil]
    cases hl : s.lanes[place]? with
    | none => rfl
    | some l => exact (told_of_absent (hplace l hl) hc).2

/-! ## Between two calls to start or stop -/

/-- A call that neither starts nor stops, and after which the turns that are due at its moment
    are still to come. -/
def Call.idle : Call → Bool
  | .register _ | .sleep _ => true
  | .start | .settle | .stop => false

/-- What the passing of time keeps holds of a lane and its notes after any calls that
    neither start nor stop it. -/
theorem following_idle {P : Lane → Nat → List Entry → Prop}
    (hsleep : ∀ l now ms noted, P l now noted →
      P (l.runBefore now (now + ms)).1 (now + ms) (noted ++ (l.runBefore now (now + ms)).2))
    {calls : List Call} (hidle : ∀ c ∈ calls, c.idle) (hl : s.lanes[place]? = some l)
    {noted : List Entry} (hP : P l s.time noted) :
    ∃ l', (following s calls).lanes[place]? = some l' ∧
      P l' (following s calls).time (noted ++ recordAt place s calls) := by
  induction calls generalizing s l noted with
  | nil => exact ⟨l, hl, by simpa [recordAt, following] using hP⟩
  | cons c calls ih =>
    obtain ⟨hc, hidle⟩ := List.forall_mem_cons.1 hidle
    have hl' : (s.obey c.command).1.lanes[place]? = some (s.told c l) := by
      rw [lanes_obey, List.getElem?_append_left, List.getElem?_map, hl, Option.map_some]
      rw [List.length_map]
      exact (List.getElem?_eq_some_iff.1 hl).1
    have hnext : P (s.told c l) (s.obey c.command).1.time (noted ++ s.notes c l) := by
      rw [time_obey]
      cases c with
      | register routines => simpa [told, nextTime, notes] using hP
      | start | settle | stop => cases hc
      | sleep ms => exact hsleep l s.time ms noted hP
    obtain ⟨l', hfollowing, hP'⟩ := ih hidle hl' hnext
    refine ⟨l', hfollowing, ?_⟩
    rw [recordAt, hl, ← List.append_assoc]
    exact hP'

end VpnNode.Scheduler
