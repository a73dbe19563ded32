import VpnNode.Proofs.Scheduler.History

/-!
# The pause between two runs

A routine is meant to pause for its interval after each run. Between two runs without a
stop it does so exactly as long as nobody calls `start`: a call that comes during the run
leaves the pause out, one that comes during the pause ends it. Before the first run
after a stop the call that begins the routine does no harm, but a second one does. A call
that comes just as a pause is over leaves out the next one, if it is the clock that has
ended the pause; it does no harm if the call has.

`Lane.Tracks` relates what a lane is doing to its history.

Main statements:

* `Tracks.start`, `Tracks.turn`, `Tracks.stop`: each step of a lane keeps the relation.
* `Tracks.runBefore`: so do the turns that come while time passes, or at one moment.
* `tracks_history`: it holds after any calls.
* `spaced_history`: when the next run begins.
* `interval_kept_iff`: when the interval is kept.
-/

namespace VpnNode.Scheduler

/-! ## Parts of a history -/

/-- Neither the beginning of a run nor a stop. -/
def Event.quiet : Event → Bool
  | .start _ | .finish _ _ => true
  | .begin _ _ | .stop _ => false

/-- The moments of the calls that start. -/
def starts (h : List Event) : List Nat :=
  h.filterMap fun
    | .start t => some t
    | _ => none

/-- The runs that end, with their moments. -/
def finishes (h : List Event) : List (Nat × Nat) :=
  h.filterMap fun
    | .finish n t => some (n, t)
    | _ => none

/-- The routine has not been begun since the last stop. -/
def unbegun : List Event → Bool
  | [] | .stop _ :: _ => true
  | _ => false

/-- The routine has been begun since the last stop, and has not run since. -/
def awaiting : List Event → Bool
  | .start _ :: h => unbegun h || awaiting h
  | _ => false

/-- The calls since the one that has begun the routine, if it has not run since. -/
def restarts : List Event → List Nat
  | .start t :: h => if awaiting h then t :: restarts h else []
  | _ => []

/-- The moment at which the pause after the latest run is over, unless it is cut short. -/
def pauseEnd? (interval : Nat) : List Event → Option Nat
  | .start _ :: h => pauseEnd? interval h
  | .finish _ f :: _ => some (f + interval)
  | _ => none

/-- The calls that have come when the pause after the latest run was over. -/
def late (interval : Nat) : List Event → List Nat
  | .start t :: h =>
    if (pauseEnd? interval h).any (· ≤ t) then t :: late interval h else late interval h
  | _ => []

/-- The calls that reach a run: those since it began, those that came while the routine
    waited for its first turn, and those that came when the pause before the run was over,
    if it is the clock that has ended it. -/
def reaching (r : Routine) (n : Nat) (mid earlier : List Event) : List Nat :=
  starts mid ++ (restarts earlier ++ if r.clockFirst n then late r.interval earlier else [])

/-- The earliest of some moments, at most `m`. -/
def earliest (m : Nat) (ts : List Nat) : Nat := ts.foldr min m

theorem le_earliest_iff {a m : Nat} {ts : List Nat} :
    a ≤ earliest m ts ↔ a ≤ m ∧ ∀ t ∈ ts, a ≤ t := by
  induction ts with
  | nil => simp [earliest]
  | cons t r ih =>
    simp only [earliest, List.foldr_cons] at ih ⊢
    rw [Nat.le_min, ih, List.forall_mem_cons]
    exact and_left_comm

theorem earliest_le {m t : Nat} {ts : List Nat} (ht : t ∈ ts) : earliest m ts ≤ t :=
  (le_earliest_iff.1 (Nat.le_refl (earliest m ts))).2 t ht

theorem awaiting_of_unbegun {h : List Event} (hu : unbegun h) : awaiting h = false := by
  cases h with
  | nil => rfl
  | cons e r => cases e <;> simp_all [unbegun, awaiting]

/-- The latest run of a history began at `b`; `mid` has happened since, without a stop. -/
structure Since (h : List Event) (n b : Nat) (mid earlier : List Event) : Prop where
  eq : h = mid ++ .begin n b :: earlier
  quiet : ∀ e ∈ mid, e.quiet

theorem Since.cons {h mid earlier : List Event} {n b : Nat} (hs : Since h n b mid earlier)
    {e : Event} (he : e.quiet) : Since (e :: h) n b (e :: mid) earlier where
  eq := by rw [hs.eq, List.cons_append]
  quiet := List.forall_mem_cons.2 ⟨he, hs.quiet⟩

theorem Since.begin (n b : Nat) (h : List Event) : Since (.begin n b :: h) n b [] h where
  eq := rfl
  quiet := by simp

theorem Since.unique {h mid earlier mid' earlier' : List Event} {n b n' b' : Nat}
    (hs : Since h n b mid earlier) (hs' : Since h n' b' mid' earlier') :
    n = n' ∧ b = b' ∧ mid = mid' ∧ earlier = earlier' := by
  have heq := hs.eq.symm.trans hs'.eq
  have hq := hs.quiet
  have hq' := hs'.quiet
  clear hs hs'
  induction mid generalizing mid' with
  | nil =>
    cases mid' with
    | nil => simp_all
    | cons e r =>
      have := hq' e (by simp)
      obtain ⟨rfl, -⟩ := List.cons.inj heq
      cases this
  | cons e r ih =>
    cases mid' with
    | nil =>
      have := hq e (by simp)
      obtain ⟨rfl, -⟩ := List.cons.inj heq
      cases this
    | cons e' r' =>
      obtain ⟨hhead, htail⟩ := List.cons.inj heq
      obtain ⟨hn, hb, hr, he⟩ := ih htail (fun e he => hq e (List.mem_cons_of_mem _ he))
        fun e he => hq' e (List.mem_cons_of_mem _ he)
      exact ⟨hn, hb, by rw [hhead, hr], he⟩

theorem Since.awaiting_eq {h mid earlier : List Event} {n b : Nat}
    (hs : Since h n b mid earlier) : awaiting h = false := by
  obtain ⟨rfl, hq⟩ := hs
  induction mid with
  | nil => rfl
  | cons e r ih =>
    have ihr := ih fun e he => hq e (by simp [he])
    cases e with
    | start t =>
      have hu : unbegun (r ++ .begin n b :: earlier) = false := by
        cases r with
        | nil => rfl
        | cons e' r' =>
          have := hq e' (by simp)
          cases e' <;> simp_all [Event.quiet, unbegun]
      simp only [List.cons_append, awaiting, hu, ihr, Bool.or_self]
    | finish n t => rfl
    | begin n t => rfl
    | stop t => rfl

theorem Since.restarts_eq {h mid earlier : List Event} {n b : Nat}
    (hs : Since h n b mid earlier) : restarts h = [] := by
  obtain ⟨rfl, hq⟩ := hs
  cases mid with
  | nil => rfl
  | cons e r =>
    have hr : awaiting (r ++ .begin n b :: earlier) = false :=
      Since.awaiting_eq ⟨rfl, fun e he => hq e (by simp [he])⟩
    cases e with
    | start t => simp only [List.cons_append, restarts, hr, Bool.false_eq_true, if_false]
    | finish n t => rfl
    | begin n t => rfl
    | stop t => rfl

/-! ## What a lane is doing, and its history -/

/-- Two runs of a history that follow one another without a stop are numbered one after
    the other, the earlier has ended, and the later begins after the interval or at the
    first call that reaches the earlier, but not before the end of that. -/
def Spaced (r : Routine) (h : List Event) : Prop :=
  ∀ later mid earlier n b n' b', h = later ++ .begin n' b' :: (mid ++ .begin n b :: earlier) →
    (∀ e ∈ mid, e.quiet) → n' = n + 1 ∧ ∃ f, finishes mid = [(n, f)] ∧
      b' = max f (earliest (f + r.interval) (reaching r n mid earlier))

/-- The routine waits for its first turn since a stop, which it has at a moment. -/
def Awaits (h : List Event) (m : Nat) (nudged : Bool) : Prop :=
  awaiting h ∧ (nudged ↔ restarts h ≠ []) ∧ ∀ t ∈ restarts h, t ≤ m

/-- Run `n` is in progress and ends at a moment. -/
def InRun (r : Routine) (n : Nat) (h : List Event) (m : Nat) (nudged : Bool) : Prop :=
  ∃ b mid earlier, Since h n b mid earlier ∧ finishes mid = [] ∧
    (nudged ↔ reaching r n mid earlier ≠ []) ∧ ∀ t ∈ reaching r n mid earlier, t ≤ m

/-- Run `n` has ended at `f`, these calls have reached it, and the next run is due at `m`. -/
def Rests (r : Routine) (n : Nat) (h : List Event) (f : Nat) (calls : List Nat) (m : Nat) : Prop :=
  pauseEnd? r.interval h = some (f + r.interval) ∧ m = max f (earliest (f + r.interval) calls) ∧
    ∃ b mid earlier, Since h n b mid earlier ∧ finishes mid = [(n, f)] ∧
      reaching r n mid earlier = calls

/-- Run `n` has ended, no call has reached it, and the next run is due at `m`. -/
def Pauses (r : Routine) (n : Nat) (h : List Event) (now m : Nat) : Prop :=
  ∃ f, Rests r n h f [] m ∧ f ≤ now ∧ late r.interval h = []

/-- Run `n` has ended, and the next begins at `m`: before the pause is over, all calls having
    been noticed, or when it is over, where that is left to chance. -/
def Roused (r : Routine) (n : Nat) (h : List Event) (m : Nat) (nudged : Bool) : Prop :=
  ∃ f calls, Rests r n h f calls m ∧
    (m < f + r.interval ∧ late r.interval h = [] ∧ nudged = false ∨
      m = f + r.interval ∧ late r.interval h ≠ [] ∧ (∀ t ∈ late r.interval h, t ≤ m) ∧
        nudged = r.clockFirst (n + 1))

/-- What a lane does at a moment accords with its history. -/
def Lane.Tracks (l : Lane) (now : Nat) (h : List Event) : Prop :=
  Spaced l.routine h ∧
    match l.stage with
    | .absent => unbegun h
    | .pending m nudged => now = m ∧ Awaits h m nudged
    | .handling m nudged => now ≤ m ∧ ∃ n, l.runs = n + 1 ∧ InRun l.routine n h m nudged
    | .pausing m => now ≤ m ∧ ∃ n, l.runs = n + 1 ∧ Pauses l.routine n h now m
    | .roused m nudged => now = m ∧ ∃ n, l.runs = n + 1 ∧ Roused l.routine n h m nudged
    | .ended => True

namespace Spaced

variable {r : Routine} {h : List Event}

theorem nil : Spaced r [] := by
  intro later mid earlier n b n' b' heq
  simp at heq

/-- Only the beginning of a run has to be looked at. -/
theorem cons (hs : Spaced r h) {e : Event} (he : ∀ n b, e ≠ .begin n b) : Spaced r (e :: h) := by
  intro later mid earlier n b n' b' heq hq
  cases later with
  | nil => exact absurd (List.cons.inj heq).1 (he _ _)
  | cons e' rest => exact hs rest mid earlier _ _ _ _ (List.cons.inj heq).2 hq

/-- The first run since a stop follows none. -/
theorem begin_first (hs : Spaced r h) (ha : awaiting h) (n' b' : Nat) :
    Spaced r (.begin n' b' :: h) := by
  intro later mid earlier n b n'' b'' heq hq
  cases later with
  | nil =>
    rw [Since.awaiting_eq ⟨(List.cons.inj heq).2, hq⟩] at ha
    cases ha
  | cons e rest => exact hs rest mid earlier _ _ _ _ (List.cons.inj heq).2 hq

/-- A run that begins when it is due. -/
theorem begin_next (hs : Spaced r h) {n f m : Nat} {calls : List Nat}
    (hr : Rests r n h f calls m) : Spaced r (.begin (n + 1) m :: h) := by
  intro later mid earlier n₀ b n' b' heq hq
  cases later with
  | nil =>
    obtain ⟨hhead, htail⟩ := List.cons.inj heq
    cases hhead
    obtain ⟨-, hm, b₁, mid₁, earlier₁, hsince, hfin, rfl⟩ := hr
    obtain ⟨rfl, -, rfl, rfl⟩ := hsince.unique ⟨htail, hq⟩
    exact ⟨rfl, f, hfin, hm⟩
  | cons e rest => exact hs rest mid earlier _ _ _ _ (List.cons.inj heq).2 hq

end Spaced

/-! ## Steps of a history -/

section Steps

variable {r : Routine} {h : List Event} {n f now m : Nat} {calls : List Nat} {nudged : Bool}

theorem Awaits.first (hu : unbegun h) (m : Nat) : Awaits (.start m :: h) m false := by
  have hr : restarts (.start m :: h) = [] := by
    simp only [restarts, awaiting_of_unbegun hu, Bool.false_eq_true, if_false]
  refine ⟨by simp only [awaiting, hu, Bool.true_or], ?_, ?_⟩
  · rw [hr]; simp
  · rw [hr]; simp

theorem Awaits.start (ha : Awaits h m nudged) : Awaits (.start m :: h) m true := by
  obtain ⟨haw, -, hle⟩ := ha
  have hr : restarts (.start m :: h) = m :: restarts h := by
    simp only [restarts, haw, if_true]
  refine ⟨by simp only [awaiting, haw, Bool.or_true], ?_, ?_⟩
  · rw [hr]; simp
  · rw [hr]
    exact List.forall_mem_cons.2 ⟨Nat.le_refl m, hle⟩

/-- A routine that waits for its first turn has not just ended a run. -/
theorem late_of_awaiting (ha : awaiting h) (interval : Nat) : late interval h = [] := by
  have hnone : ∀ h, awaiting h → pauseEnd? interval h = none ∧ late interval h = [] := by
    intro h
    fun_induction awaiting h with
    | case1 t h ih =>
      intro ha
      have hrest : pauseEnd? interval h = none ∧ late interval h = [] := by
        obtain hu | ha := Bool.or_eq_true_iff.1 ha
        · cases h with
          | nil => exact ⟨rfl, rfl⟩
          | cons e rest => cases e <;> simp_all [unbegun, pauseEnd?, late]
        · exact ih ha
      simp [pauseEnd?, late, hrest]
    | case2 => exact fun ha => absurd ha (by decide)
  exact (hnone h ha).2

theorem Awaits.begin {m' : Nat} (ha : Awaits h m nudged) (hle : m ≤ m') (r : Routine) (n : Nat) :
    InRun r n (.begin n m :: h) m' nudged := by
  obtain ⟨haw, hn, ht⟩ := ha
  have hreach : reaching r n [] h = restarts h := by
    simp [reaching, starts, late_of_awaiting haw]
  refine ⟨m, [], h, .begin n m h, rfl, ?_, ?_⟩
  · rw [hreach]
    exact hn
  · rw [hreach]
    exact fun t hm => Nat.le_trans (ht t hm) hle

theorem InRun.start (hr : InRun r n h m nudged) (hle : now ≤ m) :
    InRun r n (.start now :: h) m true := by
  obtain ⟨b, mid, earlier, hs, hf, -, ht⟩ := hr
  refine ⟨b, .start now :: mid, earlier, hs.cons rfl, hf, ?_, ?_⟩
  · simp [reaching, starts]
  · exact List.forall_mem_cons.2 ⟨hle, ht⟩

/-- After a run that no call has reached there is a pause. -/
theorem InRun.finish (hr : InRun r n h m false) :
    Pauses r n (.finish n m :: h) m (m + r.interval) := by
  obtain ⟨b, mid, earlier, hs, hf, hn, -⟩ := hr
  have hnil : reaching r n mid earlier = [] :=
    Decidable.byContradiction fun hne => by cases hn.2 hne
  refine ⟨m, ⟨rfl, ?_, b, .finish n m :: mid, earlier, hs.cons rfl, ?_, hnil⟩, Nat.le_refl m, rfl⟩
  · rw [earliest, List.foldr_nil, Nat.max_eq_right (Nat.le_add_right m _)]
  · show (n, m) :: finishes mid = [(n, m)]
    rw [hf]

/-- After a run that a call has reached the pause is left out. -/
theorem InRun.finish_nudged (hr : InRun r n h m true) (hpos : 0 < r.interval) :
    Roused r n (.finish n m :: h) m false := by
  obtain ⟨b, mid, earlier, hs, hf, hn, ht⟩ := hr
  obtain ⟨t, htm⟩ := List.exists_mem_of_ne_nil _ (hn.1 rfl)
  refine ⟨m, reaching r n mid earlier, ⟨rfl, ?_, b, .finish n m :: mid, earlier, hs.cons rfl, ?_,
    rfl⟩, .inl ⟨Nat.lt_add_of_pos_right hpos, rfl, rfl⟩⟩
  · have h1 := earliest_le (m := m + r.interval) htm
    have h2 := ht t htm
    omega
  · show (n, m) :: finishes mid = [(n, m)]
    rw [hf]

/-- A further call makes the next run due, if it comes before that. -/
theorem Rests.start (hr : Rests r n h f calls m) (t : Nat) :
    Rests r n (.start t :: h) f (t :: calls) (max f (min t m)) := by
  obtain ⟨hend, rfl, b, mid, earlier, hs, hf, hcalls⟩ := hr
  refine ⟨hend, ?_, b, .start t :: mid, earlier, hs.cons rfl, hf, congrArg (t :: ·) hcalls⟩
  show _ = max f (min t (earliest (f + r.interval) calls))
  omega

/-- A call during a pause ends it; at the end of a pause there is a choice. -/
theorem Pauses.start (hp : Pauses r n h now m) (hle : now ≤ m) :
    Roused r n (.start now :: h) now (decide (m ≤ now) && r.clockFirst (n + 1)) := by
  obtain ⟨f, hr, hfn, hlate⟩ := hp
  obtain ⟨hend, hm, -⟩ := id hr
  rw [earliest, List.foldr_nil, Nat.max_eq_right (Nat.le_add_right f _)] at hm
  have hnext := hr.start now
  rw [Nat.min_eq_left hle, Nat.max_eq_right hfn] at hnext
  refine ⟨f, [now], hnext, ?_⟩
  unfold late
  rw [hend, hlate, Option.any_some]
  obtain hlt | rfl := Nat.lt_or_eq_of_le hle
  · left
    have hnot : ¬ f + r.interval ≤ now := by omega
    simp [hnot, Nat.not_le_of_lt hlt]
    omega
  · right
    simp [hm]

/-- A call that comes when the routine goes on anyway changes nothing. -/
theorem Roused.start (hr : Roused r n h m nudged) : Roused r n (.start m :: h) m nudged := by
  obtain ⟨f, calls, hrests, hcase⟩ := hr
  obtain ⟨hend, hm, -⟩ := id hrests
  have hnext := hrests.start m
  rw [Nat.min_self, Nat.max_eq_right (by omega)] at hnext
  refine ⟨f, m :: calls, hnext, ?_⟩
  unfold late
  rw [hend, Option.any_some]
  obtain ⟨hlt, hlate, hn⟩ | ⟨heq, hlate, hbound, hn⟩ := hcase
  · left
    rw [if_neg (by simpa using hlt)]
    exact ⟨hlt, hlate, hn⟩
  · right
    rw [if_pos (by simp [heq])]
    exact ⟨heq, List.cons_ne_nil _ _, List.forall_mem_cons.2 ⟨Nat.le_refl m, hbound⟩, hn⟩

/-- The next run begins when it is due. -/
theorem Rests.begin (hr : Rests r n h f calls m) (m' : Nat) {nudged : Bool}
    (hn : nudged ↔ r.clockFirst (n + 1) ∧ late r.interval h ≠ [])
    (hle : ∀ t ∈ late r.interval h, t ≤ m') :
    InRun r (n + 1) (.begin (n + 1) m :: h) m' nudged := by
  obtain ⟨-, -, b, mid, earlier, hs, -⟩ := hr
  have hreach : reaching r (n + 1) [] h =
      if r.clockFirst (n + 1) then late r.interval h else [] := by
    rw [reaching, hs.restarts_eq]
    rfl
  refine ⟨m, [], h, .begin (n + 1) m h, rfl, ?_, ?_⟩
  · rw [hreach, hn]
    split <;> simp_all
  · rw [hreach]
    split
    · exact hle
    · simp

theorem Pauses.begin (hp : Pauses r n h now m) (m' : Nat) :
    InRun r (n + 1) (.begin (n + 1) m :: h) m' false := by
  obtain ⟨f, hr, -, hlate⟩ := hp
  exact hr.begin m' (by simp [hlate]) (by simp [hlate])

theorem Roused.begin {m' : Nat} (hr : Roused r n h m nudged) (hle : m ≤ m') :
    InRun r (n + 1) (.begin (n + 1) m :: h) m' nudged := by
  obtain ⟨f, calls, hrests, ⟨-, hlate, rfl⟩ | ⟨-, hlate, hbound, rfl⟩⟩ := hr
  · exact hrests.begin m' (by simp [hlate]) (by simp [hlate])
  · exact hrests.begin m' (by simp [hlate]) fun t ht => Nat.le_trans (hbound t ht) hle

theorem Pauses.wait {now' : Nat} (hp : Pauses r n h now m) (hle : now ≤ now') :
    Pauses r n h now' m := by
  obtain ⟨f, hr, hfn, hlate⟩ := hp
  exact ⟨f, hr, Nat.le_trans hfn hle, hlate⟩

end Steps

/-! ## Steps of a lane -/

namespace Lane

variable {l : Lane} {now m n : Nat} {h : List Event} {nudged : Bool}

/-- A call to `start` reaches the routine. -/
theorem Tracks.start (ht : l.Tracks now h) : (l.start now).Tracks now (.start now :: h) := by
  obtain ⟨hs, hst⟩ := ht
  have hs' : Spaced l.routine (.start now :: h) := hs.cons (by simp)
  unfold Lane.start
  cases hl : l.stage with
  | absent =>
    rw [hl] at hst
    exact ⟨hs', rfl, .first hst now⟩
  | pending m nudged =>
    rw [hl] at hst
    obtain ⟨rfl, ha⟩ := hst
    exact ⟨hs', rfl, ha.start⟩
  | handling m nudged =>
    rw [hl] at hst
    obtain ⟨hle, n, hn, hr⟩ := hst
    exact ⟨hs', hle, n, hn, hr.start hle⟩
  | pausing m =>
    rw [hl] at hst
    obtain ⟨hle, n, hn, hp⟩ := hst
    refine ⟨hs', rfl, n, hn, ?_⟩
    rw [hn]
    exact hp.start hle
  | roused m nudged =>
    rw [hl] at hst
    obtain ⟨rfl, n, hn, hr⟩ := hst
    refine ⟨hs', ?_⟩
    rw [hl]
    exact ⟨rfl, n, hn, hr.start⟩
  | ended =>
    refine ⟨hs', ?_⟩
    rw [hl]
    trivial

/-- A run ends. -/
theorem Tracks.finish (hpos : 0 < l.routine.interval) (hs : Spaced l.routine h)
    (hn : l.runs = n + 1) (hr : InRun l.routine n h m nudged) :
    (l.finish m nudged).1.Tracks m (.finish n m :: h) := by
  have hs' : Spaced l.routine (.finish n m :: h) := hs.cons (by simp)
  obtain ⟨hruns, hstage⟩ := l.finish_cases m nudged
  unfold Tracks
  rw [routine_finish]
  refine ⟨hs', ?_⟩
  obtain hstage | hstage := hstage
  · rw [hstage]
    trivial
  · rw [hstage]
    cases nudged with
    | true => exact ⟨rfl, n, hruns.trans hn, hr.finish_nudged hpos⟩
    | false => exact ⟨Nat.le_add_right m _, n, hruns.trans hn, hr.finish⟩

/-- A run begins, and ends at once if it takes no time. -/
theorem Tracks.begin (hpos : 0 < l.routine.interval)
    (hs : Spaced l.routine (.begin l.runs m :: h))
    (hr : ∀ m', m ≤ m' → InRun l.routine l.runs (.begin l.runs m :: h) m' nudged) :
    (l.begin m nudged).1.Tracks m (Event.ofEntries (l.begin m nudged).2 ++ h) := by
  unfold Lane.begin
  dsimp only
  split
  · have hfin := Tracks.finish (l := { l with runs := l.runs + 1 }) hpos hs rfl
      (hr m (Nat.le_refl m))
    have hev : ∀ es, Event.ofEntries (l.entry m (.begin l.runs) :: es) =
        Event.ofEntries es ++ [.begin l.runs m] := fun es => Event.ofEntries_append [_] es
    rw [hev, ofEntries_finish]
    exact hfin
  · exact ⟨hs, Nat.le_add_right m _, l.runs, rfl, hr _ (Nat.le_add_right m _)⟩

/-- The routine has its turn. -/
theorem Tracks.turn (ht : l.Tracks now h) (hpos : 0 < l.routine.interval)
    (hm : l.moment? = some m) : l.turn.1.Tracks m (Event.ofEntries l.turn.2 ++ h) := by
  obtain ⟨hs, hst⟩ := ht
  unfold moment? at hm
  unfold Lane.turn
  cases hl : l.stage with
  | absent => simp [hl] at hm
  | ended => simp [hl] at hm
  | pending m₁ nudged =>
    simp only [hl, Option.some.injEq] at hm hst
    subst hm
    obtain ⟨-, ha⟩ := hst
    exact Tracks.begin hpos (hs.begin_first ha.1 _ _) fun m' hle => ha.begin hle _ _
  | handling m₁ nudged =>
    simp only [hl, Option.some.injEq] at hm hst
    subst hm
    obtain ⟨-, n, hn, hr⟩ := hst
    dsimp only
    rw [ofEntries_finish, hn]
    exact Tracks.finish hpos hs hn hr
  | pausing m₁ =>
    simp only [hl, Option.some.injEq] at hm hst
    subst hm
    obtain ⟨-, n, hn, hp⟩ := hst
    obtain ⟨f, hrests, -⟩ := id hp
    refine Tracks.begin hpos ?_ fun m' _ => ?_
    · rw [hn]
      exact hs.begin_next hrests
    · rw [hn]
      exact hp.begin m'
  | roused m₁ nudged =>
    simp only [hl, Option.some.injEq] at hm hst
    subst hm
    obtain ⟨-, n, hn, hr⟩ := hst
    obtain ⟨f, calls, hrests, -⟩ := id hr
    refine Tracks.begin hpos ?_ fun m' hle => ?_
    · rw [hn]
      exact hs.begin_next hrests
    · rw [hn]
      exact hr.begin hle

/-- The routine has no turn before a moment. -/
def Waits (l : Lane) (now : Nat) : Prop := ∀ m, l.moment? = some m → now ≤ m

theorem Tracks.waits (ht : l.Tracks now h) : l.Waits now := by
  obtain ⟨-, hst⟩ := ht
  intro m hm
  unfold moment? at hm
  cases hl : l.stage with
  | absent | ended => simp [hl] at hm
  | pending m₁ nudged | roused m₁ nudged =>
    simp only [hl, Option.some.injEq] at hm hst
    exact Nat.le_of_eq (hst.1.trans hm)
  | handling m₁ nudged | pausing m₁ =>
    simp only [hl, Option.some.injEq] at hm hst
    exact hm ▸ hst.1

/-- The clock moves, not past the routine's next turn. -/
theorem Tracks.wait (ht : l.Tracks now h) {limit : Nat} (hle : now ≤ limit)
    (hm : l.Waits limit) : l.Tracks limit h := by
  obtain ⟨hs, hst⟩ := ht
  unfold Waits moment? at hm
  refine ⟨hs, ?_⟩
  cases hl : l.stage with
  | absent => simpa only [hl] using hst
  | ended => trivial
  | pending m nudged =>
    simp only [hl, Option.some.injEq, forall_eq'] at hm hst
    exact ⟨by omega, hst.2⟩
  | handling m nudged =>
    simp only [hl, Option.some.injEq, forall_eq'] at hm hst
    exact ⟨hm, hst.2⟩
  | pausing m =>
    simp only [hl, Option.some.injEq, forall_eq'] at hm hst
    obtain ⟨-, n, hn, hp⟩ := hst
    exact ⟨hm, n, hn, hp.wait hle⟩
  | roused m nudged =>
    simp only [hl, Option.some.injEq, forall_eq'] at hm hst
    exact ⟨by omega, hst.2⟩

/-- The routine is stopped. -/
theorem Tracks.stop (ht : l.Tracks now h) (t : Nat) :
    l.stop.1.Tracks t (.stop t :: (Event.ofEntries l.stop.2 ++ h)) := by
  obtain ⟨hs, hst⟩ := ht
  unfold Lane.stop
  split
  · rename_i m nudged hl
    dsimp only
    rw [ofEntries_finish]
    refine ⟨?_, rfl⟩
    show Spaced (l.finish m false).1.routine (.stop t :: .finish (l.runs - 1) m :: h)
    rw [routine_finish]
    exact (hs.cons (by simp)).cons (by simp)
  · exact ⟨hs.cons (by simp), rfl⟩

/-! ## Time -/

/-- A bound on the turns that a routine has before a limit. Each turn takes the routine
    on by a millisecond at least; only the one after which a pause is left out does not. -/
def turnsLeft (limit : Nat) : Stage → Nat
  | .absent | .ended => 0
  | .pending m nudged | .handling m nudged | .roused m nudged => limit - m + nudged.toNat
  | .pausing m => limit - m

theorem turnsLeft_finish {limit : Nat} (hpos : 0 < l.routine.interval) (hm : m < limit) :
    turnsLeft limit (l.finish m nudged).1.stage < limit - m + nudged.toNat := by
  obtain ⟨-, hstage | hstage⟩ := l.finish_cases m nudged
  · rw [hstage, turnsLeft]
    omega
  · rw [hstage]
    cases nudged with
    | true => simp [turnsLeft]
    | false =>
      show limit - (m + l.routine.interval) < limit - m
      omega

theorem turnsLeft_begin {limit : Nat} (hpos : 0 < l.routine.interval) (hm : m < limit) :
    turnsLeft limit (l.begin m nudged).1.stage < limit - m + nudged.toNat := by
  unfold Lane.begin
  dsimp only
  split
  · exact turnsLeft_finish hpos hm
  · show limit - (m + _) + nudged.toNat < _
    omega

theorem turnsLeft_turn {limit : Nat} (hpos : 0 < l.routine.interval) (hm : l.moment? = some m)
    (hlt : m < limit) : turnsLeft limit l.turn.1.stage < turnsLeft limit l.stage := by
  unfold moment? at hm
  unfold Lane.turn
  cases hl : l.stage with
  | absent => simp [hl] at hm
  | ended => simp [hl] at hm
  | pending m₁ nudged =>
    simp only [hl, Option.some.injEq] at hm
    subst hm
    exact turnsLeft_begin hpos hlt
  | handling m₁ nudged =>
    simp only [hl, Option.some.injEq] at hm
    subst hm
    exact turnsLeft_finish hpos hlt
  | pausing m₁ =>
    simp only [hl, Option.some.injEq] at hm
    subst hm
    exact turnsLeft_begin hpos hlt
  | roused m₁ nudged =>
    simp only [hl, Option.some.injEq] at hm
    subst hm
    exact turnsLeft_begin hpos hlt

theorem Waits.turnsLeft_le (hw : l.Waits now) (limit : Nat) :
    turnsLeft limit l.stage ≤ limit - now + 1 := by
  unfold Waits moment? at hw
  cases hl : l.stage with
  | absent => exact Nat.zero_le _
  | ended => exact Nat.zero_le _
  | pending m nudged | handling m nudged | roused m nudged =>
    have hm := hw m (by rw [hl])
    have := nudged.toNat_le
    simp only [turnsLeft]
    omega
  | pausing m =>
    have hm := hw m (by rw [hl])
    simp only [turnsLeft]
    omega

/-- The turns before a limit, as long as they are not cut off. The clock then stands at the
    limit, or just before it. -/
theorem Tracks.turnsBefore {limit till : Nat} (ht : l.Tracks now h)
    (hpos : 0 < l.routine.interval) (hle : now ≤ till) (htill : till ≤ limit)
    (hlimit : limit ≤ till + 1) {fuel : Nat} (hfuel : turnsLeft limit l.stage ≤ fuel) :
    (l.turnsBefore limit fuel).1.Tracks till
      (Event.ofEntries (l.turnsBefore limit fuel).2 ++ h) := by
  induction fuel generalizing l now h with
  | zero =>
    refine ht.wait hle fun m hm => ?_
    have hless : m < limit → _ := turnsLeft_turn hpos hm
    omega
  | succ fuel ih =>
    unfold Lane.turnsBefore
    cases hm : l.moment? with
    | none => exact ht.wait hle fun m' hm' => by simp [hm] at hm'
    | some m =>
      dsimp only
      split
      · rename_i hlt
        have hturn := turnsLeft_turn hpos hm hlt
        have hleft : turnsLeft limit l.turn.1.stage ≤ fuel := by omega
        have hbefore : m ≤ till := Nat.le_of_lt_succ (Nat.lt_of_lt_of_le hlt hlimit)
        have hrest := ih (ht.turn hpos hm) (by rwa [routine_turn]) hbefore hleft
        rw [Event.ofEntries_append, List.append_assoc]
        exact hrest
      · rename_i hge
        refine ht.wait hle fun m' hm' => ?_
        rw [hm, Option.some.injEq] at hm'
        omega

/-- Time passes, or the turns come that are due. -/
theorem Tracks.runBefore {limit till : Nat} (ht : l.Tracks now h)
    (hpos : 0 < l.routine.interval) (hle : now ≤ till) (htill : till ≤ limit)
    (hlimit : limit ≤ till + 1) :
    (l.runBefore now limit).1.Tracks till (Event.ofEntries (l.runBefore now limit).2 ++ h) := by
  refine ht.turnsBefore hpos hle htill hlimit ?_
  have := ht.waits.turnsLeft_le limit
  omega

end Lane

/-! ## Any calls -/

/-- After any calls what a routine with an interval does accords with its history. -/
theorem tracks_history (calls : List Call) (place : Nat) {l : Lane}
    (hl : (after calls).lanes[place]? = some l) (hpos : 0 < l.routine.interval) :
    l.Tracks (after calls).time (history place calls) := by
  refine history_induction
    (P := fun l now h => 0 < l.routine.interval → l.Tracks now h) ?_ ?_ calls place hl hpos
  · exact fun routine now _ => ⟨.nil, rfl⟩
  · intro s c l h ih hpos
    rw [routine_told] at hpos
    have ht := ih hpos
    cases c with
    | register routines => exact ht
    | start => exact ht.start
    | sleep ms =>
      exact ht.runBefore hpos (Nat.le_add_right _ ms) (Nat.le_refl _) (Nat.le_succ _)
    | settle => exact ht.runBefore hpos (Nat.le_refl _) (Nat.le_succ _) (Nat.le_refl _)
    | stop => exact ht.stop _

/-- Of two runs without a stop between them the later begins when the interval after the
    earlier is over, or at the first call that reaches the earlier if that comes before;
    never before the earlier has ended. -/
theorem spaced_history (calls : List Call) (place : Nat) {l : Lane}
    (hl : (after calls).lanes[place]? = some l) (hpos : 0 < l.routine.interval) :
    Spaced l.routine (history place calls) :=
  (tracks_history calls place hl hpos).1

/-- Of two runs without a stop between them the later begins at least the interval after
    the end of the earlier if and only if no call to `start` reaches the earlier before
    that: none since it began, none while the routine waited for its first turn, and none
    at the end of the pause before it, unless that call is what ended the pause. -/
theorem interval_kept_iff (calls : List Call) (place : Nat) {l : Lane}
    (hl : (after calls).lanes[place]? = some l) (hpos : 0 < l.routine.interval)
    {later mid earlier : List Event} {n b n' b' : Nat}
    (hruns : history place calls = later ++ .begin n' b' :: (mid ++ .begin n b :: earlier))
    (hmid : ∀ e ∈ mid, e.quiet) :
    n' = n + 1 ∧ ∃ f, finishes mid = [(n, f)] ∧
      (f + l.routine.interval ≤ b' ↔
        ∀ t ∈ reaching l.routine n mid earlier, f + l.routine.interval ≤ t) := by
  obtain ⟨hn, f, hf, hb⟩ := spaced_history calls place hl hpos _ _ _ _ _ _ _ hruns hmid
  refine ⟨hn, f, hf, ?_⟩
  have hiff : f + l.routine.interval ≤
      earliest (f + l.routine.interval) (reaching l.routine n mid earlier) ↔ _ :=
    le_earliest_iff
  constructor
  · intro hle
    refine (hiff.1 ?_).2
    omega
  · intro hall
    have := hiff.2 ⟨Nat.le_refl _, hall⟩
    omega

/-- A routine with an interval of a second whose runs take no time. -/
def everySecond : Routine := { name := "tick", interval := 1000, run := fun _ => {} }

/-- The same, where the clock is looked at first. -/
def byTheClock : Routine := { everySecond with clockFirst := fun _ => true }

/-- Started once, the routine runs again after its interval. Started again at that very
    moment, it may run a third time at once. -/
theorem interval_kept_everySecond :
    (1 = 0 + 1 ∧ ∃ f, finishes [.finish 0 0] = [(0, f)] ∧
      (f + everySecond.interval ≤ 1000 ↔
        ∀ t ∈ reaching everySecond 0 [.finish 0 0] [.start 0], f + everySecond.interval ≤ t)) ∧
    (2 = 1 + 1 ∧ ∃ f, finishes [.finish 1 1000] = [(1, f)] ∧
      (f + byTheClock.interval ≤ 1000 ↔
        ∀ t ∈ reaching byTheClock 1 [.finish 1 1000]
          [.start 1000, .finish 0 0, .begin 0 0, .start 0], f + byTheClock.interval ≤ t)) :=
  ⟨@interval_kept_iff [.register [everySecond], .start, .sleep 1001] 0
    (Lane.runBefore { routine := everySecond, stage := .pending 0 false } 0 1001).1 rfl
    (by decide) [.finish 1 1000] [.finish 0 0] [.start 0] 0 0 1 1000 (by decide) (by decide),
  @interval_kept_iff [.register [byTheClock], .start, .sleep 1000, .start, .sleep 1] 0
    (Lane.runBefore ((Lane.runBefore { routine := byTheClock, stage := .pending 0 false } 0
      1000).1.start 1000) 1000 1001).1 rfl
    (by decide) [.finish 2 1000] [.finish 1 1000] [.start 1000, .finish 0 0, .begin 0 0, .start 0]
    1 1000 2 1000 (by decide) (by decide)⟩

/-- Every pause of a history is at least as long as the interval. -/
def IntervalKept (interval : Nat) (h : List Event) : Prop :=
  ∀ later mid earlier n b n' b' f, h = later ++ .begin n' b' :: (mid ++ .begin n b :: earlier) →
    (∀ e ∈ mid, e.quiet) → .finish n f ∈ mid → f + interval ≤ b'

/-- Started again a millisecond into its pause, the routine runs again at once. -/
theorem interval_not_kept_everySecond :
    ¬ IntervalKept everySecond.interval
      (history 0 [.register [everySecond], .start, .sleep 1, .start, .sleep 1]) := by
  intro hkept
  have := hkept [.finish 1 1] [.start 1, .finish 0 0] [.start 0] 0 0 1 1 0 (by decide) (by decide)
    (by decide)
  exact absurd this (by decide)

end VpnNode.Scheduler
