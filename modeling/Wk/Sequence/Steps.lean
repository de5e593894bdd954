/-
# Wk.Sequence.Steps -- every step is scheduled once

Between a start and a stop the transport is pumped, towards any horizons, and its tempo is
changed.  Its progress is an origin and a count of steps, and a tempo change moves the
origin; what does not move is the instant of the next boundary (`call_instant`).  So the
run as a whole has one timeline (`timeline`), on which every step is scheduled in its turn,
by a pump whose horizon lies beyond it.
-/
import Wk.Sequence.Balance

namespace Wk.Sequence

set_option autoImplicit false

/-- What happens while the transport plays. -/
inductive Turn where
  | pump (now : Nat) (song : Song) (play : Playback) (suppress : List Key)
  | setBpm (bpm : ℚ)
  deriving Repr

def Turn.call : Turn → Call
  | .pump now song play suppress => .pump now song play suppress
  | .setBpm bpm => .setBpm bpm

/-- The absolute step a stage schedules. -/
def Stage.abs (stage : Stage) : Option Int :=
  match stage.moment with
  | .step _ _ _ abs => some abs
  | _ => none

/-- The absolute steps that are scheduled, in order. -/
def scheduled (log : List Stage) : List Int := log.filterMap Stage.abs

/-- The events of a step: clock pulses over its time, notes on its boundary. -/
def Timed (instant : Nat → ℚ) (i : Nat) (e : Emit) : Prop :=
  (∃ k < pulsesPerStep, e.data = [0xF8] ∧
    e.time = toU64 (max (instant i + k * (instant (i + 1) - instant i) / pulsesPerStep) 0)) ∨
  e.time = toU64 (max (instant i) 0)

/-- A stage emits nothing but the events of its step. -/
def Stage.OnTime (instant : Nat → ℚ) (stage : Stage) : Prop :=
  ∀ e ∈ stage.emitted, ∃ i : Nat, stage.abs = some i ∧ Timed instant i e

/-- What one turn keeps of a timeline.  A pump schedules the steps from the next boundary
on, all of them before its horizon, and stops at one that is not or out of budget; a tempo
change leaves the next boundary where it is. -/
def Turn.Keeps (instant : Nat → ℚ) (s : Scheduler) : Turn → Prop
  | .pump now song play suppress => ∃ n m : Nat, s.nextStep = n ∧ s.stepInstant n = instant n ∧
      (s.pump now song play suppress).1.nextStep = n + m ∧
      scheduled (s.pump now song play suppress).2 = (List.range' n m).map Nat.cast ∧
      (∀ i, n ≤ i → i < n + m → instant i < now + lookaheadUs) ∧
      (now + lookaheadUs ≤ instant (n + m) ∨ m = maxStepsPerPump)
  | .setBpm bpm => ∃ n : Nat, s.nextStep = n ∧ s.stepInstant n = instant n ∧
      (s.setBpm bpm).nextStep = n ∧ (s.setBpm bpm).stepInstant n = instant n

theorem scheduled_append (log more : List Stage) : scheduled (log ++ more) = scheduled log ++ scheduled more :=
  List.filterMap_append

namespace Scheduler

variable {s : Scheduler}

/-- The transport plays, and is at step `n`. -/
structure Plays (s : Scheduler) (n : Nat) : Prop where
  running : s.running = true
  next : s.nextStep = n
  tempo : 0 < s.stepUs

theorem stepMicros_pos (bpm : ℚ) : 0 < stepMicros bpm := by
  have clamped : 0 < max minBpm (min bpm maxBpm) := lt_max_of_lt_left (by decide)
  unfold stepMicros
  positivity

theorem setBpm_instant (bpm : ℚ) : (s.setBpm bpm).stepInstant s.nextStep = s.stepInstant s.nextStep := by
  change s.stepInstant s.nextStep - s.nextStep * stepMicros bpm + s.nextStep * stepMicros bpm = _
  ring

theorem stepInstant_strictMono (tempo : 0 < s.stepUs) : StrictMono s.stepInstant := fun i j before => by
  have later : (i : ℚ) < j := Int.cast_lt.2 before
  unfold stepInstant
  nlinarith

/-! ## A pump -/

theorem turnOn_time (time : Nat) : ∀ (want : List (Key × UInt8)) (on : List Key),
    ∀ e ∈ (turnOn time want on).1, e.time = time
  | [], _, _, member => by cases member
  | (k, vel) :: want, on, e, member => by
    unfold turnOn at member
    split at member
    · exact turnOn_time time want on e member
    · rcases List.mem_cons.1 member with rfl | later
      · rfl
      · exact turnOn_time time want _ e later

/-- What one step emits is timed from its own boundary. -/
theorem scheduleStep_timed (i : Nat) (song : Song) (play : Playback) (suppress : List Key) :
    ∀ e ∈ (s.scheduleStep i song play suppress).2, Timed (fun i => s.stepInstant i) i e := by
  intro e member
  have apart : s.stepInstant ((i + 1 : Nat) : Int) - s.stepInstant i = s.stepUs := by
    unfold stepInstant
    push_cast
    ring
  rcases List.mem_append.1 member with early | on
  · rcases List.mem_append.1 early with tick | off
    · obtain ⟨pulse, inside, rfl⟩ := List.mem_map.1 tick
      obtain ⟨k, known, only⟩ := List.mem_flatMap.1 inside
      cases List.mem_singleton.1 only
      refine .inl ⟨k, List.mem_range.1 known, rfl, ?_⟩
      dsimp only
      rw [apart]
    · obtain ⟨k, _, rfl⟩ := List.mem_map.1 off
      exact .inr rfl
  · exact .inr (turnOn_time _ _ _ e on)

/-- The loop of a pump schedules some steps from `n` on, all before the horizon, and stops
at a boundary that is not or out of budget.  Induction on the budget. -/
theorem pumpLoop_steps (song : Song) (play : Playback) (suppress : List Key) (horizon : ℚ) :
    ∀ (budget : Nat) {s : Scheduler} {n : Nat}, s.Plays n → ∃ m,
      (pumpLoop song play suppress horizon budget s).1.Plays (n + m) ∧
      (∀ i, (pumpLoop song play suppress horizon budget s).1.stepInstant i = s.stepInstant i) ∧
      scheduled (pumpLoop song play suppress horizon budget s).2 = (List.range' n m).map Nat.cast ∧
      (∀ stage ∈ (pumpLoop song play suppress horizon budget s).2, stage.OnTime fun i => s.stepInstant i) ∧
      (∀ i : Nat, n ≤ i → i < n + m → s.stepInstant i < horizon) ∧
      (horizon ≤ s.stepInstant ((n + m : Nat) : Int) ∨ m = budget)
  | 0, s, n, plays => ⟨0, plays, fun _ => rfl, rfl, (fun _ member => by cases member),
      (fun i low high => absurd low (by omega)), .inr rfl⟩
  | budget + 1, s, n, plays => by
    unfold pumpLoop
    split
    · next near =>
        let s' : Scheduler := { (s.scheduleStep s.nextStep song play suppress).1 with nextStep := s.nextStep + 1 }
        have plays' : s'.Plays (n + 1) := ⟨plays.running, by
          change s.nextStep + 1 = _
          rw [plays.next]
          push_cast
          rfl, plays.tempo⟩
        obtain ⟨m, after, instants, steps, timed, before, stops⟩ :=
          pumpLoop_steps song play suppress horizon budget plays'
        rw [plays.next] at near
        have same : n + (m + 1) = n + 1 + m := by omega
        refine ⟨m + 1, ?_, instants, ?_, fun stage member => ?_, fun i low high => ?_, ?_⟩
        · rw [same]
          exact after
        · -- The step scheduled now, and those after it.
          rw [List.range'_succ, List.map_cons, ← steps, ← plays.next]
          rfl
        · rcases List.mem_cons.1 member with rfl | later
          · intro e inside
            refine ⟨n, congrArg some plays.next, ?_⟩
            dsimp only at inside
            rw [plays.next] at inside
            exact scheduleStep_timed n song play suppress e inside
          · exact timed stage later
        · rcases Nat.eq_or_lt_of_le low with rfl | later
          · exact near
          · exact before i later (by omega)
        · rw [same]
          exact stops.imp id fun full => by omega
    · next far =>
        refine ⟨0, plays, fun _ => rfl, rfl, (fun _ member => by cases member),
          (fun i low high => absurd low (by omega)), .inl ?_⟩
        rw [Nat.add_zero, ← plays.next]
        exact not_lt.1 far

theorem pump_eq {n : Nat} (plays : s.Plays n) (now : Nat) (song : Song) (play : Playback) (suppress : List Key) :
    s.pump now song play suppress = pumpLoop song play suppress (now + lookaheadUs) maxStepsPerPump s := by
  rw [pump, if_pos plays.running]

/-! ## A run -/

/-- A turn at step `n` schedules the next `m` steps at the instants they have, and leaves
the boundary after them where it is. -/
structure Advanced (s : Scheduler) (n m : Nat) (s' : Scheduler) (log : List Stage) : Prop where
  plays : s'.Plays (n + m)
  instant : s'.stepInstant ((n + m : Nat) : Int) = s.stepInstant ((n + m : Nat) : Int)
  steps : scheduled log = (List.range' n m).map Nat.cast
  timed : ∀ stage ∈ log, stage.OnTime fun i => s.stepInstant i

theorem pump_advances {n : Nat} (plays : s.Plays n) (now : Nat) (song : Song) (play : Playback)
    (suppress : List Key) :
    ∃ m, Advanced s n m (s.pump now song play suppress).1 (s.pump now song play suppress).2 ∧
      (∀ i : Nat, n ≤ i → i < n + m → s.stepInstant i < now + lookaheadUs) ∧
      (now + lookaheadUs ≤ s.stepInstant ((n + m : Nat) : Int) ∨ m = maxStepsPerPump) := by
  obtain ⟨m, after, instants, steps, timed, before, stops⟩ :=
    pumpLoop_steps song play suppress (now + lookaheadUs) maxStepsPerPump plays
  rw [pump_eq plays]
  exact ⟨m, ⟨after, instants _, steps, timed⟩, before, stops⟩

theorem setBpm_advances {n : Nat} (plays : s.Plays n) (bpm : ℚ) :
    Advanced s n 0 (s.setBpm bpm) [{ moment := .tempo, emitted := [] }] where
  plays := ⟨plays.running, plays.next, stepMicros_pos bpm⟩
  instant := by
    rw [Nat.add_zero, ← plays.next]
    exact setBpm_instant bpm
  steps := rfl
  timed stage member := by
    rw [List.mem_singleton.1 member]
    exact fun _ inside => by cases inside

/-- **A turn**: a pump's steps, or none of a tempo change. -/
theorem turn_advances {n : Nat} (plays : s.Plays n) (turn : Turn) :
    ∃ m, Advanced s n m (s.call turn.call).1 (s.call turn.call).2 := by
  cases turn with
  | pump now song play suppress =>
    obtain ⟨m, advanced, _⟩ := pump_advances plays now song play suppress
    exact ⟨m, advanced⟩
  | setBpm bpm => exact ⟨0, setBpm_advances plays bpm⟩

/-- The instants of the steps of a run, each as it was when the step's turn came. -/
def timeline : Scheduler → List Turn → Nat → ℚ
  | s, [], i => s.stepInstant i
  | s, turn :: turns, i =>
    if (i : Int) ≤ (s.call turn.call).1.nextStep then s.stepInstant i
    else timeline (s.call turn.call).1 turns i

section Timeline

variable {n m : Nat} {turn : Turn} {log : List Stage}

theorem timeline_low (advanced : Advanced s n m (s.call turn.call).1 log) (turns : List Turn) {i : Nat}
    (low : i ≤ n + m) : timeline s (turn :: turns) i = s.stepInstant i := by
  have reached : (i : Int) ≤ (s.call turn.call).1.nextStep := by
    rw [advanced.plays.next]
    exact_mod_cast low
  rw [timeline, if_pos reached]

theorem timeline_here (plays : s.Plays n) (turns : List Turn) : timeline s turns n = s.stepInstant n := by
  cases turns with
  | nil => rfl
  | cons turn turns =>
    obtain ⟨m, advanced⟩ := turn_advances plays turn
    exact timeline_low advanced turns (Nat.le_add_right n m)

/-- From the next boundary on, the timeline is that of the turns to come. -/
theorem timeline_high (advanced : Advanced s n m (s.call turn.call).1 log) (turns : List Turn) {i : Nat}
    (high : n + m ≤ i) : timeline s (turn :: turns) i = timeline (s.call turn.call).1 turns i := by
  rcases Nat.eq_or_lt_of_le high with rfl | beyond
  · rw [timeline_low advanced turns le_rfl, timeline_here advanced.plays, advanced.instant]
  · have later : ¬(i : Int) ≤ (s.call turn.call).1.nextStep := by
      rw [advanced.plays.next]
      omega
    rw [timeline, if_neg later]

theorem timeline_strictMono : ∀ (turns : List Turn) {s : Scheduler} {n : Nat}, s.Plays n →
    StrictMono (timeline s turns)
  | [], s, _, plays => (stepInstant_strictMono plays.tempo).comp Nat.strictMono_cast
  | turn :: turns, s, n, plays => by
    obtain ⟨m, advanced⟩ := turn_advances plays turn
    refine strictMono_nat_of_lt_succ fun i => ?_
    by_cases low : i + 1 ≤ n + m
    · rw [timeline_low advanced turns (by omega), timeline_low advanced turns low]
      exact stepInstant_strictMono plays.tempo (by omega)
    · rw [timeline_high advanced turns (by omega), timeline_high advanced turns (by omega)]
      exact timeline_strictMono turns advanced.plays (Nat.lt_succ_self i)

end Timeline

end Scheduler

theorem Stage.OnTime.congr {a b : Nat → ℚ} {stage : Stage} (timed : stage.OnTime a)
    (same : ∀ i : Nat, stage.abs = some i → a i = b i ∧ a (i + 1) = b (i + 1)) : stage.OnTime b := by
  intro e member
  obtain ⟨i, step, at_⟩ := timed e member
  refine ⟨i, step, ?_⟩
  rwa [Timed, (same i step).1, (same i step).2] at at_

theorem mem_scheduled {log : List Stage} {stage : Stage} {i : Nat} {n m : Nat}
    (steps : scheduled log = (List.range' n m).map Nat.cast) (member : stage ∈ log) (step : stage.abs = some i) :
    n ≤ i ∧ i < n + m := by
  have known : (i : Int) ∈ scheduled log := List.mem_filterMap.2 ⟨stage, member, step⟩
  rw [steps] at known
  obtain ⟨j, inside, same⟩ := List.mem_map.1 known
  have bounds := List.mem_range'_1.1 inside
  omega

theorem Turn.Keeps.congr {a b : Nat → ℚ} {s : Scheduler} {n : Nat} (next : s.nextStep = n)
    (same : ∀ i, n ≤ i → a i = b i) : ∀ {turn : Turn}, turn.Keeps a s → turn.Keeps b s
  | .pump now song play suppress, kept => by
    obtain ⟨n', m, next', here, after, steps, before, stops⟩ := kept
    have at_ : n' = n := by omega
    subst at_
    refine ⟨n', m, next', here.trans (same n' le_rfl), after, steps, fun i low high => ?_, ?_⟩
    · rw [← same i low]
      exact before i low high
    · rwa [← same (n' + m) (Nat.le_add_right n' m)]
  | .setBpm bpm, kept => by
    obtain ⟨n', next', here, after, stays⟩ := kept
    have at_ : n' = n := by omega
    subst at_
    exact ⟨n', next', here.trans (same n' le_rfl), after, stays.trans (same n' le_rfl)⟩

namespace Scheduler

/-- **A run** schedules the next steps one after another, on its timeline. -/
theorem run_advances : ∀ (turns : List Turn) {s : Scheduler} {n : Nat}, s.Plays n → ∃ m,
    (s.run (turns.map Turn.call)).1.Plays (n + m) ∧
    (s.run (turns.map Turn.call)).1.stepInstant ((n + m : Nat) : Int) = timeline s turns (n + m) ∧
    scheduled (s.run (turns.map Turn.call)).2 = (List.range' n m).map Nat.cast ∧
    ∀ stage ∈ (s.run (turns.map Turn.call)).2, stage.OnTime (timeline s turns)
  | [], s, n, plays => ⟨0, plays, rfl, rfl, fun _ member => by cases member⟩
  | turn :: turns, s, n, plays => by
    obtain ⟨m, advanced⟩ := turn_advances plays turn
    obtain ⟨m', plays', instant, steps, timed⟩ := run_advances turns advanced.plays
    have whole : n + (m + m') = n + m + m' := by omega
    simp only [List.map_cons, run]
    refine ⟨m + m', whole ▸ plays', ?_, ?_, fun stage member => ?_⟩
    · rw [whole, instant, timeline_high advanced turns (by omega)]
    · rw [scheduled_append, advanced.steps, steps, ← List.map_append, List.range'_append_1]
    · rcases List.mem_append.1 member with now | later
      · refine (advanced.timed stage now).congr fun i step => ?_
        have bounds := mem_scheduled advanced.steps now step
        exact ⟨(timeline_low advanced turns (by omega)).symm, (timeline_low advanced turns (by omega)).symm⟩
      · refine (timed stage later).congr fun i step => ?_
        have bounds := mem_scheduled steps later step
        exact ⟨(timeline_high advanced turns (by omega)).symm, (timeline_high advanced turns (by omega)).symm⟩

theorem turn_keeps {s : Scheduler} {n : Nat} (plays : s.Plays n) (turns : List Turn) (turn : Turn) :
    turn.Keeps (timeline s (turn :: turns)) s := by
  have here : s.stepInstant n = timeline s (turn :: turns) n := (timeline_here plays _).symm
  cases turn with
  | pump now song play suppress =>
    obtain ⟨m, advanced, before, stops⟩ := pump_advances plays now song play suppress
    have low : ∀ {i : Nat}, i ≤ n + m →
        timeline s (.pump now song play suppress :: turns) i = s.stepInstant i :=
      fun bound => @timeline_low s n m (.pump now song play suppress) _ advanced turns _ bound
    refine ⟨n, m, plays.next, here, advanced.plays.next, advanced.steps, fun i first last => ?_, ?_⟩
    · rw [low last.le]
      exact before i first last
    · rwa [low le_rfl]
  | setBpm bpm =>
    have advanced := setBpm_advances plays bpm
    exact ⟨n, plays.next, here, advanced.plays.next, advanced.instant.trans here⟩

/-- Every turn of a run keeps the run's timeline.  Induction on the turns before it. -/
theorem run_keeps : ∀ (before : List Turn) (turn : Turn) (after : List Turn) {s : Scheduler} {n : Nat}, s.Plays n →
    turn.Keeps (timeline s (before ++ turn :: after)) (s.run (before.map Turn.call)).1
  | [], turn, after, _, _, plays => turn_keeps plays after turn
  | first :: before, turn, after, s, n, plays => by
    obtain ⟨m, advanced⟩ := turn_advances plays first
    obtain ⟨m', there, _⟩ := run_advances before advanced.plays
    have kept := run_keeps before turn after advanced.plays
    exact kept.congr there.next fun i high => (timeline_high advanced _ (by omega)).symm

/-! ## The order of the events -/

theorem timed_after {instant : Nat → ℚ} {i : Nat} {e : Emit} (mono : StrictMono instant) (timed : Timed instant i e) :
    toU64 (max (instant i) 0) ≤ e.time := by
  rcases timed with ⟨k, _, _, at_⟩ | at_
  · rw [at_]
    refine toU64_mono (max_le_max_right _ (le_add_of_nonneg_right ?_))
    have apart : 0 < instant (i + 1) - instant i := sub_pos.2 (mono (Nat.lt_succ_self i))
    positivity
  · exact at_.ge

theorem timed_before {instant : Nat → ℚ} {i : Nat} {e : Emit} (mono : StrictMono instant) (timed : Timed instant i e) :
    e.time ≤ toU64 (max (instant (i + 1)) 0) := by
  have apart : 0 < instant (i + 1) - instant i := sub_pos.2 (mono (Nat.lt_succ_self i))
  rcases timed with ⟨k, pulse, _, at_⟩ | at_
  · rw [at_]
    refine toU64_mono (max_le_max_right _ ?_)
    have part : (k : ℚ) / pulsesPerStep ≤ 1 :=
      (div_le_one (by norm_num [pulsesPerStep])).2 (Nat.cast_le.2 pulse.le)
    have inside := mul_le_mul_of_nonneg_right part apart.le
    rw [div_mul_eq_mul_div, one_mul] at inside
    linarith
  · rw [at_]
    exact toU64_mono (max_le_max_right _ (sub_nonneg.1 apart.le))

/-- What is scheduled in order goes out in the order of its instants. -/
theorem scheduled_sorted {instant : Nat → ℚ} {log : List Stage} {m : Nat} (mono : StrictMono instant)
    (steps : scheduled log = (List.range m).map Nat.cast) (timed : ∀ stage ∈ log, stage.OnTime instant) :
    log.Pairwise fun a b => ∀ e ∈ a.emitted, ∀ e' ∈ b.emitted, e.time ≤ e'.time := by
  have order : (scheduled log).Pairwise (· < ·) := by
    rw [steps]
    exact List.pairwise_map.2 (List.pairwise_lt_range.imp Nat.cast_lt.2)
  refine (List.pairwise_filterMap.1 order).imp_of_mem fun {a b} known known' apart e member e' member' => ?_
  obtain ⟨i, step, at_⟩ := timed a known e member
  obtain ⟨j, step', at'⟩ := timed b known' e' member'
  have before : i < j := Nat.cast_lt.1 (apart i step j step')
  calc e.time ≤ toU64 (max (instant (i + 1)) 0) := timed_before mono at_
    _ ≤ toU64 (max (instant j) 0) := toU64_mono (max_le_max_right _ (mono.monotone before))
    _ ≤ e'.time := timed_after mono at'

theorem pumpLoop_stepUs (song : Song) (play : Playback) (suppress : List Key) (horizon : ℚ) :
    ∀ (budget : Nat) (s : Scheduler), (pumpLoop song play suppress horizon budget s).1.stepUs = s.stepUs
  | 0, _ => rfl
  | budget + 1, s => by
    unfold pumpLoop
    split
    · exact pumpLoop_stepUs song play suppress horizon budget _
    · rfl

/-- No call stops the tempo. -/
theorem call_stepUs_pos {s : Scheduler} (tempo : 0 < s.stepUs) (c : Call) : 0 < (s.call c).1.stepUs := by
  cases c with
  | start now => exact tempo
  | pump now song play suppress =>
    simp only [call, pump]
    split
    · rwa [pumpLoop_stepUs]
    · exact tempo
  | setBpm bpm => exact stepMicros_pos bpm
  | stop =>
    simp only [call, stop]
    split <;> exact tempo

theorem run_stepUs_pos : ∀ (calls : List Call) {s : Scheduler}, 0 < s.stepUs → 0 < (s.run calls).1.stepUs
  | [], _, tempo => tempo
  | c :: calls, _, tempo => run_stepUs_pos calls (call_stepUs_pos tempo c)

/-- **Every step plays once.**  From a start at `now`, whatever was called before it, and
through any tempo changes and pumps: there is one timeline, from `now` on, that every turn
keeps; the steps scheduled are 0, 1, 2, ... up to the next one, each once and in order; each
stage emits the events of its step, at their instants on the timeline; and nothing that goes
out later is due earlier. -/
theorem each_step_once (bpm : ℚ) (earlier : List Call) (now : Nat) (turns : List Turn) :
    ∃ instant : Nat → ℚ, instant 0 = now ∧ StrictMono instant ∧
      (∀ before turn after, turns = before ++ turn :: after →
        turn.Keeps instant ((((new bpm).run earlier).1.start now).1.run (before.map Turn.call)).1) ∧
      (∃ n : Nat, ((((new bpm).run earlier).1.start now).1.run (turns.map Turn.call)).1.nextStep = n ∧
        scheduled ((((new bpm).run earlier).1.start now).1.run (turns.map Turn.call)).2 =
          (List.range n).map Nat.cast) ∧
      (∀ stage ∈ ((((new bpm).run earlier).1.start now).1.run (turns.map Turn.call)).2, stage.OnTime instant) ∧
      ((((new bpm).run earlier).1.start now).1.run (turns.map Turn.call)).2.Pairwise
        fun a b => ∀ e ∈ a.emitted, ∀ e' ∈ b.emitted, e.time ≤ e'.time := by
  have plays : (((new bpm).run earlier).1.start now).1.Plays 0 := ⟨rfl, rfl, run_stepUs_pos earlier (stepMicros_pos bpm)⟩
  obtain ⟨n, after, _, steps, timed⟩ := run_advances turns plays
  rw [Nat.zero_add] at after
  rw [← List.range_eq_range'] at steps
  have mono := timeline_strictMono turns plays
  refine ⟨timeline _ turns, ?_, mono, ?_, ⟨n, after.next, steps⟩, timed, scheduled_sorted mono steps timed⟩
  · rw [timeline_here plays, stepInstant]
    change (now : ℚ) + ((0 : Nat) : Int) * _ = now
    push_cast
    ring
  · rintro before turn after' rfl
    exact run_keeps before turn after' plays

end Scheduler

end Wk.Sequence
