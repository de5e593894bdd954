/-
# Wk.Arpeggiator -- the arpeggiator

The arpeggiator steps through the notes of the keys that are held, one at a time, and stamps each
message with the instant it belongs to: a note-on with its step's boundary, a note-off with the
end of the note's gate.  It queues the boundaries of a short look-ahead; a run of steps starts at
the clock, and ends with the keys.  Instants are rationals: the rounding of floats is left out.

* `Arp.Monophonic`: in the order of their instants, the messages are note-on and note-off in turn,
  each pair of one note, and end with the last gate once the keys are up.
* `monophonic`: so it is in every run in which no run of steps starts before what is sent is due.

Poles: `overlaps` (a key pressed again within the gate of the last note).
-/
import Wk.Midi
import Wk.Sequence.Balance

namespace Wk.Arpeggiator

open Wk.Library Wk.Midi
open Wk.Sequence (toU64)
open Wk.Sequence.Scheduler (toU64_mono)

set_option autoImplicit false

/-- How far ahead of the clock notes are queued, in microseconds. -/
def lookaheadUs : ℚ := 20000

/-- A cap on how many steps one pass may queue. -/
def maxStepsPerTick : Nat := 64

/-! ## Knobs -/

inductive Knob where
  | rate | gate | mode | oct
  deriving DecidableEq, Repr

namespace Knob

def low : Knob → ℚ
  | .rate => 1
  | .gate => 1 / 10
  | .mode => 0
  | .oct => 1

def high : Knob → ℚ
  | .rate => 16
  | .gate => 1
  | .mode => 2
  | .oct => 3

def default : Knob → ℚ
  | .rate => 8
  | .gate => 3 / 5
  | .mode => 0
  | .oct => 1

/-- A knob's value, in its range. -/
abbrev Value (k : Knob) := { v : ℚ // k.low ≤ v ∧ v ≤ k.high }

theorem low_le_high (k : Knob) : k.low ≤ k.high := by cases k <;> norm_num [low, high]

def start (k : Knob) : k.Value := ⟨k.default, by cases k <;> norm_num [low, high, default]⟩

def clamp (k : Knob) (v : ℚ) : k.Value := ⟨max k.low (min v k.high), le_max_left .., max_le k.low_le_high (min_le_right ..)⟩

end Knob

/-- `round`, of a value that is not negative. -/
def round (v : ℚ) : Int := ⌊v + 1 / 2⌋

/-! ## The arpeggiator -/

structure Arp where
  /-- The messages sent. -/
  out : List Event := []
  /-- The keys held, ascending. -/
  held : List UInt8 := []
  /-- The notes to step through. -/
  seq : List UInt8 := []
  idx : Nat := 0
  dir : Int := 1
  /-- The next step boundary of the run, if one is going. -/
  nextAt : Option ℚ := none
  /-- The note that sounds, and the end of its gate. -/
  sounding : Option (UInt8 × ℚ) := none
  vel : UInt8 := 100
  /-- The next step is the first since the keys went down. -/
  restart : Bool := true
  knobs : (k : Knob) → k.Value := Knob.start
  -- ghost
  /-- The end of the gate of the last note. -/
  gateEnd : ℚ := 0

/-- What reaches the arpeggiator: a message, a knob's new value, or a frame with the clock's reading. -/
inductive Input where
  | midi (msg : Message)
  | knob (k : Knob) (value : ℚ)
  | tick (clock : Nat)
  deriving Repr

namespace Arp

variable (a : Arp)

def noteOn (note vel : UInt8) : Arp :=
  { a with vel, held := if note ∈ a.held then a.held else a.held.orderedInsert (· ≤ ·) note }

def noteOff (note : UInt8) : Arp := { a with held := a.held.filter (· ≠ note) }

def receive (msg : Message) : Arp :=
  match msg with
  | first :: note :: vel :: _ =>
    let status := first &&& 0xF0
    if status = 0x90 ∧ 0 < vel then a.noteOn note vel
    else if status = 0x80 ∨ status = 0x90 then a.noteOff note
    else if status = 0xB0 ∧ (note = 120 ∨ note = 123) then { a with held := [] }
    else a
  | _ => a

/-- The held notes, once for each octave, as far as there are such notes. -/
def rebuildSeq : Arp :=
  let octaves := (max (round (a.knobs .oct)) 1).toNat
  let seq := (List.range octaves).flatMap fun o =>
    a.held.filterMap fun n => if n.toNat + 12 * o ≤ 127 then some (UInt8.ofNat (n.toNat + 12 * o)) else none
  { a with seq, idx := if seq ≠ [] ∧ seq.length ≤ a.idx then seq.length - 1 else a.idx }

def sendAt (data : Message) (instant : ℚ) : Arp := { a with out := a.out ++ [{ data, time := toU64 (max instant 0) }] }

/-- The sounding note is released at the end of its gate. -/
def release : Arp :=
  match a.sounding with
  | some (note, offAt) => { a with sounding := none }.sendAt [0x80, note, 0] offAt
  | none => a

/-- The sounding note is released at the end of its gate, or at `limit`. -/
def releaseBefore (limit : ℚ) : Arp :=
  match a.sounding with
  | some (note, offAt) => { a with sounding := none }.sendAt [0x80, note, 0] (min offAt limit)
  | none => a

/-- Where the pattern goes next. -/
def advance (len : Nat) : Nat × Int :=
  let mode := round (a.knobs .mode)
  if a.restart then (if mode = 1 then len - 1 else 0, 1)
  else if len = 1 then (0, a.dir)
  else if mode = 0 then ((a.idx + 1) % len, a.dir)
  else if mode = 1 then ((a.idx + len - 1) % len, a.dir)
  else
    let i := a.idx + a.dir
    if (len : Int) - 1 ≤ i then (len - 1, -1) else if i ≤ 0 then (0, 1) else (i.toNat, a.dir)

/-- The next note of the pattern is sent. -/
def fireStep (at_ gateUs : ℚ) : Arp :=
  if a.seq = [] then a
  else
    let (idx, dir) := a.advance a.seq.length
    let note := a.seq.getD (min idx (a.seq.length - 1)) 0
    { a with idx, dir, restart := false, sounding := some (note, at_ + gateUs), gateEnd := at_ + gateUs }.sendAt
      [0x90, note, max a.vel 1] at_

def stepUs : ℚ := 1000000 / (a.knobs .rate).val

def gateUs : ℚ := a.stepUs * (a.knobs .gate).val

/-- The boundaries before a horizon, as far as the budget goes; then the one that is next. -/
def steps (stepUs gateUs horizon : ℚ) : Nat → Arp → ℚ → Arp
  | 0, a, at_ => { a with nextAt := some at_ }
  | budget + 1, a, at_ =>
    if at_ < horizon then steps stepUs gateUs horizon budget ((a.releaseBefore at_).fireStep at_ gateUs) (at_ + stepUs)
    else { a with nextAt := some at_ }

def tick (clock : Nat) : Arp :=
  if a.held = [] then { a.release with nextAt := none, restart := true, dir := 1 }
  else steps a.stepUs a.gateUs (clock + lookaheadUs) maxStepsPerTick a (a.nextAt.getD clock)

/-- A frame rebuilds the sequence before its tick. -/
def step : Input → Arp
  | .midi msg => a.receive msg
  | .knob k value => { a with knobs := Function.update a.knobs k (k.clamp value) }
  | .tick clock => a.rebuildSeq.tick clock

/-! ## One note at a time -/

/-- A listener of one voice: it takes a note-on in silence, and the note-off of what sounds. -/
def hearOne (voice : Option UInt8) (e : Event) : Option (Option UInt8) :=
  match e.data, voice with
  | [0x90, note, vel], none => if vel = 0 then none else some (some note)
  | [0x80, note, _], some sounds => if note = sounds then some none else none
  | _, _ => none

/-- What sounds after the messages, if they were note-on and note-off in turn. -/
def hears (out : List Event) : Option (Option UInt8) := out.foldlM hearOne none

/-- Messages in the order of their instants; those of one instant as they were sent. -/
def inOrder (out : List Event) : List Event := out.insertionSort fun e e' => e.time ≤ e'.time

/-- One note at a time, and none beyond the last gate once the keys are up. -/
structure Monophonic : Prop where
  /-- All notes are released but the one whose note-off is still to send. -/
  balanced : hears (inOrder a.out) = some (a.sounding.map Prod.fst)
  released : ∀ clock, a.held = [] → hears (inOrder (a.step (.tick clock)).out) = some none ∧
    ∀ e ∈ (a.step (.tick clock)).out, e.time ≤ toU64 (max a.gateEnd 0)

/-- What a tick must not do: start a run of steps while a message that is sent lies ahead of the clock. -/
def Careful : Input → Prop
  | .tick clock => a.held ≠ [] → a.nextAt = none → ∀ e ∈ a.out, e.time ≤ toU64 clock
  | _ => True

/-! ## What a step of the pattern keeps -/

variable {a}

/-- The messages are in order and in turn, and a note that sounds is the last one. -/
structure Sent (a : Arp) : Prop where
  ordered : a.out.Pairwise fun e e' => e.time ≤ e'.time
  heard : hears a.out = some (a.sounding.map Prod.fst)
  ended : ∀ e ∈ a.out, e.time ≤ toU64 (max a.gateEnd 0)
  gate : ∀ note offAt, a.sounding = some (note, offAt) → offAt = a.gateEnd

/-- Nothing that is sent is due after an instant. -/
def Before (a : Arp) (t : ℚ) : Prop := ∀ e ∈ a.out, e.time ≤ toU64 (max t 0)

@[simp] theorem sendAt_sounding (data : Message) (t : ℚ) : (a.sendAt data t).sounding = a.sounding := rfl

theorem vel_ne_zero : ∀ vel : UInt8, max vel 1 ≠ 0 := by decide +kernel

theorem hears_append {out : List Event} {voice voice' : Option UInt8} {e : Event} (heard : hears out = some voice)
    (turn : hearOne voice e = some voice') : hears (out ++ [e]) = some voice' := by
  have heard' : out.foldlM hearOne none = some voice := heard
  simp only [hears, List.foldlM_append, heard', Option.bind_eq_bind, Option.bind_some, List.foldlM_cons, List.foldlM_nil, turn]
  rfl

theorem ordered_append {out : List Event} {e : Event} (ordered : out.Pairwise fun e e' => e.time ≤ e'.time)
    (last : ∀ e' ∈ out, e'.time ≤ e.time) : (out ++ [e]).Pairwise fun e e' => e.time ≤ e'.time :=
  List.pairwise_append.2 ⟨ordered, List.pairwise_singleton .., fun e' member _ here => List.mem_singleton.1 here ▸ last e' member⟩

theorem toU64_le {s t : ℚ} (le : s ≤ t) : toU64 (max s 0) ≤ toU64 (max t 0) := toU64_mono (max_le_max_right _ le)

/-- The sounding note's note-off is sent for an instant that nothing sent is due after. -/
theorem Sent.releases (sent : a.Sent) {note : UInt8} {offAt t : ℚ} (sounds : a.sounding = some (note, offAt)) (before : a.Before t)
    (gate : t ≤ a.gateEnd) : ({ a with sounding := none }.sendAt [0x80, note, 0] t).Sent := by
  have heard := sent.heard
  rw [sounds] at heard
  refine ⟨ordered_append sent.ordered before, hears_append heard (by simp [hearOne]), fun e member => ?_, nofun⟩
  rcases List.mem_append.1 member with old | new
  · exact sent.ended e old
  · rw [List.mem_singleton.1 new]
    exact toU64_le gate

/-- At a boundary that nothing is due after, the sounding note is released first. -/
theorem Sent.releaseBefore (sent : a.Sent) {t : ℚ} (before : a.Before t) :
    (a.releaseBefore t).Sent ∧ (a.releaseBefore t).Before t ∧ (a.releaseBefore t).sounding = none := by
  simp only [Arp.releaseBefore]
  cases sounds : a.sounding with
  | none => exact ⟨sent, before, sounds⟩
  | some s =>
    obtain ⟨note, offAt⟩ := s
    have gate := sent.gate note offAt sounds
    have due : a.Before (min offAt t) := by
      intro e member
      rcases min_choice offAt t with least | least <;> rw [least]
      · exact gate ▸ sent.ended e member
      · exact before e member
    refine ⟨sent.releases sounds due (gate ▸ min_le_left ..), fun e member => ?_, rfl⟩
    rcases List.mem_append.1 member with old | new
    · exact before e old
    · rw [List.mem_singleton.1 new]
      exact toU64_le (min_le_right ..)

theorem Sent.fireStep (sent : a.Sent) {t gateUs : ℚ} (before : a.Before t) (silent : a.sounding = none) (gate : 0 ≤ gateUs) :
    (a.fireStep t gateUs).Sent ∧ (a.fireStep t gateUs).Before t := by
  simp only [Arp.fireStep]
  split
  · exact ⟨sent, before⟩
  · have heard := sent.heard
    rw [silent] at heard
    have later : toU64 (max t 0) ≤ toU64 (max (t + gateUs) 0) := toU64_le (le_add_of_nonneg_right gate)
    refine ⟨⟨ordered_append sent.ordered before, hears_append heard (by simp [hearOne, vel_ne_zero]), fun e member => ?_, fun _ _ same => ?_⟩,
      fun e member => ?_⟩
    · rcases List.mem_append.1 member with old | new
      · exact (before e old).trans later
      · rw [List.mem_singleton.1 new]
        exact later
    · exact (Prod.ext_iff.1 (Option.some.inj same)).2.symm
    · rcases List.mem_append.1 member with old | new
      · exact before e old
      · rw [List.mem_singleton.1 new]

/-- The steps of a run, one after another. -/
theorem Sent.steps {stepUs gateUs horizon : ℚ} (step : 0 ≤ stepUs) (gate : 0 ≤ gateUs) : ∀ (budget : Nat) {a : Arp} {t : ℚ}, a.Sent →
    a.Before t → (Arp.steps stepUs gateUs horizon budget a t).Sent ∧
      ∃ t', (Arp.steps stepUs gateUs horizon budget a t).nextAt = some t' ∧ (Arp.steps stepUs gateUs horizon budget a t).Before t'
  | 0, _, t, sent, before => ⟨⟨sent.ordered, sent.heard, sent.ended, sent.gate⟩, t, rfl, before⟩
  | budget + 1, a, t, sent, before => by
    rw [Arp.steps]
    split
    · obtain ⟨released, before', silent⟩ := sent.releaseBefore before
      obtain ⟨fired, before''⟩ := released.fireStep before' silent gate
      exact fired.steps step gate budget fun e member => (before'' e member).trans (toU64_le (le_add_of_nonneg_right step))
    · exact ⟨⟨sent.ordered, sent.heard, sent.ended, sent.gate⟩, t, rfl, before⟩

theorem stepUs_nonneg : 0 ≤ a.stepUs := by
  have low : 0 ≤ (a.knobs .rate).val := (by norm_num [Knob.low] : (0 : ℚ) ≤ Knob.low .rate).trans (a.knobs .rate).2.1
  exact div_nonneg (by norm_num) low

theorem gateUs_nonneg : 0 ≤ a.gateUs := by
  have low : 0 ≤ (a.knobs .gate).val := (by norm_num [Knob.low] : (0 : ℚ) ≤ Knob.low .gate).trans (a.knobs .gate).2.1
  exact mul_nonneg stepUs_nonneg low

/-! ## Runs -/

/-- What every careful input keeps. -/
structure Kept (a : Arp) : Prop where
  sent : a.Sent
  going : ∀ t, a.nextAt = some t → a.Before t
  idle : a.nextAt = none → a.sounding = none

/-- A change that leaves what is sent and what is due. -/
theorem Kept.same (kept : a.Kept) {a' : Arp} (out : a'.out = a.out) (sounding : a'.sounding = a.sounding) (gateEnd : a'.gateEnd = a.gateEnd)
    (nextAt : a'.nextAt = a.nextAt) : a'.Kept := by
  obtain ⟨⟨ordered, heard, ended, gate⟩, going, idle⟩ := kept
  refine ⟨⟨out ▸ ordered, ?_, ?_, ?_⟩, ?_, ?_⟩
  · rw [out, sounding]
    exact heard
  · rw [out, gateEnd]
    exact ended
  · rw [sounding, gateEnd]
    exact gate
  · rw [nextAt]
    unfold Before
    rw [out]
    exact going
  · rw [nextAt, sounding]
    exact idle

theorem receive_same (msg : Message) : (a.receive msg).out = a.out ∧ (a.receive msg).sounding = a.sounding ∧
    (a.receive msg).gateEnd = a.gateEnd ∧ (a.receive msg).nextAt = a.nextAt := by
  simp only [receive]
  split
  · split
    · exact ⟨rfl, rfl, rfl, rfl⟩
    · split
      · exact ⟨rfl, rfl, rfl, rfl⟩
      · split <;> exact ⟨rfl, rfl, rfl, rfl⟩
  · exact ⟨rfl, rfl, rfl, rfl⟩

/-- A tick without keys ends the run at the end of the last gate. -/
theorem Kept.ends (kept : a.Kept) (clock : Nat) (up : a.held = []) : (a.tick clock).Kept ∧ (a.tick clock).sounding = none ∧
    (a.tick clock).gateEnd = a.gateEnd := by
  simp only [tick, if_pos up, release]
  cases sounds : a.sounding with
  | none => exact ⟨⟨⟨kept.sent.ordered, kept.sent.heard, kept.sent.ended, kept.sent.gate⟩, nofun, fun _ => sounds⟩, sounds, rfl⟩
  | some s =>
    obtain ⟨note, offAt⟩ := s
    have gate := kept.sent.gate note offAt sounds
    have sent := kept.sent.releases sounds (t := offAt) (gate ▸ kept.sent.ended) gate.le
    exact ⟨⟨⟨sent.ordered, sent.heard, sent.ended, sent.gate⟩, nofun, fun _ => rfl⟩, rfl, rfl⟩

theorem Kept.tick (kept : a.Kept) {clock : Nat} (careful : a.held ≠ [] → a.nextAt = none → ∀ e ∈ a.out, e.time ≤ toU64 clock) :
    (a.tick clock).Kept := by
  by_cases up : a.held = []
  · exact (kept.ends clock up).1
  · have before : a.Before (a.nextAt.getD clock) := by
      cases next : a.nextAt with
      | none =>
        intro e member
        rw [Option.getD_none, max_eq_left (Nat.cast_nonneg clock)]
        exact careful up next e member
      | some t => exact kept.going t next
    rw [Arp.tick, if_neg up]
    obtain ⟨sent, t, next, before'⟩ := kept.sent.steps stepUs_nonneg gateUs_nonneg maxStepsPerTick before
    exact ⟨sent, fun t' same => Option.some.inj (next.symm.trans same) ▸ before', fun none' => absurd (next.symm.trans none') nofun⟩

theorem Kept.step (kept : a.Kept) {input : Input} (careful : a.Careful input) : (a.step input).Kept := by
  cases input with
  | midi msg =>
    obtain ⟨out, sounding, gateEnd, nextAt⟩ := receive_same (a := a) msg
    exact kept.same out sounding gateEnd nextAt
  | knob k value => exact kept.same rfl rfl rfl rfl
  | tick clock =>
    have rebuilt : a.rebuildSeq.Kept := kept.same rfl rfl rfl rfl
    exact rebuilt.tick careful

theorem Kept.oneVoice (kept : a.Kept) : a.Monophonic := by
  have inOrder_out : ∀ {b : Arp}, b.Kept → inOrder b.out = b.out := fun kept =>
    kept.sent.ordered.insertionSort_eq
  refine ⟨by rw [inOrder_out kept]; exact kept.sent.heard, fun clock up => ?_⟩
  have rebuilt : a.rebuildSeq.Kept := kept.same rfl rfl rfl rfl
  obtain ⟨ended, silent, gate⟩ := rebuilt.ends clock up
  have heard := ended.sent.heard
  rw [silent] at heard
  refine ⟨?_, fun e member => ?_⟩
  · rw [show a.step (.tick clock) = a.rebuildSeq.tick clock from rfl, inOrder_out ended]
    exact heard
  · have due := ended.sent.ended e member
    rwa [gate] at due

/-- In every run in which no run of steps starts before what is sent is due, the arpeggiator plays one
note at a time, and ends with the last gate. -/
theorem monophonic {inputs : List Input} (run : Along step Careful {} inputs) :
    ∀ done, done <+: inputs → (done.foldl step {}).Monophonic := by
  rintro done ⟨rest, rfl⟩
  have start : ({} : Arp).Kept := ⟨⟨.nil, rfl, nofun, nofun⟩, nofun, fun _ => rfl⟩
  exact (run.append.1.keeps (fun _ _ careful kept => kept.step careful) start).oneVoice

/-! ## Poles -/

section Poles

/-- A key is held for two frames, and pressed again after the gate of its last note. -/
def played : List Input :=
  [.midi [0x90, 60, 90], .tick 0, .knob .gate (1 / 2), .tick 120000, .midi [0x80, 60, 0], .tick 140000, .midi [0x90, 64, 90], .tick 200000]

/-- A key is released, and another pressed within the gate. -/
def repressed : List Input :=
  [.midi [0x90, 60, 90], .tick 0, .midi [0x80, 60, 0], .tick 20000, .midi [0x90, 64, 90], .tick 40000]

theorem played_careful : Along step Careful {} played := by
  have first : ∀ e ∈ (({} : Arp).step (.midi [0x90, 60, 90])).out, e.time ≤ toU64 (0 : Nat) := nofun
  have last : ∀ e ∈ ((played.take 7).foldl step {}).out, e.time ≤ toU64 (200000 : Nat) := by decide +kernel
  refine ⟨trivial, fun _ _ => first, trivial, fun _ going => ?_, trivial, fun keys => ?_, trivial, fun _ _ => last, trivial⟩
  · exact absurd going (by decide +kernel)
  · exact absurd keys (by decide +kernel)

theorem monophonic_played : (played.foldl step {}).Monophonic ∧
    ((played.foldl step {}).out.map Event.time) = [0, 75000, 125000, 187500, 200000] :=
  ⟨monophonic played_careful played List.prefix_rfl, by decide +kernel⟩

/-- The second key's note starts within the gate of the first's: two notes at once. -/
theorem overlaps : ¬ (repressed.foldl step {}).Monophonic ∧
    inOrder (repressed.foldl step {}).out =
      [{ data := [0x90, 60, 90], time := 0 }, { data := [0x90, 64, 90], time := 40000 }, { data := [0x80, 60, 0], time := 75000 }] := by
  refine ⟨fun mono => ?_, by decide +kernel⟩
  exact absurd mono.balanced (by decide +kernel)

end Poles

end Arp

end Wk.Arpeggiator
