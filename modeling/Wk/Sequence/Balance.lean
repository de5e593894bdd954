/-
# Wk.Sequence.Balance -- every note-on has its note-off

The scheduler's memory `on` is what a listener of its output hears, in every state of a
run; from there the balance of the notes is that of the memory.

* `Turned`: what one stage does to the keys that sound.
* `run_balanced`: the notes of a run are in balance, where `start` is called on a stopped
  transport only.

Poles: `one_bar` (a bar played and stopped), `held_through` (a note that is back on the
next step sounds on).
-/
import Wk.Sequence
import Wk.Library.Run
import Wk.Library.MidiBytes

namespace Wk.Sequence

open Wk.Library

set_option autoImplicit false

/-- No message turns on a key that sounds. -/
def NoDouble (heard : Heard) (out : List Emit) : Prop :=
  ∀ before e after k, out = before ++ e :: after → e.note = some (.on k) → hear heard before k = none

section Listening

variable {heard : Heard} {a b : List Emit} {k k' : Key} {vel : UInt8} {time : Nat}

theorem hear_append : hear heard (a ++ b) = hear (hear heard a) b := List.foldl_append ..

/-- A message that is no note changes nothing. -/
theorem hear_silent (silent : ∀ e ∈ a, e.note = none) : hear heard a = heard := by
  induction a with
  | nil => rfl
  | cons e a ih =>
    have step : hearOne heard e = heard := by
      rw [hearOne, silent e (List.mem_cons_self ..)]
    change hear (hearOne heard e) a = heard
    rw [step]
    exact ih fun e' member => silent e' (List.mem_cons_of_mem _ member)

theorem NoDouble.append (first : NoDouble heard a) (second : NoDouble (hear heard a) b) :
    NoDouble heard (a ++ b) := by
  intro before e after k split on
  rcases List.append_eq_append_iff.1 split with ⟨more, rfl, rest⟩ | ⟨more, same, rest⟩
  · rw [hear_append]
    exact second more e after k rest on
  · cases more with
    | nil =>
      rw [List.append_nil] at same
      rw [← same]
      exact second [] e after k rest.symm on
    | cons e' more =>
      cases rest
      exact first before e more k same on

theorem NoDouble.singleton {e : Emit} (silent : ∀ k, e.note = some (.on k) → heard k = none) :
    NoDouble heard [e] := by
  intro before e' after k split on
  cases before with
  | nil =>
    cases split
    exact silent k on
  | cons e'' before =>
    have empty := congrArg List.length (List.cons.inj split).2
    simp at empty

theorem NoDouble.of_silent (silent : ∀ e ∈ a, ∀ k, e.note ≠ some (.on k)) : NoDouble heard a :=
  fun before e _ k split on => absurd on (silent e (by rw [split]; simp) k)

theorem note_noteOn (channel : k.1 < 16) (sounds : vel ≠ 0) :
    (noteOn k vel time).note = some (.on k) := by
  obtain ⟨status, nibble⟩ := status_on channel
  simp only [Emit.note, noteOn, status, nibble, sounds, ne_eq, not_false_eq_true, and_self, if_true]

theorem note_noteOff (channel : k.1 < 16) : (noteOff k time).note = some (.off k) := by
  obtain ⟨status, nibble⟩ := status_off channel
  simp only [Emit.note, noteOff, status, nibble]
  rfl

/-- A row of note-offs silences its keys. -/
theorem hear_offs : ∀ (offs : List Key) (heard : Heard), (∀ k ∈ offs, k.1 < 16) →
    hear heard (offs.map fun k => noteOff k time) k = if k ∈ offs then none else heard k
  | [], _, _ => by simp [hear]
  | k' :: offs, heard, channels => by
    have rest := hear_offs offs (hearOne heard (noteOff k' time))
      fun k'' member => channels k'' (List.mem_cons_of_mem _ member)
    change hear (hearOne heard (noteOff k' time)) _ k = _
    rw [rest, hearOne, note_noteOff (channels k' (List.mem_cons_self ..))]
    dsimp only
    by_cases later : k ∈ offs
    · rw [if_pos later, if_pos (List.mem_cons_of_mem _ later)]
    · rw [if_neg later, Function.update_apply]
      by_cases here : k = k'
      · rw [if_pos here, if_pos (here ▸ List.mem_cons_self ..)]
      · rw [if_neg here, if_neg fun member => (List.mem_cons.1 member).elim here later]

end Listening

/-! ## What a step wants -/

/-- A note that is neither muted nor suppressed covers the key on a step. -/
def Covered (song : Song) (play : Playback) (suppress : List Key) (abs : Int) (k : Key) : Prop :=
  ∃ pos pattern, locate song play abs = some pos ∧ song.patterns[pos.pattern]? = some pattern ∧
    k ∉ suppress ∧ ∃ e ∈ song.tracks.zipIdx, e.1.muted = false ∧
      ∃ note ∈ pattern.track e.2, note.covers pos.step pattern.steps = true ∧
        k = (e.1.channel, UInt8.ofInt note.pitch)

/-- After this nothing holds the key on: a step that no note covers it on, or a stop. -/
def Moment.Releases (k : Key) : Moment → Prop
  | .step song play suppress abs => ¬Covered song play suppress abs k
  | .stopped => True
  | _ => False

/-- The velocities are those of note-ons, the channels in range. -/
def Playable (want : List (Key × UInt8)) : Prop := ∀ w ∈ want, w.1.1 < 16 ∧ w.2 ≠ 0

namespace Scheduler

section Want

variable {suppress : List Key} {channel : UInt8} {k : Key}

theorem keys_wantNote (want : List (Key × UInt8)) (note : Note) :
    k ∈ (wantNote suppress channel want note).map Prod.fst ↔
      k ∈ want.map Prod.fst ∨ k ∉ suppress ∧ k = (channel, UInt8.ofInt note.pitch) := by
  unfold wantNote
  dsimp only
  split
  · next skipped =>
      refine ⟨.inl, fun either => either.elim id fun ⟨free, same⟩ => ?_⟩
      subst same
      rcases Bool.or_eq_true_iff.1 skipped with held | there
      · exact absurd (List.contains_iff_mem.1 held) free
      · obtain ⟨w, member, same⟩ := List.any_eq_true.1 there
        exact List.mem_map.2 ⟨w, member, of_decide_eq_true same⟩
  · next added =>
      simp only [Bool.or_eq_true, not_or, List.contains_iff_mem] at added
      rw [List.map_append, List.mem_append]
      refine or_congr_right ?_
      rw [List.map_singleton, List.mem_singleton]
      exact ⟨fun same => ⟨same ▸ added.1, same⟩, And.right⟩

theorem keys_wantNotes : ∀ (notes : List Note) (want : List (Key × UInt8)),
    k ∈ (notes.foldl (wantNote suppress channel) want).map Prod.fst ↔
      k ∈ want.map Prod.fst ∨ k ∉ suppress ∧ ∃ note ∈ notes, k = (channel, UInt8.ofInt note.pitch)
  | [], want => by simp
  | note :: notes, want => by
    rw [List.foldl_cons, keys_wantNotes notes, keys_wantNote, or_assoc, ← and_or_left]
    simp only [List.mem_cons, exists_eq_or_imp]

theorem max_one_ne_zero : ∀ vel : UInt8, max vel 1 ≠ 0 := by decide +kernel

theorem playable_wantNote {want : List (Key × UInt8)} (note : Note) (inRange : channel < 16)
    (playable : Playable want) : Playable (wantNote suppress channel want note) := by
  unfold wantNote
  dsimp only
  split
  · exact playable
  · intro w member
    rcases List.mem_append.1 member with old | new
    · exact playable w old
    · rw [List.mem_singleton.1 new]
      exact ⟨inRange, max_one_ne_zero note.vel⟩

theorem playable_wantNotes : ∀ (notes : List Note) {want : List (Key × UInt8)}, channel < 16 →
    Playable want → Playable (notes.foldl (wantNote suppress channel) want)
  | [], _, _, playable => playable
  | note :: notes, _, inRange, playable =>
    playable_wantNotes notes inRange (playable_wantNote note inRange playable)

theorem keys_wantTrack {pattern : Pattern} {step : Int} (want : List (Key × UInt8)) (e : Track × Nat) :
    k ∈ (wantTrack pattern step suppress want e).map Prod.fst ↔
      k ∈ want.map Prod.fst ∨ k ∉ suppress ∧ e.1.muted = false ∧
        ∃ note ∈ pattern.track e.2, note.covers step pattern.steps = true ∧
          k = (e.1.channel, UInt8.ofInt note.pitch) := by
  unfold wantTrack
  split
  · next muted => simp [muted]
  · next loud =>
      rw [keys_wantNotes]
      simp only [List.mem_filter, Bool.not_eq_true _ ▸ loud, true_and, and_assoc]

theorem keys_wantTracks {pattern : Pattern} {step : Int} :
    ∀ (tracks : List (Track × Nat)) (want : List (Key × UInt8)),
      k ∈ (tracks.foldl (wantTrack pattern step suppress) want).map Prod.fst ↔
        k ∈ want.map Prod.fst ∨ k ∉ suppress ∧ ∃ e ∈ tracks, e.1.muted = false ∧
          ∃ note ∈ pattern.track e.2, note.covers step pattern.steps = true ∧
            k = (e.1.channel, UInt8.ofInt note.pitch)
  | [], want => by simp
  | e :: tracks, want => by
    rw [List.foldl_cons, keys_wantTracks tracks, keys_wantTrack, or_assoc, ← and_or_left]
    simp only [List.mem_cons, exists_eq_or_imp]

theorem playable_wantTracks {pattern : Pattern} {step : Int} :
    ∀ (tracks : List (Track × Nat)) {want : List (Key × UInt8)}, Playable want →
      Playable (tracks.foldl (wantTrack pattern step suppress) want)
  | [], _, playable => playable
  | e :: tracks, want, playable => by
    refine playable_wantTracks tracks ?_
    unfold wantTrack
    split
    · exact playable
    · exact playable_wantNotes _ e.1.inRange playable

variable {song : Song} {play : Playback} {abs : Int}

/-- What a step wants is what its notes cover. -/
theorem keys_want : k ∈ (want song play suppress abs).map Prod.fst ↔ Covered song play suppress abs k := by
  unfold want
  split
  · next absent => exact ⟨nofun, fun ⟨_, _, found, _⟩ => nomatch absent.symm.trans found⟩
  · next pos found =>
      split
      · next absent =>
          refine ⟨nofun, fun ⟨pos', pattern, there, found', _⟩ => ?_⟩
          cases found.symm.trans there
          exact absurd (absent.symm.trans found') nofun
      · next pattern found' =>
          rw [keys_wantTracks]
          refine ⟨fun either => ⟨pos, pattern, found, found', either.resolve_left nofun⟩, ?_⟩
          rintro ⟨pos', pattern', there, there', covered⟩
          cases found.symm.trans there
          cases found'.symm.trans there'
          exact .inr covered

theorem playable_want : Playable (want song play suppress abs) := by
  unfold want
  split
  · exact nofun
  split
  · exact nofun
  · exact playable_wantTracks _ nofun

end Want

/-! ## One stage -/

/-- The keys a listener hears are those in the scheduler's memory. -/
def Agrees (heard : Heard) (on : List Key) : Prop := ∀ k, (heard k).isSome = true ↔ k ∈ on

theorem mem_turnOn {time : Nat} {k : Key} : ∀ (want : List (Key × UInt8)) (on : List Key),
    k ∈ (turnOn time want on).2 ↔ k ∈ on ∨ k ∈ want.map Prod.fst
  | [], on => by simp [turnOn]
  | (k', vel) :: want, on => by
    unfold turnOn
    split
    · next there =>
        rw [mem_turnOn want on, List.map_cons, List.mem_cons]
        refine or_congr_right' fun absent => (or_iff_right fun same => absent ?_).symm
        exact same ▸ List.contains_iff_mem.1 there
    · rw [mem_turnOn want (on ++ [k']), List.mem_append, List.mem_singleton, List.map_cons,
        List.mem_cons, or_assoc]

/-- What is turned on was silent, and sounds from then on. -/
theorem hear_turnOn (time : Nat) : ∀ (want : List (Key × UInt8)) (on : List Key) (heard : Heard),
    Playable want → Agrees heard on →
      NoDouble heard (turnOn time want on).1 ∧
      (∀ e ∈ (turnOn time want on).1, e.time = time ∧
        ∃ k, e.note = some (.on k) ∧ k ∉ on ∧ k ∈ want.map Prod.fst) ∧
      ∀ k, hear heard (turnOn time want on).1 k =
        if k ∈ on then heard k else if k ∈ want.map Prod.fst then some time else heard k
  | [], on, heard, _, _ => ⟨.of_silent nofun, nofun, fun k => by simp [turnOn, hear]⟩
  | (k', vel) :: want, on, heard, playable, agrees => by
    have later : Playable want := fun w member => playable w (List.mem_cons_of_mem _ member)
    unfold turnOn
    split
    · next there =>
        rw [List.contains_iff_mem] at there
        obtain ⟨double, notes, heard'⟩ := hear_turnOn time want on heard later agrees
        refine ⟨double, fun e member => ?_, fun k => (heard' k).trans ?_⟩
        · obtain ⟨at', k, on', absent, wanted⟩ := notes e member
          exact ⟨at', k, on', absent, List.mem_cons_of_mem _ wanted⟩
        by_cases held : k ∈ on
        · rw [if_pos held, if_pos held]
        · have differs : k ≠ k' := fun same => held (same ▸ there)
          simp only [held, if_false, List.map_cons, List.mem_cons, differs, false_or]
    · next absent =>
        rw [List.contains_iff_mem] at absent
        obtain ⟨channel, sounds⟩ := playable _ (List.mem_cons_self ..)
        have note : (noteOn k' vel time).note = some (.on k') := note_noteOn channel sounds
        have one : hearOne heard (noteOn k' vel time) = Function.update heard k' (some time) := by
          rw [hearOne, note]
          rfl
        have agrees' : Agrees (hearOne heard (noteOn k' vel time)) (on ++ [k']) := by
          intro k
          rw [one, Function.update_apply, List.mem_append, List.mem_singleton]
          split
          · next same => exact iff_of_true rfl (.inr same)
          · next differs => rw [agrees k, or_iff_left differs]
        have first : NoDouble heard [noteOn k' vel time] := .singleton fun k on => by
          cases note.symm.trans on
          exact Option.not_isSome_iff_eq_none.1 fun sounding => absent ((agrees k').1 sounding)
        obtain ⟨double, notes, heard'⟩ := hear_turnOn time want (on ++ [k']) _ later agrees'
        refine ⟨first.append double, fun e member => ?_, fun k => (heard' k).trans ?_⟩
        · rcases List.mem_cons.1 member with rfl | old
          · exact ⟨rfl, k', note, absent, List.mem_cons_self ..⟩
          · obtain ⟨at', k, on', absent', wanted⟩ := notes e old
            exact ⟨at', k, on', fun held => absent' (List.mem_append_left _ held),
              List.mem_cons_of_mem _ wanted⟩
        · rw [one]
          by_cases same : k = k'
          · subst same
            simp [absent]
          · simp [same]

/-- The instant of the next boundary. -/
def stamp (s : Scheduler) : Nat := toU64 (max (s.stepInstant s.nextStep) 0)

/-- The scheduler's memory is what a listener hears, and what it hears is from before the
next boundary. -/
structure InTune (s : Scheduler) (heard : Heard) : Prop where
  agrees : Agrees heard s.on
  channel : ∀ k ∈ s.on, k.1 < 16
  past : ∀ k t, heard k = some t → t ≤ s.stamp
  rest : s.running = false → s.on = []
  tempo : 0 ≤ s.stepUs

/-- What one stage does to the keys that sound. -/
structure Turned (s : Scheduler) (heard : Heard) (stage : Stage) (s' : Scheduler) : Prop where
  double : NoDouble heard stage.emitted
  tune : InTune s' (hear heard stage.emitted)
  stays : ∀ e ∈ stage.emitted, ∀ k, e.note = some (.on k) →
    hear heard stage.emitted k = some e.time
  kept : ∀ k t, heard k = some t → hear heard stage.emitted k = some t ∨
    ∃ e ∈ stage.emitted, e.note = some (.off k) ∧ t ≤ e.time
  quiet : ∀ k, stage.moment.Releases k → hear heard stage.emitted k = none
  timed : ∀ e ∈ stage.emitted, e.note ≠ none → e.time = s.stamp

variable {s : Scheduler} {heard : Heard}

theorem toU64_mono {x y : ℚ} (le : x ≤ y) : toU64 x ≤ toU64 y :=
  min_le_min_right _ (Int.toNat_le_toNat (Int.floor_le_floor le))

theorem stepMicros_nonneg (bpm : ℚ) : 0 ≤ stepMicros bpm := by
  have clamped : 0 ≤ max minBpm (min bpm maxBpm) := le_max_of_le_left (by decide)
  unfold stepMicros
  positivity

/-- The boundary after the next is not before it. -/
theorem stamp_next (tempo : 0 ≤ s.stepUs) (on : List Key) :
    s.stamp ≤ ({ s with on, nextStep := s.nextStep + 1 } : Scheduler).stamp := by
  refine toU64_mono (max_le_max_right _ ?_)
  change s.origin + s.nextStep * s.stepUs ≤ s.origin + ((s.nextStep + 1 : Int) : ℚ) * s.stepUs
  push_cast
  nlinarith

theorem stamp_setBpm (bpm : ℚ) : (s.setBpm bpm).stamp = s.stamp := by
  refine congrArg (fun x => toU64 (max x 0)) ?_
  change s.stepInstant s.nextStep - s.nextStep * stepMicros bpm + s.nextStep * stepMicros bpm = _
  ring

theorem turned_setBpm (tune : InTune s heard) (bpm : ℚ) :
    Turned s heard { moment := .tempo, emitted := [] } (s.setBpm bpm) where
  double := .of_silent nofun
  tune := ⟨tune.agrees, tune.channel, fun k t sounds =>
    (tune.past k t sounds).trans_eq (stamp_setBpm bpm).symm, tune.rest, stepMicros_nonneg bpm⟩
  stays := nofun
  kept _ _ sounds := .inl sounds
  quiet _ := nofun
  timed := nofun

theorem turned_start (tune : InTune s heard) (resting : s.running = false) (now : Nat) :
    Turned s heard { moment := .started, emitted := (s.start now).2 } (s.start now).1 := by
  have silent : ∀ e ∈ (s.start now).2, e.note = none := fun e member => by
    rw [List.mem_singleton.1 member]
    rfl
  have same : hear heard (s.start now).2 = heard := hear_silent silent
  refine ⟨.of_silent fun e member k => by rw [silent e member]; nofun, ?_,
    fun e member k on => absurd ((silent e member).symm.trans on) nofun, fun k t sounds => .inl ?_, nofun,
    fun e member note => absurd (silent e member) note⟩
  · rw [same]
    have off := tune.agrees
    rw [tune.rest resting] at off
    exact ⟨off, nofun, fun k t sounds => absurd ((off k).1 (by rw [sounds]; rfl)) nofun, nofun, tune.tempo⟩
  · rw [same]
    exact sounds

theorem turned_stop (tune : InTune s heard) :
    Turned s heard { moment := .stopped, emitted := s.stop.2 } s.stop.1 := by
  cases running : s.running with
  | false =>
    have idle : s.stop = (s, []) := by
      rw [stop, running]
      rfl
    rw [idle]
    have off := tune.agrees
    rw [tune.rest running] at off
    refine ⟨.of_silent nofun, tune, nofun, fun _ _ sounds => .inl sounds, fun k _ => ?_, nofun⟩
    exact Option.not_isSome_iff_eq_none.1 fun sounding => absurd ((off k).1 sounding) nofun
  | true =>
    have stops : s.stop = ({ s with on := [], running := false },
        (s.on.map fun k => noteOff k s.stamp) ++ [{ data := [0xFC], time := s.stamp }]) := by
      rw [stop, running]
      rfl
    rw [stops]
    have last : ∀ e ∈ [({ data := [0xFC], time := s.stamp } : Emit)], e.note = none := fun e member => by
      rw [List.mem_singleton.1 member]
      rfl
    have offs : ∀ e ∈ s.on.map fun k => noteOff k s.stamp, ∃ k ∈ s.on, e.note = some (.off k) ∧
        e.time = s.stamp := by
      intro e member
      obtain ⟨k, on, rfl⟩ := List.mem_map.1 member
      exact ⟨k, on, note_noteOff (tune.channel k on), rfl⟩
    have silence : ∀ k, hear heard ((s.on.map fun k => noteOff k s.stamp) ++
        [{ data := [0xFC], time := s.stamp }]) k = none := by
      intro k
      rw [hear_append, hear_silent last, hear_offs s.on heard tune.channel]
      split
      · rfl
      · next absent =>
          exact Option.not_isSome_iff_eq_none.1 fun sounding => absent ((tune.agrees k).1 sounding)
    have noOn : ∀ e ∈ (s.on.map fun k => noteOff k s.stamp) ++
        [({ data := [0xFC], time := s.stamp } : Emit)], ∀ k, e.note ≠ some (.on k) := by
      intro e member k on
      rcases List.mem_append.1 member with m | m
      · obtain ⟨_, _, off, _⟩ := offs e m
        exact absurd (off.symm.trans on) nofun
      · exact absurd ((last e m).symm.trans on) nofun
    refine ⟨.of_silent noOn, ⟨fun k => ?_, nofun, fun k t sounds => ?_, fun _ => rfl, tune.tempo⟩,
      fun e member k on => absurd on (noOn e member k), fun k t sounds => .inr ?_,
      fun k _ => silence k, fun e member note => ?_⟩
    · rw [silence k]
      exact iff_of_false nofun nofun
    · exact absurd ((silence k).symm.trans sounds) nofun
    · have on := (tune.agrees k).1 (by rw [sounds]; rfl)
      exact ⟨noteOff k s.stamp, List.mem_append_left _ (List.mem_map.2 ⟨k, on, rfl⟩),
        note_noteOff (tune.channel k on), tune.past k t sounds⟩
    · rcases List.mem_append.1 member with m | m
      · exact (offs e m).choose_spec.2.2
      · exact absurd (last e m) note

/-- Whether a key is wanted. -/
def wanted (want : List (Key × UInt8)) (k : Key) : Bool := want.any fun w => w.1 = k

theorem wanted_iff {want : List (Key × UInt8)} {k : Key} :
    wanted want k = true ↔ k ∈ want.map Prod.fst := by
  simp [wanted]

theorem mem_stay {want : List (Key × UInt8)} {on : List Key} {k : Key} :
    k ∈ on.filter (wanted want) ↔ k ∈ on ∧ k ∈ want.map Prod.fst := by
  rw [List.mem_filter, wanted_iff]

theorem mem_offs {want : List (Key × UInt8)} {on : List Key} {k : Key} :
    k ∈ on.filter (fun k => !wanted want k) ↔ k ∈ on ∧ k ∉ want.map Prod.fst := by
  rw [List.mem_filter, Bool.not_eq_true', ← Bool.not_eq_true, wanted_iff]

/-- What sounds after a step's note-offs: what stays on. -/
theorem agrees_stay (want : List (Key × UInt8)) (tune : InTune s heard) :
    Agrees (hear heard ((s.on.filter fun k => !wanted want k).map fun k => noteOff k s.stamp))
      (s.on.filter (wanted want)) := by
  intro k
  rw [hear_offs _ _ fun k member => tune.channel k (mem_offs.1 member).1, mem_stay]
  split
  · next off => exact iff_of_false nofun fun stay => (mem_offs.1 off).2 stay.2
  · next stays =>
      rw [tune.agrees k]
      refine (and_iff_left_of_imp fun on => ?_).symm
      exact not_not.1 fun unwanted => stays (mem_offs.2 ⟨on, unwanted⟩)

/-- What sounds after a step: what is wanted. -/
theorem hear_step (tune : InTune s heard) {want : List (Key × UInt8)} (playable : Playable want) (k : Key) :
    hear (hear heard ((s.on.filter fun k => !wanted want k).map fun k => noteOff k s.stamp))
        (turnOn s.stamp want (s.on.filter (wanted want))).1 k =
      if k ∈ want.map Prod.fst then (if k ∈ s.on then heard k else some s.stamp) else none := by
  have channels : ∀ k ∈ s.on.filter (fun k => !wanted want k), k.1 < 16 := fun k member =>
    tune.channel k (mem_offs.1 member).1
  obtain ⟨_, _, final⟩ := hear_turnOn s.stamp want _ _ playable (agrees_stay want tune)
  rw [final k, hear_offs _ _ channels]
  simp only [mem_stay, mem_offs]
  by_cases want' : k ∈ want.map Prod.fst
  · by_cases on : k ∈ s.on <;> simp [want', on]
  · have silent : k ∉ s.on → heard k = none := fun absent =>
      Option.not_isSome_iff_eq_none.1 fun sounding => absent ((tune.agrees k).1 sounding)
    by_cases on : k ∈ s.on
    · simp [want', on]
    · simp [want', on, silent on]

/-- The step at the next boundary. -/
theorem turned_step (tune : InTune s heard) (running : s.running = true) (song : Song) (play : Playback)
    (suppress : List Key) :
    Turned s heard
      { moment := .step song play suppress s.nextStep
        emitted := (s.scheduleStep s.nextStep song play suppress).2 }
      { (s.scheduleStep s.nextStep song play suppress).1 with nextStep := s.nextStep + 1 } := by
  let W := want song play suppress s.nextStep
  let clock : List Emit := (List.range pulsesPerStep).map fun k =>
    { data := [0xF8], time := toU64 (max (s.stepInstant s.nextStep + k * s.stepUs / pulsesPerStep) 0) }
  let offs := (s.on.filter fun k => !wanted W k).map fun k => noteOff k s.stamp
  let ons := turnOn s.stamp W (s.on.filter (wanted W))
  have emitted : (s.scheduleStep s.nextStep song play suppress).2 = clock ++ offs ++ ons.1 := rfl
  have ticks : ∀ e ∈ clock, e.note = none := fun e member => by
    obtain ⟨_, _, rfl⟩ := List.mem_map.1 member
    rfl
  have released : ∀ e ∈ offs, ∃ k ∈ s.on, e.note = some (.off k) ∧ e.time = s.stamp := by
    intro e member
    obtain ⟨k, off, rfl⟩ := List.mem_map.1 member
    exact ⟨k, (mem_offs.1 off).1, note_noteOff (tune.channel k (mem_offs.1 off).1), rfl⟩
  obtain ⟨double, notes, _⟩ := hear_turnOn s.stamp W _ _ playable_want (agrees_stay W tune)
  have heard' : ∀ k, hear heard (clock ++ offs ++ ons.1) k =
      if k ∈ W.map Prod.fst then (if k ∈ s.on then heard k else some s.stamp) else none := by
    intro k
    rw [hear_append, hear_append, hear_silent ticks]
    exact hear_step tune playable_want k
  have silent : ∀ e ∈ clock ++ offs, ∀ k, e.note ≠ some (.on k) := by
    intro e member k on
    rcases List.mem_append.1 member with tick | off
    · exact absurd ((ticks e tick).symm.trans on) nofun
    · obtain ⟨_, _, off', _⟩ := released e off
      exact absurd (off'.symm.trans on) nofun
  rw [emitted]
  refine ⟨?_, ⟨fun k => ?_, fun k member => ?_, fun k t sounds => ?_, fun resting => ?_, tune.tempo⟩,
    fun e member k on => ?_, fun k t sounds => ?_, fun k release => ?_, fun e member note => ?_⟩
  · refine NoDouble.append (.of_silent silent) ?_
    rw [hear_append, hear_silent ticks]
    exact double
  · rw [heard' k]
    change _ ↔ k ∈ ons.2
    rw [mem_turnOn, mem_stay]
    by_cases wants : k ∈ W.map Prod.fst
    · by_cases on : k ∈ s.on
      · simp [wants, on, (tune.agrees k).2 on]
      · simp [wants, on]
    · simp [wants]
  · rcases (mem_turnOn W _).1 member with stay | wants
    · exact tune.channel k (mem_stay.1 stay).1
    · obtain ⟨w, listed, rfl⟩ := List.mem_map.1 wants
      exact (playable_want w listed).1
  · refine le_trans ?_ (stamp_next tune.tempo ons.2)
    rw [heard' k] at sounds
    split at sounds
    · split at sounds
      · exact tune.past k t sounds
      · exact (Option.some.inj sounds).ge
    · cases sounds
  · exact absurd (running.symm.trans resting) nofun
  · rcases List.mem_append.1 member with early | late
    · exact absurd on (silent e early k)
    · obtain ⟨time, k', on', absent, wants⟩ := notes e late
      cases on'.symm.trans on
      have off : k ∉ s.on := fun held => absent (mem_stay.2 ⟨held, wants⟩)
      rw [heard' k, if_pos wants, if_neg off, time]
  · have on := (tune.agrees k).1 (by rw [sounds]; rfl)
    by_cases wants : k ∈ W.map Prod.fst
    · refine .inl ?_
      rw [heard' k, if_pos wants, if_pos on, sounds]
    · refine .inr ⟨noteOff k s.stamp, ?_, note_noteOff (tune.channel k on), tune.past k t sounds⟩
      exact List.mem_append_left _ (List.mem_append_right _
        (List.mem_map.2 ⟨k, mem_offs.2 ⟨on, wants⟩, rfl⟩))
  · rw [heard' k, if_neg fun wants => release (keys_want.1 wants)]
  · rcases List.mem_append.1 member with early | late
    · rcases List.mem_append.1 early with tick | off
      · exact absurd (ticks e tick) note
      · exact (released e off).choose_spec.2.2
    · exact (notes e late).1

/-! ## A run -/

/-- Everything that stages emit. -/
def emittedBy (log : List Stage) : List Emit := log.flatMap Stage.emitted

/-- Stages follow one another, each of them turning the scheduler as `R` says. -/
inductive Chain (R : Scheduler → Stage → Scheduler → Prop) : Scheduler → List Stage → Scheduler → Prop
  | nil (s : Scheduler) : Chain R s [] s
  | cons {s s' s'' : Scheduler} {stage : Stage} {log : List Stage} (turned : R s stage s')
      (rest : Chain R s' log s'') : Chain R s (stage :: log) s''

theorem Chain.append {R : Scheduler → Stage → Scheduler → Prop} {s s' s'' : Scheduler}
    {log more : List Stage} (chain : Chain R s log s') (rest : Chain R s' more s'') :
    Chain R s (log ++ more) s'' := by
  induction chain with
  | nil => exact rest
  | cons turned _ ih => exact .cons turned (ih rest)

/-- `start` is called as `first` says. -/
def Starts (first : Scheduler → Nat → Prop) (s : Scheduler) : Call → Prop
  | .start now => first s now
  | _ => True

/-- On a stopped transport. -/
def Rested (s : Scheduler) (_now : Nat) : Prop := s.running = false

/-- And not before the releases of the last stop are due. -/
def Timely (s : Scheduler) (now : Nat) : Prop := s.running = false ∧ s.stamp ≤ toU64 now

/-- What a stage does to every listener in tune with the scheduler. -/
def Turns (s : Scheduler) (stage : Stage) (s' : Scheduler) : Prop :=
  ∀ heard, InTune s heard → Turned s heard stage s'

/-- And it does not set the next boundary back. -/
def TurnsOn (s : Scheduler) (stage : Stage) (s' : Scheduler) : Prop :=
  Turns s stage s' ∧ (0 ≤ s.stepUs → s.stamp ≤ s'.stamp)

/-- Every step of a pump turns the scheduler on. -/
theorem pumpLoop_chain (song : Song) (play : Playback) (suppress : List Key) (horizon : ℚ) :
    ∀ (budget : Nat) {s : Scheduler}, s.running = true →
      Chain TurnsOn s (pumpLoop song play suppress horizon budget s).2
        (pumpLoop song play suppress horizon budget s).1
  | 0, s, _ => .nil s
  | budget + 1, s, running => by
    unfold pumpLoop
    split
    · exact .cons ⟨fun heard tune => turned_step tune running song play suppress,
        fun tempo => stamp_next tempo _⟩ (pumpLoop_chain song play suppress horizon budget running)
    · exact .nil s

theorem stamp_start (now : Nat) : (s.start now).1.stamp = toU64 now := by
  have here : ((s.start now).1.stepInstant (s.start now).1.nextStep) = now := by
    change (now : ℚ) + ((0 : Int) : ℚ) * s.stepUs = now
    rw [Int.cast_zero, zero_mul, add_zero]
  rw [stamp, here, max_eq_left (Nat.cast_nonneg now)]

theorem stamp_stop : s.stop.1.stamp = s.stamp := by
  unfold stop
  split <;> rfl

/-- A call whose start is on a stopped transport is a chain of turns; where it is timely,
no boundary is set back. -/
theorem call_chain {R : Scheduler → Stage → Scheduler → Prop}
    (weaker : ∀ {s stage s'}, TurnsOn s stage s' → R s stage s')
    {first : Scheduler → Nat → Prop} (starts : ∀ s now, first s now →
      R s { moment := .started, emitted := (s.start now).2 } (s.start now).1)
    {c : Call} (started : Starts first s c) : Chain R s (s.call c).2 (s.call c).1 := by
  have mono : ∀ {s s' log}, Chain TurnsOn s log s' → Chain R s log s' := fun chain => by
    induction chain with
    | nil s => exact .nil s
    | cons turned _ ih => exact .cons (weaker turned) ih
  cases c with
  | start now => exact .cons (starts s now started) (.nil _)
  | pump now song play suppress =>
    cases running : s.running with
    | false =>
      have idle : s.call (.pump now song play suppress) = (s, []) := by
        simp only [call, pump, running, Bool.false_eq_true, if_false]
      rw [idle]
      exact .nil s
    | true =>
      have goes : s.call (.pump now song play suppress) =
          pumpLoop song play suppress (now + lookaheadUs) maxStepsPerPump s := by
        simp only [call, pump, running, if_true]
      rw [goes]
      exact mono (pumpLoop_chain song play suppress _ _ running)
  | setBpm bpm =>
    exact .cons (weaker ⟨fun heard tune => turned_setBpm tune bpm, fun _ => (stamp_setBpm bpm).ge⟩) (.nil _)
  | stop => exact .cons (weaker ⟨fun heard tune => turned_stop tune, fun _ => stamp_stop.ge⟩) (.nil _)

theorem run_chain {R : Scheduler → Stage → Scheduler → Prop}
    (weaker : ∀ {s stage s'}, TurnsOn s stage s' → R s stage s')
    {first : Scheduler → Nat → Prop} (starts : ∀ s now, first s now →
      R s { moment := .started, emitted := (s.start now).2 } (s.start now).1) :
    ∀ {calls : List Call} {s : Scheduler}, Along (fun s c => (call s c).1) (Starts first) s calls →
      Chain R s (s.run calls).2 (s.run calls).1
  | [], s, _ => .nil s
  | _ :: _, _, started => (call_chain weaker starts started.1).append (run_chain weaker starts started.2)

theorem emittedBy_cons (stage : Stage) (log : List Stage) :
    emittedBy (stage :: log) = stage.emitted ++ emittedBy log := List.flatMap_cons

section Chains

variable {s' : Scheduler} {log post : List Stage} {last : Stage} {k : Key} {t : Nat}

/-- The scheduler stays in tune. -/
theorem Chain.tune (chain : Chain Turns s log s') (tune : InTune s heard) :
    InTune s' (hear heard (emittedBy log)) := by
  induction chain generalizing heard with
  | nil => exact tune
  | cons turned _ ih =>
    rw [emittedBy_cons, hear_append]
    exact ih (turned heard tune).tune

/-- No key is turned on twice. -/
theorem Chain.noDouble (chain : Chain Turns s log s') (tune : InTune s heard) :
    NoDouble heard (emittedBy log) := by
  induction chain generalizing heard with
  | nil => exact .of_silent nofun
  | cons turned _ ih =>
    have stage := turned heard tune
    rw [emittedBy_cons]
    exact stage.double.append (ih stage.tune)

/-- A key that sounds is turned off, no earlier than it was turned on, by the time that
nothing holds it. -/
theorem Chain.released : ∀ {mid : List Stage} {s : Scheduler} {heard : Heard},
    Chain Turns s (mid ++ last :: post) s' → InTune s heard → heard k = some t → last.moment.Releases k →
      ∃ e ∈ emittedBy (mid ++ [last]), e.note = some (.off k) ∧ t ≤ e.time
  | [], s, heard, .cons turned _, tune, sounds, release => by
    have stage := turned heard tune
    rcases stage.kept k t sounds with still | ⟨e, member, off⟩
    · exact absurd (still.symm.trans (stage.quiet k release)) nofun
    · exact ⟨e, List.mem_append_left _ member, off⟩
  | stage :: mid, s, heard, .cons turned rest, tune, sounds, release => by
    have first := turned heard tune
    rw [List.cons_append, emittedBy_cons]
    rcases first.kept k t sounds with still | ⟨e, member, off⟩
    · obtain ⟨e, member, off⟩ := Chain.released rest first.tune still release
      exact ⟨e, List.mem_append_right _ member, off⟩
    · exact ⟨e, List.mem_append_left _ member, off⟩

/-- A note-on is answered by the time that nothing holds its key. -/
theorem Chain.answered {stage : Stage} {mid : List Stage} {e : Emit} (member : e ∈ stage.emitted)
    (on : e.note = some (.on k)) (release : last.moment.Releases k) :
    ∀ {pre : List Stage} {s : Scheduler} {heard : Heard},
      Chain Turns s (pre ++ stage :: (mid ++ last :: post)) s' → InTune s heard →
      ∃ e' ∈ emittedBy (mid ++ [last]), e'.note = some (.off k) ∧ e.time ≤ e'.time
  | [], s, heard, .cons turned rest, tune => by
    have first := turned heard tune
    exact rest.released first.tune (first.stays e member k on) release
  | _ :: pre, s, heard, .cons turned rest, tune => answered member on release rest (turned heard tune).tune

/-- Once nothing holds a key it is silent. -/
theorem Chain.silent (release : last.moment.Releases k) :
    ∀ {pre : List Stage} {s : Scheduler} {heard : Heard}, Chain Turns s (pre ++ last :: post) s' →
      InTune s heard → hear heard (emittedBy (pre ++ [last])) k = none
  | [], s, heard, .cons turned _, tune => by
    rw [List.nil_append, emittedBy_cons, hear_append]
    exact (turned heard tune).quiet k release
  | stage :: pre, s, heard, .cons turned rest, tune => by
    rw [List.cons_append, emittedBy_cons, hear_append]
    exact silent release rest (turned heard tune).tune

/-- The notes go out in the order of their instants. -/
theorem Chain.sorted (chain : Chain TurnsOn s log s') (tune : InTune s heard) :
    (∀ e ∈ emittedBy log, e.note.isSome = true → s.stamp ≤ e.time) ∧
      ((emittedBy log).filter fun e => e.note.isSome).Pairwise fun e e' => e.time ≤ e'.time := by
  induction chain generalizing heard with
  | nil => exact ⟨nofun, .nil⟩
  | cons turned _ ih =>
    next s s₁ s₂ stage log' _ =>
    have first := turned.1 heard tune
    obtain ⟨bound, sorted⟩ := ih first.tune
    have timed : ∀ e ∈ stage.emitted, e.note.isSome = true → e.time = s.stamp := fun e member note =>
      first.timed e member (Option.isSome_iff_ne_none.1 note)
    have later : ∀ e ∈ emittedBy log', e.note.isSome = true → s.stamp ≤ e.time := fun e member note =>
      (turned.2 tune.tempo).trans (bound e member note)
    rw [emittedBy_cons, List.filter_append, List.pairwise_append]
    refine ⟨fun e member note => ?_, ?_, sorted, fun e early e' late => ?_⟩
    · rcases List.mem_append.1 member with here | there
      · exact (timed e here note).ge
      · exact later e there note
    · refine List.pairwise_of_forall_mem_list fun e member e' member' => ?_
      obtain ⟨here, note⟩ := List.mem_filter.1 member
      obtain ⟨here', note'⟩ := List.mem_filter.1 member'
      exact ((timed e here note).trans (timed e' here' note').symm).le
    · obtain ⟨here, note⟩ := List.mem_filter.1 early
      obtain ⟨there, note'⟩ := List.mem_filter.1 late
      exact (timed e here note).le.trans (later e' there note')

end Chains

/-- Nothing sounds. -/
def silence : Heard := fun _ => none

theorem inTune_new (bpm : ℚ) : InTune (new bpm) silence :=
  ⟨fun _ => iff_of_false nofun nofun, nofun, nofun, fun _ => rfl, stepMicros_nonneg bpm⟩

/-- **Note balance.**  Where `start` is called on a stopped transport only: no key is
turned on while it sounds; what sounds is what the scheduler remembers; a note-on is
answered by a note-off no earlier than it by the time that a step is pumped on which no
note covers its key, or `stop` is called, and from then on the key is silent; and where
no start comes before the releases of the last stop are due, the notes go out in the
order of their instants. -/
theorem run_balanced (bpm : ℚ) {calls : List Call}
    (rested : Along (fun s c => (call s c).1) (Starts Rested) (new bpm) calls) :
    NoDouble silence (emittedBy ((new bpm).run calls).2) ∧
    (∀ k, (hear silence (emittedBy ((new bpm).run calls).2) k).isSome = true ↔
      k ∈ ((new bpm).run calls).1.on) ∧
    (∀ pre stage mid last post, ((new bpm).run calls).2 = pre ++ stage :: (mid ++ last :: post) →
      ∀ e ∈ stage.emitted, ∀ k, e.note = some (.on k) → last.moment.Releases k →
        ∃ e' ∈ emittedBy (mid ++ [last]), e'.note = some (.off k) ∧ e.time ≤ e'.time) ∧
    (∀ pre last post, ((new bpm).run calls).2 = pre ++ last :: post → ∀ k, last.moment.Releases k →
      hear silence (emittedBy (pre ++ [last])) k = none) ∧
    (Along (fun s c => (call s c).1) (Starts Timely) (new bpm) calls →
      ((emittedBy ((new bpm).run calls).2).filter fun e => e.note.isSome).Pairwise
        fun e e' => e.time ≤ e'.time) := by
  have chain : Chain Turns (new bpm) ((new bpm).run calls).2 ((new bpm).run calls).1 :=
    run_chain And.left (fun s now resting heard tune => turned_start tune resting now) rested
  have tune := inTune_new bpm
  refine ⟨chain.noDouble tune, (chain.tune tune).agrees, fun pre stage mid last post split e member k on release => ?_,
    fun pre last post split k release => ?_, fun timely => ?_⟩
  · rw [split] at chain
    exact Chain.answered member on release chain tune
  · rw [split] at chain
    exact Chain.silent release chain tune
  · refine (Chain.sorted (run_chain id (fun s now first => ?_) timely) tune).2
    exact ⟨fun heard tune => turned_start tune first.1 now, fun _ => first.2.trans_eq (stamp_start now).symm⟩

section Poles

/-- One bar of one step, with a note on it. -/
def drone : Song where
  tracks := [{ channel := 0, muted := false }]
  patterns := [{ steps := 1, notes := [[{ step := 0, pitch := 60, len := 1, vel := 100 }]] }]
  chain := []

/-- A bar of four steps, with a note on the first. -/
def bar : Song where
  tracks := [{ channel := 0, muted := false }]
  patterns := [{ steps := 4, notes := [[{ step := 0, pitch := 60, len := 1, vel := 100 }]] }]
  chain := []

/-- The bar played for a while, and stopped. -/
def oneBar : List Call := [.start 0, .pump 0 bar (.pattern 0) [], .pump 90000 bar (.pattern 0) [], .stop]

theorem one_bar : NoDouble silence (emittedBy ((new 120).run oneBar).2) ∧
    hear silence (emittedBy ((new 120).run oneBar).2) (0, 60) = none := by
  have rested : Along (fun s c => (call s c).1) (Starts Rested) (new 120) oneBar :=
    ⟨rfl, trivial, trivial, trivial, trivial⟩
  obtain ⟨double, remembers, _⟩ := run_balanced 120 rested
  have off : (0, 60) ∉ ((new 120).run oneBar).1.on := by decide +kernel
  exact ⟨double, Option.not_isSome_iff_eq_none.1 fun sounds => off ((remembers _).1 sounds)⟩

/-- The drone played over two steps. -/
def droning : List Call := [.start 0, .pump 0 drone (.pattern 0) [], .pump 90000 drone (.pattern 0) []]

/-- The note is one step long and the step after it has been pumped, and it sounds on. -/
theorem held_through :
    Along (fun s c => (call s c).1) (Starts Rested) (new 120) droning ∧
    noteOn (0, 60) 100 0 ∈ emittedBy ((new 120).run droning).2 ∧
    ((new 120).run droning).1.nextStep = 2 ∧
    ∀ e ∈ emittedBy ((new 120).run droning).2, e.note ≠ some (.off (0, 60)) :=
  ⟨⟨rfl, trivial, trivial, trivial⟩, by decide +kernel, by decide +kernel, by decide +kernel⟩

end Poles

end Scheduler

end Wk.Sequence
