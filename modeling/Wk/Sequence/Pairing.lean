/-
# Wk.Sequence.Pairing -- reading one part back

The messages of a part come in the order of their ticks, note-offs first.  Where notes of
one pitch do not meet, a note-off therefore always finds its own note-on: `Paired` says
what is open and what is finished after the first messages, and `readPart` what a whole
part yields.
-/
import Wk.Sequence.Smf

namespace Wk.Sequence

set_option autoImplicit false

/-! ## Ticks and steps -/

/-- The last step there is room for. -/
def lastStep : Int := maxPatterns * maxSteps

theorem tickOf_eq {s : Int} (low : 0 ≤ s) (high : s ≤ lastStep) : tickOf s = 24 * s.toNat := by
  have bound : lastStep = 1024 := rfl
  have step : ticksPerStep = 24 := rfl
  unfold tickOf asU32
  rw [step]
  omega

/-- A whole step is read back. -/
theorem stepAt_tick {n : Nat} (small : (n : Int) ≤ lastStep) : stepAt ticksPerQuarter (24 * n) = n := by
  have bound : lastStep = 1024 := rfl
  have exact : Library.nearest 53 (24 * n) = 24 * n := Library.nearest_of_lt (by omega)
  have quarters : ((24 * n : Nat) : ℚ) / ((max ticksPerQuarter 1 : Nat) : ℚ) = ((n : Int) : ℚ) / 2 ^ 2 := by
    have ppq : max ticksPerQuarter 1 = 96 := rfl
    rw [ppq]
    push_cast
    ring
  have fits : |(n : Int)| < 2 ^ 53 := by
    rw [abs_of_nonneg (by omega)]
    omega
  unfold stepAt
  dsimp only
  rw [exact, quarters, Library.nearestRat_exact fits, Int.floor_eq_iff]
  push_cast
  constructor <;> linarith

/-! ## The messages of a note -/

/-- A note lies in the song and among the pitches. -/
structure Laid.Proper (p : Laid) : Prop where
  start : 0 ≤ p.start
  positive : p.start < p.stop
  stop : p.stop ≤ lastStep
  pitch : 0 ≤ p.pitch ∧ p.pitch ≤ 127

def Laid.pressed (channel : UInt8) (p : Laid) : TimedMsg :=
  { tick := tickOf p.start, isOn := true, msg := [0x90 ||| channel, UInt8.ofInt p.pitch, p.vel] }

def Laid.released (channel : UInt8) (p : Laid) : TimedMsg :=
  { tick := tickOf p.stop, isOn := false, msg := [0x80 ||| channel, UInt8.ofInt p.pitch, 0] }

/-- Notes of one pitch do not meet. -/
def Apart (p q : Laid) : Prop := p.pitch = q.pitch → p.stop ≤ q.start ∨ q.stop ≤ p.start

theorem TimedMsg.le_iff {a b : TimedMsg} :
    a.le b = true ↔ a.tick < b.tick ∨ a.tick = b.tick ∧ (a.isOn = true → b.isOn = true) := by
  cases on : a.isOn <;> simp [TimedMsg.le, on]

theorem pressed_ne_released (channel : UInt8) (p q : Laid) : p.pressed channel ≠ q.released channel :=
  fun same => by cases congrArg TimedMsg.isOn same

theorem timed_eq (song : Song) (order : List Nat) (channel : UInt8) (index : Nat) : timed song order channel index =
    (laid song order index).flatMap fun p => [p.pressed channel, p.released channel] := by
  unfold timed laid
  rw [List.flatMap_assoc]
  refine List.flatMap_congr fun e _ => ?_
  cases song.patterns[e.1]? with
  | none => rfl
  | some pattern =>
    dsimp only
    rw [List.flatMap_map]
    rfl

section Marks

variable {channel : UInt8} {p q : Laid}

theorem ofInt_pitch (p : Laid) (proper : p.Proper) : ((UInt8.ofInt p.pitch).toNat : Int) = p.pitch := by
  obtain ⟨low, high⟩ := proper.pitch
  have byte : (UInt8.ofInt p.pitch).toNat = (p.pitch % 2 ^ 8).toNat := by
    simp [UInt8.ofInt]
    omega
  rw [byte]
  omega

theorem pitch_inj (proper : p.Proper) (proper' : q.Proper) (same : UInt8.ofInt p.pitch = UInt8.ofInt q.pitch) :
    p.pitch = q.pitch := by
  rw [← ofInt_pitch p proper, ← ofInt_pitch q proper', same]

theorem pressed_tick (proper : p.Proper) : (p.pressed channel).tick = 24 * p.start.toNat :=
  tickOf_eq proper.start (proper.positive.le.trans proper.stop)

theorem released_tick (proper : p.Proper) : (p.released channel).tick = 24 * p.stop.toNat :=
  tickOf_eq (proper.start.trans proper.positive.le) proper.stop

theorem pressed_eq (proper : p.Proper) (proper' : q.Proper) (same : q.pressed channel = p.pressed channel) :
    q.pitch = p.pitch ∧ q.start = p.start := by
  have tick := congrArg TimedMsg.tick same
  rw [pressed_tick proper, pressed_tick proper'] at tick
  have low := proper.start
  have low' := proper'.start
  refine ⟨pitch_inj proper' proper ?_, by omega⟩
  injection (congrArg TimedMsg.msg same) with _ rest
  injection rest

theorem released_eq (proper : p.Proper) (proper' : q.Proper) (same : q.released channel = p.released channel) :
    q.pitch = p.pitch ∧ q.stop = p.stop := by
  have tick := congrArg TimedMsg.tick same
  rw [released_tick proper, released_tick proper'] at tick
  have low := proper.start.trans proper.positive.le
  have low' := proper'.start.trans proper'.positive.le
  refine ⟨pitch_inj proper' proper ?_, by omega⟩
  injection (congrArg TimedMsg.msg same) with _ rest
  injection rest

end Marks

/-! ## One message -/

/-- The note as it is kept while it is open. -/
def Laid.opening (track : Nat) (p : Laid) : Opening :=
  { track, pitch := UInt8.ofInt p.pitch, start := p.start, vel := p.vel }

/-- The note as it is kept when it is finished. -/
def Laid.imported (track : Nat) (p : Laid) : Imported :=
  { track, start := p.start, pitch := p.pitch, len := p.stop - p.start, vel := p.vel }

theorem status_on : ∀ c : UInt8, c < 16 → (0x90 ||| c) &&& 0xF0 = 0x90 ∧ (0x90 ||| c) &&& 0x0F = c := by
  decide +kernel

theorem status_off : ∀ c : UInt8, c < 16 → (0x80 ||| c) &&& 0xF0 = 0x80 ∧ (0x80 ||| c) &&& 0x0F = c := by
  decide +kernel

theorem pos_of_ne_zero : ∀ v : UInt8, v ≠ 0 → 0 < v := by decide +kernel

section Messages

variable {channel : UInt8} {p q : Laid} {st : Import} {track : Nat} {cs : List UInt8}

/-- A note-on closes what is open at its pitch, and opens its own note if it has a velocity. -/
theorem message_pressed (range : channel < 16) (proper : p.Proper)
    (known : trackFor st.channels channel = some (track, cs)) :
    message ticksPerQuarter (p.pressed channel).tick st (p.pressed channel).msg =
      let closed := close { st with channels := cs } track (UInt8.ofInt p.pitch) p.start
      if p.vel = 0 then closed else { closed with opened := closed.opened ++ [p.opening track] } := by
  have step : stepAt ticksPerQuarter (24 * p.start.toNat) = p.start := by
    have low := proper.start
    have high := proper.stop
    have less := proper.positive
    rw [stepAt_tick (by omega)]
    omega
  rw [pressed_tick proper]
  unfold message Laid.pressed
  dsimp only
  rw [(status_on channel range).1, (status_on channel range).2, known]
  dsimp only
  rw [step]
  by_cases silent : p.vel = 0
  · rw [if_pos (.inr (.inr ⟨rfl, silent⟩)), if_pos silent, if_neg]
    rw [silent]
    decide
  · have loud := pos_of_ne_zero p.vel silent
    rw [if_pos (.inl ⟨rfl, loud⟩), if_neg silent, if_pos ⟨rfl, loud⟩]
    rfl

/-- A note-off closes what is open at its pitch. -/
theorem message_released (range : channel < 16) (proper : p.Proper)
    (known : trackFor st.channels channel = some (track, cs)) :
    message ticksPerQuarter (p.released channel).tick st (p.released channel).msg =
      close { st with channels := cs } track (UInt8.ofInt p.pitch) p.stop := by
  have step : stepAt ticksPerQuarter (24 * p.stop.toNat) = p.stop := by
    have low := proper.start
    have high := proper.stop
    have less := proper.positive
    rw [stepAt_tick (by omega)]
    omega
  rw [released_tick proper]
  unfold message Laid.released
  dsimp only
  rw [(status_off channel range).1, (status_off channel range).2, known]
  dsimp only
  rw [step, if_pos (.inr (.inl rfl)), if_neg]
  rintro ⟨wrong, _⟩
  exact absurd wrong (by decide)

theorem close_idle {pitch : UInt8} {step : Int} (none_open : ∀ o ∈ st.opened, o.pitch ≠ pitch) :
    close st track pitch step = st := by
  have missing : st.opened.find? (Opening.isFor track pitch) = none := by
    rw [List.find?_eq_none]
    intro o member here
    exact none_open o member (by simpa [Opening.isFor] using here : o.track = track ∧ o.pitch = pitch).2
  rw [close, missing]

/-- What is open at the pitch is finished, and the rest stays open. -/
theorem close_open {o : Opening} {step : Int} (alone : st.opened.Pairwise fun a b => a.pitch ≠ b.pitch)
    (member : o ∈ st.opened) : ∃ rest, close st o.track o.pitch step =
      { st with
        opened := rest
        notes := st.notes ++ [{ track := o.track, start := o.start, pitch := o.pitch.toNat
                                len := wrapI32 (max (step - o.start) 1), vel := o.vel }] } ∧
      rest.Sublist st.opened ∧ ∀ q, q ∈ rest ↔ q ∈ st.opened ∧ q ≠ o := by
  have own : Opening.isFor o.track o.pitch o = true := by simp [Opening.isFor]
  obtain ⟨a, before, after, earlier, here, split, erased⟩ := List.exists_of_eraseP member own
  have pitch : a.pitch = o.pitch := (by simpa [Opening.isFor] using here : a.track = o.track ∧ a.pitch = o.pitch).2
  rw [split] at alone member
  obtain ⟨_, later, apart⟩ := List.pairwise_append.1 alone
  have first : a = o := by
    rcases List.mem_append.1 member with early | late
    · exact absurd own (earlier o early)
    · rcases List.mem_cons.1 late with same | behind
      · exact same.symm
      · exact absurd pitch ((List.pairwise_cons.1 later).1 o behind)
  subst first
  have found : st.opened.find? (Opening.isFor a.track a.pitch) = some a := by
    rw [split, List.find?_append, List.find?_eq_none.2 earlier, List.find?_cons, own]
    rfl
  refine ⟨before ++ after, ?_, ?_, fun q => ?_⟩
  · rw [close, found, erased]
  · rw [split]
    exact List.Sublist.append_left (List.sublist_cons_self a after) before
  · rw [split, List.mem_append, List.mem_append, List.mem_cons]
    constructor
    · rintro (early | behind)
      · exact ⟨.inl early, fun same => apart q early a (List.mem_cons_self ..) (congrArg Opening.pitch same)⟩
      · exact ⟨.inr (.inr behind), fun same =>
          (List.pairwise_cons.1 later).1 q behind (congrArg Opening.pitch same.symm)⟩
    · rintro ⟨early | same | behind, other⟩
      · exact .inl early
      · exact absurd same other
      · exact .inr behind

end Messages

/-! ## A part -/

/-- The messages of a part in order: those of notes that do not meet. -/
structure Score (channel : UInt8) (ps : List Laid) (ms : List TimedMsg) : Prop where
  proper : ∀ p ∈ ps, p.Proper
  apart : ps.Pairwise Apart
  sorted : ms.Pairwise fun a b => TimedMsg.le a b = true
  perm : ms.Perm (ps.flatMap fun p => [p.pressed channel, p.released channel])

/-- What is open after the messages `past`, with `left` to come, and what is finished. -/
structure Paired (channel : UInt8) (ps : List Laid) (track : Nat) (finished : List Imported) (past left : List TimedMsg)
    (st : Import) : Prop where
  alone : st.opened.Pairwise fun a b => a.pitch ≠ b.pitch
  opened : ∀ o, o ∈ st.opened ↔ ∃ p ∈ ps, p.vel ≠ 0 ∧ p.pressed channel ∈ past ∧ p.released channel ∈ left ∧
    o = p.opening track
  notes : ∀ n, n ∈ st.notes ↔ n ∈ finished ∨ ∃ p ∈ ps, p.vel ≠ 0 ∧ p.released channel ∈ past ∧ n = p.imported track

section Parts

variable {channel : UInt8} {ps : List Laid} {ms past left : List TimedMsg} {p q : Laid} {m : TimedMsg}
  {track : Nat} {finished : List Imported} {st : Import} {cs : List UInt8}

/-- Two notes of one pitch that meet are one. -/
theorem Score.meet (score : Score channel ps ms) (here : p ∈ ps) (there : q ∈ ps) (pitch : p.pitch = q.pitch)
    (before : p.start < q.stop) (after : q.start < p.stop) : p = q := by
  have symm : Std.Symm Apart := ⟨fun _ _ apart same => (apart same.symm).symm⟩
  by_contra other
  rcases score.apart.forall here there other pitch with below | above
  · omega
  · omega

theorem Score.mem (score : Score channel ps ms) :
    m ∈ ms ↔ ∃ p ∈ ps, m = p.pressed channel ∨ m = p.released channel := by
  simp [score.perm.mem_iff]

theorem Score.nodup (score : Score channel ps ms) : ms.Nodup := by
  refine score.perm.nodup_iff.2 (List.nodup_flatMap.2 ⟨fun p _ => ?_, ?_⟩)
  · simp [Laid.pressed, Laid.released]
  · refine score.apart.imp_of_mem fun {p q} here there apart => ?_
    have tp := score.proper p here
    have tq := score.proper q there
    have less := tp.positive
    have less' := tq.positive
    rw [Function.onFun, List.disjoint_left]
    intro m mine yours
    simp only [List.mem_cons, List.not_mem_nil, or_false] at mine yours
    rcases mine with rfl | rfl
    · rcases yours with same | same
      · obtain ⟨pitch, start⟩ := pressed_eq tq tp same
        rcases apart pitch with below | above <;> omega
      · exact absurd same (pressed_ne_released channel p q)
    · rcases yours with same | same
      · exact absurd same.symm (pressed_ne_released channel q p)
      · obtain ⟨pitch, stop⟩ := released_eq tq tp same
        rcases apart pitch with below | above <;> omega

theorem Score.pressed_inj (score : Score channel ps ms) (here : p ∈ ps) (there : q ∈ ps)
    (same : q.pressed channel = p.pressed channel) : q = p := by
  obtain ⟨pitch, start⟩ := pressed_eq (score.proper p here) (score.proper q there) same
  have less := (score.proper p here).positive
  have less' := (score.proper q there).positive
  exact score.meet there here pitch (by omega) (by omega)

theorem Score.released_inj (score : Score channel ps ms) (here : p ∈ ps) (there : q ∈ ps)
    (same : q.released channel = p.released channel) : q = p := by
  obtain ⟨pitch, stop⟩ := released_eq (score.proper p here) (score.proper q there) same
  have less := (score.proper p here).positive
  have less' := (score.proper q there).positive
  exact score.meet there here pitch (by omega) (by omega)

/-- A note is pressed before it is released. -/
theorem Score.pressed_first (score : Score channel ps (past ++ p.pressed channel :: left)) (here : p ∈ ps) :
    p.released channel ∈ left := by
  have tp := score.proper p here
  have less := tp.positive
  have low := tp.start
  rcases List.mem_append.1 (score.mem.2 ⟨p, here, .inr rfl⟩) with early | late
  · have order := (List.pairwise_append.1 score.sorted).2.2 _ early _ (List.mem_cons_self ..)
    rw [TimedMsg.le_iff, released_tick tp, pressed_tick tp] at order
    omega
  · exact (List.mem_cons.1 late).resolve_left (pressed_ne_released channel p p).symm

theorem Score.released_last (score : Score channel ps (past ++ p.released channel :: left)) (here : p ∈ ps) :
    p.pressed channel ∈ past := by
  have tp := score.proper p here
  have less := tp.positive
  have low := tp.start
  rcases List.mem_append.1 (score.mem.2 ⟨p, here, .inl rfl⟩) with early | late
  · exact early
  · have behind := (List.mem_cons.1 late).resolve_left (pressed_ne_released channel p p)
    have order := (List.pairwise_cons.1 (List.pairwise_append.1 score.sorted).2.1).1 _ behind
    rw [TimedMsg.le_iff, released_tick tp, pressed_tick tp] at order
    omega

theorem Score.fresh (score : Score channel ps (past ++ m :: left)) : m ∉ past ∧ m ∉ left := by
  have nodup := List.nodup_append.1 score.nodup
  exact ⟨fun early => nodup.2.2 m early m (List.mem_cons_self ..) rfl, (List.nodup_cons.1 nodup.2.1).1⟩

/-- A note that is open at a message of another one does not meet it. -/
theorem Score.rival (score : Score channel ps (past ++ m :: left)) (here : p ∈ ps) (there : q ∈ ps)
    (mark : m = p.pressed channel ∨ m = p.released channel) (pitch : q.pitch = p.pitch)
    (open_ : q.pressed channel ∈ past) (later : q.released channel ∈ m :: left) : q = p := by
  have tp := score.proper p here
  have tq := score.proper q there
  have low := tp.start
  have low' := tq.start
  have less := tp.positive
  have less' := tq.positive
  have order := List.pairwise_append.1 score.sorted
  have before : TimedMsg.le (q.pressed channel) m = true := order.2.2 _ open_ m (List.mem_cons_self ..)
  have after : q.released channel = m ∨ TimedMsg.le m (q.released channel) = true :=
    (List.mem_cons.1 later).imp_right fun behind => (List.pairwise_cons.1 order.2.1).1 _ behind
  rcases mark with rfl | rfl
  · rw [TimedMsg.le_iff, pressed_tick tq, pressed_tick tp] at before
    have stops : p.start < q.stop := by
      rcases after with same | after
      · exact absurd same.symm (pressed_ne_released channel p q)
      · rw [TimedMsg.le_iff, pressed_tick tp, released_tick tq] at after
        rcases after with less | ⟨_, wrong⟩
        · omega
        · cases wrong rfl
    exact score.meet there here pitch (by omega) stops
  · have starts : q.start < p.stop := by
      rw [TimedMsg.le_iff, pressed_tick tq, released_tick tp] at before
      rcases before with less | ⟨_, wrong⟩
      · omega
      · cases wrong rfl
    have stops : p.stop ≤ q.stop := by
      rcases after with same | after
      · have tick := congrArg TimedMsg.tick same
        rw [released_tick tp, released_tick tq] at tick
        omega
      · rw [TimedMsg.le_iff, released_tick tp, released_tick tq] at after
        omega
    exact score.meet there here pitch starts (by omega)

/-- A note-on is read. -/
theorem Paired.press (score : Score channel ps (past ++ p.pressed channel :: left)) (here : p ∈ ps)
    (range : channel < 16) (known : trackFor st.channels channel = some (track, st.channels))
    (paired : Paired channel ps track finished past (p.pressed channel :: left) st) :
    Paired channel ps track finished (past ++ [p.pressed channel]) left
      (message ticksPerQuarter (p.pressed channel).tick st (p.pressed channel).msg) := by
  have tp := score.proper p here
  have quiet : ∀ o ∈ st.opened, o.pitch ≠ UInt8.ofInt p.pitch := by
    intro o member same
    obtain ⟨q, there, _, open_, later, rfl⟩ := (paired.opened o).1 member
    have pitch := pitch_inj (score.proper q there) tp same
    rw [score.rival here there (.inl rfl) pitch open_ later] at open_
    exact score.fresh.1 open_
  have come : ∀ q : Laid, q.released channel ∈ p.pressed channel :: left ↔ q.released channel ∈ left := fun q => by
    rw [List.mem_cons, or_iff_right (pressed_ne_released channel p q).symm]
  have gone : ∀ q : Laid, q.released channel ∈ past ++ [p.pressed channel] ↔ q.released channel ∈ past := fun q => by
    rw [List.mem_append, List.mem_singleton, or_iff_left (pressed_ne_released channel p q).symm]
  rw [message_pressed range tp known, close_idle quiet]
  by_cases silent : p.vel = 0
  · rw [if_pos silent]
    refine ⟨paired.alone, fun o => (paired.opened o).trans ?_, fun n => (paired.notes n).trans ?_⟩
    · refine exists_congr fun q => and_congr_right fun there => and_congr_right fun loud => ?_
      have old : q.pressed channel ≠ p.pressed channel := fun same => loud (by
        rw [score.pressed_inj here there same]
        exact silent)
      rw [come, List.mem_append, List.mem_singleton, or_iff_left old]
    · simp only [gone]
  · rw [if_neg silent]
    refine ⟨?_, fun o => ?_, fun n => (paired.notes n).trans ?_⟩
    · rw [List.pairwise_append]
      refine ⟨paired.alone, List.pairwise_singleton _ _, fun o member o' new => ?_⟩
      rw [List.mem_singleton.1 new]
      exact quiet o member
    · rw [List.mem_append, List.mem_singleton, paired.opened]
      constructor
      · rintro (⟨q, there, loud, open_, later, rfl⟩ | rfl)
        · exact ⟨q, there, loud, List.mem_append_left _ open_, (come q).1 later, rfl⟩
        · exact ⟨p, here, silent, List.mem_append_right _ (List.mem_singleton_self _), score.pressed_first here, rfl⟩
      · rintro ⟨q, there, loud, open_, later, rfl⟩
        rcases List.mem_append.1 open_ with old | new
        · exact .inl ⟨q, there, loud, old, (come q).2 later, rfl⟩
        · rw [score.pressed_inj here there (List.mem_singleton.1 new)]
          exact .inr rfl
    · simp only [gone]

theorem imported_of_closed (proper : p.Proper) :
    ({ track := (p.opening track).track, start := (p.opening track).start, pitch := (p.opening track).pitch.toNat
       len := wrapI32 (max (p.stop - (p.opening track).start) 1), vel := (p.opening track).vel } : Imported) =
      p.imported track := by
  have less := proper.positive
  have low := proper.start
  have high := proper.stop
  have bound : lastStep = 1024 := rfl
  have len : wrapI32 (max (p.stop - p.start) 1) = p.stop - p.start := by
    rw [max_eq_left (by omega), wrapI32, Int.bmod_eq_of_le (by omega) (by omega)]
  simp only [Laid.opening, Laid.imported, len, ofInt_pitch p proper]

/-- A note-off is read. -/
theorem Paired.release (score : Score channel ps (past ++ p.released channel :: left)) (here : p ∈ ps)
    (range : channel < 16) (known : trackFor st.channels channel = some (track, st.channels))
    (paired : Paired channel ps track finished past (p.released channel :: left) st) :
    Paired channel ps track finished (past ++ [p.released channel]) left
      (message ticksPerQuarter (p.released channel).tick st (p.released channel).msg) := by
  have tp := score.proper p here
  have before : ∀ q : Laid, q.pressed channel ∈ past ++ [p.released channel] ↔ q.pressed channel ∈ past := fun q => by
    rw [List.mem_append, List.mem_singleton, or_iff_left (pressed_ne_released channel q p)]
  rw [message_released range tp known]
  by_cases silent : p.vel = 0
  · have other : ∀ q ∈ ps, q.vel ≠ 0 → q.released channel ≠ p.released channel := fun q there loud same => loud (by
      rw [score.released_inj here there same]
      exact silent)
    have quiet : ∀ o ∈ st.opened, o.pitch ≠ UInt8.ofInt p.pitch := by
      intro o member same
      obtain ⟨q, there, loud, open_, later, rfl⟩ := (paired.opened o).1 member
      have pitch := pitch_inj (score.proper q there) tp same
      rw [score.rival here there (.inr rfl) pitch open_ later] at loud
      exact loud silent
    rw [close_idle quiet]
    refine ⟨paired.alone, fun o => (paired.opened o).trans ?_, fun n => (paired.notes n).trans ?_⟩
    · refine exists_congr fun q => and_congr_right fun there => and_congr_right fun loud => ?_
      rw [before, List.mem_cons, or_iff_right (other q there loud)]
    · refine or_congr_right (exists_congr fun q => and_congr_right fun there => and_congr_right fun loud => ?_)
      rw [List.mem_append, List.mem_singleton, or_iff_left (other q there loud)]
  · have own : p.opening track ∈ st.opened :=
      (paired.opened _).2 ⟨p, here, silent, score.released_last here, List.mem_cons_self .., rfl⟩
    obtain ⟨rest, closed, sublist, mem_rest⟩ := @close_open st (p.opening track) p.stop paired.alone own
    have result : close st track (UInt8.ofInt p.pitch) p.stop =
        { st with opened := rest, notes := st.notes ++ [p.imported track] } := by
      rw [← imported_of_closed tp]
      exact closed
    rw [result]
    refine ⟨paired.alone.sublist sublist, fun o => ?_, fun n => ?_⟩
    · rw [mem_rest, paired.opened]
      constructor
      · rintro ⟨⟨q, there, loud, open_, later, rfl⟩, other⟩
        refine ⟨q, there, loud, (before q).2 open_, (List.mem_cons.1 later).resolve_left fun same => other ?_, rfl⟩
        rw [score.released_inj here there same]
      · rintro ⟨q, there, loud, open_, later, rfl⟩
        refine ⟨⟨q, there, loud, (before q).1 open_, List.mem_cons_of_mem _ later, rfl⟩, fun same => ?_⟩
        have pitch := pitch_inj (score.proper q there) tp (congrArg Opening.pitch same)
        have one := score.rival here there (.inr rfl) pitch ((before q).1 open_) (List.mem_cons_of_mem _ later)
        rw [one] at later
        exact score.fresh.2 later
    · rw [List.mem_append, List.mem_singleton, paired.notes]
      constructor
      · rintro ((old | ⟨q, there, loud, gone, rfl⟩) | rfl)
        · exact .inl old
        · exact .inr ⟨q, there, loud, List.mem_append_left _ gone, rfl⟩
        · exact .inr ⟨p, here, silent, List.mem_append_right _ (List.mem_singleton_self _), rfl⟩
      · rintro (old | ⟨q, there, loud, gone, rfl⟩)
        · exact .inl (.inl old)
        · rcases List.mem_append.1 gone with early | now
          · exact .inl (.inr ⟨q, there, loud, early, rfl⟩)
          · rw [score.released_inj here there (List.mem_singleton.1 now)]
            exact .inr rfl

theorem close_channels (st : Import) (track : Nat) (pitch : UInt8) (step : Int) :
    (close st track pitch step).channels = st.channels := by
  unfold close
  split <;> rfl

/-- A message is read by the track its channel maps to. -/
theorem message_channels (score : Score channel ps ms) (member : m ∈ ms) (range : channel < 16)
    (known : trackFor st.channels channel = some (track, cs)) :
    (message ticksPerQuarter m.tick st m.msg).channels = cs ∧
      (trackFor cs channel = some (track, cs) →
        message ticksPerQuarter m.tick st m.msg = message ticksPerQuarter m.tick { st with channels := cs } m.msg) := by
  have mapped : trackFor cs channel = some (track, cs) →
      trackFor ({ st with channels := cs } : Import).channels channel = some (track, cs) := id
  obtain ⟨p, here, rfl | rfl⟩ := score.mem.1 member
  · rw [message_pressed range (score.proper p here) known]
    refine ⟨?_, fun again => (message_pressed range (score.proper p here) (mapped again)).symm⟩
    dsimp only
    split <;> exact close_channels ..
  · rw [message_released range (score.proper p here) known]
    exact ⟨close_channels .., fun again => (message_released range (score.proper p here) (mapped again)).symm⟩

/-- Messages one after another. -/
def readMessages (st : Import) (ms : List TimedMsg) : Import :=
  ms.foldl (fun st m => message ticksPerQuarter m.tick st m.msg) st

/-- The rest of a part.  Induction on it: each message is a note's note-on or its note-off. -/
theorem Paired.rest (range : channel < 16) : ∀ {left past : List TimedMsg} {st : Import},
    Score channel ps (past ++ left) → trackFor st.channels channel = some (track, st.channels) →
    Paired channel ps track finished past left st →
    Paired channel ps track finished (past ++ left) [] (readMessages st left) ∧
      (readMessages st left).channels = st.channels
  | [], past, st, _, _, paired => by
    rw [List.append_nil]
    exact ⟨paired, rfl⟩
  | m :: left, past, st, score, known, paired => by
    have member : m ∈ past ++ m :: left := List.mem_append_right _ (List.mem_cons_self ..)
    have channels := (message_channels score member range known).1
    have split : past ++ m :: left = past ++ [m] ++ left := List.append_cons ..
    have stepped : Paired channel ps track finished (past ++ [m]) left (message ticksPerQuarter m.tick st m.msg) := by
      obtain ⟨p, here, rfl | rfl⟩ := score.mem.1 member
      · exact paired.press score here range known
      · exact paired.release score here range known
    rw [split]
    rw [← channels] at known ⊢
    exact stepped.rest range (split ▸ score) known

/-- **A part is read back**: nothing stays open, and what is finished are the notes with a
velocity. -/
theorem readPart (score : Score channel ps ms) (range : channel < 16) (some_note : ms ≠ [])
    (known : trackFor st.channels channel = some (track, cs)) (again : trackFor cs channel = some (track, cs))
    (closed : st.opened = []) :
    (readMessages st ms).channels = cs ∧ (readMessages st ms).opened = [] ∧
      ∀ n, n ∈ (readMessages st ms).notes ↔ n ∈ st.notes ∨ ∃ p ∈ ps, p.vel ≠ 0 ∧ n = p.imported track := by
  have begin_ : Paired channel ps track st.notes [] ms { st with channels := cs } := by
    refine ⟨?_, fun o => ?_, fun n => ?_⟩
    · simp [closed]
    · simp [closed]
    · simp
  obtain ⟨paired, channels⟩ := begin_.rest range score again
  have same : readMessages st ms = readMessages { st with channels := cs } ms := by
    cases ms with
    | nil => exact absurd rfl some_note
    | cons m rest =>
      unfold readMessages
      rw [List.foldl_cons, List.foldl_cons, (message_channels score (List.mem_cons_self ..) range known).2 again]
  rw [same]
  refine ⟨channels, List.eq_nil_iff_forall_not_mem.2 fun o member => ?_, fun n => (paired.notes n).trans ?_⟩
  · obtain ⟨_, _, _, _, left, _⟩ := (paired.opened o).1 member
    cases left
  · refine or_congr_right (exists_congr fun p => and_congr_right fun here => and_congr_right fun _ => ?_)
    exact and_iff_right (score.mem.2 ⟨p, here, .inr rfl⟩)

end Parts

end Wk.Sequence
