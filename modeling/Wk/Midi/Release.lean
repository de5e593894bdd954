/-
# Wk.Midi.Release -- no note outlives its wire

A note that a wire has delivered is answered in the destination's inbox, or held by the
wire; cutting or narrowing the wire turns the second into the first.

* `Routes.Holds`: what each call makes of a held note.
* `run_releases`: by the time its wire is cut, a note that took effect before has a
  release after it in the inbox that takes effect no earlier.

Poles: `cut_chord` (a note still down when the wire is cut), `unmatched_notes` (an
all-notes-off ends the wire's memory, and a release is never scheduled).
-/
import Wk.Midi

namespace Wk.Midi

open Wk.Library

set_option autoImplicit false

/-! ## Inboxes -/

section Inboxes

variable {inbox : Inbox} {d on : Delivery} {now n t : Nat} {k : Key}

/-- Where the backlog is not reached, a message goes to the end. -/
theorem Inbox.push_all (room : (inbox.push d).full = false) :
    inbox.full = false ∧ (inbox.push d).all = inbox.all ++ [d] := by
  unfold push at room ⊢
  split at room
  · cases room
  · next short =>
      rw [if_neg short]
      exact ⟨room, (List.append_assoc ..).symm⟩

@[simp] theorem Inbox.receive_all (inbox : Inbox) : inbox.receive.all = inbox.all := by
  unfold receive all
  cases inbox.queue <;> simp

/-- The same of a row of messages, of which an inbox sees its own. -/
theorem deliver_all {ib : Nat} : ∀ (pushes : List (Nat × Event)) {inboxes : Nat → Inbox},
    (deliver now inboxes pushes ib).full = false → (inboxes ib).full = false ∧
      (deliver now inboxes pushes ib).all = (inboxes ib).all ++
        (pushes.filter fun p => p.1 = ib).map fun p => { event := p.2, clock := now }
  | [], _, room => ⟨room, (List.append_nil _).symm⟩
  | p :: pushes, inboxes, room => by
    obtain ⟨room', rest⟩ := deliver_all pushes room
    dsimp only at room' rest
    rw [deliver, List.foldl_cons]
    rw [deliver] at rest
    rw [rest]
    by_cases here : p.1 = ib
    · subst here
      rw [Function.update_self] at room' ⊢
      obtain ⟨room'', pushed⟩ := Inbox.push_all room'
      refine ⟨room'', ?_⟩
      rw [pushed, List.filter_cons_of_pos (by simp), List.map_cons, List.append_assoc]
      rfl
    · rw [Function.update_of_ne (Ne.symm here)] at room' ⊢
      refine ⟨room', ?_⟩
      rw [List.filter_cons_of_neg (by simpa using here)]

/-- A release of the key after position `n` that takes effect no earlier than `t`. -/
def Answered (all : List Delivery) (n : Nat) (k : Key) (t : Nat) : Prop :=
  ∃ (j : Nat) (d : Delivery), n < j ∧ all[j]? = some d ∧ turnsOff k d.event.data = true ∧ t ≤ d.effect

theorem Answered.append {all : List Delivery} (answered : Answered all n k t) (more : List Delivery) :
    Answered (all ++ more) n k t := by
  obtain ⟨j, d, after, there, off, late⟩ := answered
  have bound := (List.getElem?_eq_some_iff.1 there).1
  exact ⟨j, d, after, by rw [List.getElem?_append_left bound, there], off, late⟩

/-- A release among the new messages answers what was there. -/
theorem Answered.of_new {all more : List Delivery} (there : all[n]? = some on) (member : d ∈ more)
    (off : turnsOff k d.event.data = true) (late : t ≤ d.effect) : Answered (all ++ more) n k t := by
  obtain ⟨i, bound, rfl⟩ := List.mem_iff_getElem.1 member
  refine ⟨all.length + i, more[i], ?_, ?_, off, late⟩
  · exact Nat.lt_of_lt_of_le (List.getElem?_eq_some_iff.1 there).1 (Nat.le_add_right ..)
  · rw [List.getElem?_append_right (Nat.le_add_right ..), Nat.add_sub_cancel_left,
      List.getElem?_eq_getElem bound]

end Inboxes

/-! ## Wires -/

namespace Link

variable {link : Link} {msg : Message} {k : Key}

/-- A note-on is remembered. -/
theorem held_of_on (on : turnsOn msg = some k) : k ∈ (link.observe msg).held := by
  unfold turnsOn at on
  split at on
  · next status a b =>
      split at on
      · next sounds =>
          cases on
          simp only [observe, sounds, ne_eq, not_false_eq_true, and_self, if_true]
          exact List.mem_insert_self
      · cases on
  · cases on

/-- What is not released stays. -/
theorem held_of_held (held : k ∈ link.held) (stays : turnsOff k msg = false) :
    k ∈ (link.observe msg).held := by
  unfold observe
  split
  · next status a b =>
      simp only [turnsOff, Bool.or_eq_false_iff, Bool.and_eq_false_iff, decide_eq_false_iff_not] at stays
      obtain ⟨note, controller⟩ := stays
      dsimp only
      split
      · exact List.mem_insert_of_mem held
      · next noOn =>
          split
          · next off =>
              refine List.mem_filter.2 ⟨held, decide_eq_true fun same => ?_⟩
              grind
          · split
            · next cleared =>
                refine List.mem_filter.2 ⟨held, decide_eq_true fun same => ?_⟩
                grind
            · exact held
  · exact held

/-- What a message turns on is all that changes about a wire. -/
theorem observe_held (link : Link) (msg : Message) :
    link.observe msg = { link with held := (link.observe msg).held } := by
  unfold observe
  split
  · dsimp only
    split
    · rfl
    split
    · rfl
    split <;> rfl
  · rfl

/-- A wire carries a channel's notes unless it is set to another. -/
theorem carries_iff (link : Link) (channel : k.1 < 16) :
    link.carries [0x90 ||| k.1, k.2, 1] = true ↔ ∀ want, link.channel = some want → k.1 + 1 = want := by
  obtain ⟨_, same⟩ := status_on channel
  have low : 0x90 ||| k.1 < 0xF0 := (status_of_on _ (status_on channel).1).2
  unfold carries
  split
  · next every => simp [every]
  · next only =>
      rw [only]
      simp [low, same]

theorem turnsOff_noteOff (channel : k.1 < 16) : turnsOff k (noteOff k).data = true := by
  obtain ⟨kind, same⟩ := status_off channel
  simp [turnsOff, noteOff, Event.now, kind, same]

end Link

/-- A message that turns a note on has its channel, and goes where that channel's notes go. -/
theorem carries_of_on {msg : Message} {k : Key} (on : turnsOn msg = some k) (link : Link) :
    k.1 < 16 ∧ link.carries [0x90 ||| k.1, k.2, 1] = link.carries msg := by
  unfold turnsOn at on
  split at on
  · next status a b =>
      split at on
      · next sounds =>
          cases on
          refine ⟨channel_lt status, ?_⟩
          rw [(status_of_on status sounds.1).1]
          rfl
      · cases on
  · cases on

/-! ## A held note, call by call -/

namespace Routes

/-- The wire from `src` to `dst` holds a note that it carries. -/
def Holds (r : Routes) (src dst : NodeId) (ib : Nat) (k : Key) : Prop :=
  ∃ link ∈ r.links src, link.dst = dst ∧ link.inbox = ib ∧ k ∈ link.held ∧
    link.carries [0x90 ||| k.1, k.2, 1] = true

variable {r : Routes} {src dst : NodeId} {ib : Nat} {k : Key} {e : Event}

theorem mem_links_self {link : Link} {links : List Link} (member : link ∈ links) :
    link ∈ (Routes.mk (Function.update r.links src links)).links src := by
  dsimp only
  rwa [Function.update_self]

theorem mem_links_other {link : Link} {s : NodeId} (other : src ≠ s) {links : List Link}
    (member : link ∈ r.links src) : link ∈ (Routes.mk (Function.update r.links s links)).links src := by
  dsimp only
  rwa [Function.update_of_ne other]

theorem connect_holds (holds : r.Holds src dst ib k) (s d : NodeId) (inbox : Nat) :
    (r.connect s d inbox).Holds src dst ib k := by
  obtain ⟨link, member, wire⟩ := holds
  unfold connect
  split
  · exact ⟨link, member, wire⟩
  · refine ⟨link, ?_, wire⟩
    by_cases here : src = s
    · subst here
      exact mem_links_self (List.mem_append_left _ member)
    · exact mem_links_other here member

/-- A message is delivered down a wire that carries it. -/
theorem mem_send {link : Link} (member : link ∈ r.links src) (carried : link.carries e.data = true) :
    (link.inbox, e) ∈ (r.send src e).2 :=
  List.mem_map.2 ⟨link, List.mem_filter.2 ⟨member, carried⟩, rfl⟩

/-- A note turned on is held. -/
theorem send_on (wired : ∃ link ∈ r.links src, link.dst = dst ∧ link.inbox = ib ∧ link.carries e.data = true)
    (on : turnsOn e.data = some k) : (r.send src e).1.Holds src dst ib k := by
  obtain ⟨link, member, ends, into, carried⟩ := wired
  have same := Link.observe_held link e.data
  refine ⟨link.observe e.data, ?_, by rw [same, ends], by rw [same, into], Link.held_of_on on, ?_⟩
  · refine mem_links_self (List.mem_map.2 ⟨link, member, ?_⟩)
    rw [if_pos carried]
  · rw [same]
    exact (carries_of_on on link).2.trans carried

/-- A message leaves a held note on, or releases it at the destination. -/
theorem send_holds (holds : r.Holds src dst ib k) (s : NodeId) (e : Event) :
    (r.send s e).1.Holds src dst ib k ∨
      (s = src ∧ turnsOff k e.data = true ∧ (ib, e) ∈ (r.send s e).2) := by
  obtain ⟨link, member, ends, into, held, carried⟩ := holds
  by_cases here : src = s
  · subst here
    by_cases down : link.carries e.data = true
    · by_cases off : turnsOff k e.data = true
      · exact .inr ⟨rfl, off, into ▸ mem_send member down⟩
      · have same := Link.observe_held link e.data
        refine .inl ⟨link.observe e.data, ?_, by rw [same, ends], by rw [same, into],
          Link.held_of_held held (Bool.not_eq_true _ ▸ off), by rw [same]; exact carried⟩
        refine mem_links_self (List.mem_map.2 ⟨link, member, ?_⟩)
        rw [if_pos down]
    · refine .inl ⟨link, mem_links_self (List.mem_map.2 ⟨link, member, ?_⟩), ends, into, held, carried⟩
      rw [if_neg down]
  · exact .inl ⟨link, mem_links_other here member, ends, into, held, carried⟩

/-- A wire that is cut releases the note. -/
theorem mem_release {link : Link} (into' : link.inbox = ib) (held : k ∈ link.held) :
    (ib, Link.noteOff k) ∈ into link link.release :=
  into' ▸ List.mem_map.2 ⟨_, List.mem_append_left _ (List.mem_map.2 ⟨k, held, rfl⟩), rfl⟩

theorem disconnect_releases (holds : r.Holds src dst ib k) :
    (ib, Link.noteOff k) ∈ (r.disconnect src dst).2 := by
  obtain ⟨link, member, ends, into, held, _⟩ := holds
  exact List.mem_flatMap.2 ⟨link, List.mem_filter.2 ⟨member, decide_eq_true ends⟩, mem_release into held⟩

theorem disconnect_holds (holds : r.Holds src dst ib k) (s d : NodeId) (other : ¬(s = src ∧ d = dst)) :
    (r.disconnect s d).1.Holds src dst ib k := by
  obtain ⟨link, member, wire⟩ := holds
  refine ⟨link, ?_, wire⟩
  by_cases here : src = s
  · subst here
    refine mem_links_self (List.mem_filter.2 ⟨member, decide_eq_true fun same => ?_⟩)
    exact other ⟨rfl, same.symm.trans wire.1⟩
  · exact mem_links_other here member

theorem removeNode_releases (holds : r.Holds src dst ib k) :
    (ib, Link.noteOff k) ∈ (r.removeNode src).2 := by
  obtain ⟨link, member, _, into, held, _⟩ := holds
  exact List.mem_flatMap.2 ⟨link, member, mem_release into held⟩

theorem removeNode_holds (holds : r.Holds src dst ib k) {id : NodeId} (notSrc : id ≠ src)
    (notDst : id ≠ dst) : (r.removeNode id).1.Holds src dst ib k := by
  obtain ⟨link, member, wire⟩ := holds
  refine ⟨link, ?_, wire⟩
  change link ∈ if src = id then [] else _
  rw [if_neg notSrc.symm]
  exact List.mem_filter.2 ⟨member, decide_eq_true fun same => notDst (same.symm.trans wire.1)⟩

/-- A setting that carries no notes of the key's channel. -/
def Narrows (channel : Option UInt8) (k : Key) : Prop :=
  ∃ c, channel = some c ∧ 1 ≤ c ∧ c ≤ 16 ∧ c ≠ k.1 + 1

/-- A narrowed wire releases what it no longer carries. -/
theorem setChannel_releases (holds : r.Holds src dst ib k) (low : k.1 < 16) {channel : Option UInt8}
    (narrows : Narrows channel k) : (ib, Link.noteOff k) ∈ (r.setChannel src dst channel).2 := by
  obtain ⟨link, member, ends, into, held, carried⟩ := holds
  obtain ⟨c, rfl, least, most, other⟩ := narrows
  have kept : (some c).filter (fun c => decide (1 ≤ c) && decide (c ≤ 16)) = some c := by
    rw [Option.filter_some, if_pos (by simp [least, most])]
  refine List.mem_flatMap.2 ⟨link, List.mem_filter.2 ⟨member, decide_eq_true ends⟩, ?_⟩
  have differs : link.channel ≠ some c := fun same =>
    other ((Link.carries_iff _ low).1 carried c same).symm
  rw [kept, Link.setChannel, if_neg differs]
  refine into ▸ List.mem_map.2 ⟨_, List.mem_map.2 ⟨k, List.mem_filter.2 ⟨held, ?_⟩, rfl⟩, rfl⟩
  rw [Bool.not_eq_true', ← Bool.not_eq_true, Link.carries_iff _ low]
  exact fun every => other (every c rfl).symm

theorem setChannel_holds (holds : r.Holds src dst ib k) (low : k.1 < 16) (s d : NodeId)
    (channel : Option UInt8) (other : ¬(s = src ∧ d = dst ∧ Narrows channel k)) :
    (r.setChannel s d channel).1.Holds src dst ib k := by
  obtain ⟨link, member, ends, into, held, carried⟩ := holds
  by_cases here : src = s
  · subst here
    by_cases there : link.dst = d
    · subst there
      have wide : ∀ want, channel.filter (fun c => decide (1 ≤ c) && decide (c ≤ 16)) = some want →
          k.1 + 1 = want := by
        intro want set
        obtain ⟨rfl, range⟩ := Option.filter_eq_some_iff.1 set
        rw [Bool.and_eq_true, decide_eq_true_iff, decide_eq_true_iff] at range
        exact not_not.1 fun differs => other ⟨rfl, ends, want, rfl, range.1, range.2, Ne.symm differs⟩
      refine ⟨(link.setChannel (channel.filter fun c => 1 ≤ c && c ≤ 16)).1, ?_, ?_⟩
      · refine mem_links_self (List.mem_map.2 ⟨link, member, ?_⟩)
        rw [if_pos rfl]
      · unfold Link.setChannel
        split
        · exact ⟨ends, into, held, carried⟩
        · have carries := (Link.carries_iff { link with channel := channel.filter fun c => 1 ≤ c && c ≤ 16 }
            low).2 wide
          exact ⟨ends, into, List.mem_filter.2 ⟨held, carries⟩, carries⟩
    · refine ⟨link, mem_links_self (List.mem_map.2 ⟨link, member, ?_⟩), ends, into, held, carried⟩
      rw [if_neg there]
  · exact ⟨link, mem_links_other here member, ends, into, held, carried⟩

end Routes

/-! ## Runs -/

namespace Patchbay

open Routes (Narrows)

variable {w : Patchbay} {src dst : NodeId} {ib n t : Nat} {k : Key} {on : Delivery} {x : Nat × Op}

/-- A release of the key that the call sends down the wire takes effect no earlier than
`t`, and the wire's destination stays. -/
def Follows (src dst : NodeId) (k : Key) (t : Nat) (x : Nat × Op) : Prop :=
  match x.2 with
  | .send s e => s = src → turnsOff k e.data = true → t ≤ max e.time x.1
  | .setChannel s d channel => s = src → d = dst → Narrows channel k → t ≤ x.1
  | .disconnect s d => s = src → d = dst → t ≤ x.1
  | .removeNode id => (id = src → t ≤ x.1) ∧ (id = dst → id = src)
  | _ => True

/-- The wire is cut, its source removed, or it is narrowed away from the key's channel. -/
def Cuts (src dst : NodeId) (k : Key) : Op → Prop
  | .disconnect s d => s = src ∧ d = dst
  | .removeNode id => id = src
  | .setChannel s d channel => s = src ∧ d = dst ∧ Narrows channel k
  | _ => False

/-- A delivered note is answered, or held by the wire. -/
structure Tracked (w : Patchbay) (src dst : NodeId) (ib n : Nat) (on : Delivery) (k : Key) (t : Nat) :
    Prop where
  there : (w.inboxes ib).all[n]? = some on
  settled : Answered (w.inboxes ib).all n k t ∨ w.routes.Holds src dst ib k

/-- What an inbox without a backlog gets from a call. -/
theorem apply_all {now : Nat} {out : Routes × List (Nat × Event)}
    (room : ((w.apply now out).inboxes ib).full = false) : (w.inboxes ib).full = false ∧
      ((w.apply now out).inboxes ib).all = (w.inboxes ib).all ++
        (out.2.filter fun p => p.1 = ib).map fun p => { event := p.2, clock := now } :=
  deliver_all _ room

/-- A release that a call pushes answers the note. -/
theorem Tracked.answered (tracked : Tracked w src dst ib n on k t) {now : Nat}
    {out : Routes × List (Nat × Event)} (room : ((w.apply now out).inboxes ib).full = false) {e : Event}
    (off : turnsOff k e.data = true) (pushed : (ib, e) ∈ out.2) (late : t ≤ max e.time now) :
    Answered ((w.apply now out).inboxes ib).all n k t := by
  obtain ⟨_, all⟩ := apply_all room
  refine all ▸ .of_new tracked.there (d := { event := e, clock := now }) ?_ off late
  exact List.mem_map.2 ⟨(ib, e), List.mem_filter.2 ⟨pushed, decide_eq_true rfl⟩, rfl⟩

/-- A note is there after a call, answered where the call releases it. -/
theorem Tracked.apply (tracked : Tracked w src dst ib n on k t) {now : Nat}
    {out : Routes × List (Nat × Event)} (room : ((w.apply now out).inboxes ib).full = false)
    (kept : w.routes.Holds src dst ib k → out.1.Holds src dst ib k ∨
      ∃ e, turnsOff k e.data = true ∧ (ib, e) ∈ out.2 ∧ t ≤ max e.time now) :
    Tracked (w.apply now out) src dst ib n on k t := by
  obtain ⟨_, all⟩ := apply_all room
  have bound := (List.getElem?_eq_some_iff.1 tracked.there).1
  refine ⟨by rw [all, List.getElem?_append_left bound, tracked.there], ?_⟩
  rcases tracked.settled with answered | holds
  · exact .inl (all ▸ answered.append _)
  · rcases kept holds with still | ⟨e, off, pushed, late⟩
    · exact .inr still
    · exact .inl (tracked.answered room off pushed late)

/-- Every call keeps track of the note. -/
theorem Tracked.step (tracked : Tracked w src dst ib n on k t) (low : k.1 < 16)
    (follows : Follows src dst k t x) (room : ((w.step x).inboxes ib).full = false) :
    Tracked (w.step x) src dst ib n on k t := by
  obtain ⟨now, op⟩ := x
  have off := Link.turnsOff_noteOff low
  have ready : ∀ {e : Event}, t ≤ now → t ≤ max e.time now := fun late => late.trans (le_max_right ..)
  cases op with
  | connect s d inbox =>
    exact ⟨tracked.there, tracked.settled.imp_right fun holds => Routes.connect_holds holds s d inbox⟩
  | send s e =>
    refine tracked.apply room fun holds => ?_
    rcases Routes.send_holds holds s e with still | ⟨same, released, pushed⟩
    · exact .inl still
    · exact .inr ⟨e, released, pushed, follows same released⟩
  | setChannel s d channel =>
    refine tracked.apply room fun holds => ?_
    by_cases narrows : s = src ∧ d = dst ∧ Narrows channel k
    · obtain ⟨rfl, rfl, narrows⟩ := narrows
      exact .inr ⟨_, off, Routes.setChannel_releases holds low narrows, ready (follows rfl rfl narrows)⟩
    · exact .inl (Routes.setChannel_holds holds low s d channel narrows)
  | disconnect s d =>
    refine tracked.apply room fun holds => ?_
    by_cases same : s = src ∧ d = dst
    · obtain ⟨rfl, rfl⟩ := same
      exact .inr ⟨_, off, Routes.disconnect_releases holds, ready (follows rfl rfl)⟩
    · exact .inl (Routes.disconnect_holds holds s d same)
  | removeNode id =>
    refine tracked.apply room fun holds => ?_
    by_cases same : id = src
    · subst same
      exact .inr ⟨_, off, Routes.removeNode_releases holds, ready (follows.1 rfl)⟩
    · exact .inl (Routes.removeNode_holds holds same fun destination => same (follows.2 destination))
  | receive inbox =>
    have same : ∀ i, (Function.update w.inboxes inbox (w.inboxes inbox).receive i).all = (w.inboxes i).all := by
      intro i
      by_cases here : i = inbox
      · subst here
        rw [Function.update_self, Inbox.receive_all]
      · rw [Function.update_of_ne here]
    exact ⟨(same ib).symm ▸ tracked.there, (same ib).symm ▸ tracked.settled⟩

/-- The backlog is remembered. -/
theorem room_of_step (room : ((w.step x).inboxes ib).full = false) : (w.inboxes ib).full = false := by
  obtain ⟨now, op⟩ := x
  cases op with
  | connect => exact room
  | receive inbox =>
    by_cases here : ib = inbox
    · subst here
      have same : ((w.step (now, .receive ib)).inboxes ib) = (w.inboxes ib).receive := Function.update_self ..
      rw [same] at room
      exact room
    · have same : ((w.step (now, .receive inbox)).inboxes ib) = w.inboxes ib := Function.update_of_ne here ..
      rwa [same] at room
  | _ => exact (apply_all room).1

theorem room_of_run {ops : List (Nat × Op)} : ∀ {w : Patchbay}, ((w.run ops).inboxes ib).full = false →
    (w.inboxes ib).full = false := by
  induction ops with
  | nil => exact id
  | cons x ops ih => exact fun room => room_of_step (ih room)

theorem Tracked.run {ops : List (Nat × Op)} (low : k.1 < 16) : ∀ {w : Patchbay},
    Tracked w src dst ib n on k t → (∀ x ∈ ops, Follows src dst k t x) →
      ((w.run ops).inboxes ib).full = false → Tracked (w.run ops) src dst ib n on k t := by
  induction ops with
  | nil => exact fun tracked _ _ => tracked
  | cons x ops ih =>
    intro w tracked follows room
    exact ih (tracked.step low (follows x List.mem_cons_self) (room_of_run room))
      (fun y member => follows y (List.mem_cons_of_mem _ member)) room

/-- A call that cuts the wire leaves no note held. -/
theorem Tracked.cut (tracked : Tracked w src dst ib n on k t) (low : k.1 < 16)
    (follows : Follows src dst k t x) (cuts : Cuts src dst k x.2)
    (room : ((w.step x).inboxes ib).full = false) : Answered ((w.step x).inboxes ib).all n k t := by
  obtain ⟨now, op⟩ := x
  have released : ∀ {out : Routes × List (Nat × Event)}, ((w.apply now out).inboxes ib).full = false →
      (w.routes.Holds src dst ib k → (ib, Link.noteOff k) ∈ out.2) → t ≤ now →
        Answered ((w.apply now out).inboxes ib).all n k t := by
    intro out room pushed late
    rcases tracked.settled with answered | holds
    · exact (apply_all room).2 ▸ answered.append _
    · exact tracked.answered room (Link.turnsOff_noteOff low) (pushed holds) (late.trans (le_max_right ..))
  cases op with
  | disconnect s d =>
    obtain ⟨rfl, rfl⟩ := cuts
    exact released room (fun holds => Routes.disconnect_releases holds) (follows rfl rfl)
  | removeNode id =>
    obtain rfl := cuts
    exact released room (fun holds => Routes.removeNode_releases holds) (follows.1 rfl)
  | setChannel s d channel =>
    obtain ⟨rfl, rfl, narrows⟩ := cuts
    exact released room (fun holds => Routes.setChannel_releases holds low narrows) (follows rfl rfl narrows)
  | _ => exact cuts.elim

/-- A note-on that goes down a wire is delivered, and held. -/
theorem tracked_of_send {now : Nat} {e : Event}
    (wired : ∃ link ∈ w.routes.links src, link.dst = dst ∧ link.inbox = ib ∧ link.carries e.data = true)
    (on : turnsOn e.data = some k) (room : ((w.step (now, .send src e)).inboxes ib).full = false) :
    ∃ n, (w.inboxes ib).all.length ≤ n ∧
      Tracked (w.step (now, .send src e)) src dst ib n { event := e, clock := now } k t := by
  obtain ⟨_, all⟩ := apply_all room
  obtain ⟨link, member, ends, into, carried⟩ := wired
  have new : ({ event := e, clock := now } : Delivery) ∈
      ((w.routes.send src e).2.filter fun p => p.1 = ib).map fun p => { event := p.2, clock := now } :=
    List.mem_map.2 ⟨(ib, e), List.mem_filter.2 ⟨into ▸ Routes.mem_send member carried, decide_eq_true rfl⟩, rfl⟩
  obtain ⟨i, bound, here⟩ := List.mem_iff_getElem.1 new
  refine ⟨_, Nat.le_add_right _ i, ?_, .inr (Routes.send_on ⟨link, member, ends, into, carried⟩ on)⟩
  change ((w.apply now (w.routes.send src e)).inboxes ib).all[_]? = _
  rw [all, List.getElem?_append_right (Nat.le_add_right ..), Nat.add_sub_cancel_left,
    List.getElem?_eq_getElem bound, here]

/-- Once a wire is cut, its source removed or it is narrowed, each note-on it delivered has
a release after it in the inbox, which takes effect no earlier. -/
theorem run_releases (before mid : List (Nat × Op)) (now : Nat) (e : Event) (cut : Nat × Op)
    (wired : ∃ link ∈ (run {} before).routes.links src,
      link.dst = dst ∧ link.inbox = ib ∧ link.carries e.data = true)
    (on : turnsOn e.data = some k)
    (follows : ∀ x ∈ mid ++ [cut], Follows src dst k (max e.time now) x)
    (cuts : Cuts src dst k cut.2)
    (room : ((run {} (before ++ (now, .send src e) :: mid ++ [cut])).inboxes ib).full = false) :
    ∃ n, ((run {} before).inboxes ib).all.length ≤ n ∧
      ((run {} (before ++ (now, .send src e) :: mid ++ [cut])).inboxes ib).all[n]? =
        some { event := e, clock := now } ∧
      Answered ((run {} (before ++ (now, .send src e) :: mid ++ [cut])).inboxes ib).all n k (max e.time now) := by
  have low := (carries_of_on on { dst, inbox := ib }).1
  have splits : run {} (before ++ (now, .send src e) :: mid ++ [cut]) =
      ((((run {} before).step (now, .send src e)).run mid).step cut) := by
    simp only [run, List.foldl_append, List.foldl_cons, List.foldl_nil]
  rw [splits] at room ⊢
  have room' := room_of_step room
  obtain ⟨n, new, tracked⟩ := tracked_of_send (t := max e.time now) wired on (room_of_run room')
  have through := tracked.run low (fun x member => follows x (List.mem_append_left _ member)) room'
  have last := follows cut (List.mem_append_right _ (List.mem_singleton.2 rfl))
  exact ⟨n, new, (through.step low last room).there, through.cut low last cuts room⟩

/-- Of a chord, the note that is still down is released by the cut. -/
theorem cut_chord :
    ∃ n, 0 ≤ n ∧ ((run {} [(0, .connect 1 2 7), (5, .send 1 (.now [0x90, 60, 100])),
        (6, .send 1 (.now [0x90, 64, 100])), (7, .receive 7), (8, .send 1 (.now [0x80, 64, 0])),
        (9, .disconnect 1 2)]).inboxes 7).all[n]? = some { event := .now [0x90, 60, 100], clock := 5 } ∧
      Answered ((run {} [(0, .connect 1 2 7), (5, .send 1 (.now [0x90, 60, 100])),
        (6, .send 1 (.now [0x90, 64, 100])), (7, .receive 7), (8, .send 1 (.now [0x80, 64, 0])),
        (9, .disconnect 1 2)]).inboxes 7).all n (0, 60) 5 :=
  run_releases [(0, .connect 1 2 7)] [(6, .send 1 (.now [0x90, 64, 100])), (7, .receive 7),
      (8, .send 1 (.now [0x80, 64, 0]))] 5 (.now [0x90, 60, 100]) (9, .disconnect 1 2) (by decide)
    (by decide) (by simp [Follows, turnsOff, Event.now])
    (show Cuts 1 2 (0, 60) (.disconnect 1 2) from ⟨rfl, rfl⟩) (by decide +kernel)

/-- Two notes that no note-off matches: one forgotten at an all-notes-off, and one that is
due after the cut. -/
theorem unmatched_notes :
    (run {} [(0, .connect 1 2 7), (5, .send 1 (.now [0x90, 60, 100])), (6, .send 1 (.now [0xB0, 123, 0])),
        (9, .disconnect 1 2)]).inboxes 7 =
      { queue := [⟨.now [0x90, 60, 100], 5⟩, ⟨.now [0xB0, 123, 0], 6⟩] } ∧
    (run {} [(0, .connect 1 2 7), (5, .send 1 { data := [0x90, 60, 100], time := 1000 }),
        (9, .disconnect 1 2)]).inboxes 7 =
      { queue := [⟨{ data := [0x90, 60, 100], time := 1000 }, 5⟩, ⟨.now [0x80, 60, 0], 9⟩,
        ⟨.now [0xB0, 123, 0], 9⟩] } := by
  decide +kernel

end Patchbay

end Wk.Midi
