/-
# Wk.Provider.Conn -- the request conduit under its lock

What every provider node has: a queue of requests, the requests still owed a reply, and
whether a serve loop is attached.  Each function here is one critical section of the
connection's lock, as the conduit's methods take it; what happens between and outside
of these sections is in `Wk.Provider.Matching` and `Wk.Provider.Handles`.
-/
import Wk.Provider
import Wk.Library.Run

namespace Wk.Provider

open Wk.Library

set_option autoImplicit false

/-- Cap on queued-but-unclaimed requests. -/
def maxQueue : Nat := 1024

/-- What the connection's lock protects. -/
structure Inner where
  /-- Requests issued but not yet claimed by the provider loop. -/
  queue : List (Nat × FsOp)
  /-- Requests still owed a reply, by id; each stands for its caller's slot. -/
  outstanding : List Nat
  nextId : Nat
  /-- Whether a serve loop is attached. -/
  serving : Bool
  /-- Goes up each time a serve loop detaches. -/
  generation : Nat
  deriving DecidableEq, Repr

namespace Inner

/-- A conduit that was never served. -/
def new : Inner := ⟨[], [], 1, false, 0⟩

/-- Issue a request that is owed a reply. -/
def call (g : Inner) (op : FsOp) : Inner × Except FsError Nat :=
  if !g.serving then (g, .error .dead)
  else if maxQueue ≤ g.queue.length then (g, .error .io)
  else
    ({ g with
        queue := g.queue ++ [(g.nextId, op)]
        outstanding := g.nextId :: g.outstanding
        nextId := g.nextId + 1 }, .ok g.nextId)

/-- Issue a request nobody waits for. -/
def cast (g : Inner) (op : FsOp) : Inner :=
  if !g.serving || maxQueue ≤ g.queue.length then g
  else { g with queue := g.queue ++ [(g.nextId, op)], nextId := g.nextId + 1 }

/-- Withdraw a request its caller has given up on. -/
def withdraw (g : Inner) (id : Nat) : Inner :=
  { g with
    outstanding := g.outstanding.erase id
    queue := g.queue.filter fun request => request.1 ≠ id }

/-- Claim the next request. -/
def nextRequest (g : Inner) : Option ((Nat × FsOp) × Inner) :=
  match g.queue with
  | [] => none
  | request :: rest => some (request, { g with queue := rest })

/-- Take the slot of request `id`, if it is still owed a reply. -/
def reply (g : Inner) (id : Nat) : Inner × Bool :=
  ({ g with outstanding := g.outstanding.erase id }, id ∈ g.outstanding)

def beginServing (g : Inner) : Inner := { g with serving := true }

/-- Detach the serve loop; the slots of all calls in flight are still to be failed. -/
def endServing (g : Inner) : Inner × List Nat :=
  ({ g with serving := false, generation := g.generation + 1, queue := [], outstanding := [] },
    g.outstanding)

/-- A call is refused, or it is the last in the queue and owed a reply. -/
theorem call_cases (g : Inner) (op : FsOp) :
    (∃ e, g.call op = (g, .error e) ∧ (e = .dead ∨ e = .io)) ∨
      g.serving = true ∧
        g.call op = ({ g with
          queue := g.queue ++ [(g.nextId, op)]
          outstanding := g.nextId :: g.outstanding
          nextId := g.nextId + 1 }, .ok g.nextId) := by
  unfold call
  split
  · exact .inl ⟨.dead, rfl, .inl rfl⟩
  · next serving =>
      split
      · exact .inl ⟨.io, rfl, .inr rfl⟩
      · exact .inr ⟨by simpa using serving, rfl⟩

/-- A cast is dropped, or it is the last in the queue. -/
theorem cast_cases (g : Inner) (op : FsOp) :
    g.cast op = g ∨
      g.serving = true ∧
        g.cast op = { g with queue := g.queue ++ [(g.nextId, op)], nextId := g.nextId + 1 } := by
  unfold cast
  split
  · exact .inl rfl
  · next admitted =>
      simp only [Bool.or_eq_true, Bool.not_eq_true', not_or, Bool.not_eq_false] at admitted
      exact .inr ⟨admitted.1, rfl⟩

/-- Room in the queue is all that a call needs of a serve loop. -/
theorem call_of_room {g : Inner} (op : FsOp) (serving : g.serving = true)
    (room : g.queue.length < maxQueue) :
    g.call op = ({ g with
      queue := g.queue ++ [(g.nextId, op)]
      outstanding := g.nextId :: g.outstanding
      nextId := g.nextId + 1 }, .ok g.nextId) := by
  simp [call, serving, Nat.not_le.2 room]

theorem cast_of_room {g : Inner} (op : FsOp) (serving : g.serving = true)
    (room : g.queue.length < maxQueue) :
    g.cast op = { g with queue := g.queue ++ [(g.nextId, op)], nextId := g.nextId + 1 } := by
  simp [cast, serving, Nat.not_le.2 room]

/-- What holds of every conduit: ids go up and are used once, and a conduit that is not
served is empty. -/
structure Orderly (g : Inner) : Prop where
  idle : g.serving = false → g.queue = [] ∧ g.outstanding = []
  queued : ∀ {request}, request ∈ g.queue → request.1 < g.nextId
  distinct : (g.queue.map Prod.fst).Nodup
  owed : ∀ {id}, id ∈ g.outstanding → id < g.nextId
  once : g.outstanding.Nodup

variable {g : Inner}

theorem Orderly.new : Inner.new.Orderly where
  idle _ := ⟨rfl, rfl⟩
  queued member := by cases member
  distinct := List.nodup_nil
  owed member := by cases member
  once := List.nodup_nil

/-- One more request at the end of the queue. -/
theorem Orderly.enqueue (orderly : g.Orderly) (op : FsOp) :
    (∀ {request}, request ∈ g.queue ++ [(g.nextId, op)] → request.1 < g.nextId + 1) ∧
      ((g.queue ++ [(g.nextId, op)]).map Prod.fst).Nodup := by
  refine ⟨fun {request} member => ?_, ?_⟩
  · rcases List.mem_append.1 member with old | new
    · exact (orderly.queued old).trans (Nat.lt_succ_self _)
    · rw [List.mem_singleton.1 new]
      exact Nat.lt_succ_self _
  · rw [List.map_append, List.nodup_append]
    refine ⟨orderly.distinct, by simp, ?_⟩
    rintro a old b new rfl
    obtain ⟨request, member, rfl⟩ := List.mem_map.1 old
    have small := orderly.queued member
    simp only [List.map_cons, List.map_nil, List.mem_singleton] at new
    omega

theorem Orderly.call (orderly : g.Orderly) (op : FsOp) : (g.call op).1.Orderly := by
  rcases g.call_cases op with ⟨e, refused, _⟩ | ⟨serving, accepted⟩
  · rw [refused]
    exact orderly
  · rw [accepted]
    obtain ⟨queued, distinct⟩ := orderly.enqueue op
    refine ⟨fun stopped => absurd (serving.symm.trans stopped) nofun, queued, distinct, ?_, ?_⟩
    · intro id member
      rcases List.mem_cons.1 member with rfl | old
      · exact Nat.lt_succ_self _
      · exact (orderly.owed old).trans (Nat.lt_succ_self _)
    · exact List.nodup_cons.2 ⟨fun member => lt_irrefl _ (orderly.owed member), orderly.once⟩

theorem Orderly.cast (orderly : g.Orderly) (op : FsOp) : (g.cast op).Orderly := by
  rcases g.cast_cases op with dropped | ⟨serving, accepted⟩
  · rw [dropped]
    exact orderly
  · rw [accepted]
    obtain ⟨queued, distinct⟩ := orderly.enqueue op
    refine ⟨fun stopped => absurd (serving.symm.trans stopped) nofun, queued, distinct, ?_,
      orderly.once⟩
    exact fun member => (orderly.owed member).trans (Nat.lt_succ_self _)

/-- Requests taken away. -/
theorem Orderly.fewer {g' : Inner} (orderly : g.Orderly) (serving : g'.serving = g.serving)
    (nextId : g'.nextId = g.nextId) (queue : g'.queue.Sublist g.queue)
    (outstanding : g'.outstanding.Sublist g.outstanding) : g'.Orderly where
  idle stopped := by
    obtain ⟨noQueue, noneOwed⟩ := orderly.idle (serving ▸ stopped)
    rw [noQueue] at queue
    rw [noneOwed] at outstanding
    exact ⟨List.sublist_nil.1 queue, List.sublist_nil.1 outstanding⟩
  queued member := nextId ▸ orderly.queued (queue.subset member)
  distinct := orderly.distinct.sublist (queue.map _)
  owed member := nextId ▸ orderly.owed (outstanding.subset member)
  once := orderly.once.sublist outstanding

theorem Orderly.withdraw (orderly : g.Orderly) (id : Nat) : (g.withdraw id).Orderly :=
  orderly.fewer rfl rfl List.filter_sublist (List.erase_sublist)

theorem Orderly.reply (orderly : g.Orderly) (id : Nat) : (g.reply id).1.Orderly :=
  orderly.fewer rfl rfl (.refl _) (List.erase_sublist)

theorem Orderly.nextRequest {request : Nat × FsOp} {g' : Inner} (orderly : g.Orderly)
    (claimed : g.nextRequest = some (request, g')) : g'.Orderly := by
  unfold Inner.nextRequest at claimed
  split at claimed
  · cases claimed
  · next queue =>
      cases claimed
      exact orderly.fewer rfl rfl (queue ▸ List.sublist_cons_self _ _) (.refl _)

theorem Orderly.beginServing (orderly : g.Orderly) : g.beginServing.Orderly where
  idle stopped := by cases stopped
  queued := orderly.queued
  distinct := orderly.distinct
  owed := orderly.owed
  once := orderly.once

theorem Orderly.endServing (g : Inner) : g.endServing.1.Orderly where
  idle _ := ⟨rfl, rfl⟩
  queued member := by cases member
  distinct := List.nodup_nil
  owed member := by cases member
  once := List.nodup_nil

end Inner

end Wk.Provider
