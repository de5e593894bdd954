/-
# Wk.Vfs.Fleet -- guests over the same image layers

Several guests run at once, each over its own filesystem; what they share is the bytes
outside: cells, host files and the files of image layers.  A layer file is copied into
the filesystem that changes it first.  So the layers never change, no guest sees another's
changes to a file of its own filesystem, and a guest's file reads as if it had been a
private copy of the layer's bytes from the start: its bytes are those of the layer with
the guest's own deeds done to them, in order.
-/
import Wk.Vfs.OpenFiles

namespace Wk.Vfs

open Wk.Library Wk.Provider Relation

set_option autoImplicit false

/-- Any number of guests and what they share. -/
structure Fleet where
  guests : Nat → Guest
  backing : Backing
  sent : List (NodeId × FsOp)

/-- One guest's turn. -/
structure Act where
  guest : Nat
  op : Op
  env : Env

namespace Fleet

/-- A guest with what is outside of it. -/
def machine (f : Fleet) (g : Nat) : Machine :=
  { toGuest := f.guests g, backing := f.backing, sent := f.sent }

/-- Answer the operation of one guest. -/
def act (f : Fleet) (a : Act) : Fleet :=
  let after := ((f.machine a.guest).step a.env a.op).1
  { guests := Function.update f.guests a.guest after.toGuest
    backing := after.backing
    sent := after.sent }

/-- Answer operations in the order they are asked. -/
def run (f : Fleet) (acts : List Act) : Fleet := acts.foldl act f

/-- Guests over filesystems the host has prepared. -/
def start (setups : Nat → List HostOp) (backing : Backing) : Fleet where
  guests g := (Machine.boot (Fs.hosted (setups g)) backing).toGuest
  backing := backing
  sent := []

/-- What becomes of the bytes of the file `x` of guest `g`: the deeds of that guest's own
operations, in order. -/
def ledger (g x : Nat) : Fleet → List Act → Bytes → Bytes
  | _, [], data => data
  | f, a :: rest, data =>
    ledger g x (f.act a) rest
      (if a.guest = g then amended ((f.machine g).deed a.env a.op) (.node x) data else data)

variable {f : Fleet} {a : Act} {g : Nat}

/-! ## One turn -/

theorem act_self (f : Fleet) (a : Act) :
    (f.act a).machine a.guest = ((f.machine a.guest).step a.env a.op).1 := by
  simp only [machine, act, Function.update_self]

theorem act_other (other : g ≠ a.guest) : (f.act a).guests g = f.guests g := by
  simp only [act, Function.update_of_ne other]

/-- Every filesystem of the fleet has its shape. -/
def Shaped (f : Fleet) : Prop := ∀ g, (f.machine g).fs.Shaped

theorem act_shaped (shaped : f.Shaped) : (f.act a).Shaped := by
  intro g
  by_cases here : g = a.guest
  · subst here
    rw [act_self]
    exact ((f.machine a.guest).step_effect a.env a.op).effect.shaped (shaped a.guest)
  · have same : ((f.act a).machine g).fs = (f.machine g).fs := by
      simp only [machine, act_other here]
    rw [same]
    exact shaped g

theorem start_shaped (setups : Nat → List HostOp) (backing : Backing) :
    (start setups backing).Shaped :=
  fun g => (Fs.hosted_prepared (setups g)).1

/-- No operation changes a layer file. -/
theorem act_layer (shaped : f.Shaped) (i : Nat) :
    (f.act a).backing.layerSeen i = f.backing.layerSeen i :=
  (Machine.step_wrote a.env a.op (shaped a.guest)).layers i

/-- No operation changes a file of another guest's filesystem. -/
theorem act_contents_other {x : Nat} (shaped : f.Shaped) (other : g ≠ a.guest)
    (file : (f.machine g).store x = some (.node x)) :
    ((f.act a).machine g).contents x = (f.machine g).contents x := by
  have same : ((f.act a).machine g).fs = (f.machine g).fs := by
    simp only [machine, act_other other]
  obtain ⟨_, ⟨bytes, found⟩ | ⟨layer, found⟩⟩ := Machine.store_node_iff.1 file
  · simp only [Machine.contents, same, found]
  · have layers : ((f.act a).machine g).backing.layer layer = (f.machine g).backing.layer layer := by
      rw [Backing.layer_eq, Backing.layer_eq]
      exact congrArg (fun seen => (seen.map Prod.snd).getD []) (act_layer shaped layer)
    simp only [Machine.contents, same, found, layers]

theorem store_act_other {x : Nat} (other : g ≠ a.guest) :
    ((f.act a).machine g).store x = (f.machine g).store x := by
  simp only [Machine.store, machine, act_other other]

/-- An operation changes a file of its own filesystem by its deed. -/
theorem act_contents_self {x : Nat} (shaped : f.Shaped)
    (file : (f.machine a.guest).store x = some (.node x))
    (stays : x ∈ ((f.act a).guests a.guest).fs.nodes) :
    ((f.act a).machine a.guest).contents x =
      ((f.machine a.guest).contents x).map
        (amended ((f.machine a.guest).deed a.env a.op) (.node x)) := by
  have wrote := Machine.step_wrote a.env a.op (shaped a.guest)
  have there : x ∈ ((f.machine a.guest).step a.env a.op).1.fs.nodes := by
    rw [← act_self]
    exact stays
  rw [act_self, Machine.contents_eq, Machine.contents_eq, file, wrote.stores file there]
  exact congrArg some (wrote.bytes (s := .node x) ⟨file, there⟩)

/-! ## Whole runs -/

theorem run_shaped {acts : List Act} (shaped : f.Shaped) : (f.run acts).Shaped := by
  induction acts generalizing f with
  | nil => exact shaped
  | cons a rest ih => exact ih (act_shaped shaped)

theorem run_layer {acts : List Act} (shaped : f.Shaped) (i : Nat) :
    (f.run acts).backing.layerSeen i = f.backing.layerSeen i := by
  induction acts generalizing f with
  | nil => rfl
  | cons a rest ih => exact (ih (act_shaped shaped)).trans (act_layer shaped i)

/-- A node there at the end of a run, and not made in it, was there all along. -/
theorem run_old {acts : List Act} {x : Nat} (old : x < (f.machine g).fs.next)
    (there : x ∈ ((f.run acts).machine g).fs.nodes) : x ∈ (f.machine g).fs.nodes := by
  induction acts generalizing f with
  | nil => exact there
  | cons a rest ih =>
    by_cases here : a.guest = g
    · subst here
      have effect := ((f.machine a.guest).step_effect a.env a.op).effect.old
      rw [← act_self] at effect
      exact effect.2 x (ih (old.trans_le effect.1) there) old
    · have same : ((f.act a).machine g).fs = (f.machine g).fs := by
        simp only [machine, act_other fun eq => here eq.symm]
      have later := ih (f := f.act a) (by rw [same]; exact old) there
      rwa [same] at later

/-- A file that lasts holds what its own guest's deeds left. -/
theorem run_contents {acts : List Act} {x : Nat} {data : Bytes} (shaped : f.Shaped)
    (file : (f.machine g).store x = some (.node x)) (holds : (f.machine g).contents x = some data)
    (there : x ∈ ((f.run acts).machine g).fs.nodes) :
    ((f.run acts).machine g).contents x = some (f.ledger g x acts data) := by
  induction acts generalizing f data with
  | nil => exact holds
  | cons a rest ih =>
    have present : x ∈ (f.machine g).fs.nodes := (Machine.store_some file).1
    have old : x < (f.machine g).fs.next := (shaped g).bounded present
    by_cases here : a.guest = g
    · subst here
      have effect := ((f.machine a.guest).step_effect a.env a.op).effect.old
      rw [← act_self] at effect
      have stays : x ∈ ((f.act a).machine a.guest).fs.nodes := run_old (old.trans_le effect.1) there
      have wrote := Machine.step_wrote a.env a.op (shaped a.guest)
      rw [← act_self] at wrote
      refine (ih (act_shaped shaped) (wrote.stores file stays)
        ((act_contents_self shaped file stays).trans (congrArg _ holds)) there).trans ?_
      simp only [ledger, if_true]
    · have other : g ≠ a.guest := fun eq => here eq.symm
      refine (ih (act_shaped shaped) ((store_act_other other).trans file)
        ((act_contents_other shaped other file).trans holds) there).trans ?_
      simp only [ledger, if_neg here]

/-- **Layer files are copied on write.** For any number of guests over filesystems the
host has prepared, with any layers, and in every interleaving of their operations: no
layer file changes; no operation changes what another guest reads from a file of its own
filesystem; and a file that started as a layer file reads as a private copy of it would,
with its own guest's writes, sizes and truncations done to it and no others. -/
theorem layers_copied_on_write (setups : Nat → List HostOp) (backing : Backing) (acts : List Act) :
    (∀ i, ((start setups backing).run acts).backing.layerSeen i = backing.layerSeen i) ∧
    (∀ before a after g x, acts = before ++ a :: after → g ≠ a.guest →
      (((start setups backing).run before).machine g).store x = some (.node x) →
      ∀ fd len offset env,
        (((start setups backing).run before).machine g).fds.lookup fd = some (.node x) →
        (((((start setups backing).run before).act a).machine g).step env (.read fd len offset)).2 =
          ((((start setups backing).run before).machine g).step env (.read fd len offset)).2) ∧
    ∀ g x layer, ((start setups backing).machine g).fs.nodes.lookup x = some (.roFile layer) →
      x ∈ (((start setups backing).run acts).machine g).fs.nodes →
      (((start setups backing).run acts).machine g).contents x =
        some ((start setups backing).ledger g x acts (backing.layer layer)) := by
  have prepared := start_shaped setups backing
  refine ⟨fun i => run_layer prepared i, ?_, ?_⟩
  · rintro before a after g x rfl other file fd len offset env place
    have shaped : ((start setups backing).run before).Shaped := run_shaped prepared
    have kept := act_contents_other shaped other file
    have placed : ((((start setups backing).run before).act a).machine g).fds.lookup fd =
        some (.node x) := by
      rw [← place]
      simp only [machine, act_other other]
    simp only [Machine.step, Machine.read, place, placed, kept]
    rw [Machine.contents_eq, file]
    rfl
  · intro g x layer found there
    exact run_contents prepared (Machine.store_node_iff.2 ⟨rfl, .inr ⟨layer, found⟩⟩)
      (by simp only [Machine.contents, found]; rfl) there

section Poles

/-- Both guests have the layer file as `bin/sh`. -/
def sharedLayer : Nat → List HostOp := fun _ => [.putRoFileAt "bin/sh" 0]

/-- Both open it; the first writes into its middle, the second cuts it. -/
def bothWrite : List Act := [
  ⟨0, .getDirectories, .quiet⟩,
  ⟨1, .getDirectories, .quiet⟩,
  ⟨0, .openAt 0 true "bin/sh" {}, .quiet⟩,
  ⟨1, .openAt 0 true "bin/sh" {}, .quiet⟩,
  ⟨0, .write 1 [7] 1, .quiet⟩,
  ⟨1, .setSize 1 1, .quiet⟩]

theorem layers_copied_on_write_both :
    ((start sharedLayer Machine.threeBytes).run bothWrite).backing.layerSeen 0 = some (3, [1, 2, 3]) ∧
      (((start sharedLayer Machine.threeBytes).run bothWrite).machine 0).contents 2 = some [1, 7, 3] ∧
      (((start sharedLayer Machine.threeBytes).run bothWrite).machine 1).contents 2 = some [1] := by
  have copied := layers_copied_on_write sharedLayer Machine.threeBytes bothWrite
  refine ⟨(copied.1 0).trans (by decide), ?_, ?_⟩
  · exact (copied.2.2 0 2 0 rfl (by decide)).trans (by decide)
  · exact (copied.2.2 1 2 0 rfl (by decide)).trans (by decide)

end Poles

end Fleet

end Wk.Vfs
