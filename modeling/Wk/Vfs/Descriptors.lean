/-
# Wk.Vfs.Descriptors -- the filesystem counts what the guest holds

The reference counts of a filesystem are kept apart from the table of descriptors they
count.  In every session they agree (`Tallied`): a node's count is the number of
descriptors the guest holds onto it.
-/
import Wk.Vfs.HostMoves

namespace Wk.Vfs

open Wk.Library Relation

set_option autoImplicit false

namespace Fs

variable {fs : Fs}

theorem unlink_openFds (p : Nat) (name : String) (id : Nat) :
    (fs.unlink p name id).openFds = fs.openFds := by
  have removed : (fs.removeChild p name).openFds = fs.openFds := by simp [removeChild_eq]
  unfold Fs.unlink
  dsimp only
  split <;> exact removed

theorem HostMove.openFds {drops : Fs → List Nat → Prop} {fs' : Fs} (move : HostMove drops fs fs') :
    fs'.openFds = fs.openFds := by
  cases move with
  | enter leaf isDir free => exact enter_openFds
  | drop entry drop noted => rw [drop.openFds]; simp [removeChild_eq]
  | clear isDir drop noted => rw [drop.openFds]; simp [clearDir]
  | guard id => rfl

theorem closeRef_openFds {id count : Nat} (held : fs.openFds.lookup id = some count) :
    (fs.closeRef id).openFds =
      if count - 1 = 0 then fs.openFds.erase id else fs.openFds.insert id (count - 1) := by
  unfold closeRef
  rw [held]
  dsimp only
  split
  · split
    · exact (dropSubtree_dropped fs.nodes.entries.length
        { fs with openFds := fs.openFds.erase id } id le_rfl).openFds
    · rfl
  · rfl

end Fs

namespace Machine

variable {m : Machine}

/-- How many descriptors the guest holds onto a node. -/
def held (m : Machine) (id : Nat) : Nat := (Table.values m.fds).count (.node id)

/-- The count a table of references should show. -/
def shown (count : Nat) : Option Nat := if count = 0 then none else some count

/-- The counts of the filesystem are those of the descriptors. -/
structure Tallied (m : Machine) : Prop where
  handles : ∀ {fd}, fd ∈ m.fds → fd < m.next
  counts : ∀ id, m.fs.openFds.lookup id = shown (m.held id)

theorem Tallied.boot (fs : Fs) (backing : Backing) (closed : fs.openFds = ∅) :
    (boot fs backing).Tallied where
  handles member := absurd member (AList.notMem_empty _)
  counts id := by
    rw [show (Machine.boot fs backing).fs.openFds = ∅ from closed, AList.lookup_empty]
    rfl

theorem held_pos {id : Nat} : 0 < m.held id ↔ ∃ fd, m.fds.lookup fd = some (.node id) := by
  rw [held, List.count_pos_iff, Table.mem_values]

namespace Tallied

theorem openCount (tallied : m.Tallied) (id : Nat) : m.fs.openCount id = m.held id := by
  rw [Fs.openCount, tallied.counts, shown]
  split
  · next none => simp [none]
  · rfl

theorem held_insert (tallied : m.Tallied) (place : DescPlace) (id : Nat) :
    (Table.values (m.fds.insert m.next place)).count (.node id) =
      m.held id + if place = .node id then 1 else 0 := by
  have fresh : m.next ∉ m.fds := fun member => lt_irrefl _ (tallied.handles member)
  rw [Table.values_insert place fresh, List.count_cons]
  simp [held]

theorem held_erase {fd : Nat} {place : DescPlace} (held : m.fds.lookup fd = some place) (id : Nat) :
    m.held id = (Table.values (m.fds.erase fd)).count (.node id) + if place = .node id then 1 else 0 := by
  rw [Machine.held, (Table.values_erase held).count_eq, List.count_cons]
  simp

/-- Counting a new descriptor keeps the tally. -/
theorem openRef (tallied : m.Tallied) {fs : Fs} {id : Nat} (openFds : fs.openFds = m.fs.openFds)
    (x : Nat) :
    (fs.openRef id).openFds.lookup x =
      shown ((Table.values (m.fds.insert m.next (.node id))).count (.node x)) := by
  have count : fs.openCount id = m.held id := by
    rw [← tallied.openCount]
    simp only [Fs.openCount, openFds]
  simp only [Fs.openRef, count, Table.lookup_insert_eq, tallied.held_insert, openFds]
  by_cases here : x = id
  · subst here
    simp [shown]
  · have other : DescPlace.node id ≠ .node x := fun same => here (DescPlace.node.inj same).symm
    simp only [here, other, if_false, Nat.add_zero]
    exact tallied.counts x

/-- Discounting a closed descriptor keeps the tally. -/
theorem closeRef (tallied : m.Tallied) {fd id : Nat} (place : m.fds.lookup fd = some (.node id))
    (x : Nat) :
    (m.fs.closeRef id).openFds.lookup x =
      shown ((Table.values (m.fds.erase fd)).count (.node x)) := by
  have one := held_erase place id
  have others := held_erase place x
  have count : m.fs.openFds.lookup id = some (m.held id) := by
    rw [tallied.counts, shown, if_neg]
    simp at one
    omega
  simp only [if_true] at one
  rw [Fs.closeRef_openFds count]
  by_cases here : x = id
  · subst here
    split
    · next last =>
        rw [AList.lookup_erase, shown, if_pos]
        omega
    · next more =>
        rw [AList.lookup_insert, shown, if_neg, one]
        · simp
        · omega
  · have other : DescPlace.node id ≠ .node x := fun same => here (DescPlace.node.inj same).symm
    simp only [other, if_false, Nat.add_zero] at others
    rw [← others, ← tallied.counts x]
    split
    · exact AList.lookup_erase_ne here
    · exact AList.lookup_insert_ne here

end Tallied

/-- No operation loses count. -/
theorem step_tallied (env : Env) (op : Op) (tallied : m.Tallied) : (m.step env op).1.Tallied := by
  obtain ⟨effect, handles, next⟩ := m.step_effect env op
  refine ⟨fun member => ?_, ?_⟩
  · rcases handles member with old | new
    · exact (tallied.handles old).trans_le next
    · exact new
  · unfold held
    generalize (m.step env op).1.fs = fs at effect
    generalize (m.step env op).1.fds = fds at effect
    have same : ∀ {fs' : Fs}, fs'.openFds = m.fs.openFds → ∀ id, fs'.openFds.lookup id =
        shown ((Table.values m.fds).count (.node id)) := by
      intro fs' equal id
      rw [equal]
      exact tallied.counts id
    cases effect with
    | keeps => exact same rfl
    | wrote _ bytes data holds => exact same rfl
    | openedRemote _ r =>
      intro id
      rw [tallied.held_insert]
      simpa using tallied.counts id
    | openedRoot => exact tallied.openRef rfl
    | opened place found => exact tallied.openRef rfl
    | truncated place found holds => exact tallied.openRef rfl
    | created place asked absent landing room => exact tallied.openRef Fs.enter_openFds
    | madeDirectory place landing free room => exact same Fs.enter_openFds
    | symlinked place landing free room => exact same Fs.enter_openFds
    | linked oldPlace newPlace found present notDir writable landing free =>
      exact same (by simp [Fs.addChild_eq])
    | renamed oldPlace newPlace leaving entry writable landing =>
      exact same (by simp [Fs.move, Fs.addChild_eq, Fs.removeChild_eq])
    | unlinked place leaving entry writable allowed => exact same (Fs.unlink_openFds ..)
    | closed place => exact tallied.closeRef place
    | closedRemote place =>
      intro id
      have held := Tallied.held_erase place id
      simp only [reduceCtorEq, if_false, Nat.add_zero] at held
      rw [← held]
      exact tallied.counts id

end Machine

end Wk.Vfs
