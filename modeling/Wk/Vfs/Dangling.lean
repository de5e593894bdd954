/-
# Wk.Vfs.Dangling -- every name leads to a node

A name dangles when a directory keeps an entry for a node that was freed.  Nodes are
freed one by one where a file is unlinked, which looks for other names first, and
subtree by subtree where the last descriptor onto an unnamed directory closes or the
host replaces, removes or clears something, which looks only at the root of the
subtree.  Names are sound exactly as long as each dropped subtree is `Sealed`: no
directory that stays names a node inside.
-/
import Wk.Vfs.HostMoves
import Wk.Library.Run

namespace Wk.Vfs

open Wk.Library Wk.Provider Relation

set_option autoImplicit false

namespace Fs

variable {fs : Fs}

/-- Every entry of every directory names a node that is there. -/
def Sound (fs : Fs) : Prop :=
  ∀ d children, fs.nodes.lookup d = some (.dir children) →
    ∀ name id, children.lookup name = some id → id ∈ fs.nodes

theorem sound_iff : fs.Sound ↔ ∀ d name c, fs.child d name = some c → c ∈ fs.nodes := by
  constructor
  · intro sound d name c entry
    obtain ⟨children, found, entry⟩ := child_some entry
    exact sound d children found name c entry
  · intro sound d children found name c entry
    exact sound d name c ((child_eq found).trans entry)

/-- No directory outside the subtrees of `roots` names a node inside. -/
def Sealed (fs : Fs) (roots : List Nat) : Prop :=
  ∀ d c, fs.Names d c → (∀ r ∈ roots, ¬ fs.Reaches r d) → ∀ r ∈ roots, ¬ fs.Reaches r c

/-- Dropping a sealed subtree leaves no name behind. -/
theorem Sound.dropped {fs' : Fs} {roots : List Nat} (sound : fs.Sound) (apart : fs.Sealed roots)
    (drop : Dropped fs fs' roots) : fs'.Sound := by
  rw [sound_iff] at sound ⊢
  intro d name c entry
  have stays : d ∈ fs'.nodes := Names.mem ⟨name, entry⟩
  have before : fs.child d name = some c := (drop.child_of_mem stays name).symm.trans entry
  exact drop.mem_iff.2 ⟨sound d name c before, apart d c ⟨name, before⟩ (drop.mem_iff.1 stays).2⟩

/-- A node that names nothing and that nothing names is sealed. -/
theorem sealed_leaf {id : Nat} (leaf : ∀ k, fs.child id k = none)
    (unreferenced : fs.nodeIsReferenced id = false) : fs.Sealed [id] := by
  intro d c names _ r member path
  rw [List.mem_singleton.1 member] at path
  have here : id = c := reaches_leaf leaf path
  have referenced := nodeIsReferenced_iff.2 ⟨d, here ▸ names⟩
  rw [unreferenced] at referenced
  cases referenced

/-- A name added for a node that is there, or removed, leaves names sound. -/
theorem Sound.relabel {fs' : Fs} (sound : fs.Sound) (nodes : ∀ {x}, x ∈ fs.nodes → x ∈ fs'.nodes)
    (names : ∀ {d k c}, fs'.child d k = some c → fs.child d k = some c ∨ c ∈ fs'.nodes) :
    fs'.Sound := by
  rw [sound_iff] at sound ⊢
  intro d k c entry
  rcases names entry with before | there
  · exact nodes (sound d k c before)
  · exact there

theorem Sound.setBytes {id : Nat} {bytes : Bytes} (sound : fs.Sound) (holds : fs.HoldsBytes id) :
    (fs.setBytes id bytes).Sound :=
  sound.relabel (fun member => (AList.mem_insert _).2 (.inr member))
    fun entry => .inl ((child_setBytes holds.notDir _ _).symm.trans entry)

theorem Sound.removeChild (sound : fs.Sound) (p : Nat) (name : String) :
    (fs.removeChild p name).Sound := by
  refine sound.relabel (fun member => by simpa [removeChild_eq] using member) fun entry => .inl ?_
  rw [child_removeChild] at entry
  split at entry
  · cases entry
  · exact entry

theorem Sound.addChild {p c : Nat} {name : String} (sound : fs.Sound) (isDir : fs.isDir p = true)
    (present : c ∈ fs.nodes) : (fs.addChild p name c).Sound := by
  refine sound.relabel (fun member => by simpa [addChild_eq] using member) fun entry => ?_
  rw [child_addChild isDir] at entry
  split at entry
  · cases entry
    exact .inr (by simpa [addChild_eq] using present)
  · exact .inl entry

theorem Sound.enter {p : Nat} {name : String} {node : FsNode} (sound : fs.Sound)
    (shaped : fs.Shaped) (leaf : Childless node) (isDir : fs.isDir p = true) :
    (fs.enter p name node).Sound := by
  refine sound.relabel (fun member => mem_enter.2 (.inr member)) fun entry => ?_
  rw [child_enter shaped leaf isDir] at entry
  split at entry
  · cases entry
    exact .inr (mem_enter.2 (.inl rfl))
  · exact .inl entry

/-- Unlinking frees a node only when no entry is left for it. -/
theorem Sound.unlink {p id : Nat} {name : String} (sound : fs.Sound)
    (leaf : ∀ k, fs.child id k = none) : (fs.unlink p name id).Sound := by
  rcases unlink_cases p name leaf with ⟨same, _⟩ | ⟨unreferenced, _, drop⟩
  · rw [same]
    exact sound.removeChild p name
  · refine (sound.removeChild p name).dropped ?_ drop
    exact sealed_leaf (fun k => by rw [child_removeChild, leaf k, ite_self]) unreferenced

/-- No move of the host leaves a name behind if what it drops is sealed. -/
theorem HostMove.sound {drops : Fs → List Nat → Prop} {fs' : Fs} (move : HostMove drops fs fs')
    (seals : ∀ fs roots, drops fs roots → fs.Sealed roots) (shaped : fs.Shaped) (sound : fs.Sound) :
    fs'.Sound := by
  cases move with
  | enter leaf isDir free => exact sound.enter shaped leaf isDir
  | @drop _ p id name entry drop noted =>
    exact (sound.removeChild p name).dropped (seals _ _ noted) drop
  | @clear _ id children isDir drop noted =>
    have cleared : (fs.clearDir id).Sound :=
      sound.relabel (fun member => by simpa [clearDir] using member)
        fun entry => .inl (child_clearDir entry).2
    exact cleared.dropped (seals _ _ noted) drop
  | guard id => exact sound

end Fs

namespace Machine

variable {m : Machine}

/-- The subtrees a turn drops, of the filesystem with the entries for them removed:
that of an unnamed node whose last descriptor closes, and what the host displaces. -/
def drops (m : Machine) : Turn → Option (Fs × List Nat)
  | .guest (.close fd) _ =>
    match m.fds.lookup fd with
    | some (.node id) =>
      if m.fs.openCount id ≤ 1 && id ≠ root && !m.fs.nodeIsReferenced id then some (m.fs, [id])
      else none
    | _ => none
  | .guest .. => none
  | .host op => m.fs.hostDrops op

/-- What a turn drops has no name in a directory that stays. -/
def DropsSealed (m : Machine) (turn : Turn) : Prop :=
  ∀ fs roots, m.drops turn = some (fs, roots) → fs.Sealed roots

theorem close_sound {fd id : Nat} {env : Env} (place : m.fds.lookup fd = some (.node id))
    (sealed : m.DropsSealed (.guest (.close fd) env)) (sound : m.fs.Sound) :
    (m.fs.closeRef id).Sound := by
  rcases Fs.closeRef_cases m.fs id with ⟨nodes, _, _, _⟩ | ⟨few, notRoot, unreferenced, drop⟩
  · intro d children found name c entry
    rw [nodes] at found ⊢
    exact sound d children found name c entry
  · have noted : m.drops (.guest (.close fd) env) = some (m.fs, [id]) := by
      simp [drops, place, few, notRoot, unreferenced]
    have closed : ({ m.fs with openFds := m.fs.openFds.erase id } : Fs).Sound := sound
    have apart : m.fs.Sealed [id] := sealed _ _ noted
    exact closed.dropped apart drop

/-- An operation that drops only a sealed subtree leaves no name behind. -/
theorem effect_sound {op : Op} {env : Env} {fs : Fs} {fds : Table Nat DescPlace}
    (effect : Effect m op fs fds) (sealed : m.DropsSealed (.guest op env)) (shaped : m.fs.Shaped)
    (sound : m.fs.Sound) : fs.Sound := by
  cases effect with
  | keeps => exact sound
  | wrote _ bytes data holds => exact sound.setBytes holds
  | openedRemote => exact sound
  | openedRoot => exact sound
  | opened place found => exact sound
  | truncated place found holds => exact sound.setBytes holds
  | created place asked absent landing room =>
    exact sound.enter shaped (Fs.childless_of_ne (by simp)) (Fs.resolveParent_isDir landing)
  | madeDirectory place landing free room =>
    exact sound.enter shaped Fs.childless_dir (Fs.resolveParent_isDir landing)
  | symlinked place landing free room =>
    exact sound.enter shaped (Fs.childless_of_ne (by simp)) (Fs.resolveParent_isDir landing)
  | linked oldPlace newPlace found present notDir writable landing free =>
    exact sound.addChild (Fs.resolveParent_isDir landing) present
  | @renamed _ _ _ _ oldParent _ id _ _ oldName _ oldPlace newPlace leaving entry writable landing =>
    have there : id ∈ m.fs.nodes := Fs.sound_iff.1 sound _ _ _ entry
    exact (sound.removeChild oldParent oldName).addChild
      (by simpa [Fs.removeChild_eq] using Fs.resolveParent_isDir landing)
      (by simpa [Fs.removeChild_eq] using there)
  | unlinked place leaving entry writable allowed => exact sound.unlink (Fs.removable_leaf allowed)
  | closed place => exact close_sound place sealed sound
  | closedRemote => exact sound

/-- A turn that drops only sealed subtrees leaves no name behind. -/
theorem turn_sound {turn : Turn} (sealed : m.DropsSealed turn) (shaped : m.fs.Shaped)
    (sound : m.fs.Sound) : (m.turn turn).fs.Sound := by
  cases turn with
  | guest op env => exact effect_sound (m.step_effect env op).effect sealed shaped sound
  | host op =>
    have kept : ∀ fs fs', Fs.HostMove (fun fs' roots => m.fs.hostDrops op = some (fs', roots)) fs fs' →
        fs.Shaped ∧ fs.Sound → fs'.Shaped ∧ fs'.Sound :=
      fun _ _ move good => ⟨move.shaped good.1, move.sound sealed good.1 good.2⟩
    exact (reaches_within (Fs.host_moves shaped op) ⟨shaped, sound⟩
      fun fs fs' good move => kept fs fs' move good).2

/-- **Every name leads to a node.** In every session of guest and host from an empty
filesystem in which each dropped subtree is sealed, every entry of every directory
names a node that is there. -/
theorem run_sound {backing : Backing} {turns : List Turn}
    (sealed : Along turn DropsSealed (boot Fs.new backing) turns) :
    ((boot Fs.new backing).run turns).fs.Sound := by
  have start : (boot Fs.new backing).fs.Shaped ∧ (boot Fs.new backing).fs.Sound := by
    refine ⟨.new, Fs.sound_iff.2 ?_⟩
    intro d name c entry
    rw [show (boot Fs.new backing).fs = Fs.new from rfl, Fs.new_child] at entry
    cases entry
  have kept := Along.keeps (Q := fun m : Machine => m.fs.Shaped ∧ m.fs.Sound)
    (fun m t met good => ⟨turn_shaped t good.1, turn_sound met good.1 good.2⟩) sealed start
  exact kept.2

section Poles

/-- A check of `DropsSealed`: what goes is one file without a name. -/
def dropsOneFile (m : Machine) (turn : Turn) : Bool :=
  match m.drops turn with
  | none => true
  | some (fs, [id]) => !fs.isDir id && !fs.nodeIsReferenced id
  | some _ => false

theorem dropsOneFile_sealed (m : Machine) (turn : Turn) (passed : dropsOneFile m turn = true) :
    m.DropsSealed turn := by
  intro fs roots noted
  unfold dropsOneFile at passed
  rw [noted] at passed
  split at passed
  · next none => cases none
  · next same =>
      cases same
      simp only [Bool.and_eq_true, Bool.not_eq_true'] at passed
      exact Fs.sealed_leaf (Fs.child_none passed.1) passed.2
  · cases passed

/-- A scratch file that is unlinked while open and closed, and a file the host puts in
place of another. -/
def scratchFile : List Turn := [
  .guest .getDirectories .quiet,
  .guest (.openAt 0 true "tmp" { create := true }) .quiet,
  .guest (.unlinkFileAt 0 "tmp") .quiet,
  .guest (.close 1) .quiet,
  .host (.putFileAt "etc/motd" [1]),
  .host (.putFileAt "etc/motd" [2])]

theorem run_sound_scratchFile :
    checkAlong turn (fun m t => (m.drops t).isNone) (boot Fs.new .empty) scratchFile = false ∧
      ((boot Fs.new .empty).run scratchFile).fs.Sound := by
  refine ⟨by decide, run_sound (along_of_check dropsOneFile_sealed ?_)⟩
  decide

/-- A directory removed while open gets a file with a second name elsewhere; the file
goes with the directory when that closes. -/
def linkedAway : List Turn := [
  .guest .getDirectories .quiet,
  .guest (.createDirectoryAt 0 "d") .quiet,
  .guest (.openAt 0 true "d" {}) .quiet,
  .guest (.removeDirectoryAt 0 "d") .quiet,
  .guest (.openAt 1 true "f" { create := true }) .quiet,
  .guest (.linkAt 1 true "f" 0 "g") .quiet,
  .guest (.close 1) .quiet]

theorem closed_directory_takes_linked_file :
    ¬ ((boot Fs.new .empty).run linkedAway).fs.Sound := by
  intro sound
  have named : ((boot Fs.new .empty).run linkedAway).fs.child root "g" = some 2 := by decide
  have freed : ((boot Fs.new .empty).run linkedAway).fs.nodes.lookup 2 = none := by decide
  have there := Table.mem_iff_lookup.1 (Fs.sound_iff.1 sound _ _ _ named)
  simp [freed] at there

end Poles

end Machine

end Wk.Vfs
