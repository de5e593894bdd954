/-
# Wk.Vfs.Leaks -- every node is reached or held

A node is leaked when no path from the root and no open descriptor leads to it: it
counts against the capacity and nothing can free it.  Unlinking and closing free what
they leave without a holder.  Creating a file and renaming do not look at the node
whose name they take over, and renaming does not look whether a directory moves into
itself; `SparesNodes` is the condition that neither loses a node.
-/
import Wk.Vfs.Descriptors
import Wk.Library.Run

namespace Wk.Vfs

open Wk.Library Wk.Provider Relation

set_option autoImplicit false

namespace Fs

variable {fs : Fs}

/-- The node behind the entry `name` of `p` is open or has another name. -/
def HeldBesides (fs : Fs) (p : Nat) (name : String) (c : Nat) : Prop :=
  0 < fs.openCount c ∨ ∃ d k, (d, k) ≠ (p, name) ∧ fs.child d k = some c

/-- Every node is the root, open, or named, and names go down. -/
structure Anchored (fs : Fs) : Prop where
  held : ∀ {x}, x ∈ fs.nodes → x = root ∨ 0 < fs.openCount x ∨ ∃ d k, fs.child d k = some x
  ranked : Ranked fs.Names

theorem Anchored.new : Fs.new.Anchored where
  held {x} member := by
    rcases (AList.mem_insert _).1 member with same | none
    · exact .inl same
    · exact absurd none (AList.notMem_empty _)
  ranked := ⟨fun _ => 0, fun a b ⟨k, entry⟩ => by rw [Fs.new_child] at entry; cases entry⟩

/-- Every node is reached from the root or from an open node. -/
theorem Anchored.reached (anchored : fs.Anchored) {x : Nat} (member : x ∈ fs.nodes) :
    ∃ d, (d = root ∨ 0 < fs.openCount d) ∧ fs.Reaches d x := by
  have step : ∀ x, x ∈ fs.nodes →
      (x = root ∨ 0 < fs.openCount x) ∨ ∃ d, d ∈ fs.nodes ∧ fs.Names d x := by
    intro x member
    rcases anchored.held member with atRoot | opened | ⟨d, k, entry⟩
    · exact .inl (.inl atRoot)
    · exact .inl (.inr opened)
    · exact .inr ⟨d, Names.mem ⟨k, entry⟩, k, entry⟩
  exact anchored.ranked.grounded step member

/-- Fewer names below the same heights. -/
theorem ranked_fewer {fs' : Fs} (ranked : Ranked fs.Names)
    (names : ∀ {d k c}, fs'.child d k = some c → fs.child d k = some c) : Ranked fs'.Names :=
  ranked.mono fun _ _ ⟨k, entry⟩ => ⟨k, names entry⟩

/-- One name replaced: everything keeps its holder if the displaced node has another
and the new one does not lead back. -/
theorem Anchored.replace {fs' : Fs} {p c : Nat} {name : String} (anchored : fs.Anchored)
    (nodes : ∀ {x}, x ∈ fs'.nodes → x = c ∨ x ∈ fs.nodes)
    (counts : ∀ x, fs.openCount x ≤ fs'.openCount x)
    (names : ∀ d k, fs'.child d k = if d = p ∧ k = name then some c else fs.child d k)
    (displaced : ∀ old, fs.child p name = some old → old ≠ c → fs.HeldBesides p name old)
    (apart : ¬ fs.Reaches c p) : fs'.Anchored where
  held {x} member := by
    by_cases new : x = c
    · exact .inr (.inr ⟨p, name, by rw [names, if_pos ⟨rfl, rfl⟩, new]⟩)
    · rcases nodes member with same | old
      · exact absurd same new
      · rcases anchored.held old with atRoot | opened | ⟨d, k, entry⟩
        · exact .inl atRoot
        · exact .inr (.inl (opened.trans_le (counts x)))
        · by_cases here : d = p ∧ k = name
          · obtain ⟨rfl, rfl⟩ := here
            rcases displaced x entry new with opened | ⟨d', k', other, entry'⟩
            · exact .inr (.inl (opened.trans_le (counts x)))
            · refine .inr (.inr ⟨d', k', ?_⟩)
              rw [names, if_neg, entry']
              rintro ⟨rfl, rfl⟩
              exact other rfl
          · exact .inr (.inr ⟨d, k, by rw [names, if_neg here, entry]⟩)
  ranked := by
    refine anchored.ranked.graft apart ?_
    rintro a b ⟨k, entry⟩
    rw [names] at entry
    split at entry
    · next here => exact .inr ⟨here.1, (Option.some.inj entry).symm⟩
    · exact .inl ⟨k, entry⟩

theorem Anchored.enter {p : Nat} {name : String} {node : FsNode} (anchored : fs.Anchored)
    (shaped : fs.Shaped) (leaf : Childless node) (isDir : fs.isDir p = true)
    (displaced : ∀ old, fs.child p name = some old → fs.HeldBesides p name old) :
    (fs.enter p name node).Anchored := by
  refine anchored.replace mem_enter.1 (fun x => ?_) (child_enter shaped leaf isDir)
    (fun old entry _ => displaced old entry) ?_
  · simp only [openCount, enter_openFds, le_refl]
  · intro path
    have new : ∀ k, fs.child fs.next k = none := child_none shaped.next_notDir
    exact shaped.fresh (reaches_leaf new path ▸ mem_of_isDir isDir)

theorem Anchored.link {p id : Nat} {name : String} (anchored : fs.Anchored)
    (isDir : fs.isDir p = true) (notDir : fs.isDir id = false)
    (free : fs.child p name = none) : (fs.addChild p name id).Anchored := by
  refine anchored.replace (fun member => .inr (by simpa [addChild_eq] using member)) (fun x => ?_)
    (child_addChild isDir) (fun old entry => by rw [free] at entry; cases entry) ?_
  · simp [openCount, addChild_eq]
  · intro path
    have same := reaches_leaf (child_none notDir) path
    rw [same, isDir] at notDir
    cases notDir

theorem Anchored.setBytes {id : Nat} {bytes : Bytes} (anchored : fs.Anchored)
    (holds : fs.HoldsBytes id) : (fs.setBytes id bytes).Anchored where
  held {x} member := by
    have old : x ∈ fs.nodes := by
      rcases (AList.mem_insert _).1 member with rfl | old
      · exact holds.mem
      · exact old
    rcases anchored.held old with atRoot | opened | ⟨d, k, entry⟩
    · exact .inl atRoot
    · exact .inr (.inl opened)
    · exact .inr (.inr ⟨d, k, (child_setBytes holds.notDir d k).trans entry⟩)
  ranked := ranked_fewer anchored.ranked fun entry =>
    (child_setBytes holds.notDir _ _).symm.trans entry

theorem Anchored.openRef (anchored : fs.Anchored) (id : Nat) : (fs.openRef id).Anchored where
  held {x} member := by
    rcases anchored.held member with atRoot | opened | named
    · exact .inl atRoot
    · refine .inr (.inl ?_)
      simp only [openCount, Fs.openRef, Table.lookup_insert_eq]
      split
      · simp
      · exact opened
    · exact .inr (.inr named)
  ranked := anchored.ranked

/-- Dropping the subtree of a node leaves the holders of everything else. -/
theorem Anchored.dropped {fs' : Fs} {id : Nat} (ranked : Ranked fs.Names)
    (held : ∀ {x}, x ∈ fs.nodes → x ≠ id → x = root ∨ 0 < fs.openCount x ∨ ∃ d k, fs.child d k = some x)
    (drop : Dropped fs fs' [id]) : fs'.Anchored where
  held {x} member := by
    obtain ⟨old, apart⟩ := drop.mem_iff.1 member
    have other : x ≠ id := by
      rintro rfl
      exact apart x (List.mem_singleton.2 rfl) .refl
    rcases held old other with atRoot | opened | ⟨d, k, entry⟩
    · exact .inl atRoot
    · refine .inr (.inl ?_)
      simpa only [openCount, drop.openFds] using opened
    · refine .inr (.inr ⟨d, k, ?_⟩)
      -- a directory that goes takes what it names with it
      have stays : d ∈ fs'.nodes := by
        refine drop.mem_iff.2 ⟨Names.mem ⟨k, entry⟩, fun r root path => ?_⟩
        exact apart r root (path.tail ⟨k, entry⟩)
      exact (drop.child_of_mem stays k).trans entry
  ranked := ranked_fewer ranked fun {d k c} entry =>
    (drop.child_of_mem (Names.mem ⟨k, entry⟩) k).symm.trans entry

/-- Unlinking frees the node it leaves without a holder. -/
theorem Anchored.unlink {p id : Nat} {name : String} (anchored : fs.Anchored)
    (entry : fs.child p name = some id) (leaf : ∀ k, fs.child id k = none) :
    (fs.unlink p name id).Anchored := by
  have others : ∀ {x}, x ∈ (fs.removeChild p name).nodes → x ≠ id → x = root ∨
      0 < (fs.removeChild p name).openCount x ∨ ∃ d k, (fs.removeChild p name).child d k = some x := by
    intro x member other
    have old : x ∈ fs.nodes := by simpa [removeChild_eq] using member
    rcases anchored.held old with atRoot | opened | ⟨d, k, named⟩
    · exact .inl atRoot
    · exact .inr (.inl (by simpa [openCount, removeChild_eq] using opened))
    · refine .inr (.inr ⟨d, k, ?_⟩)
      rw [child_removeChild, if_neg, named]
      rintro ⟨rfl, rfl⟩
      exact other (Option.some.inj (named.symm.trans entry))
  have ranked : Ranked (fs.removeChild p name).Names := ranked_fewer anchored.ranked fun named => by
    rw [child_removeChild] at named
    split at named
    · cases named
    · exact named
  rcases unlink_cases p name leaf with ⟨same, holder⟩ | ⟨_, _, drop⟩
  · rw [same]
    refine ⟨fun {x} member => ?_, ranked⟩
    by_cases here : x = id
    · subst here
      rcases holder with referenced | opened
      · obtain ⟨d, k, named⟩ := nodeIsReferenced_iff.1 referenced
        exact .inr (.inr ⟨d, k, named⟩)
      · exact .inr (.inl (by simpa [openCount, removeChild_eq] using opened))
    · exact others member here
  · exact .dropped ranked others drop

/-- Closing frees what it leaves without a holder. -/
theorem Anchored.closeRef (anchored : fs.Anchored) (id : Nat) : (fs.closeRef id).Anchored := by
  have others : ∀ {x}, x ≠ id → (fs.closeRef id).openCount x = fs.openCount x := by
    intro x other
    cases held : fs.openFds.lookup id with
    | none => simp only [openCount, Fs.closeRef, held]
    | some count =>
      simp only [openCount, closeRef_openFds held]
      split
      · rw [AList.lookup_erase_ne other]
      · rw [AList.lookup_insert_ne other]
  rcases closeRef_cases fs id with ⟨nodes, _, _, holder⟩ | ⟨_, _, _, drop⟩
  · have names : ∀ d k, (fs.closeRef id).child d k = fs.child d k := by
      intro d k
      simp only [child, nodes]
    refine ⟨fun {x} member => ?_, ranked_fewer anchored.ranked fun entry =>
      (names _ _).symm.trans entry⟩
    rcases anchored.held (nodes ▸ member) with atRoot | opened | ⟨d, k, entry⟩
    · exact .inl atRoot
    · by_cases here : x = id
      · subst here
        by_cases few : fs.openCount x ≤ 1
        · rcases holder few with none | atRoot | referenced
          · omega
          · exact .inl atRoot
          · obtain ⟨d, k, entry⟩ := nodeIsReferenced_iff.1 referenced
            exact .inr (.inr ⟨d, k, (names d k).trans entry⟩)
        · refine .inr (.inl ?_)
          obtain ⟨count, held⟩ : ∃ count, fs.openFds.lookup x = some count := by
            cases held : fs.openFds.lookup x with
            | none => simp [openCount, held] at few
            | some count => exact ⟨count, rfl⟩
          have many : ¬ count - 1 = 0 := by
            simp only [openCount, held, Option.getD_some] at few
            omega
          simp only [openCount, closeRef_openFds held, many, if_false, AList.lookup_insert,
            Option.getD_some]
          omega
      · exact .inr (.inl ((others here).symm ▸ opened))
    · exact .inr (.inr ⟨d, k, (names d k).trans entry⟩)
  · have ranked : Ranked ({ fs with openFds := fs.openFds.erase id } : Fs).Names := anchored.ranked
    refine .dropped ranked (fun {x} member other => ?_) drop
    rcases anchored.held member with atRoot | opened | named
    · exact .inl atRoot
    · refine .inr (.inl ?_)
      simp only [openCount, AList.lookup_erase_ne other]
      exact opened
    · exact .inr (.inr named)

/-- A rename keeps every holder, if the node whose name it takes has another and the
target is not inside what moves. -/
theorem Anchored.move {oldParent newParent id : Nat} {oldName newName : String}
    (anchored : fs.Anchored) (entry : fs.child oldParent oldName = some id)
    (isDir : fs.isDir newParent = true)
    (displaced : ∀ old, fs.child newParent newName = some old → old ≠ id →
      fs.HeldBesides newParent newName old)
    (apart : ¬ fs.Reaches id newParent) :
    (fs.move oldParent oldName newParent newName id).Anchored where
  held {x} member := by
    have still : ∀ {d k}, (d, k) ≠ (newParent, newName) → fs.child d k = some x → x ≠ id →
        (fs.move oldParent oldName newParent newName id).child d k = some x := by
      intro d k other named different
      rw [child_move isDir, if_neg, if_neg, named]
      · rintro ⟨rfl, rfl⟩
        exact different (Option.some.inj (named.symm.trans entry))
      · rintro ⟨rfl, rfl⟩
        exact other rfl
    have counts : (fs.move oldParent oldName newParent newName id).openCount x = fs.openCount x := by
      simp [openCount, Fs.move, addChild_eq, removeChild_eq]
    by_cases moved : x = id
    · exact .inr (.inr ⟨newParent, newName, by rw [child_move isDir, if_pos ⟨rfl, rfl⟩, moved]⟩)
    · have old : x ∈ fs.nodes := by simpa [Fs.move, addChild_eq, removeChild_eq] using member
      rcases anchored.held old with atRoot | opened | ⟨d, k, named⟩
      · exact .inl atRoot
      · exact .inr (.inl (counts ▸ opened))
      · by_cases here : (d, k) = (newParent, newName)
        · cases here
          rcases displaced x named moved with opened | ⟨d', k', other, named'⟩
          · exact .inr (.inl (counts ▸ opened))
          · exact .inr (.inr ⟨d', k', still other named' moved⟩)
        · exact .inr (.inr ⟨d, k, still here named moved⟩)
  ranked := by
    refine anchored.ranked.graft apart ?_
    rintro a b ⟨k, named⟩
    rw [child_move isDir] at named
    split at named
    · next here => exact .inr ⟨here.1, (Option.some.inj named).symm⟩
    · split at named
      · cases named
      · exact .inl ⟨k, named⟩

end Fs

namespace Machine

variable {m : Machine}

/-- Where an open is to create a file. -/
def creates (m : Machine) : Op → Option (Nat × String)
  | .openAt fd follow path flags =>
    match m.fds.lookup fd with
    | some (.node start) =>
      if flags.create && (m.fs.resolveAt start path follow).isNone && !m.fs.atCapacity then
        m.fs.resolveParent start path
      else none
    | _ => none
  | _ => none

/-- Where a rename is to put a name, and for which node. -/
def renames (m : Machine) : Op → Option ((Nat × String) × Nat)
  | .renameAt fd oldPath newFd newPath =>
    match m.fds.lookup fd, m.fds.lookup newFd with
    | some (.node oldStart), some (.node newStart) =>
      (m.fs.resolveParent oldStart oldPath).bind fun leaving =>
        (m.fs.child leaving.1 leaving.2).bind fun id =>
          if id ∈ m.fs.readonly then none
          else (m.fs.resolveParent newStart newPath).map fun landing => (landing, id)
    | _, _ => none
  | _ => none

/-- An operation loses no node: where it takes over a name, the node that had it is open
or has another, and what it moves does not hold the place it moves to. -/
structure SparesNodes (m : Machine) (op : Op) : Prop where
  created : ∀ {p name old}, m.creates op = some (p, name) → m.fs.child p name = some old →
    m.fs.HeldBesides p name old
  renamed : ∀ {p name id old}, m.renames op = some ((p, name), id) → m.fs.child p name = some old →
    old ≠ id → m.fs.HeldBesides p name old
  apart : ∀ {p name id}, m.renames op = some ((p, name), id) → ¬ m.fs.Reaches id p

theorem creates_eq {fd start p : Nat} {follow : Bool} {path name : String} {flags : OpenFlags}
    (place : m.fds.lookup fd = some (.node start)) (asked : flags.create = true)
    (absent : m.fs.resolveAt start path follow = none)
    (landing : m.fs.resolveParent start path = some (p, name)) (room : m.fs.atCapacity = false) :
    m.creates (.openAt fd follow path flags) = some (p, name) := by
  simp [creates, place, asked, absent, landing, room]

theorem renames_eq {fd newFd oldStart newStart oldParent id : Nat} {landing : Nat × String}
    {oldPath newPath oldName : String} (oldPlace : m.fds.lookup fd = some (.node oldStart))
    (newPlace : m.fds.lookup newFd = some (.node newStart))
    (leaving : m.fs.resolveParent oldStart oldPath = some (oldParent, oldName))
    (entry : m.fs.child oldParent oldName = some id) (writable : id ∉ m.fs.readonly)
    (lands : m.fs.resolveParent newStart newPath = some landing) :
    m.renames (.renameAt fd oldPath newFd newPath) = some (landing, id) := by
  simp [renames, oldPlace, newPlace, leaving, entry, writable, lands]

/-- An operation that spares every node leaves every node a holder. -/
theorem effect_anchored {op : Op} {fs : Fs} {fds : Table Nat DescPlace} (effect : Effect m op fs fds)
    (spares : m.SparesNodes op) (shaped : m.fs.Shaped) (anchored : m.fs.Anchored) : fs.Anchored := by
  cases effect with
  | keeps => exact anchored
  | wrote _ bytes data holds => exact anchored.setBytes holds
  | openedRemote => exact anchored
  | openedRoot => exact anchored.openRef _
  | opened place found => exact anchored.openRef _
  | truncated place found holds => exact (anchored.setBytes holds).openRef _
  | created place asked absent landing room =>
    refine (anchored.enter shaped (Fs.childless_of_ne (by simp)) (Fs.resolveParent_isDir landing)
      fun old entry => ?_).openRef _
    exact spares.created (creates_eq place asked absent landing room) entry
  | madeDirectory place landing free room =>
    refine anchored.enter shaped Fs.childless_dir (Fs.resolveParent_isDir landing) fun old entry => ?_
    rw [free] at entry
    cases entry
  | symlinked place landing free room =>
    refine anchored.enter shaped (Fs.childless_of_ne (by simp)) (Fs.resolveParent_isDir landing)
      fun old entry => ?_
    rw [free] at entry
    cases entry
  | linked oldPlace newPlace found present notDir writable landing free =>
    exact anchored.link (Fs.resolveParent_isDir landing) notDir free
  | renamed oldPlace newPlace leaving entry writable landing =>
    have renames := renames_eq oldPlace newPlace leaving entry writable landing
    exact anchored.move entry (Fs.resolveParent_isDir landing)
      (fun old named other => spares.renamed renames named other) (spares.apart renames)
  | unlinked place leaving entry writable allowed =>
    exact anchored.unlink entry (Fs.removable_leaf allowed)
  | closed place => exact anchored.closeRef _
  | closedRemote => exact anchored

/-- What holds along every session that spares nodes. -/
structure Kept (m : Machine) : Prop where
  shaped : m.fs.Shaped
  anchored : m.fs.Anchored
  tallied : m.Tallied

theorem ask_kept (asked : Op × Env) (spares : m.SparesNodes asked.1) (kept : m.Kept) :
    (m.ask asked).Kept where
  shaped := (m.step_effect asked.2 asked.1).effect.shaped kept.shaped
  anchored := effect_anchored (m.step_effect asked.2 asked.1).effect spares kept.shaped kept.anchored
  tallied := step_tallied asked.2 asked.1 kept.tallied

/-- **No node is leaked.** In every session from an empty filesystem whose creations and
renames spare the nodes they displace, every node other than the root is reached from
the root or from a node the guest holds a descriptor onto. -/
theorem session_keeps_nodes {backing : Backing} {ops : List (Op × Env)}
    (spares : Along ask (fun m asked => m.SparesNodes asked.1) (boot Fs.new backing) ops) :
    ∀ x ∈ ((boot Fs.new backing).session ops).fs.nodes,
      ((boot Fs.new backing).session ops).fs.Reaches root x ∨
        ∃ fd id, ((boot Fs.new backing).session ops).fds.lookup fd = some (.node id) ∧
          ((boot Fs.new backing).session ops).fs.Reaches id x := by
  have start : (boot Fs.new backing).Kept :=
    ⟨.new, .new, .boot Fs.new backing rfl⟩
  have kept : ((boot Fs.new backing).session ops).Kept :=
    Along.keeps (fun m asked met kept => ask_kept asked met kept) spares start
  intro x member
  obtain ⟨d, source, path⟩ := kept.anchored.reached member
  rcases source with rfl | opened
  · exact .inl path
  · rw [kept.tallied.openCount, held_pos] at opened
    obtain ⟨fd, place⟩ := opened
    exact .inr ⟨fd, d, place, path⟩

section Poles

/-- A check of `SparesNodes`: names are given only where they are free, and only files
are renamed. -/
def freeNames (m : Machine) (op : Op) : Bool :=
  ((m.creates op).all fun landing => (m.fs.child landing.1 landing.2).isNone) &&
    (m.renames op).all fun moved =>
      (m.fs.child moved.1.1 moved.1.2).isNone && !m.fs.isDir moved.2 && m.fs.isDir moved.1.1

theorem freeNames_spares (m : Machine) (op : Op) (passed : freeNames m op = true) :
    m.SparesNodes op := by
  simp only [freeNames, Bool.and_eq_true, Option.all_eq_true, Option.isNone_iff_eq_none,
    Bool.not_eq_true'] at passed
  refine ⟨?_, ?_, ?_⟩
  · intro p name old creates entry
    rw [passed.1 _ creates] at entry
    cases entry
  · intro p name id old renames entry
    rw [(passed.2 _ renames).1.1] at entry
    cases entry
  · intro p name id renames path
    obtain ⟨⟨_, notDir⟩, isDir⟩ := passed.2 _ renames
    rw [Fs.reaches_leaf (Fs.child_none notDir) path, isDir] at notDir
    cases notDir

/-- A directory with a file that is renamed and unlinked while open. -/
def tidySession : List (Op × Env) := [
  (.getDirectories, .quiet),
  (.createDirectoryAt 0 "d", .quiet),
  (.openAt 0 true "d/f" { create := true }, .quiet),
  (.renameAt 0 "d/f" 0 "g", .quiet),
  (.unlinkFileAt 0 "g", .quiet)]

theorem session_keeps_nodes_tidy :
    ((boot Fs.new .empty).session tidySession).fs.child root "g" = none ∧
      ∀ x ∈ ((boot Fs.new .empty).session tidySession).fs.nodes,
        ((boot Fs.new .empty).session tidySession).fs.Reaches root x ∨
          ∃ fd id, ((boot Fs.new .empty).session tidySession).fds.lookup fd = some (.node id) ∧
            ((boot Fs.new .empty).session tidySession).fs.Reaches id x := by
  have checked : checkAlong ask (fun m asked => freeNames m asked.1) (boot Fs.new .empty) tidySession
      = true := by
    decide
  refine ⟨by decide, session_keeps_nodes ?_⟩
  exact along_of_check (fun m (asked : Op × Env) => freeNames_spares m asked.1) checked

/-- Two files, one renamed onto the other. -/
def renamedOver : List (Op × Env) := [
  (.getDirectories, .quiet),
  (.openAt 0 true "a" { create := true }, .quiet),
  (.close 1, .quiet),
  (.openAt 0 true "b" { create := true }, .quiet),
  (.close 2, .quiet),
  (.renameAt 0 "a" 0 "b", .quiet)]

/-- The file whose name is taken over stays, and nothing leads to it. -/
theorem rename_leaks_target :
    ¬ ∀ x ∈ ((boot Fs.new .empty).session renamedOver).fs.nodes,
      ((boot Fs.new .empty).session renamedOver).fs.Reaches root x ∨
        ∃ fd id, ((boot Fs.new .empty).session renamedOver).fds.lookup fd = some (.node id) ∧
          ((boot Fs.new .empty).session renamedOver).fs.Reaches id x := by
  intro reached
  have there : 2 ∈ ((boot Fs.new .empty).session renamedOver).fs.nodes := by decide
  have unnamed : ((boot Fs.new .empty).session renamedOver).fs.nodeIsReferenced 2 = false := by decide
  have closed : ((boot Fs.new .empty).session renamedOver).held 2 = 0 := by decide
  rcases reached 2 there with path | ⟨fd, id, place, path⟩
  · have same := Fs.reaches_unnamed unnamed path
    cases same
  · have same := Fs.reaches_unnamed unnamed path
    subst same
    have held := held_pos.2 ⟨fd, place⟩
    omega

end Poles

end Machine

end Wk.Vfs
