/-
# Wk.Vfs.Effects -- everything one operation can do to names and descriptors

`Effect m op fs fds` lists the outcomes an operation can have on the filesystem and
on the table of descriptors, each with what the operation has checked by then.
`step_effect` says the list is complete, so that an invariant of names is proved by
going through it once.
-/
import Wk.Vfs.Names

namespace Wk.Vfs

open Wk.Library Wk.Provider

set_option autoImplicit false

namespace Fs

variable {fs : Fs}

/-- A regular file that lives in the filesystem itself. -/
def HoldsBytes (fs : Fs) (id : Nat) : Prop :=
  (∃ bytes, fs.nodes.lookup id = some (.file bytes)) ∨ ∃ layer, fs.nodes.lookup id = some (.roFile layer)

theorem HoldsBytes.notDir {id : Nat} (holds : fs.HoldsBytes id) : fs.isDir id = false := by
  rcases holds with ⟨bytes, found⟩ | ⟨layer, found⟩ <;> simp [isDir, found]

theorem HoldsBytes.mem {id : Nat} (holds : fs.HoldsBytes id) : id ∈ fs.nodes := by
  rcases holds with ⟨bytes, found⟩ | ⟨layer, found⟩ <;> exact Table.mem_of_lookup found

theorem holdsBytes_of_kind {id : Nat} (kind : fs.nodeKind id = .file ∨ fs.nodeKind id = .ro) :
    fs.HoldsBytes id := by
  unfold nodeKind at kind
  split at kind
  · next bytes found => exact .inl ⟨bytes, found⟩
  · next layer found => exact .inr ⟨layer, found⟩
  all_goals simp at kind

theorem setBytes_setBytes (id : Nat) (a b : Bytes) :
    (fs.setBytes id a).setBytes id b = fs.setBytes id b := by
  simp only [setBytes, AList.insert_insert]

theorem resolveParent_isDir {start p : Nat} {path name : String}
    (landing : fs.resolveParent start path = some (p, name)) : fs.isDir p = true := by
  unfold resolveParent at landing
  split at landing
  · cases landing
  · split at landing
    · cases landing
    · split at landing
      · next children found =>
          cases landing
          exact isDir_iff.2 ⟨children, found⟩
      · cases landing

end Fs

/-- Removing a file, or a directory if `dir`. -/
def Op.unlinks (dir : Bool) (fd : Nat) (path : String) : Op :=
  if dir then .removeDirectoryAt fd path else .unlinkFileAt fd path

/-- Whether an operation may put bytes into a file. -/
def Op.handlesData : Op → Bool
  | .getDirectories | .close .. | .createDirectoryAt .. | .linkAt .. | .symlinkAt .. => false
  | .renameAt .. | .unlinkFileAt .. | .removeDirectoryAt .. => false
  | _ => true

/-- What one operation can do to the filesystem and the descriptors. -/
inductive Effect (m : Machine) : Op → Fs → Table Nat DescPlace → Prop
  | keeps (op : Op) : Effect m op m.fs m.fds
  | wrote (op : Op) {id : Nat} (bytes : Bytes) (data : op.handlesData = true)
      (holds : m.fs.HoldsBytes id) :
      Effect m op (m.fs.setBytes id bytes) m.fds
  | openedRemote (op : Op) (r : RemoteDesc) : Effect m op m.fs (m.fds.insert m.next (.remote r))
  | openedRoot : Effect m .getDirectories (m.fs.openRef root) (m.fds.insert m.next (.node root))
  | opened {fd start id : Nat} {follow : Bool} {path : String} {flags : OpenFlags}
      (place : m.fds.lookup fd = some (.node start))
      (found : m.fs.resolveAt start path follow = some id) :
      Effect m (.openAt fd follow path flags) (m.fs.openRef id) (m.fds.insert m.next (.node id))
  | truncated {fd start id : Nat} {follow : Bool} {path : String} {flags : OpenFlags}
      (place : m.fds.lookup fd = some (.node start))
      (found : m.fs.resolveAt start path follow = some id) (holds : m.fs.HoldsBytes id) :
      Effect m (.openAt fd follow path flags) ((m.fs.setBytes id []).openRef id)
        (m.fds.insert m.next (.node id))
  | created {fd start p : Nat} {follow : Bool} {path name : String} {flags : OpenFlags}
      (place : m.fds.lookup fd = some (.node start)) (asked : flags.create = true)
      (absent : m.fs.resolveAt start path follow = none)
      (landing : m.fs.resolveParent start path = some (p, name))
      (room : m.fs.atCapacity = false) :
      Effect m (.openAt fd follow path flags) ((m.fs.enter p name (.file [])).openRef m.fs.next)
        (m.fds.insert m.next (.node m.fs.next))
  | madeDirectory {fd start p : Nat} {path name : String}
      (place : m.fds.lookup fd = some (.node start))
      (landing : m.fs.resolveParent start path = some (p, name))
      (free : m.fs.child p name = none) (room : m.fs.atCapacity = false) :
      Effect m (.createDirectoryAt fd path) (m.fs.enter p name (.dir ∅)) m.fds
  | symlinked {fd start p : Nat} {srcPath destPath name : String}
      (place : m.fds.lookup fd = some (.node start))
      (landing : m.fs.resolveParent start destPath = some (p, name))
      (free : m.fs.child p name = none) (room : m.fs.atCapacity = false) :
      Effect m (.symlinkAt fd srcPath destPath) (m.fs.enter p name (.symlink srcPath)) m.fds
  | linked {fd newFd oldStart newStart id p : Nat} {follow : Bool} {oldPath newPath name : String}
      (oldPlace : m.fds.lookup fd = some (.node oldStart))
      (newPlace : m.fds.lookup newFd = some (.node newStart))
      (found : m.fs.resolveAt oldStart oldPath follow = some id) (present : id ∈ m.fs.nodes)
      (notDir : m.fs.isDir id = false) (writable : id ∉ m.fs.readonly)
      (landing : m.fs.resolveParent newStart newPath = some (p, name))
      (free : m.fs.child p name = none) :
      Effect m (.linkAt fd follow oldPath newFd newPath) (m.fs.addChild p name id) m.fds
  | renamed {fd newFd oldStart newStart oldParent newParent id : Nat}
      {oldPath newPath oldName newName : String}
      (oldPlace : m.fds.lookup fd = some (.node oldStart))
      (newPlace : m.fds.lookup newFd = some (.node newStart))
      (leaving : m.fs.resolveParent oldStart oldPath = some (oldParent, oldName))
      (entry : m.fs.child oldParent oldName = some id) (writable : id ∉ m.fs.readonly)
      (landing : m.fs.resolveParent newStart newPath = some (newParent, newName)) :
      Effect m (.renameAt fd oldPath newFd newPath)
        (m.fs.move oldParent oldName newParent newName id) m.fds
  | unlinked {fd start p id : Nat} {dir : Bool} {path name : String}
      (place : m.fds.lookup fd = some (.node start))
      (leaving : m.fs.resolveParent start path = some (p, name))
      (entry : m.fs.child p name = some id) (writable : id ∉ m.fs.readonly)
      (allowed : Machine.removable dir (m.fs.nodes.lookup id) = .ok ()) :
      Effect m (Op.unlinks dir fd path) (m.fs.unlink p name id) m.fds
  | closed {fd id : Nat} (place : m.fds.lookup fd = some (.node id)) :
      Effect m (.close fd) (m.fs.closeRef id) (m.fds.erase fd)
  | closedRemote {fd : Nat} {r : RemoteDesc} (place : m.fds.lookup fd = some (.remote r)) :
      Effect m (.close fd) m.fs (m.fds.erase fd)

namespace Machine

variable {m : Machine} {env : Env}

/-- `m'` is what an operation left of `m`: an effect of it, with every new descriptor
under a handle not used before. -/
structure Effected (m : Machine) (op : Op) (m' : Machine) : Prop where
  effect : Effect m op m'.fs m'.fds
  handles : ∀ {fd}, fd ∈ m'.fds → fd ∈ m.fds ∨ fd < m'.next
  next : m.next ≤ m'.next

namespace Effected

variable {op : Op} {m' : Machine}

theorem named {fs : Fs} (effect : Effect m op fs m.fds) (sameFs : m'.fs = fs)
    (sameFds : m'.fds = m.fds) (next : m.next ≤ m'.next) : m.Effected op m' where
  effect := by rw [sameFs, sameFds]; exact effect
  handles member := .inl (sameFds ▸ member)
  next := next

theorem keeps (fs : m'.fs = m.fs) (fds : m'.fds = m.fds) (next : m.next ≤ m'.next) :
    m.Effected op m' :=
  named (.keeps op) fs fds next

theorem pushed {fs : Fs} {place : DescPlace} (effect : Effect m op fs (m.fds.insert m.next place))
    (sameFs : m'.fs = fs) (sameFds : m'.fds = m.fds.insert m.next place)
    (next : m'.next = m.next + 1) : m.Effected op m' where
  effect := by rw [sameFs, sameFds]; exact effect
  handles {fd} member := by
    rw [sameFds, AList.mem_insert] at member
    rcases member with rfl | old
    · exact .inr (next ▸ Nat.lt_succ_self _)
    · exact .inl old
  next := next ▸ Nat.le_succ _

theorem erased {fs : Fs} {fd : Nat} (effect : Effect m op fs (m.fds.erase fd)) (sameFs : m'.fs = fs)
    (sameFds : m'.fds = m.fds.erase fd) (next : m'.next = m.next) : m.Effected op m' where
  effect := by rw [sameFs, sameFds]; exact effect
  handles member := .inl (AList.mem_erase.1 (sameFds ▸ member)).2
  next := next.ge

end Effected

@[simp] theorem touchLayer_fs (id : Nat) : (m.touchLayer id).fs = m.fs := by
  unfold touchLayer; split <;> rfl

@[simp] theorem touchLayer_fds (id : Nat) : (m.touchLayer id).fds = m.fds := by
  unfold touchLayer; split <;> rfl

@[simp] theorem touchLayer_next (id : Nat) : (m.touchLayer id).next = m.next := by
  unfold touchLayer; split <;> rfl

@[simp] theorem copyUp_next (id : Nat) : (m.copyUp id).next = m.next := by
  unfold copyUp; split <;> rfl

@[simp] theorem copyUp_fds (id : Nat) : (m.copyUp id).fds = m.fds := by
  unfold copyUp; split <;> rfl

theorem forward_effect (op : Op) (conn : NodeId) (req : FsOp) :
    m.Effected op (m.forward env conn req).1 := by
  unfold forward
  split <;> exact .keeps rfl rfl le_rfl

theorem remoteOpen_effect (op : Op) (conn : NodeId) (readonly : Bool) (path : String)
    (flags : OpenFlags) : m.Effected op (m.remoteOpen env conn readonly path flags).1 := by
  unfold remoteOpen
  split
  · exact .keeps rfl rfl le_rfl
  · dsimp only
    split
    · split
      · exact .keeps rfl rfl le_rfl
      · exact .pushed (.openedRemote op _) rfl rfl rfl
    · exact .keeps rfl rfl le_rfl
    · exact .keeps rfl rfl le_rfl

/-- Truncating empties a file of the filesystem itself, or leaves the filesystem. -/
theorem truncate_cases (m : Machine) (env : Env) (id : Nat) :
    (m.truncate env id).fds = m.fds ∧
      ((m.truncate env id).fs = m.fs ∨
        m.fs.HoldsBytes id ∧ (m.truncate env id).fs = m.fs.setBytes id []) := by
  unfold truncate
  split
  · next bytes found => exact ⟨rfl, .inr ⟨.inl ⟨bytes, found⟩, rfl⟩⟩
  · next layer found => exact ⟨rfl, .inr ⟨.inr ⟨layer, found⟩, rfl⟩⟩
  · exact ⟨rfl, .inl rfl⟩
  · split <;> exact ⟨rfl, .inl rfl⟩
  · exact ⟨rfl, .inl rfl⟩

theorem truncate_next (id : Nat) : (m.truncate env id).next = m.next := by
  unfold truncate
  split <;> first | rfl | (split <;> rfl)

theorem openExisting_effect {fd start id : Nat} {follow : Bool} {path : String} {flags : OpenFlags}
    (place : m.fds.lookup fd = some (.node start))
    (found : m.fs.resolveAt start path follow = some id) :
    m.Effected (.openAt fd follow path flags) (m.openExisting env id flags).1 := by
  unfold openExisting
  split
  · exact .keeps rfl rfl le_rfl
  · split
    · exact .keeps rfl rfl le_rfl
    · obtain ⟨fds, fs⟩ := truncate_cases m env id
      dsimp only
      by_cases truncates : flags.truncate = true
      · rw [if_pos truncates]
        rcases fs with fs | ⟨holds, fs⟩
        · split
          · exact .keeps fs fds (truncate_next id).ge
          · exact .pushed (.opened place found) (by simp only [openDesc, push, fs])
              (by simp only [openDesc, push, fds, truncate_next])
              (by simp only [openDesc, push, truncate_next])
        · split
          · exact .named (.wrote _ [] rfl holds) fs fds (truncate_next id).ge
          · exact .pushed (.truncated place found holds) (by simp only [openDesc, push, fs])
              (by simp only [openDesc, push, fds, truncate_next])
              (by simp only [openDesc, push, truncate_next])
      · rw [if_neg truncates]
        split
        · exact .keeps rfl rfl le_rfl
        · exact .pushed (.opened place found) rfl rfl rfl

theorem openNew_effect {fd start : Nat} {follow : Bool} {path : String} {flags : OpenFlags}
    (place : m.fds.lookup fd = some (.node start))
    (absent : m.fs.resolveAt start path follow = none) :
    m.Effected (.openAt fd follow path flags) (m.openNew start path flags).1 := by
  unfold openNew
  split
  · exact .keeps rfl rfl le_rfl
  · next asked =>
      split
      · exact .keeps rfl rfl le_rfl
      · next p name landing =>
          split
          · exact .keeps rfl rfl le_rfl
          · next room =>
              exact .pushed (.created place (by simpa using asked) absent landing
                (by simpa using room)) rfl rfl rfl

theorem openAt_effect (fd : Nat) (follow : Bool) (path : String) (flags : OpenFlags) :
    m.Effected (.openAt fd follow path flags) (m.openAt env fd follow path flags).1 := by
  unfold openAt
  split
  · exact .keeps rfl rfl le_rfl
  · exact remoteOpen_effect ..
  · next start place =>
      split
      · exact remoteOpen_effect ..
      · split
        · next id found => exact openExisting_effect place found
        · next absent => exact openNew_effect place absent

theorem close_effect (fd : Nat) : m.Effected (.close fd) (m.close env fd).1 := by
  unfold close
  split
  · exact .keeps rfl rfl le_rfl
  · next id place => exact .erased (.closed place) rfl rfl rfl
  · next r place =>
      dsimp only
      split
      · split <;> exact .erased (.closedRemote place) rfl rfl rfl
      · exact .erased (.closedRemote place) rfl rfl rfl

theorem createDirectoryAt_effect (fd : Nat) (path : String) :
    m.Effected (.createDirectoryAt fd path) (m.createDirectoryAt env fd path).1 := by
  unfold createDirectoryAt
  split
  · exact .keeps rfl rfl le_rfl
  · next place held =>
      split
      · split
        · exact .keeps rfl rfl le_rfl
        · exact forward_effect ..
      · exact .keeps rfl rfl le_rfl
      · split
        · exact .keeps rfl rfl le_rfl
        · next start _ =>
            split
            · exact .keeps rfl rfl le_rfl
            · next p name landing =>
                split
                · exact .keeps rfl rfl le_rfl
                · next free =>
                    split
                    · exact .keeps rfl rfl le_rfl
                    · next room =>
                        exact .named (.madeDirectory held landing (by simpa using free)
                          (by simpa using room)) rfl rfl le_rfl

theorem linkAt_effect (fd : Nat) (follow : Bool) (oldPath : String) (newFd : Nat)
    (newPath : String) :
    m.Effected (.linkAt fd follow oldPath newFd newPath)
      (m.linkAt fd follow oldPath newFd newPath).1 := by
  unfold linkAt
  split
  · next oldStart newStart oldPlace newPlace =>
      split
      · exact .keeps rfl rfl le_rfl
      · next id found =>
          split
          · exact .keeps rfl rfl le_rfl
          · exact .keeps rfl rfl le_rfl
          · next node notDir present =>
              split
              · exact .keeps rfl rfl le_rfl
              · next writable =>
                  split
                  · exact .keeps rfl rfl le_rfl
                  · next p name landing =>
                      split
                      · exact .keeps rfl rfl le_rfl
                      · next free =>
                          have leaf : m.fs.isDir id = false := by
                            cases isDir : m.fs.isDir id with
                            | false => rfl
                            | true =>
                              obtain ⟨children, here⟩ := Fs.isDir_iff.1 isDir
                              rw [present] at here
                              exact absurd (Option.some.inj here) (notDir children)
                          exact .named (.linked oldPlace newPlace found (Table.mem_of_lookup present)
                            leaf writable landing (by simpa using free)) rfl rfl le_rfl
  · exact .keeps rfl rfl le_rfl
  · exact .keeps rfl rfl le_rfl

theorem symlinkAt_effect (fd : Nat) (srcPath destPath : String) :
    m.Effected (.symlinkAt fd srcPath destPath) (m.symlinkAt fd srcPath destPath).1 := by
  unfold symlinkAt
  split
  · exact .keeps rfl rfl le_rfl
  · exact .keeps rfl rfl le_rfl
  · next start place =>
      split
      · exact .keeps rfl rfl le_rfl
      · split
        · exact .keeps rfl rfl le_rfl
        · next p name landing =>
            split
            · exact .keeps rfl rfl le_rfl
            · next free =>
                split
                · exact .keeps rfl rfl le_rfl
                · next room =>
                    exact .named (.symlinked place landing (by simpa using free)
                      (by simpa using room)) rfl rfl le_rfl

theorem renameHere_effect {fd newFd oldStart newStart : Nat} {oldPath newPath : String}
    (oldPlace : m.fds.lookup fd = some (.node oldStart))
    (newPlace : m.fds.lookup newFd = some (.node newStart)) :
    m.Effected (.renameAt fd oldPath newFd newPath)
      (m.renameHere oldStart oldPath newStart newPath).1 := by
  unfold renameHere
  split
  · exact .keeps rfl rfl le_rfl
  · next oldParent oldName leaving =>
      split
      · exact .keeps rfl rfl le_rfl
      · next id entry =>
          split
          · exact .keeps rfl rfl le_rfl
          · next writable =>
              split
              · exact .keeps rfl rfl le_rfl
              · next newParent newName landing =>
                  exact .named (.renamed oldPlace newPlace leaving entry writable landing) rfl rfl
                    le_rfl

theorem renameAt_effect (fd : Nat) (oldPath : String) (newFd : Nat) (newPath : String) :
    m.Effected (.renameAt fd oldPath newFd newPath) (m.renameAt env fd oldPath newFd newPath).1 := by
  unfold renameAt
  split
  · next oldPlace newPlace heldOld heldNew =>
      split
      · split
        · exact .keeps rfl rfl le_rfl
        · split
          · exact .keeps rfl rfl le_rfl
          · exact forward_effect ..
      · exact .keeps rfl rfl le_rfl
      · exact .keeps rfl rfl le_rfl
      · split
        · exact renameHere_effect heldOld heldNew
        · exact .keeps rfl rfl le_rfl
  · exact .keeps rfl rfl le_rfl

theorem unlink_effect (fd : Nat) (path : String) (dir : Bool) :
    m.Effected (Op.unlinks dir fd path) (m.unlink env fd path dir).1 := by
  unfold unlink
  split
  · exact .keeps rfl rfl le_rfl
  · next place held =>
      split
      · split
        · exact .keeps rfl rfl le_rfl
        · exact forward_effect ..
      · split
        · exact .keeps rfl rfl le_rfl
        · split
          · exact .keeps rfl rfl le_rfl
          · next p name leaving =>
              split
              · exact .keeps rfl rfl le_rfl
              · next id entry =>
                  split
                  · exact .keeps rfl rfl le_rfl
                  · next writable =>
                      split
                      · exact .keeps rfl rfl le_rfl
                      · next allowed =>
                          exact .named (.unlinked held leaving entry writable allowed) rfl rfl le_rfl

/-! ## Data operations -/

/-- At most the bytes of one file of the filesystem itself change. -/
def Writes (m m' : Machine) : Prop :=
  m'.fds = m.fds ∧ m.next ≤ m'.next ∧
    (m'.fs = m.fs ∨ ∃ id bytes, m.fs.HoldsBytes id ∧ m'.fs = m.fs.setBytes id bytes)

theorem Writes.effected {m' : Machine} {op : Op} (writes : m.Writes m')
    (data : op.handlesData = true) : m.Effected op m' := by
  obtain ⟨fds, next, fs | ⟨id, bytes, holds, fs⟩⟩ := writes
  · exact .keeps fs fds next
  · exact .named (.wrote op bytes data holds) fs fds next

theorem writes_same {m' : Machine} (fs : m'.fs = m.fs) (fds : m'.fds = m.fds)
    (next : m.next ≤ m'.next) : m.Writes m' :=
  ⟨fds, next, .inl fs⟩

theorem Writes.pushStream {m' : Machine} (writes : m.Writes m') (dst : WriteDst) (offset : Nat) :
    m.Writes (m'.pushStream dst offset).1 :=
  ⟨writes.1, writes.2.1.trans (Nat.le_succ _), writes.2.2⟩

theorem touchLayer_writes (id : Nat) : m.Writes (m.touchLayer id) :=
  writes_same (touchLayer_fs id) (touchLayer_fds id) (touchLayer_next id).ge

theorem writes_of_eq {m' : Machine} {β : Type} {result : Machine × β} {answer : β}
    (writes : m.Writes result.1) (eq : result = (m', answer)) : m.Writes m' := by
  rw [eq] at writes
  exact writes

/-- After a copy-up the file is private, with what the layer held if it was one. -/
theorem copyUp_cases (m : Machine) (id : Nat) :
    ((m.copyUp id).fs = m.fs ∧ ∀ layer, m.fs.nodes.lookup id ≠ some (.roFile layer)) ∨
      ∃ layer, m.fs.nodes.lookup id = some (.roFile layer) ∧
        (m.copyUp id).fs = m.fs.setBytes id (m.backing.layer layer) := by
  unfold copyUp
  split
  · next layer found => exact .inr ⟨layer, found, rfl⟩
  · next other => exact .inl ⟨rfl, other⟩

theorem copyUp_writes (id : Nat) : m.Writes (m.copyUp id) := by
  refine ⟨copyUp_fds id, (copyUp_next id).ge, ?_⟩
  rcases copyUp_cases m id with ⟨same, _⟩ | ⟨layer, found, fs⟩
  · exact .inl same
  · exact .inr ⟨id, _, .inr ⟨layer, found⟩, fs⟩

/-- Writing after a copy-up is one write. -/
theorem writes_copyUp {m' : Machine} {id : Nat} {old new : Bytes}
    (found : (m.copyUp id).fs.nodes.lookup id = some (.file old)) (fds : m'.fds = m.fds)
    (next : m'.next = m.next) (fs : m'.fs = (m.copyUp id).fs.setBytes id new) : m.Writes m' := by
  refine ⟨fds, next.ge, .inr ⟨id, new, ?_⟩⟩
  rcases copyUp_cases m id with ⟨same, _⟩ | ⟨layer, wasLayer, up⟩
  · rw [same] at found fs
    exact ⟨.inl ⟨old, found⟩, fs⟩
  · rw [up, Fs.setBytes_setBytes] at fs
    exact ⟨.inr ⟨layer, wasLayer⟩, fs⟩

theorem writeNode_writes (id offset : Nat) (bytes : Bytes) :
    m.Writes (m.writeNode id offset bytes).1 := by
  unfold writeNode
  dsimp only
  split
  · next old found =>
      split
      · next data _ => exact writes_copyUp found (copyUp_fds id) (copyUp_next id) rfl
      · exact copyUp_writes id
  · exact copyUp_writes id

theorem writeShared_writes (cell offset : Nat) (bytes : Bytes) :
    m.Writes (m.writeShared cell offset bytes).1 := by
  unfold writeShared
  split <;> exact writes_same rfl rfl le_rfl

theorem writeHost_writes (path : String) (offset : Nat) (bytes : Bytes) :
    m.Writes (m.writeHost env path offset bytes).1 := by
  unfold writeHost
  split <;> exact writes_same rfl rfl le_rfl

theorem writeRemote_writes (r : RemoteDesc) (handle offset : Nat) (bytes : Bytes) :
    m.Writes (m.writeRemote env r handle offset bytes).1 := by
  unfold writeRemote
  dsimp only
  split <;> exact writes_same rfl rfl le_rfl

@[simp] theorem report_fst (count : Nat) (result : Machine × Except ErrorCode Unit) :
    (report count result).1 = result.1 := by
  unfold report
  split <;> rfl

theorem write_writes (fd : Nat) (buf : Bytes) (offset : Nat) :
    m.Writes (m.write env fd buf offset).1 := by
  unfold write
  split
  · exact writes_same rfl rfl le_rfl
  · split
    · exact writes_same rfl rfl le_rfl
    · split
      · exact writes_same rfl rfl le_rfl
      · split
        · exact writes_same rfl rfl le_rfl
        · split
          · next written => exact writes_of_eq (writeRemote_writes ..) written
          · next failed => exact writes_of_eq (writeRemote_writes ..) failed
  · split
    · exact writes_same rfl rfl le_rfl
    · split
      · rw [report_fst]; exact writeNode_writes ..
      · rw [report_fst]; exact writeNode_writes ..
      · rw [report_fst]; exact writeShared_writes ..
      · rw [report_fst]; exact writeHost_writes ..
      all_goals exact writes_same rfl rfl le_rfl

theorem setSize_writes (fd size : Nat) : m.Writes (m.setSize env fd size).1 := by
  have forwards : ∀ conn req, m.Writes (m.forward env conn req).1 := by
    intro conn req
    unfold forward
    split <;> exact writes_same rfl rfl le_rfl
  unfold setSize
  split
  · exact writes_same rfl rfl le_rfl
  · split
    · exact writes_same rfl rfl le_rfl
    · split
      · exact writes_same rfl rfl le_rfl
      · split
        · exact writes_same rfl rfl le_rfl
        · exact forwards ..
  · split
    · exact writes_same rfl rfl le_rfl
    · split
      · exact writes_same rfl rfl le_rfl
      · split
        · dsimp only
          split
          · next found => exact writes_copyUp found (copyUp_fds _) (copyUp_next _) rfl
          · exact copyUp_writes _
        · dsimp only
          split
          · next found => exact writes_copyUp found (copyUp_fds _) (copyUp_next _) rfl
          · exact copyUp_writes _
        · exact writes_same rfl rfl le_rfl
        · split <;> exact writes_same rfl rfl le_rfl
        all_goals exact writes_same rfl rfl le_rfl

theorem readRemote_writes (r : RemoteDesc) (offset len : Nat) :
    m.Writes (m.readRemote env r offset len).1 := by
  unfold readRemote
  split
  · exact writes_same rfl rfl le_rfl
  · split
    · exact writes_same rfl rfl le_rfl
    · dsimp only
      split <;> exact writes_same rfl rfl le_rfl

theorem read_writes (fd len offset : Nat) : m.Writes (m.read env fd len offset).1 := by
  unfold read
  split
  · exact writes_same rfl rfl le_rfl
  · exact readRemote_writes ..
  · dsimp only
    split
    · exact touchLayer_writes _
    · split <;> exact writes_same rfl rfl le_rfl

theorem readViaStream_writes (fd offset : Nat) : m.Writes (m.readViaStream env fd offset).1 := by
  unfold readViaStream
  split
  · exact writes_same rfl rfl le_rfl
  · exact readRemote_writes ..
  · split
    · exact touchLayer_writes _
    · split <;> exact writes_same rfl rfl le_rfl

theorem send_writes (conn : NodeId) (req : FsOp) : m.Writes (m.send conn req) :=
  writes_same rfl rfl le_rfl

theorem streamRemote_writes (r : RemoteDesc) (offset : Option Nat)
    (statFailed : FsError → ErrorCode) : m.Writes (m.streamRemote env r offset statFailed).1 := by
  unfold streamRemote
  split
  · exact writes_same rfl rfl le_rfl
  · split
    · exact writes_same rfl rfl le_rfl
    · split
      · exact writes_same rfl rfl le_rfl
      · split
        · exact (writes_same rfl rfl le_rfl).pushStream _ _
        · split
          · exact (send_writes _ _).pushStream _ _
          · exact send_writes _ _
          · exact send_writes _ _

/-- What opening an output stream leaves: the machine as it was, what asking a provider leaves,
or one stream more, on what the descriptor's node is. -/
inductive OpensStream (m : Machine) (env : Env) (fd : Nat) : Machine → Prop where
  | same : OpensStream m env fd m
  | remote {r : RemoteDesc} (place : m.fds.lookup fd = some (.remote r)) (offset : Option Nat)
      (statFailed : FsError → ErrorCode) : OpensStream m env fd (m.streamRemote env r offset statFailed).1
  | touched (id offset : Nat) : OpensStream m env fd ((m.touchLayer id).pushStream (.node id) offset).1
  | copied (id offset : Nat) : OpensStream m env fd ((m.copyUp id).pushStream (.node id) offset).1
  | shared {id cell : Nat} (unmarked : id ∉ m.fs.readonly) (kind : m.fs.nodeKind id = .shared cell)
      (offset : Nat) : OpensStream m env fd (m.pushStream (.shared cell) offset).1
  | host {id : Nat} {path : String} (unmarked : id ∉ m.fs.readonly) (kind : m.fs.nodeKind id = .host path)
      (offset : Nat) : OpensStream m env fd (m.pushStream (.host path) offset).1
  | device (offset : Nat) : OpensStream m env fd (m.pushStream .null offset).1

theorem writeViaStream_opens (fd offset : Nat) : m.OpensStream env fd (m.writeViaStream env fd offset).1 := by
  unfold writeViaStream
  split
  · exact .same
  · next place => exact .remote place _ _
  · split
    · exact .same
    · next unmarked =>
      split
      iterate 2 exact .touched _ _
      · next kind => exact .shared unmarked kind _
      · next kind => exact .host unmarked kind _
      iterate 3 exact .device _
      · exact .same

theorem writeViaStream3_opens (fd offset : Nat) : m.OpensStream env fd (m.writeViaStream3 env fd offset).1 := by
  unfold writeViaStream3
  split
  · exact .same
  · next place => exact .remote place _ _
  · split
    · exact .same
    · next unmarked =>
      split
      iterate 2 exact .touched _ _
      · next kind => exact .shared unmarked kind _
      · next kind => exact .host unmarked kind _
      iterate 3 exact .device _
      iterate 2 exact .same

theorem appendFrom_opens (fd : Nat) (statFailed : FsError → ErrorCode) :
    m.OpensStream env fd (m.appendFrom env fd statFailed).1 := by
  unfold appendFrom
  split
  · exact .same
  · next place => exact .remote place _ _
  · split
    · exact .same
    · next unmarked =>
      split
      iterate 2 exact .copied _ _
      · next kind => exact .shared unmarked kind _
      · next kind => exact .host unmarked kind _
      iterate 3 exact .device _
      iterate 2 exact .same

theorem OpensStream.writes {m' : Machine} {fd : Nat} (opens : m.OpensStream env fd m') : m.Writes m' := by
  cases opens with
  | same => exact writes_same rfl rfl le_rfl
  | remote => exact streamRemote_writes ..
  | touched => exact (touchLayer_writes _).pushStream _ _
  | copied => exact (copyUp_writes _).pushStream _ _
  | shared | host | device => exact (writes_same rfl rfl le_rfl).pushStream _ _

theorem writeDst_writes (dst : WriteDst) (offset : Nat) (bytes : Bytes) :
    m.Writes (m.writeDst env dst offset bytes).1 := by
  unfold writeDst
  dsimp only
  split
  · exact writeNode_writes ..
  · exact writeShared_writes ..
  · exact writeHost_writes ..
  · exact writes_same rfl rfl le_rfl
  · split
    · exact writes_same rfl rfl le_rfl
    · exact writeRemote_writes ..

theorem streamWrite_writes (handle : Nat) (bytes : Bytes) :
    m.Writes (m.streamWrite env handle bytes).1 := by
  unfold streamWrite
  split
  · exact writes_same rfl rfl le_rfl
  · split
    · next written =>
        have wrote := writes_of_eq (writeDst_writes ..) written
        exact wrote
    · next failed =>
        have wrote := writes_of_eq (writeDst_writes ..) failed
        exact wrote

theorem consumerWrite_writes (handle : Nat) (bytes : Bytes) :
    m.Writes (m.consumerWrite env handle bytes).1 := by
  unfold consumerWrite
  split
  · exact writes_same rfl rfl le_rfl
  · split
    · next written =>
        have wrote := writes_of_eq (writeDst_writes ..) written
        exact wrote
    · next failed =>
        have wrote := writes_of_eq (writeDst_writes ..) failed
        exact wrote

/-- **The list of effects is complete.** -/
theorem step_effect (m : Machine) (env : Env) (op : Op) : m.Effected op (m.step env op).1 := by
  cases op with
  | getDirectories => exact .pushed .openedRoot rfl rfl rfl
  | openAt fd follow path flags => exact openAt_effect fd follow path flags
  | close fd => exact close_effect fd
  | createDirectoryAt fd path => exact createDirectoryAt_effect fd path
  | linkAt fd follow oldPath newFd newPath => exact linkAt_effect fd follow oldPath newFd newPath
  | symlinkAt fd srcPath destPath => exact symlinkAt_effect fd srcPath destPath
  | renameAt fd oldPath newFd newPath => exact renameAt_effect fd oldPath newFd newPath
  | unlinkFileAt fd path => exact unlink_effect fd path false
  | removeDirectoryAt fd path => exact unlink_effect fd path true
  | read fd len offset => exact (read_writes fd len offset).effected rfl
  | readViaStream fd offset => exact (readViaStream_writes fd offset).effected rfl
  | write fd buf offset => exact (write_writes fd buf offset).effected rfl
  | setSize fd size => exact (setSize_writes fd size).effected rfl
  | writeViaStream fd offset => exact (writeViaStream_opens fd offset).writes.effected rfl
  | appendViaStream fd => exact (appendFrom_opens fd _).writes.effected rfl
  | streamWrite handle bytes => exact (streamWrite_writes handle bytes).effected rfl
  | writeViaStream3 fd offset => exact (writeViaStream3_opens fd offset).writes.effected rfl
  | appendViaStream3 fd => exact (appendFrom_opens fd _).writes.effected rfl
  | consumerWrite handle bytes => exact (consumerWrite_writes handle bytes).effected rfl

end Machine

end Wk.Vfs
