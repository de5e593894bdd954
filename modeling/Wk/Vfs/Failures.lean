/-
# Wk.Vfs.Failures -- what a failed operation leaves behind

An operation that returns an error code should have changed nothing.  Two operations act
before they have checked everything: opening with `truncate` empties a file before it is
seen to be no directory, and a write turns a layer file into a private copy before its
size is checked.

* `settled_iff`: every other failed operation, and each of these where there is nothing to
  empty or to copy, leaves the nodes, the read-only set and all bytes outside as they were.

Poles: `emptied_and_refused` (a file is emptied by an open that fails).
-/
import Wk.Vfs.Deeds

namespace Wk.Vfs

open Wk.Library Wk.Provider

set_option autoImplicit false

/-- The operations that are supposed to take effect whole or not at all. -/
def Op.atomic : Op → Bool
  | .openAt .. | .createDirectoryAt .. | .linkAt .. | .symlinkAt .. | .renameAt .. => true
  | .unlinkFileAt .. | .removeDirectoryAt .. | .write .. | .setSize .. => true
  | _ => false

namespace Machine

variable {m m' : Machine} {env : Env}

/-- The same nodes, the same read-only set and the same bytes outside. -/
structure Unchanged (m m' : Machine) : Prop where
  nodes : ∀ id, m'.fs.nodes.lookup id = m.fs.nodes.lookup id
  readonly : m'.fs.readonly = m.fs.readonly
  cells : ∀ cell, m'.backing.cell cell = m.backing.cell cell
  files : ∀ path, m'.backing.file path = m.backing.file path

/-- If the operation failed, nothing has changed. -/
def Settled (m : Machine) (result : Machine × Answer) : Prop :=
  ∀ e, result.2 = .code e → m.Unchanged result.1

/-- The store is a layer file, not copied up. -/
def OnLayer (m : Machine) (s : Store) : Prop :=
  ∃ id layer, s = .node id ∧ m.fs.nodes.lookup id = some (.roFile layer)

/-- Emptying the store changes something. -/
def Fills (m : Machine) (env : Env) (s : Store) : Prop :=
  m.OnLayer s ∨ s.takes env 0 = true ∧ m.stored s ≠ []

/-- The two ways to fail after an effect: there is something to empty, and it is no
directory; or a layer file is written past the size cap. -/
def Spoils (m : Machine) (env : Env) : Op → Prop
  | .openAt fd follow path flags =>
    flags.truncate = true ∧ flags.directory = true ∧ flags.exclusive = false ∧
      ∃ s, m.emptied fd follow path = some s ∧ m.Fills env s
  | .write fd buf offset =>
    maxFileSize < offset + buf.length ∧ ∃ s, m.writable fd = some s ∧ m.OnLayer s
  | _ => False

namespace Settled

variable {result : Machine × Answer}

theorem same (fs : result.1.fs = m.fs) (backing : result.1.backing = m.backing) : m.Settled result :=
  fun _ _ => ⟨fun _ => by rw [fs], by rw [fs], fun _ => by rw [backing], fun _ => by rw [backing]⟩

theorem done (fine : ∀ e, result.2 ≠ .code e) : m.Settled result := fun e failed => absurd failed (fine e)

end Settled

/-! ## Checking first -/

theorem forward_settled (conn : NodeId) (req : FsOp) : m.Settled (m.forward env conn req) := by
  unfold forward
  split <;> exact .same rfl rfl

theorem remoteOpen_settled (conn : NodeId) (readonly : Bool) (path : String) (flags : OpenFlags) :
    m.Settled (m.remoteOpen env conn readonly path flags) := by
  unfold remoteOpen
  dsimp only
  repeat' split
  all_goals exact .same rfl rfl

theorem openNew_settled (start : Nat) (path : String) (flags : OpenFlags) :
    m.Settled (m.openNew start path flags) := by
  unfold openNew
  split
  · exact .same rfl rfl
  · split
    · exact .same rfl rfl
    · split
      · exact .same rfl rfl
      · exact .done fun _ opened => by cases opened

theorem createDirectoryAt_settled (fd : Nat) (path : String) :
    m.Settled (m.createDirectoryAt env fd path) := by
  unfold createDirectoryAt
  split
  · exact .same rfl rfl
  · split
    · split
      · exact .same rfl rfl
      · exact forward_settled _ _
    · exact .same rfl rfl
    · split
      · exact .same rfl rfl
      · split
        · exact .same rfl rfl
        · split
          · exact .same rfl rfl
          · split
            · exact .same rfl rfl
            · exact .done fun _ made => by cases made

theorem linkAt_settled (fd : Nat) (follow : Bool) (oldPath : String) (newFd : Nat) (newPath : String) :
    m.Settled (m.linkAt fd follow oldPath newFd newPath) := by
  unfold linkAt
  split
  · split
    · exact .same rfl rfl
    · split
      · exact .same rfl rfl
      · exact .same rfl rfl
      · split
        · exact .same rfl rfl
        · split
          · exact .same rfl rfl
          · split
            · exact .same rfl rfl
            · exact .done fun _ linked => by cases linked
  · exact .same rfl rfl
  · exact .same rfl rfl

theorem symlinkAt_settled (fd : Nat) (srcPath destPath : String) :
    m.Settled (m.symlinkAt fd srcPath destPath) := by
  unfold symlinkAt
  split
  · exact .same rfl rfl
  · exact .same rfl rfl
  · split
    · exact .same rfl rfl
    · split
      · exact .same rfl rfl
      · split
        · exact .same rfl rfl
        · split
          · exact .same rfl rfl
          · exact .done fun _ made => by cases made

theorem renameHere_settled (oldStart : Nat) (oldPath : String) (newStart : Nat) (newPath : String) :
    m.Settled (m.renameHere oldStart oldPath newStart newPath) := by
  unfold renameHere
  split
  · exact .same rfl rfl
  · split
    · exact .same rfl rfl
    · split
      · exact .same rfl rfl
      · split
        · exact .same rfl rfl
        · exact .done fun _ moved => by cases moved

theorem renameAt_settled (fd : Nat) (oldPath : String) (newFd : Nat) (newPath : String) :
    m.Settled (m.renameAt env fd oldPath newFd newPath) := by
  unfold renameAt
  split
  · split
    · split
      · exact .same rfl rfl
      · split
        · exact .same rfl rfl
        · exact forward_settled _ _
    · exact .same rfl rfl
    · exact .same rfl rfl
    · split
      · exact renameHere_settled _ _ _ _
      · exact .same rfl rfl
  · exact .same rfl rfl

theorem unlink_settled (fd : Nat) (path : String) (dir : Bool) : m.Settled (m.unlink env fd path dir) := by
  unfold unlink
  split
  · exact .same rfl rfl
  · split
    · split
      · exact .same rfl rfl
      · exact forward_settled _ _
    · split
      · exact .same rfl rfl
      · split
        · exact .same rfl rfl
        · split
          · exact .same rfl rfl
          · split
            · exact .same rfl rfl
            · split
              · exact .same rfl rfl
              · exact .done fun _ gone => by cases gone

theorem setSize_settled (fd size : Nat) : m.Settled (m.setSize env fd size) := by
  unfold setSize
  split
  · exact .same rfl rfl
  · split
    · exact .same rfl rfl
    · split
      · exact .same rfl rfl
      · split
        · exact .same rfl rfl
        · exact forward_settled _ _
  · split
    · exact .same rfl rfl
    · split
      · exact .same rfl rfl
      · split
        · dsimp only
          split <;> exact .done fun _ sized => by cases sized
        · dsimp only
          split <;> exact .done fun _ sized => by cases sized
        · exact .done fun _ sized => by cases sized
        · split
          · exact .done fun _ sized => by cases sized
          · exact .same rfl rfl
        all_goals exact .same rfl rfl

/-! ## Acting first -/

/-- A layer file written past the cap is copied up all the same. -/
theorem write_past {fd id offset layer : Nat} {buf : Bytes} (place : m.fds.lookup fd = some (.node id))
    (unguarded : id ∉ m.fs.readonly) (found : m.fs.nodes.lookup id = some (.roFile layer))
    (large : maxFileSize < offset + buf.length) :
    m.write env fd buf offset = (m.copyUp id, .code .fileTooLarge) := by
  have kind : m.fs.nodeKind id = .ro := by rw [Fs.nodeKind, found]
  simp only [write, place, if_neg unguarded, kind, writeNode, copyUp_file (.inr ⟨layer, found⟩), writeAt,
    if_pos large, report]

theorem writeNode_settled {id offset count : Nat} {bytes : Bytes} (holds : m.fs.HoldsBytes id)
    (spared : maxFileSize < offset + bytes.length → ¬ m.OnLayer (.node id)) :
    m.Settled (report count (m.writeNode id offset bytes)) := by
  unfold writeNode
  dsimp only
  rw [copyUp_file holds]
  dsimp only [writeAt]
  by_cases large : maxFileSize < offset + bytes.length
  · rw [if_pos large]
    have private_ : m.copyUp id = m := by
      unfold copyUp
      split
      · next layer found => exact absurd ⟨id, layer, rfl, found⟩ (spared large)
      · rfl
    rw [private_]
    exact .same rfl rfl
  · rw [if_neg large]
    exact .done fun _ wrote => by cases wrote

theorem write_settled {fd offset : Nat} {buf : Bytes} (spared : ¬ m.Spoils env (.write fd buf offset)) :
    m.Settled (m.write env fd buf offset) := by
  unfold write
  split
  · exact .same rfl rfl
  · split
    · exact .same rfl rfl
    · split
      · exact .same rfl rfl
      · split
        · exact .same rfl rfl
        · split
          · exact .done fun _ wrote => by cases wrote
          · next failed =>
              have sent := congrArg Prod.fst failed
              unfold writeRemote at sent
              dsimp only at sent
              split at sent <;> subst sent <;> exact .same rfl rfl
  · next id place =>
      split
      · exact .same rfl rfl
      · next unguarded =>
          have inside : m.fs.nodeKind id = .file ∨ m.fs.nodeKind id = .ro →
              m.Settled (report buf.length (m.writeNode id offset buf)) := by
            intro kind
            have holds := Fs.holdsBytes_of_kind kind
            refine writeNode_settled holds fun large layered => spared ⟨large, .node id, ?_, layered⟩
            rw [writable_node place unguarded, store_node_iff.2 ⟨rfl, holds⟩]
          split
          · next kind => exact inside (.inl kind)
          · next kind => exact inside (.inr kind)
          · unfold writeShared
            split
            · exact .done fun _ wrote => by cases wrote
            · exact .same rfl rfl
          · unfold writeHost
            split
            · exact .done fun _ wrote => by cases wrote
            · exact .same rfl rfl
          all_goals exact .same rfl rfl

theorem spoils_write {fd offset : Nat} {buf : Bytes} (spoils : m.Spoils env (.write fd buf offset)) :
    ¬ m.Settled (m.write env fd buf offset) := by
  obtain ⟨large, s, writable, id, layer, rfl, found⟩ := spoils
  intro settled
  unfold Machine.writable at writable
  split at writable
  · next id' place =>
      split at writable
      · cases writable
      · next unguarded =>
          obtain ⟨rfl, -⟩ := store_node_iff.1 writable
          rw [write_past place unguarded found large] at settled
          have same := (settled _ rfl).nodes id
          rw [copyUp_file (.inr ⟨layer, found⟩), found] at same
          cases same
  · cases writable

theorem not_onLayer {s : Store} (outside : ∀ id layer, s = .node id → m.fs.nodes.lookup id ≠ some (.roFile layer)) :
    ¬ m.OnLayer s := by
  rintro ⟨id, layer, here, found⟩
  exact outside id layer here found

/-- Emptying a store shows exactly if there was something in it. -/
theorem unchanged_truncate_iff {id : Nat} :
    m.Unchanged (m.truncate env id) ↔ ∀ s, m.store id = some s → ¬ m.Fills env s := by
  have refl : m.Unchanged m := ⟨fun _ => rfl, rfl, fun _ => rfl, fun _ => rfl⟩
  have only : ∀ s, m.store id = some s → ((∀ t, m.store id = some t → ¬ m.Fills env t) ↔ ¬ m.Fills env s) := by
    intro s here
    constructor
    · intro all
      exact all s here
    · intro spared t there
      rw [here] at there
      cases there
      exact spared
  unfold truncate
  split
  · next bytes found =>
      have holds : m.fs.HoldsBytes id := .inl ⟨bytes, found⟩
      have spared : ¬ m.OnLayer (.node id) := by
        refine not_onLayer fun id' layer here layered => ?_
        cases here
        rw [found] at layered
        cases layered
      rw [only _ (store_node_iff.2 ⟨rfl, holds⟩), Fills, stored_file found]
      simp only [spared, false_or, Store.takes, Nat.zero_le, decide_true, true_and, not_not]
      constructor
      · intro same
        have now := same.nodes id
        rw [found] at now
        have cleared : some (FsNode.file []) = some (.file bytes) :=
          (AList.lookup_insert m.fs.nodes).symm.trans now
        cases cleared
        rfl
      · rintro rfl
        refine ⟨fun id' => ?_, rfl, fun _ => rfl, fun _ => rfl⟩
        by_cases here : id' = id
        · rw [here, found]
          exact AList.lookup_insert m.fs.nodes
        · exact AList.lookup_insert_ne here
  · next layer found =>
      have holds : m.fs.HoldsBytes id := .inr ⟨layer, found⟩
      rw [only _ (store_node_iff.2 ⟨rfl, holds⟩)]
      refine iff_of_false (fun same => ?_) fun spared => spared (.inl ⟨id, layer, rfl, found⟩)
      have now := same.nodes id
      rw [found] at now
      have cleared : some (FsNode.file []) = some (.roFile layer) :=
        (AList.lookup_insert m.fs.nodes).symm.trans now
      cases cleared
  · next cell found =>
      have here : m.store id = some (.cell cell) := by rw [store, Fs.nodeKind, found, Kind.store]
      have spared : ¬ m.OnLayer (.cell cell) := not_onLayer fun _ _ here => by cases here
      rw [only _ here, Fills]
      simp only [spared, false_or, Store.takes, Nat.zero_le, decide_true, true_and, not_not, stored]
      constructor
      · intro same
        rw [← same.cells cell]
        simp [Backing.cell, Backing.setCell]
      · intro empty
        refine ⟨fun _ => rfl, rfl, fun other => ?_, fun _ => rfl⟩
        by_cases same : other = cell
        · rw [same, empty]
          simp [Backing.cell, Backing.setCell]
        · simp [Backing.cell, Backing.setCell, AList.lookup_insert_ne same]
  · next path found =>
      have here : m.store id = some (.file path) := by rw [store, Fs.nodeKind, found, Kind.store]
      have spared : ¬ m.OnLayer (.file path) := not_onLayer fun _ _ here => by cases here
      rw [only _ here, Fills]
      simp only [spared, false_or, Store.takes, stored]
      split
      · next ok =>
          simp only [ok, true_and, not_not]
          constructor
          · intro same
            rw [← same.files path]
            simp [Backing.file, Backing.setFile]
          · intro empty
            refine ⟨fun _ => rfl, rfl, fun _ => rfl, fun other => ?_⟩
            by_cases same : other = path
            · rw [same, empty]
              simp [Backing.file, Backing.setFile]
            · simp [Backing.file, Backing.setFile, AList.lookup_insert_ne same]
      · next full => simp [full, refl]
  · next file layer shared host =>
      have nothing : m.store id = none := by
        unfold store Fs.nodeKind
        split <;> simp_all [Kind.store]
      refine iff_of_true refl fun s here => ?_
      rw [nothing] at here
      cases here

theorem truncate_notDir {id : Nat} {s : Store} (here : m.store id = some s) :
    (m.truncate env id).fs.isDir id = false := by
  obtain ⟨-, fs | ⟨holds, fs⟩⟩ := truncate_cases m env id
  · rw [fs]
    exact (store_some here).2
  · rw [fs, Fs.isDir, Fs.setBytes, AList.lookup_insert]

theorem openExisting_settled_iff {id : Nat} {flags : OpenFlags} :
    m.Settled (m.openExisting env id flags) ↔
      ¬ (flags.truncate = true ∧ flags.directory = true ∧ flags.exclusive = false ∧
        ∃ s, (if id ∈ m.fs.readonly then none else m.store id) = some s ∧ m.Fills env s) := by
  unfold openExisting
  cases exclusive : flags.exclusive with
  | true =>
    refine iff_of_true (.same rfl rfl) ?_
    rintro ⟨-, -, other, -⟩
    cases other
  | false =>
    cases truncates : flags.truncate with
    | false =>
      refine iff_of_true ?_ fun spoils => by cases spoils.1
      simp only [Bool.false_eq_true, if_false, Bool.false_and]
      split
      · exact .same rfl rfl
      · exact .done fun _ opened => by cases opened
    | true =>
      by_cases guarded : id ∈ m.fs.readonly
      · simp only [guarded, decide_true, Bool.and_self, if_true, Bool.false_eq_true, if_false]
        refine iff_of_true (.same rfl rfl) ?_
        rintro ⟨-, -, -, s, here, -⟩
        cases here
      · simp only [guarded, decide_false, Bool.and_false, Bool.false_eq_true, if_false, if_true, true_and]
        cases directory : flags.directory with
        | false =>
          refine iff_of_true (.done fun _ opened => by cases opened) fun spoils => by cases spoils.1
        | true =>
          simp only [Bool.true_and, true_and]
          constructor
          · rintro settled ⟨s, here, fills⟩
            rw [truncate_notDir here] at settled
            exact unchanged_truncate_iff.1 (settled _ rfl) s here fills
          · intro spared
            split
            · intro e _
              exact unchanged_truncate_iff.2 fun s here fills => spared ⟨s, here, fills⟩
            · exact .done fun _ opened => by cases opened

theorem openAt_settled_iff {fd : Nat} {follow : Bool} {path : String} {flags : OpenFlags} :
    m.Settled (m.openAt env fd follow path flags) ↔ ¬ m.Spoils env (.openAt fd follow path flags) := by
  have spared : m.emptied fd follow path = none → ¬ m.Spoils env (.openAt fd follow path flags) := by
    rintro nothing ⟨-, -, -, s, here, -⟩
    rw [nothing] at here
    cases here
  unfold openAt
  split
  · next absent => exact iff_of_true (.same rfl rfl) (spared (by simp [emptied, absent]))
  · next r place => exact iff_of_true (remoteOpen_settled _ _ _ _) (spared (by simp [emptied, place]))
  · next start place =>
      split
      · next remote =>
          exact iff_of_true (remoteOpen_settled _ _ _ _) (spared (by simp [emptied, place, remote]))
      · next here =>
          have inside : m.emptied fd follow path = (m.fs.resolveAt start path follow).bind fun id =>
              if id ∈ m.fs.readonly then none else m.store id := by
            simp only [emptied, place]
          split
          · next id found =>
              rw [Spoils, inside, found, Option.bind_some]
              exact openExisting_settled_iff
          · next absent =>
              exact iff_of_true (openNew_settled _ _ _) (spared (by rw [inside, absent]; rfl))

/-- **Failed operations change nothing**, unless a file is emptied or a layer file copied
up before the check that fails. -/
theorem settled_iff (m : Machine) (env : Env) {op : Op} (atomic : op.atomic = true) :
    m.Settled (m.step env op) ↔ ¬ m.Spoils env op := by
  cases op with
  | openAt fd follow path flags => exact openAt_settled_iff
  | write fd buf offset =>
    exact ⟨fun settled spoils => spoils_write spoils settled, fun spared => write_settled spared⟩
  | createDirectoryAt fd path => exact iff_of_true (createDirectoryAt_settled fd path) id
  | linkAt fd follow oldPath newFd newPath => exact iff_of_true (linkAt_settled fd follow oldPath newFd newPath) id
  | symlinkAt fd srcPath destPath => exact iff_of_true (symlinkAt_settled fd srcPath destPath) id
  | renameAt fd oldPath newFd newPath => exact iff_of_true (renameAt_settled fd oldPath newFd newPath) id
  | unlinkFileAt fd path => exact iff_of_true (unlink_settled fd path false) id
  | removeDirectoryAt fd path => exact iff_of_true (unlink_settled fd path true) id
  | setSize fd size => exact iff_of_true (setSize_settled fd size) id
  | _ => cases atomic

/-- One file with one byte, and a descriptor onto the root. -/
def oneByte : Machine := (boot (Fs.new.putFileAt "f" [1]) .empty).session [(.getDirectories, .quiet)]

theorem settled_iff_oneByte :
    oneByte.Settled (oneByte.step .quiet (.setSize 0 1)) ↔ ¬ oneByte.Spoils .quiet (.setSize 0 1) :=
  settled_iff oneByte .quiet rfl

/-- Opened as a directory that is to be emptied, the file is refused and empty. -/
theorem emptied_and_refused : ¬ ∀ (m : Machine) (env : Env) (op : Op), op.atomic = true →
    m.Settled (m.step env op) := by
  intro all
  have same := (all oneByte .quiet
    (.openAt 0 false "f" { directory := true, truncate := true }) rfl .notDirectory (by decide)).nodes 1
  have before : oneByte.fs.nodes.lookup 1 = some (.file [1]) := rfl
  rw [before] at same
  cases same

end Machine

end Wk.Vfs
