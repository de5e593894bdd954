/-
# Wk.Vfs.ReadOnly -- read-only mounts against the guest

A mount with `writable = false` marks its node id.  Two things are asked of the mark.
The bytes behind the mount are the guest's to read only: `Holds` says how a guest can
have a way to write to what is mounted (a mount that is not marked, a descriptor or a
stream got through one), `step_within` that no operation gains one, and so nothing is
written without one.  And the name stays where the host put it: unlinking, linking and
renaming look at the mark of the node they move, but neither renaming nor creating looks
at the node whose name is taken; `SparesEntry` is the condition that no name is.
-/
import Wk.Vfs.OpenFiles
import Wk.Vfs.Leaks

namespace Wk.Vfs

open Wk.Library Wk.Provider Relation

set_option autoImplicit false

/-- Where the bytes of what is mounted live, unless a provider has them. -/
def MountSource.store : MountSource → Option Store
  | .volume cell => some (.cell cell)
  | .hostFile path => some (.file path)
  | .provider _ => none

/-- What is written to a stream lands in what is mounted. -/
def WriteDst.Onto (source : MountSource) : WriteDst → Prop
  | .shared cell => source = .volume cell
  | .host path => source = .hostFile path
  | .remote r _ => source = .provider r.conn
  | _ => False

namespace Fs

variable {fs : Fs}

/-- Where a walk hands over to a provider there is a mount of it. -/
theorem walk_remote {crossing followFinal : Bool} {comps : List String} {cur : Nat}
    {ancestors : List Nat} {mount : Nat} {conn : NodeId} {rest : List String}
    (ends : fs.walk crossing followFinal comps cur ancestors = .remote mount conn rest) :
    fs.nodes.lookup mount = some (.provider conn) := by
  induction comps generalizing cur ancestors with
  | nil => cases ends
  | cons comp comps ih =>
    unfold walk at ends
    split at ends
    · exact ih ends
    · split at ends
      · split at ends
        · cases ends
        · split at ends
          · cases ends
          · split at ends
            · exact ih ends
            · cases ends
          · next conn' found =>
              split at ends
              · cases ends
                exact found
              · exact ih ends
          · exact ih ends
      · cases ends

theorem follow_remote {crossing followFinal : Bool} {mount : Nat} {conn : NodeId}
    {rest : List String} (hops : Nat) :
    ∀ {stop : WalkEnd}, fs.follow crossing followFinal hops stop = .remote mount conn rest →
      (∀ {m c r}, stop = .remote m c r → fs.nodes.lookup m = some (.provider c)) →
      fs.nodes.lookup mount = some (.provider conn) := by
  induction hops with
  | zero =>
    intro stop ends start
    cases stop with
    | remote m c r => cases ends; exact start rfl
    | _ => cases ends
  | succ hops ih =>
    intro stop ends start
    cases stop with
    | remote m c r => cases ends; exact start rfl
    | link target rest' cur ancestors =>
      simp only [follow] at ends
      split at ends <;> exact ih ends walk_remote
    | _ => cases ends

/-- A path that leads to a provider crosses a mount of it, with that mount's mark. -/
theorem resolvePlace_remote {start : Nat} {path rest : String} {followFinal readonly : Bool}
    {conn : NodeId} (place : fs.resolvePlace start path followFinal = .remote conn rest readonly) :
    ∃ mount, fs.nodes.lookup mount = some (.provider conn) ∧ (readonly = true ↔ mount ∈ fs.readonly) := by
  unfold resolvePlace at place
  split at place
  · next conn' found =>
      cases place
      exact ⟨_, found, by simp⟩
  · split at place
    · cases place
    · next mount conn' rest' ends =>
        cases place
        exact ⟨mount, follow_remote _ ends walk_remote, by simp⟩
    · cases place

theorem lookup_of_shared {id cell : Nat} (kind : fs.nodeKind id = .shared cell) :
    fs.nodes.lookup id = some (.shared cell) := by
  unfold nodeKind at kind
  split at kind <;> simp_all

theorem lookup_of_host {id : Nat} {path : String} (kind : fs.nodeKind id = .host path) :
    fs.nodes.lookup id = some (.host path) := by
  unfold nodeKind at kind
  split at kind <;> simp_all

end Fs

namespace Machine

variable {m m' : Machine} {env : Env} {source : MountSource}

/-- The guest has a way to write to what is mounted. -/
inductive Holds (m : Machine) (source : MountSource) : Prop
  | mount {id : Nat} (there : m.fs.nodes.lookup id = some source.node) (unmarked : id ∉ m.fs.readonly)
  | descriptor {fd : Nat} {r : RemoteDesc} (place : m.fds.lookup fd = some (.remote r))
      (behind : source = .provider r.conn) (unmarked : r.readonly = false)
  | stream {handle : Nat} {stream : OutputStream} (opened : m.streams.lookup handle = some stream)
      (onto : stream.dst.Onto source)

/-- A request that would change what the provider serves. -/
def changes (conn : NodeId) (request : NodeId × FsOp) : Bool := request.1 = conn && request.2.mutates

/-- What is mounted was not changed on the way to `m'`. -/
def Untouched (m m' : Machine) : MountSource → Prop
  | .volume cell => m'.backing.cell cell = m.backing.cell cell
  | .hostFile path => m'.backing.file path = m.backing.file path
  | .provider conn => m'.sent.filter (changes conn) = m.sent.filter (changes conn)

/-- In `m'` the guest has descriptors and streams to write only to what it could write to
in `m`, and only that it has written to. -/
structure Within (m m' : Machine) : Prop where
  fds : ∀ {fd r}, m'.fds.lookup fd = some (.remote r) → r.readonly = false →
    m.Holds (.provider r.conn)
  streams : ∀ {handle stream source}, m'.streams.lookup handle = some stream →
    stream.dst.Onto source → m.Holds source
  sent : ∀ {conn}, ¬ m.Holds (.provider conn) →
    m'.sent.filter (changes conn) = m.sent.filter (changes conn)

namespace Within

theorem keeps (fds : ∀ fd r, m'.fds.lookup fd = some (.remote r) → m.fds.lookup fd = some (.remote r))
    (streams : m'.streams = m.streams) (sent : m'.sent = m.sent) : m.Within m' where
  fds place unmarked := .descriptor (fds _ _ place) rfl unmarked
  streams opened onto := .stream (streams ▸ opened) onto
  sent _ := by rw [sent]

theorem same (fds : m'.fds = m.fds) (streams : m'.streams = m.streams) (sent : m'.sent = m.sent) :
    m.Within m' :=
  keeps (fun _ _ place => fds ▸ place) streams sent

theorem refl (m : Machine) : m.Within m := same rfl rfl rfl

/-- A request that changes something goes only where the guest may write. -/
theorem send (within : m.Within m') {conn : NodeId} {req : FsOp}
    (allowed : req.mutates = true → m.Holds (.provider conn)) : m.Within (m'.send conn req) where
  fds := within.fds
  streams := within.streams
  sent {conn'} barred := by
    have silent : changes conn' (conn, req) = false := by
      by_contra loud
      simp only [changes, Bool.and_eq_true, decide_eq_true_eq, Bool.not_eq_false] at loud
      exact barred (loud.1 ▸ allowed loud.2)
    rw [Machine.send, List.filter_cons_of_neg (by simp [silent]), within.sent barred]

theorem pushRemote (within : m.Within m') (r : RemoteDesc)
    (allowed : r.readonly = false → m.Holds (.provider r.conn)) : m.Within (m'.push (.remote r)).1 where
  fds {fd r'} place unmarked := by
    simp only [push, Table.lookup_insert_eq] at place
    split at place
    · cases place
      exact allowed unmarked
    · exact within.fds place unmarked
  streams := within.streams
  sent := within.sent

theorem pushNode (within : m.Within m') (id : Nat) : m.Within (m'.push (.node id)).1 where
  fds {fd r'} place unmarked := by
    simp only [push, Table.lookup_insert_eq] at place
    split at place
    · cases place
    · exact within.fds place unmarked
  streams := within.streams
  sent := within.sent

theorem pushStream (within : m.Within m') {dst : WriteDst} (offset : Nat)
    (allowed : ∀ source, dst.Onto source → m.Holds source) :
    m.Within (m'.pushStream dst offset).1 where
  fds := within.fds
  streams {handle stream source} opened onto := by
    simp only [Machine.pushStream, Table.lookup_insert_eq] at opened
    split at opened
    · cases opened
      exact allowed source onto
    · exact within.streams opened onto
  sent := within.sent

/-- The filesystem and the bytes outside do not matter here. -/
theorem congr {m'' : Machine} (within : m.Within m') (fds : m''.fds = m'.fds)
    (streams : m''.streams = m'.streams) (sent : m''.sent = m'.sent) : m.Within m'' where
  fds place := within.fds (fds ▸ place)
  streams opened := within.streams (streams ▸ opened)
  sent barred := by rw [sent, within.sent barred]

end Within

/-- A path across a provider mount is writable only where the guest may write. -/
theorem target_holds {fd : Nat} {place : DescPlace} {path rest : String} {follow readonly : Bool}
    {conn : NodeId} (held : m.fds.lookup fd = some place)
    (lands : m.target place path follow = .remote conn rest readonly) (unmarked : readonly = false) :
    m.Holds (.provider conn) := by
  cases place with
  | node start =>
    obtain ⟨mount, there, mark⟩ := Fs.resolvePlace_remote lands
    refine .mount there fun marked => ?_
    rw [mark.2 marked] at unmarked
    cases unmarked
  | remote r =>
    simp only [target] at lands
    cases lands
    exact .descriptor held rfl unmarked

theorem forward_within {conn : NodeId} {req : FsOp} (allowed : m.Holds (.provider conn)) :
    m.Within (m.forward env conn req).1 := by
  unfold forward
  split <;> exact (Within.refl m).send fun _ => allowed

theorem remoteOpen_within {conn : NodeId} {readonly : Bool} (path : String) (flags : OpenFlags)
    (allowed : readonly = false → m.Holds (.provider conn)) :
    m.Within (m.remoteOpen env conn readonly path flags).1 := by
  unfold remoteOpen
  split
  · exact .refl m
  · next refused =>
      have sent : m.Within (m.send conn (.open path flags.create flags.truncate flags.exclusive)) := by
        refine (Within.refl m).send fun mutates => allowed ?_
        simp only [FsOp.mutates] at mutates
        simpa [mutates] using refused
      dsimp only
      split
      · split
        · exact sent.send fun mutates => by cases mutates
        · exact sent.pushRemote _ allowed
      · exact sent
      · exact sent

theorem openDesc_within (within : m.Within m') (id : Nat) : m.Within (m'.openDesc id).1 :=
  (within.congr rfl rfl rfl : m.Within { m' with fs := m'.fs.openRef id }).pushNode id

theorem truncate_within (id : Nat) : m.Within (m.truncate env id) := by
  unfold truncate
  repeat' split
  all_goals exact .same rfl rfl rfl

theorem openAt_within (fd : Nat) (follow : Bool) (path : String) (flags : OpenFlags) :
    m.Within (m.openAt env fd follow path flags).1 := by
  unfold openAt
  split
  · exact .refl m
  · next r place => exact remoteOpen_within _ _ (.descriptor place rfl)
  · next start place =>
      split
      · next conn rest readonly lands =>
          exact remoteOpen_within _ _ (target_holds place lands)
      · split
        · unfold openExisting
          split
          · exact .refl m
          · split
            · exact .refl m
            · dsimp only
              split
              · split
                · exact truncate_within _
                · exact openDesc_within (truncate_within _) _
              · split
                · exact .refl m
                · exact openDesc_within (.refl m) _
        · unfold openNew
          repeat' split
          · exact .refl m
          · exact .refl m
          · exact .refl m
          · next parent name _ _ =>
              have entered : m.Within { m with fs := m.fs.enter parent name (.file []) } :=
                .same rfl rfl rfl
              exact openDesc_within entered _

theorem close_within (fd : Nat) : m.Within (m.close env fd).1 := by
  have erased : ∀ {fs : Fs}, m.Within { m with fs := fs, fds := m.fds.erase fd } :=
    .keeps (fun x r place => by
      rw [Table.lookup_erase_eq] at place
      split at place
      · cases place
      · exact place) rfl rfl
  unfold close
  split
  · exact .refl m
  · exact erased
  · dsimp only
    split
    · split
      · exact erased.send fun mutates => by cases mutates
      · exact erased
    · exact erased

theorem createDirectoryAt_within (fd : Nat) (path : String) :
    m.Within (m.createDirectoryAt env fd path).1 := by
  unfold createDirectoryAt
  split
  · exact .refl m
  · next place held =>
      split
      · next lands =>
          split
          · exact .refl m
          · next unmarked => exact forward_within (target_holds held lands (by simpa using unmarked))
      · exact .refl m
      · repeat' split
        all_goals exact .same rfl rfl rfl

theorem renameAt_within (fd : Nat) (oldPath : String) (newFd : Nat) (newPath : String) :
    m.Within (m.renameAt env fd oldPath newFd newPath).1 := by
  unfold renameAt
  split
  · next oldPlace newPlace heldOld heldNew =>
      split
      · next lands _ =>
          split
          · exact .refl m
          · split
            · exact .refl m
            · next unmarked =>
                exact forward_within (target_holds heldOld lands (by simpa using unmarked))
      · exact .refl m
      · exact .refl m
      · unfold renameHere
        repeat' split
        all_goals exact .same rfl rfl rfl
  · exact .refl m

theorem unlink_within (fd : Nat) (path : String) (dir : Bool) :
    m.Within (m.unlink env fd path dir).1 := by
  unfold unlink
  split
  · exact .refl m
  · next place held =>
      split
      · next lands =>
          split
          · exact .refl m
          · next unmarked => exact forward_within (target_holds held lands (by simpa using unmarked))
      · repeat' split
        all_goals exact .same rfl rfl rfl

theorem readRemote_within (r : RemoteDesc) (offset len : Nat) :
    m.Within (m.readRemote env r offset len).1 := by
  unfold readRemote
  dsimp only
  repeat' split
  · exact .refl m
  · exact .refl m
  all_goals exact (Within.refl m).send fun mutates => by cases mutates

theorem touchLayer_within (id : Nat) : m.Within (m.touchLayer id) := by
  unfold touchLayer
  split <;> exact .same rfl rfl rfl

theorem copyUp_within (id : Nat) : m.Within (m.copyUp id) := by
  unfold copyUp
  split <;> exact .same rfl rfl rfl

theorem writeNode_within (id offset : Nat) (bytes : Bytes) :
    m.Within (m.writeNode id offset bytes).1 := by
  unfold writeNode
  dsimp only
  repeat' split
  · exact (copyUp_within id).congr rfl rfl rfl
  · exact copyUp_within id
  · exact copyUp_within id

theorem writeRemote_within {r : RemoteDesc} (handle offset : Nat) (bytes : Bytes)
    (allowed : m.Holds (.provider r.conn)) :
    m.Within (m.writeRemote env r handle offset bytes).1 := by
  unfold writeRemote
  dsimp only
  split <;> exact (Within.refl m).send fun _ => allowed

theorem within_of_eq {β : Type} {result : Machine × β} {answer : β} (within : m.Within result.1)
    (eq : result = (m', answer)) : m.Within m' := by
  rw [eq] at within
  exact within

theorem write_within (fd : Nat) (buf : Bytes) (offset : Nat) :
    m.Within (m.write env fd buf offset).1 := by
  unfold write
  split
  · exact .refl m
  · next r place =>
      split
      · exact .refl m
      · next unmarked =>
          have allowed : m.Holds (.provider r.conn) := .descriptor place rfl (by simpa using unmarked)
          split
          · exact .refl m
          · split
            · exact .refl m
            · split
              · next written => exact within_of_eq (writeRemote_within _ _ _ allowed) written
              · next failed => exact within_of_eq (writeRemote_within _ _ _ allowed) failed
  · split
    · exact .refl m
    · split
      · rw [report_fst]; exact writeNode_within ..
      · rw [report_fst]; exact writeNode_within ..
      · rw [report_fst]; unfold writeShared; split <;> exact .same rfl rfl rfl
      · rw [report_fst]; unfold writeHost; split <;> exact .same rfl rfl rfl
      all_goals exact .refl m

theorem setSize_within (fd size : Nat) : m.Within (m.setSize env fd size).1 := by
  unfold setSize
  split
  · exact .refl m
  · next r place =>
      split
      · exact .refl m
      · next unmarked =>
          split
          · exact .refl m
          · split
            · exact .refl m
            · exact forward_within (.descriptor place rfl (by simpa using unmarked))
  · split
    · exact .refl m
    · split
      · exact .refl m
      · split
        · dsimp only
          split
          · exact (copyUp_within _).congr rfl rfl rfl
          · exact copyUp_within _
        · dsimp only
          split
          · exact (copyUp_within _).congr rfl rfl rfl
          · exact copyUp_within _
        · exact .same rfl rfl rfl
        · split <;> exact .same rfl rfl rfl
        all_goals exact .refl m

theorem streamRemote_within {fd : Nat} {r : RemoteDesc} (offset : Option Nat)
    (statFailed : FsError → ErrorCode) (place : m.fds.lookup fd = some (.remote r)) :
    m.Within (m.streamRemote env r offset statFailed).1 := by
  unfold streamRemote
  split
  · exact .refl m
  · next unmarked =>
      have onto : ∀ {handle : Nat} source, (WriteDst.remote r handle).Onto source → m.Holds source :=
        fun _ same => .descriptor place same (by simpa using unmarked)
      have asked : m.Within (m.send r.conn (.getattr r.path)) :=
        (Within.refl m).send fun mutates => by cases mutates
      split
      · exact .refl m
      · split
        · exact .refl m
        · split
          · exact (Within.refl m).pushStream _ onto
          · split
            · exact asked.pushStream _ onto
            · exact asked
            · exact asked

/-- What a stream over a node that is not marked writes to. -/
theorem onto_shared {id cell : Nat} (unmarked : id ∉ m.fs.readonly)
    (kind : m.fs.nodeKind id = .shared cell) (source : MountSource)
    (onto : (WriteDst.shared cell).Onto source) : m.Holds source := by
  simp only [WriteDst.Onto] at onto
  subst onto
  exact .mount (Fs.lookup_of_shared kind) unmarked

theorem onto_host {id : Nat} {path : String} (unmarked : id ∉ m.fs.readonly)
    (kind : m.fs.nodeKind id = .host path) (source : MountSource)
    (onto : (WriteDst.host path).Onto source) : m.Holds source := by
  simp only [WriteDst.Onto] at onto
  subst onto
  exact .mount (Fs.lookup_of_host kind) unmarked

theorem writeDst_within {handle : Nat} {stream : OutputStream} (bytes : Bytes)
    (opened : m.streams.lookup handle = some stream) :
    m.Within (m.writeDst env stream.dst stream.offset bytes).1 := by
  unfold writeDst
  dsimp only
  split
  · exact writeNode_within ..
  · unfold writeShared; split <;> exact .same rfl rfl rfl
  · unfold writeHost; split <;> exact .same rfl rfl rfl
  · exact .refl m
  · next r h dst =>
      split
      · exact .refl m
      · exact writeRemote_within _ _ _ (.stream opened (by rw [dst]; rfl))

/-- A stream that moves on, or ends, is the stream it was. -/
theorem moved_within {handle offset : Nat} {stream : OutputStream} (within : m.Within m')
    (opened : m.streams.lookup handle = some stream) :
    m.Within { m' with streams := m'.streams.insert handle ⟨stream.dst, offset⟩ } where
  fds := within.fds
  streams {h st source} there onto := by
    rw [Table.lookup_insert_eq] at there
    split at there
    · cases there
      exact .stream opened onto
    · exact within.streams there onto
  sent := within.sent

theorem ended_within {handle : Nat} (within : m.Within m') :
    m.Within { m' with streams := m'.streams.erase handle } where
  fds := within.fds
  streams {h st source} there onto := by
    rw [Table.lookup_erase_eq] at there
    split at there
    · cases there
    · exact within.streams there onto
  sent := within.sent

theorem streamWrite_within (handle : Nat) (bytes : Bytes) :
    m.Within (m.streamWrite env handle bytes).1 := by
  unfold streamWrite
  split
  · exact .refl m
  · next stream opened =>
      split
      · next written => exact moved_within (within_of_eq (writeDst_within bytes opened) written) opened
      · next failed => exact within_of_eq (writeDst_within bytes opened) failed

theorem consumerWrite_within (handle : Nat) (bytes : Bytes) :
    m.Within (m.consumerWrite env handle bytes).1 := by
  unfold consumerWrite
  split
  · exact .refl m
  · next stream opened =>
      split
      · next written => exact moved_within (within_of_eq (writeDst_within bytes opened) written) opened
      · next failed => exact ended_within (within_of_eq (writeDst_within bytes opened) failed)

theorem OpensStream.within {fd : Nat} (opens : m.OpensStream env fd m') : m.Within m' := by
  cases opens with
  | same => exact .refl m
  | remote place => exact streamRemote_within _ _ place
  | touched => exact (touchLayer_within _).pushStream _ fun _ onto => onto.elim
  | copied => exact (copyUp_within _).pushStream _ fun _ onto => onto.elim
  | shared unmarked kind => exact (Within.refl m).pushStream _ (onto_shared unmarked kind)
  | host unmarked kind => exact (Within.refl m).pushStream _ (onto_host unmarked kind)
  | device => exact (Within.refl m).pushStream _ fun _ onto => onto.elim

/-- No operation gains a way to write, and none asks a provider to change without one. -/
theorem step_within (m : Machine) (env : Env) (op : Op) : m.Within (m.step env op).1 := by
  cases op with
  | getDirectories => exact openDesc_within (.refl m) _
  | openAt fd follow path flags => exact openAt_within fd follow path flags
  | close fd => exact close_within fd
  | createDirectoryAt fd path => exact createDirectoryAt_within fd path
  | linkAt fd follow oldPath newFd newPath =>
    simp only [step, linkAt]
    repeat' split
    all_goals exact .same rfl rfl rfl
  | symlinkAt fd srcPath destPath =>
    simp only [step, symlinkAt]
    repeat' split
    all_goals exact .same rfl rfl rfl
  | renameAt fd oldPath newFd newPath => exact renameAt_within fd oldPath newFd newPath
  | unlinkFileAt fd path => exact unlink_within fd path false
  | removeDirectoryAt fd path => exact unlink_within fd path true
  | read fd len offset =>
    simp only [step, read]
    split
    · exact .refl m
    · exact readRemote_within ..
    · split
      · exact touchLayer_within _
      · split <;> exact .refl m
  | readViaStream fd offset =>
    simp only [step, readViaStream]
    split
    · exact .refl m
    · exact readRemote_within ..
    · split
      · exact touchLayer_within _
      · split <;> exact .refl m
  | write fd buf offset => exact write_within fd buf offset
  | setSize fd size => exact setSize_within fd size
  | writeViaStream fd offset => exact (writeViaStream_opens fd offset).within
  | appendViaStream fd => exact (appendFrom_opens fd _).within
  | streamWrite handle bytes => exact streamWrite_within handle bytes
  | writeViaStream3 fd offset => exact (writeViaStream3_opens fd offset).within
  | appendViaStream3 fd => exact (appendFrom_opens fd _).within
  | consumerWrite handle bytes => exact consumerWrite_within handle bytes

/-! ## No way to write is gained -/

theorem effect_readonly {op : Op} {fs : Fs} {fds : Table Nat DescPlace} (effect : Effect m op fs fds) :
    fs.readonly = m.fs.readonly := by
  cases effect with
  | created place asked absent landing room => exact Fs.enter_readonly
  | madeDirectory place landing free room => exact Fs.enter_readonly
  | symlinked place landing free room => exact Fs.enter_readonly
  | linked oldPlace newPlace found present notDir writable landing free => exact Fs.alter_readonly
  | renamed oldPlace newPlace leaving entry writable landing =>
    simp [Fs.move, Fs.addChild_eq, Fs.removeChild_eq]
  | @unlinked fd start p id dir path name place leaving entry writable allowed =>
    have removed : (m.fs.removeChild p name).readonly = m.fs.readonly := Fs.alter_readonly
    rcases Fs.unlink_cases p name (Fs.removable_leaf allowed) with ⟨same, _⟩ | ⟨_, _, drop⟩
    · rw [same, removed]
    · rw [drop.readonly, removed]
  | @closed fd id place =>
    rcases Fs.closeRef_cases m.fs id with ⟨_, _, readonly, _⟩ | ⟨_, _, _, drop⟩
    · exact readonly
    · exact drop.readonly
  | _ => rfl

theorem alter_mounted {fs : Fs} {p id : Nat} {f : Table String Nat → Table String Nat}
    (there : (fs.alter p f).nodes.lookup id = some source.node) :
    fs.nodes.lookup id = some source.node := by
  by_cases here : id = p
  · subst here
    cases isDir : fs.isDir id with
    | true =>
      obtain ⟨children, found⟩ := Fs.isDir_iff.1 isDir
      rw [Fs.lookup_alter_self found] at there
      cases source <;> cases there
    | false =>
      rw [Fs.alter_notDir isDir] at there
      exact there
  · rw [Fs.lookup_alter here] at there
    exact there

theorem insert_mounted {nodes : Table Nat FsNode} {id x : Nat} {node : FsNode}
    (there : (nodes.insert x node).lookup id = some source.node) (other : node ≠ source.node) :
    nodes.lookup id = some source.node := by
  rw [Table.lookup_insert_eq] at there
  split at there
  · exact absurd (Option.some.inj there) other
  · exact there

theorem enter_mounted {fs : Fs} {p id : Nat} {name : String} {node : FsNode}
    (there : (fs.enter p name node).nodes.lookup id = some source.node) (other : node ≠ source.node) :
    fs.nodes.lookup id = some source.node :=
  insert_mounted (alter_mounted there) other

theorem setBytes_mounted {fs : Fs} {id x : Nat} {bytes : Bytes}
    (there : (fs.setBytes x bytes).nodes.lookup id = some source.node) :
    fs.nodes.lookup id = some source.node :=
  insert_mounted there (by cases source <;> simp [MountSource.node])

/-- No operation of a guest mounts anything. -/
theorem effect_mounted {op : Op} {fs : Fs} {fds : Table Nat DescPlace} {id : Nat}
    (effect : Effect m op fs fds) (there : fs.nodes.lookup id = some source.node) :
    m.fs.nodes.lookup id = some source.node := by
  cases effect with
  | wrote _ bytes data holds => exact setBytes_mounted there
  | truncated place found holds => exact setBytes_mounted there
  | created place asked absent landing room =>
    exact enter_mounted there (by cases source <;> simp [MountSource.node])
  | madeDirectory place landing free room =>
    exact enter_mounted there (by cases source <;> simp [MountSource.node])
  | symlinked place landing free room =>
    exact enter_mounted there (by cases source <;> simp [MountSource.node])
  | linked oldPlace newPlace found present notDir writable landing free => exact alter_mounted there
  | renamed oldPlace newPlace leaving entry writable landing =>
    exact alter_mounted (alter_mounted there)
  | @unlinked fd start p x dir path name place leaving entry writable allowed =>
    rcases Fs.unlink_cases p name (Fs.removable_leaf allowed) with ⟨same, _⟩ | ⟨_, _, drop⟩
    · rw [same] at there
      exact alter_mounted there
    · exact alter_mounted (drop.kept there)
  | @closed fd x place =>
    rcases Fs.closeRef_cases m.fs x with ⟨nodes, _, _, _⟩ | ⟨_, _, _, drop⟩
    · rw [nodes] at there
      exact there
    · exact drop.kept there
  | _ => exact there

theorem step_holds {op : Op} (holds : (m.step env op).1.Holds source) : m.Holds source := by
  have within := m.step_within env op
  cases holds with
  | mount there unmarked =>
    have effect := (m.step_effect env op).effect
    exact .mount (effect_mounted effect there) (effect_readonly effect ▸ unmarked)
  | descriptor place behind unmarked => exact behind ▸ within.fds place unmarked
  | stream opened onto => exact within.streams opened onto

/-! ## Nothing is written without a way to write -/

theorem lands_store {store : Option Store} {size : Nat} {change : Bytes → Bytes} {d : Deed}
    (lands : lands env store size change = some d) : store = some d.store := by
  cases store with
  | none => cases lands
  | some s =>
    simp only [Machine.lands, Option.bind_some] at lands
    split at lands
    · cases lands
      rfl
    · cases lands

theorem store_mounted {id : Nat} {s : Store} (file : m.store id = some s)
    (behind : source.store = some s) : m.fs.nodes.lookup id = some source.node := by
  unfold store at file
  cases source with
  | volume cell =>
    cases behind
    refine Fs.lookup_of_shared ?_
    cases kind : m.fs.nodeKind id <;> rw [kind] at file <;> cases file
    rfl
  | hostFile path =>
    cases behind
    refine Fs.lookup_of_host ?_
    cases kind : m.fs.nodeKind id <;> rw [kind] at file <;> cases file
    rfl
  | provider conn => cases behind

theorem dstStore_onto {dst : WriteDst} {s : Store} (lands : m.dstStore dst = some s)
    (behind : source.store = some s) : dst.Onto source := by
  cases dst with
  | node id =>
    simp only [dstStore] at lands
    split at lands
    · cases lands
      cases source <;> cases behind
    · cases lands
  | shared cell =>
    cases lands
    cases source <;> cases behind
    rfl
  | host path =>
    cases lands
    cases source <;> cases behind
    rfl
  | null => cases lands
  | remote r handle => cases lands

theorem deed_holds {op : Op} {d : Deed} (deed : m.deed env op = some d)
    (behind : source.store = some d.store) : m.Holds source := by
  have marked : ∀ {id}, (if id ∈ m.fs.readonly then none else m.store id) = some d.store →
      m.Holds source := by
    intro id file
    split at file
    · cases file
    · next unmarked => exact .mount (store_mounted file behind) unmarked
  have written : ∀ {fd}, m.writable fd = some d.store → m.Holds source := by
    intro fd file
    unfold writable at file
    split at file
    · exact marked file
    · cases file
  have streamed : ∀ {handle bytes}, m.streamed env handle bytes = some d → m.Holds source := by
    intro handle bytes streamed
    obtain ⟨stream, opened, lands⟩ := Option.bind_eq_some_iff.1 streamed
    exact .stream opened (dstStore_onto (lands_store lands) behind)
  cases op with
  | write fd buf offset => exact written (lands_store deed)
  | setSize fd size =>
    simp only [Machine.deed] at deed
    split at deed
    · cases deed
    · exact written (lands_store deed)
  | openAt fd follow path flags =>
    simp only [Machine.deed] at deed
    split at deed
    · have file := lands_store deed
      unfold emptied at file
      split at file
      · split at file
        · cases file
        · obtain ⟨id, _, file⟩ := Option.bind_eq_some_iff.1 file
          exact marked file
      · cases file
    · cases deed
  | streamWrite handle bytes => exact streamed deed
  | consumerWrite handle bytes => exact streamed deed
  | _ => cases deed

/-- What the guest has no way to write to stays as it is. -/
theorem step_untouched {op : Op} (shaped : m.fs.Shaped) (barred : ¬ m.Holds source) :
    m.Untouched (m.step env op).1 source := by
  have wrote := step_wrote env op shaped
  have elsewhere : ∀ {s}, source.store = some s → ∀ data,
      amended (m.deed env op) s data = data := by
    intro s behind data
    cases deed : m.deed env op with
    | none => rfl
    | some d =>
      refine amended_other (fun here => barred ?_) data
      exact deed_holds deed (behind.trans (by rw [here]))
  cases source with
  | volume cell => exact (wrote.bytes (s := .cell cell) trivial).trans (elsewhere rfl _)
  | hostFile path => exact (wrote.bytes (s := .file path) trivial).trans (elsewhere rfl _)
  | provider conn => exact (m.step_within env op).sent barred

/-! ## The name stays -/

/-- An operation leaves the entry `name` of `d` alone: it puts nothing there, and no close
frees `d`. -/
structure SparesEntry (m : Machine) (d : Nat) (name : String) (op : Op) : Prop where
  created : m.creates op ≠ some (d, name)
  renamed : ∀ {id}, m.renames op ≠ some ((d, name), id)
  freed : ∀ {id}, m.frees op = some id → ¬ m.fs.Reaches id d

/-- The entry of a marked node stays, if nothing else takes its name. -/
theorem effect_entry {op : Op} {fs : Fs} {fds : Table Nat DescPlace} {d x : Nat} {name : String}
    (effect : Effect m op fs fds) (spares : m.SparesEntry d name op) (shaped : m.fs.Shaped)
    (entry : m.fs.child d name = some x) (marked : x ∈ m.fs.readonly) :
    fs.child d name = some x := by
  have free : ∀ {p k}, m.fs.child p k = none → ¬ (d = p ∧ name = k) := by
    rintro p k free ⟨rfl, rfl⟩
    rw [free] at entry
    cases entry
  have other : ∀ {p k id}, m.fs.child p k = some id → id ∉ m.fs.readonly → ¬ (d = p ∧ name = k) := by
    rintro p k id named unmarked ⟨rfl, rfl⟩
    exact unmarked (Option.some.inj (named.symm.trans entry) ▸ marked)
  cases effect with
  | wrote _ bytes data holds => exact (Fs.child_setBytes holds.notDir d name).trans entry
  | truncated place found holds => exact (Fs.child_setBytes holds.notDir d name).trans entry
  | @created fd start p follow path k flags place asked absent landing room =>
    have entered : (m.fs.enter p k (.file [])).child d name = some x := by
      rw [Fs.child_enter shaped (Fs.childless_of_ne (by simp)) (Fs.resolveParent_isDir landing),
        if_neg, entry]
      rintro ⟨rfl, rfl⟩
      exact spares.created (creates_eq place asked absent landing room)
    exact entered
  | madeDirectory place landing unused room =>
    rw [Fs.child_enter shaped Fs.childless_dir (Fs.resolveParent_isDir landing), if_neg (free unused),
      entry]
  | symlinked place landing unused room =>
    rw [Fs.child_enter shaped (Fs.childless_of_ne (by simp)) (Fs.resolveParent_isDir landing),
      if_neg (free unused), entry]
  | linked oldPlace newPlace found present notDir writable landing unused =>
    rw [Fs.child_addChild (Fs.resolveParent_isDir landing), if_neg (free unused), entry]
  | renamed oldPlace newPlace leaving named unmarked landing =>
    rw [Fs.child_move (Fs.resolveParent_isDir landing), if_neg, if_neg (other named unmarked), entry]
    rintro ⟨rfl, rfl⟩
    exact spares.renamed (renames_eq oldPlace newPlace leaving named unmarked landing)
  | @unlinked fd start p id dir path k place leaving named unmarked allowed =>
    have leaf := Fs.removable_leaf allowed
    have still : (m.fs.removeChild p k).child d name = some x := by
      rw [Fs.child_removeChild, if_neg (other named unmarked), entry]
    rcases Fs.unlink_cases p k leaf with ⟨same, _⟩ | ⟨_, _, drop⟩
    · rw [same, still]
    · have stays : d ∈ (m.fs.unlink p k id).nodes := by
        refine drop.mem_iff.2 ⟨Fs.Names.mem ⟨name, still⟩, fun r root path => ?_⟩
        rw [List.mem_singleton.1 root] at path
        have here : id = d := by
          refine Fs.reaches_leaf (fun k' => ?_) path
          rw [Fs.child_removeChild, leaf k', ite_self]
        subst here
        rw [leaf name] at entry
        cases entry
      rw [drop.child_of_mem stays, still]
  | @closed fd id place =>
    rcases Fs.closeRef_cases m.fs id with ⟨nodes, _, _, _⟩ | ⟨few, notRoot, unreferenced, drop⟩
    · exact (Fs.child_congr (by rw [nodes])).trans entry
    · have frees : m.frees (.close fd) = some id := by
        simp [Machine.frees, place, few, notRoot, unreferenced]
      have stays : d ∈ (m.fs.closeRef id).nodes := by
        refine drop.mem_iff.2 ⟨Fs.Names.mem ⟨name, entry⟩, fun r root path => ?_⟩
        rw [List.mem_singleton.1 root] at path
        exact spares.freed frees path
      exact (drop.child_of_mem stays name).trans entry
  | _ => exact entry

/-- A source mounted read-only as node `x` under the entry `name` of `d`. -/
structure MountedAt (m : Machine) (d : Nat) (name : String) (x : Nat) (source : MountSource) : Prop where
  entry : m.fs.child d name = some x
  there : m.fs.nodes.lookup x = some source.node
  marked : x ∈ m.fs.readonly

theorem Untouched.trans {m'' : Machine} (first : m.Untouched m' source)
    (second : m'.Untouched m'' source) : m.Untouched m'' source := by
  cases source <;> exact Eq.trans second first

theorem Untouched.refl (m : Machine) (source : MountSource) : m.Untouched m source := by
  cases source <;> exact rfl

/-- What a session of a guest leaves of a read-only mount. -/
theorem session_untouched {ops : List (Op × Env)} (shaped : m.fs.Shaped) (barred : ¬ m.Holds source) :
    m.Untouched (m.session ops) source := by
  induction ops generalizing m with
  | nil => exact .refl m source
  | cons asked rest ih =>
    have first : m.Untouched (m.ask asked) source := step_untouched shaped barred
    exact first.trans (ih ((m.step_effect asked.2 asked.1).effect.shaped shaped)
      fun holds => barred (step_holds holds))

theorem session_entry {ops : List (Op × Env)} {d x : Nat} {name : String}
    (spares : Along ask (fun m asked => m.SparesEntry d name asked.1) m ops) (shaped : m.fs.Shaped)
    (entry : m.fs.child d name = some x) (marked : x ∈ m.fs.readonly) :
    (m.session ops).fs.child d name = some x := by
  have kept := Along.keeps
    (Q := fun m : Machine => m.fs.Shaped ∧ m.fs.child d name = some x ∧ x ∈ m.fs.readonly)
    (fun m asked met good => by
      have effect := (m.step_effect asked.2 asked.1).effect
      exact ⟨effect.shaped good.1, effect_entry effect met good.1 good.2.1 good.2.2,
        effect_readonly effect ▸ good.2.2⟩) spares ⟨shaped, entry, marked⟩
  exact kept.2.1

theorem run_shaped (backing : Backing) (turns : List Turn) :
    ((boot Fs.new backing).run turns).fs.Shaped := by
  suffices kept : ∀ (turns : List Turn) (m : Machine), m.fs.Shaped → (m.run turns).fs.Shaped from
    kept turns _ .new
  intro turns
  induction turns with
  | nil => exact fun m shaped => shaped
  | cons turn rest ih => exact fun m shaped => ih (m.turn turn) (turn_shaped turn shaped)

/-- **Read-only mounts hold against the guest.** However a filesystem with a read-only
mount has come about: in every session of its guest that takes nothing to the mount's
name and closes nothing the mount's directory hangs from, the name still leads to the
mounted node; and unless the guest has a way to write to the same source by another
mount, what is mounted is not changed. -/
theorem session_keeps_mount {backing : Backing} {turns : List Turn} {ops : List (Op × Env)}
    {d x : Nat} {name : String} {source : MountSource}
    (mounted : ((boot Fs.new backing).run turns).MountedAt d name x source)
    (spares : Along ask (fun m asked => m.SparesEntry d name asked.1)
      ((boot Fs.new backing).run turns) ops) :
    (((boot Fs.new backing).run turns).session ops).fs.child d name = some x ∧
      (¬ ((boot Fs.new backing).run turns).Holds source →
        ((boot Fs.new backing).run turns).Untouched
          (((boot Fs.new backing).run turns).session ops) source) := by
  have shaped := run_shaped backing turns
  exact ⟨session_entry spares shaped mounted.entry mounted.marked, session_untouched shaped⟩

section Poles

/-- A check that the guest holds no way to write to a Volume. -/
def barsVolume (m : Machine) (cell : Nat) : Bool :=
  m.fds.entries.isEmpty && m.streams.entries.isEmpty && m.fs.nodes.entries.all fun row =>
    match row.2 with
    | .shared other => other ≠ cell || row.1 ∈ m.fs.readonly
    | _ => true

theorem barsVolume_barred {cell : Nat} (passed : barsVolume m cell = true) :
    ¬ m.Holds (.volume cell) := by
  simp only [barsVolume, Bool.and_eq_true, List.isEmpty_iff, List.all_eq_true] at passed
  obtain ⟨⟨noFds, noStreams⟩, rows⟩ := passed
  intro holds
  cases holds with
  | mount there unmarked =>
    have row := rows _ (AList.mem_lookup_iff.1 there)
    simp only [MountSource.node, ne_eq, not_true_eq_false, decide_false, Bool.false_or,
      decide_eq_true_eq] at row
    exact unmarked row
  | descriptor place behind unmarked => cases behind
  | stream opened onto =>
    have empty : m.streams = ∅ := AList.ext noStreams
    rw [empty] at opened
    cases opened

/-- A check of `SparesEntry`: nothing lands there and nothing is freed. -/
def leavesEntry (d : Nat) (name : String) (m : Machine) (op : Op) : Bool :=
  ((m.creates op).all fun landing => decide (landing ≠ (d, name))) &&
    ((m.renames op).all fun moved => decide (moved.1 ≠ (d, name))) && (m.frees op).isNone

theorem leavesEntry_spares (d : Nat) (name : String) (m : Machine) (op : Op)
    (passed : leavesEntry d name m op = true) : m.SparesEntry d name op := by
  simp only [leavesEntry, Bool.and_eq_true, Option.all_eq_true, decide_eq_true_eq,
    Option.isNone_iff_eq_none] at passed
  obtain ⟨⟨created, renamed⟩, freed⟩ := passed
  refine ⟨fun lands => created _ lands rfl, fun lands => renamed _ lands rfl, fun frees => ?_⟩
  rw [freed] at frees
  cases frees

/-- A Volume mounted read-only. -/
def mountedVolume : List Turn := [.host (.mount "data/v" (.volume 0) false)]

/-- A guest tries every way to the mount. -/
def refusedWrites : List (Op × Env) := [
  (.getDirectories, .quiet),
  (.openAt 0 true "data/v" {}, .quiet),
  (.write 1 [7] 0, .quiet),
  (.openAt 0 true "data/v" { truncate := true }, .quiet),
  (.unlinkFileAt 0 "data/v", .quiet),
  (.renameAt 0 "data/v" 0 "w", .quiet),
  (.linkAt 0 true "data/v" 0 "w", .quiet)]

theorem session_keeps_mount_refused :
    (((boot Fs.new .empty).run mountedVolume).session refusedWrites).fs.child 1 "v" = some 2 ∧
      (((boot Fs.new .empty).run mountedVolume).session refusedWrites).backing.cell 0 =
        ((boot Fs.new .empty).run mountedVolume).backing.cell 0 := by
  have mounted : ((boot Fs.new .empty).run mountedVolume).MountedAt 1 "v" 2 (.volume 0) :=
    ⟨by decide, rfl, by decide⟩
  have checked : checkAlong ask (fun m asked => leavesEntry 1 "v" m asked.1)
      ((boot Fs.new .empty).run mountedVolume) refusedWrites = true := by
    decide
  have kept := session_keeps_mount mounted
    (along_of_check (fun m (asked : Op × Env) => leavesEntry_spares 1 "v" m asked.1) checked)
  exact ⟨kept.1, kept.2 (barsVolume_barred (by decide))⟩

/-- A file of the guest's own renamed to the mount's name. -/
def renamedOntoMount : List (Op × Env) := [
  (.getDirectories, .quiet),
  (.openAt 0 true "mine" { create := true }, .quiet),
  (.renameAt 0 "mine" 0 "data/v", .quiet)]

theorem rename_replaces_mount :
    ((boot Fs.new .empty).run mountedVolume).MountedAt 1 "v" 2 (.volume 0) ∧
      ¬ (((boot Fs.new .empty).run mountedVolume).session renamedOntoMount).fs.child 1 "v" = some 2 := by
  exact ⟨⟨by decide, rfl, by decide⟩, by decide⟩

end Poles

end Machine

end Wk.Vfs
