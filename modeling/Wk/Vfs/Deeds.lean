/-
# Wk.Vfs.Deeds -- what an operation writes, and nothing else

The bytes of a regular file live in its node, in a shared cell or on the host disk: its
`Store`.  `deed` is the change an operation makes to the bytes of one store, read off
what was asked: a write at an offset, a new size, emptying on open.  `step_wrote` says
that an operation makes this change and no other: the bytes of every other store, of
every layer, and where each file's bytes live, stay as they were.
-/
import Wk.Vfs.Shape

namespace Wk.Vfs

open Wk.Library Wk.Provider Relation

set_option autoImplicit false

/-- Where the bytes of a regular file live. -/
inductive Store where
  | node (id : Nat)
  | cell (cell : Nat)
  | file (path : String)
  deriving DecidableEq, Repr

/-- A change of the bytes of one store. -/
structure Deed where
  store : Store
  change : Bytes → Bytes

/-- The bytes of `s` once the deed is done. -/
def amended (deed : Option Deed) (s : Store) (data : Bytes) : Bytes :=
  match deed with
  | some deed => if deed.store = s then deed.change data else data
  | none => data

@[simp] theorem amended_none (s : Store) (data : Bytes) : amended none s data = data := rfl

theorem amended_self {d : Deed} {s : Store} (here : d.store = s) (data : Bytes) :
    amended (some d) s data = d.change data := by
  simp [amended, here]

theorem amended_other {d : Deed} {s : Store} (other : d.store ≠ s) (data : Bytes) :
    amended (some d) s data = data := by
  simp [amended, other]

/-- The store of the node `id`, by its kind. -/
def Kind.store (id : Nat) : Kind → Option Store
  | .file | .ro => some (.node id)
  | .shared cell => some (.cell cell)
  | .host path => some (.file path)
  | _ => none

/-- Whether a store takes bytes up to `size`. -/
def Store.takes (env : Env) (size : Nat) : Store → Bool
  | .file _ => env.diskOk
  | _ => size ≤ maxFileSize

/-- What there is to see of a layer file: its length and its bytes, read in or not. -/
def Backing.layerSeen (b : Backing) (i : Nat) : Option (Nat × Bytes) :=
  (b.layers.lookup i).map fun layer => (layer.len, layer.bytes)

theorem Backing.layer_eq (b : Backing) (i : Nat) :
    b.layer i = ((b.layerSeen i).map Prod.snd).getD [] := by
  simp only [layer, layerSeen, Option.map_map]
  rfl

namespace Machine

section Asked

variable (m : Machine) (env : Env)

/-- Where the bytes of `id` live, if it is a regular file. -/
def store (id : Nat) : Option Store := (m.fs.nodeKind id).store id

def stored : Store → Bytes
  | .node id => (m.contents id).getD []
  | .cell cell => m.backing.cell cell
  | .file path => m.backing.file path

/-- The change asked for, if there is a store and it takes that much. -/
def lands (env : Env) (store : Option Store) (size : Nat) (change : Bytes → Bytes) : Option Deed :=
  store.bind fun s => if s.takes env size then some ⟨s, change⟩ else none

/-- What a write through `fd` would write to. -/
def writable (fd : Nat) : Option Store :=
  match m.fds.lookup fd with
  | some (.node id) => if id ∈ m.fs.readonly then none else m.store id
  | _ => none

/-- What opening `path` would empty. -/
def emptied (fd : Nat) (follow : Bool) (path : String) : Option Store :=
  match m.fds.lookup fd with
  | some (.node start) =>
    match m.fs.resolvePlace start path follow with
    | .remote .. => none
    | _ =>
      (m.fs.resolveAt start path follow).bind fun id =>
        if id ∈ m.fs.readonly then none else m.store id
  | _ => none

/-- What a stream's destination would write to. -/
def dstStore : WriteDst → Option Store
  | .node id => if m.store id = some (.node id) then some (.node id) else none
  | .shared cell => some (.cell cell)
  | .host path => some (.file path)
  | _ => none

/-- What the next write to a stream would write. -/
def streamed (handle : Nat) (bytes : Bytes) : Option Deed :=
  (m.streams.lookup handle).bind fun stream =>
    lands env (m.dstStore stream.dst) (stream.offset + bytes.length) fun data =>
      overwrite data stream.offset bytes

/-- The bytes an operation changes, and how.  Opening with `truncate` empties the file
before it is looked at whether a directory was asked for. -/
def deed : Op → Option Deed
  | .write fd buf offset =>
    lands env (m.writable fd) (offset + buf.length) fun data => overwrite data offset buf
  | .setSize fd size =>
    if maxFileSize < size then none else lands env (m.writable fd) size fun data => resize data size
  | .openAt fd follow path flags =>
    if flags.truncate && !flags.exclusive then
      lands env (m.emptied fd follow path) 0 fun _ => []
    else none
  | .streamWrite handle bytes | .consumerWrite handle bytes => m.streamed env handle bytes
  | _ => none

end Asked

variable {m m' : Machine} {env : Env}

/-- The store is there in `m` and still there in `m'`. -/
def Lasting (m m' : Machine) : Store → Prop
  | .node id => m.store id = some (.node id) ∧ id ∈ m'.fs.nodes
  | _ => True

/-- `m'` is `m` with at most the deed done to its bytes. -/
structure Wrote (m : Machine) (deed : Option Deed) (m' : Machine) : Prop where
  stores : ∀ {id s}, m.store id = some s → id ∈ m'.fs.nodes → m'.store id = some s
  bytes : ∀ {s}, m.Lasting m' s → m'.stored s = amended deed s (m.stored s)
  layers : ∀ i, m'.backing.layerSeen i = m.backing.layerSeen i

/-! ## Bytes outside the filesystem -/

/-- The same bytes outside, whether or not a layer file was read in. -/
structure Agrees (b b' : Backing) : Prop where
  cells : ∀ i, b'.cell i = b.cell i
  files : ∀ path, b'.file path = b.file path
  layers : ∀ i, b'.layerSeen i = b.layerSeen i

theorem Agrees.refl (b : Backing) : Agrees b b := ⟨fun _ => rfl, fun _ => rfl, fun _ => rfl⟩

theorem materialize_agrees (b : Backing) (i : Nat) : Agrees b (b.materialize i) := by
  refine ⟨?_, ?_, ?_⟩
  · intro j
    unfold Backing.materialize
    split <;> rfl
  · intro path
    unfold Backing.materialize
    split <;> rfl
  · intro j
    unfold Backing.materialize
    split
    · next layer found =>
        simp only [Backing.layerSeen, Table.lookup_insert_eq]
        split
        · next here =>
            subst here
            simp [found, LayerBytes.materialized, LayerBytes.bytes]
        · rfl
    · rfl

theorem contents_congr {id : Nat} (same : m'.fs.nodes.lookup id = m.fs.nodes.lookup id)
    (agrees : Agrees m.backing m'.backing) : m'.contents id = m.contents id := by
  simp only [contents, same, agrees.cells, agrees.files, Backing.layer_eq, agrees.layers]

theorem store_congr {id : Nat} (same : m'.fs.nodes.lookup id = m.fs.nodes.lookup id) :
    m'.store id = m.store id := by
  simp only [store, Fs.nodeKind, same]

/-- The bytes behind a regular file are those of its store. -/
theorem contents_eq (m : Machine) (id : Nat) : m.contents id = (m.store id).map m.stored := by
  unfold store Fs.nodeKind
  cases found : m.fs.nodes.lookup id with
  | none => simp [contents, found, Kind.store]
  | some node => cases node <;> simp [contents, found, Kind.store, stored]

theorem store_node_iff {id i : Nat} : m.store id = some (.node i) ↔ i = id ∧ m.fs.HoldsBytes id := by
  unfold store Fs.nodeKind Fs.HoldsBytes
  constructor
  · intro same
    split at same <;> simp_all [Kind.store]
  · rintro ⟨rfl, ⟨bytes, found⟩ | ⟨layer, found⟩⟩ <;> simp [found, Kind.store]

theorem store_some {id : Nat} {s : Store} (here : m.store id = some s) :
    id ∈ m.fs.nodes ∧ m.fs.isDir id = false := by
  unfold store Fs.nodeKind at here
  unfold Fs.isDir
  split at here
  · next bytes found => exact ⟨Table.mem_of_lookup found, by rw [found]⟩
  · next layer found => exact ⟨Table.mem_of_lookup found, by rw [found]⟩
  · next cell found => exact ⟨Table.mem_of_lookup found, by rw [found]⟩
  · next path found => exact ⟨Table.mem_of_lookup found, by rw [found]⟩
  all_goals cases here

namespace Wrote

/-- The same nodes and the same bytes outside. -/
theorem frame (agrees : Agrees m.backing m'.backing)
    (nodes : ∀ {id s}, m.store id = some s → id ∈ m'.fs.nodes →
      m'.fs.nodes.lookup id = m.fs.nodes.lookup id) : m.Wrote none m' where
  stores here stays := (store_congr (nodes here stays)).trans here
  bytes {s} lasting := by
    cases s with
    | node id =>
      obtain ⟨here, stays⟩ := lasting
      simp only [stored, contents_congr (nodes here stays) agrees, amended_none]
    | cell cell => exact agrees.cells cell
    | file path => exact agrees.files path
  layers := agrees.layers

theorem same (nodes : m'.fs.nodes = m.fs.nodes) (backing : m'.backing = m.backing) :
    m.Wrote none m' :=
  frame (backing ▸ .refl _) fun _ _ => by rw [nodes]

/-- The bytes of a file of the filesystem itself replaced. -/
theorem put_node {deed : Option Deed} {id : Nat} (holds : m.fs.HoldsBytes id)
    (nodes : m'.fs.nodes =
      m.fs.nodes.insert id (.file (amended deed (.node id) (m.stored (.node id)))))
    (only : ∀ d, deed = some d → d.store = .node id) (agrees : Agrees m.backing m'.backing) :
    m.Wrote deed m' := by
  have others : ∀ {x}, x ≠ id → m'.fs.nodes.lookup x = m.fs.nodes.lookup x := by
    intro x other
    rw [nodes, AList.lookup_insert_ne other]
  have untouched : ∀ s, s ≠ .node id → ∀ data, amended deed s data = data := by
    intro s other data
    cases deed with
    | none => rfl
    | some d => exact amended_other (fun here => other (here.symm.trans (only d rfl))) data
  refine ⟨?_, ?_, agrees.layers⟩
  · intro x s here _
    by_cases same : x = id
    · subst same
      have before := store_node_iff.2 ⟨rfl, holds⟩
      have now : m'.store x = some (.node x) := store_node_iff.2 ⟨rfl, .inl ⟨_, by
        rw [nodes, AList.lookup_insert]⟩⟩
      rw [now, ← before, here]
    · exact (store_congr (others same)).trans here
  · intro s lasting
    cases s with
    | node x =>
      by_cases same : x = id
      · subst same
        simp only [stored, contents, nodes, AList.lookup_insert, Option.getD_some]
      · rw [untouched _ fun here => same (Store.node.inj here)]
        simp only [stored, contents_congr (others same) agrees]
    | cell cell => rw [untouched _ (by simp)]; exact agrees.cells cell
    | file path => rw [untouched _ (by simp)]; exact agrees.files path

/-- The bytes of a store outside the filesystem replaced. -/
theorem put_outside {d : Deed} (nodes : m'.fs.nodes = m.fs.nodes)
    (outside : ∀ id, d.store ≠ .node id) (layers : ∀ i, m'.backing.layerSeen i = m.backing.layerSeen i)
    (bytes : ∀ s, (∀ id, s ≠ .node id) → m'.stored s = amended (some d) s (m.stored s)) :
    m.Wrote (some d) m' := by
  refine ⟨fun here _ => (store_congr (by rw [nodes])).trans here, ?_, layers⟩
  intro s lasting
  cases s with
  | node id =>
    rw [amended_other (outside id)]
    obtain ⟨_, ⟨data, found⟩ | ⟨layer, found⟩⟩ := store_node_iff.1 lasting.1
    · simp only [stored, contents, nodes, found]
    · simp only [stored, contents, nodes, found, Backing.layer_eq, layers]
  | cell cell => exact bytes _ (by simp)
  | file path => exact bytes _ (by simp)

theorem put_cell {cell : Nat} {change : Bytes → Bytes} (nodes : m'.fs.nodes = m.fs.nodes)
    (backing : m'.backing = m.backing.setCell cell (change (m.backing.cell cell))) :
    m.Wrote (some ⟨.cell cell, change⟩) m' := by
  refine put_outside nodes (by simp) (fun i => by rw [backing]; rfl) fun s outside => ?_
  cases s with
  | node id => exact absurd rfl (outside id)
  | cell i =>
    by_cases here : i = cell
    · subst here
      simp [stored, backing, amended, Backing.cell, Backing.setCell]
    · have other : ¬ cell = i := fun same => here same.symm
      simp [stored, backing, amended, other, Backing.cell, Backing.setCell,
        AList.lookup_insert_ne here]
  | file path => simp [stored, backing, amended, Backing.file, Backing.setCell]

theorem put_file {path : String} {change : Bytes → Bytes} (nodes : m'.fs.nodes = m.fs.nodes)
    (backing : m'.backing = m.backing.setFile path (change (m.backing.file path))) :
    m.Wrote (some ⟨.file path, change⟩) m' := by
  refine put_outside nodes (by simp) (fun i => by rw [backing]; rfl) fun s outside => ?_
  cases s with
  | node id => exact absurd rfl (outside id)
  | cell cell => simp [stored, backing, amended, Backing.cell, Backing.setFile]
  | file other =>
    by_cases here : other = path
    · subst here
      simp [stored, backing, amended, Backing.file, Backing.setFile]
    · have different : ¬ path = other := fun same => here same.symm
      simp [stored, backing, amended, different, Backing.file, Backing.setFile,
        AList.lookup_insert_ne here]

/-- Only the nodes and the bytes outside count. -/
theorem congr {deed : Option Deed} {m'' : Machine} (wrote : m.Wrote deed m')
    (nodes : m''.fs.nodes = m'.fs.nodes) (backing : m''.backing = m'.backing) : m.Wrote deed m'' where
  stores here stays := (store_congr (by rw [nodes])).trans (wrote.stores here (nodes ▸ stays))
  bytes {s} lasting := by
    have same : m''.stored s = m'.stored s := by
      cases s with
      | node id => simp only [stored, contents, nodes, backing]
      | cell cell => simp only [stored, backing]
      | file path => simp only [stored, backing]
    rw [same]
    refine wrote.bytes ?_
    cases s with
    | node id => exact ⟨lasting.1, nodes ▸ lasting.2⟩
    | cell cell => trivial
    | file path => trivial
  layers i := by rw [backing]; exact wrote.layers i

end Wrote

/-! ## Names move, bytes stay -/

theorem forward_backing (conn : NodeId) (req : FsOp) :
    (m.forward env conn req).1.backing = m.backing := by
  unfold forward
  split <;> rfl

theorem unlink_backing (fd : Nat) (path : String) (dir : Bool) :
    (m.unlink env fd path dir).1.backing = m.backing := by
  unfold unlink
  repeat' split
  all_goals first | rfl | exact forward_backing _ _

theorem naming_backing {op : Op} (naming : op.handlesData = false) :
    (m.step env op).1.backing = m.backing := by
  cases op with
  | getDirectories => rfl
  | close fd =>
    simp only [step, close]
    repeat' split
    all_goals rfl
  | createDirectoryAt fd path =>
    simp only [step, createDirectoryAt]
    repeat' split
    all_goals first | rfl | exact forward_backing _ _
  | linkAt fd follow oldPath newFd newPath =>
    simp only [step, linkAt]
    repeat' split
    all_goals rfl
  | symlinkAt fd srcPath destPath =>
    simp only [step, symlinkAt]
    repeat' split
    all_goals rfl
  | renameAt fd oldPath newFd newPath =>
    simp only [step, renameAt, renameHere]
    repeat' split
    all_goals first | rfl | exact forward_backing _ _
  | unlinkFileAt fd path => exact unlink_backing fd path false
  | removeDirectoryAt fd path => exact unlink_backing fd path true
  | _ => cases naming

/-- No change of names touches a file. -/
theorem effect_lookup {op : Op} {fs : Fs} {fds : Table Nat DescPlace} (effect : Effect m op fs fds)
    (naming : op.handlesData = false) {id : Nat} (present : id ∈ m.fs.nodes) (shaped : m.fs.Shaped)
    (notDir : m.fs.isDir id = false) (stays : id ∈ fs.nodes) :
    fs.nodes.lookup id = m.fs.nodes.lookup id := by
  have old : id ≠ m.fs.next := fun same => shaped.fresh (same ▸ present)
  have notParent : ∀ {p}, m.fs.isDir p = true → id ≠ p := by
    rintro p isDir rfl
    rw [notDir] at isDir
    cases isDir
  have removed : ∀ {p name c}, m.fs.child p name = some c →
      (m.fs.removeChild p name).nodes.lookup id = m.fs.nodes.lookup id := by
    intro p name c entry
    obtain ⟨children, found, _⟩ := Fs.child_some entry
    exact Fs.lookup_alter (notParent (Fs.isDir_iff.2 ⟨children, found⟩))
  cases effect with
  | keeps => rfl
  | wrote _ bytes data holds => rw [naming] at data; cases data
  | openedRemote => rfl
  | openedRoot => rfl
  | opened place found => cases naming
  | truncated place found holds => cases naming
  | created place asked absent landing room => cases naming
  | madeDirectory place landing free room =>
    exact Fs.lookup_enter old (notParent (Fs.resolveParent_isDir landing))
  | symlinked place landing free room =>
    exact Fs.lookup_enter old (notParent (Fs.resolveParent_isDir landing))
  | linked oldPlace newPlace found present notDir writable landing free =>
    exact Fs.lookup_alter (notParent (Fs.resolveParent_isDir landing))
  | renamed oldPlace newPlace leaving entry writable landing =>
    rw [Fs.move, Fs.addChild_eq, Fs.lookup_alter (notParent (Fs.resolveParent_isDir landing))]
    exact removed entry
  | @unlinked fd start p c dir path name place leaving entry writable allowed =>
    rcases Fs.unlink_cases p name (Fs.removable_leaf allowed) with ⟨same, _⟩ | ⟨_, _, drop⟩
    · rw [same]
      exact removed entry
    · rw [drop.lookup_of_mem stays]
      exact removed entry
  | @closed fd node place =>
    rcases Fs.closeRef_cases m.fs node with ⟨nodes, _, _, _⟩ | ⟨_, _, _, drop⟩
    · rw [nodes]
    · exact drop.lookup_of_mem stays
  | closedRemote => rfl

theorem naming_wrote {op : Op} (shaped : m.fs.Shaped) (naming : op.handlesData = false) :
    m.Wrote none (m.step env op).1 := by
  refine .frame ((naming_backing naming) ▸ .refl _) fun here stays => ?_
  obtain ⟨present, notDir⟩ := store_some here
  exact effect_lookup (m.step_effect env op).effect naming present shaped notDir stays

/-! ## Copying up -/

theorem stored_file {id : Nat} {data : Bytes} (found : m.fs.nodes.lookup id = some (.file data)) :
    m.stored (.node id) = data := by
  simp only [stored, contents, found, Option.getD_some]

theorem stored_layer {id layer : Nat} (found : m.fs.nodes.lookup id = some (.roFile layer)) :
    m.stored (.node id) = m.backing.layer layer := by
  simp only [stored, contents, found, Option.getD_some]

theorem touchLayer_wrote (id : Nat) : m.Wrote none (m.touchLayer id) := by
  unfold touchLayer
  split
  · exact .frame (materialize_agrees _ _) fun _ _ => rfl
  · exact .same rfl rfl

theorem copyUp_agrees (id : Nat) : Agrees m.backing (m.copyUp id).backing := by
  unfold copyUp
  split
  · exact materialize_agrees _ _
  · exact .refl _

/-- A copied-up file is private and holds what it held. -/
theorem copyUp_file {id : Nat} (holds : m.fs.HoldsBytes id) :
    (m.copyUp id).fs.nodes.lookup id = some (.file (m.stored (.node id))) := by
  rcases holds with ⟨bytes, found⟩ | ⟨layer, found⟩
  · rw [stored_file found]
    simp only [copyUp, found]
  · rw [stored_layer found]
    simp only [copyUp, found, Fs.setBytes, AList.lookup_insert]

theorem copyUp_else {id : Nat} (other : ¬ m.fs.HoldsBytes id) : m.copyUp id = m := by
  unfold copyUp
  split
  · next layer found => exact absurd (.inr ⟨layer, found⟩) other
  · rfl

theorem copyUp_setBytes (id : Nat) (bytes : Bytes) :
    (m.copyUp id).fs.setBytes id bytes = m.fs.setBytes id bytes := by
  rcases copyUp_cases m id with ⟨same, _⟩ | ⟨layer, _, fs⟩
  · rw [same]
  · rw [fs, Fs.setBytes_setBytes]

/-- Copying up changes no bytes. -/
theorem copyUp_wrote (id : Nat) : m.Wrote none (m.copyUp id) := by
  rcases copyUp_cases m id with ⟨same, _⟩ | ⟨layer, found, fs⟩
  · exact .frame (copyUp_agrees id) fun _ _ => by rw [same]
  · refine .put_node (.inr ⟨layer, found⟩) ?_ (by simp) (copyUp_agrees id)
    rw [fs, amended_none, stored_layer found]
    rfl

/-! ## Writing -/

@[simp] theorem lands_none (size : Nat) (change : Bytes → Bytes) : lands env none size change = none :=
  rfl

theorem lands_taken {s : Store} {size : Nat} (change : Bytes → Bytes) (taken : s.takes env size = true) :
    lands env (some s) size change = some ⟨s, change⟩ := by
  simp [lands, taken]

theorem lands_refused {s : Store} {size : Nat} (change : Bytes → Bytes)
    (refused : s.takes env size = false) : lands env (some s) size change = none := by
  simp [lands, refused]

theorem dstStore_node {id : Nat} (holds : m.fs.HoldsBytes id) :
    m.dstStore (.node id) = some (.node id) := by
  simp [dstStore, store_node_iff.2 ⟨rfl, holds⟩]

theorem dstStore_else {id : Nat} (other : ¬ m.fs.HoldsBytes id) : m.dstStore (.node id) = none := by
  simp [dstStore, store_node_iff, other]

/-- A change of the private copy of a file is the change of the file. -/
theorem put_copied {id : Nat} {change : Bytes → Bytes} (holds : m.fs.HoldsBytes id)
    (fs : m'.fs = (m.copyUp id).fs.setBytes id (change (m.stored (.node id))))
    (backing : m'.backing = (m.copyUp id).backing) : m.Wrote (some ⟨.node id, change⟩) m' := by
  refine .put_node holds ?_ (by simp) (backing ▸ copyUp_agrees id)
  rw [fs, copyUp_setBytes, amended_self rfl]
  rfl

theorem writeNode_wrote (env : Env) (id offset : Nat) (bytes : Bytes) :
    m.Wrote (lands env (m.dstStore (.node id)) (offset + bytes.length) fun data =>
      overwrite data offset bytes) (m.writeNode id offset bytes).1 := by
  unfold writeNode
  dsimp only
  by_cases holds : m.fs.HoldsBytes id
  · rw [dstStore_node holds, copyUp_file holds]
    dsimp only [writeAt]
    by_cases large : maxFileSize < offset + bytes.length
    · rw [if_pos large, lands_refused _ (by simpa [Store.takes] using large)]
      exact copyUp_wrote id
    · rw [if_neg large, lands_taken _ (by simpa [Store.takes] using large)]
      exact put_copied holds rfl rfl
  · rw [dstStore_else holds, copyUp_else holds, lands_none]
    split
    · next data found => exact absurd (.inl ⟨data, found⟩) holds
    · exact .same rfl rfl

theorem writeShared_wrote (env : Env) (cell offset : Nat) (bytes : Bytes) :
    m.Wrote (lands env (some (.cell cell)) (offset + bytes.length) fun data =>
      overwrite data offset bytes) (m.writeShared cell offset bytes).1 := by
  unfold writeShared writeAt
  by_cases large : maxFileSize < offset + bytes.length
  · rw [if_pos large, lands_refused _ (by simpa [Store.takes] using large)]
    exact .same rfl rfl
  · rw [if_neg large, lands_taken _ (by simpa [Store.takes] using large)]
    exact .put_cell rfl rfl

theorem writeHost_wrote (path : String) (offset : Nat) (bytes : Bytes) :
    m.Wrote (lands env (some (.file path)) (offset + bytes.length) fun data =>
      overwrite data offset bytes) (m.writeHost env path offset bytes).1 := by
  unfold writeHost
  cases ok : env.diskOk with
  | true =>
    rw [lands_taken _ (by simpa [Store.takes] using ok)]
    exact .put_file rfl rfl
  | false =>
    rw [lands_refused _ (by simpa [Store.takes] using ok)]
    exact .same rfl rfl

theorem writeRemote_wrote (r : RemoteDesc) (handle offset : Nat) (bytes : Bytes) :
    m.Wrote none (m.writeRemote env r handle offset bytes).1 := by
  unfold writeRemote
  dsimp only
  split <;> exact .same rfl rfl

theorem wrote_of_eq {β : Type} {deed : Option Deed} {result : Machine × β} {answer : β}
    (wrote : m.Wrote deed result.1) (eq : result = (m', answer)) : m.Wrote deed m' := by
  rw [eq] at wrote
  exact wrote

/-- A store and what the filesystem takes the node for. -/
theorem dstStore_of_kind {id : Nat} (kind : m.fs.nodeKind id = .file ∨ m.fs.nodeKind id = .ro) :
    m.dstStore (.node id) = m.store id := by
  have holds := Fs.holdsBytes_of_kind kind
  rw [dstStore_node holds, store_node_iff.2 ⟨rfl, holds⟩]

theorem writable_node {fd id : Nat} (place : m.fds.lookup fd = some (.node id))
    (writable : id ∉ m.fs.readonly) : m.writable fd = m.store id := by
  simp [Machine.writable, place, writable]

theorem writable_none {fd : Nat}
    (guarded : ∀ id, m.fds.lookup fd = some (.node id) → id ∈ m.fs.readonly) :
    m.writable fd = none := by
  unfold writable
  split
  · next id place => simp [guarded id place]
  · rfl

theorem store_kind {id : Nat} {kind : Kind} (here : m.fs.nodeKind id = kind) :
    m.store id = kind.store id := by
  rw [store, here]

theorem write_wrote (fd : Nat) (buf : Bytes) (offset : Nat) :
    m.Wrote (lands env (m.writable fd) (offset + buf.length) fun data => overwrite data offset buf)
      (m.write env fd buf offset).1 := by
  unfold write
  split
  · next absent =>
      rw [writable_none (by simp [absent])]
      exact .same rfl rfl
  · next r place =>
      rw [writable_none (by simp [place])]
      split
      · exact .same rfl rfl
      · split
        · exact .same rfl rfl
        · split
          · exact .same rfl rfl
          · split
            · next written => exact wrote_of_eq (writeRemote_wrote ..) written
            · next failed => exact wrote_of_eq (writeRemote_wrote ..) failed
  · next id place =>
      split
      · next guarded =>
          rw [writable_none (by simp [place, guarded])]
          exact .same rfl rfl
      · next unguarded =>
          rw [writable_node place unguarded]
          split
          · next kind =>
              rw [report_fst, ← dstStore_of_kind (.inl kind)]
              exact writeNode_wrote ..
          · next kind =>
              rw [report_fst, ← dstStore_of_kind (.inr kind)]
              exact writeNode_wrote ..
          · next kind =>
              rw [report_fst, store_kind kind]
              exact writeShared_wrote ..
          · next kind =>
              rw [report_fst, store_kind kind]
              exact writeHost_wrote ..
          all_goals
            next kind =>
              rw [store_kind kind]
              exact .same rfl rfl

/-- Sizing a file of the filesystem itself. -/
theorem resize_wrote {id size : Nat} (env : Env) (holds : m.fs.HoldsBytes id)
    (small : size ≤ maxFileSize)
    (sized : m'.fs = (m.copyUp id).fs.setBytes id (resize (m.stored (.node id)) size))
    (backing : m'.backing = (m.copyUp id).backing) :
    m.Wrote (lands env (m.store id) size fun data => resize data size) m' := by
  rw [store_node_iff.2 ⟨rfl, holds⟩, lands_taken _ (by simpa [Store.takes] using small)]
  exact put_copied holds sized backing

theorem setSize_wrote (fd size : Nat) :
    m.Wrote (m.deed env (.setSize fd size)) (m.setSize env fd size).1 := by
  have refused : m.writable fd = none → m.deed env (.setSize fd size) = none := by
    intro none
    simp only [deed, none, lands_none, ite_self]
  unfold setSize
  split
  · next absent =>
      rw [refused (writable_none (by simp [absent]))]
      exact .same rfl rfl
  · next r place =>
      rw [refused (writable_none (by simp [place]))]
      split
      · exact .same rfl rfl
      · split
        · exact .same rfl rfl
        · split
          · exact .same rfl rfl
          · unfold forward
            split <;> exact .same rfl rfl
  · next id place =>
      split
      · next guarded =>
          rw [refused (writable_none (by simp [place, guarded]))]
          exact .same rfl rfl
      · next unguarded =>
          split
          · next large =>
              rw [deed, if_pos large]
              exact .same rfl rfl
          · next small =>
              rw [deed, if_neg small, writable_node place unguarded]
              split
              · next kind =>
                  have holds := Fs.holdsBytes_of_kind (.inl kind)
                  dsimp only
                  rw [copyUp_file holds]
                  exact resize_wrote env holds (Nat.le_of_not_lt small) rfl rfl
              · next kind =>
                  have holds := Fs.holdsBytes_of_kind (.inr kind)
                  dsimp only
                  rw [copyUp_file holds]
                  exact resize_wrote env holds (Nat.le_of_not_lt small) rfl rfl
              · next cell kind =>
                  rw [store_kind kind, Kind.store, lands_taken _ (by simpa [Store.takes] using small)]
                  exact .put_cell rfl rfl
              · next path kind =>
                  rw [store_kind kind, Kind.store]
                  split
                  · next ok =>
                      rw [lands_taken _ (by simpa [Store.takes] using ok)]
                      exact .put_file rfl rfl
                  · next full =>
                      rw [lands_refused _ (by simpa [Store.takes] using full)]
                      exact .same rfl rfl
              · next kind => rw [store_kind kind]; exact .same rfl rfl
              · next kind => rw [store_kind kind]; exact .same rfl rfl
              · next kind => rw [store_kind kind]; exact .same rfl rfl
              · next file ro shared host null zero random =>
                  have nothing : m.store id = none := by
                    unfold store
                    cases kind : m.fs.nodeKind id <;> simp_all [Kind.store]
                  rw [nothing]
                  exact .same rfl rfl

/-! ## Opening -/

theorem truncate_wrote (id : Nat) :
    m.Wrote (lands env (m.store id) 0 fun _ => []) (m.truncate env id) := by
  have inside : ∀ m' : Machine, m.fs.HoldsBytes id → m'.fs = m.fs.setBytes id [] →
      m'.backing = m.backing → m.Wrote (lands env (m.store id) 0 fun _ => []) m' := by
    intro m' holds fs backing
    rw [store_node_iff.2 ⟨rfl, holds⟩, lands_taken _ (by simp [Store.takes])]
    refine .put_node holds ?_ (by simp) (backing ▸ .refl _)
    rw [fs, amended_self rfl]
    rfl
  unfold truncate
  split
  · next bytes found => exact inside _ (.inl ⟨bytes, found⟩) rfl rfl
  · next layer found => exact inside _ (.inr ⟨layer, found⟩) rfl rfl
  · next cell found =>
      rw [store, Fs.nodeKind, found, Kind.store, lands_taken _ (by simp [Store.takes])]
      exact .put_cell rfl rfl
  · next path found =>
      rw [store, Fs.nodeKind, found, Kind.store]
      split
      · next ok =>
          rw [lands_taken _ (by simpa [Store.takes] using ok)]
          exact .put_file rfl rfl
      · next full =>
          rw [lands_refused _ (by simpa [Store.takes] using full)]
          exact .same rfl rfl
  · next file layer shared host =>
      have nothing : m.store id = none := by
        unfold store Fs.nodeKind
        split <;> simp_all [Kind.store]
      rw [nothing]
      exact .same rfl rfl

theorem remoteOpen_wrote (conn : NodeId) (readonly : Bool) (path : String) (flags : OpenFlags) :
    m.Wrote none (m.remoteOpen env conn readonly path flags).1 := by
  unfold remoteOpen
  dsimp only
  repeat' split
  all_goals exact .same rfl rfl

/-- Opening a node that is there changes its bytes only to empty them. -/
theorem openExisting_wrote (id : Nat) (flags : OpenFlags) :
    m.Wrote (if flags.truncate && !flags.exclusive then
        lands env (if id ∈ m.fs.readonly then none else m.store id) 0 fun _ => [] else none)
      (m.openExisting env id flags).1 := by
  unfold openExisting
  cases exclusive : flags.exclusive with
  | true =>
    simp only [if_true, Bool.not_true, Bool.and_false, Bool.false_eq_true, if_false]
    exact .same rfl rfl
  | false =>
    cases truncates : flags.truncate with
    | true =>
      simp only [Bool.false_eq_true, if_false, Bool.not_false, Bool.and_self, if_true,
        Bool.true_and, decide_eq_true_eq]
      split
      · exact .same rfl rfl
      · split
        · exact truncate_wrote id
        · exact (truncate_wrote id).congr rfl rfl
    | false =>
      simp only [Bool.false_eq_true, if_false, Bool.false_and]
      split <;> exact .same rfl rfl

theorem openNew_wrote (shaped : m.fs.Shaped) (start : Nat) (path : String) (flags : OpenFlags) :
    m.Wrote none (m.openNew start path flags).1 := by
  unfold openNew
  split
  · exact .same rfl rfl
  · split
    · exact .same rfl rfl
    · next parent name landing =>
        split
        · exact .same rfl rfl
        · refine .frame (.refl _) fun {id s} here _ => ?_
          obtain ⟨present, notDir⟩ := store_some here
          refine Fs.lookup_enter (fun same => shaped.fresh (same ▸ present)) ?_
          rintro rfl
          rw [Fs.resolveParent_isDir landing] at notDir
          cases notDir

theorem openAt_wrote (shaped : m.fs.Shaped) (fd : Nat) (follow : Bool) (path : String)
    (flags : OpenFlags) :
    m.Wrote (m.deed env (.openAt fd follow path flags)) (m.openAt env fd follow path flags).1 := by
  have nothing : m.emptied fd follow path = none →
      m.deed env (.openAt fd follow path flags) = none := by
    intro none
    simp only [deed, none, lands_none, ite_self]
  unfold openAt
  split
  · next absent =>
      rw [nothing (by simp [emptied, absent])]
      exact .same rfl rfl
  · next r place =>
      rw [nothing (by simp [emptied, place])]
      exact remoteOpen_wrote ..
  · next start place =>
      split
      · next remote =>
          rw [nothing (by simp [emptied, place, remote])]
          exact remoteOpen_wrote ..
      · next here =>
          have inside : m.emptied fd follow path = (m.fs.resolveAt start path follow).bind fun id =>
              if id ∈ m.fs.readonly then none else m.store id := by
            simp only [emptied, place]
          split
          · next id found =>
              rw [deed, inside, found, Option.bind_some]
              exact openExisting_wrote id flags
          · next absent =>
              rw [nothing (by rw [inside, absent]; rfl)]
              exact openNew_wrote shaped start path flags

/-! ## Streams -/

theorem writeDst_wrote (dst : WriteDst) (offset : Nat) (bytes : Bytes) :
    m.Wrote (lands env (m.dstStore dst) (offset + bytes.length) fun data =>
      overwrite data offset bytes) (m.writeDst env dst offset bytes).1 := by
  cases dst with
  | node id => exact writeNode_wrote env id offset bytes
  | shared cell => exact writeShared_wrote env cell offset bytes
  | host path => exact writeHost_wrote path offset bytes
  | null => exact .same rfl rfl
  | remote r handle =>
    unfold writeDst
    dsimp only
    split
    · exact .same rfl rfl
    · exact writeRemote_wrote ..

theorem streamWrite_wrote (handle : Nat) (bytes : Bytes) :
    m.Wrote (m.streamed env handle bytes) (m.streamWrite env handle bytes).1 := by
  unfold streamWrite streamed
  split
  · next absent => rw [absent]; exact .same rfl rfl
  · next stream here =>
      rw [here, Option.bind_some]
      split
      · next written => exact (wrote_of_eq (writeDst_wrote ..) written).congr rfl rfl
      · next failed => exact wrote_of_eq (writeDst_wrote ..) failed

theorem consumerWrite_wrote (handle : Nat) (bytes : Bytes) :
    m.Wrote (m.streamed env handle bytes) (m.consumerWrite env handle bytes).1 := by
  unfold consumerWrite streamed
  split
  · next absent => rw [absent]; exact .same rfl rfl
  · next stream here =>
      rw [here, Option.bind_some]
      split
      · next written => exact (wrote_of_eq (writeDst_wrote ..) written).congr rfl rfl
      · next failed => exact (wrote_of_eq (writeDst_wrote ..) failed).congr rfl rfl

theorem readRemote_wrote (r : RemoteDesc) (offset len : Nat) :
    m.Wrote none (m.readRemote env r offset len).1 := by
  unfold readRemote
  dsimp only
  repeat' split
  all_goals exact .same rfl rfl

theorem streamRemote_wrote (r : RemoteDesc) (offset : Option Nat)
    (statFailed : FsError → ErrorCode) :
    m.Wrote none (m.streamRemote env r offset statFailed).1 := by
  unfold streamRemote
  repeat' split
  all_goals exact .same rfl rfl

theorem OpensStream.wrote {fd : Nat} (opens : m.OpensStream env fd m') : m.Wrote none m' := by
  cases opens with
  | same => exact .same rfl rfl
  | remote => exact streamRemote_wrote ..
  | touched => exact (touchLayer_wrote _).congr rfl rfl
  | copied => exact (copyUp_wrote _).congr rfl rfl
  | shared | host | device => exact .same rfl rfl

/-- **An operation writes what was asked, and nothing else.** -/
theorem step_wrote (env : Env) (op : Op) (shaped : m.fs.Shaped) :
    m.Wrote (m.deed env op) (m.step env op).1 := by
  cases op with
  | openAt fd follow path flags => exact openAt_wrote shaped fd follow path flags
  | write fd buf offset => exact write_wrote fd buf offset
  | setSize fd size => exact setSize_wrote fd size
  | streamWrite handle bytes => exact streamWrite_wrote handle bytes
  | consumerWrite handle bytes => exact consumerWrite_wrote handle bytes
  | appendViaStream fd => exact (appendFrom_opens fd _).wrote
  | appendViaStream3 fd => exact (appendFrom_opens fd _).wrote
  | read fd len offset =>
    simp only [step, read]
    split
    · exact .same rfl rfl
    · exact readRemote_wrote ..
    · split
      · exact touchLayer_wrote _
      · split <;> exact .same rfl rfl
  | readViaStream fd offset =>
    simp only [step, readViaStream]
    split
    · exact .same rfl rfl
    · exact readRemote_wrote ..
    · split
      · exact touchLayer_wrote _
      · split <;> exact .same rfl rfl
  | writeViaStream fd offset => exact (writeViaStream_opens fd offset).wrote
  | writeViaStream3 fd offset => exact (writeViaStream3_opens fd offset).wrote
  | _ => exact naming_wrote shaped rfl

end Machine

end Wk.Vfs
