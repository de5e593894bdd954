/-
# Wk.Vfs.HostMoves -- what the host does, one primitive at a time

Every host operation is a sequence of three moves: a node that names nothing enters
under a free name, a subtree whose entry was removed is dropped, a node is marked
read-only.  `Fs.hostDrops` says which subtree an operation drops, and `host_moves`
that it does nothing else.
-/
import Wk.Vfs.Shape

namespace Wk.Vfs

open Wk.Library Relation

set_option autoImplicit false

namespace Fs

variable {fs : Fs}

/-- The directory `id` with its entries removed. -/
def clearDir (fs : Fs) (id : Nat) : Fs := fs.alter id fun _ => ∅

/-- One move of the host; `drops` says which subtrees may be dropped, of the
filesystem whose entries for them are already removed. -/
inductive HostMove (drops : Fs → List Nat → Prop) : Fs → Fs → Prop
  | enter {fs : Fs} {p : Nat} {name : String} {node : FsNode} (leaf : Childless node)
      (isDir : fs.isDir p = true) (free : fs.child p name = none) :
      HostMove drops fs (fs.enter p name node)
  | drop {fs fs' : Fs} {p id : Nat} {name : String} (entry : fs.child p name = some id)
      (drop : Dropped (fs.removeChild p name) fs' [id]) (noted : drops (fs.removeChild p name) [id]) :
      HostMove drops fs fs'
  | clear {fs fs' : Fs} {id : Nat} {children : Table String Nat}
      (isDir : fs.nodes.lookup id = some (.dir children))
      (drop : Dropped (fs.clearDir id) fs' (Table.values children))
      (noted : drops (fs.clearDir id) (Table.values children)) : HostMove drops fs fs'
  | guard (fs : Fs) (id : Nat) : HostMove drops fs { fs with readonly := id :: fs.readonly }

/-- The subtree dropped where `name` of `p` is removed. -/
def dropsIn (fs : Fs) (p : Nat) (name : String) : Option (Fs × List Nat) :=
  (fs.child p name).map fun id => (fs.removeChild p name, [id])

/-- The subtree dropped where `path` is removed. -/
def dropsAt (fs : Fs) (path : String) : Option (Fs × List Nat) :=
  match (components path).reverse with
  | [] => none
  | name :: dirs => (fs.resolve dirs.reverse).bind fun p => fs.dropsIn p name

/-- The subtree dropped where something is placed at `path`. -/
def dropsUnder (fs : Fs) (path : String) : Option (Fs × List Nat) :=
  match (components path).reverse with
  | [] => none
  | name :: dirs =>
    match fs.ensureDirs root dirs.reverse with
    | (_, none) => none
    | (fs, some p) => if fs.atCapacity then none else fs.dropsIn p name

/-- The subtrees a host operation drops, with their entries already removed. -/
def hostDrops (fs : Fs) : HostOp → Option (Fs × List Nat)
  | .putFileAt path _ | .putSymlinkAt path _ | .putRoFileAt path _ | .mount path _ _ =>
    fs.dropsUnder path
  | .removePath path | .unmount path => fs.dropsAt path
  | .clearDirAt path =>
    (fs.resolveFrom root (components path)).bind fun id =>
      match fs.nodes.lookup id with
      | some (.dir children) => some (fs.clearDir id, Table.values children)
      | _ => none
  | .ensureDirPath _ | .ensureStandardDevices => none

/-! ## The shape -/

theorem child_clearDir {id d : Nat} {k : String} {c : Nat}
    (entry : (fs.clearDir id).child d k = some c) : d ≠ id ∧ fs.child d k = some c := by
  by_cases here : d = id
  · subst here
    cases isDir : fs.isDir d with
    | true =>
      obtain ⟨children, found⟩ := isDir_iff.1 isDir
      rw [clearDir, child_eq (lookup_alter_self found), AList.lookup_empty] at entry
      cases entry
    | false =>
      rw [clearDir, alter_notDir isDir, child_none isDir] at entry
      cases entry
  · exact ⟨here, (child_congr (lookup_alter here)).symm.trans entry⟩

theorem Shaped.clearDir (shaped : fs.Shaped) (id : Nat) : (fs.clearDir id).Shaped :=
  shaped.shrink (by simp [Fs.clearDir]) (fun member => by simpa [Fs.clearDir] using member)
    (fun isDir => by simpa [Fs.clearDir] using isDir) (fun entry => (child_clearDir entry).2)
    (by simpa [Fs.clearDir] using shaped.rootDir)

/-- No move of the host breaks the shape. -/
theorem HostMove.shaped {drops : Fs → List Nat → Prop} {fs' : Fs} (move : HostMove drops fs fs')
    (shaped : fs.Shaped) : fs'.Shaped := by
  cases move with
  | enter leaf isDir free => exact shaped.enter leaf isDir
  | @drop _ p id name entry drop noted =>
    refine (shaped.removeChild p name).dropped drop fun member => ?_
    exact shaped.rootFree ((List.mem_singleton.1 member) ▸ entry)
  | @clear _ id children isDir drop noted =>
    refine (shaped.clearDir id).dropped drop fun member => ?_
    obtain ⟨k, found⟩ := Table.mem_values.1 member
    exact shaped.rootFree ((child_eq isDir).trans found)
  | guard id =>
    exact shaped.shrink rfl (fun member => member) (fun isDir => isDir) (fun entry => entry)
      shaped.rootDir

theorem hostMoves_shaped {drops : Fs → List Nat → Prop} {fs' : Fs}
    (moves : ReflTransGen (HostMove drops) fs fs') (shaped : fs.Shaped) : fs'.Shaped :=
  reaches_within moves shaped fun _ _ shaped move => move.shaped shaped

/-! ## The operations -/

/-- What ensuring directories does: it enters empty ones, so every name stays, and
it ends, if it does, at a directory below where it started. -/
structure Ensured (drops : Fs → List Nat → Prop) (fs : Fs) (cur : Nat) (result : Fs × Option Nat) :
    Prop where
  moves : ReflTransGen (HostMove drops) fs result.1
  names : ∀ {d k c}, fs.child d k = some c → result.1.child d k = some c
  ends : ∀ {p}, result.2 = some p → result.1.isDir p = true ∧ result.1.Reaches cur p

theorem Ensured.stuck (drops : Fs → List Nat → Prop) (fs : Fs) (cur : Nat) :
    Ensured drops fs cur (fs, none) where
  moves := .refl
  names entry := entry
  ends none := by cases none

/-- One directory further down. -/
theorem Ensured.down {drops : Fs → List Nat → Prop} {cur id : Nat} {comp : String}
    {result : Fs × Option Nat} (entry : fs.child cur comp = some id)
    (rest : Ensured drops fs id result) : Ensured drops fs cur result where
  moves := rest.moves
  names := rest.names
  ends same := by
    obtain ⟨isDir, path⟩ := rest.ends same
    exact ⟨isDir, .head ⟨comp, rest.names entry⟩ path⟩

theorem ensureDirs_ensured {drops : Fs → List Nat → Prop} :
    ∀ (comps : List String) (fs : Fs) (cur : Nat), fs.Shaped → fs.isDir cur = true →
      Ensured drops fs cur (fs.ensureDirs cur comps)
  | [], fs, cur, _, isDir =>
    { moves := .refl
      names := fun entry => entry
      ends := fun same => by cases same; exact ⟨isDir, .refl⟩ }
  | comp :: rest, fs, cur, shaped, isDir => by
    unfold ensureDirs
    split
    · next children found =>
        split
        · next id entry =>
            split
            · next inner there =>
                exact .down ((child_eq found).trans entry)
                  (ensureDirs_ensured rest fs id shaped (isDir_iff.2 ⟨inner, there⟩))
            · exact .stuck drops fs cur
        · next absent =>
            split
            · exact .stuck drops fs cur
            · have free : fs.child cur comp = none := (child_eq found).trans absent
              have next : fs.next ≠ cur := fun same => shaped.fresh (same ▸ mem_of_isDir isDir)
              have fresh : (fs.enter cur comp (.dir ∅)).isDir fs.next = true :=
                isDir_iff.2 ⟨∅, lookup_enter_self next⟩
              have further : Ensured drops (fs.enter cur comp (.dir ∅)) fs.next
                  ((fs.enter cur comp (.dir ∅)).ensureDirs fs.next rest) :=
                ensureDirs_ensured rest _ fs.next (shaped.enter childless_dir isDir) fresh
              have named : (fs.enter cur comp (.dir ∅)).child cur comp = some fs.next := by
                rw [child_enter shaped childless_dir isDir, if_pos ⟨rfl, rfl⟩]
              have down := further.down named
              exact
                { moves := .head (.enter childless_dir isDir free) down.moves
                  names := fun {d k c} entry => by
                    apply down.names
                    rw [child_enter shaped childless_dir isDir, if_neg]
                    · exact entry
                    · rintro ⟨rfl, rfl⟩
                      rw [free] at entry
                      cases entry
                  ends := down.ends }
    · exact .stuck drops fs cur

/-- Removing a name drops what it named. -/
theorem removePathIn_moves (drops : Fs → List Nat → Prop) (p : Nat) (name : String)
    (noted : ∀ id, fs.child p name = some id → drops (fs.removeChild p name) [id]) :
    fs.child p name = none ∧ fs.removePathIn p name = fs ∨
      ∃ id, fs.child p name = some id ∧
        Dropped (fs.removeChild p name) (fs.removePathIn p name) [id] ∧
        HostMove drops fs (fs.removePathIn p name) := by
  unfold removePathIn
  split
  · next children found =>
      split
      · next id entry =>
          have here : fs.child p name = some id := (child_eq found).trans entry
          have detached : fs.removeChild p name =
              { fs with nodes := fs.nodes.insert p (.dir (children.erase name)) } := by
            simp only [removeChild, found]
          have dropped := dropSubtree_dropped _ (fs.removeChild p name) id le_rfl
          rw [detached] at dropped
          refine .inr ⟨id, here, ?_, .drop here ?_ (noted id here)⟩
          · rw [detached]; exact dropped
          · rw [detached]; exact dropped
      · next absent => exact .inl ⟨(child_eq found).trans absent, rfl⟩
  · next notDir =>
      refine .inl ⟨?_, rfl⟩
      unfold child
      split
      · next children found => exact absurd found (notDir children)
      · rfl

theorem addChild_readonly (p : Nat) (name : String) (c : Nat) (marks : List Nat) :
    ({ fs with readonly := marks } : Fs).addChild p name c =
      { fs.addChild p name c with readonly := marks } := by
  unfold addChild
  dsimp only
  split <;> rfl

/-- Where the parent of a placed node was reached from the root, removing what stood
there leaves the parent, with the name free. -/
theorem removePathIn_parent {p : Nat} (name : String) (shaped : fs.Shaped)
    (isDir : fs.isDir p = true) (path : fs.Reaches root p) :
    (fs.removePathIn p name).isDir p = true ∧ (fs.removePathIn p name).child p name = none := by
  rcases removePathIn_moves (fun _ _ => True) p name (fun _ _ => trivial) with
    ⟨absent, same⟩ | ⟨id, entry, drop, _⟩
  · rw [same]
    exact ⟨isDir, absent⟩
  · have inside : ∀ a b, (fs.removeChild p name).Names a b → fs.Names a b := by
      rintro a b ⟨k, other⟩
      rw [child_removeChild] at other
      split at other
      · cases other
      · exact ⟨k, other⟩
    have there : p ∈ (fs.removePathIn p name).nodes := by
      refine drop.mem_iff.2 ⟨by simpa [removeChild_eq] using mem_of_isDir isDir, ?_⟩
      intro r member back
      rw [List.mem_singleton.1 member] at back
      exact shaped.no_loop path isDir ⟨name, entry⟩ (ReflTransGen.mono inside _ _ back)
    constructor
    · simp only [Fs.isDir, drop.lookup_of_mem there]
      have stillDir : (fs.removeChild p name).isDir p = true := by simpa [removeChild_eq] using isDir
      exact stillDir
    · rw [drop.child_of_mem there, child_removeChild, if_pos ⟨rfl, rfl⟩]

/-- Placing a node at a path ensures its parents, drops what stood there and enters. -/
theorem putAt_moves (shaped : fs.Shaped) (path : String) {node : FsNode} (leaf : Childless node)
    (readonly : Bool) :
    ReflTransGen (HostMove fun fs' roots => fs.dropsUnder path = some (fs', roots)) fs
      (fs.putAt path node readonly) := by
  rcases parts : (components path).reverse with _ | ⟨name, dirs⟩
  · simp only [putAt, parts]
    exact .refl
  · have ensured : Ensured (fun fs' roots => fs.dropsUnder path = some (fs', roots)) fs root
        (fs.ensureDirs root dirs.reverse) :=
      ensureDirs_ensured dirs.reverse fs root shaped shaped.rootDir
    rcases made : fs.ensureDirs root dirs.reverse with ⟨fs₁, _ | p⟩
    · rw [made] at ensured
      simp only [putAt, parts, made]
      exact ensured.moves
    · rw [made] at ensured
      obtain ⟨isDir, below⟩ := ensured.ends rfl
      have shaped₁ : fs₁.Shaped := hostMoves_shaped ensured.moves shaped
      simp only [putAt, parts, made]
      split
      · exact ensured.moves
      · next room =>
          have noted : ∀ id, fs₁.child p name = some id →
              fs.dropsUnder path = some (fs₁.removeChild p name, [id]) := by
            intro id entry
            simp only [dropsUnder, parts, made, room, dropsIn, entry, Option.map_some]
            rfl
          obtain ⟨isDir', free⟩ := removePathIn_parent name shaped₁ isDir below
          have removed : ReflTransGen
              (HostMove fun fs' roots => fs.dropsUnder path = some (fs', roots)) fs₁
              (fs₁.removePathIn p name) := by
            rcases removePathIn_moves (fun fs' roots => fs.dropsUnder path = some (fs', roots)) p name
              noted with ⟨_, same⟩ | ⟨id, _, _, move⟩
            · rw [same]
            · exact .single move
          have entered := (ensured.moves.trans removed).tail (.enter leaf isDir' free)
          cases readonly with
          | false => exact entered
          | true =>
            have marked := entered.tail (.guard _ (fs₁.removePathIn p name).next)
            rw [enter_readonly] at marked
            simp only [if_true]
            rw [addChild_readonly]
            exact marked

theorem removePath_moves (path : String) :
    ReflTransGen (HostMove fun fs' roots => fs.dropsAt path = some (fs', roots)) fs
      (fs.removePath path) := by
  rcases parts : (components path).reverse with _ | ⟨name, dirs⟩
  · simp only [removePath, parts]
    exact .refl
  · simp only [removePath, parts]
    split
    · next p found =>
        have noted : ∀ id, fs.child p name = some id →
            fs.dropsAt path = some (fs.removeChild p name, [id]) := by
          intro id entry
          simp only [dropsAt, parts, found, Option.bind_some, dropsIn, entry, Option.map_some]
        rcases removePathIn_moves (fun fs' roots => fs.dropsAt path = some (fs', roots)) p name
          noted with ⟨_, same⟩ | ⟨id, _, _, move⟩
        · rw [same]
        · exact .single move
    · exact .refl

/-- What clearing the directory at a path does. -/
theorem clearDirAt_cases (path : String) :
    (∃ id children, fs.resolveFrom root (components path) = some id ∧
        fs.nodes.lookup id = some (.dir children) ∧
        Dropped (fs.clearDir id) (fs.clearDirAt path) (Table.values children)) ∨
      (∀ id, fs.resolveFrom root (components path) = some id → fs.isDir id = false) ∧
        fs.clearDirAt path = fs := by
  unfold clearDirAt
  split
  · next absent => exact .inr ⟨fun id found => (by rw [absent] at found; cases found), rfl⟩
  · next id found =>
      split
      · next children isDir =>
          have cleared : fs.clearDir id = { fs with nodes := fs.nodes.insert id (.dir ∅) } := by
            simp only [clearDir, alter, isDir]
          refine .inl ⟨id, children, found, isDir, ?_⟩
          rw [cleared]
          exact dropped_foldl (fun fs child _ => dropSubtree_dropped _ fs child le_rfl)
            (fun fs child => dropSubtree_length _ fs child) (Table.values children) _ le_rfl
      · next notDir =>
          refine .inr ⟨fun id' found' => ?_, rfl⟩
          cases Option.some.inj (found.symm.trans found')
          by_contra isDir
          obtain ⟨children, isDir⟩ := isDir_iff.1 (by simpa using isDir)
          exact notDir children isDir

theorem clearDirAt_moves (path : String) :
    ReflTransGen (HostMove fun fs' roots => fs.hostDrops (.clearDirAt path) = some (fs', roots)) fs
      (fs.clearDirAt path) := by
  rcases @clearDirAt_cases fs path with ⟨id, children, found, isDir, drop⟩ | ⟨_, same⟩
  · refine .single (.clear isDir drop ?_)
    simp only [hostDrops, found, Option.bind_some, isDir]
  · rw [same]

theorem ensureDevice_moves {drops : Fs → List Nat → Prop} {dev : Nat} {device : String × FsNode}
    (isDir : fs.isDir dev = true) (leaf : Childless device.2) :
    ReflTransGen (HostMove drops) fs (ensureDevice dev fs device) := by
  unfold ensureDevice
  split
  · next children found =>
      split
      · exact .refl
      · next free =>
          simp only [Bool.or_eq_true, not_or, Bool.not_eq_true, Option.isSome_eq_false_iff,
            Option.isNone_iff_eq_none] at free
          exact .single (.enter leaf isDir ((child_eq found).trans free.1))
  · next other =>
      obtain ⟨children, found⟩ := isDir_iff.1 isDir
      exact absurd found (other children)

theorem isDir_ensureDevice {dev : Nat} {device : String × FsNode} (shaped : fs.Shaped) (isDir : fs.isDir dev = true) :
    (ensureDevice dev fs device).isDir dev = true := by
  unfold ensureDevice
  have old : dev ≠ fs.next := fun same => shaped.fresh (same ▸ mem_of_isDir isDir)
  split
  · split
    · exact isDir
    · exact (isDir_enter_of_ne old).trans isDir
  · next other =>
      obtain ⟨children, found⟩ := isDir_iff.1 isDir
      exact absurd found (other children)

/-- Provisioning the device files enters those that are missing. -/
theorem ensureDevices_moves {drops : Fs → List Nat → Prop} {dev : Nat} :
    ∀ (devices : List (String × FsNode)) (fs : Fs), fs.Shaped → fs.isDir dev = true →
      (∀ device ∈ devices, Childless device.2) →
      ReflTransGen (HostMove drops) fs (devices.foldl (ensureDevice dev) fs)
  | [], _, _, _, _ => .refl
  | device :: rest, fs, shaped, isDir, leaves => by
    have one : ReflTransGen (HostMove drops) fs (ensureDevice dev fs device) :=
      ensureDevice_moves isDir (leaves device (List.mem_cons_self ..))
    exact one.trans (ensureDevices_moves rest _ (hostMoves_shaped one shaped)
      (isDir_ensureDevice shaped isDir) fun d member => leaves d (List.mem_cons_of_mem _ member))

theorem ensureStandardDevices_moves (shaped : fs.Shaped) {drops : Fs → List Nat → Prop} :
    ReflTransGen (HostMove drops) fs fs.ensureStandardDevices := by
  have ensured : Ensured drops fs root (fs.ensureDirs root ["dev"]) :=
    ensureDirs_ensured ["dev"] fs root shaped shaped.rootDir
  unfold ensureStandardDevices
  split
  · next fs₁ made =>
      rw [made] at ensured
      exact ensured.moves
  · next fs₁ dev made =>
      rw [made] at ensured
      obtain ⟨isDir, _⟩ := ensured.ends rfl
      have shaped₁ : fs₁.Shaped := hostMoves_shaped ensured.moves shaped
      refine ensured.moves.trans (ensureDevices_moves _ fs₁ shaped₁ isDir ?_)
      simp [Childless]

theorem childless_mount (source : MountSource) : Childless source.node := by
  cases source <;> exact childless_of_ne (by simp [MountSource.node])

/-- **A host operation is its moves.** It drops what `hostDrops` says and nothing else. -/
theorem host_moves (shaped : fs.Shaped) (op : HostOp) :
    ReflTransGen (HostMove fun fs' roots => fs.hostDrops op = some (fs', roots)) fs (fs.host op) := by
  cases op with
  | ensureDirPath path => exact (ensureDirs_ensured _ fs root shaped shaped.rootDir).moves
  | putFileAt path bytes => exact putAt_moves shaped path (childless_of_ne (by simp)) false
  | putSymlinkAt path target => exact putAt_moves shaped path (childless_of_ne (by simp)) false
  | putRoFileAt path layer => exact putAt_moves shaped path (childless_of_ne (by simp)) false
  | removePath path => exact removePath_moves path
  | clearDirAt path => exact clearDirAt_moves path
  | mount path source writable => exact putAt_moves shaped path (childless_mount source) _
  | unmount path => exact removePath_moves path
  | ensureStandardDevices => exact ensureStandardDevices_moves shaped

end Fs

namespace Machine

/-- No turn of a session breaks the shape. -/
theorem turn_shaped {m : Machine} (turn : Turn) (shaped : m.fs.Shaped) : (m.turn turn).fs.Shaped := by
  cases turn with
  | guest op env => exact (m.step_effect env op).effect.shaped shaped
  | host op => exact Fs.hostMoves_shaped (Fs.host_moves shaped op) shaped

end Machine

end Wk.Vfs
