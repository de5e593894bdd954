/-
# Wk.Vfs.Listing -- what is listed can be looked up

A listed name can be looked up in its directory where it is a plain one, no `..`, and the
node it names is still there.  The components of a path are all names except for `..`,
which the resolvers take for the way up and every operation that adds an entry takes for a
name.

* `run_listed`: in every run in which no turn adds an entry for a final `..` and what is
  dropped is sealed, everything listed in any directory can be looked up there.

Poles: `up_is_listed` (a symbolic link named `..`).
-/
import Wk.Vfs.Creating
import Wk.Vfs.Dangling

namespace Wk.Vfs

open Wk.Library Wk.Provider Relation

set_option autoImplicit false

/-- A name that a walk goes down by. -/
def PlainName (name : String) : Prop := IsName name ∧ name ≠ ".."

instance : DecidablePred PlainName := fun name =>
  inferInstanceAs (Decidable ((name ≠ "" ∧ name ≠ "." ∧ '/' ∉ name.toList) ∧ name ≠ ".."))

namespace Fs

variable {fs : Fs}

/-- Everything that `read_directory` lists in a directory below the root is found there. -/
def Listed (fs : Fs) : Prop :=
  ∀ d name id, fs.Reaches root d → fs.child d name = some id →
    PlainName name ∧ fs.resolveAt d name false = some id

/-- Every entry has a plain name. -/
def PlainNames (fs : Fs) : Prop := ∀ d k c, fs.child d k = some c → PlainName k

/-- Every entry's name fits. -/
def NamesFit (fs : Fs) (P : String → Prop) : Prop := ∀ d k c, fs.child d k = some c → P k

theorem not_absolute {name : String} (named : IsName name) : absolute name = false := by
  refine decide_eq_false fun slash => named.2.2 ?_
  obtain ⟨rest, split⟩ := List.head?_eq_some_iff.1 slash
  rw [split]
  exact List.mem_cons_self

/-- A plain name leads from its directory to the node it names. -/
theorem resolveAt_name {d id : Nat} {name : String} (plain : PlainName name) (entry : fs.child d name = some id)
    (there : id ∈ fs.nodes) : fs.resolveAt d name false = some id := by
  obtain ⟨node, found⟩ := Table.mem_iff_lookup.1 there
  have start : Walker.setOff d name = ⟨0, [name], d, []⟩ := by
    rw [Walker.setOff, components_name plain.1, origin, not_absolute plain.1]
    rfl
  have goes : fs.turn false false ⟨0, [name], d, []⟩ = .inl ⟨0, [], id, [d]⟩ := by
    rw [turn, ahead_entry rfl plain.2, entry]
    dsimp only
    rw [found]
    cases node <;> rfl
  change foundAt (fs.endOf false false (Walker.setOff d name)) = some id
  rw [start, endOf_turn, goes]
  exact congrArg foundAt endOf_arrived

theorem listed_of_plain (plain : fs.PlainNames) (sound : fs.Sound) : fs.Listed := by
  intro d name id _ entry
  exact ⟨plain d name id entry, resolveAt_name (plain d name id entry) entry (sound_iff.1 sound d name id entry)⟩

/-! ## What adds an entry -/

section NamesFit

variable {P : String → Prop}

theorem NamesFit.fewer {fs' : Fs} (fit : fs.NamesFit P) (old : ∀ {d k c}, fs'.child d k = some c → fs.child d k = some c) :
    fs'.NamesFit P :=
  fun d k c entry => fit d k c (old entry)

theorem NamesFit.enter {p : Nat} {name : String} {node : FsNode} (fit : fs.NamesFit P) (good : P name)
    (shaped : fs.Shaped) (leaf : Childless node) (isDir : fs.isDir p = true) : (fs.enter p name node).NamesFit P := by
  intro d k c entry
  rw [child_enter shaped leaf isDir] at entry
  split at entry
  · next here => exact here.2 ▸ good
  · exact fit d k c entry

theorem NamesFit.removeChild (fit : fs.NamesFit P) (p : Nat) (name : String) : (fs.removeChild p name).NamesFit P :=
  fit.fewer fun entry => by
    rw [child_removeChild] at entry
    split at entry
    · cases entry
    · exact entry

theorem NamesFit.addChild {p c : Nat} {name : String} (fit : fs.NamesFit P) (good : P name)
    (isDir : fs.isDir p = true) : (fs.addChild p name c).NamesFit P := by
  intro d k c' entry
  rw [child_addChild isDir] at entry
  split at entry
  · next here => exact here.2 ▸ good
  · exact fit d k c' entry

theorem NamesFit.dropped {fs' : Fs} {roots : List Nat} (fit : fs.NamesFit P) (drop : Dropped fs fs' roots) :
    fs'.NamesFit P :=
  fit.fewer fun entry => (drop.child_of_mem (Names.mem ⟨_, entry⟩) _).symm.trans entry

theorem NamesFit.removePathIn (fit : fs.NamesFit P) (p : Nat) (name : String) : (fs.removePathIn p name).NamesFit P := by
  rcases removePathIn_moves (fun _ _ => True) p name (fun _ _ => trivial) with ⟨_, same⟩ | ⟨id, _, drop, _⟩
  · rw [same]
    exact fit
  · exact (fit.removeChild p name).dropped drop

theorem NamesFit.ensureDirs : ∀ {comps : List String} {fs : Fs} {cur : Nat}, fs.NamesFit P → fs.Shaped →
    fs.isDir cur = true → (∀ comp ∈ comps, P comp) → (fs.ensureDirs cur comps).1.NamesFit P
  | [], _, _, fit, _, _, _ => fit
  | comp :: rest, fs, cur, fit, shaped, isDir, good => by
    have others : ∀ c ∈ rest, P c := fun c member => good c (List.mem_cons_of_mem _ member)
    unfold Fs.ensureDirs
    split
    · split
      · split
        · next inner there => exact NamesFit.ensureDirs fit shaped (isDir_iff.2 ⟨inner, there⟩) others
        · exact fit
      · split
        · exact fit
        · have fresh : (fs.enter cur comp (.dir ∅)).isDir fs.next = true :=
            isDir_iff.2 ⟨∅, lookup_enter_self (next_ne_dir shaped isDir)⟩
          exact NamesFit.ensureDirs (fit.enter (good comp (List.mem_cons_self ..)) shaped childless_dir isDir)
            (shaped.enter childless_dir isDir) fresh others
    · exact fit

theorem NamesFit.putAt {path : String} {node : FsNode} (fit : fs.NamesFit P) (shaped : fs.Shaped) (leaf : Childless node)
    (readonly : Bool) (good : ∀ comp ∈ components path, P comp) : (fs.putAt path node readonly).NamesFit P := by
  rcases parts : (components path).reverse with _ | ⟨name, dirs⟩
  · simp only [Fs.putAt, parts]
    exact fit
  have inside : ∀ comp ∈ name :: dirs, P comp := fun comp member =>
    good comp (List.mem_reverse.1 (parts ▸ member))
  have above : ∀ comp ∈ dirs.reverse, P comp := fun comp member =>
    inside comp (List.mem_cons_of_mem _ (List.mem_reverse.1 member))
  have ensured : Ensured (fun _ _ => True) fs root (fs.ensureDirs root dirs.reverse) :=
    ensureDirs_ensured dirs.reverse fs root shaped shaped.rootDir
  have fit₁ := fit.ensureDirs shaped shaped.rootDir above
  rcases made : fs.ensureDirs root dirs.reverse with ⟨fs₁, _ | p⟩
  · rw [made] at fit₁
    simp only [Fs.putAt, parts, made]
    exact fit₁
  · rw [made] at fit₁ ensured
    obtain ⟨isDir, below⟩ := ensured.ends rfl
    have shaped₁ : fs₁.Shaped := hostMoves_shaped ensured.moves shaped
    simp only [Fs.putAt, parts, made]
    split
    · exact fit₁
    · obtain ⟨isDir', _⟩ := removePathIn_parent name shaped₁ isDir below
      have shaped₂ : (fs₁.removePathIn p name).Shaped := by
        rcases removePathIn_moves (fun _ _ => True) p name (fun _ _ => trivial) with ⟨_, same⟩ | ⟨_, _, _, move⟩
        · exact same ▸ shaped₁
        · exact move.shaped shaped₁
      have entered := (fit₁.removePathIn p name).enter (inside name (List.mem_cons_self ..)) shaped₂ leaf isDir'
      cases readonly with
      | false => exact entered
      | true =>
        simp only [if_true]
        rw [addChild_readonly]
        exact entered

theorem NamesFit.removePath (fit : fs.NamesFit P) (path : String) : (fs.removePath path).NamesFit P := by
  unfold Fs.removePath
  split
  · exact fit
  · split
    · exact fit.removePathIn _ _
    · exact fit

theorem NamesFit.clearDirAt (fit : fs.NamesFit P) (path : String) : (fs.clearDirAt path).NamesFit P := by
  rcases @clearDirAt_cases fs path with ⟨id, children, _, _, drop⟩ | ⟨_, same⟩
  · exact (fit.fewer fun entry => (child_clearDir entry).2).dropped drop
  · rw [same]
    exact fit

theorem NamesFit.ensureDevices {dev : Nat} : ∀ {devices : List (String × FsNode)} {fs : Fs}, fs.NamesFit P → fs.Shaped →
    fs.isDir dev = true → (∀ device ∈ devices, Childless device.2 ∧ P device.1) →
    (devices.foldl (ensureDevice dev) fs).NamesFit P
  | [], _, fit, _, _, _ => fit
  | device :: rest, fs, fit, shaped, isDir, good => by
    obtain ⟨leaf, named⟩ := good device (List.mem_cons_self ..)
    have one : (ensureDevice dev fs device).NamesFit P := by
      unfold ensureDevice
      split
      · split
        · exact fit
        · exact fit.enter named shaped leaf isDir
      · next other =>
          obtain ⟨children, found⟩ := isDir_iff.1 isDir
          exact absurd found (other children)
    have moved : ReflTransGen (HostMove fun _ _ => True) fs (ensureDevice dev fs device) := ensureDevice_moves isDir leaf
    rw [List.foldl_cons]
    exact NamesFit.ensureDevices one (hostMoves_shaped moved shaped) (isDir_ensureDevice shaped isDir)
      fun d member => good d (List.mem_cons_of_mem _ member)

theorem NamesFit.ensureStandardDevices (fit : fs.NamesFit P) (shaped : fs.Shaped)
    (good : ∀ name ∈ ["dev", "null", "zero", "urandom", "random"], P name) :
    fs.ensureStandardDevices.NamesFit P := by
  have dev : ∀ comp ∈ ["dev"], P comp := fun comp member => good comp (by simp_all)
  have named : ∀ name ∈ ["null", "zero", "urandom", "random"], P name := fun name member =>
    good name (List.mem_cons_of_mem _ member)
  have ensured : Ensured (fun _ _ => True) fs root (fs.ensureDirs root ["dev"]) :=
    ensureDirs_ensured ["dev"] fs root shaped shaped.rootDir
  have fit₁ : (fs.ensureDirs root ["dev"]).1.NamesFit P := fit.ensureDirs shaped shaped.rootDir dev
  unfold Fs.ensureStandardDevices
  split
  · next fs₁ made =>
      rw [made] at fit₁
      exact fit₁
  · next fs₁ id made =>
      rw [made] at fit₁ ensured
      refine NamesFit.ensureDevices fit₁ (hostMoves_shaped ensured.moves shaped) (ensured.ends rfl).1 ?_
      intro device member
      exact ⟨by revert member; revert device; simp [Childless], named _ (List.mem_map_of_mem (f := Prod.fst) member)⟩

end NamesFit

end Fs

/-! ## The turns -/

/-- The paths at which a host operation makes entries. -/
def HostOp.placed : HostOp → Option String
  | .ensureDirPath path | .putFileAt path _ | .putSymlinkAt path _ | .putRoFileAt path _ | .mount path _ _ => some path
  | .removePath _ | .clearDirAt _ | .unmount _ | .ensureStandardDevices => none

namespace Fs

variable {fs : Fs} {P : String → Prop}

theorem NamesFit.host (fit : fs.NamesFit P) (shaped : fs.Shaped) {op : HostOp}
    (good : ∀ name ∈ ["dev", "null", "zero", "urandom", "random"], P name)
    (named : ∀ path, op.placed = some path → ∀ comp ∈ components path, P comp) : (fs.host op).NamesFit P := by
  cases op with
  | ensureDirPath path => exact fit.ensureDirs shaped shaped.rootDir (named path rfl)
  | putFileAt path bytes => exact fit.putAt shaped (childless_of_ne (by simp)) false (named path rfl)
  | putSymlinkAt path target => exact fit.putAt shaped (childless_of_ne (by simp)) false (named path rfl)
  | putRoFileAt path layer => exact fit.putAt shaped (childless_of_ne (by simp)) false (named path rfl)
  | removePath path => exact fit.removePath path
  | clearDirAt path => exact fit.clearDirAt path
  | mount path source writable => exact fit.putAt shaped (childless_mount source) _ (named path rfl)
  | unmount path => exact fit.removePath path
  | ensureStandardDevices => exact fit.ensureStandardDevices shaped good

theorem resolveParent_mem {start p : Nat} {path name : String} (landing : fs.resolveParent start path = some (p, name)) :
    name ∈ components path := by
  unfold resolveParent at landing
  split at landing
  · cases landing
  · next last dirs parts =>
      split at landing
      · cases landing
      · split at landing
        · cases landing
          exact List.mem_reverse.1 (parts ▸ List.mem_cons_self)
        · cases landing

theorem NamesFit.setBytes {id : Nat} {bytes : Bytes} (fit : fs.NamesFit P) (holds : fs.HoldsBytes id) :
    (fs.setBytes id bytes).NamesFit P :=
  fit.fewer fun entry => (child_setBytes holds.notDir _ _).symm.trans entry

theorem NamesFit.openRef (fit : fs.NamesFit P) (id : Nat) : (fs.openRef id).NamesFit P := fit

theorem NamesFit.closeRef (fit : fs.NamesFit P) (id : Nat) : (fs.closeRef id).NamesFit P := by
  rcases closeRef_cases fs id with ⟨nodes, _, _, _⟩ | ⟨_, _, _, drop⟩
  · exact fit.fewer fun entry => (child_congr (by rw [nodes])).symm.trans entry
  · have closed : ({ fs with openFds := fs.openFds.erase id } : Fs).NamesFit P := fit
    exact closed.dropped drop

theorem NamesFit.unlink {p id : Nat} {name : String} (fit : fs.NamesFit P) (leaf : ∀ k, fs.child id k = none) :
    (fs.unlink p name id).NamesFit P := by
  rcases unlink_cases p name leaf with ⟨same, _⟩ | ⟨_, _, drop⟩
  · rw [same]
    exact fit.removeChild p name
  · exact (fit.removeChild p name).dropped drop

end Fs

namespace Machine

variable {m : Machine}

/-- From the descriptor, `resolve_parent` takes a final `..` of the path for a name. -/
def LandsUp (m : Machine) (fd : Nat) (path : String) : Prop :=
  ∃ start p, m.fds.lookup fd = some (.node start) ∧ m.fs.resolveParent start path = some (p, "..")

/-- The turn adds an entry for a final `..`, or for any `..` in a path of the host. -/
def AddsUp (m : Machine) : Turn → Prop
  | .guest (.openAt fd follow path flags) _ =>
    m.LandsUp fd path ∧ flags.create = true ∧ m.fs.atCapacity = false ∧
      ∃ start, m.fds.lookup fd = some (.node start) ∧ m.fs.resolveAt start path follow = none
  | .guest (.createDirectoryAt fd path) _ =>
    m.LandsUp fd path ∧ m.fs.atCapacity = false ∧
      ∃ start, m.fds.lookup fd = some (.node start) ∧ m.fs.resolvePlace start path true = .missing
  | .guest (.symlinkAt fd _ destPath) _ => m.LandsUp fd destPath ∧ m.fs.atCapacity = false
  | .guest (.linkAt fd follow oldPath newFd newPath) _ =>
    m.LandsUp newFd newPath ∧ ∃ start id, m.fds.lookup fd = some (.node start) ∧
      m.fs.resolveAt start oldPath follow = some id ∧ m.fs.isDir id = false ∧ id ∉ m.fs.readonly
  | .guest (.renameAt fd oldPath newFd newPath) _ =>
    m.LandsUp newFd newPath ∧ ∃ start p name id, m.fds.lookup fd = some (.node start) ∧
      m.fs.resolveParent start oldPath = some (p, name) ∧ m.fs.child p name = some id ∧ id ∉ m.fs.readonly
  | .guest .. => False
  | .host op => ∃ path, op.placed = some path ∧ ".." ∈ components path

/-- A directory is made only where the path was missing. -/
theorem createDirectoryAt_missing (env : Env) {fd : Nat} {path : String}
    (made : (m.createDirectoryAt env fd path).1.fs ≠ m.fs) :
    ∃ start, m.fds.lookup fd = some (.node start) ∧ m.fs.resolvePlace start path true = .missing := by
  have forwarded : ∀ conn op, (m.forward env conn op).1.fs = m.fs := by
    intro conn op
    unfold forward
    split <;> rfl
  cases held : m.fds.lookup fd with
  | none =>
    rw [createDirectoryAt, held] at made
    exact absurd rfl made
  | some place =>
    rw [createDirectoryAt, held] at made
    dsimp only at made
    cases place with
    | remote r =>
      exfalso
      dsimp only [target] at made
      split at made
      · exact made rfl
      · exact made (forwarded ..)
    | node start =>
      refine ⟨start, rfl, ?_⟩
      dsimp only [target] at made
      cases landed : m.fs.resolvePlace start path true with
      | missing => rfl
      | node id =>
        rw [landed] at made
        exact absurd rfl made
      | remote conn rest readonly =>
        rw [landed] at made
        dsimp only at made
        split at made
        · exact absurd rfl made
        · exact absurd (forwarded ..) made

/-- An operation adds entries of the names at which its paths end, and one for `..` only as
`AddsUp` says. -/
theorem guest_names {P : String → Prop} {op : Op} {env : Env}
    (fits : ∀ {start p path name}, m.fs.resolveParent start path = some (p, name) →
      (name = ".." → m.AddsUp (.guest op env)) → P name)
    (shaped : m.fs.Shaped) (fit : m.fs.NamesFit P) : (m.step env op).1.fs.NamesFit P := by
  have effect := (m.step_effect env op).effect
  generalize left : (m.step env op).1.fs = fs at effect ⊢
  generalize (m.step env op).1.fds = fds at effect
  cases effect with
  | keeps => exact fit
  | wrote _ bytes data holds => exact fit.setBytes holds
  | openedRemote => exact fit
  | openedRoot => exact fit.openRef _
  | opened place found => exact fit.openRef _
  | truncated place found holds => exact (fit.setBytes holds).openRef _
  | created place asked absent landing room =>
    refine (fit.enter (fits landing ?_) shaped (Fs.childless_of_ne (by simp)) (Fs.resolveParent_isDir landing)).openRef _
    rintro rfl
    exact ⟨⟨_, _, place, landing⟩, asked, room, _, place, absent⟩
  | madeDirectory place landing free room =>
    refine fit.enter (fits landing ?_) shaped Fs.childless_dir (Fs.resolveParent_isDir landing)
    rintro rfl
    refine ⟨⟨_, _, place, landing⟩, room, createDirectoryAt_missing env fun same => ?_⟩
    have next := congrArg Fs.next (left.symm.trans same)
    simp at next
  | symlinked place landing free room =>
    refine fit.enter (fits landing ?_) shaped (Fs.childless_of_ne (by simp)) (Fs.resolveParent_isDir landing)
    rintro rfl
    exact ⟨⟨_, _, place, landing⟩, room⟩
  | linked oldPlace newPlace found present notDir writable landing free =>
    refine fit.addChild (fits landing ?_) (Fs.resolveParent_isDir landing)
    rintro rfl
    exact ⟨⟨_, _, newPlace, landing⟩, _, _, oldPlace, found, notDir, writable⟩
  | renamed oldPlace newPlace leaving entry writable landing =>
    have isDir := Fs.resolveParent_isDir landing
    refine (fit.removeChild _ _).addChild (fits landing ?_) (by simpa [Fs.removeChild_eq] using isDir)
    rintro rfl
    exact ⟨⟨_, _, newPlace, landing⟩, _, _, _, _, oldPlace, leaving, entry, writable⟩
  | unlinked place leaving entry writable allowed => exact fit.unlink (Fs.removable_leaf allowed)
  | closed place => exact fit.closeRef _
  | closedRemote => exact fit

/-- The names of the devices are plain. -/
theorem device_plain : ∀ name ∈ ["dev", "null", "zero", "urandom", "random"], PlainName name := by decide +kernel

/-- Every name is that of a component, whatever is done. -/
theorem turn_named {turn : Turn} (shaped : m.fs.Shaped) (named : m.fs.NamesFit IsName) :
    (m.turn turn).fs.NamesFit IsName := by
  cases turn with
  | guest op env => exact guest_names (fun landing _ => isName_of_mem (Fs.resolveParent_mem landing)) shaped named
  | host op => exact named.host shaped (fun name member => (device_plain name member).1) fun _ _ _ => isName_of_mem

/-- What holds along a run in which nothing adds an entry named `..`. -/
theorem turn_plain {turn : Turn} (level : ¬ m.AddsUp turn) (shaped : m.fs.Shaped) (plain : m.fs.PlainNames) :
    (m.turn turn).fs.PlainNames := by
  cases turn with
  | guest op env =>
    exact guest_names (fun landing up => ⟨isName_of_mem (Fs.resolveParent_mem landing), fun climbs => level (up climbs)⟩)
      shaped plain
  | host op =>
    exact Fs.NamesFit.host plain shaped device_plain fun path placed comp member =>
      ⟨isName_of_mem member, fun climbs => level ⟨path, placed, climbs ▸ member⟩⟩

/-- **Everything listed can be looked up.** In every session of guest and host from an empty
filesystem in which no turn adds an entry named `..` and each dropped subtree is sealed,
every entry of every directory below the root is found under its name. -/
theorem run_listed {backing : Backing} {turns : List Turn}
    (met : Along turn (fun m t => ¬ m.AddsUp t ∧ m.DropsSealed t) (boot Fs.new backing) turns) :
    ((boot Fs.new backing).run turns).fs.Listed := by
  have none_yet : ∀ d k c, Fs.new.child d k ≠ some c := fun d k c entry => by
    rw [Fs.new_child] at entry
    cases entry
  have start : Fs.new.Shaped ∧ Fs.new.PlainNames ∧ Fs.new.Sound :=
    ⟨.new, fun d k c entry => absurd entry (none_yet d k c), Fs.sound_iff.2 fun d k c entry => absurd entry (none_yet d k c)⟩
  have kept := Along.keeps (Q := fun m : Machine => m.fs.Shaped ∧ m.fs.PlainNames ∧ m.fs.Sound)
    (fun m t met good => ⟨turn_shaped t good.1, turn_plain met.1 good.1 good.2.1, turn_sound met.2 good.1 good.2.2⟩) met start
  exact Fs.listed_of_plain kept.2.1 kept.2.2

section Poles

/-- A file placed in a directory that the guest made. -/
def placedInside : List Turn := [
  .guest .getDirectories .quiet,
  .guest (.createDirectoryAt 0 "d") .quiet,
  .host (.putFileAt "d/f" [1])]

theorem run_listed_placedInside : ((boot Fs.new .empty).run placedInside).fs.Listed := by
  have first : ".." ∉ components "d" := by decide +kernel
  have second : ".." ∉ components "d/f" := by decide +kernel
  refine run_listed ⟨⟨fun up => up, dropsOneFile_sealed _ _ (by decide +kernel)⟩,
    ⟨fun up => ?_, dropsOneFile_sealed _ _ (by decide +kernel)⟩, ⟨fun up => ?_, dropsOneFile_sealed _ _ (by decide +kernel)⟩,
    trivial⟩
  · obtain ⟨⟨_, _, _, landing⟩, _⟩ := up
    exact first (Fs.resolveParent_mem landing)
  · obtain ⟨path, placed, climbs⟩ := up
    cases placed
    exact second climbs

/-- A symbolic link made at `..` is listed under that name, which leads to the root. -/
theorem up_is_listed : ¬ ∀ (backing : Backing) (turns : List Turn), ((boot Fs.new backing).run turns).fs.Listed := by
  intro every
  have listed := every .empty [.guest .getDirectories .quiet, .guest (.symlinkAt 0 "t" "..") .quiet] root ".." 1 .refl
    (by decide +kernel)
  exact listed.1.2 rfl

end Poles

end Machine

end Wk.Vfs
