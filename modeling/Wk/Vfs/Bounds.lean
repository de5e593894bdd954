/-
# Wk.Vfs.Bounds -- what a guest can make the host hold

Every place that adds a node looks at the cap first, and every write checks its end
against the size cap before it grows a file.  `Later` is what any turn, of the guest or of
the host, does to the nodes and the ids; `Referred` says that the ids a guest or its
filesystem still refer to were all handed out.

* `resource_bounds`: in every run there are at most `maxFsNodes` nodes, an id once gone
  never comes back, and no operation of the guest leaves a file longer than the cap, or
  than it was.
-/
import Wk.Vfs.ReadOnly
import Wk.Vfs.Addresses

namespace Wk.Vfs

open Wk.Library Wk.Provider Relation

set_option autoImplicit false

namespace Fs

variable {fs fs' fs'' : Fs}

/-- Nodes within the cap, ids handed out once, marks only on ids handed out. -/
structure Later (fs fs' : Fs) : Prop where
  few : fs.nodes.entries.length ≤ maxFsNodes → fs'.nodes.entries.length ≤ maxFsNodes
  next : fs.next ≤ fs'.next
  old : ∀ {x}, x ∈ fs'.nodes → x < fs.next → x ∈ fs.nodes
  marks : ∀ {x}, x ∈ fs'.readonly → x ∈ fs.readonly ∨ x < fs'.next

namespace Later

protected theorem refl (fs : Fs) : Later fs fs := ⟨id, le_rfl, fun there _ => there, .inl⟩

theorem trans (first : Later fs fs') (second : Later fs' fs'') : Later fs fs'' where
  few := second.few ∘ first.few
  next := first.next.trans second.next
  old there before := first.old (second.old there (before.trans_le first.next)) before
  marks {x} marked := by
    rcases second.marks marked with earlier | small
    · exact (first.marks earlier).imp_right fun small => small.trans_le second.next
    · exact .inr small

theorem fewer (mem : ∀ x, x ∈ fs'.nodes → x ∈ fs.nodes) (next : fs'.next = fs.next)
    (readonly : fs'.readonly = fs.readonly) : Later fs fs' where
  few := (Table.length_le_of_mem mem).trans
  next := next.ge
  old there _ := mem _ there
  marks marked := .inl (readonly ▸ marked)

theorem alloc (room : fs.atCapacity = false) (node : FsNode) : Later fs (fs.alloc node).2 where
  few _ := by
    have space : fs.nodes.entries.length < maxFsNodes := by simpa [atCapacity] using room
    exact (Table.length_insert_le _ _ _).trans space
  next := Nat.le_succ _
  old there before := by
    rcases (AList.mem_insert _).1 there with rfl | earlier
    · exact absurd before (lt_irrefl _)
    · exact earlier
  marks := .inl

theorem alter (p : Nat) (f : Table String Nat → Table String Nat) : Later fs (fs.alter p f) :=
  .fewer (fun _ => mem_alter.1) alter_next alter_readonly

theorem enter (room : fs.atCapacity = false) (p : Nat) (name : String) (node : FsNode) :
    Later fs (fs.enter p name node) := (alloc room node).trans (alter p _)

theorem removeChild (p : Nat) (name : String) : Later fs (fs.removeChild p name) := by
  rw [removeChild_eq]
  exact alter p _

theorem dropped {roots : List Nat} (drop : Dropped fs fs' roots) : Later fs fs' :=
  .fewer (fun _ => drop.mem_of_mem) drop.next drop.readonly

theorem setBytes {id : Nat} (holds : fs.HoldsBytes id) (bytes : Bytes) : Later fs (fs.setBytes id bytes) := by
  refine .fewer (fun x there => ?_) rfl rfl
  rcases (AList.mem_insert _).1 there with rfl | earlier
  · exact holds.mem
  · exact earlier

theorem openRef (id : Nat) : Later fs (fs.openRef id) := .fewer (fun _ there => there) rfl rfl

theorem guard {id : Nat} (used : id < fs.next) : Later fs { fs with readonly := id :: fs.readonly } where
  few few := few
  next := le_rfl
  old there _ := there
  marks marked := by
    rcases List.mem_cons.1 marked with rfl | earlier
    · exact .inr used
    · exact .inl earlier

end Later

/-! ## The host -/

theorem ensureDirs_later : ∀ (comps : List String) (fs : Fs) (cur : Nat), Later fs (fs.ensureDirs cur comps).1
  | [], fs, _ => .refl fs
  | comp :: rest, fs, cur => by
    unfold ensureDirs
    split
    · split
      · split
        · exact ensureDirs_later rest fs _
        · exact .refl fs
      · split
        · exact .refl fs
        · next room =>
            have made : Later fs (fs.enter cur comp (.dir ∅)) := .enter (by simpa using room) _ _ _
            exact made.trans (ensureDirs_later rest _ _)
    · exact .refl fs

theorem removePathIn_later (p : Nat) (name : String) : Later fs (fs.removePathIn p name) := by
  rcases removePathIn_moves (fun _ _ => True) p name (fun _ _ => trivial) with ⟨-, same⟩ | ⟨id, -, drop, -⟩
  · rw [same]
    exact .refl fs
  · exact (Later.removeChild p name).trans (.dropped drop)

theorem putAt_later (path : String) (node : FsNode) (readonly : Bool) : Later fs (fs.putAt path node readonly) := by
  rcases parts : (components path).reverse with _ | ⟨name, dirs⟩
  · simp only [putAt, parts]
    exact .refl fs
  · have made := ensureDirs_later dirs.reverse fs root
    rcases ensured : fs.ensureDirs root dirs.reverse with ⟨fs₁, _ | p⟩
    · rw [ensured] at made
      simp only [putAt, parts, ensured]
      exact made
    · rw [ensured] at made
      simp only [putAt, parts, ensured]
      split
      · exact made
      · next room =>
          have removed : Later fs₁ (fs₁.removePathIn p name) := removePathIn_later p name
          have room' : (fs₁.removePathIn p name).atCapacity = false := by
            have fewer : (fs₁.removePathIn p name).nodes.entries.length ≤ fs₁.nodes.entries.length := by
              rcases removePathIn_moves (fun _ _ => True) p name (fun _ _ => trivial) with
                ⟨-, same⟩ | ⟨id, -, drop, -⟩
              · rw [same]
              · refine Table.length_le_of_mem fun x there => ?_
                simpa [removeChild_eq] using drop.mem_of_mem there
            have space : fs₁.nodes.entries.length < maxFsNodes := by simpa [atCapacity] using room
            simpa [atCapacity] using fewer.trans_lt space
          have entered := (made.trans removed).trans (.enter room' p name node)
          cases readonly with
          | false => exact entered
          | true =>
            have used : (fs₁.removePathIn p name).next < ((fs₁.removePathIn p name).enter p name node).next := by
              rw [enter_next]
              exact Nat.lt_succ_self _
            have marked := entered.trans (.guard used)
            rw [enter_readonly] at marked
            simp only [if_true]
            rw [addChild_readonly]
            exact marked

theorem removePath_later (path : String) : Later fs (fs.removePath path) := by
  unfold removePath
  split
  · exact .refl fs
  · split
    · exact removePathIn_later _ _
    · exact .refl fs

theorem clearDirAt_later (path : String) : Later fs (fs.clearDirAt path) := by
  rcases @clearDirAt_cases fs path with ⟨id, children, -, -, drop⟩ | ⟨-, same⟩
  · exact (Later.alter id _).trans (.dropped drop)
  · rw [same]
    exact .refl fs

theorem ensureDevice_later (dev : Nat) (fs : Fs) (device : String × FsNode) :
    Later fs (ensureDevice dev fs device) := by
  unfold ensureDevice
  split
  · split
    · exact .refl fs
    · next free =>
        simp only [Bool.or_eq_true, not_or, Bool.not_eq_true] at free
        exact .enter free.2 dev device.1 device.2
  · split
    · exact .refl fs
    · next room => exact .alloc (by simpa using room) _

theorem ensureStandardDevices_later : Later fs fs.ensureStandardDevices := by
  have devices : ∀ (dev : Nat) (list : List (String × FsNode)) (fs : Fs),
      Later fs (list.foldl (ensureDevice dev) fs) := by
    intro dev list
    induction list with
    | nil => exact fun fs => .refl fs
    | cons device rest ih => exact fun fs => (ensureDevice_later dev fs device).trans (ih _)
  have made := ensureDirs_later ["dev"] fs root
  unfold ensureStandardDevices
  split
  · next fs₁ ensured =>
      rw [ensured] at made
      exact made
  · next fs₁ dev ensured =>
      rw [ensured] at made
      exact made.trans (devices dev _ fs₁)

theorem host_later (op : HostOp) : Later fs (fs.host op) := by
  cases op with
  | ensureDirPath path => exact ensureDirs_later _ fs root
  | putFileAt path bytes => exact putAt_later path _ false
  | putSymlinkAt path target => exact putAt_later path _ false
  | putRoFileAt path layer => exact putAt_later path _ false
  | removePath path => exact removePath_later path
  | clearDirAt path => exact clearDirAt_later path
  | mount path source writable => exact putAt_later path _ _
  | unmount path => exact removePath_later path
  | ensureStandardDevices => exact ensureStandardDevices_later

end Fs

/-! ## Where a walk can end -/

namespace Fs

variable {fs : Fs}

/-- The walk ended at an id handed out. -/
def WalkEnd.Below (bound : Nat) : WalkEnd → Prop
  | .done id => id < bound
  | .link _ _ cur ancestors => cur < bound ∧ ∀ a ∈ ancestors, a < bound
  | _ => True

theorem walk_below (shaped : fs.Shaped) (crossing followFinal : Bool) :
    ∀ (comps : List String) {cur : Nat} {ancestors : List Nat}, cur < fs.next →
      (∀ a ∈ ancestors, a < fs.next) → (fs.walk crossing followFinal comps cur ancestors).Below fs.next
  | [], cur, _, here, _ => by
    rw [walk]
    exact here
  | comp :: rest, cur, ancestors, here, above => by
    have deeper : ∀ {next}, next < fs.next →
        (fs.walk crossing followFinal rest next (cur :: ancestors)).Below fs.next := fun small =>
      walk_below shaped crossing followFinal rest small fun a member =>
        (List.mem_cons.1 member).elim (fun same => same ▸ here) (above a)
    rw [walk]
    split
    · refine walk_below shaped crossing followFinal rest ?_ fun a member => above a (List.mem_of_mem_tail member)
      cases ancestors with
      | nil => exact shaped.root_lt
      | cons a _ => exact above a List.mem_cons_self
    · split
      · next children found =>
          split
          · trivial
          · next next entry =>
              have small : next < fs.next := shaped.targets ((child_eq found).trans entry)
              split
              · trivial
              · split
                · exact deeper small
                · exact ⟨here, above⟩
              · split
                · trivial
                · exact deeper small
              · exact deeper small
      · trivial

theorem follow_below (shaped : fs.Shaped) (crossing followFinal : Bool) :
    ∀ (hops : Nat) {stop : WalkEnd}, stop.Below fs.next → (fs.follow crossing followFinal hops stop).Below fs.next
  | hops, .done id, below => by
    cases hops <;> exact below
  | hops, .missing, _ => by
    cases hops <;> trivial
  | hops, .remote .., _ => by
    cases hops <;> trivial
  | 0, .link .., _ => trivial
  | hops + 1, .link target rest cur ancestors, ⟨here, above⟩ => by
    rw [follow]
    split
    · exact follow_below shaped crossing followFinal hops
        (walk_below shaped crossing followFinal _ shaped.root_lt fun _ member => absurd member List.not_mem_nil)
    · exact follow_below shaped crossing followFinal hops
        (walk_below shaped crossing followFinal _ here above)

/-- A path leads to an id handed out. -/
theorem resolveAt_below (shaped : fs.Shaped) {start id : Nat} {path : String} {followFinal : Bool}
    (from_ : start < fs.next) (found : fs.resolveAt start path followFinal = some id) : id < fs.next := by
  have set : origin start path < fs.next := by
    unfold origin
    split
    · exact shaped.root_lt
    · exact from_
  have below := follow_below shaped false followFinal maxSymlinkHops
    (walk_below shaped false followFinal (components path) set fun _ member => absurd member List.not_mem_nil)
  unfold resolveAt ending at found
  split at found
  · next id' done =>
      cases found
      rw [done] at below
      exact below
  · cases found

theorem mem_openRef {id x : Nat} (there : x ∈ (fs.openRef id).openFds) : x = id ∨ x ∈ fs.openFds :=
  (AList.mem_insert _).1 there

theorem mem_closeRef {id x : Nat} (there : x ∈ (fs.closeRef id).openFds) : x ∈ fs.openFds := by
  cases held : fs.openFds.lookup id with
  | none =>
    unfold closeRef at there
    rw [held] at there
    exact there
  | some count =>
    rw [closeRef_openFds held] at there
    split at there
    · exact (AList.mem_erase.1 there).2
    · rcases (AList.mem_insert _).1 there with rfl | earlier
      · exact Table.mem_of_lookup held
      · exact earlier

end Fs

/-! ## Sizes -/

theorem length_resize (data : Bytes) (size : Nat) : (resize data size).length = size := by
  simp only [resize, List.length_append, List.length_take, List.length_replicate]
  omega

theorem length_overwrite (data : Bytes) (offset : Nat) (bytes : Bytes) :
    (overwrite data offset bytes).length = max data.length (offset + bytes.length) := by
  unfold overwrite
  dsimp only
  rw [List.length_append, List.length_append, List.length_take, List.length_drop, length_resize]
  omega

/-- The change asked for, if it grows the bytes, grows them to the cap at most. -/
def Deed.Modest (d : Deed) : Prop := ∀ data, (∀ path, d.store ≠ .file path) →
  (d.change data).length ≤ max maxFileSize data.length

/-! ## The guest -/

theorem Effect.later {m : Machine} {op : Op} {fs : Fs} {fds : Table Nat DescPlace}
    (effect : Effect m op fs fds) : m.fs.Later fs := by
  cases effect with
  | keeps => exact .refl _
  | wrote _ bytes data holds => exact .setBytes holds bytes
  | openedRemote => exact .refl _
  | openedRoot => exact .openRef _
  | opened place found => exact .openRef _
  | truncated place found holds => exact (Fs.Later.setBytes holds []).trans (.openRef _)
  | created place asked absent landing room => exact (Fs.Later.enter room _ _ _).trans (.openRef _)
  | madeDirectory place landing free room => exact .enter room _ _ _
  | symlinked place landing free room => exact .enter room _ _ _
  | linked oldPlace newPlace found present notDir writable landing free => exact .alter _ _
  | renamed oldPlace newPlace leaving entry writable landing => exact (Fs.Later.removeChild _ _).trans (.alter _ _)
  | @unlinked fd start p id dir path name place leaving entry writable allowed =>
    rcases Fs.unlink_cases p name (Fs.removable_leaf allowed) with ⟨same, _⟩ | ⟨_, _, drop⟩
    · rw [same]
      exact .removeChild p name
    · exact (Fs.Later.removeChild p name).trans (.dropped drop)
  | @closed fd id place =>
    rcases Fs.closeRef_cases m.fs id with ⟨nodes, next, readonly, _⟩ | ⟨_, _, _, drop⟩
    · exact .fewer (fun x there => nodes ▸ there) next readonly
    · exact .fewer (fun x there => drop.mem_of_mem there) drop.next drop.readonly
  | closedRemote => exact .refl _

namespace Machine

variable {m : Machine}

theorem turn_later (turn : Turn) : m.fs.Later (m.turn turn).fs := by
  cases turn with
  | guest op env => exact (m.step_effect env op).effect.later
  | host op => exact Fs.host_later op

/-- The ids the guest holds or its filesystem counts were all handed out. -/
structure Referred (m : Machine) : Prop where
  held : ∀ {fd id}, m.fds.lookup fd = some (.node id) → id < m.fs.next
  counted : ∀ {x}, x ∈ m.fs.openFds → x < m.fs.next

theorem effect_referred {op : Op} {m' : Machine} (effect : Effect m op m'.fs m'.fds) (shaped : m.fs.Shaped)
    (referred : m.Referred) : m'.Referred := by
  have later := effect.later.next
  have naming : m'.fds = m.fds → m'.fs.openFds = m.fs.openFds → m'.Referred := by
    intro fds openFds
    refine ⟨fun held => ?_, fun counted => ?_⟩
    · rw [fds] at held
      exact (referred.held held).trans_le later
    · rw [openFds] at counted
      exact (referred.counted counted).trans_le later
  have pushed : ∀ {id}, id < m'.fs.next → m'.fds = m.fds.insert m.next (.node id) →
      (∀ {x}, x ∈ m'.fs.openFds → x = id ∨ x ∈ m.fs.openFds) → m'.Referred := by
    intro id small fds openFds
    refine ⟨fun held => ?_, fun counted => ?_⟩
    · rw [fds, Table.lookup_insert_eq] at held
      split at held
      · cases held
        exact small
      · exact (referred.held held).trans_le later
    · rcases openFds counted with rfl | earlier
      · exact small
      · exact (referred.counted earlier).trans_le later
  generalize fs' : m'.fs = fs at effect later naming pushed
  generalize fds' : m'.fds = fds at effect naming pushed
  cases effect with
  | keeps => exact naming rfl rfl
  | wrote _ bytes data holds => exact naming rfl rfl
  | openedRemote _ r =>
    refine ⟨fun held => ?_, fun counted => ?_⟩
    · rw [fds', Table.lookup_insert_eq] at held
      split at held
      · cases held
      · rw [fs']
        exact referred.held held
    · rw [fs'] at counted ⊢
      exact referred.counted counted
  | openedRoot => exact pushed shaped.root_lt rfl Fs.mem_openRef
  | opened place found =>
    exact pushed (Fs.resolveAt_below shaped (referred.held place) found) rfl Fs.mem_openRef
  | truncated place found holds =>
    exact pushed (Fs.resolveAt_below shaped (referred.held place) found) rfl Fs.mem_openRef
  | created place asked absent landing room =>
    refine pushed ?_ rfl fun counted => ?_
    · show m.fs.next < (m.fs.enter _ _ (.file [])).next
      rw [Fs.enter_next]
      exact Nat.lt_succ_self _
    · rcases Fs.mem_openRef counted with same | earlier
      · exact .inl same
      · rw [Fs.enter_openFds] at earlier
        exact .inr earlier
  | madeDirectory place landing free room => exact naming rfl Fs.enter_openFds
  | symlinked place landing free room => exact naming rfl Fs.enter_openFds
  | linked oldPlace newPlace found present notDir writable landing free => exact naming rfl Fs.alter_openFds
  | renamed oldPlace newPlace leaving entry writable landing =>
    exact naming rfl (by simp [Fs.move, Fs.addChild_eq, Fs.removeChild_eq])
  | unlinked place leaving entry writable allowed => exact naming rfl (Fs.unlink_openFds _ _ _)
  | closed place =>
    refine ⟨fun held => ?_, fun counted => ?_⟩
    · rw [fds', Table.lookup_erase_eq] at held
      split at held
      · cases held
      · rw [fs']
        exact (referred.held held).trans_le later
    · rw [fs'] at counted ⊢
      exact (referred.counted (Fs.mem_closeRef counted)).trans_le later
  | closedRemote place =>
    refine ⟨fun held => ?_, fun counted => ?_⟩
    · rw [fds', Table.lookup_erase_eq] at held
      split at held
      · cases held
      · rw [fs']
        exact referred.held held
    · rw [fs'] at counted ⊢
      exact referred.counted counted

theorem turn_referred (turn : Turn) (shaped : m.fs.Shaped) (referred : m.Referred) : (m.turn turn).Referred := by
  cases turn with
  | guest op env => exact effect_referred (m.step_effect env op).effect shaped referred
  | host op =>
    have openFds : (m.fs.host op).openFds = m.fs.openFds :=
      reaches_within (P := fun fs => fs.openFds = m.fs.openFds) (Fs.host_moves shaped op) rfl
        fun _ _ same move => move.openFds.trans same
    have later : m.fs.next ≤ (m.fs.host op).next := (Fs.host_later op).next
    refine ⟨fun held => (referred.held held).trans_le later, fun counted => ?_⟩
    rw [show (m.turn (.host op)).fs.openFds = m.fs.openFds from openFds] at counted
    exact (referred.counted counted).trans_le later

theorem lands_modest {env : Env} {store : Option Store} {size : Nat} {change : Bytes → Bytes} {d : Deed}
    (grows : ∀ data, (change data).length ≤ max size data.length)
    (lands : Machine.lands env store size change = some d) : d.Modest := by
  unfold Machine.lands at lands
  obtain ⟨s, -, given⟩ := Option.bind_eq_some_iff.1 lands
  split at given
  · next takes =>
      cases given
      intro data inside
      have small : size ≤ maxFileSize := by
        cases s with
        | file path => exact absurd rfl (inside path)
        | _ => simpa [Store.takes] using takes
      exact (grows data).trans (max_le_max_right _ small)
  · cases given

/-- Whatever an operation writes stays within the cap. -/
theorem deed_modest {env : Env} {op : Op} {d : Deed} (deed : m.deed env op = some d) : d.Modest := by
  have grows : ∀ offset (bytes : Bytes) data,
      (overwrite data offset bytes).length ≤ max (offset + bytes.length) data.length := by
    intro offset bytes data
    rw [length_overwrite, max_comm]
  have streams : ∀ handle bytes, m.streamed env handle bytes = some d → d.Modest := by
    intro handle bytes given
    obtain ⟨stream, -, lands⟩ := Option.bind_eq_some_iff.1 given
    exact lands_modest (grows stream.offset bytes) lands
  cases op with
  | write fd buf offset => exact lands_modest (grows offset buf) deed
  | setSize fd size =>
    rw [Machine.deed] at deed
    split at deed
    · cases deed
    · refine lands_modest (fun data => ?_) deed
      rw [length_resize]
      exact le_max_left _ _
  | openAt fd follow path flags =>
    rw [Machine.deed] at deed
    split at deed
    · exact lands_modest (fun data => Nat.zero_le _) deed
    · cases deed
  | streamWrite handle bytes => exact streams handle bytes deed
  | consumerWrite handle bytes => exact streams handle bytes deed
  | _ => cases deed

/-- A private file an operation leaves was a file before, or is new and empty. -/
theorem effect_file {op : Op} {fs : Fs} {fds : Table Nat DescPlace} (effect : Effect m op fs fds) {id : Nat}
    {data : Bytes} (found : fs.nodes.lookup id = some (.file data)) :
    m.fs.HoldsBytes id ∨ data = [] := by
  have altered : ∀ {fs : Fs} {p : Nat} {f : Table String Nat → Table String Nat},
      (fs.alter p f).nodes.lookup id = some (.file data) → fs.nodes.lookup id = some (.file data) := by
    intro fs p f found
    by_cases here : id = p
    · subst here
      cases isDir : fs.isDir id with
      | false => rwa [Fs.alter_notDir isDir] at found
      | true =>
        obtain ⟨children, there⟩ := Fs.isDir_iff.1 isDir
        rw [Fs.lookup_alter_self there] at found
        cases found
    · rwa [Fs.lookup_alter here] at found
  have entered : ∀ {p name node}, (∀ bytes, node = .file bytes → bytes = []) →
      (m.fs.enter p name node).nodes.lookup id = some (.file data) → m.fs.HoldsBytes id ∨ data = [] := by
    intro p name node empty found
    rw [Fs.enter_eq] at found
    have before := altered found
    by_cases new : id = m.fs.next
    · subst new
      rw [AList.lookup_insert] at before
      exact .inr (empty data (Option.some.inj before))
    · rw [AList.lookup_insert_ne new] at before
      exact .inl (.inl ⟨data, before⟩)
  have put : ∀ {x : Nat} {bytes : Bytes}, m.fs.HoldsBytes x →
      (m.fs.setBytes x bytes).nodes.lookup id = some (.file data) → m.fs.HoldsBytes id ∨ data = [] := by
    intro x bytes holds found
    by_cases here : id = x
    · exact .inl (here ▸ holds)
    · rw [Fs.setBytes, AList.lookup_insert_ne here] at found
      exact .inl (.inl ⟨data, found⟩)
  cases effect with
  | keeps => exact .inl (.inl ⟨data, found⟩)
  | wrote _ bytes _ holds => exact put holds found
  | openedRemote => exact .inl (.inl ⟨data, found⟩)
  | openedRoot => exact .inl (.inl ⟨data, found⟩)
  | opened => exact .inl (.inl ⟨data, found⟩)
  | truncated place there holds => exact put holds found
  | created => exact entered (fun bytes same => by cases same; rfl) found
  | madeDirectory => exact entered (fun bytes same => by cases same) found
  | symlinked => exact entered (fun bytes same => by cases same) found
  | linked => exact .inl (.inl ⟨data, altered found⟩)
  | renamed =>
    rw [Fs.move, Fs.addChild_eq, Fs.removeChild_eq] at found
    exact .inl (.inl ⟨data, altered (altered found)⟩)
  | @unlinked fd start p x dir path name place leaving entry writable allowed =>
    rcases Fs.unlink_cases p name (Fs.removable_leaf allowed) with ⟨same, _⟩ | ⟨_, _, drop⟩
    · rw [same, Fs.removeChild_eq] at found
      exact .inl (.inl ⟨data, altered found⟩)
    · have before := drop.kept found
      rw [Fs.removeChild_eq] at before
      exact .inl (.inl ⟨data, altered before⟩)
  | @closed fd x place =>
    rcases Fs.closeRef_cases m.fs x with ⟨nodes, _⟩ | ⟨_, _, _, drop⟩
    · rw [nodes] at found
      exact .inl (.inl ⟨data, found⟩)
    · exact .inl (.inl ⟨data, drop.kept found⟩)
  | closedRemote => exact .inl (.inl ⟨data, found⟩)

/-- No file of the filesystem and no volume is longer than the cap, or than it was. -/
structure SizedWithin (m m' : Machine) : Prop where
  files : ∀ {id data}, m'.fs.nodes.lookup id = some (.file data) →
    data.length ≤ max maxFileSize (m.stored (.node id)).length
  cells : ∀ cell, (m'.backing.cell cell).length ≤ max maxFileSize (m.backing.cell cell).length

theorem step_sized (env : Env) (op : Op) (shaped : m.fs.Shaped) : m.SizedWithin (m.step env op).1 := by
  have wrote : m.Wrote _ (m.step env op).1 := step_wrote env op shaped
  have modest : ∀ s data, (∀ path, s ≠ .file path) →
      (amended (m.deed env op) s data).length ≤ max maxFileSize data.length := by
    intro s data inside
    cases deed : m.deed env op with
    | none => exact le_max_right _ _
    | some d =>
      by_cases here : d.store = s
      · rw [amended_self here]
        exact deed_modest deed data (here ▸ inside)
      · rw [amended_other here]
        exact le_max_right _ _
  constructor
  · intro id data found
    rcases effect_file (m.step_effect env op).effect found with holds | rfl
    · have bytes := wrote.bytes (s := .node id) ⟨store_node_iff.2 ⟨rfl, holds⟩, Table.mem_of_lookup found⟩
      rw [stored_file found] at bytes
      rw [bytes]
      exact modest _ _ (by simp)
    · exact Nat.zero_le _
  · intro cell
    have bytes := wrote.bytes (s := .cell cell) trivial
    rw [show (m.step env op).1.stored (.cell cell) = (m.step env op).1.backing.cell cell from rfl] at bytes
    rw [bytes]
    exact modest _ _ (by simp)

/-! ## Runs -/

/-- The filesystem refers to the id: by a node, a name, a mark or a count. -/
def Mentions (m : Machine) (x : Nat) : Prop :=
  x ∈ m.fs.nodes ∨ (∃ d, m.fs.Names d x) ∨ x ∈ m.fs.readonly ∨ x ∈ m.fs.openFds

/-- What every turn keeps. -/
structure Bounded (m : Machine) : Prop where
  shaped : m.fs.Shaped
  referred : m.Referred
  few : m.fs.nodes.entries.length ≤ maxFsNodes
  marks : ∀ {x}, x ∈ m.fs.readonly → x < m.fs.next

theorem Bounded.boot (backing : Backing) : (boot Fs.new backing).Bounded where
  shaped := .new
  referred := ⟨fun held => (by cases held), fun counted => (by cases counted)⟩
  few := show 1 ≤ maxFsNodes by decide
  marks marked := by cases marked

theorem Bounded.turn (bounded : m.Bounded) (turn : Turn) : (m.turn turn).Bounded where
  shaped := turn_shaped turn bounded.shaped
  referred := turn_referred turn bounded.shaped bounded.referred
  few := (turn_later turn).few bounded.few
  marks marked := by
    rcases (turn_later turn).marks marked with earlier | small
    · exact (bounded.marks earlier).trans_le (turn_later turn).next
    · exact small

theorem Bounded.run : ∀ (turns : List Turn) {m : Machine}, m.Bounded → (m.run turns).Bounded
  | [], _, bounded => bounded
  | turn :: turns, _, bounded => (bounded.turn turn).run turns

theorem Bounded.mentions (bounded : m.Bounded) {x : Nat} (mentioned : m.Mentions x) : x < m.fs.next := by
  rcases mentioned with there | ⟨d, name, entry⟩ | marked | counted
  · exact bounded.shaped.bounded there
  · exact bounded.shaped.targets entry
  · exact bounded.marks marked
  · exact bounded.referred.counted counted

theorem run_later : ∀ (turns : List Turn) (m : Machine), m.fs.Later (m.run turns).fs
  | [], m => .refl m.fs
  | turn :: turns, m => (turn_later turn).trans (run_later turns (m.turn turn))

/-- **The resources of a filesystem are bounded.** In every run of guest and host from an
empty filesystem: the nodes are within the cap; the next id is above every id mentioned in
any state of the run, and one that was gone names no newer node; and no operation leaves a
file longer than the size cap, or than it was. -/
theorem resource_bounds (backing : Backing) (turns : List Turn) :
    ((boot Fs.new backing).run turns).fs.nodes.entries.length ≤ maxFsNodes ∧
      (∀ before after, turns = before ++ after →
        ∀ x, (((boot Fs.new backing).run before).Mentions x → x < ((boot Fs.new backing).run turns).fs.next) ∧
          (x < ((boot Fs.new backing).run before).fs.next → x ∉ ((boot Fs.new backing).run before).fs.nodes →
            x ∉ ((boot Fs.new backing).run turns).fs.nodes)) ∧
      ∀ env op, ((boot Fs.new backing).run turns).SizedWithin (((boot Fs.new backing).run turns).step env op).1 := by
  have bounded : ((boot Fs.new backing).run turns).Bounded := (Bounded.boot backing).run turns
  refine ⟨bounded.few, ?_, fun env op => step_sized env op bounded.shaped⟩
  rintro before after rfl x
  have there : ((boot Fs.new backing).run before).Bounded := (Bounded.boot backing).run before
  have later := run_later after ((boot Fs.new backing).run before)
  have whole : (boot Fs.new backing).run (before ++ after) = ((boot Fs.new backing).run before).run after :=
    List.foldl_append
  rw [whole]
  exact ⟨fun mentioned => (there.mentions mentioned).trans_le later.next,
    fun old gone back => gone (later.old back old)⟩

end Machine

end Wk.Vfs
