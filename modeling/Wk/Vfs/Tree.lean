/-
# Wk.Vfs.Tree -- the directories form a tree

Directories are a tree when names go down, no directory has two names, and every
directory that was not removed hangs from the root.  The second holds in every
filesystem (`Shaped.once`).  The others are lost where a rename puts a directory below
itself or over another directory, where creating a file takes a directory's name, and
where a directory is put into one that was removed and is only still open: no
operation looks for any of these.  `KeepsTree` is the condition that none happens.
-/
import Wk.Vfs.Leaks

namespace Wk.Vfs

open Wk.Library Wk.Provider Relation

set_option autoImplicit false

namespace Fs

variable {fs : Fs}

/-- The root, or a node that has a name. -/
def Standing (fs : Fs) (d : Nat) : Prop := d = root ∨ ∃ p, fs.Names p d

/-- A directory that hangs from another, or the root. -/
def Placed (fs : Fs) (d : Nat) : Prop := fs.isDir d = true ∧ fs.Standing d

/-- Names go down, and directories hang from directories that stand themselves. -/
structure Rooted (fs : Fs) : Prop where
  ranked : Ranked fs.Names
  parents : ∀ {p k d}, fs.child p k = some d → fs.isDir d = true → fs.Standing p

/-- A directory that stands is reached from the root. -/
theorem Rooted.reaches (rooted : fs.Rooted) {d : Nat} (placed : fs.Placed d) :
    fs.Reaches root d := by
  have step : ∀ d, fs.Placed d → d = root ∨ ∃ p, fs.Placed p ∧ fs.Names p d := by
    rintro d ⟨isDir, atRoot | ⟨p, k, entry⟩⟩
    · exact .inl atRoot
    · exact .inr ⟨p, ⟨isDir_of_child entry, rooted.parents entry isDir⟩, k, entry⟩
  obtain ⟨_, rfl, path⟩ := rooted.ranked.grounded step placed
  exact path

/-- `fs'` is rooted and keeps every directory of `fs` that stands, all but `gone`. -/
structure Carries (fs fs' : Fs) (gone : Nat → Prop) : Prop where
  rooted : fs'.Rooted
  stays : ∀ d, ¬ gone d → fs.Placed d → fs'.Placed d
  /-- No directory is new but those that stand. -/
  fresh : ∀ d, fs'.isDir d = true → fs.isDir d = true ∨ fs'.Standing d

theorem Rooted.same {fs' : Fs} {gone : Nat → Prop} (rooted : fs.Rooted)
    (dirs : ∀ d, fs'.isDir d = fs.isDir d) (names : ∀ d k, fs'.child d k = fs.child d k) :
    Carries fs fs' gone := by
  have stands : ∀ d, fs.Standing d → fs'.Standing d := by
    rintro d (atRoot | ⟨p, k, entry⟩)
    · exact .inl atRoot
    · exact .inr ⟨p, k, (names p k).trans entry⟩
  refine ⟨⟨ranked_fewer rooted.ranked fun entry => (names _ _).symm.trans entry, ?_⟩, ?_, ?_⟩
  · intro p k d entry isDir
    exact stands p (rooted.parents ((names p k).symm.trans entry) ((dirs d).symm.trans isDir))
  · exact fun d _ placed => ⟨(dirs d).trans placed.1, stands d placed.2⟩
  · exact fun d isDir => .inl ((dirs d).symm.trans isDir)

/-- A name put where no directory had one, for a node whose directories all stay below
a directory that stands. -/
theorem Rooted.replace {fs' : Fs} {p c : Nat} {name : String} {gone : Nat → Prop}
    (rooted : fs.Rooted) (shaped : fs'.Shaped) (ranked : Ranked fs'.Names)
    (dirs : ∀ d, d ≠ c → fs'.isDir d = fs.isDir d) (dirC : fs.isDir c = true → fs'.isDir c = true)
    (names : ∀ d k, (d = p ∧ k = name ∧ fs'.child d k = some c) ∨
      (¬ (d = p ∧ k = name) ∧ (fs'.child d k = fs.child d k ∨
        fs'.child d k = none ∧ fs.child d k = some c)))
    (isDir : fs.isDir p = true)
    (displaced : ∀ old, fs.child p name = some old → old ≠ c → fs.isDir old = false)
    (stands : fs'.isDir c = true → fs.Standing p) : Carries fs fs' gone := by
  have newName : fs'.child p name = some c := by
    rcases names p name with ⟨_, _, entry⟩ | ⟨other, _⟩
    · exact entry
    · exact absurd ⟨rfl, rfl⟩ other
  have stillStands : ∀ d, fs.isDir d = true → fs.Standing d → fs'.Standing d := by
    rintro d wasDir (atRoot | ⟨q, k, entry⟩)
    · exact .inl atRoot
    · by_cases moved : d = c
      · exact .inr ⟨p, name, moved ▸ newName⟩
      · rcases names q k with ⟨rfl, rfl, _⟩ | ⟨_, same | ⟨_, left⟩⟩
        · rw [displaced d entry moved] at wasDir
          cases wasDir
        · exact .inr ⟨q, k, same.trans entry⟩
        · exact absurd (Option.some.inj (entry.symm.trans left)) moved
  have stillDir : ∀ d, fs.isDir d = true → fs'.isDir d = true := by
    intro d wasDir
    by_cases moved : d = c
    · exact moved ▸ dirC (moved ▸ wasDir)
    · exact (dirs d moved).trans wasDir
  refine ⟨⟨ranked, ?_⟩, ?_, ?_⟩
  · intro q k d entry dirD
    by_cases moved : d = c
    · -- the one name of the node that moved is the new one
      subst moved
      obtain ⟨rfl, rfl⟩ := shaped.once dirD entry newName
      exact stillStands q isDir (stands dirD)
    · rcases names q k with ⟨_, _, entry'⟩ | ⟨_, same | ⟨left, _⟩⟩
      · exact absurd (Option.some.inj (entry.symm.trans entry')) moved
      · rw [same] at entry
        have wasDir : fs.isDir d = true := (dirs d moved).symm.trans dirD
        exact stillStands q (isDir_of_child entry) (rooted.parents entry wasDir)
      · rw [left] at entry
        cases entry
  · exact fun d _ placed => ⟨stillDir d placed.1, stillStands d placed.1 placed.2⟩
  · intro d dirD
    by_cases new : d = c
    · exact .inr (.inr ⟨p, name, new ▸ newName⟩)
    · exact .inl ((dirs d new).symm.trans dirD)

/-- A new node takes a name no directory had, a directory below one that stands. -/
theorem Rooted.enter {p : Nat} {name : String} {node : FsNode} {gone : Nat → Prop}
    (rooted : fs.Rooted) (shaped : fs.Shaped) (leaf : Childless node) (isDir : fs.isDir p = true)
    (displaced : ∀ old, fs.child p name = some old → fs.isDir old = false)
    (stands : (∃ children, node = .dir children) → fs.Standing p) :
    Carries fs (fs.enter p name node) gone := by
  have ranked : Ranked (fs.enter p name node).Names := by
    refine rooted.ranked.graft (c := fs.next) (p := p) ?_ ?_
    · intro path
      have new : ∀ k, fs.child fs.next k = none := fun k => child_none shaped.next_notDir k
      exact shaped.fresh (reaches_leaf new path ▸ mem_of_isDir isDir)
    · rintro a b ⟨k, entry⟩
      rw [child_enter shaped leaf isDir] at entry
      split at entry
      · next here => exact .inr ⟨here.1, (Option.some.inj entry).symm⟩
      · exact .inl ⟨k, entry⟩
  refine rooted.replace (shaped.enter leaf isDir) ranked (fun d => isDir_enter_of_ne) ?_ ?_ isDir
    (fun old entry _ => displaced old entry) ?_
  · intro newDir
    rw [shaped.next_notDir] at newDir
    cases newDir
  · intro d k
    rw [child_enter shaped leaf isDir]
    by_cases here : d = p ∧ k = name
    · exact .inl ⟨here.1, here.2, if_pos here⟩
    · exact .inr ⟨here, .inl (if_neg here)⟩
  · intro newDir
    obtain ⟨children, found⟩ := isDir_iff.1 newDir
    have other : fs.next ≠ p := fun same => shaped.fresh (same ▸ mem_of_isDir isDir)
    rw [lookup_enter_self other] at found
    exact stands ⟨children, Option.some.inj found⟩

/-- Another name for a file. -/
theorem Rooted.link {p id : Nat} {name : String} {gone : Nat → Prop} (rooted : fs.Rooted)
    (shaped : (fs.addChild p name id).Shaped) (isDir : fs.isDir p = true)
    (notDir : fs.isDir id = false) (free : fs.child p name = none) :
    Carries fs (fs.addChild p name id) gone := by
  have dirs : ∀ d, (fs.addChild p name id).isDir d = fs.isDir d := fun d => by simp [addChild_eq]
  have ranked : Ranked (fs.addChild p name id).Names := by
    refine rooted.ranked.graft (c := id) (p := p) ?_ ?_
    · intro path
      have same := reaches_leaf (child_none notDir) path
      rw [same, isDir] at notDir
      cases notDir
    · rintro a b ⟨k, entry⟩
      rw [child_addChild isDir] at entry
      split at entry
      · next here => exact .inr ⟨here.1, (Option.some.inj entry).symm⟩
      · exact .inl ⟨k, entry⟩
  refine rooted.replace shaped ranked (fun d _ => dirs d) (fun dirId => (dirs id).trans dirId) ?_ isDir
    (fun old entry => by rw [free] at entry; cases entry) ?_
  · intro d k
    rw [child_addChild isDir]
    by_cases here : d = p ∧ k = name
    · exact .inl ⟨here.1, here.2, if_pos here⟩
    · exact .inr ⟨here, .inl (if_neg here)⟩
  · intro dirId
    rw [dirs, notDir] at dirId
    cases dirId

/-- A rename keeps the tree, if it displaces no directory and moves a directory only
below one that stands and is not inside it. -/
theorem Rooted.move {oldParent newParent id : Nat} {oldName newName : String} {gone : Nat → Prop}
    (rooted : fs.Rooted) (shaped : fs.Shaped) (entry : fs.child oldParent oldName = some id)
    (isDir : fs.isDir newParent = true)
    (displaced : ∀ old, fs.child newParent newName = some old → old ≠ id → fs.isDir old = false)
    (moved : fs.isDir id = true → fs.Standing newParent ∧ ¬ fs.Reaches id newParent) :
    Carries fs (fs.move oldParent oldName newParent newName id) gone := by
  have dirs : ∀ d, (fs.move oldParent oldName newParent newName id).isDir d = fs.isDir d :=
    fun d => by simp [Fs.move, addChild_eq, removeChild_eq]
  have apart : ¬ fs.Reaches id newParent := by
    cases dirId : fs.isDir id with
    | true => exact (moved dirId).2
    | false =>
      intro path
      rw [reaches_leaf (child_none dirId) path, isDir] at dirId
      cases dirId
  have ranked : Ranked (fs.move oldParent oldName newParent newName id).Names := by
    refine rooted.ranked.graft apart ?_
    rintro a b ⟨k, named⟩
    rw [child_move isDir] at named
    split at named
    · next here => exact .inr ⟨here.1, (Option.some.inj named).symm⟩
    · split at named
      · cases named
      · exact .inl ⟨k, named⟩
  refine rooted.replace (shaped.move entry isDir) ranked (fun d _ => dirs d)
    (fun dirId => (dirs id).trans dirId) ?_ isDir displaced fun dirId =>
      (moved ((dirs id).symm.trans dirId)).1
  intro d k
  rw [child_move isDir]
  by_cases here : d = newParent ∧ k = newName
  · exact .inl ⟨here.1, here.2, if_pos here⟩
  · rw [if_neg here]
    by_cases left : d = oldParent ∧ k = oldName
    · exact .inr ⟨here, .inr ⟨if_pos left, left.1 ▸ left.2 ▸ entry⟩⟩
    · exact .inr ⟨here, .inl (if_neg left)⟩

/-- Fewer names and nodes, all but `gone` standing as before. -/
theorem Rooted.shrink {fs' : Fs} {gone : Nat → Prop} (rooted : fs.Rooted)
    (dirs : ∀ {d}, fs'.isDir d = true → fs.isDir d = true)
    (names : ∀ {d k c}, fs'.child d k = some c → fs.child d k = some c)
    (leaf : ∀ d, gone d → ∀ k, fs.child d k = none)
    (stays : ∀ d, ¬ gone d → fs.Placed d → fs'.Placed d) : Carries fs fs' gone where
  rooted :=
    { ranked := ranked_fewer rooted.ranked names
      parents := by
        intro p k d entry isDir
        have before := names entry
        have kept : ¬ gone p := by
          intro out
          rw [leaf p out k] at before
          cases before
        exact (stays p kept ⟨isDir_of_child before, rooted.parents before (dirs isDir)⟩).2 }
  stays := stays
  fresh _ isDir := .inl (dirs isDir)

/-- What is dropped takes no directory along that stands otherwise. -/
theorem Rooted.dropped {fs' : Fs} {id : Nat} (rooted : fs.Rooted) (drop : Dropped fs fs' [id])
    (fallen : ¬ fs.Standing id) : Carries fs fs' fun _ => False := by
  have outside : ∀ d, fs.Placed d → ¬ fs.Reaches id d := by
    rintro d ⟨isDir, stands⟩ path
    cases path using ReflTransGen.head_induction_on with
    | refl => exact fallen stands
    | head edge rest =>
      obtain ⟨k, entry⟩ := edge
      refine fallen (rooted.parents entry ?_)
      cases rest using ReflTransGen.head_induction_on with
      | refl => exact isDir
      | head next _ =>
        obtain ⟨k', entry'⟩ := next
        exact isDir_of_child entry'
  have there : ∀ {d}, d ∈ fs.nodes → ¬ fs.Reaches id d → d ∈ fs'.nodes := fun member apart =>
    drop.mem_iff.2 ⟨member, fun r root => List.mem_singleton.1 root ▸ apart⟩
  refine rooted.shrink ?_ ?_ (fun _ none => none.elim) fun d _ placed => ?_
  · intro d isDir
    obtain ⟨children, found⟩ := isDir_iff.1 isDir
    exact isDir_iff.2 ⟨children, drop.kept found⟩
  · intro d k c entry
    exact (drop.child_of_mem (Names.mem ⟨k, entry⟩) k).symm.trans entry
  · obtain ⟨isDir, stands⟩ := placed
    have apart := outside d ⟨isDir, stands⟩
    refine ⟨?_, ?_⟩
    · obtain ⟨children, found⟩ := isDir_iff.1 isDir
      refine isDir_iff.2 ⟨children, ?_⟩
      rw [drop.lookup_of_mem (there (Table.mem_of_lookup found) apart), found]
    · rcases stands with atRoot | ⟨p, k, entry⟩
      · exact .inl atRoot
      · have stays : p ∈ fs'.nodes :=
          there (Names.mem ⟨k, entry⟩) fun path => apart (path.tail ⟨k, entry⟩)
        exact .inr ⟨p, k, (drop.child_of_mem stays k).trans entry⟩

theorem Carries.trans {fs' fs'' : Fs} {gone : Nat → Prop} (first : Carries fs fs' gone)
    (second : Carries fs' fs'' fun _ => False)
    (dirs : ∀ d, fs''.isDir d = true → fs'.isDir d = true) : Carries fs fs'' gone where
  rooted := second.rooted
  stays d kept placed := second.stays d id (first.stays d kept placed)
  fresh d isDir := by
    rcases first.fresh d (dirs d isDir) with before | stands
    · exact .inl before
    · exact .inr (second.stays d id ⟨dirs d isDir, stands⟩).2

theorem Rooted.unlink {p id : Nat} {name : String} (rooted : fs.Rooted) (shaped : fs.Shaped)
    (entry : fs.child p name = some id) (leaf : ∀ k, fs.child id k = none) :
    Carries fs (fs.unlink p name id) (· = id) := by
  have removed : Carries fs (fs.removeChild p name) (· = id) := by
    refine rooted.shrink (fun isDir => by simpa [removeChild_eq] using isDir) ?_
      (fun d here k => here ▸ leaf k) fun d other placed => ⟨?_, ?_⟩
    · intro d k c named
      rw [child_removeChild] at named
      split at named
      · cases named
      · exact named
    · simpa [removeChild_eq] using placed.1
    · rcases placed.2 with atRoot | ⟨q, k, named⟩
      · exact .inl atRoot
      · refine .inr ⟨q, k, ?_⟩
        rw [child_removeChild, if_neg, named]
        rintro ⟨rfl, rfl⟩
        exact other (Option.some.inj (named.symm.trans entry))
  rcases unlink_cases p name leaf with ⟨same, _⟩ | ⟨unreferenced, _, drop⟩
  · rw [same]
    exact removed
  · have fallen : ¬ (fs.removeChild p name).Standing id := by
      rintro (rfl | named)
      · exact shaped.rootFree entry
      · rw [nodeIsReferenced_iff.2 named] at unreferenced
        cases unreferenced
    refine removed.trans (removed.rooted.dropped drop fallen) fun d isDir => ?_
    obtain ⟨children, found⟩ := isDir_iff.1 isDir
    exact isDir_iff.2 ⟨children, drop.kept found⟩

theorem Rooted.closeRef (rooted : fs.Rooted) (id : Nat) :
    Carries fs (fs.closeRef id) fun _ => False := by
  rcases closeRef_cases fs id with ⟨nodes, _, _, _⟩ | ⟨_, notRoot, unreferenced, drop⟩
  · exact rooted.same (fun d => by simp only [isDir, nodes]) fun d k => by simp only [child, nodes]
  · have closed : ({ fs with openFds := fs.openFds.erase id } : Fs).Rooted :=
      ⟨rooted.ranked, rooted.parents⟩
    have fallen : ¬ fs.Standing id := by
      rintro (atRoot | named)
      · exact notRoot atRoot
      · rw [nodeIsReferenced_iff.2 named] at unreferenced
        cases unreferenced
    have carried := closed.dropped drop fallen
    exact ⟨carried.rooted, carried.stays, carried.fresh⟩

theorem Rooted.setBytes {id : Nat} {bytes : Bytes} {gone : Nat → Prop} (rooted : fs.Rooted)
    (holds : fs.HoldsBytes id) : Carries fs (fs.setBytes id bytes) gone :=
  rooted.same (isDir_setBytes holds.notDir) (child_setBytes holds.notDir)

theorem Rooted.new : Fs.new.Rooted where
  ranked := Anchored.new.ranked
  parents {p k d} entry := by
    rw [Fs.new_child] at entry
    cases entry

end Fs

namespace Machine

variable {m : Machine}

/-- Where a directory is to be made. -/
def makes (m : Machine) : Op → Option (Nat × String)
  | .createDirectoryAt fd path =>
    match m.fds.lookup fd with
    | some (.node start) => m.fs.resolveParent start path
    | _ => none
  | _ => none

/-- The node a guest asks to remove as a directory. -/
def requests (m : Machine) : Op → Option Nat
  | .removeDirectoryAt fd path =>
    match m.fds.lookup fd with
    | some (.node start) =>
      (m.fs.resolveParent start path).bind fun place => m.fs.child place.1 place.2
    | _ => none
  | _ => none

/-- The nodes a guest asks to remove as directories in a session. -/
def requested : Machine → List (Op × Env) → List Nat
  | _, [] => []
  | m, asked :: rest => (m.requests asked.1).toList ++ (m.ask asked).requested rest

/-- An operation keeps the tree: it takes over no directory's name, puts a directory only
below one that stands, and moves none below itself. -/
structure KeepsTree (m : Machine) (op : Op) : Prop where
  created : ∀ {p name old}, m.creates op = some (p, name) → m.fs.child p name = some old →
    m.fs.isDir old = false
  made : ∀ {p name}, m.makes op = some (p, name) → m.fs.child p name = none →
    m.fs.atCapacity = false → m.fs.Standing p
  displaced : ∀ {p name id old}, m.renames op = some ((p, name), id) →
    m.fs.child p name = some old → old ≠ id → m.fs.isDir old = false
  moved : ∀ {p name id}, m.renames op = some ((p, name), id) → m.fs.isDir id = true →
    m.fs.Standing p ∧ ¬ m.fs.Reaches id p

/-- An operation that keeps the tree carries every directory but the one it is asked to
remove. -/
theorem effect_carries {op : Op} {fs : Fs} {fds : Table Nat DescPlace} (effect : Effect m op fs fds)
    (keeps : m.KeepsTree op) (shaped : m.fs.Shaped) (rooted : m.fs.Rooted) :
    Fs.Carries m.fs fs fun d => m.requests op = some d := by
  have shaped' := effect.shaped shaped
  cases effect with
  | keeps => exact rooted.same (fun _ => rfl) fun _ _ => rfl
  | wrote _ bytes data holds => exact rooted.setBytes holds
  | openedRemote => exact rooted.same (fun _ => rfl) fun _ _ => rfl
  | openedRoot => exact rooted.same (fun _ => rfl) fun _ _ => rfl
  | opened place found => exact rooted.same (fun _ => rfl) fun _ _ => rfl
  | truncated place found holds =>
    exact rooted.same (Fs.isDir_setBytes holds.notDir) (Fs.child_setBytes holds.notDir)
  | @created fd start p follow path name flags place asked absent landing room =>
    have entered : Fs.Carries m.fs (m.fs.enter p name (.file []))
        fun d => m.requests (.openAt fd follow path flags) = some d :=
      rooted.enter shaped (Fs.childless_of_ne (by simp)) (Fs.resolveParent_isDir landing)
        (fun old entry => keeps.created (creates_eq place asked absent landing room) entry)
        (by rintro ⟨children, ⟨⟩⟩)
    exact ⟨⟨entered.rooted.ranked, entered.rooted.parents⟩, entered.stays, entered.fresh⟩
  | madeDirectory place landing free room =>
    refine rooted.enter shaped Fs.childless_dir (Fs.resolveParent_isDir landing)
      (fun old entry => by rw [free] at entry; cases entry) fun _ => ?_
    exact keeps.made (by simp only [makes, place]; exact landing) free room
  | symlinked place landing free room =>
    exact rooted.enter shaped (Fs.childless_of_ne (by simp)) (Fs.resolveParent_isDir landing)
      (fun old entry => by rw [free] at entry; cases entry) (by rintro ⟨children, ⟨⟩⟩)
  | linked oldPlace newPlace found present notDir writable landing free =>
    exact rooted.link shaped' (Fs.resolveParent_isDir landing) notDir free
  | renamed oldPlace newPlace leaving entry writable landing =>
    have renames := renames_eq oldPlace newPlace leaving entry writable landing
    exact rooted.move shaped entry (Fs.resolveParent_isDir landing)
      (fun old named other => keeps.displaced renames named other) fun isDir =>
        keeps.moved renames isDir
  | @unlinked fd start p id dir path name place leaving entry writable allowed =>
    have carried := rooted.unlink shaped entry (Fs.removable_leaf allowed)
    refine ⟨carried.rooted, fun d kept placed => carried.stays d ?_ placed, carried.fresh⟩
    rintro rfl
    cases dir with
    | true => exact kept (by simp [Op.unlinks, requests, place, leaving, entry])
    | false =>
      obtain ⟨children, found⟩ := Fs.isDir_iff.1 placed.1
      simp [removable, found] at allowed
  | @closed fd node place =>
    have carried := rooted.closeRef node
    exact ⟨carried.rooted, fun d _ placed => carried.stays d id placed, carried.fresh⟩
  | closedRemote => exact rooted.same (fun _ => rfl) fun _ _ => rfl

/-- What holds along every session that keeps the tree. -/
structure Treelike (m : Machine) : Prop where
  shaped : m.fs.Shaped
  rooted : m.fs.Rooted

theorem ask_carries (asked : Op × Env) (keeps : m.KeepsTree asked.1) (tree : m.Treelike) :
    Fs.Carries m.fs (m.ask asked).fs fun d => m.requests asked.1 = some d :=
  effect_carries (m.step_effect asked.2 asked.1).effect keeps tree.shaped tree.rooted

theorem ask_treelike (asked : Op × Env) (keeps : m.KeepsTree asked.1) (tree : m.Treelike) :
    (m.ask asked).Treelike where
  shaped := (m.step_effect asked.2 asked.1).effect.shaped tree.shaped
  rooted := (ask_carries asked keeps tree).rooted

theorem session_treelike {ops : List (Op × Env)}
    (keeps : Along ask (fun m asked => m.KeepsTree asked.1) m ops) (tree : m.Treelike) :
    (m.session ops).Treelike :=
  Along.keeps (fun _ asked met tree => ask_treelike asked met tree) keeps tree

/-- A directory that stands does so until its removal is asked for. -/
theorem session_stays {ops : List (Op × Env)} {d : Nat}
    (keeps : Along ask (fun m asked => m.KeepsTree asked.1) m ops) (tree : m.Treelike)
    (placed : m.fs.Placed d) (kept : d ∉ m.requested ops) : (m.session ops).fs.Placed d := by
  induction ops generalizing m with
  | nil => exact placed
  | cons asked rest ih =>
    rw [requested, List.mem_append, not_or] at kept
    have still := (ask_carries asked keeps.1 tree).stays d (fun asks => kept.1 (by simp [asks])) placed
    exact ih keeps.2 (ask_treelike asked keeps.1 tree) still kept.2

/-- Every directory there is stands, unless its removal was asked for; `gone` is what was
removed before. -/
theorem session_placed {ops : List (Op × Env)} {gone : Nat → Prop} {d : Nat}
    (keeps : Along ask (fun m asked => m.KeepsTree asked.1) m ops) (tree : m.Treelike)
    (start : ∀ d, m.fs.isDir d = true → gone d ∨ m.fs.Placed d)
    (isDir : (m.session ops).fs.isDir d = true) :
    gone d ∨ d ∈ m.requested ops ∨ (m.session ops).fs.Placed d := by
  induction ops generalizing m gone with
  | nil =>
    rcases start d isDir with before | placed
    · exact .inl before
    · exact .inr (.inr placed)
  | cons asked rest ih =>
    have carries := ask_carries asked keeps.1 tree
    have next : ∀ d, (m.ask asked).fs.isDir d = true →
        (gone d ∨ m.requests asked.1 = some d) ∨ (m.ask asked).fs.Placed d := by
      intro d isDir
      by_cases asks : m.requests asked.1 = some d
      · exact .inl (.inr asks)
      · rcases carries.fresh d isDir with before | stands
        · rcases start d before with out | placed
          · exact .inl (.inl out)
          · exact .inr (carries.stays d asks placed)
        · exact .inr ⟨isDir, stands⟩
    rcases ih keeps.2 (ask_treelike asked keeps.1 tree) next isDir with (out | asks) | later | placed
    · exact .inl out
    · exact .inr (.inl (by simp [requested, asks]))
    · exact .inr (.inl (by simp [requested, later]))
    · exact .inr (.inr placed)

theorem requested_append (xs ys : List (Op × Env)) :
    m.requested (xs ++ ys) = m.requested xs ++ (m.session xs).requested ys := by
  induction xs generalizing m with
  | nil => rfl
  | cons asked rest ih =>
    simp only [List.cons_append, requested, ih, List.append_assoc]
    rfl

/-- **The directories form a tree.** In every session from an empty filesystem whose
operations keep the tree, names never lead back to where they started, a directory has
at most one name, and a directory there was at any time of the session is reached from
the root at its end, unless its removal was asked for. -/
theorem session_keeps_tree {backing : Backing} {ops : List (Op × Env)}
    (keeps : Along ask (fun m asked => m.KeepsTree asked.1) (boot Fs.new backing) ops) :
    (∀ d, ¬ TransGen ((boot Fs.new backing).session ops).fs.Names d d) ∧
      (∀ d p k p' k', ((boot Fs.new backing).session ops).fs.isDir d = true →
        ((boot Fs.new backing).session ops).fs.child p k = some d →
        ((boot Fs.new backing).session ops).fs.child p' k' = some d → p = p' ∧ k = k') ∧
      ∀ before after d, ops = before ++ after →
        ((boot Fs.new backing).session before).fs.isDir d = true →
        d ∉ (boot Fs.new backing).requested ops →
        ((boot Fs.new backing).session ops).fs.isDir d = true ∧
          ((boot Fs.new backing).session ops).fs.Reaches root d := by
  have start : (boot Fs.new backing).Treelike := ⟨.new, .new⟩
  have atEnd := session_treelike keeps start
  refine ⟨atEnd.rooted.ranked.acyclic, fun d p k p' k' isDir => atEnd.shaped.once isDir, ?_⟩
  rintro before after d rfl isDir kept
  rw [requested_append, List.mem_append, not_or] at kept
  obtain ⟨first, second⟩ := keeps.append
  have onlyRoot : ∀ d, (boot Fs.new backing).fs.isDir d = true →
      False ∨ (boot Fs.new backing).fs.Placed d := by
    intro d isDir
    refine .inr ⟨isDir, .inl ?_⟩
    rcases (AList.mem_insert _).1 (Fs.mem_of_isDir isDir) with same | none
    · exact same
    · exact absurd none (AList.notMem_empty _)
  have placed : ((boot Fs.new backing).session before).fs.Placed d := by
    rcases session_placed first start onlyRoot isDir with none | asked | placed
    · exact none.elim
    · exact absurd asked kept.1
    · exact placed
  have still : (((boot Fs.new backing).session before).session after).fs.Placed d :=
    session_stays second (session_treelike first start) placed kept.2
  have same : ((boot Fs.new backing).session before).session after =
      (boot Fs.new backing).session (before ++ after) := by
    rw [session, session, session, List.foldl_append]
  rw [same] at still
  exact ⟨still.1, atEnd.rooted.reaches still⟩

section Poles

/-- A check of `KeepsTree`: names are given only where they are free, directories are made
below the root only, and only files are renamed. -/
def flatMoves (m : Machine) (op : Op) : Bool :=
  ((m.creates op).all fun landing => (m.fs.child landing.1 landing.2).isNone) &&
    ((m.makes op).all fun landing => landing.1 = root || m.fs.nodeIsReferenced landing.1) &&
    (m.renames op).all fun moved =>
      (m.fs.child moved.1.1 moved.1.2).isNone && !m.fs.isDir moved.2

theorem flatMoves_keepsTree (m : Machine) (op : Op) (passed : flatMoves m op = true) :
    m.KeepsTree op := by
  simp only [flatMoves, Bool.and_eq_true, Option.all_eq_true, Option.isNone_iff_eq_none,
    Bool.not_eq_true', Bool.or_eq_true, decide_eq_true_eq] at passed
  obtain ⟨⟨created, made⟩, renamed⟩ := passed
  refine ⟨?_, ?_, ?_, ?_⟩
  · intro p name old creates entry
    rw [created _ creates] at entry
    cases entry
  · intro p name makes _ _
    rcases made _ makes with atRoot | referenced
    · exact .inl atRoot
    · exact .inr (Fs.nodeIsReferenced_iff.1 referenced)
  · intro p name id old renames entry
    rw [(renamed _ renames).1] at entry
    cases entry
  · intro p name id renames isDir
    rw [(renamed _ renames).2] at isDir
    cases isDir

/-- Nested directories, of which one is removed, and a file renamed between them. -/
def nestedSession : List (Op × Env) := [
  (.getDirectories, .quiet),
  (.createDirectoryAt 0 "a", .quiet),
  (.createDirectoryAt 0 "a/b", .quiet),
  (.createDirectoryAt 0 "c", .quiet),
  (.openAt 0 true "c/f" { create := true }, .quiet),
  (.renameAt 0 "c/f" 0 "a/b/f", .quiet),
  (.removeDirectoryAt 0 "c", .quiet)]

theorem session_keeps_tree_nested :
    ((boot Fs.new .empty).session nestedSession).fs.child root "c" = none ∧
      ((boot Fs.new .empty).session nestedSession).fs.Reaches root 2 := by
  have checked : checkAlong ask (fun m asked => flatMoves m asked.1) (boot Fs.new .empty) nestedSession
      = true := by
    decide
  have tree := session_keeps_tree
    (along_of_check (fun m (asked : Op × Env) => flatMoves_keepsTree m asked.1) checked)
  refine ⟨by decide, (tree.2.2 nestedSession [] 2 (by simp) ?_ ?_).2⟩ <;> decide

/-- A directory renamed to a name inside itself. -/
def swallowed : List (Op × Env) := [
  (.getDirectories, .quiet),
  (.createDirectoryAt 0 "a", .quiet),
  (.renameAt 0 "a" 0 "a/b", .quiet)]

/-- The directory is then its own only parent. -/
theorem rename_closes_a_cycle :
    ¬ ∀ d, ¬ TransGen ((boot Fs.new .empty).session swallowed).fs.Names d d := by
  intro acyclic
  have loop : ((boot Fs.new .empty).session swallowed).fs.child 1 "b" = some 1 := by decide
  exact acyclic 1 (.single ⟨"b", loop⟩)

end Poles

end Machine

end Wk.Vfs
