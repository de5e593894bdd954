/-
# Wk.Vfs.Shape -- what the primitives leave, and what every filesystem keeps

Each change of the names is described by its entries afterwards (`child_enter`,
`child_move`, ...).  From these follows the shape that no operation of guest or host
ever breaks (`Shaped`): ids are below the next one, the root is a directory nothing
names, and a directory has at most one name.
-/
import Wk.Vfs.Effects

namespace Wk.Vfs

open Wk.Library Relation

set_option autoImplicit false

namespace Fs

variable {fs : Fs}

/-- A node that names nothing. -/
def Childless (node : FsNode) : Prop := ∀ children, node = .dir children → children = ∅

theorem childless_dir : Childless (.dir ∅) := by
  rintro children ⟨⟩
  rfl

theorem childless_of_ne {node : FsNode} (notDir : ∀ children, node ≠ .dir children) :
    Childless node :=
  fun children same => absurd same (notDir children)

/-- The shape of every filesystem. -/
structure Shaped (fs : Fs) : Prop where
  /-- Ids are never handed out twice. -/
  bounded : ∀ {x}, x ∈ fs.nodes → x < fs.next
  targets : ∀ {d name c}, fs.child d name = some c → c < fs.next
  rootDir : fs.isDir root = true
  rootFree : ∀ {d name}, fs.child d name ≠ some root
  /-- A directory has at most one name. -/
  once : ∀ {d name d' name' c}, fs.isDir c = true → fs.child d name = some c →
    fs.child d' name' = some c → d = d' ∧ name = name'

theorem mem_of_isDir {x : Nat} (isDir : fs.isDir x = true) : x ∈ fs.nodes := by
  obtain ⟨children, found⟩ := isDir_iff.1 isDir
  exact Table.mem_of_lookup found

namespace Shaped

theorem fresh (shaped : fs.Shaped) : fs.next ∉ fs.nodes :=
  fun member => lt_irrefl _ (shaped.bounded member)

theorem next_notDir (shaped : fs.Shaped) : fs.isDir fs.next = false := by
  by_contra isDir
  exact shaped.fresh (mem_of_isDir (by simpa using isDir))

theorem unnamed (shaped : fs.Shaped) {d : Nat} {name : String} :
    fs.child d name ≠ some fs.next :=
  fun entry => lt_irrefl _ (shaped.targets entry)

theorem root_lt (shaped : fs.Shaped) : root < fs.next :=
  shaped.bounded (mem_of_isDir shaped.rootDir)

end Shaped

/-! ## A new node -/

section Enter

variable {p : Nat} {name : String} {node : FsNode}

theorem enter_eq : fs.enter p name node =
    ({ fs with nodes := fs.nodes.insert fs.next node, next := fs.next + 1 } : Fs).alter p
      fun children => children.insert name fs.next := rfl

@[simp] theorem enter_next : (fs.enter p name node).next = fs.next + 1 := by simp [enter_eq]

@[simp] theorem enter_readonly : (fs.enter p name node).readonly = fs.readonly := by
  simp [enter_eq]

@[simp] theorem enter_openFds : (fs.enter p name node).openFds = fs.openFds := by
  simp [enter_eq]

theorem mem_enter {x : Nat} : x ∈ (fs.enter p name node).nodes ↔ x = fs.next ∨ x ∈ fs.nodes := by
  rw [enter_eq, mem_alter, AList.mem_insert]

theorem isDir_enter_of_ne {x : Nat} (other : x ≠ fs.next) :
    (fs.enter p name node).isDir x = fs.isDir x := by
  rw [enter_eq, isDir_alter]
  simp only [isDir, AList.lookup_insert_ne other]

theorem lookup_enter {x : Nat} (old : x ≠ fs.next) (other : x ≠ p) :
    (fs.enter p name node).nodes.lookup x = fs.nodes.lookup x := by
  rw [enter_eq, lookup_alter other, AList.lookup_insert_ne old]

theorem lookup_enter_self (other : fs.next ≠ p) :
    (fs.enter p name node).nodes.lookup fs.next = some node := by
  rw [enter_eq, lookup_alter other, AList.lookup_insert]

theorem child_enter (shaped : fs.Shaped) (leaf : Childless node) (isDir : fs.isDir p = true)
    (d : Nat) (k : String) :
    (fs.enter p name node).child d k = if d = p ∧ k = name then some fs.next else fs.child d k := by
  have old : p ≠ fs.next := fun same => shaped.fresh (same ▸ mem_of_isDir isDir)
  have stillDir : ({ fs with nodes := fs.nodes.insert fs.next node, next := fs.next + 1 } : Fs).isDir p
      = true := by
    simp only [Fs.isDir, AList.lookup_insert_ne old]
    exact isDir
  have added : (fs.enter p name node).child d k = if d = p ∧ k = name then some fs.next
      else ({ fs with nodes := fs.nodes.insert fs.next node, next := fs.next + 1 } : Fs).child d k :=
    child_addChild stillDir d k
  have before : ({ fs with nodes := fs.nodes.insert fs.next node, next := fs.next + 1 } : Fs).child d k
      = fs.child d k := by
    by_cases here : d = fs.next
    · subst here
      have absent : fs.child fs.next k = none := by
        by_contra some
        obtain ⟨c, entry⟩ := Option.ne_none_iff_exists'.1 some
        exact shaped.fresh (Names.mem ⟨k, entry⟩)
      rw [absent]
      simp only [child, AList.lookup_insert]
      split
      · next children same =>
          rw [leaf children (Option.some.inj same), AList.lookup_empty]
      · rfl
    · exact child_congr (AList.lookup_insert_ne here)
  rw [before] at added
  exact added

/-- A node that is no directory, or an empty one, enters. -/
theorem Shaped.enter (shaped : fs.Shaped) (leaf : Childless node) (isDir : fs.isDir p = true) :
    (fs.enter p name node).Shaped where
  bounded {x} member := by
    rw [enter_next]
    rcases mem_enter.1 member with rfl | old
    · exact Nat.lt_succ_self _
    · exact (shaped.bounded old).trans (Nat.lt_succ_self _)
  targets {d k c} entry := by
    rw [child_enter shaped leaf isDir] at entry
    rw [enter_next]
    split at entry
    · cases entry
      exact Nat.lt_succ_self _
    · exact (shaped.targets entry).trans (Nat.lt_succ_self _)
  rootDir := by
    rw [isDir_enter_of_ne (ne_of_lt shaped.root_lt)]
    exact shaped.rootDir
  rootFree {d k} entry := by
    rw [child_enter shaped leaf isDir] at entry
    split at entry
    · exact ne_of_gt shaped.root_lt (Option.some.inj entry)
    · exact shaped.rootFree entry
  once {d k d' k' c} dirC first second := by
    rw [child_enter shaped leaf isDir] at first second
    split at first
    · next here =>
        cases first
        split at second
        · next there => exact ⟨here.1.trans there.1.symm, here.2.trans there.2.symm⟩
        · exact absurd second shaped.unnamed
    · split at second
      · cases second
        exact absurd first shaped.unnamed
      · have other : c ≠ fs.next := fun same => shaped.unnamed (same ▸ first)
        rw [isDir_enter_of_ne other] at dirC
        exact shaped.once dirC first second

end Enter

/-! ## Fewer names, one more name -/

/-- Taking names and nodes away keeps the shape, as long as the root stays. -/
theorem Shaped.shrink {fs' : Fs} (shaped : fs.Shaped) (next : fs'.next = fs.next)
    (nodes : ∀ {x}, x ∈ fs'.nodes → x ∈ fs.nodes)
    (dirs : ∀ {x}, fs'.isDir x = true → fs.isDir x = true)
    (names : ∀ {d k c}, fs'.child d k = some c → fs.child d k = some c)
    (rootDir : fs'.isDir root = true) : fs'.Shaped where
  bounded member := next ▸ shaped.bounded (nodes member)
  targets entry := next ▸ shaped.targets (names entry)
  rootDir := rootDir
  rootFree entry := shaped.rootFree (names entry)
  once dirC first second := shaped.once (dirs dirC) (names first) (names second)

theorem Shaped.setBytes {id : Nat} {bytes : Bytes} (shaped : fs.Shaped)
    (holds : fs.HoldsBytes id) : (fs.setBytes id bytes).Shaped := by
  have dirs : ∀ x, (fs.setBytes id bytes).isDir x = fs.isDir x := isDir_setBytes holds.notDir
  refine shaped.shrink rfl ?_ (fun isDir => (dirs _).symm.trans isDir) ?_
    ((dirs root).trans shaped.rootDir)
  · intro x member
    rcases (AList.mem_insert _).1 member with rfl | old
    · exact holds.mem
    · exact old
  · intro d k c entry
    exact (child_setBytes holds.notDir d k).symm.trans entry

theorem Shaped.removeChild (shaped : fs.Shaped) (p : Nat) (name : String) :
    (fs.removeChild p name).Shaped := by
  refine shaped.shrink (by simp [removeChild_eq]) (fun member => by simpa [removeChild_eq] using member)
    (fun isDir => by simpa [removeChild_eq] using isDir) ?_
    (by simpa [removeChild_eq] using shaped.rootDir)
  intro d k c entry
  rw [child_removeChild] at entry
  split at entry
  · cases entry
  · exact entry

/-- One more name for a node that is not the root, and for a directory its only one. -/
theorem Shaped.addChild {p c : Nat} {name : String} (shaped : fs.Shaped) (isDir : fs.isDir p = true)
    (small : c < fs.next) (notRoot : c ≠ root)
    (only : fs.isDir c = true → ∀ d k, fs.child d k = some c → d = p ∧ k = name) :
    (fs.addChild p name c).Shaped where
  bounded member := by simpa [addChild_eq] using shaped.bounded (by simpa [addChild_eq] using member)
  targets {d k c'} entry := by
    rw [child_addChild isDir] at entry
    have next : (fs.addChild p name c).next = fs.next := by simp [addChild_eq]
    rw [next]
    split at entry
    · cases entry
      exact small
    · exact shaped.targets entry
  rootDir := by simpa [addChild_eq] using shaped.rootDir
  rootFree {d k} entry := by
    rw [child_addChild isDir] at entry
    split at entry
    · exact notRoot (Option.some.inj entry)
    · exact shaped.rootFree entry
  once {d k d' k' c'} dirC first second := by
    have dirC : fs.isDir c' = true := by simpa [addChild_eq] using dirC
    rw [child_addChild isDir] at first second
    split at first
    · next here =>
        cases first
        split at second
        · next there => exact ⟨here.1.trans there.1.symm, here.2.trans there.2.symm⟩
        · have there := only dirC d' k' second
          exact ⟨here.1.trans there.1.symm, here.2.trans there.2.symm⟩
    · split at second
      · next there =>
          cases second
          have here := only dirC d k first
          exact ⟨here.1.trans there.1.symm, here.2.trans there.2.symm⟩
      · exact shaped.once dirC first second

theorem child_move {oldParent newParent id : Nat} {oldName newName : String}
    (isDir : fs.isDir newParent = true) (d : Nat) (k : String) :
    (fs.move oldParent oldName newParent newName id).child d k =
      if d = newParent ∧ k = newName then some id
      else if d = oldParent ∧ k = oldName then none else fs.child d k := by
  have stillDir : (fs.removeChild oldParent oldName).isDir newParent = true := by
    simpa [removeChild_eq] using isDir
  rw [move, child_addChild stillDir, child_removeChild]

theorem Shaped.move {oldParent newParent id : Nat} {oldName newName : String} (shaped : fs.Shaped)
    (entry : fs.child oldParent oldName = some id) (isDir : fs.isDir newParent = true) :
    (fs.move oldParent oldName newParent newName id).Shaped := by
  refine (shaped.removeChild oldParent oldName).addChild (by simpa [removeChild_eq] using isDir)
    (by simpa [removeChild_eq] using shaped.targets entry)
    (fun same => shaped.rootFree (same ▸ entry)) ?_
  intro dirId d k other
  have dirId : fs.isDir id = true := by simpa [removeChild_eq] using dirId
  rw [child_removeChild] at other
  split at other
  · cases other
  · next different =>
      obtain ⟨rfl, rfl⟩ := shaped.once dirId entry other
      exact absurd ⟨rfl, rfl⟩ different

/-! ## Dropping -/

theorem Shaped.reaches_root (shaped : fs.Shaped) {x : Nat} (path : fs.Reaches x root) : x = root := by
  cases path with
  | refl => rfl
  | tail _ last =>
    obtain ⟨name, entry⟩ := last
    exact absurd entry shaped.rootFree

theorem Shaped.dropped {fs' : Fs} {roots : List Nat} (shaped : fs.Shaped)
    (drop : Dropped fs fs' roots) (notRoot : root ∉ roots) : fs'.Shaped := by
  have same : ∀ {x}, x ∈ fs'.nodes → fs'.isDir x = fs.isDir x := by
    intro x member
    simp only [isDir, drop.lookup_of_mem member]
  refine shaped.shrink drop.next drop.mem_of_mem ?_ ?_ ?_
  · intro x isDir
    exact (same (mem_of_isDir isDir)).symm.trans isDir
  · intro d k c entry
    exact (drop.child_of_mem (Names.mem ⟨k, entry⟩) k).symm.trans entry
  · have there : root ∈ fs'.nodes := by
      refine drop.mem_iff.2 ⟨mem_of_isDir shaped.rootDir, fun r member path => ?_⟩
      exact notRoot (shaped.reaches_root path ▸ member)
    exact (same there).trans shaped.rootDir

/-- What closing a descriptor leaves: the reference gone, and with the last one the
subtree of a node nothing names. -/
theorem closeRef_cases (fs : Fs) (id : Nat) :
    ((fs.closeRef id).nodes = fs.nodes ∧ (fs.closeRef id).next = fs.next ∧
        (fs.closeRef id).readonly = fs.readonly ∧
        (fs.openCount id ≤ 1 → fs.openCount id = 0 ∨ id = root ∨ fs.nodeIsReferenced id = true)) ∨
      fs.openCount id ≤ 1 ∧ id ≠ root ∧ fs.nodeIsReferenced id = false ∧
        Dropped { fs with openFds := fs.openFds.erase id } (fs.closeRef id) [id] := by
  unfold closeRef openCount
  split
  · next absent => exact .inl ⟨rfl, rfl, rfl, fun _ => .inl (by simp [absent])⟩
  · next count held =>
      split
      · next last =>
          dsimp only
          split
          · next unreferenced =>
              simp only [ne_eq, Bool.and_eq_true, decide_eq_true_eq, Bool.not_eq_true'] at unreferenced
              refine .inr ⟨by simp [held]; omega, unreferenced.1, unreferenced.2, ?_⟩
              exact dropSubtree_dropped _ _ _ le_rfl
          · next kept =>
              refine .inl ⟨rfl, rfl, rfl, fun _ => .inr ?_⟩
              by_cases atRoot : id = root
              · exact .inl atRoot
              · have referenced : nodeIsReferenced { fs with openFds := fs.openFds.erase id } id = true := by
                  simpa [atRoot] using kept
                exact .inr referenced
      · next more => exact .inl ⟨rfl, rfl, rfl, fun few => by simp [held] at few; omega⟩

theorem Shaped.openRef (shaped : fs.Shaped) (id : Nat) : (fs.openRef id).Shaped :=
  shaped.shrink rfl (fun member => member) (fun isDir => isDir) (fun entry => entry) shaped.rootDir

theorem Shaped.closeRef (shaped : fs.Shaped) (id : Nat) : (fs.closeRef id).Shaped := by
  rcases closeRef_cases fs id with ⟨nodes, next, _, _⟩ | ⟨_, notRoot, _, drop⟩
  · refine shaped.shrink next (fun member => nodes ▸ member) ?_ ?_ ?_
    · intro x isDir
      simpa only [Fs.isDir, nodes] using isDir
    · intro d k c entry
      simpa only [child, nodes] using entry
    · simpa only [Fs.isDir, nodes] using shaped.rootDir
  · have closed : ({ fs with openFds := fs.openFds.erase id } : Fs).Shaped :=
      shaped.shrink rfl (fun member => member) (fun isDir => isDir) (fun entry => entry) shaped.rootDir
    exact closed.dropped drop fun member => notRoot (List.mem_singleton.1 member).symm

/-- What may be removed has nothing below it. -/
theorem removable_leaf {id : Nat} {dir : Bool}
    (allowed : Machine.removable dir (fs.nodes.lookup id) = .ok ()) (k : String) :
    fs.child id k = none := by
  unfold child
  split
  · next children found =>
      simp only [Machine.removable, found] at allowed
      split at allowed
      · cases allowed
      · split at allowed
        · next empty =>
            have none : children = ∅ := AList.ext (List.isEmpty_iff.1 empty)
            rw [none, AList.lookup_empty]
        · cases allowed
  · rfl

/-- What unlinking leaves: the entry gone, and the node once nothing holds it. -/
theorem unlink_cases (p : Nat) (name : String) {id : Nat} (leaf : ∀ k, fs.child id k = none) :
    fs.unlink p name id = fs.removeChild p name ∧
        ((fs.removeChild p name).nodeIsReferenced id = true ∨ 0 < fs.openCount id) ∨
      (fs.removeChild p name).nodeIsReferenced id = false ∧ fs.openCount id = 0 ∧
        Dropped (fs.removeChild p name) (fs.unlink p name id) [id] := by
  have counts : (fs.removeChild p name).openCount id = fs.openCount id := by
    simp [openCount, removeChild_eq]
  unfold Fs.unlink
  dsimp only
  split
  · next free =>
      simp only [Bool.and_eq_true, Bool.not_eq_true', decide_eq_true_eq, counts] at free
      refine .inr ⟨free.1, free.2, dropped_erase ?_⟩
      rintro c ⟨k, entry⟩
      rw [child_removeChild, leaf k, ite_self] at entry
      cases entry
  · next kept =>
      refine .inl ⟨rfl, ?_⟩
      simp only [Bool.and_eq_true, Bool.not_eq_true', decide_eq_true_eq, counts, not_and] at kept
      cases referenced : (fs.removeChild p name).nodeIsReferenced id with
      | true => exact .inl rfl
      | false => exact .inr (Nat.pos_of_ne_zero (kept referenced))

theorem Shaped.unlink {p id : Nat} {name : String} (shaped : fs.Shaped)
    (entry : fs.child p name = some id) (leaf : ∀ k, fs.child id k = none) :
    (fs.unlink p name id).Shaped := by
  rcases unlink_cases p name leaf with ⟨same, _⟩ | ⟨_, _, drop⟩
  · rw [same]
    exact shaped.removeChild p name
  · refine (shaped.removeChild p name).dropped drop fun member => ?_
    exact shaped.rootFree ((List.mem_singleton.1 member) ▸ entry)

/-- Nothing reached from the root leads back to itself. -/
theorem Shaped.no_loop (shaped : fs.Shaped) {p c : Nat} (path : fs.Reaches root p)
    (isDir : fs.isDir p = true) (names : fs.Names p c) : ¬ fs.Reaches c p := by
  induction path generalizing c with
  | refl =>
    intro back
    obtain ⟨name, entry⟩ := names
    exact shaped.rootFree (shaped.reaches_root back ▸ entry)
  | @tail q p _ edge ih =>
    intro back
    have dirQ : fs.isDir q = true := by
      obtain ⟨k, entry⟩ := edge
      exact isDir_of_child entry
    -- the one name of `p` is the last step of both paths
    have through : fs.Reaches p q := by
      cases back with
      | refl =>
        obtain ⟨name, entry⟩ := names
        obtain ⟨name', entry'⟩ := edge
        exact (shaped.once isDir entry entry').1 ▸ .refl
      | tail before last =>
        obtain ⟨name, entry⟩ := last
        obtain ⟨name', entry'⟩ := edge
        exact (shaped.once isDir entry entry').1 ▸ (ReflTransGen.head names before)
    exact ih dirQ edge through

end Fs

/-- A fresh filesystem names nothing. -/
theorem Fs.new_child (d : Nat) (k : String) : Fs.new.child d k = none := by
  by_contra some
  obtain ⟨c, entry⟩ := Option.ne_none_iff_exists'.1 some
  obtain ⟨children, found, entry⟩ := Fs.child_some entry
  simp only [Fs.new, Table.lookup_insert_eq] at found
  split at found
  · cases found
    cases entry
  · cases found

/-- A fresh filesystem has its shape. -/
theorem Fs.Shaped.new : Fs.new.Shaped where
  bounded {x} member := by
    have here : x = root := by
      rcases (AList.mem_insert _).1 member with same | none
      · exact same
      · exact absurd none (AList.notMem_empty _)
    rw [here]
    decide
  targets {d k c} entry := by
    rw [Fs.new_child] at entry
    cases entry
  rootDir := rfl
  rootFree {d k} entry := by
    rw [Fs.new_child] at entry
    cases entry
  once {d k d' k' c} _ entry _ := by
    rw [Fs.new_child] at entry
    cases entry

/-- No operation of a guest breaks the shape. -/
theorem Effect.shaped {m : Machine} {op : Op} {fs : Fs} {fds : Table Nat DescPlace}
    (effect : Effect m op fs fds) (shaped : m.fs.Shaped) : fs.Shaped := by
  cases effect with
  | keeps => exact shaped
  | wrote _ bytes data holds => exact shaped.setBytes holds
  | openedRemote => exact shaped
  | openedRoot => exact shaped.openRef _
  | opened place found => exact shaped.openRef _
  | truncated place found holds => exact (shaped.setBytes holds).openRef _
  | created place asked absent landing room =>
    exact (shaped.enter (Fs.childless_of_ne (by simp)) (Fs.resolveParent_isDir landing)).openRef _
  | madeDirectory place landing free room =>
    exact shaped.enter Fs.childless_dir (Fs.resolveParent_isDir landing)
  | symlinked place landing free room =>
    exact shaped.enter (Fs.childless_of_ne (by simp)) (Fs.resolveParent_isDir landing)
  | linked oldPlace newPlace found present notDir writable landing free =>
    refine shaped.addChild (Fs.resolveParent_isDir landing) (shaped.bounded present) ?_ ?_
    · rintro rfl
      rw [shaped.rootDir] at notDir
      cases notDir
    · intro isDir
      rw [notDir] at isDir
      cases isDir
  | renamed oldPlace newPlace leaving entry writable landing =>
    exact shaped.move entry (Fs.resolveParent_isDir landing)
  | unlinked place leaving entry writable allowed =>
    exact shaped.unlink entry (Fs.removable_leaf allowed)
  | closed place => exact shaped.closeRef _
  | closedRemote => exact shaped

/-- Ids only go up, and what is not new was there before. -/
theorem Effect.old {m : Machine} {op : Op} {fs : Fs} {fds : Table Nat DescPlace}
    (effect : Effect m op fs fds) :
    m.fs.next ≤ fs.next ∧ ∀ x, x ∈ fs.nodes → x < m.fs.next → x ∈ m.fs.nodes := by
  have same : ∀ {fs' : Fs}, fs'.next = m.fs.next → (∀ x, x ∈ fs'.nodes → x ∈ m.fs.nodes) →
      m.fs.next ≤ fs'.next ∧ ∀ x, x ∈ fs'.nodes → x < m.fs.next → x ∈ m.fs.nodes :=
    fun next nodes => ⟨next.ge, fun x there _ => nodes x there⟩
  have entered : ∀ {p name node}, m.fs.next ≤ (m.fs.enter p name node).next ∧
      ∀ x, x ∈ (m.fs.enter p name node).nodes → x < m.fs.next → x ∈ m.fs.nodes := by
    intro p name node
    refine ⟨by simp, fun x there old => ?_⟩
    rcases Fs.mem_enter.1 there with rfl | before
    · exact absurd old (lt_irrefl _)
    · exact before
  have put : ∀ {id : Nat} {bytes : Bytes}, m.fs.HoldsBytes id → ∀ x,
      x ∈ (m.fs.setBytes id bytes).nodes → x ∈ m.fs.nodes := by
    intro id bytes holds x there
    rcases (AList.mem_insert _).1 there with rfl | before
    · exact holds.mem
    · exact before
  cases effect with
  | keeps => exact same rfl fun _ there => there
  | wrote _ bytes data holds => exact same rfl (put holds)
  | openedRemote => exact same rfl fun _ there => there
  | openedRoot => exact same rfl fun _ there => there
  | opened place found => exact same rfl fun _ there => there
  | truncated place found holds => exact same rfl (put holds)
  | created place asked absent landing room => exact entered
  | madeDirectory place landing free room => exact entered
  | symlinked place landing free room => exact entered
  | linked oldPlace newPlace found present notDir writable landing free =>
    exact same Fs.alter_next fun x there => Fs.mem_alter.1 there
  | renamed oldPlace newPlace leaving entry writable landing =>
    exact same (by simp [Fs.move, Fs.addChild_eq, Fs.removeChild_eq]) fun x there =>
      Fs.mem_alter.1 (Fs.mem_alter.1 there)
  | @unlinked fd start p id dir path name place leaving entry writable allowed =>
    rcases Fs.unlink_cases p name (Fs.removable_leaf allowed) with ⟨gone, _⟩ | ⟨_, _, drop⟩
    · exact same (by rw [gone]; exact Fs.alter_next) fun x there =>
        Fs.mem_alter.1 (show x ∈ (m.fs.removeChild p name).nodes from gone ▸ there)
    · exact same (drop.next.trans Fs.alter_next) fun x there => Fs.mem_alter.1 (drop.mem_of_mem there)
  | @closed fd id place =>
    rcases Fs.closeRef_cases m.fs id with ⟨nodes, next, _, _⟩ | ⟨_, _, _, drop⟩
    · exact same next fun x there => nodes ▸ there
    · exact same drop.next fun x there => drop.mem_of_mem there
  | closedRemote => exact same rfl fun _ there => there

end Wk.Vfs
