/-
# Wk.Vfs.Names -- the graph of names

A filesystem is read here as a graph: `Names fs d c` when the directory `d` has an
entry for the node `c`.  Each primitive of the filesystem is described once by what
it does to the entries (`child`), to what the nodes are (`nodes.lookup`) and so to
the graph.  Dropping a subtree removes exactly what its root reaches
(`dropSubtree_lookup`).
-/
import Wk.Vfs.Session
import Wk.Library.Ranked

namespace Wk.Vfs

open Wk.Library Relation

set_option autoImplicit false

namespace Fs

variable {fs : Fs}

/-- The directory `d` has an entry for `c`. -/
def Names (fs : Fs) (d c : Nat) : Prop := ∃ name, fs.child d name = some c

/-- `b` is at or below `a`. -/
abbrev Reaches (fs : Fs) : Nat → Nat → Prop := ReflTransGen fs.Names

theorem child_eq {d : Nat} {children : Table String Nat} {name : String}
    (isDir : fs.nodes.lookup d = some (.dir children)) : fs.child d name = children.lookup name := by
  simp only [child, isDir]

theorem child_some {d c : Nat} {name : String} (entry : fs.child d name = some c) :
    ∃ children, fs.nodes.lookup d = some (.dir children) ∧ children.lookup name = some c := by
  unfold child at entry
  split at entry
  · next children isDir => exact ⟨children, isDir, entry⟩
  · cases entry

theorem names_iff {d c : Nat} :
    fs.Names d c ↔ ∃ children, fs.nodes.lookup d = some (.dir children) ∧ c ∈ Table.values children := by
  constructor
  · rintro ⟨name, entry⟩
    obtain ⟨children, isDir, found⟩ := child_some entry
    exact ⟨children, isDir, Table.mem_values.2 ⟨name, found⟩⟩
  · rintro ⟨children, isDir, member⟩
    obtain ⟨name, found⟩ := Table.mem_values.1 member
    exact ⟨name, (child_eq isDir).trans found⟩

theorem Names.mem {d c : Nat} (names : fs.Names d c) : d ∈ fs.nodes := by
  obtain ⟨children, isDir, _⟩ := names_iff.1 names
  exact Table.mem_of_lookup isDir

theorem isDir_iff {id : Nat} :
    fs.isDir id = true ↔ ∃ children, fs.nodes.lookup id = some (.dir children) := by
  unfold isDir
  split
  · next children found => simp [found]
  · next other => simpa using fun children found => other children found

theorem nodeIsReferenced_iff {id : Nat} : fs.nodeIsReferenced id = true ↔ ∃ d, fs.Names d id := by
  simp only [nodeIsReferenced, List.any_eq_true, Table.mem_values]
  constructor
  · rintro ⟨node, ⟨d, found⟩, holds⟩
    cases node with
    | dir children =>
      simp only [List.any_eq_true, decide_eq_true_eq] at holds
      obtain ⟨c, member, rfl⟩ := holds
      exact ⟨d, names_iff.2 ⟨children, found, member⟩⟩
    | _ => simp at holds
  · rintro ⟨d, names⟩
    obtain ⟨children, isDir, member⟩ := names_iff.1 names
    exact ⟨_, ⟨d, isDir⟩, by simpa using member⟩

/-- Nodes that are the same, directory by directory, name the same. -/
theorem child_congr {fs' : Fs} {d : Nat} {name : String}
    (same : fs'.nodes.lookup d = fs.nodes.lookup d) : fs'.child d name = fs.child d name := by
  simp only [child, same]

theorem child_none {d : Nat} (notDir : fs.isDir d = false) (k : String) : fs.child d k = none := by
  unfold child
  split
  · next children found => simp [isDir_iff.2 ⟨children, found⟩] at notDir
  · rfl

theorem isDir_of_child {d c : Nat} {k : String} (entry : fs.child d k = some c) :
    fs.isDir d = true := by
  obtain ⟨children, found, _⟩ := child_some entry
  exact isDir_iff.2 ⟨children, found⟩

/-- A node that names nothing leads nowhere. -/
theorem reaches_leaf {a b : Nat} (leaf : ∀ k, fs.child a k = none) (path : fs.Reaches a b) :
    a = b := by
  cases path using ReflTransGen.head_induction_on with
  | refl => rfl
  | head edge _ =>
    obtain ⟨k, entry⟩ := edge
    rw [leaf k] at entry
    cases entry

/-- Only itself leads to a node nothing names. -/
theorem reaches_unnamed {a b : Nat} (unnamed : fs.nodeIsReferenced b = false)
    (path : fs.Reaches a b) : a = b := by
  cases path with
  | refl => rfl
  | tail _ last =>
    have referenced := nodeIsReferenced_iff.2 ⟨_, last⟩
    rw [unnamed] at referenced
    cases referenced

/-! ## One directory's entries changed -/

/-- Change the entries of the directory `p`, if that is one. -/
def alter (fs : Fs) (p : Nat) (f : Table String Nat → Table String Nat) : Fs :=
  match fs.nodes.lookup p with
  | some (.dir children) => { fs with nodes := fs.nodes.insert p (.dir (f children)) }
  | _ => fs

theorem addChild_eq (p : Nat) (name : String) (c : Nat) :
    fs.addChild p name c = fs.alter p fun children => children.insert name c := rfl

theorem removeChild_eq (p : Nat) (name : String) :
    fs.removeChild p name = fs.alter p fun children => children.erase name := rfl

section Alter

variable {p : Nat} {f : Table String Nat → Table String Nat}

theorem alter_notDir (notDir : fs.isDir p = false) : fs.alter p f = fs := by
  unfold alter
  split
  · next children found => simp [isDir_iff.2 ⟨children, found⟩] at notDir
  · rfl

theorem lookup_alter {x : Nat} (other : x ≠ p) :
    (fs.alter p f).nodes.lookup x = fs.nodes.lookup x := by
  unfold alter
  split
  · exact AList.lookup_insert_ne other
  · rfl

theorem lookup_alter_self {children : Table String Nat}
    (isDir : fs.nodes.lookup p = some (.dir children)) :
    (fs.alter p f).nodes.lookup p = some (.dir (f children)) := by
  simp only [alter, isDir, AList.lookup_insert]

@[simp] theorem isDir_alter (x : Nat) : (fs.alter p f).isDir x = fs.isDir x := by
  by_cases here : x = p
  · subst here
    cases isDir : fs.isDir x with
    | true =>
      obtain ⟨children, found⟩ := isDir_iff.1 isDir
      exact isDir_iff.2 ⟨_, lookup_alter_self found⟩
    | false => rw [alter_notDir isDir, isDir]
  · simp only [Fs.isDir, lookup_alter here]

@[simp] theorem mem_alter {x : Nat} : x ∈ (fs.alter p f).nodes ↔ x ∈ fs.nodes := by
  unfold alter
  split
  · next children found =>
      rw [AList.mem_insert]
      constructor
      · rintro (rfl | member)
        · exact Table.mem_of_lookup found
        · exact member
      · exact .inr
  · rfl

@[simp] theorem alter_next : (fs.alter p f).next = fs.next := by unfold alter; split <;> rfl

@[simp] theorem alter_readonly : (fs.alter p f).readonly = fs.readonly := by
  unfold alter; split <;> rfl

@[simp] theorem alter_openFds : (fs.alter p f).openFds = fs.openFds := by
  unfold alter; split <;> rfl

end Alter

theorem child_addChild {p c : Nat} {name : String} (isDir : fs.isDir p = true) (d : Nat)
    (k : String) :
    (fs.addChild p name c).child d k = if d = p ∧ k = name then some c else fs.child d k := by
  obtain ⟨children, found⟩ := isDir_iff.1 isDir
  rw [addChild_eq]
  by_cases here : d = p
  · subst here
    rw [child_eq (lookup_alter_self found), child_eq found, Table.lookup_insert_eq]
    simp
  · rw [child_congr (lookup_alter here)]
    simp [here]

theorem child_removeChild (p : Nat) (name : String) (d : Nat) (k : String) :
    (fs.removeChild p name).child d k = if d = p ∧ k = name then none else fs.child d k := by
  rw [removeChild_eq]
  by_cases here : d = p
  · subst here
    cases isDir : fs.isDir d with
    | true =>
      obtain ⟨children, found⟩ := isDir_iff.1 isDir
      rw [child_eq (lookup_alter_self found), child_eq found, Table.lookup_erase_eq]
      simp
    | false => rw [alter_notDir isDir, child_none isDir, ite_self]
  · rw [child_congr (lookup_alter here)]
    simp [here]

/-! ## A node's bytes, a new node -/

theorem child_setBytes {id : Nat} {bytes : Bytes} (notDir : fs.isDir id = false) (d : Nat)
    (k : String) : (fs.setBytes id bytes).child d k = fs.child d k := by
  by_cases here : d = id
  · subst here
    rw [child_none notDir]
    simp [child, setBytes, AList.lookup_insert]
  · exact child_congr (AList.lookup_insert_ne here)

theorem isDir_setBytes {id : Nat} {bytes : Bytes} (notDir : fs.isDir id = false) (d : Nat) :
    (fs.setBytes id bytes).isDir d = fs.isDir d := by
  by_cases here : d = id
  · subst here
    rw [notDir]
    simp [isDir, Fs.setBytes, AList.lookup_insert]
  · simp only [isDir, Fs.setBytes, AList.lookup_insert_ne here]

/-! ## Dropping subtrees -/

/-- `fs'` is `fs` without the nodes some root reaches. -/
structure Dropped (fs fs' : Fs) (roots : List Nat) : Prop where
  kept : ∀ {x node}, fs'.nodes.lookup x = some node → fs.nodes.lookup x = some node
  gone : ∀ {x}, x ∈ roots → x ∉ fs'.nodes
  below : ∀ {x c}, x ∉ fs'.nodes → fs.Names x c → c ∉ fs'.nodes
  reached : ∀ {x}, x ∈ fs.nodes → x ∉ fs'.nodes → ∃ root ∈ roots, fs.Reaches root x
  next : fs'.next = fs.next
  readonly : fs'.readonly = fs.readonly
  openFds : fs'.openFds = fs.openFds

namespace Dropped

variable {fs' : Fs} {roots : List Nat}

protected theorem refl (fs : Fs) : Dropped fs fs [] where
  kept found := found
  gone member := absurd member List.not_mem_nil
  below absent names := absurd names.mem absent
  reached present absent := absurd present absent
  next := rfl
  readonly := rfl
  openFds := rfl

theorem mem_of_mem (dropped : Dropped fs fs' roots) {x : Nat} (member : x ∈ fs'.nodes) :
    x ∈ fs.nodes := by
  obtain ⟨node, found⟩ := Table.mem_iff_lookup.1 member
  exact Table.mem_of_lookup (dropped.kept found)

theorem lookup_of_mem (dropped : Dropped fs fs' roots) {x : Nat} (member : x ∈ fs'.nodes) :
    fs'.nodes.lookup x = fs.nodes.lookup x := by
  obtain ⟨node, found⟩ := Table.mem_iff_lookup.1 member
  rw [found, dropped.kept found]

theorem child_of_mem (dropped : Dropped fs fs' roots) {d : Nat} (member : d ∈ fs'.nodes)
    (name : String) : fs'.child d name = fs.child d name :=
  child_congr (dropped.lookup_of_mem member)

theorem names_of (dropped : Dropped fs fs' roots) {d c : Nat} (names : fs'.Names d c) :
    fs.Names d c := by
  obtain ⟨name, entry⟩ := names
  exact ⟨name, (dropped.child_of_mem (Names.mem ⟨name, entry⟩) name).symm.trans entry⟩

theorem trans {fs'' : Fs} {more : List Nat} (first : Dropped fs fs' roots)
    (second : Dropped fs' fs'' more) : Dropped fs fs'' (roots ++ more) where
  kept found := first.kept (second.kept found)
  gone {x} member := by
    rcases List.mem_append.1 member with here | there
    · exact fun present => first.gone here (second.mem_of_mem present)
    · exact second.gone there
  below {x c} absent names := by
    by_cases between : x ∈ fs'.nodes
    · obtain ⟨name, entry⟩ := names
      exact second.below absent ⟨name, (first.child_of_mem between name).trans entry⟩
    · exact fun present => first.below between names (second.mem_of_mem present)
  reached {x} present absent := by
    by_cases between : x ∈ fs'.nodes
    · obtain ⟨root, member, path⟩ := second.reached between absent
      exact ⟨root, List.mem_append_right _ member,
        ReflTransGen.mono (fun _ _ names => first.names_of names) _ _ path⟩
    · obtain ⟨root, member, path⟩ := first.reached present between
      exact ⟨root, List.mem_append_left _ member, path⟩
  next := second.next.trans first.next
  readonly := second.readonly.trans first.readonly
  openFds := second.openFds.trans first.openFds

/-- Everything a root reaches is gone, and nothing else. -/
theorem mem_iff (dropped : Dropped fs fs' roots) {x : Nat} :
    x ∈ fs'.nodes ↔ x ∈ fs.nodes ∧ ∀ root ∈ roots, ¬ fs.Reaches root x := by
  constructor
  · intro present
    refine ⟨dropped.mem_of_mem present, fun root member path => ?_⟩
    exact reaches_within path (dropped.gone member)
      (fun _ _ absent names => dropped.below absent names) present
  · rintro ⟨present, apart⟩
    by_contra absent
    obtain ⟨root, member, path⟩ := dropped.reached present absent
    exact apart root member path

end Dropped

theorem length_erase_lt {β : Type} {t : Table Nat β} {id : Nat} (present : id ∈ t) :
    (t.erase id).entries.length < t.entries.length := by
  have keys : (t.erase id).keys.length < t.keys.length := by
    rw [AList.keys_erase, List.length_erase_of_mem (AList.mem_keys.1 present)]
    exact Nat.sub_lt (List.length_pos_of_mem (AList.mem_keys.1 present)) Nat.one_pos
  simpa [AList.keys, List.keys] using keys

/-- Erasing one node drops it, if nothing is below it. -/
theorem dropped_erase {id : Nat} (leaf : ∀ c, ¬ fs.Names id c) :
    Dropped fs { fs with nodes := fs.nodes.erase id } [id] where
  kept {x node} found := by
    rw [Table.lookup_erase_eq] at found
    split at found
    · cases found
    · exact found
  gone {x} member := by
    rw [List.mem_singleton.1 member, AList.mem_erase]
    exact fun present => present.1 rfl
  below {x c} absent names := by
    have here : x = id := by
      by_contra other
      exact absent (AList.mem_erase.2 ⟨other, names.mem⟩)
    exact absurd (here ▸ names) (leaf c)
  reached {x} present absent := by
    have here : x = id := by
      by_contra other
      exact absent (AList.mem_erase.2 ⟨other, present⟩)
    exact ⟨id, List.mem_singleton.2 rfl, here ▸ .refl⟩
  next := rfl
  readonly := rfl
  openFds := rfl

/-- Erasing a directory and then dropping its children drops it. -/
theorem dropped_dir {fs' : Fs} {id : Nat} {children : Table String Nat}
    (found : fs.nodes.lookup id = some (.dir children))
    (rest : Dropped { fs with nodes := fs.nodes.erase id } fs' (Table.values children)) :
    Dropped fs fs' [id] where
  kept {x node} here := by
    have erased := rest.kept here
    simp only [Table.lookup_erase_eq] at erased
    split at erased
    · cases erased
    · exact erased
  gone {x} member present := by
    have inErased := rest.mem_of_mem present
    rw [List.mem_singleton.1 member] at inErased
    exact (AList.mem_erase.1 inErased).1 rfl
  below {x c} absent names := by
    by_cases here : x = id
    · subst here
      obtain ⟨children', isDir, member⟩ := names_iff.1 names
      rw [found] at isDir
      cases isDir
      exact rest.gone member
    · obtain ⟨name, entry⟩ := names
      refine rest.below absent ⟨name, ?_⟩
      rw [← entry]
      exact child_congr (AList.lookup_erase_ne here)
  reached {x} present absent := by
    by_cases here : x = id
    · exact ⟨id, List.mem_singleton.2 rfl, here ▸ .refl⟩
    · obtain ⟨child, member, path⟩ := rest.reached (AList.mem_erase.2 ⟨here, present⟩) absent
      have inside : ∀ a b, Names { fs with nodes := fs.nodes.erase id } a b → fs.Names a b := by
        rintro a b ⟨name, entry⟩
        have notHere : a ≠ id := (AList.mem_erase.1 (Names.mem ⟨name, entry⟩)).1
        exact ⟨name, (child_congr (AList.lookup_erase_ne notHere)).symm.trans entry⟩
      exact ⟨id, List.mem_singleton.2 rfl,
        .head (names_iff.2 ⟨children, found, member⟩) (ReflTransGen.mono inside _ _ path)⟩
  next := rest.next
  readonly := rest.readonly
  openFds := rest.openFds

/-- A loop that drops one subtree after another drops them all. -/
theorem dropped_foldl {drop : Fs → Nat → Fs} {bound : Nat}
    (one : ∀ fs id, fs.nodes.entries.length ≤ bound → Dropped fs (drop fs id) [id])
    (fewer : ∀ fs id, (drop fs id).nodes.entries.length ≤ fs.nodes.entries.length) :
    ∀ (roots : List Nat) (fs : Fs), fs.nodes.entries.length ≤ bound →
      Dropped fs (roots.foldl drop fs) roots
  | [], fs, _ => .refl fs
  | id :: rest, fs, small => by
    have first := one fs id small
    have smaller : (drop fs id).nodes.entries.length ≤ bound := (fewer fs id).trans small
    exact first.trans (dropped_foldl one fewer rest (drop fs id) smaller)

theorem dropSubtree_length (fuel : Nat) :
    ∀ (fs : Fs) (id : Nat),
      (dropSubtree fuel fs id).nodes.entries.length ≤ fs.nodes.entries.length := by
  induction fuel with
  | zero => exact fun fs id => le_rfl
  | succ fuel ih =>
    intro fs id
    have erased : (fs.nodes.erase id).entries.length ≤ fs.nodes.entries.length :=
      (List.kerase_sublist id fs.nodes.entries).length_le
    have loop : ∀ (children : List Nat) (fs : Fs),
        (children.foldl (fun fs child => dropSubtree fuel fs child) fs).nodes.entries.length ≤
          fs.nodes.entries.length := by
      intro children
      induction children with
      | nil => exact fun fs => le_rfl
      | cons child rest rests => exact fun fs => (rests _).trans (ih fs child)
    unfold dropSubtree
    split
    · exact (loop _ _).trans erased
    · exact erased

/-- With as much fuel as there are nodes, dropping a subtree removes exactly what its
root reaches: each level of the recursion removes a node that was there. -/
theorem dropSubtree_dropped (fuel : Nat) :
    ∀ (fs : Fs) (id : Nat), fs.nodes.entries.length ≤ fuel → Dropped fs (dropSubtree fuel fs id) [id] := by
  induction fuel with
  | zero =>
    intro fs id small
    have empty : ∀ x, x ∉ fs.nodes := by
      intro x member
      have rows := List.length_pos_of_mem (AList.mem_keys.1 member)
      simp only [AList.keys, List.keys, List.length_map] at rows
      omega
    exact
      { kept := fun found => found
        gone := fun _ => empty _
        below := fun _ _ => empty _
        reached := fun present => absurd present (empty _)
        next := rfl
        readonly := rfl
        openFds := rfl }
  | succ fuel ih =>
    intro fs id small
    unfold dropSubtree
    split
    · next children found =>
        have present : id ∈ fs.nodes := Table.mem_of_lookup found
        have smaller : (fs.nodes.erase id).entries.length ≤ fuel := by
          have := length_erase_lt present
          omega
        have rest := dropped_foldl ih
          (dropSubtree_length fuel) (Table.values children)
          { fs with nodes := fs.nodes.erase id } smaller
        exact dropped_dir found rest
    · next notDir =>
        apply dropped_erase
        intro c names
        obtain ⟨children, isDir, _⟩ := names_iff.1 names
        exact notDir children isDir

end Fs

end Wk.Vfs
