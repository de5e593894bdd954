/-
# Wk.Vfs.Snapshots -- every path of a filesystem, and what can be read at one

A snapshot lists the paths of a filesystem with their kinds, in the order of a `BTreeMap`;
devices and provider mounts are no content and left out.

* `mem_snapshot`: the paths listed are those that lead to content, by names.
* `Rootfs`: a filesystem in the shape that every turn of guest and host keeps.
-/
import Wk.Vfs.Layers
import Wk.Vfs.Listing

namespace Wk.Vfs

open Wk.Library

set_option autoImplicit false

/-- What kind of content a path holds. -/
inductive PathKind
  | dir | layerFile | privateFile | mounted
  | symlink (target : String)
  deriving DecidableEq

/-- Devices and provider mounts are provisioned at run time, not content. -/
def FsNode.pathKind : FsNode → Option PathKind
  | .dir _ => some .dir
  | .roFile _ => some .layerFile
  | .file _ => some .privateFile
  | .shared _ | .host _ => some .mounted
  | .symlink target => some (.symlink target)
  | .null | .zero | .random | .provider _ => none

/-- The largest allocation. -/
def isizeMax : Nat := 2 ^ 63 - 1

def usizeMax : Nat := 2 ^ 64 - 1

namespace Fs

def underPrefix (pre name : String) : String := if pre = "" then name else pre ++ "/" ++ name

/-- What is below a directory, level by level. -/
def snapshotRows (fs : Fs) : Nat → Nat → String → List (String × PathKind)
  | 0, _, _ => []
  | fuel + 1, dir, pre =>
    match fs.nodes.lookup dir with
    | some (.dir children) =>
      (Table.rows children).flatMap fun row =>
        match (fs.nodes.lookup row.2).bind FsNode.pathKind with
        | some kind =>
          (underPrefix pre row.1, kind) ::
            if kind = .dir then fs.snapshotRows fuel row.2 (underPrefix pre row.1) else []
        | none => []
    | _ => []

/-- Every path with its kind; no path is longer than there are nodes. -/
def snapshot (fs : Fs) : List (String × PathKind) :=
  (Table.rows (Table.ofRows (fs.snapshotRows fs.nodes.entries.length root ""))).mergeSort fun a b => a.1 ≤ b.1

/-- Read up to `cap` bytes of the file at a path, following links.  A file of the host is read into
a buffer of `cap` bytes, which cannot be had above `isizeMax`. -/
def readFile (fs : Fs) (b : Backing) (path : String) (cap : Nat) : Option Bytes :=
  (fs.resolve (components path)).bind fun id =>
    match fs.nodes.lookup id with
    | some (.file data) => some (data.take cap)
    | some (.roFile i) => some ((b.layer i).take cap)
    | some (.shared cell) => some ((b.cell cell).take cap)
    | some (.host p) => if cap ≤ isizeMax then (b.disk.lookup p).map (List.take cap) else none
    | some .null | some .zero | some .random => some []
    | some (.symlink _) | some (.dir _) | some (.provider _) | none => none

variable {fs : Fs}

/-- The node at an address. -/
def nodeAt (fs : Fs) (names : List String) : Option FsNode := (fs.address names).bind fs.nodes.lookup

/-- The kind of content at an address. -/
def kindAt (fs : Fs) (names : List String) : Option PathKind := (fs.nodeAt names).bind FsNode.pathKind

theorem underPrefix_join {pre : List String} (named : ∀ name ∈ pre, IsName name) (name : String) :
    underPrefix (joinSlash pre) name = joinSlash (pre ++ [name]) := by
  by_cases none_left : pre = []
  · subst none_left
    exact (String.intercalate_singleton ..).symm
  · rw [underPrefix, if_neg (joinSlash_ne_empty none_left named), joinSlash, joinSlash,
      String.intercalate_append_of_ne_nil none_left (by simp), String.intercalate_singleton]

theorem joinSlash_inj {p q : List String} (named : ∀ name ∈ p, IsName name) (named' : ∀ name ∈ q, IsName name)
    (same : joinSlash p = joinSlash q) : p = q := by
  rw [← components_joinSlash named, same, components_joinSlash named']

/-- Only directories have something below. -/
theorem kind_of_below {x y : Nat} {name : String} (entry : fs.child x name = some y) :
    (fs.nodes.lookup x).bind FsNode.pathKind = some .dir := by
  obtain ⟨children, found, _⟩ := child_some entry
  rw [found]
  rfl

/-- What is listed below a directory is what names lead to. -/
theorem mem_snapshotRows (named : fs.NamesFit IsName) {kind : PathKind} {path : String} :
    ∀ {fuel dir : Nat} {pre : List String}, (∀ name ∈ pre, IsName name) →
      ((path, kind) ∈ fs.snapshotRows fuel dir (joinSlash pre) ↔
        ∃ names, names ≠ [] ∧ names.length ≤ fuel ∧ path = joinSlash (pre ++ names) ∧
          ∃ x, fs.descend dir names = some x ∧ (fs.nodes.lookup x).bind FsNode.pathKind = some kind)
  | 0, dir, pre, _ => by
    simp only [snapshotRows, List.not_mem_nil, false_iff]
    rintro ⟨names, some_left, short, _⟩
    exact some_left (List.length_eq_zero_iff.1 (by omega))
  | fuel + 1, dir, pre, inPre => by
    have further : ∀ {name id}, fs.child dir name = some id → ∀ n ∈ pre ++ [name], IsName n := by
      intro name id entry n member
      rcases List.mem_append.1 member with before | last
      · exact inPre n before
      · exact List.mem_singleton.1 last ▸ named dir name id entry
    by_cases isDir : fs.isDir dir = true
    · obtain ⟨children, found⟩ := isDir_iff.1 isDir
      have entries : ∀ name id, (name, id) ∈ Table.rows children ↔ fs.child dir name = some id := fun name id =>
        Table.mem_rows.trans (by rw [child_eq found])
      simp only [snapshotRows, found, List.mem_flatMap]
      constructor
      · rintro ⟨⟨name, id⟩, member, listed⟩
        have entry := (entries name id).1 member
        dsimp only at listed
        split at listed
        · next kind' there =>
            rcases List.mem_cons.1 listed with here | below
            · cases here
              refine ⟨[name], by simp, by simp, underPrefix_join inPre name, id, ?_, there⟩
              rw [descend, entry]
              rfl
            · split at below
              · rw [underPrefix_join inPre] at below
                obtain ⟨names, _, short, rfl, x, leads, content⟩ := (mem_snapshotRows named (further entry)).1 below
                refine ⟨name :: names, by simp, by simpa using short, by simp, x, ?_, content⟩
                rw [descend, entry]
                exact leads
              · cases below
        · cases listed
      · rintro ⟨names, some_left, short, rfl, x, leads, content⟩
        obtain ⟨name, rest, rfl⟩ := List.exists_cons_of_ne_nil some_left
        obtain ⟨id, entry, onward⟩ := Option.bind_eq_some_iff.1 leads
        refine ⟨(name, id), (entries name id).2 entry, ?_⟩
        dsimp only
        by_cases last : rest = []
        · subst last
          cases onward
          rw [content, underPrefix_join inPre]
          exact List.mem_cons_self
        · obtain ⟨name', rest', rfl⟩ := List.exists_cons_of_ne_nil last
          obtain ⟨id', entry', _⟩ := Option.bind_eq_some_iff.1 onward
          rw [kind_of_below entry', underPrefix_join inPre]
          refine List.mem_cons_of_mem _ ?_
          rw [if_pos rfl]
          exact (mem_snapshotRows named (further entry)).2
            ⟨name' :: rest', by simp, by simpa using short, by simp, x, onward, content⟩
    · have noChild : ∀ name, fs.child dir name = none := child_none (by simpa using isDir)
      have nothing : fs.snapshotRows (fuel + 1) dir (joinSlash pre) = [] := by
        unfold snapshotRows
        split
        · next children found => exact absurd (isDir_iff.2 ⟨children, found⟩) isDir
        · rfl
      rw [nothing]
      simp only [List.not_mem_nil, false_iff]
      rintro ⟨names, some_left, _, _, x, leads, _⟩
      obtain ⟨name, rest, rfl⟩ := List.exists_cons_of_ne_nil some_left
      rw [descend, noChild] at leads
      cases leads

/-- A path is no longer than there are nodes: the directories on it are distinct. -/
theorem address_length (shaped : fs.Shaped) {names : List String} {x : Nat} (here : fs.address names = some x) :
    names.length ≤ fs.nodes.entries.length := by
  have dirs : ∀ i, i < names.length → ∃ d, fs.address (names.take i) = some d ∧ fs.isDir d = true := by
    intro i short
    have split : names = names.take i ++ names.drop i := (List.take_append_drop i names).symm
    rw [split, address_append] at here
    obtain ⟨d, up, down⟩ := Option.bind_eq_some_iff.1 here
    obtain ⟨name, rest, left⟩ := List.exists_cons_of_ne_nil (List.ne_nil_of_length_pos (by simpa using short) : names.drop i ≠ [])
    rw [left] at down
    obtain ⟨_, entry, _⟩ := Option.bind_eq_some_iff.1 down
    exact ⟨d, up, isDir_of_child entry⟩
  have inside : (Finset.range names.length).image (fun i => (fs.address (names.take i)).getD root) ⊆ fs.nodes.keys.toFinset := by
    intro d member
    obtain ⟨i, short, rfl⟩ := Finset.mem_image.1 member
    obtain ⟨d, up, isDir⟩ := dirs i (Finset.mem_range.1 short)
    rw [up]
    exact List.mem_toFinset.2 (AList.mem_keys.1 (mem_of_isDir isDir))
  have apart : Set.InjOn (fun i => (fs.address (names.take i)).getD root) (Finset.range names.length) := by
    intro i short j short' same
    obtain ⟨d, up, isDir⟩ := dirs i (Finset.mem_range.1 short)
    obtain ⟨d', up', _⟩ := dirs j (Finset.mem_range.1 short')
    simp only [up, up', Option.getD_some] at same
    have lengths := congrArg List.length (shaped.address_unique isDir up (same ▸ up'))
    have bound := Finset.mem_range.1 short
    have bound' := Finset.mem_range.1 short'
    simp only [List.length_take] at lengths
    omega
  calc names.length = ((Finset.range names.length).image fun i => (fs.address (names.take i)).getD root).card := by
        rw [Finset.card_image_of_injOn apart, Finset.card_range]
    _ ≤ fs.nodes.keys.toFinset.card := Finset.card_le_card inside
    _ = fs.nodes.keys.length := List.toFinset_card_of_nodup fs.nodes.keys_nodup
    _ = fs.nodes.entries.length := by simp [AList.keys, List.keys]

/-- The names of an address are names. -/
theorem address_named (named : fs.NamesFit IsName) : ∀ {names : List String} {cur x : Nat}, fs.descend cur names = some x →
    ∀ name ∈ names, IsName name
  | [], _, _, _ => nofun
  | name :: names, cur, x, leads => by
    obtain ⟨id, entry, onward⟩ := Option.bind_eq_some_iff.1 leads
    intro n member
    rcases List.mem_cons.1 member with rfl | later
    · exact named cur n id entry
    · exact address_named named onward n later

/-- The snapshot lists what has an address below the root, and is content. -/
theorem mem_snapshot (shaped : fs.Shaped) (named : fs.NamesFit IsName) {path : String} {kind : PathKind} :
    (path, kind) ∈ fs.snapshot ↔ ∃ names, names ≠ [] ∧ path = joinSlash names ∧ fs.kindAt names = some kind := by
  have rows : ∀ path kind, (path, kind) ∈ fs.snapshotRows fs.nodes.entries.length root "" ↔
      ∃ names, names ≠ [] ∧ path = joinSlash names ∧ fs.kindAt names = some kind := by
    intro path kind
    refine (@mem_snapshotRows fs named kind path _ root [] nofun).trans (exists_congr fun names => and_congr_right fun _ => ?_)
    constructor
    · rintro ⟨_, same, x, leads, content⟩
      refine ⟨same, ?_⟩
      rw [kindAt, nodeAt, show fs.address names = some x from leads]
      exact content
    · rintro ⟨same, content⟩
      obtain ⟨node, found, kind⟩ := Option.bind_eq_some_iff.1 content
      obtain ⟨x, leads, stored⟩ := Option.bind_eq_some_iff.1 found
      exact ⟨address_length shaped leads, same, x, leads, by rw [stored]; exact kind⟩
  have once : ∀ path kind kind', (path, kind) ∈ fs.snapshotRows fs.nodes.entries.length root "" →
      (path, kind') ∈ fs.snapshotRows fs.nodes.entries.length root "" → kind = kind' := by
    intro path kind kind' first second
    obtain ⟨names, _, same, content⟩ := (rows _ _).1 first
    obtain ⟨names', _, same', content'⟩ := (rows _ _).1 second
    have inNames : ∀ {names kind}, fs.kindAt names = some kind → ∀ name ∈ names, IsName name := by
      intro names kind content
      obtain ⟨node, found, _⟩ := Option.bind_eq_some_iff.1 content
      obtain ⟨x, leads, _⟩ := Option.bind_eq_some_iff.1 found
      exact address_named named leads
    have together := joinSlash_inj (inNames content) (inNames content') (same.symm.trans same')
    rw [together, content'] at content
    exact (Option.some.inj content).symm
  rw [snapshot, List.mem_mergeSort, Table.mem_rows, ← rows]
  exact Table.lookup_ofRows once

end Fs

/-- A filesystem in the shape that every turn of guest and host keeps. -/
structure Rootfs where
  fs : Fs
  shaped : fs.Shaped
  named : fs.NamesFit IsName

/-- What guest and host make of an empty filesystem. -/
def Rootfs.ofRun (backing : Backing) (turns : List Turn) : Rootfs :=
  have kept : ∀ turns : List Turn, ∀ m : Machine, m.fs.Shaped ∧ m.fs.NamesFit IsName →
      (m.run turns).fs.Shaped ∧ (m.run turns).fs.NamesFit IsName := fun turns => by
    induction turns with
    | nil => exact fun _ kept => kept
    | cons turn turns ih =>
      exact fun m kept => ih (m.turn turn) ⟨Machine.turn_shaped turn kept.1, Machine.turn_named kept.1 kept.2⟩
  have start : Fs.new.Shaped ∧ Fs.new.NamesFit IsName :=
    ⟨.new, fun d k c entry => absurd (Fs.new_child d k ▸ entry) nofun⟩
  { fs := ((Machine.boot Fs.new backing).run turns).fs
    shaped := (kept turns _ start).1
    named := (kept turns _ start).2 }

end Wk.Vfs
