/-
# Wk.Vfs.OpenFiles -- a file lives as long as it is open

A regular file that some descriptor is open onto should stay, with the bytes last
written, whatever happens to its names.  Unlinking looks at the count of descriptors
before it frees a node.  Closing the last descriptor onto a directory without a name
frees all that is below it, and looks at the directory only; `SparesOpen` is the
condition that no file below is open or named elsewhere.
-/
import Wk.Vfs.Deeds
import Wk.Vfs.Descriptors
import Wk.Library.Run

namespace Wk.Vfs

open Wk.Library Wk.Provider Relation

set_option autoImplicit false

/-- A filesystem as the host prepares it for a guest. -/
def Fs.hosted (ops : List HostOp) : Fs := ops.foldl Fs.host Fs.new

theorem Fs.host_prepared {fs : Fs} (shaped : fs.Shaped) (closed : fs.openFds = ∅)
    (op : HostOp) : (fs.host op).Shaped ∧ (fs.host op).openFds = ∅ := by
  have moves := Fs.host_moves shaped op
  refine ⟨Fs.hostMoves_shaped moves shaped, ?_⟩
  exact reaches_within (P := fun fs => fs.openFds = ∅) moves closed
    fun _ _ closed move => move.openFds.trans closed

theorem Fs.hosted_prepared (ops : List HostOp) :
    (Fs.hosted ops).Shaped ∧ (Fs.hosted ops).openFds = ∅ := by
  suffices prepared : ∀ (ops : List HostOp) (fs : Fs), fs.Shaped → fs.openFds = ∅ →
      (ops.foldl Fs.host fs).Shaped ∧ (ops.foldl Fs.host fs).openFds = ∅ from
    prepared ops Fs.new .new rfl
  intro ops
  induction ops with
  | nil => exact fun fs shaped closed => ⟨shaped, closed⟩
  | cons op rest ih =>
    intro fs shaped closed
    obtain ⟨shaped', closed'⟩ := Fs.host_prepared shaped closed op
    exact ih (fs.host op) shaped' closed'

namespace Machine

variable {m : Machine}

/-- The node whose subtree closing a descriptor frees. -/
def frees (m : Machine) : Op → Option Nat
  | .close fd =>
    match m.fds.lookup fd with
    | some (.node id) =>
      if m.fs.openCount id ≤ 1 && id ≠ root && !m.fs.nodeIsReferenced id then some id else none
    | _ => none
  | _ => none

/-- No regular file below what a close frees is open, or named from elsewhere. -/
structure SparesOpen (m : Machine) (op : Op) : Prop where
  shut : ∀ {id x}, m.frees op = some id → m.fs.Reaches id x → x ≠ id → (m.store x).isSome = true →
    m.held x = 0
  inside : ∀ {id x d}, m.frees op = some id → m.fs.Reaches id x → x ≠ id → (m.store x).isSome = true →
    m.fs.Names d x → m.fs.Reaches id d

/-- A regular file disappears only when nothing names it and nothing is open onto it. -/
theorem step_frees {op : Op} {env : Env} {x : Nat} (spares : m.SparesOpen op) (tallied : m.Tallied)
    (file : (m.store x).isSome = true) (gone : x ∉ (m.step env op).1.fs.nodes) :
    (m.step env op).1.fs.nodeIsReferenced x = false ∧ (m.step env op).1.held x = 0 := by
  obtain ⟨s, store⟩ := Option.isSome_iff_exists.1 file
  have present : x ∈ m.fs.nodes := (store_some store).1
  have tallied' := step_tallied env op tallied
  have effect := (m.step_effect env op).effect
  rw [← tallied'.openCount]
  generalize (m.step env op).1.fs = fs at *
  generalize (m.step env op).1.fds = fds at *
  have unreferenced : ∀ {fs : Fs}, (∀ d, ¬ fs.Names d x) → fs.nodeIsReferenced x = false := by
    intro fs unnamed
    by_contra named
    obtain ⟨d, names⟩ := Fs.nodeIsReferenced_iff.1 (by simpa using named)
    exact unnamed d names
  cases effect with
  | keeps => exact absurd present gone
  | wrote _ bytes data holds => exact absurd ((AList.mem_insert _).2 (.inr present)) gone
  | openedRemote => exact absurd present gone
  | openedRoot => exact absurd present gone
  | opened place found => exact absurd present gone
  | truncated place found holds => exact absurd ((AList.mem_insert _).2 (.inr present)) gone
  | created place asked absent landing room => exact absurd (Fs.mem_enter.2 (.inr present)) gone
  | madeDirectory place landing free room => exact absurd (Fs.mem_enter.2 (.inr present)) gone
  | symlinked place landing free room => exact absurd (Fs.mem_enter.2 (.inr present)) gone
  | linked oldPlace newPlace found present' notDir writable landing free =>
    exact absurd (by simpa [Fs.addChild_eq] using present) gone
  | renamed oldPlace newPlace leaving entry writable landing =>
    exact absurd (by simpa [Fs.move, Fs.addChild_eq, Fs.removeChild_eq] using present) gone
  | @unlinked fd start p id dir path name place leaving entry writable allowed =>
    have leaf := Fs.removable_leaf allowed
    have present' : x ∈ (m.fs.removeChild p name).nodes := by
      simpa [Fs.removeChild_eq] using present
    rcases Fs.unlink_cases p name leaf with ⟨same, _⟩ | ⟨free, shut, drop⟩
    · rw [same] at gone
      exact absurd present' gone
    · -- only the node itself goes: it names nothing
      obtain ⟨r, root, path⟩ := drop.reached present' gone
      rw [List.mem_singleton.1 root] at path
      have here : id = x := by
        refine Fs.reaches_leaf (fun k => ?_) path
        rw [Fs.child_removeChild, leaf k, ite_self]
      subst here
      refine ⟨unreferenced fun d names => ?_, ?_⟩
      · rw [Fs.nodeIsReferenced_iff.2 ⟨d, drop.names_of names⟩] at free
        cases free
      · rw [Fs.openCount, Fs.unlink_openFds]
        exact shut
  | @closed fd id place =>
    rcases Fs.closeRef_cases m.fs id with ⟨nodes, _, _, _⟩ | ⟨few, notRoot, free, drop⟩
    · rw [nodes] at gone
      exact absurd present gone
    · have frees : m.frees (.close fd) = some id := by
        simp [Machine.frees, place, few, notRoot, free]
      obtain ⟨r, root, path⟩ := drop.reached present gone
      rw [List.mem_singleton.1 root] at path
      have counts : ∀ y, (m.fs.closeRef id).openCount y =
          if y = id then 0 else m.fs.openCount y := by
        intro y
        simp only [Fs.openCount, drop.openFds, Table.lookup_erase_eq]
        split <;> rfl
      by_cases here : x = id
      · subst here
        refine ⟨unreferenced fun d names => ?_, by rw [counts, if_pos rfl]⟩
        have before : m.fs.Names d x := drop.names_of names
        rw [Fs.nodeIsReferenced_iff.2 ⟨d, before⟩] at free
        cases free
      · refine ⟨unreferenced fun d names => ?_, ?_⟩
        · have before : m.fs.Names d x := drop.names_of names
          have below := spares.inside frees path here file before
          exact (drop.mem_iff.1 names.mem).2 id (List.mem_singleton.2 rfl) below
        · rw [counts, if_neg here, tallied.openCount]
          exact spares.shut frees path here file
  | closedRemote => exact absurd present gone

/-! ## Whole sessions -/

/-- What becomes of the bytes of `s` in a session: each deed done in turn. -/
def ledger (s : Store) : Machine → List (Op × Env) → Bytes → Bytes
  | _, [], data => data
  | m, asked :: rest, data =>
    ledger s (m.ask asked) rest (amended (m.deed asked.2 asked.1) s data)

/-- A file that stays open stays, with the bytes its deeds left. -/
theorem session_stored {ops : List (Op × Env)} {x : Nat} {s : Store}
    (spares : Along ask (fun m asked => m.SparesOpen asked.1) m ops) (shaped : m.fs.Shaped)
    (tallied : m.Tallied) (file : m.store x = some s)
    (opened : ∀ mid rest, ops = mid ++ rest → 0 < (m.session mid).held x) :
    (m.session ops).store x = some s ∧
      (m.session ops).stored s = m.ledger s ops (m.stored s) := by
  induction ops generalizing m with
  | nil => exact ⟨file, rfl⟩
  | cons asked rest ih =>
    have wrote : m.Wrote (m.deed asked.2 asked.1) (m.ask asked) :=
      step_wrote asked.2 asked.1 shaped
    have stays : x ∈ (m.ask asked).fs.nodes := by
      by_contra gone
      have shut := (step_frees spares.1 tallied (by simp [file]) gone).2
      exact absurd (opened [asked] rest rfl) (by simpa [session, ask] using shut)
    have lasting : m.Lasting (m.ask asked) s := by
      cases s with
      | node i =>
        obtain ⟨rfl, _⟩ := store_node_iff.1 file
        exact ⟨file, stays⟩
      | cell cell => trivial
      | file path => trivial
    have later := ih spares.2 ((m.step_effect asked.2 asked.1).effect.shaped shaped)
      (step_tallied asked.2 asked.1 tallied) (wrote.stores file stays) fun mid rest' split =>
        opened (asked :: mid) rest' (by rw [split]; rfl)
    refine ⟨later.1, later.2.trans ?_⟩
    rw [wrote.bytes lasting, ledger]

/-- What a read of an open regular file answers. -/
theorem read_stored {fd len offset x : Nat} {s : Store} (env : Env)
    (place : m.fds.lookup fd = some (.node x)) (file : m.store x = some s) :
    (m.step env (.read fd len offset)).2 =
      .data (readAt (m.stored s) offset (min len fileReadChunk)).1
        (readAt (m.stored s) offset (min len fileReadChunk)).2 := by
  have contents : m.contents x = some (m.stored s) := by rw [contents_eq, file, Option.map_some]
  simp only [step, read, place, contents]

/-- **A file lives as long as it is open.** In every session, on a filesystem the host
has prepared, whose closes spare open files: a regular file that some descriptor is open
onto from some time on stays to the end with the bytes its deeds left, and that is what
every read through a descriptor onto it answers; and a regular file that goes has neither
an entry nor a descriptor. -/
theorem session_keeps_open_files {setup : List HostOp} {backing : Backing} {ops : List (Op × Env)}
    (spares : Along ask (fun m asked => m.SparesOpen asked.1) (boot (Fs.hosted setup) backing) ops) :
    (∀ before after x s, ops = before ++ after →
      ((boot (Fs.hosted setup) backing).session before).store x = some s →
      (∀ mid rest, after = mid ++ rest →
        0 < ((boot (Fs.hosted setup) backing).session (before ++ mid)).held x) →
      x ∈ ((boot (Fs.hosted setup) backing).session ops).fs.nodes ∧
      ∀ fd len offset env,
        ((boot (Fs.hosted setup) backing).session ops).fds.lookup fd = some (.node x) →
        (((boot (Fs.hosted setup) backing).session ops).step env (.read fd len offset)).2 =
          .data
            (readAt (ledger s ((boot (Fs.hosted setup) backing).session before) after
              (((boot (Fs.hosted setup) backing).session before).stored s)) offset
              (min len fileReadChunk)).1
            (readAt (ledger s ((boot (Fs.hosted setup) backing).session before) after
              (((boot (Fs.hosted setup) backing).session before).stored s)) offset
              (min len fileReadChunk)).2) ∧
    ∀ before asked after x, ops = before ++ asked :: after →
      (((boot (Fs.hosted setup) backing).session before).store x).isSome = true →
      x ∉ ((boot (Fs.hosted setup) backing).session (before ++ [asked])).fs.nodes →
      ((boot (Fs.hosted setup) backing).session (before ++ [asked])).fs.nodeIsReferenced x = false ∧
        ((boot (Fs.hosted setup) backing).session (before ++ [asked])).held x = 0 := by
  generalize start : boot (Fs.hosted setup) backing = m₀ at *
  have prepared : m₀.fs.Shaped ∧ m₀.Tallied := by
    rw [← start]
    obtain ⟨shaped, closed⟩ := Fs.hosted_prepared setup
    exact ⟨shaped, .boot _ _ closed⟩
  have good : ∀ before after, ops = before ++ after →
      (m₀.session before).fs.Shaped ∧ (m₀.session before).Tallied ∧
        Along ask (fun m asked => m.SparesOpen asked.1) (m₀.session before) after := by
    rintro before after rfl
    obtain ⟨first, second⟩ := spares.append
    have kept := Along.keeps (Q := fun m : Machine => m.fs.Shaped ∧ m.Tallied)
      (fun m asked _ good => ⟨(m.step_effect asked.2 asked.1).effect.shaped good.1,
        step_tallied asked.2 asked.1 good.2⟩) first prepared
    exact ⟨kept.1, kept.2, second⟩
  have joined : ∀ before mid, m₀.session (before ++ mid) = (m₀.session before).session mid :=
    fun before mid => List.foldl_append ..
  refine ⟨?_, ?_⟩
  · intro before after x s split file opened
    obtain ⟨shaped, tallied, along⟩ := good before after split
    have atEnd := session_stored along shaped tallied file fun mid rest split' =>
      joined before mid ▸ opened mid rest split'
    rw [split, joined]
    refine ⟨(store_some atEnd.1).1, fun fd len offset env place => ?_⟩
    rw [read_stored env place atEnd.1, atEnd.2]
  · intro before asked after x split file gone
    obtain ⟨_, tallied, along⟩ := good before (asked :: after) split
    rw [joined] at gone ⊢
    exact step_frees along.1 tallied file gone

section Poles

/-- A check of `SparesOpen`: what a close frees is no directory. -/
def freesFiles (m : Machine) (op : Op) : Bool := (m.frees op).all fun id => !m.fs.isDir id

theorem freesFiles_spares (m : Machine) (op : Op) (passed : freesFiles m op = true) :
    m.SparesOpen op := by
  have leaf : ∀ {id x}, m.frees op = some id → m.fs.Reaches id x → id = x := by
    intro id x frees path
    have notDir : m.fs.isDir id = false := by simpa [freesFiles, frees] using passed
    exact Fs.reaches_leaf (Fs.child_none notDir) path
  exact ⟨fun frees path other => absurd (leaf frees path).symm other,
    fun frees path other => absurd (leaf frees path).symm other⟩

/-- A layer file opened, unlinked and then written to. -/
def unlinkedOpen : List (Op × Env) := [
  (.getDirectories, .quiet),
  (.openAt 0 true "f" {}, .quiet),
  (.unlinkFileAt 0 "f", .quiet),
  (.write 1 [7] 1, .quiet)]

/-- A layer file of three bytes. -/
def threeBytes : Backing := ⟨∅, ∅, (∅ : Table Nat LayerBytes).insert 0 (.eager [1, 2, 3])⟩

theorem session_keeps_open_files_unlinked :
    ((boot (Fs.hosted [.putRoFileAt "f" 0]) threeBytes).session unlinkedOpen).fs.child root "f" = none ∧
      (((boot (Fs.hosted [.putRoFileAt "f" 0]) threeBytes).session unlinkedOpen).step .quiet
        (.read 1 8 0)).2 = .data [1, 7, 3] true := by
  have checked : checkAlong ask (fun m asked => freesFiles m asked.1)
      (boot (Fs.hosted [.putRoFileAt "f" 0]) threeBytes) unlinkedOpen = true := by
    decide
  have kept := session_keeps_open_files
    (along_of_check (fun m (asked : Op × Env) => freesFiles_spares m asked.1) checked)
  have opened : ∀ mid rest, unlinkedOpen.drop 2 = mid ++ rest → 0 <
      ((boot (Fs.hosted [.putRoFileAt "f" 0]) threeBytes).session (unlinkedOpen.take 2 ++ mid)).held 1 := by
    intro mid rest split
    rcases mid with _ | ⟨a, _ | ⟨b, _ | ⟨c, mid⟩⟩⟩
    · decide
    · cases split; decide
    · cases split; decide
    · cases split
  have read := (kept.1 (unlinkedOpen.take 2) (unlinkedOpen.drop 2) 1 (.node 1) rfl (by decide)
    opened).2 1 8 0 .quiet (by decide)
  refine ⟨by decide, read.trans ?_⟩
  decide

/-- A directory removed while open gets a file, which goes with the directory when that
closes. -/
def abandoned : List (Op × Env) := [
  (.getDirectories, .quiet),
  (.createDirectoryAt 0 "d", .quiet),
  (.openAt 0 true "d" {}, .quiet),
  (.removeDirectoryAt 0 "d", .quiet),
  (.openAt 1 true "f" { create := true }, .quiet),
  (.write 2 [7] 0, .quiet)]

/-- The file is open all along and is gone. -/
theorem closed_directory_frees_open_file :
    ¬ ∀ x s, ((boot Fs.new .empty).session abandoned).store x = some s →
      (∀ mid rest, [(Op.close 1, Env.quiet)] = mid ++ rest →
        0 < ((boot Fs.new .empty).session (abandoned ++ mid)).held x) →
      x ∈ ((boot Fs.new .empty).session (abandoned ++ [(Op.close 1, Env.quiet)])).fs.nodes := by
  intro stays
  have there := stays 2 (.node 2) (by decide) fun mid rest split => by
    rcases mid with _ | ⟨a, _ | ⟨b, mid⟩⟩
    · decide
    · cases split; decide
    · cases split
  have freed : ((boot Fs.new .empty).session
      (abandoned ++ [(Op.close 1, Env.quiet)])).fs.nodes.lookup 2 = none := by decide
  have found := Table.mem_iff_lookup.1 there
  simp [freed] at found

end Poles

end Machine

end Wk.Vfs
