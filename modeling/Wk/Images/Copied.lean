/-
# Wk.Images.Copied -- what a copy out of an earlier stage leaves

A copy of one source brings along what is at and below it: the contents of a directory are to
stand below the destination as they stand below the source, and anything else at the destination
or, where that is spelled as a directory, in it.

* `copied`: it does exactly where the source is spelled as the snapshot spells it and is not the
  whole tree, every file is read at its path, and no name at the destination is that of a
  whiteout.
* `respelled`: the spelling of the source decides whether it is found, not what is copied.

Poles: `srv_copied` (a directory is transported), `bin_misspelled` (a file with a slash at its end is not found).
-/
import Wk.Images

namespace Wk.Images

open Wk.Library Wk.Vfs

set_option autoImplicit false

/-- What a node holds. -/
def contentOf (b : Backing) : FsNode → Leaf
  | .file bytes => .file bytes
  | .roFile i => .file (b.layer i)
  | .shared cell => .file (b.cell cell)
  | .host path => (b.disk.lookup path).elim .other .file
  | .symlink target => .link target
  | _ => .other

/-- A `COPY --from` of one source. -/
structure StageCopy where
  ar : Archives
  source : Rootfs
  backing : Backing
  workdir : String
  src : String
  dest : String

namespace StageCopy

variable (c : StageCopy)

def result : Except String Tar := copyFromStage c.ar c.source.fs c.backing c.workdir [c.src] c.dest

/-- The source, by its names. -/
def names : List String := components c.src

/-- The destination, by its names. -/
def base : List String := components (if Fs.absolute c.dest then c.dest else trimEnd '/' c.workdir ++ "/" ++ c.dest)

def kind (p : List String) : Option PathKind := c.source.fs.kindAt p

/-- What stands at a path of the source. -/
def stand (p : List String) : Stand Leaf := c.source.fs.standAt (contentOf c.backing) p

/-- The content at and below the source. -/
def Selects (p : List String) : Prop := c.names <+: p ∧ c.kind p ≠ none

/-- Where what is at a path is to stand. -/
def place (p : List String) : List String :=
  c.base ++ if p = c.names ∧ c.kind p ≠ some .dir ∧ endsInSlash c.dest then c.names.getLast?.toList else p.drop c.names.length

/-- What is selected stands at its place and nothing else does, and only a source that is not
there is an error. -/
def Transports : Prop :=
  match c.result with
  | .error _ => c.kind c.names = none
  | .ok tar => c.kind c.names ≠ none ∧ (∀ p, c.Selects p → tar.stand (c.place p) = c.stand p) ∧
      ∀ q, tar.stand q ≠ .free → q = [] ∨ ∃ p, c.Selects p ∧ q <+: c.place p

/-- The entry that is to carry what is at a path. -/
def entry (p : List String) : TarEntry :=
  match c.stand p with
  | .leaf (.file data) => ⟨joinSlash (c.place p), .regular, data, none⟩
  | .leaf (.link target) => ⟨joinSlash (c.place p), .symlink, [], some target⟩
  | _ => ⟨joinSlash (c.place p) ++ "/", .directory, [], none⟩

/-- What is read at the path of a file is that file. -/
def ReadsRight (p : List String) : Prop :=
  ∀ v, c.stand p = .leaf v →
    (∃ target, v = .link target) ∨ ∃ data, v = .file data ∧ c.source.fs.readFile c.backing (joinSlash p) usizeMax = some data

/-- A link, or not taken for a whiteout. -/
def Shown (p : List String) : Prop :=
  (∃ target, c.stand p = .leaf (.link target)) ∨ hidden (c.place p) = false

/-- The source is spelled as the snapshot spells it. -/
def Spelled : Prop := trimStart '/' c.src = joinSlash c.names ∧ c.names ≠ []

/-- The entry that is written for what is at a path. -/
def Writes (p : List String) (e : TarEntry) : Prop :=
  match c.kind p with
  | some .dir => e = ⟨joinSlash (c.place p) ++ "/", .directory, [], none⟩
  | some (.symlink target) => e = ⟨joinSlash (c.place p), .symlink, [], some target⟩
  | some .layerFile | some .privateFile | some .mounted =>
    ∃ data, c.source.fs.readFile c.backing (joinSlash p) usizeMax = some data ∧ e = ⟨joinSlash (c.place p), .regular, data, none⟩
  | none => False

/-- The tar builder gives back what is appended for the paths. -/
def Returned : Prop := ∀ p, c.Selects p → c.place p ≠ [] → ∀ e, c.Writes p e → c.ar.GivesBack e

/-- Everything that is selected can be carried. -/
structure Carried : Prop where
  spelled : c.Spelled
  /-- Only a directory can be the root. -/
  rooted : c.kind c.names = some .dir ∨ c.place c.names ≠ []
  read : ∀ p, c.Selects p → c.ReadsRight p
  taken : ∀ p, c.Selects p → c.place p ≠ [] → c.ar.refuses (c.entry p) = none
  /-- At or below every path something is not taken for a whiteout. -/
  shown : ∀ p, c.Selects p → ∃ q, c.Selects q ∧ p <+: q ∧ c.Shown q

/-- How many paths the copy needs. -/
noncomputable def size : Nat := Set.ncard {q | q = [] ∨ ∃ p, c.Selects p ∧ q <+: c.place p}

variable {c} {p q : List String} {kind : PathKind}

/-! ## What is selected -/

theorem names_named : ∀ name ∈ c.names, IsName name := fun _ => isName_of_mem

theorem base_named : ∀ name ∈ c.base, IsName name := fun _ => isName_of_mem

theorem kind_named (content : c.kind p = some kind) : ∀ name ∈ p, IsName name := by
  obtain ⟨node, found, _⟩ := Option.bind_eq_some_iff.1 content
  obtain ⟨x, leads, _⟩ := Option.bind_eq_some_iff.1 found
  exact Fs.address_named c.source.named leads

/-- Only a directory has something below. -/
theorem kind_above (above : Above q p) (content : c.kind p = some kind) : c.kind q = some .dir := by
  obtain ⟨node, found, _⟩ := Option.bind_eq_some_iff.1 content
  obtain ⟨x, here, _⟩ := Option.bind_eq_some_iff.1 found
  obtain ⟨⟨more, rfl⟩, other⟩ := above
  obtain ⟨name, rest, rfl⟩ := List.exists_cons_of_ne_nil (show more ≠ [] by rintro rfl; exact other (by simp))
  rw [Fs.address_append] at here
  obtain ⟨d, up, down⟩ := Option.bind_eq_some_iff.1 here
  obtain ⟨_, entry, _⟩ := Option.bind_eq_some_iff.1 down
  rw [StageCopy.kind, Fs.kindAt, Fs.nodeAt, up]
  exact Fs.kind_of_below entry

theorem Selects.content (selected : c.Selects p) : ∃ kind, c.kind p = some kind :=
  Option.ne_none_iff_exists'.1 selected.2

theorem Selects.above (selected : c.Selects p) (up : c.names <+: q) (down : q <+: p) : c.Selects q := by
  refine ⟨up, ?_⟩
  by_cases same : q = p
  · exact same ▸ selected.2
  · obtain ⟨kind, content⟩ := selected.content
    rw [kind_above ⟨down, same⟩ content]
    nofun

/-- Of a source that is no directory nothing else is selected. -/
theorem Selects.eq (selected : c.Selects p) (notDir : c.kind c.names ≠ some .dir) : p = c.names := by
  by_contra other
  obtain ⟨kind, content⟩ := selected.content
  exact notDir (kind_above ⟨selected.1, fun same => other same.symm⟩ content)

theorem place_dir (isDir : c.kind c.names = some .dir) : c.place p = c.base ++ p.drop c.names.length := by
  rw [place, if_neg]
  rintro ⟨rfl, notDir, _⟩
  exact notDir isDir

theorem place_prefix_iff (selected : c.Selects p) (selected' : c.Selects q) : c.place p <+: c.place q ↔ p <+: q := by
  by_cases isDir : c.kind c.names = some .dir
  · obtain ⟨more, rfl⟩ := selected.1
    obtain ⟨more', rfl⟩ := selected'.1
    rw [place_dir isDir, place_dir isDir, List.drop_left, List.drop_left, List.prefix_append_right_inj, List.prefix_append_right_inj]
  · rw [selected.eq isDir, selected'.eq isDir]
    simp

theorem place_inj (selected : c.Selects p) (selected' : c.Selects q) (same : c.place p = c.place q) : p = q :=
  prefix_antisymm ((place_prefix_iff selected selected').1 (same ▸ List.prefix_rfl))
    ((place_prefix_iff selected' selected).1 (same ▸ List.prefix_rfl))

theorem place_named (selected : c.Selects p) : ∀ name ∈ c.place p, IsName name := by
  obtain ⟨kind, content⟩ := selected.content
  intro name member
  rcases List.mem_append.1 member with inBase | more
  · exact base_named name inBase
  · split at more
    · exact names_named name (List.mem_of_getLast? (Option.mem_toList.1 more))
    · exact kind_named content name (List.mem_of_mem_drop more)

/-- What stands at a path, by its kind. -/
theorem stand_of_kind (content : c.kind p = some kind) :
    match kind with
    | .dir => c.stand p = .branch
    | .symlink target => c.stand p = .leaf (.link target)
    | .layerFile | .privateFile | .mounted => c.stand p = .leaf .other ∨ ∃ data, c.stand p = .leaf (.file data) := by
  obtain ⟨node, found, same⟩ := Option.bind_eq_some_iff.1 content
  obtain ⟨x, here, stored⟩ := Option.bind_eq_some_iff.1 found
  have stands : c.stand p = node.stands (contentOf c.backing) := by
    rw [StageCopy.stand, Fs.standAt_some here, stored]
    rfl
  rw [stands]
  cases node with
  | host path =>
    cases same
    cases onDisk : c.backing.disk.lookup path with
    | none => exact .inl (by simp [FsNode.stands, contentOf, onDisk])
    | some data => exact .inr ⟨data, by simp [FsNode.stands, contentOf, onDisk]⟩
  | file bytes =>
    cases same
    exact .inr ⟨_, rfl⟩
  | roFile i =>
    cases same
    exact .inr ⟨_, rfl⟩
  | shared cell =>
    cases same
    exact .inr ⟨_, rfl⟩
  | dir children =>
    cases same
    rfl
  | symlink target =>
    cases same
    rfl
  | null | zero | random | provider => cases same

/-! ## What is appended -/

def hits (c : StageCopy) : List ((String × PathKind) × String) := copyHits c.source.fs (trimStart '/' c.src)

theorem mem_hits {hit : (String × PathKind) × String} :
    hit ∈ c.hits ↔ c.Spelled ∧ ∃ p, c.names <+: p ∧ c.kind p = some hit.1.2 ∧ hit.1.1 = joinSlash p ∧
      hit.2 = joinSlash (p.drop c.names.length) := by
  obtain ⟨⟨path, kind⟩, rest⟩ := hit
  simp only [hits, copyHits, List.mem_filterMap, Option.map_eq_some_iff, Prod.mk.injEq]
  constructor
  · rintro ⟨_, listed, _, below, rfl, rfl⟩
    obtain ⟨p, some_left, rfl, content⟩ := (Fs.mem_snapshot c.source.shaped c.source.named).1 listed
    have named := kind_named content
    obtain ⟨s, notRoot, up, start, rfl⟩ := (belowStart_iff some_left named).1 below
    have same : c.names = s := by
      rw [names, ← components_trimStart, start, components_joinSlash fun name member => named name (up.subset member)]
    subst same
    exact ⟨⟨start, notRoot⟩, p, up, content, rfl, rfl⟩
  · rintro ⟨⟨start, notRoot⟩, p, up, content, rfl, rfl⟩
    have some_left : p ≠ [] := by
      rintro rfl
      exact notRoot (List.prefix_nil.1 up)
    refine ⟨(joinSlash p, kind), (Fs.mem_snapshot c.source.shaped c.source.named).2 ⟨p, some_left, rfl, content⟩, _, ?_, rfl, rfl⟩
    exact (belowStart_iff some_left (kind_named content)).2 ⟨c.names, notRoot, up, start, rfl⟩

/-- The path that is written for what is at a path. -/
theorem copyTarget_eq (spelled : c.Spelled) (selected : c.Selects p) (content : c.kind p = some kind) :
    copyTarget (joinSlash c.names) (joinSlash c.base) (endsInSlash c.dest) kind (joinSlash (p.drop c.names.length)) =
      joinSlash (c.place p) := by
  have leafNamed : ∀ name ∈ p.drop c.names.length, IsName name := fun name member => kind_named content name (List.mem_of_mem_drop member)
  have joined : ∀ leaf : List String, (∀ name ∈ leaf, IsName name) →
      (if joinSlash leaf = "" then joinSlash c.base else if joinSlash c.base = "" then joinSlash leaf
        else trimEnd '/' (joinSlash c.base) ++ "/" ++ joinSlash leaf) = joinSlash (c.base ++ leaf) := by
    intro leaf named
    simp only [joinSlash_eq_empty named, joinSlash_eq_empty base_named, trimEnd_joinSlash base_named]
    split
    · next none_left => rw [none_left, List.append_nil]
    · split
      · next _ none_left => rw [none_left, List.nil_append]
      · next some_left notRoot => exact (joinSlash_append notRoot some_left).symm
  have last : (rsplitSlash (joinSlash c.names)).2 = joinSlash c.names.getLast?.toList := by
    obtain ⟨dirs, base, split⟩ := (List.eq_nil_or_concat' c.names).resolve_left spelled.2
    rw [split, rsplitSlash_join (split ▸ names_named), List.getLast?_concat]
    simp [joinSlash]
  have lastNamed : ∀ name ∈ c.names.getLast?.toList, IsName name := fun name member =>
    names_named name (List.mem_of_getLast? (Option.mem_toList.1 member))
  unfold copyTarget
  dsimp only
  rw [place, content]
  by_cases here : p = c.names
  · subst here
    simp only [List.drop_length, show joinSlash [] = "" from rfl, ne_eq, not_true_eq_false, if_false, true_and, Option.some.injEq]
    split
    · rw [last]
      exact joined _ lastNamed
    · simp
  · have further : p.drop c.names.length ≠ [] := by
      obtain ⟨more, rfl⟩ := selected.1
      simpa using here
    have apart : ¬ (p = c.names ∧ some kind ≠ some .dir ∧ endsInSlash c.dest = true) := fun same => here same.1
    rw [if_neg apart, if_pos (joinSlash_ne_empty further leafNamed)]
    exact joined _ leafNamed

def step (c : StageCopy) : Tar → (String × PathKind) × String → Except String Tar :=
  copyEntry c.ar c.source.fs c.backing (trimStart '/' c.src) (destPath c.workdir c.dest) (endsInSlash c.dest)

theorem step_appends (b : Tar) (hit : (String × PathKind) × String) : c.step b hit = (b ++ ·) <$> c.step [] hit := by
  unfold step copyEntry
  dsimp only
  split
  · simp
  · split
    · exact c.ar.append_eq b _ _
    · exact c.ar.append_eq b _ _
    all_goals
      split
      · exact c.ar.append_eq b _ _
      · rfl

theorem step_ok (spelled : c.Spelled) (selected : c.Selects p) (content : c.kind p = some kind) {more : Tar} :
    c.step [] ((joinSlash p, kind), joinSlash (p.drop c.names.length)) = .ok more ↔
      (c.place p = [] ∧ more = []) ∨
        c.place p ≠ [] ∧ ∃ e, c.Writes p e ∧ c.ar.refuses e = none ∧ more = [c.ar.gives e] := by
  unfold step copyEntry
  rw [show destPath c.workdir c.dest = joinSlash c.base from rfl, spelled.1, copyTarget_eq spelled selected content]
  simp only [joinSlash_eq_empty (place_named selected)]
  by_cases atRoot : c.place p = []
  · simp [atRoot, eq_comm]
  · simp only [atRoot, if_false, false_and, false_or, ne_eq, not_false_eq_true, true_and, Writes, content]
    cases kind with
    | dir => simp [Archives.tarDirEntry, Archives.append_ok]
    | symlink target => simp [Archives.tarSymlink, Archives.append_ok]
    | layerFile | privateFile | mounted =>
      dsimp only
      cases c.source.fs.readFile c.backing (joinSlash p) usizeMax with
      | none => simp
      | some data => simp [Archives.tarFile, Archives.append_ok]

theorem result_eq : c.result = if c.hits = [] then .error ("COPY --from: " ++ c.src.quote ++ " is not in that stage")
    else c.hits.foldlM c.step [] := by
  show (_ >>= fun tar => _) = _
  exact bind_pure _

theorem hit_mem (spelled : c.Spelled) (up : c.names <+: p) (content : c.kind p = some kind) :
    ((joinSlash p, kind), joinSlash (p.drop c.names.length)) ∈ c.hits :=
  mem_hits.2 ⟨spelled, p, up, content, rfl, rfl⟩

theorem hits_ne_nil : c.hits ≠ [] ↔ c.Spelled ∧ c.kind c.names ≠ none := by
  constructor
  · intro some_hit
    obtain ⟨hit, member⟩ := List.exists_mem_of_ne_nil _ some_hit
    obtain ⟨spelled, p, up, content, _⟩ := mem_hits.1 member
    have selected : c.Selects p := ⟨up, by rw [content]; nofun⟩
    exact ⟨spelled, (selected.above List.prefix_rfl up).2⟩
  · rintro ⟨spelled, there⟩
    obtain ⟨kind, content⟩ := Option.ne_none_iff_exists'.1 there
    exact List.ne_nil_of_mem (hit_mem spelled List.prefix_rfl content)

/-- Everything selected is written, where the source is found. -/
theorem result_ok {tar : Tar} (ok : c.result = .ok tar) :
    c.Spelled ∧ c.kind c.names ≠ none ∧
      (∀ p, c.Selects p → c.place p ≠ [] → ∃ e, c.Writes p e ∧ c.ar.refuses e = none) ∧
      ∀ e, e ∈ tar ↔ ∃ p, c.Selects p ∧ c.place p ≠ [] ∧ ∃ e', c.Writes p e' ∧ e = c.ar.gives e' := by
  rw [result_eq] at ok
  split at ok
  · cases ok
  · next some_hit =>
      obtain ⟨spelled, there⟩ := hits_ne_nil.1 some_hit
      obtain ⟨all, rfl⟩ := (foldlM_ok_iff step_appends _).1 ok
      have writes : ∀ p, c.Selects p → c.place p ≠ [] → ∃ e, c.Writes p e ∧ c.ar.refuses e = none := by
        intro p selected notRoot
        obtain ⟨kind, content⟩ := selected.content
        obtain ⟨more, appended⟩ := all _ (hit_mem spelled selected.1 content)
        rcases (step_ok spelled selected content).1 appended with ⟨atRoot, _⟩ | ⟨_, e, writes, accepted, _⟩
        · exact absurd atRoot notRoot
        · exact ⟨e, writes, accepted⟩
      refine ⟨spelled, there, writes, fun e => ?_⟩
      simp only [List.nil_append, List.mem_flatMap]
      constructor
      · rintro ⟨⟨⟨path, kind⟩, rest⟩, member, written⟩
        obtain ⟨more, appended⟩ := all _ member
        rw [appended] at written
        obtain ⟨_, p, up, content, rfl, rfl⟩ := mem_hits.1 member
        have selected : c.Selects p := ⟨up, by rw [content]; nofun⟩
        rcases (step_ok spelled selected content).1 appended with ⟨_, rfl⟩ | ⟨notRoot, e', writes, _, rfl⟩
        · cases written
        · cases List.mem_singleton.1 written
          exact ⟨p, selected, notRoot, e', writes, rfl⟩
      · rintro ⟨p, selected, notRoot, e, writes', rfl⟩
        obtain ⟨kind, content⟩ := selected.content
        refine ⟨_, hit_mem spelled selected.1 content, ?_⟩
        obtain ⟨e', writes'', accepted⟩ := writes p selected notRoot
        have same : e' = e := by
          unfold Writes at writes' writes''
          rw [content] at writes' writes''
          cases kind <;> grind
        rw [(step_ok spelled selected content).2 (.inr ⟨notRoot, e', writes'', accepted, rfl⟩), same]
        exact List.mem_singleton_self _

theorem ok_of_writes (spelled : c.Spelled) (there : c.kind c.names ≠ none)
    (all : ∀ p, c.Selects p → c.place p ≠ [] → ∃ e, c.Writes p e ∧ c.ar.refuses e = none) : ∃ tar, c.result = .ok tar := by
  refine ⟨[] ++ c.hits.flatMap fun hit => (c.step [] hit).toOption.getD [], ?_⟩
  rw [result_eq, if_neg (hits_ne_nil.2 ⟨spelled, there⟩)]
  refine (foldlM_ok_iff step_appends _).2 ⟨?_, rfl⟩
  rintro ⟨⟨path, kind⟩, rest⟩ member
  obtain ⟨_, p, up, content, rfl, rfl⟩ := mem_hits.1 member
  have selected : c.Selects p := ⟨up, by rw [content]; nofun⟩
  by_cases atRoot : c.place p = []
  · exact ⟨[], (step_ok spelled selected content).2 (.inl ⟨atRoot, rfl⟩)⟩
  · obtain ⟨e, writes, accepted⟩ := all p selected atRoot
    exact ⟨_, (step_ok spelled selected content).2 (.inr ⟨atRoot, e, writes, accepted, rfl⟩)⟩

/-! ## What is to stand -/

/-- What is at a path, put at its place. -/
def addition (c : StageCopy) (p : List String) : Addition String Leaf :=
  match c.stand p with
  | .leaf v => .put (c.place p) v
  | _ => .grow (c.place p)

/-- Everything selected, put at its place. -/
def wanted (c : StageCopy) : List (Addition String Leaf) := c.hits.map fun hit => c.addition (components hit.1.1)

@[simp] theorem addition_path : (c.addition p).path = c.place p := by
  unfold addition
  split <;> rfl

theorem addition_stand (selected : c.Selects p) : (c.addition p).stand = c.stand p := by
  obtain ⟨kind, content⟩ := selected.content
  have stands := stand_of_kind content
  unfold addition
  cases kind with
  | dir => rw [stands]; rfl
  | symlink target => rw [stands]; rfl
  | layerFile | privateFile | mounted => rcases stands with stands | ⟨data, stands⟩ <;> rw [stands] <;> rfl

theorem mem_wanted (spelled : c.Spelled) {a : Addition String Leaf} : a ∈ c.wanted ↔ ∃ p, c.Selects p ∧ a = c.addition p := by
  simp only [wanted, List.mem_map]
  constructor
  · rintro ⟨hit, member, rfl⟩
    obtain ⟨_, p, up, content, path, _⟩ := mem_hits.1 member
    rw [path, components_joinSlash (kind_named content)]
    exact ⟨p, ⟨up, by rw [content]; nofun⟩, rfl⟩
  · rintro ⟨p, selected, rfl⟩
    obtain ⟨kind, content⟩ := selected.content
    exact ⟨_, hit_mem spelled selected.1 content, by rw [components_joinSlash (kind_named content)]⟩

/-- At the place of a selected path nothing else is wanted. -/
theorem lastAt_wanted (spelled : c.Spelled) {a : Addition String Leaf} :
    PathTree.lastAt c.wanted q = some a ↔ ∃ p, c.Selects p ∧ q = c.place p ∧ a = c.addition p := by
  constructor
  · intro last
    obtain ⟨member, rfl⟩ := PathTree.lastAt_mem last
    obtain ⟨p, selected, rfl⟩ := (mem_wanted spelled).1 member
    exact ⟨p, selected, addition_path, rfl⟩
  · rintro ⟨p, selected, rfl, rfl⟩
    obtain ⟨b, last⟩ := PathTree.lastAt_isSome ((mem_wanted spelled).2 ⟨p, selected, rfl⟩)
    obtain ⟨member, path⟩ := PathTree.lastAt_mem last
    obtain ⟨p', selected', rfl⟩ := (mem_wanted spelled).1 member
    rw [addition_path, addition_path] at path
    rw [addition_path, place_inj selected' selected path] at last
    exact last

theorem reach_wanted (spelled : c.Spelled) :
    q ∈ reach c.wanted ↔ q = [] ∨ ∃ p, c.Selects p ∧ q <+: c.place p := by
  rw [mem_reach]
  refine or_congr_right ⟨?_, ?_⟩
  · rintro ⟨a, member, up⟩
    obtain ⟨p, selected, rfl⟩ := (mem_wanted spelled).1 member
    exact ⟨p, selected, addition_path ▸ up⟩
  · rintro ⟨p, selected, up⟩
    exact ⟨c.addition p, (mem_wanted spelled).2 ⟨p, selected, rfl⟩, addition_path.symm ▸ up⟩

theorem size_eq (spelled : c.Spelled) : c.size = (reach c.wanted).card := by
  rw [size, ← Set.ncard_coe_finset]
  refine congrArg Set.ncard (Set.ext fun q => ?_)
  rw [Finset.mem_coe, reach_wanted spelled]
  rfl

theorem transports_iff {tar : Tar} (ok : c.result = .ok tar) : c.Transports ↔ tar.Leaves c.wanted := by
  obtain ⟨spelled, there, _, _⟩ := result_ok ok
  rw [Transports, ok]
  constructor
  · rintro ⟨_, stands, nothing⟩
    refine ⟨fun q a last => ?_, fun q here => (mem_reach.1 ((reach_wanted spelled).2 (nothing q here)))⟩
    obtain ⟨p, selected, rfl, rfl⟩ := (lastAt_wanted spelled).1 last
    rw [stands p selected, addition_stand selected]
  · rintro ⟨last, nothing⟩
    refine ⟨there, fun p selected => ?_, fun q here => (reach_wanted spelled).1 (mem_reach.2 (nothing q here))⟩
    rw [last _ _ ((lastAt_wanted spelled).2 ⟨p, selected, rfl, rfl⟩), addition_stand selected]

/-! ## What is written -/

section Written

variable {e : TarEntry}

theorem Writes.path (writes : c.Writes p e) (selected : c.Selects p) : e.path = c.place p := by
  have back := components_joinSlash (place_named selected)
  obtain ⟨kind, content⟩ := selected.content
  rw [Writes, content] at writes
  cases kind with
  | dir => rw [show e = _ from writes, TarEntry.path, components_dir, back]
  | symlink target => rw [show e = _ from writes, TarEntry.path, back]
  | layerFile | privateFile | mounted =>
    obtain ⟨data, _, rfl⟩ := writes
    exact back

/-- Only what is read of a file is put. -/
theorem Writes.leaf (writes : c.Writes p e) (selected : c.Selects p) {v : Leaf} (adds : e.adds = some (.put q v)) :
    (∃ target, v = .link target) ∨ ∃ data, v = .file data ∧ c.source.fs.readFile c.backing (joinSlash p) usizeMax = some data := by
  obtain ⟨kind, content⟩ := selected.content
  rw [Writes, content] at writes
  cases kind with
  | dir =>
    rw [show e = _ from writes] at adds
    simp only [TarEntry.adds, Option.some.injEq, reduceCtorEq] at adds
  | symlink target =>
    rw [show e = _ from writes] at adds
    simp only [TarEntry.adds, Option.map_some, Option.some.injEq, Addition.put.injEq] at adds
    exact .inl ⟨target, adds.2.symm⟩
  | layerFile | privateFile | mounted =>
    obtain ⟨data, read, rfl⟩ := writes
    simp only [TarEntry.adds, Option.some.injEq, Addition.put.injEq] at adds
    exact .inr ⟨data, adds.2.symm, read⟩

theorem ReadsRight.writes_iff (right : c.ReadsRight p) (selected : c.Selects p) : c.Writes p e ↔ e = c.entry p := by
  obtain ⟨kind, content⟩ := selected.content
  have stands := stand_of_kind content
  unfold Writes
  rw [content]
  cases kind with
  | dir => rw [entry, stands]
  | symlink target => rw [entry, stands]
  | layerFile | privateFile | mounted =>
    rcases stands with stands | ⟨data, stands⟩
    · rcases right _ stands with ⟨_, never⟩ | ⟨_, never, _⟩ <;> cases never
    · rcases right _ stands with ⟨_, never⟩ | ⟨_, same, read⟩
      · cases never
      · cases same
        rw [entry, stands]
        simp [read]

theorem ReadsRight.adds (right : c.ReadsRight p) (selected : c.Selects p) : (c.entry p).adds = some (c.addition p) := by
  obtain ⟨kind, content⟩ := selected.content
  have back := components_joinSlash (place_named selected)
  unfold entry addition
  cases stands : c.stand p with
  | leaf v =>
    rcases right v stands with ⟨target, rfl⟩ | ⟨data, rfl, _⟩
    · simp [TarEntry.adds, TarEntry.path, back]
    · simp [TarEntry.adds, TarEntry.path, back]
  | branch | free => simp [TarEntry.adds, TarEntry.path, components_dir, back]

theorem ReadsRight.kept_iff (right : c.ReadsRight p) (selected : c.Selects p) :
    (c.entry p).Kept ↔ c.place p ≠ [] ∧ c.Shown p := by
  have path : (c.entry p).path = c.place p := ((right.writes_iff selected).2 rfl).path selected
  rw [TarEntry.Kept, path, Shown]
  refine and_congr_right fun _ => ?_
  rw [← or_assoc]
  refine or_congr_left ?_
  unfold entry
  cases stands : c.stand p with
  | leaf v => cases v <;> simp
  | branch | free => simp

end Written

/-! ## Where a copy is carried -/

theorem stand_leaf (content : c.kind p = some kind) (notDir : kind ≠ .dir) : ∃ v, c.stand p = .leaf v := by
  have stands := stand_of_kind content
  cases kind with
  | dir => exact absurd rfl notDir
  | symlink target => exact ⟨_, stands⟩
  | layerFile | privateFile | mounted => rcases stands with stands | ⟨data, stands⟩ <;> exact ⟨_, stands⟩

/-- Below a leaf nothing is selected. -/
theorem leaf_eq {v : Leaf} (leaf : c.stand p = .leaf v) (selected : c.Selects q) (up : p <+: q) : p = q := by
  by_contra other
  obtain ⟨kind, content⟩ := selected.content
  have branch := stand_of_kind (kind_above ⟨up, other⟩ content)
  rw [leaf] at branch
  cases branch

/-- A leaf is not placed at the root. -/
theorem leaf_place (rooted : c.kind c.names = some .dir ∨ c.place c.names ≠ []) (selected : c.Selects p) {v : Leaf}
    (leaf : c.stand p = .leaf v) : c.place p ≠ [] := by
  by_cases isDir : c.kind c.names = some .dir
  · intro atRoot
    rw [place_dir isDir] at atRoot
    obtain ⟨more, rfl⟩ := selected.1
    have none_left : more = [] := by simpa using (List.append_eq_nil_iff.1 atRoot).2
    have branch := stand_of_kind isDir
    rw [none_left, List.append_nil, branch] at leaf
    cases leaf
  · exact selected.eq isDir ▸ rooted.resolve_left isDir

section Tar

variable {tar : Tar} (ok : c.result = .ok tar) (returned : c.Returned)

include ok returned

theorem made_path {a : Addition String Leaf} (member : a ∈ (fromTarBytes tar).made) :
    ∃ p e, c.Selects p ∧ c.Writes p e ∧ e.Kept ∧ e.adds = some a ∧ a.path = c.place p := by
  obtain ⟨_, written, kept, adds⟩ := mem_made.1 member
  obtain ⟨p, selected, notRoot, e, writes, rfl⟩ := ((result_ok ok).2.2.2 _).1 written
  have back := returned p selected notRoot e writes
  rw [back.adds] at adds
  exact ⟨p, e, selected, writes, back.kept_iff.1 kept, adds, (TarEntry.adds_path adds).trans (writes.path selected)⟩

/-- What stands as it should was read right. -/
theorem reads_right (few : c.size < maxFsNodes) (leaves : tar.Leaves c.wanted) (selected : c.Selects p) : c.ReadsRight p := by
  intro v leaf
  obtain ⟨spelled, _⟩ := result_ok ok
  have stands := leaves.1 _ _ ((lastAt_wanted spelled).2 ⟨p, selected, rfl, rfl⟩)
  rw [addition_stand selected, leaf] at stands
  have members : ∀ a ∈ (fromTarBytes tar).made, a.path ∈ reach c.wanted := by
    intro a member
    obtain ⟨p', _, selected', _, _, _, path⟩ := made_path ok returned member
    exact (reach_wanted spelled).2 (.inr ⟨p', selected', path ▸ List.prefix_rfl⟩)
  obtain ⟨p', e, selected', writes, _, adds, path⟩ := made_path ok returned (put_of_stand (size_eq spelled ▸ few) members stands)
  rw [← place_inj selected selected' path] at writes
  exact writes.leaf selected adds

/-- What is made of files that are read right. -/
theorem mem_made_iff (right : ∀ p, c.Selects p → c.ReadsRight p) {a : Addition String Leaf} :
    a ∈ (fromTarBytes tar).made ↔ ∃ p, c.Selects p ∧ c.place p ≠ [] ∧ c.Shown p ∧ a = c.addition p := by
  obtain ⟨_, _, all, written⟩ := result_ok ok
  constructor
  · intro member
    obtain ⟨p, e, selected, writes, kept, adds, _⟩ := made_path ok returned member
    cases ((right p selected).writes_iff selected).1 writes
    obtain ⟨notRoot, shown⟩ := ((right p selected).kept_iff selected).1 kept
    exact ⟨p, selected, notRoot, shown, Option.some.inj (adds.symm.trans ((right p selected).adds selected))⟩
  · rintro ⟨p, selected, notRoot, shown, rfl⟩
    have writes := ((right p selected).writes_iff selected).2 rfl
    have back := returned p selected notRoot _ writes
    exact mem_made.2 ⟨_, (written _).2 ⟨p, selected, notRoot, _, writes, rfl⟩,
      back.kept_iff.2 (((right p selected).kept_iff selected).2 ⟨notRoot, shown⟩),
      back.adds.trans ((right p selected).adds selected)⟩

/-- What is made carries what is wanted where something is shown at or below every path. -/
theorem carries_iff (right : ∀ p, c.Selects p → c.ReadsRight p) :
    PathTree.Carries c.wanted (fromTarBytes tar).made ↔
      (c.kind c.names = some .dir ∨ c.place c.names ≠ []) ∧ ∀ p, c.Selects p → ∃ q, c.Selects q ∧ p <+: q ∧ c.Shown q := by
  obtain ⟨spelled, there, _⟩ := result_ok ok
  have made := fun {a} => mem_made_iff ok returned right (a := a)
  have added : ∀ {p v}, c.stand p = .leaf v → c.addition p = .put (c.place p) v := by
    intro p v leaf
    rw [addition, leaf]
  -- what is put at the place of a path is what is there
  have once : ∀ {p w}, c.Selects p → .put (c.place p) w ∈ (fromTarBytes tar).made → c.stand p = .leaf w ∧ c.Shown p := by
    intro p w selected member
    obtain ⟨p', selected', _, shown, same⟩ := made.1 member
    have path := congrArg Addition.path same
    rw [addition_path] at path
    cases place_inj selected selected' path
    refine ⟨?_, shown⟩
    rw [← addition_stand selected, ← same]
    rfl
  have selectedNames : c.Selects c.names := ⟨List.prefix_rfl, there⟩
  constructor
  · intro carries
    have carried := fun p selected => carries (c.place p) (c.addition p) ((lastAt_wanted spelled).2 ⟨p, selected, rfl, rfl⟩)
    refine ⟨or_iff_not_imp_left.2 fun notDir => ?_, fun p selected => ?_⟩
    · obtain ⟨kind, content⟩ := Option.ne_none_iff_exists'.1 there
      obtain ⟨v, leaf⟩ := stand_leaf content fun same => notDir (same ▸ content)
      have here := carried c.names selectedNames
      rw [added leaf] at here
      exact here.1
    · have here := carried p selected
      cases stands : c.stand p with
      | leaf v =>
        rw [added stands] at here
        exact ⟨p, selected, List.prefix_rfl, (once selected (PathTree.mem_of_lastPut here.2.1)).2⟩
      | branch | free =>
        rw [addition, stands] at here
        rcases here.2 with atRoot | ⟨b, member, up⟩
        · exact ⟨p, selected, List.prefix_rfl, .inr (by rw [atRoot]; rfl)⟩
        · obtain ⟨q, selected', _, shown, rfl⟩ := made.1 member
          rw [addition_path] at up
          exact ⟨q, selected', (place_prefix_iff selected selected').1 up, shown⟩
  · rintro ⟨rooted, shown⟩ q a last
    obtain ⟨p, selected, rfl, rfl⟩ := (lastAt_wanted spelled).1 last
    obtain ⟨q, selected', up, shownBelow⟩ := shown p selected
    cases stands : c.stand p with
    | leaf v =>
      cases leaf_eq stands selected' up
      have notRoot := leaf_place rooted selected stands
      rw [added stands]
      have member := made.2 ⟨p, selected, notRoot, shownBelow, (added stands).symm⟩
      obtain ⟨w, put⟩ := PathTree.lastPut_isSome member
      have same := (once selected (PathTree.mem_of_lastPut put)).1
      rw [stands] at same
      cases same
      refine ⟨notRoot, put, fun b there above => ?_⟩
      obtain ⟨p', selected'', rfl⟩ := (mem_wanted spelled).1 there
      rw [addition_path] at above
      have below := (place_prefix_iff selected selected'').1 above.1
      cases leaf_eq stands selected'' below
      exact above.2 rfl
    | branch | free =>
      rw [addition, stands]
      refine ⟨?_, ?_⟩
      · by_contra some_put
        obtain ⟨w, put⟩ := Option.ne_none_iff_exists'.1 some_put
        have leaf := (once selected (PathTree.mem_of_lastPut put)).1
        rw [stands] at leaf
        cases leaf
      · by_cases atRoot : c.place p = []
        · exact .inl atRoot
        · have further := (place_prefix_iff selected selected').2 up
          have notRoot : c.place q ≠ [] := fun same => atRoot (List.prefix_nil.1 (same ▸ further))
          exact .inr ⟨_, made.2 ⟨q, selected', notRoot, shownBelow, rfl⟩, by rwa [addition_path]⟩

end Tar

/-- What a copy reads right and is not refused is written. -/
theorem Carried.ok (carried : c.Carried) (there : c.kind c.names ≠ none) : ∃ tar, c.result = .ok tar :=
  ok_of_writes carried.spelled there fun p selected notRoot =>
    ⟨c.entry p, ((carried.read p selected).writes_iff selected).2 rfl, carried.taken p selected notRoot⟩

end StageCopy

open StageCopy in
/-- A copy transports what is selected exactly where it can be carried, or nothing is there to
select; and it never does beyond the node cap. -/
theorem copied (c : StageCopy) :
    (c.Returned → c.size < maxFsNodes → (c.Transports ↔ c.kind c.names = none ∨ c.Carried)) ∧
      (c.kind c.names ≠ none → c.Transports → c.size ≤ maxFsNodes) := by
  refine ⟨fun returned few => ?_, fun there transports => ?_⟩
  · cases result : c.result with
    | error text =>
      have fails : c.Transports ↔ c.kind c.names = none := by rw [Transports, result]
      rw [fails]
      refine ⟨.inl, fun cond => by_contra fun there => ?_⟩
      obtain ⟨tar, ok⟩ := (cond.resolve_left there).ok there
      rw [result] at ok
      cases ok
    | ok tar =>
      obtain ⟨spelled, there, writes, _⟩ := result_ok result
      rw [or_iff_right there, transports_iff result]
      have carries : (∀ p, c.Selects p → c.ReadsRight p) → (tar.Leaves c.wanted ↔ _) := fun right =>
        (leaves_iff_carries (size_eq spelled ▸ few) fun a member => by
          obtain ⟨p, selected, _, _, rfl⟩ := (mem_made_iff result returned right).1 member
          exact (mem_wanted spelled).2 ⟨p, selected, rfl⟩).trans (carries_iff result returned right)
      constructor
      · intro leaves
        have right := fun p selected => reads_right result returned few leaves selected (p := p)
        obtain ⟨rooted, shown⟩ := (carries right).1 leaves
        refine ⟨spelled, rooted, right, fun p selected notRoot => ?_, shown⟩
        obtain ⟨e, written, accepted⟩ := writes p selected notRoot
        exact ((right p selected).writes_iff selected).1 written ▸ accepted
      · exact fun carried => (carries carried.read).2 ⟨carried.rooted, carried.shown⟩
  · cases result : c.result with
    | error text =>
      rw [Transports, result] at transports
      exact absurd transports there
    | ok tar =>
      rw [size_eq (result_ok result).1]
      exact leaves_few ((transports_iff result).1 transports)

/-- Two spellings of one source that are both found give the same. -/
theorem respelled {c : StageCopy} {src : String} (same : components src = c.names) {tar tar' : Tar}
    (ok : c.result = .ok tar) (ok' : StageCopy.result { c with src := src } = .ok tar') : tar = tar' := by
  have text : trimStart '/' src = trimStart '/' c.src := by
    rw [(StageCopy.result_ok ok').1.1, (StageCopy.result_ok ok).1.1]
    exact congrArg joinSlash same
  rw [StageCopy.result_eq] at ok ok'
  have hits : StageCopy.hits { c with src := src } = c.hits := congrArg (copyHits c.source.fs) text
  have step : StageCopy.step { c with src := src } = c.step := by
    unfold StageCopy.step
    rw [text]
  rw [hits, step] at ok'
  split at ok'
  · cases ok'
  · next some_hit =>
      rw [if_neg some_hit, ok'] at ok
      cases ok
      rfl

section Poles

/-- Nothing is refused, every entry is given back, and no archive is read. -/
def plainArchives : Archives := ⟨fun _ => none, id, fun _ => .error "", fun _ => .error "", fun _ => .error ""⟩

/-- A copy from a stage with the file `/bin`, and `/srv` with a file and a link to it. -/
def copyOf (src : String) : StageCopy where
  ar := plainArchives
  source := .ofRun ⟨∅, ∅, ∅⟩ [.host (.putFileAt "bin" [7]), .host (.putFileAt "srv/a" [8]), .host (.putSymlinkAt "srv/l" "a")]
  backing := ⟨∅, ∅, ∅⟩
  workdir := "/"
  src := src
  dest := "/app"

theorem srv_names : (copyOf "/srv").names = ["srv"] := by decide +kernel

theorem srv_spelled : (copyOf "/srv").Spelled := ⟨by decide +kernel, by rw [srv_names]; nofun⟩

theorem srv_only {p : List String} (selected : (copyOf "/srv").Selects p) :
    p = ["srv", "a"] ∨ p = ["srv", "l"] ∨ p = ["srv"] := by
  obtain ⟨kind, content⟩ := selected.content
  have below : ["srv"] <+: p := srv_names ▸ selected.1
  have some_left : p ≠ [] := fun same => absurd (same ▸ below) (by decide)
  have listed := List.mem_mergeSort.1 ((Fs.mem_snapshot (copyOf "/srv").source.shaped (copyOf "/srv").source.named).2
    ⟨p, some_left, rfl, content⟩)
  have named := List.mem_map_of_mem (f := fun row => components row.1) listed
  have all : ((Table.rows (Table.ofRows ((copyOf "/srv").source.fs.snapshotRows
      (copyOf "/srv").source.fs.nodes.entries.length root ""))).map fun row => components row.1) =
        [["bin"], ["srv", "a"], ["srv", "l"], ["srv"]] := by
    decide +kernel
  rw [all, components_joinSlash (StageCopy.kind_named content)] at named
  refine (List.mem_cons.1 named).elim (fun same => ?_) fun rest => by simpa using rest
  rw [same] at below
  exact absurd below (by decide)

theorem srv_carried : (copyOf "/srv").Carried where
  spelled := srv_spelled
  rooted := .inl (by decide +kernel)
  read p selected v leaf := by
    rcases srv_only selected with rfl | rfl | rfl
    · cases leaf
      exact .inr ⟨[8], rfl, by decide +kernel⟩
    · cases leaf
      exact .inl ⟨"a", rfl⟩
    · cases leaf
  taken _ _ _ := rfl
  shown p selected := by
    refine ⟨p, selected, List.prefix_rfl, .inr ?_⟩
    rcases srv_only selected with rfl | rfl | rfl <;> decide +kernel

/-- A directory of a stage is transported, with the file and the link below it. -/
theorem srv_copied : (copyOf "/srv").Transports := by
  have inside : {q | q = [] ∨ ∃ p, (copyOf "/srv").Selects p ∧ q <+: (copyOf "/srv").place p} ⊆
      (([["app", "a"], ["app", "l"]].flatMap List.inits).toFinset : Set (List String)) := by
    rintro q (rfl | ⟨p, selected, up⟩)
    · simp
    · have placed : (copyOf "/srv").place p ∈ [["app", "a"], ["app", "l"], ["app"]] := by
        rcases srv_only selected with rfl | rfl | rfl <;> decide +kernel
      have onto : ∀ r ∈ [["app", "a"], ["app", "l"], ["app"]], ∀ q ∈ r.inits,
          q ∈ [["app", "a"], ["app", "l"]].flatMap List.inits := by decide
      exact List.mem_toFinset.2 (onto _ placed q ((List.mem_inits _ _).2 up))
  have few : (copyOf "/srv").size < maxFsNodes := by
    refine (Set.ncard_le_ncard inside (Finset.finite_toSet _)).trans_lt ?_
    rw [Set.ncard_coe_finset]
    decide +kernel
  exact ((copied _).1 (fun _ _ _ _ _ => ⟨rfl, rfl, rfl, rfl⟩) few).2 (.inr srv_carried)

/-- The file, spelled with a slash at its end, is not found. -/
theorem bin_misspelled : (copyOf "/bin/").kind (copyOf "/bin/").names ≠ none ∧ ¬ (copyOf "/bin/").Transports := by
  have names : (copyOf "/bin/").names = ["bin"] := by decide +kernel
  have there : (copyOf "/bin/").kind ["bin"] = some .privateFile := by decide +kernel
  rw [names, there]
  refine ⟨nofun, fun transports => ?_⟩
  have missed : (copyOf "/bin/").hits = [] := by
    by_contra some_hit
    exact absurd (StageCopy.hits_ne_nil.1 some_hit).1.1 (by decide +kernel)
  rw [StageCopy.Transports, StageCopy.result_eq, if_pos missed, names, there] at transports
  cases transports

end Poles

end Wk.Images
