/-
# Wk.Images.Stages -- the stages of a build, and which one a copy is out of

A build runs the stages of a Dockerfile one after the other.  Every stage has a filesystem of its
own, which is kept once the stage is finished: under the stage's name if it has one, and under its
index otherwise.

* `before_finished`: what is kept after some stages, and under which keys.
* `before_kept`: a finished filesystem is never changed again.
* `stage_addressed`: a copy out of a stage finds the one that is meant exactly where an index is
  that of a stage without a name and no name of another, or the first stage of that name.
-/
import Wk.Images

namespace Wk.Images

open Wk.Library Wk.Vfs

set_option autoImplicit false

/-! ## Dockerfiles -/

/-- One parsed instruction. -/
inductive Instr
  | from_ (image : String) (alias_ : Option String)
  | copy (srcs : List String) (dest : String) (from_ : Option String)
  | add (srcs : List String) (dest : String)
  | entrypoint (argv : List String)
  | cmd (argv : List String)
  | env (pairs : List (String × String))
  | run (argv : List String)
  | workdir (dir : String)
  | label (pairs : List (String × String))
  | ignored (keyword : String)
  deriving DecidableEq

def Instr.isFrom : Instr → Bool
  | .from_ .. => true
  | _ => false

/-- One build stage: a `FROM` and everything up to the next one. -/
structure Stage where
  image : String
  alias_ : Option String
  instructions : List Instr
  deriving DecidableEq

/-- The stages of a Dockerfile, in order. -/
def stages : List Instr → List Stage
  | [] => []
  | .from_ image alias_ :: rest => ⟨image, alias_, rest.takeWhile fun instr => !instr.isFrom⟩ :: stages rest
  | _ :: rest => stages rest

/-- A stored image: what to mount and how to run it. -/
structure ImageManifest where
  layers : List String
  entrypoint : List String
  cmd : List String
  env : List (String × String)
  workdir : Option String
  labels : Table String String

def ImageManifest.empty : ImageManifest := ⟨[], [], [], [], none, ∅⟩

/-! ## Building -/

/-- What a build is surrounded by. -/
structure Surroundings where
  ar : Archives
  /-- The images of the local store, by any reference. -/
  image : String → Option ImageManifest
  /-- A stored layer, by its digest. -/
  layer : String → Except String Layer
  /-- Store a layer; its digest. -/
  putLayer : Tar → Except String String
  /-- The layer of a copy from the build context, by the working directory, sources and destination. -/
  copyLayer : String → List String → String → Except String Tar
  addLayer : String → List String → String → Except String Tar
  /-- What runs a wasm file with its arguments and environment on a filesystem. -/
  runner : Option (Bytes → List String → List (String × String) → Fs → Except String Fs)
  /-- Store an image with its executable; its id. -/
  saveImage : ImageManifest → Bytes → Except String String
  cells : Table Nat Bytes
  disk : Table String Bytes

/-- The filesystems of a build, each by its place in the list, and the bytes of all layer files. -/
structure Roots where
  roots : List Fs
  files : List Bytes

namespace Roots

variable (r : Roots) (h : Nat)

def root (h : Nat) : Fs := (r.roots[h]?).getD Fs.new

def set (fs : Fs) : Roots := { r with roots := r.roots.set h fs }

/-- Apply a layer to one filesystem. -/
def apply (l : Layer) : Roots :=
  { roots := r.roots.modify h fun fs => fs.apply l r.files.length "", files := r.files ++ l.files }

end Roots

/-- What a stage is at: its manifest, its working directory, and the filesystems. -/
structure StageState where
  manifest : ImageManifest
  workdir : String
  roots : Roots

/-- Find the stage a name refers to: an alias, or an index. -/
def resolveStage (finished : List (Option String × Nat)) (name : String) : Option Nat :=
  (finished.find? fun kept => kept.1 = some name).map (·.2)

/-- What was written since a snapshot, as a layer: deletions as whiteouts, the topmost only. -/
def diffLayer (ar : Archives) (b : Backing) (before : List (String × PathKind)) (fs : Fs) : Except String (Option Tar) := do
  let after := fs.snapshot
  let mut tar : Tar := []
  let mut changed := false
  for (path, _) in before do
    if (after.lookup path).isNone then
      let (dir, name) := rsplitSlash path
      if (before.lookup dir).isSome && (after.lookup dir).isNone then
        continue
      tar ← ar.tarFile tar (if dir = "" then ".wh." ++ name else dir ++ "/.wh." ++ name) []
      changed := true
  for (path, kind) in after do
    match kind with
    | .dir =>
      if (before.lookup path).isNone then
        tar ← ar.tarDirEntry tar path
        changed := true
    | .privateFile =>
      match fs.readFile b path usizeMax with
      | some data =>
        tar ← ar.tarFile tar path data
        changed := true
      | none => throw ("diff: " ++ path ++ " vanished")
    | .symlink target =>
      if before.lookup path ≠ some kind then
        tar ← ar.tarSymlink tar path target
        changed := true
    | .layerFile | .mounted => pure ()
  return if changed then some tar else none

def noSuchStage (name : String) : String :=
  "COPY --from=" ++ name ++ ": no such earlier stage" ++ String.ofList (List.replicate 34 ' ') ++
    "(name it with `FROM ... AS " ++ name ++ "`, or use its index)"

namespace Surroundings

variable (env : Surroundings)

def backing (r : Roots) : Backing := ⟨env.cells, env.disk, Table.ofRows (r.files.zipIdx.map fun (data, i) => (i, .eager data))⟩

/-- Store a layer and apply it. -/
def applyTar (rootfs : Nat) (s : StageState) (tar : Tar) : Except String StageState := do
  let digest ← env.putLayer tar
  .ok { s with
    roots := s.roots.apply rootfs (fromTarBytes tar)
    manifest := { s.manifest with layers := s.manifest.layers ++ [digest] } }

/-- Start from an image of the store. -/
def startFrom (rootfs : Nat) (s : StageState) (image : String) : Except String StageState :=
  if image = "scratch" then .ok s
  else
    match env.image image with
    | none => .error ("base image " ++ image.quote ++ " is not in the local store (FROM scratch, or pull/build+tag it first)")
    | some base => do
      let roots ← base.layers.foldlM (fun r digest => return r.apply rootfs (← env.layer digest)) s.roots
      .ok {
        roots
        workdir := base.workdir.getD s.workdir
        manifest :=
          { layers := s.manifest.layers ++ base.layers
            env := s.manifest.env ++ base.env
            entrypoint := base.entrypoint
            cmd := base.cmd
            labels := (Table.rows base.labels).foldl (fun t row => t.insert row.1 row.2) s.manifest.labels
            workdir := base.workdir.or s.manifest.workdir } }

/-- Run a wasm file of the filesystem on the filesystem. -/
def runWasm (rootfs : Nat) (s : StageState) (argv : List String) : Except String StageState :=
  match env.runner with
  | none => .error "RUN needs a build runner (wasm execution); build through wk"
  | some runner =>
    match argv.head? with
    | none => .error "RUN needs a command (a wasm path in the rootfs)"
    | some exe =>
      match (s.roots.root rootfs).readFile (env.backing s.roots) exe usizeMax with
      | none => .error ("RUN " ++ exe ++ ": not found in the rootfs built so far")
      | some wasm =>
        if ¬ [0, 0x61, 0x73, 0x6d].isPrefixOf wasm then .error ("RUN " ++ exe ++ ": not a wasm file")
        else do
          let fs ← runner wasm argv s.manifest.env (s.roots.root rootfs)
          let diff ← diffLayer env.ar (env.backing s.roots) (s.roots.root rootfs).snapshot fs
          match diff with
          | some tar => env.applyTar rootfs { s with roots := s.roots.set rootfs fs } tar
          | none => .ok { s with roots := s.roots.set rootfs fs }

/-- One instruction of the stage with the filesystem `rootfs`. -/
def instr (finished : List (Option String × Nat)) (rootfs : Nat) (s : StageState) : Instr → Except String StageState
  | .from_ image _ => env.startFrom rootfs s image
  | .copy srcs dest (some name) =>
    match resolveStage finished name with
    | none => .error (noSuchStage name)
    | some h => copyFromStage env.ar (s.roots.root h) (env.backing s.roots) s.workdir srcs dest >>= env.applyTar rootfs s
  | .copy srcs dest none => env.copyLayer s.workdir srcs dest >>= env.applyTar rootfs s
  | .add srcs dest => env.addLayer s.workdir srcs dest >>= env.applyTar rootfs s
  | .run argv => env.runWasm rootfs s argv
  | .env pairs => .ok { s with manifest := { s.manifest with env := s.manifest.env ++ pairs } }
  | .entrypoint argv => .ok { s with manifest := { s.manifest with entrypoint := argv } }
  | .cmd argv => .ok { s with manifest := { s.manifest with cmd := argv } }
  | .workdir dir => .ok { s with workdir := dir, manifest := { s.manifest with workdir := some dir } }
  | .label pairs =>
    .ok { s with manifest := { s.manifest with labels := pairs.foldl (fun t row => t.insert row.1 row.2) s.manifest.labels } }
  | .ignored _ => .ok s

end Surroundings

/-- The stage's own `FROM`, then its instructions. -/
def Stage.instrs (stage : Stage) : List Instr := .from_ stage.image none :: stage.instructions

/-- How far a build is: the finished stages, the filesystems, and the last manifest and filesystem. -/
structure Progress where
  finished : List (Option String × Nat)
  roots : Roots
  manifest : ImageManifest
  rootfs : Nat

def Progress.start : Progress := ⟨[], ⟨[], []⟩, .empty, 0⟩

/-- A new stage, with a filesystem of its own. -/
def Progress.enter (p : Progress) : StageState := ⟨.empty, "/", { p.roots with roots := p.roots.roots ++ [Fs.new] }⟩

namespace Surroundings

variable (env : Surroundings)

/-- One stage. -/
def stage (p : Progress) (numbered : Stage × Nat) : Except String Progress := do
  let s ← numbered.1.instrs.foldlM (env.instr p.finished p.roots.roots.length) p.enter
  .ok ⟨p.finished ++ [(numbered.1.alias_.or (some (toString numbered.2)), p.roots.roots.length)], s.roots, s.manifest,
    p.roots.roots.length⟩

/-- Build the image a Dockerfile describes; its id. -/
def build (instructions : List Instr) : Except String String :=
  if stages instructions = [] then .error "Dockerfile has no FROM"
  else do
    let p ← (stages instructions).zipIdx.foldlM env.stage .start
    match p.manifest.entrypoint.head?.or p.manifest.cmd.head? with
    | none => .error "the Dockerfile sets no ENTRYPOINT (or CMD)"
    | some exe =>
      match (p.roots.root p.rootfs).readFile (env.backing p.roots) exe usizeMax with
      | none => .error ("entrypoint " ++ exe.quote ++ " not found in the image rootfs")
      | some wasm => env.saveImage p.manifest wasm

end Surroundings

/-! ## What a stage keeps -/

section Kept

variable {env : Surroundings} {finished : List (Option String × Nat)} {rootfs : Nat}

/-- Nothing but one filesystem is changed, and no bytes of a layer are. -/
structure Roots.Kept (rootfs : Nat) (r r' : Roots) : Prop where
  count : r'.roots.length = r.roots.length
  others : ∀ h, h ≠ rootfs → r'.roots[h]? = r.roots[h]?
  files : r.files <+: r'.files

namespace Roots

variable {r r' r'' : Roots}

theorem Kept.refl : Kept rootfs r r := ⟨rfl, fun _ _ => rfl, List.prefix_rfl⟩

theorem Kept.trans (first : Kept rootfs r r') (second : Kept rootfs r' r'') : Kept rootfs r r'' where
  count := second.count.trans first.count
  others h other := (second.others h other).trans (first.others h other)
  files := first.files.trans second.files

theorem set_kept (fs : Fs) : Kept rootfs r (r.set rootfs fs) where
  count := List.length_set
  others _ other := List.getElem?_set_ne (Ne.symm other)
  files := List.prefix_rfl

theorem apply_kept (l : Layer) : Kept rootfs r (r.apply rootfs l) where
  count := List.length_modify ..
  others _ other := List.getElem?_modify_ne _ _ (Ne.symm other)
  files := List.prefix_append ..

end Roots

/-- Steps each of which keeps the others. -/
theorem foldlM_kept {α β : Type} {step : β → α → Except String β} {R : β → β → Prop} (refl : ∀ b, R b b)
    (trans : ∀ {b b' b''}, R b b' → R b' b'' → R b b'') (steps : ∀ {b x b'}, step b x = .ok b' → R b b') :
    ∀ {xs : List α} {b b' : β}, xs.foldlM step b = .ok b' → R b b'
  | [], b, _, done => by
    cases done
    exact refl b
  | x :: xs, b, b', done => by
    rw [List.foldlM_cons] at done
    cases next : step b x with
    | error text =>
      rw [next] at done
      cases done
    | ok mid =>
      rw [next] at done
      exact trans (steps next) (foldlM_kept refl trans steps done)

theorem bind_ok {α β : Type} {x : Except String α} {f : α → Except String β} {b : β} (done : x >>= f = .ok b) :
    ∃ a, x = .ok a ∧ f a = .ok b := by
  cases x with
  | error text => cases done
  | ok a => exact ⟨a, rfl, done⟩

namespace Surroundings

variable {s s' : StageState}

theorem applyTar_kept {tar : Tar} (done : env.applyTar rootfs s tar = .ok s') : s.roots.Kept rootfs s'.roots := by
  obtain ⟨digest, _, rest⟩ := bind_ok done
  cases rest
  exact Roots.apply_kept _

theorem startFrom_kept {image : String} (done : env.startFrom rootfs s image = .ok s') : s.roots.Kept rootfs s'.roots := by
  unfold startFrom at done
  split at done
  · cases done
    exact .refl
  · split at done
    · cases done
    · next base _ =>
        obtain ⟨roots, applied, rest⟩ := bind_ok done
        cases rest
        refine foldlM_kept (fun _ => .refl) .trans (fun {r digest r'} layered => ?_) applied
        obtain ⟨l, _, rest⟩ := bind_ok layered
        cases rest
        exact Roots.apply_kept l

theorem runWasm_kept {argv : List String} (done : env.runWasm rootfs s argv = .ok s') : s.roots.Kept rootfs s'.roots := by
  unfold runWasm at done
  split at done
  · cases done
  split at done
  · cases done
  split at done
  · cases done
  split at done
  · cases done
  obtain ⟨fs, _, done⟩ := bind_ok done
  obtain ⟨diff, _, done⟩ := bind_ok done
  split at done
  · exact (Roots.set_kept fs).trans (applyTar_kept (s := { s with roots := s.roots.set rootfs fs }) done)
  · cases done
    exact Roots.set_kept fs

theorem instr_kept {i : Instr} (done : env.instr finished rootfs s i = .ok s') : s.roots.Kept rootfs s'.roots := by
  cases i with
  | from_ image alias_ => exact startFrom_kept done
  | copy srcs dest from_ =>
    cases from_ with
    | none =>
      obtain ⟨tar, _, applied⟩ := bind_ok done
      exact applyTar_kept applied
    | some name =>
      simp only [instr] at done
      split at done
      · cases done
      · obtain ⟨tar, _, applied⟩ := bind_ok done
        exact applyTar_kept applied
  | add srcs dest =>
    obtain ⟨tar, _, applied⟩ := bind_ok done
    exact applyTar_kept applied
  | run argv => exact runWasm_kept done
  | entrypoint | cmd | env | workdir | label | ignored =>
    cases done
    exact .refl

/-- So does a run of instructions. -/
theorem run_kept {instrs : List Instr} (done : instrs.foldlM (env.instr finished rootfs) s = .ok s') :
    s.roots.Kept rootfs s'.roots :=
  foldlM_kept (R := fun s s' : StageState => s.roots.Kept rootfs s'.roots) (fun _ => .refl) .trans instr_kept done

end Surroundings

end Kept

/-! ## What is finished -/

/-- The `AS` name of a stage. -/
def aliasOf (sts : List Stage) (i : Nat) : Option String := (sts[i]?).bind Stage.alias_

/-- The key a finished stage is kept under. -/
def keyOf (sts : List Stage) (i : Nat) : Option String := (aliasOf sts i).or (some (toString i))

/-- The build after its first stages. -/
def Surroundings.before (env : Surroundings) (sts : List Stage) (j : Nat) : Except String Progress :=
  (sts.zipIdx.take j).foldlM env.stage .start

section Finished

variable {env : Surroundings} {sts : List Stage} {i j : Nat} {p p' : Progress}

theorem before_succ (inside : j < sts.length) :
    env.before sts (j + 1) = env.before sts j >>= fun p => env.stage p (sts[j], j) := by
  rw [Surroundings.before, List.take_succ_eq_append_getElem (by simpa using inside), List.foldlM_append]
  simp [Surroundings.before]

/-- A stage leaves a filesystem more, under its key, and keeps the others. -/
theorem stage_spec {numbered : Stage × Nat} (done : env.stage p numbered = .ok p') :
    p'.finished = p.finished ++ [(numbered.1.alias_.or (some (toString numbered.2)), p.roots.roots.length)] ∧
      p'.rootfs = p.roots.roots.length ∧ p'.roots.roots.length = p.roots.roots.length + 1 ∧
      (∀ h, h < p.roots.roots.length → p'.roots.roots[h]? = p.roots.roots[h]?) ∧ p.roots.files <+: p'.roots.files := by
  obtain ⟨s, ran, rest⟩ := bind_ok done
  cases rest
  have kept := Surroundings.run_kept ran
  refine ⟨rfl, rfl, ?_, fun h earlier => ?_, kept.files⟩
  · rw [kept.count]
    simp [Progress.enter]
  · rw [kept.others h (Nat.ne_of_lt earlier)]
    exact List.getElem?_append_left earlier

/-- After some stages each is kept under its key. -/
theorem before_finished : ∀ {j : Nat} {p : Progress}, j ≤ sts.length → env.before sts j = .ok p →
    p.roots.roots.length = j ∧ p.finished = (List.range j).map fun i => (keyOf sts i, i)
  | 0, p, _, done => by
    cases done
    exact ⟨rfl, rfl⟩
  | j + 1, p, inside, done => by
    rw [before_succ inside] at done
    obtain ⟨p', before, staged⟩ := bind_ok done
    obtain ⟨count, finished⟩ := before_finished (Nat.le_of_succ_le inside) before
    obtain ⟨more, _, oneMore, _⟩ := stage_spec staged
    refine ⟨by rw [oneMore, count], ?_⟩
    have key : keyOf sts j = (sts[j]).alias_.or (some (toString j)) := by
      rw [keyOf, aliasOf, List.getElem?_eq_getElem inside, Option.bind_some]
    rw [more, finished, count, List.range_succ, List.map_append, List.map_singleton, key]

/-- What is finished is never changed again. -/
theorem before_kept (started : i ≤ j) : ∀ {p : Progress}, j ≤ sts.length → env.before sts j = .ok p →
    ∃ done, env.before sts i = .ok done ∧ (∀ h, h < i → p.roots.roots[h]? = done.roots.roots[h]?) ∧
      done.roots.files <+: p.roots.files := by
  induction j, started using Nat.le_induction with
  | base => exact fun _ done => ⟨_, done, fun _ _ => rfl, List.prefix_rfl⟩
  | succ j started ih =>
    intro p inside done
    rw [before_succ inside] at done
    obtain ⟨p', before, staged⟩ := bind_ok done
    obtain ⟨first, there, same, files⟩ := ih (Nat.le_of_succ_le inside) before
    obtain ⟨_, _, _, kept, grown⟩ := stage_spec staged
    obtain ⟨count, _⟩ := before_finished (Nat.le_of_succ_le inside) before
    exact ⟨first, there, fun h earlier => (kept h (by omega)).trans (same h earlier), files.trans grown⟩

end Finished

/-! ## Which stage is found -/

/-- Stage `i` is meant by its index, or by an alias that no stage before it has. -/
def Means (sts : List Stage) (i : Nat) (name : String) : Prop :=
  name = toString i ∨ aliasOf sts i = some name ∧ ∀ k < i, aliasOf sts k ≠ some name

/-- A stage before `j` whose index is the name has it as its alias and none before it has, or it has
no alias and none before `j` has this one. -/
def Unambiguous (sts : List Stage) (j : Nat) (name : String) : Prop :=
  ∀ i < j, name = toString i →
    (aliasOf sts i = some name ∧ ∀ k < i, aliasOf sts k ≠ some name) ∨ (aliasOf sts i = none ∧ ∀ k < j, aliasOf sts k ≠ some name)

section Found

variable {sts : List Stage} {i j : Nat} {name : String}

theorem toString_inj {m n : Nat} (same : toString m = toString n) : m = n := Nat.repr_injective same

theorem keyOf_eq : keyOf sts i = some name ↔ aliasOf sts i = some name ∨ aliasOf sts i = none ∧ name = toString i := by
  rw [keyOf]
  cases aliasOf sts i with
  | none => simp [eq_comm]
  | some other => simp

theorem resolveStage_eq {h : Nat} : resolveStage ((List.range j).map fun i => (keyOf sts i, i)) name = some h ↔
    h < j ∧ keyOf sts h = some name ∧ ∀ k < h, keyOf sts k ≠ some name := by
  rw [resolveStage, List.find?_map, Option.map_map,
    show ((·.2) ∘ fun i => (keyOf sts i, i)) = id from rfl, Option.map_id, id, List.find?_range_eq_some]
  simp only [Function.comp_def, decide_eq_true_eq, List.mem_range, Bool.not_eq_true', decide_eq_false_iff_not]
  exact ⟨fun ⟨key, inside, first⟩ => ⟨inside, key, first⟩, fun ⟨inside, key, first⟩ => ⟨key, inside, first⟩⟩

theorem resolveStage_none : resolveStage ((List.range j).map fun i => (keyOf sts i, i)) name = none ↔
    ∀ k < j, keyOf sts k ≠ some name := by
  simp [resolveStage]

/-- Every stage that is meant is found, exactly where no index is ambiguous. -/
theorem found_iff : (∀ i < j, Means sts i name → resolveStage ((List.range j).map fun i => (keyOf sts i, i)) name = some i) ↔
    Unambiguous sts j name := by
  simp only [resolveStage_eq, keyOf_eq, ne_eq]
  constructor
  · intro found i inside index
    obtain ⟨_, key, first⟩ := found i inside (.inl index)
    rcases key with named | ⟨unnamed, _⟩
    · exact .inl ⟨named, fun k earlier named' => first k earlier (.inl named')⟩
    · refine .inr ⟨unnamed, fun k within named => ?_⟩
      -- the first stage with this alias is found too, so it is stage `i`
      have some_named : ∃ k, aliasOf sts k = some name := ⟨k, named⟩
      have least := Nat.find_min' some_named named
      obtain ⟨_, key', first'⟩ := found _ (by omega : Nat.find some_named < j)
        (.inr ⟨Nat.find_spec some_named, fun _ => Nat.find_min some_named⟩)
      rcases Nat.lt_trichotomy i (Nat.find some_named) with earlier | same | later
      · exact first' i earlier (.inr ⟨unnamed, index⟩)
      · have named' := Nat.find_spec some_named
        rw [← same, unnamed] at named'
        cases named'
      · exact first _ later (.inl (Nat.find_spec some_named))
  · intro clear i inside means
    have indexed : ∀ k < i, ¬ (aliasOf sts k = none ∧ name = toString k) := by
      rintro k earlier ⟨unnamed, index⟩
      rcases clear k (by omega) index with ⟨named, _⟩ | ⟨_, none_named⟩
      · rw [unnamed] at named
        cases named
      · rcases means with index' | ⟨named, _⟩
        · have same := toString_inj (index.symm.trans index')
          omega
        · exact none_named i inside named
    rcases means with index | ⟨named, first⟩
    · rcases clear i inside index with ⟨named, first⟩ | ⟨unnamed, none_named⟩
      · exact ⟨inside, .inl named, fun k earlier => not_or.2 ⟨first k earlier, indexed k earlier⟩⟩
      · exact ⟨inside, .inr ⟨unnamed, index⟩, fun k earlier => not_or.2 ⟨none_named k (by omega), indexed k earlier⟩⟩
    · exact ⟨inside, .inl named, fun k earlier => not_or.2 ⟨first k earlier, indexed k earlier⟩⟩

end Found

/-! ## A copy out of a stage -/

section Addressed

variable (env : Surroundings) (sts : List Stage) (j : Nat) (p : Progress) (s : StageState) (name : String)

/-- The build comes to stage `j` as `p`, and past `k` of its instructions as `s`. -/
structure Reaches (k : Nat) : Prop where
  entered : env.before sts j = .ok p
  here : ∃ stage, sts[j]? = some stage ∧
    (stage.instrs.take k).foldlM (env.instr p.finished p.roots.roots.length) p.enter = .ok s

/-- A copy names the filesystem that stage `i` had when it was finished, and is made out of it. -/
def CopiesOutOf (i : Nat) : Prop :=
  ∃ done fs, env.before sts (i + 1) = .ok done ∧ done.roots.roots[done.rootfs]? = some fs ∧
    resolveStage p.finished name = some done.rootfs ∧ s.roots.roots[done.rootfs]? = some fs ∧ done.roots.files <+: s.roots.files ∧
    ∀ srcs dest, env.instr p.finished p.roots.roots.length s (.copy srcs dest (some name)) =
      (copyFromStage env.ar fs (env.backing s.roots) s.workdir srcs dest >>= env.applyTar p.roots.roots.length s)

/-- Every earlier stage that is meant is copied out of, and a name that is no index or alias of one
is an error. -/
structure Addressed : Prop where
  found : ∀ i < j, Means sts i name → CopiesOutOf env sts p s name i
  missing : (∀ i < j, name ≠ toString i ∧ aliasOf sts i ≠ some name) → ∀ srcs dest,
    env.instr p.finished p.roots.roots.length s (.copy srcs dest (some name)) = .error (noSuchStage name)

variable {env sts j p s} {k : Nat}

theorem before_rootfs {i : Nat} {done : Progress} (inside : i < sts.length) (finished : env.before sts (i + 1) = .ok done) :
    done.rootfs = i := by
  rw [before_succ inside] at finished
  obtain ⟨p', before, staged⟩ := bind_ok finished
  obtain ⟨_, rootfs, _⟩ := stage_spec staged
  rw [rootfs, (before_finished (Nat.le_of_lt inside) before).1]

/-- Wherever the build is, a finished filesystem is as it was when it was finished. -/
theorem Reaches.kept (reaches : Reaches env sts j p s k) {i : Nat} (earlier : i < j) :
    ∃ done fs, env.before sts (i + 1) = .ok done ∧ done.rootfs = i ∧ done.roots.roots[i]? = some fs ∧
      s.roots.roots[i]? = some fs ∧ done.roots.files <+: s.roots.files := by
  obtain ⟨stage, there, ran⟩ := reaches.here
  have inside := (List.getElem?_eq_some_iff.1 there).1
  obtain ⟨done, finished, same, files⟩ := before_kept earlier (Nat.le_of_lt inside) reaches.entered
  obtain ⟨count, _⟩ := before_finished (Nat.le_of_lt inside) reaches.entered
  have kept := Surroundings.run_kept ran
  obtain ⟨countDone, _⟩ := before_finished (by omega : i + 1 ≤ sts.length) finished
  obtain ⟨fs, root⟩ : ∃ fs, done.roots.roots[i]? = some fs := ⟨_, List.getElem?_eq_getElem (by omega)⟩
  refine ⟨done, fs, finished, before_rootfs (by omega) finished, root, ?_, files.trans kept.files⟩
  rw [kept.others i (by omega), ← root, ← same i (Nat.lt_succ_self i)]
  exact List.getElem?_append_left (by omega)

/-- A copy out of a stage finds what is meant exactly where the name is not ambiguous. -/
theorem stage_addressed {instructions : List Instr} (reaches : Reaches env (stages instructions) j p s k) (name : String) :
    Addressed env (stages instructions) j p s name ↔ Unambiguous (stages instructions) j name := by
  obtain ⟨stage, there, _⟩ := reaches.here
  have inside := (List.getElem?_eq_some_iff.1 there).1
  obtain ⟨_, finished⟩ := before_finished (Nat.le_of_lt inside) reaches.entered
  rw [← found_iff, ← finished]
  constructor
  · intro addressed i earlier means
    obtain ⟨done, fs, before, _, found, _⟩ := addressed.found i earlier means
    rwa [before_rootfs (by omega) before] at found
  · intro found
    refine ⟨fun i earlier means => ?_, fun none_meant srcs dest => ?_⟩
    · obtain ⟨done, fs, before, rootfs, root, now, files⟩ := reaches.kept earlier
      have here := found i earlier means
      refine ⟨done, fs, before, rootfs ▸ root, rootfs ▸ here, rootfs ▸ now, files, fun srcs dest => ?_⟩
      simp only [Surroundings.instr, here, Roots.root, now, Option.getD_some]
    · have nothing : resolveStage p.finished name = none := by
        rw [finished, resolveStage_none]
        intro k earlier key
        rcases keyOf_eq.1 key with named | ⟨_, index⟩
        · exact (none_meant k earlier).2 named
        · exact (none_meant k earlier).1 index
      simp only [Surroundings.instr, nothing]

end Addressed

section Poles

/-- Nothing but empty stages can be built. -/
def bare : Surroundings where
  ar := ⟨fun _ => none, id, fun _ => .error "", fun _ => .error "", fun _ => .error ""⟩
  image _ := none
  layer _ := .error "no such layer"
  putLayer _ := .error "no store"
  copyLayer _ _ _ := .error "no context"
  addLayer _ _ _ := .error "no context"
  runner := none
  saveImage _ _ := .error "no store"
  cells := ∅
  disk := ∅

/-- A stage with a name, and one that copies out of the stage `name`. -/
def twoStages (name : String) : List Instr :=
  [.from_ "scratch" (some "build"), .from_ "scratch" none, .copy ["/bin"] "/bin" (some name)]

/-- The first of them is finished. -/
def firstDone : Progress := ⟨[(some "build", 0)], ⟨[Fs.new], []⟩, .empty, 0⟩

theorem twoStages_reach (name : String) : Reaches bare (stages (twoStages name)) 1 firstDone firstDone.enter 1 :=
  ⟨rfl, _, rfl, rfl⟩

/-- By its name the first stage is found. -/
theorem build_addressed : Addressed bare (stages (twoStages "build")) 1 firstDone firstDone.enter "build" := by
  refine (stage_addressed (twoStages_reach "build") "build").2 fun i first index => ?_
  cases Nat.lt_one_iff.1 first
  exact absurd index (by decide)

/-- By its index it is not. -/
theorem index_not_addressed : Reaches bare (stages (twoStages "0")) 1 firstDone firstDone.enter 1 ∧
    ¬ Addressed bare (stages (twoStages "0")) 1 firstDone firstDone.enter "0" := by
  refine ⟨twoStages_reach "0", fun addressed => ?_⟩
  obtain ⟨done, fs, _, _, found, _⟩ := addressed.found 0 Nat.one_pos (.inl rfl)
  have missed : resolveStage firstDone.finished "0" = none := by decide
  rw [missed] at found
  cases found

end Poles

end Wk.Images
