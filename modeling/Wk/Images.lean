/-
# Wk.Images -- building the layers of an image

The tar builder is the list of what was appended, as it reads back.  A copy out of an earlier stage picks the paths
of its snapshot by their text, and an archive's entries are re-rooted by theirs.

* `belowStart_iff`: what lies below a source by the text lies below its names, if the text is
  those names joined.
* `foldlM_ok_iff`: what steps that only append leave, one after the other.
-/
import Wk.Vfs.Snapshots

namespace Wk.Images

open Wk.Library Wk.Vfs

set_option autoImplicit false

/-! ## Paths -/

/-- `trim_start_matches` of a character. -/
def trimStart (c : Char) (s : String) : String := String.ofList (s.toList.dropWhile (· = c))

/-- `trim_end_matches` of a character. -/
def trimEnd (c : Char) (s : String) : String := String.ofList (s.toList.rdropWhile (· = c))

/-- Without the `./` in front. -/
def dropDotSlash : List Char → List Char
  | '.' :: '/' :: rest => dropDotSlash rest
  | chars => chars

def endsInSlash (s : String) : Bool := s.toList.getLast? = some '/'

/-- A destination path against the working directory, normalized. -/
def destPath (workdir dest : String) : String :=
  joinSlash (components (if Fs.absolute dest then dest else trimEnd '/' workdir ++ "/" ++ dest))

/-! ## Appending to a tar -/

/-- What reads and writes archives. -/
structure Archives where
  /-- What the tar builder has against an entry. -/
  refuses : TarEntry → Option String
  /-- An entry it took, as it is read from its archive. -/
  gives : TarEntry → TarEntry
  gunzip : Bytes → Except String Bytes
  untar : Bytes → Except String Tar
  /-- The entries of a zip: the name, whether it is a directory, the bytes. -/
  unzip : Bytes → Except String (List (String × Bool × Bytes))

namespace Archives

variable (ar : Archives)

def append (b : Tar) (label : String) (e : TarEntry) : Except String Tar :=
  match ar.refuses e with
  | none => .ok (b ++ [ar.gives e])
  | some error => .error ("tar " ++ label ++ ": " ++ error)

def tarFile (b : Tar) (path : String) (data : Bytes) : Except String Tar :=
  ar.append b path ⟨path, .regular, data, none⟩

def tarSymlink (b : Tar) (path target : String) : Except String Tar :=
  ar.append b ("symlink " ++ path) ⟨path, .symlink, [], some target⟩

def tarDirEntry (b : Tar) (path : String) : Except String Tar :=
  ar.append b (path ++ "/") ⟨path ++ "/", .directory, [], none⟩

end Archives

variable (ar : Archives)

/-! ## Copying out of a stage -/

/-- What is left of a path at or below `start`. -/
def belowStart (start path : String) : Option String :=
  if path = start then some "" else stripPrefix (start ++ "/") path

/-- Where an entry goes: the contents of a directory under the destination, a file to the
destination itself, or under it when that is a directory. -/
def copyTarget (start destBase : String) (dirDest : Bool) (kind : PathKind) (rest : String) : String :=
  let leaf := if rest ≠ "" then rest else if kind ≠ .dir ∧ dirDest then (rsplitSlash start).2 else ""
  if leaf = "" then destBase
  else if destBase = "" then leaf
  else trimEnd '/' destBase ++ "/" ++ leaf

/-- One path of the stage, with its kind and what is left of it below the source. -/
def copyEntry (fs : Fs) (b : Backing) (start destBase : String) (dirDest : Bool) (tar : Tar)
    (hit : (String × PathKind) × String) : Except String Tar :=
  let target := copyTarget start destBase dirDest hit.1.2 hit.2
  if target = "" then .ok tar
  else
    match hit.1.2 with
    | .dir => ar.tarDirEntry tar target
    | .symlink linked => ar.tarSymlink tar target linked
    | .layerFile | .privateFile | .mounted =>
      match fs.readFile b hit.1.1 usizeMax with
      | some data => ar.tarFile tar target data
      | none => .error ("COPY --from: cannot read " ++ hit.1.1.quote)

/-- The paths of the snapshot at or below a source. -/
def copyHits (fs : Fs) (start : String) : List ((String × PathKind) × String) :=
  fs.snapshot.filterMap fun row => (belowStart start row.1).map fun rest => (row, rest)

/-- The layer of a `COPY --from`. -/
def copyFromStage (fs : Fs) (b : Backing) (workdir : String) (srcs : List String) (dest : String) : Except String Tar :=
  srcs.foldlM (fun tar src =>
    let hits := copyHits fs (trimStart '/' src)
    if hits = [] then .error ("COPY --from: " ++ src.quote ++ " is not in that stage")
    else
      hits.foldlM
        (copyEntry ar fs b (trimStart '/' src) (destPath workdir dest) (1 < srcs.length || endsInSlash dest)) tar) []

/-! ## Extracting an archive -/

/-- A member's name under the destination. -/
def under (dest name : String) : String :=
  let name := trimEnd '/' (String.ofList (dropDotSlash name.toList))
  if dest = "" then name else dest ++ "/" ++ name

/-- One entry of a tar archive: a directory or a file. -/
def extractEntry (dest : String) (b : Tar) (e : TarEntry) : Except String Tar :=
  if e.name = "" then .ok b
  else
    match e.type with
    | .directory => ar.tarDirEntry b (trimEnd '/' (under dest e.name))
    | .regular => ar.tarFile b (under dest e.name) e.data
    | .continuous | .symlink | .link | .other => .ok b

def extractZipEntry (dest : String) (b : Tar) (e : String × Bool × Bytes) : Except String Tar :=
  if e.1 = "" then .ok b
  else if e.2.1 then ar.tarDirEntry b (trimEnd '/' (under dest e.1))
  else ar.tarFile b (under dest e.1) e.2.2

def gzipped (data : Bytes) : Bool := [0x1f, 0x8b].isPrefixOf data

/-- `ustar` stands in the first header. -/
def ustar (data : Bytes) : Bool := 262 < data.length && (data.drop 257).take 5 = "ustar".toUTF8.toList

def zipped (data : Bytes) : Bool := "PK\x03\x04".toUTF8.toList.isPrefixOf data || "PK\x05\x06".toUTF8.toList.isPrefixOf data

/-- The bytes of the tar in an archive. -/
def plainTar (data : Bytes) : Except String Bytes := if gzipped data then ar.gunzip data else .ok data

/-- Append an archive's entries, re-rooted under `dest`; `none` where the bytes are no archive. -/
def extractArchiveInto (b : Tar) (data : Bytes) (dest : String) : Except String (Option Tar) := do
  if gzipped data || ustar data then
    let plain ← plainTar ar data
    let entries ← ar.untar plain
    some <$> entries.foldlM (extractEntry ar dest) b
  else if zipped data then
    let entries ← ar.unzip data
    some <$> entries.foldlM (extractZipEntry ar dest) b
  else .ok none

/-! ## Paths by their text -/

theorem components_trimStart (s : String) : components (trimStart '/' s) = components s := by
  have dropped : ∀ cs : List Char, components (String.ofList (cs.dropWhile (· = '/'))) = components (String.ofList cs) := by
    intro cs
    induction cs with
    | nil => rfl
    | cons c cs ih =>
      by_cases slash : c = '/'
      · subst slash
        rw [List.dropWhile_cons_of_pos (by simp), ih,
          show String.ofList ('/' :: cs) = "" ++ "/" ++ String.ofList cs by simp,
          components_slash, components_empty, List.nil_append]
      · rw [List.dropWhile_cons_of_neg (by simpa using slash)]
  rw [trimStart, dropped, String.ofList_toList]

theorem components_trimEnd (s : String) : components (trimEnd '/' s) = components s := by
  have dropped : ∀ cs : List Char, components (String.ofList (cs.rdropWhile (· = '/'))) = components (String.ofList cs) := by
    intro cs
    induction cs using List.reverseRecOn with
    | nil => rfl
    | append_singleton cs c ih =>
      by_cases slash : c = '/'
      · subst slash
        rw [List.rdropWhile_concat_pos _ _ _ (by simp), ih,
          show String.ofList (cs ++ ['/']) = String.ofList cs ++ "/" ++ "" by simp,
          components_slash, components_empty, List.append_nil]
      · rw [List.rdropWhile_concat_neg _ _ _ (by simpa using slash)]
  rw [trimEnd, dropped, String.ofList_toList]

theorem components_dir (path : String) : components (path ++ "/") = components path := by
  have split := components_slash path ""
  rwa [components_empty, List.append_nil, String.append_empty] at split

theorem joinSlash_append {p q : List String} (some_left : p ≠ []) (more : q ≠ []) :
    joinSlash (p ++ q) = joinSlash p ++ "/" ++ joinSlash q :=
  String.intercalate_append_of_ne_nil some_left more

theorem joinSlash_eq_empty {p : List String} (named : ∀ name ∈ p, IsName name) : joinSlash p = "" ↔ p = [] :=
  ⟨fun same => by_contra fun some_left => joinSlash_ne_empty some_left named same, fun same => same ▸ rfl⟩

/-- Joined, the parts of a string are the string. -/
theorem joinSlash_parts (cs : List Char) : joinSlash ((splitSlash cs).map String.ofList) = String.ofList cs := by
  induction cs with
  | nil => rfl
  | cons c cs ih =>
    obtain ⟨part, parts, split⟩ := List.exists_cons_of_ne_nil (splitSlash_ne_nil cs)
    by_cases slash : c = '/'
    · subst slash
      rw [show splitSlash ('/' :: cs) = [] :: splitSlash cs from rfl, List.map_cons, joinSlash,
        String.intercalate_cons_of_ne_nil (by simp [split]), ← joinSlash, ih]
      simp
    · have first : splitSlash (c :: cs) = (c :: part) :: parts := by simp [splitSlash, split]
      rw [first, List.map_cons, joinSlash]
      rw [split, List.map_cons, joinSlash] at ih
      by_cases last : parts = []
      · subst last
        simp only [List.map_nil, String.intercalate_singleton] at ih ⊢
        simpa [← String.toList_inj] using ih
      · rw [String.intercalate_cons_of_ne_nil (by simpa using last)] at ih ⊢
        simp only [← String.toList_inj] at ih ⊢
        simpa using ih

theorem trimEnd_joinSlash {p : List String} (named : ∀ name ∈ p, IsName name) : trimEnd '/' (joinSlash p) = joinSlash p := by
  rcases List.eq_nil_or_concat' p with rfl | ⟨dirs, base, rfl⟩
  · rfl
  · obtain ⟨notEmpty, _, plain⟩ := named base (by simp)
    have ends : ∃ cs, (joinSlash (dirs ++ [base])).toList = cs ++ base.toList := by
      by_cases none_left : dirs = []
      · exact ⟨[], by simp [none_left, joinSlash]⟩
      · exact ⟨(joinSlash dirs).toList ++ ['/'], by rw [joinSlash_append none_left (by simp)]; simp [joinSlash]⟩
    obtain ⟨cs, ends⟩ := ends
    have some_left : base.toList ≠ [] := fun same => notEmpty (String.toList_inj.1 same)
    rw [trimEnd, ends, List.rdropWhile_eq_self_iff.2, ← ends, String.ofList_toList]
    intro _ slash
    rw [List.getLast_append_of_ne_nil _ some_left] at slash
    exact plain (by simpa using (of_decide_eq_true slash) ▸ List.getLast_mem some_left)

/-- What lies below a start, by the text, is what lies below its names. -/
theorem belowStart_iff {p : List String} (some_left : p ≠ []) (named : ∀ name ∈ p, IsName name) {start rest : String} :
    belowStart start (joinSlash p) = some rest ↔
      ∃ s, s ≠ [] ∧ s <+: p ∧ start = joinSlash s ∧ rest = joinSlash (p.drop s.length) := by
  have parts := splitSlash_join some_left named
  have back : (p.map String.toList).map String.ofList = p := by simp [Function.comp_def]
  constructor
  · intro below
    unfold belowStart at below
    split at below
    · next here =>
        cases below
        exact ⟨p, some_left, List.prefix_rfl, here.symm, by simp [joinSlash]⟩
    · unfold stripPrefix at below
      split at below
      · next up =>
          cases below
          obtain ⟨tail, whole⟩ := up
          have whole' : (joinSlash p).toList = start.toList ++ '/' :: tail := by
            rw [← whole]
            simp
          have split : p = (splitSlash start.toList).map String.ofList ++ (splitSlash tail).map String.ofList := by
            rw [← List.map_append, ← splitSlash_slash, ← whole', parts, back]
          refine ⟨(splitSlash start.toList).map String.ofList, by simpa using splitSlash_ne_nil _, ⟨_, split.symm⟩, ?_, ?_⟩
          · rw [joinSlash_parts, String.ofList_toList]
          · rw [← whole, List.drop_left, split, List.drop_left, joinSlash_parts]
      · cases below
  · rintro ⟨s, some_left', ⟨more, rfl⟩, rfl, rfl⟩
    rw [List.drop_left]
    unfold belowStart
    by_cases last : more = []
    · subst last
      simp [joinSlash]
    · have other : joinSlash (s ++ more) ≠ joinSlash s := by
        intro same
        have back := Fs.joinSlash_inj named (fun name member => named name (List.mem_append_left _ member)) same
        exact last (by simpa using back)
      have whole : (joinSlash (s ++ more)).toList = (joinSlash s ++ "/").toList ++ (joinSlash more).toList := by
        rw [joinSlash_append some_left' last]
        simp
      rw [if_neg other, stripPrefix, if_pos (whole ▸ List.prefix_append ..), whole, List.drop_left, String.ofList_toList]

/-! ## Appending one after the other -/

theorem Archives.append_eq (b : Tar) (label : String) (e : TarEntry) :
    ar.append b label e = (b ++ ·) <$> ar.append [] label e := by
  unfold Archives.append
  cases ar.refuses e <;> rfl

theorem Archives.append_ok {label : String} {e : TarEntry} {b : Tar} :
    ar.append [] label e = .ok b ↔ ar.refuses e = none ∧ b = [ar.gives e] := by
  unfold Archives.append
  cases ar.refuses e <;> simp [eq_comm]

/-- The builder gives an entry back, if in another spelling of its path.  (It spells the target
of a link its own way too, so it does not give back a link to `a//b`.) -/
structure Archives.GivesBack (e : TarEntry) : Prop where
  path : (ar.gives e).path = e.path
  type : (ar.gives e).type = e.type
  data : (ar.gives e).data = e.data
  linkName : (ar.gives e).linkName = e.linkName

variable {ar}

theorem Archives.GivesBack.kept_iff {e : TarEntry} (back : ar.GivesBack e) : (ar.gives e).Kept ↔ e.Kept := by
  rw [TarEntry.Kept, back.path, back.type, TarEntry.Kept]

theorem Archives.GivesBack.adds {e : TarEntry} (back : ar.GivesBack e) : (ar.gives e).adds = e.adds := by
  rw [TarEntry.adds, back.path, back.type, back.data, back.linkName, TarEntry.adds]

/-- An archive of entries given back makes what they make. -/
theorem fromTarBytes_gives {tar : Tar} (back : ∀ e ∈ tar, ar.GivesBack e) : fromTarBytes (tar.map ar.gives) = fromTarBytes tar := by
  unfold fromTarBytes
  generalize (⟨[], []⟩ : Layer) = l
  induction tar generalizing l with
  | nil => rfl
  | cons e tar ih =>
    have here := back e List.mem_cons_self
    have same : l.push (ar.gives e) = l.push e := by
      have path : normalize (ar.gives e).name = normalize e.name := congrArg joinSlash here.path
      rw [Layer.push, path, here.type, here.data, here.linkName, Layer.push]
    rw [List.map_cons, List.foldl_cons, same]
    exact ih (fun e' there => back e' (List.mem_cons_of_mem _ there)) _

/-- Steps that only append, one after the other. -/
theorem foldlM_ok_iff {α : Type} {step : Tar → α → Except String Tar} (appends : ∀ b x, step b x = (b ++ ·) <$> step [] x) :
    ∀ (xs : List α) {b out : Tar}, xs.foldlM step b = .ok out ↔
      (∀ x ∈ xs, ∃ more, step [] x = .ok more) ∧ out = b ++ xs.flatMap fun x => (step [] x).toOption.getD []
  | [], b, out => by simp [pure, Except.pure, eq_comm]
  | x :: xs, b, out => by
    rw [List.foldlM_cons, appends]
    cases first : step [] x with
    | error text =>
      simp only [List.mem_cons, forall_eq_or_imp, first]
      exact ⟨nofun, fun ⟨⟨⟨_, never⟩, _⟩, _⟩ => nomatch never⟩
    | ok more =>
      refine (foldlM_ok_iff appends xs).trans ?_
      simp [first, Except.toOption]

end Wk.Images
