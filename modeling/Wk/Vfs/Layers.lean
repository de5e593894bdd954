/-
# Wk.Vfs.Layers -- image layers, and applying one to an empty filesystem

A tar archive is the list of its entries.  Loading one gives a layer, whose entries name
directories, files, links and what to remove from the layers below; applying it removes, then
makes directories, then places files, then links.

* `fromTarBytes_made`: which entries of an archive a layer adds, and in which order.
* `apply_pictures`: an empty filesystem becomes the tree made of them.
* `leaves_iff_carries`: where that is what a list of additions means.
-/
import Wk.Vfs.Pictures

namespace Wk.Vfs

open Wk.Library Relation

set_option autoImplicit false

/-! ## Archives and layers -/

inductive EntryType
  | directory | regular | continuous | symlink | link | other
  deriving DecidableEq

/-- One entry of a tar archive. -/
structure TarEntry where
  name : String
  type : EntryType
  data : Bytes
  linkName : Option String

abbrev Tar := List TarEntry

/-- One entry of a layer; a file by the index of its bytes. -/
inductive LayerEntry
  | dir (path : String)
  | file (path : String) (bytes : Nat)
  | symlink (path target : String)
  | whiteout (path : String)
  | opaqueDir (path : String)

/-- An immutable layer, and the bytes of its files. -/
structure Layer where
  entries : List LayerEntry
  files : List Bytes

def joinSlash (names : List String) : String := "/".intercalate names

/-- Normalize a member path: drop the empty components and `.`. -/
def normalize (path : String) : String := joinSlash (components path)

/-- What is before the last slash, and what is after it. -/
def rsplitSlash (path : String) : String × String :=
  (joinSlash ((splitSlash path.toList).map String.ofList).dropLast,
    (((splitSlash path.toList).map String.ofList).getLast?).getD "")

def stripPrefix (head s : String) : Option String :=
  if head.toList <+: s.toList then some (String.ofList (s.toList.drop head.toList.length)) else none

/-- Classify a normalized path into an addition, a whiteout or an opaque marker. -/
def classify (path : String) (file : Option Nat) : LayerEntry :=
  if (rsplitSlash path).2 = ".wh..wh..opq" then .opaqueDir (rsplitSlash path).1
  else
    match stripPrefix ".wh." (rsplitSlash path).2 with
    | some target =>
      .whiteout (if (rsplitSlash path).1 = "" then target else (rsplitSlash path).1 ++ "/" ++ target)
    | none =>
      match file with
      | some bytes => .file path bytes
      | none => .dir path

/-- One entry of an archive more. -/
def Layer.push (l : Layer) (e : TarEntry) : Layer :=
  let path := normalize e.name
  if path = "" then l
  else
    match e.type with
    | .directory => { l with entries := l.entries ++ [classify path none] }
    | .regular | .continuous =>
      { entries := l.entries ++ [classify path (some l.files.length)], files := l.files ++ [e.data] }
    | .symlink | .link =>
      match e.linkName with
      | some target => { l with entries := l.entries ++ [.symlink path target] }
      | none => l
    | .other => l

/-- The layer of an archive. -/
def fromTarBytes (tar : Tar) : Layer := tar.foldl Layer.push ⟨[], []⟩

section Apply

variable (join : String → String) (base : Nat)

def LayerEntry.clears : LayerEntry → Option HostOp
  | .whiteout path => some (.removePath (join path))
  | .opaqueDir path => some (.clearDirAt (join path))
  | _ => none

def LayerEntry.ensures : LayerEntry → Option HostOp
  | .dir path => some (.ensureDirPath (join path))
  | _ => none

def LayerEntry.places : LayerEntry → Option HostOp
  | .file path bytes => some (.putRoFileAt (join path) (base + bytes))
  | _ => none

def LayerEntry.connects : LayerEntry → Option HostOp
  | .symlink path target => some (.putSymlinkAt (join path) target)
  | _ => none

end Apply

/-- Apply a layer under a path: whiteouts and opaque markers first, then directories, then files,
and links last.  The bytes of its files are those from `base` on. -/
def Fs.apply (fs : Fs) (layer : Layer) (base : Nat) (under : String) : Fs :=
  let under := normalize under
  let join := fun p => if under = "" then p else if p = "" then under else under ++ "/" ++ p
  (.ensureDirPath under :: (layer.entries.filterMap (LayerEntry.clears join) ++
    layer.entries.filterMap (LayerEntry.ensures join) ++ layer.entries.filterMap (LayerEntry.places join base) ++
      layer.entries.filterMap (LayerEntry.connects join))).foldl Fs.host fs

/-! ## What a layer adds -/

/-- What a file or a link holds. -/
inductive Leaf
  | file (bytes : Bytes)
  | link (target : String)
  | other
  deriving DecidableEq

/-- What a node holds, in a filesystem with the files of one layer. -/
def Layer.leaf (files : List Bytes) : FsNode → Leaf
  | .file bytes => .file bytes
  | .roFile i => .file (files.getD i [])
  | .symlink target => .link target
  | _ => .other

namespace LayerEntry

def grown : LayerEntry → Option (Addition String Leaf)
  | .dir path => some (.grow (components path))
  | _ => none

def placed (files : List Bytes) : LayerEntry → Option (Addition String Leaf)
  | .file path bytes => some (.put (components path) (.file (files.getD bytes [])))
  | _ => none

def linked : LayerEntry → Option (Addition String Leaf)
  | .symlink path target => some (.put (components path) (.link target))
  | _ => none

end LayerEntry

/-- What a layer adds, in the order in which it is applied. -/
def Layer.made (l : Layer) : List (Addition String Leaf) :=
  l.entries.filterMap LayerEntry.grown ++ l.entries.filterMap (LayerEntry.placed l.files) ++
    l.entries.filterMap LayerEntry.linked

section Apply

variable {U : Finset (List String)} {l : Layer}

/-- What is made of the same entries, entry by entry. -/
theorem filterMap_adds {read : FsNode → Leaf} {f : LayerEntry → Option HostOp} {g : LayerEntry → Option (Addition String Leaf)}
    (same : ∀ e, Option.Rel (Fs.Adds read) (f e) (g e)) (entries : List LayerEntry) :
    List.Forall₂ (Fs.Adds read) (entries.filterMap f) (entries.filterMap g) :=
  List.rel_filterMap (R := Eq) (fun e _ here => here ▸ same e) (List.forall₂_refl entries)

/-- Nothing can be removed from an empty filesystem. -/
theorem clears_new {e : LayerEntry} {op : HostOp} (clears : e.clears id = some op) : Fs.new.host op = Fs.new := by
  have children : ∀ id, Fs.new.nodes.lookup id = none ∨ id = root ∧ Fs.new.nodes.lookup id = some (.dir ∅) := by
    intro id
    by_cases atRoot : id = root
    · subst atRoot
      exact .inr ⟨rfl, rfl⟩
    · exact .inl (AList.lookup_eq_none.2 fun member => atRoot (List.mem_singleton.1 (AList.mem_keys.1 member)))
  cases e with
  | whiteout path =>
    cases clears
    show Fs.new.removePath path = Fs.new
    unfold Fs.removePath
    split
    · rfl
    · split
      · next p _ =>
          rcases children p with absent | ⟨rfl, found⟩
          · rw [Fs.removePathIn, absent]
          · rfl
      · rfl
  | opaqueDir path =>
    cases clears
    show Fs.new.clearDirAt path = Fs.new
    unfold Fs.clearDirAt
    split
    · rfl
    · next p _ =>
        rcases children p with absent | ⟨rfl, found⟩
        · rw [absent]
        · rfl
  | _ => cases clears

/-- A layer applied to an empty filesystem makes the tree of what it adds. -/
theorem apply_pictures (room : Fs.Room U) (root_in : [] ∈ U) (members : ∀ a ∈ l.made, a.path ∈ U) :
    Fs.Pictures (Layer.leaf l.files) (Fs.new.apply l 0 "") (PathTree.empty.make l.made) := by
  have cleared : ∀ es : List LayerEntry, (es.filterMap (LayerEntry.clears id)).foldl Fs.host Fs.new = Fs.new := by
    intro es
    induction es with
    | nil => rfl
    | cons e es ih =>
      rw [List.filterMap_cons]
      split
      · exact ih
      · next op clears => rwa [List.foldl_cons, clears_new clears]
  have same : Fs.new.apply l 0 "" = (l.entries.filterMap (LayerEntry.ensures id) ++
      l.entries.filterMap (LayerEntry.places id 0) ++ l.entries.filterMap (LayerEntry.connects id)).foldl Fs.host Fs.new := by
    have nothing : normalize "" = "" := by rw [normalize, components_empty]; rfl
    have ensured : Fs.new.host (.ensureDirPath "") = Fs.new := by
      show (Fs.new.ensureDirs root (components "")).1 = Fs.new
      rw [components_empty]
      rfl
    rw [Fs.apply]
    simp only [nothing, if_true, List.foldl_cons, ensured, List.append_assoc]
    rw [List.foldl_append]
    exact congrArg (List.foldl Fs.host · _) (cleared l.entries)
  rw [same]
  refine Fs.hosted_pictures room ?_ members Fs.Pictures.new fun q stands => ?_
  · refine List.rel_append (List.rel_append ?_ ?_) ?_
    · refine filterMap_adds (fun e => ?_) _
      cases e with
      | dir path => exact .some rfl
      | _ => exact .none
    · refine filterMap_adds (fun e => ?_) _
      cases e with
      | file path bytes => exact .some ⟨rfl, by rw [Nat.zero_add]; rfl⟩
      | _ => exact .none
    · refine filterMap_adds (fun e => ?_) _
      cases e with
      | symlink path target => exact .some ⟨rfl, rfl⟩
      | _ => exact .none
  · by_cases atRoot : q = []
    · rwa [atRoot]
    · exact absurd (PathTree.empty_free atRoot) stands

end Apply

/-! ## The layer of an archive -/

theorem splitSlash_join : ∀ {names : List String}, names ≠ [] → (∀ name ∈ names, IsName name) →
    splitSlash (joinSlash names).toList = names.map String.toList
  | [], some_left, _ => absurd rfl some_left
  | [name], _, named => by
    rw [joinSlash, String.intercalate_singleton, splitSlash_part (named name List.mem_cons_self).2.2]
    rfl
  | name :: next :: rest, _, named => by
    have later := splitSlash_join (List.cons_ne_nil next rest) fun n member => named n (List.mem_cons_of_mem _ member)
    have split : (joinSlash (name :: next :: rest)).toList = name.toList ++ '/' :: (joinSlash (next :: rest)).toList := by
      rw [joinSlash, String.intercalate_cons_cons]
      simp [joinSlash]
    rw [split, splitSlash_slash, later, splitSlash_part (named name List.mem_cons_self).2.2]
    rfl

theorem components_joinSlash {names : List String} (named : ∀ name ∈ names, IsName name) :
    components (joinSlash names) = names := components_join named

theorem joinSlash_ne_empty {names : List String} (some_left : names ≠ []) (named : ∀ name ∈ names, IsName name) :
    joinSlash names ≠ "" := by
  intro same
  have none_left := components_joinSlash named
  rw [same, components_empty] at none_left
  exact some_left none_left.symm

theorem rsplitSlash_join {dirs : List String} {base : String} (named : ∀ name ∈ dirs ++ [base], IsName name) :
    rsplitSlash (joinSlash (dirs ++ [base])) = (joinSlash dirs, base) := by
  have parts : (splitSlash (joinSlash (dirs ++ [base])).toList).map String.ofList = dirs ++ [base] := by
    rw [splitSlash_join (by simp) named, List.map_map]
    simp [Function.comp_def]
  rw [rsplitSlash, parts, List.dropLast_concat, List.getLast?_concat]
  rfl

/-- The last name of a path is that of a whiteout. -/
def hidden (path : List String) : Bool := path.getLast?.any fun base => ".wh.".toList.isPrefixOf base.toList

theorem stripPrefix_isSome {head s : String} : (stripPrefix head s).isSome = head.toList.isPrefixOf s.toList := by
  rw [stripPrefix, Bool.eq_iff_iff, List.isPrefixOf_iff_prefix]
  split <;> simp_all

/-- A path that is not hidden is that of a directory or a file. -/
theorem classify_shown {path : List String} (some_left : path ≠ []) (named : ∀ name ∈ path, IsName name)
    (shown : hidden path = false) (file : Option Nat) :
    classify (joinSlash path) file = file.elim (.dir (joinSlash path)) (.file (joinSlash path)) := by
  obtain ⟨dirs, base, rfl⟩ := (List.eq_nil_or_concat' path).resolve_left some_left
  have notHead : ".wh.".toList.isPrefixOf base.toList = false := by simpa [hidden] using shown
  have kept : stripPrefix ".wh." base = none := by
    rw [← Option.not_isSome_iff_eq_none, stripPrefix_isSome, notHead]
    exact Bool.false_ne_true
  have other : base ≠ ".wh..wh..opq" := by
    rintro rfl
    exact absurd notHead (by decide)
  unfold classify
  rw [rsplitSlash_join named, if_neg other, kept]
  cases file <;> rfl

/-- A hidden path adds nothing. -/
theorem classify_hidden {path : List String} (some_left : path ≠ []) (named : ∀ name ∈ path, IsName name)
    (unseen : hidden path = true) (file : Option Nat) :
    ∃ dir, classify (joinSlash path) file = .opaqueDir dir ∨ classify (joinSlash path) file = .whiteout dir := by
  obtain ⟨dirs, base, rfl⟩ := (List.eq_nil_or_concat' path).resolve_left some_left
  have head : ".wh.".toList.isPrefixOf base.toList = true := by simpa [hidden] using unseen
  unfold classify
  rw [rsplitSlash_join named]
  split
  · exact ⟨_, .inl rfl⟩
  · have stripped : (stripPrefix ".wh." base).isSome = true := stripPrefix_isSome.trans head
    obtain ⟨target, found⟩ := Option.isSome_iff_exists.1 stripped
    rw [found]
    exact ⟨_, .inr rfl⟩

namespace TarEntry

def path (e : TarEntry) : List String := components e.name

theorem path_named (e : TarEntry) : ∀ name ∈ e.path, IsName name := fun _ => isName_of_mem

/-- The directory an entry adds. -/
def grows (e : TarEntry) : Option (Addition String Leaf) :=
  if e.path ≠ [] ∧ e.type = .directory ∧ hidden e.path = false then some (.grow e.path) else none

/-- The file an entry adds. -/
def places (e : TarEntry) : Option (Addition String Leaf) :=
  if e.path ≠ [] ∧ (e.type = .regular ∨ e.type = .continuous) ∧ hidden e.path = false then
    some (.put e.path (.file e.data))
  else none

/-- The link an entry adds, which is never taken for a whiteout. -/
def connects (e : TarEntry) : Option (Addition String Leaf) :=
  if e.path ≠ [] ∧ (e.type = .symlink ∨ e.type = .link) then e.linkName.map fun target => .put e.path (.link target)
  else none

end TarEntry

/-- The layer `l` was made of `tar`. -/
structure Layer.Of (l : Layer) (tar : Tar) : Prop where
  grown : l.entries.filterMap LayerEntry.grown = tar.filterMap TarEntry.grows
  placed : l.entries.filterMap (LayerEntry.placed l.files) = tar.filterMap TarEntry.places
  linked : l.entries.filterMap LayerEntry.linked = tar.filterMap TarEntry.connects
  files : ∀ path i, .file path i ∈ l.entries → i < l.files.length

/-- The entries that `e` makes stand for what it adds. -/
theorem Layer.Of.push {l : Layer} {tar : Tar} (of : l.Of tar) (e : TarEntry) (new : List LayerEntry) (more : List Bytes)
    (grown : new.filterMap LayerEntry.grown = [e].filterMap TarEntry.grows)
    (placed : new.filterMap (LayerEntry.placed (l.files ++ more)) = [e].filterMap TarEntry.places)
    (linked : new.filterMap LayerEntry.linked = [e].filterMap TarEntry.connects)
    (files : ∀ path i, .file path i ∈ new → i < (l.files ++ more).length) :
    Layer.Of ⟨l.entries ++ new, l.files ++ more⟩ (tar ++ [e]) where
  grown := by rw [List.filterMap_append, List.filterMap_append, of.grown, grown]
  placed := by
    rw [List.filterMap_append, List.filterMap_append, ← of.placed, placed]
    refine congrArg (· ++ _) (List.filterMap_congr fun entry member => ?_)
    cases entry with
    | file path i =>
      have inside := of.files path i member
      simp only [LayerEntry.placed, List.getD_eq_getElem?_getD, List.getElem?_append_left inside]
    | _ => rfl
  linked := by rw [List.filterMap_append, List.filterMap_append, of.linked, linked]
  files path i member := by
    rcases List.mem_append.1 member with before | last
    · have inside := of.files path i before
      simp only [List.length_append]
      omega
    · exact files path i last

/-- An entry that makes nothing. -/
theorem Layer.Of.skip {l : Layer} {tar : Tar} (of : l.Of tar) {e : TarEntry} (grows : e.grows = none)
    (places : e.places = none) (connects : e.connects = none) : l.Of (tar ++ [e]) := by
  have same := of.push e [] [] (by simp [grows]) (by simp [places]) (by simp [connects]) nofun
  simpa using same

section Pushed

variable {l : Layer} {tar : Tar} {e : TarEntry}

theorem Layer.Of.directory (of : l.Of tar) (some_left : e.path ≠ []) (type : e.type = .directory) :
    Layer.Of { l with entries := l.entries ++ [classify (joinSlash e.path) none] } (tar ++ [e]) := by
  have back := components_joinSlash e.path_named
  have shape := of.push e [classify (joinSlash e.path) none] []
  rw [List.append_nil] at shape
  cases unseen : hidden e.path with
  | false =>
    rw [classify_shown some_left e.path_named unseen] at shape ⊢
    refine shape ?_ ?_ ?_ (by simp)
    · simp [LayerEntry.grown, TarEntry.grows, back, some_left, type, unseen]
    · simp [LayerEntry.placed, TarEntry.places, type]
    · simp [LayerEntry.linked, TarEntry.connects, type]
  | true =>
    obtain ⟨dir, made⟩ := classify_hidden some_left e.path_named unseen none
    refine shape ?_ ?_ ?_ ?_ <;> rcases made with made | made <;>
      simp [made, LayerEntry.grown, LayerEntry.placed, LayerEntry.linked, TarEntry.grows, TarEntry.places,
        TarEntry.connects, type, unseen]

theorem Layer.Of.file (of : l.Of tar) (some_left : e.path ≠ []) (type : e.type = .regular ∨ e.type = .continuous) :
    Layer.Of ⟨l.entries ++ [classify (joinSlash e.path) (some l.files.length)], l.files ++ [e.data]⟩ (tar ++ [e]) := by
  have back := components_joinSlash e.path_named
  have notDir : e.type ≠ .directory := by rcases type with type | type <;> simp [type]
  have notLink : ¬ (e.type = .symlink ∨ e.type = .link) := by rcases type with type | type <;> simp [type]
  have shape := of.push e [classify (joinSlash e.path) (some l.files.length)] [e.data]
  cases unseen : hidden e.path with
  | false =>
    rw [classify_shown some_left e.path_named unseen] at shape ⊢
    refine shape ?_ ?_ ?_ (by simp)
    · simp [LayerEntry.grown, TarEntry.grows, notDir]
    · simp [LayerEntry.placed, TarEntry.places, back, some_left, type, unseen]
    · simp [LayerEntry.linked, TarEntry.connects, notLink]
  | true =>
    obtain ⟨dir, made⟩ := classify_hidden some_left e.path_named unseen (some l.files.length)
    refine shape ?_ ?_ ?_ ?_ <;> rcases made with made | made <;>
      simp [made, LayerEntry.grown, LayerEntry.placed, LayerEntry.linked, TarEntry.grows, TarEntry.places,
        TarEntry.connects, notDir, notLink, unseen]

theorem Layer.Of.link (of : l.Of tar) (some_left : e.path ≠ []) (type : e.type = .symlink ∨ e.type = .link)
    {target : String} (linked : e.linkName = some target) :
    Layer.Of { l with entries := l.entries ++ [.symlink (joinSlash e.path) target] } (tar ++ [e]) := by
  have back := components_joinSlash e.path_named
  have notDir : e.type ≠ .directory := by rcases type with type | type <;> simp [type]
  have notFile : ¬ (e.type = .regular ∨ e.type = .continuous) := by rcases type with type | type <;> simp [type]
  have shape := of.push e [.symlink (joinSlash e.path) target] []
  rw [List.append_nil] at shape
  refine shape ?_ ?_ ?_ (by simp)
  · simp [LayerEntry.grown, TarEntry.grows, notDir]
  · simp [LayerEntry.placed, TarEntry.places, notFile]
  · simp [LayerEntry.linked, TarEntry.connects, back, some_left, type, linked]

theorem Layer.Of.pushed (of : l.Of tar) (e : TarEntry) : (l.push e).Of (tar ++ [e]) := by
  have normal : normalize e.name = joinSlash e.path := rfl
  by_cases some_left : e.path = []
  · have nothing : l.push e = l := by
      rw [Layer.push, normal, some_left]
      rfl
    rw [nothing]
    exact of.skip (by simp [TarEntry.grows, some_left]) (by simp [TarEntry.places, some_left])
      (by simp [TarEntry.connects, some_left])
  · simp only [Layer.push, normal, if_neg (joinSlash_ne_empty some_left e.path_named)]
    have link : e.type = .symlink ∨ e.type = .link → Layer.Of (match e.linkName with
        | some target => { l with entries := l.entries ++ [.symlink (joinSlash e.path) target] }
        | none => l) (tar ++ [e]) := by
      intro type
      cases linked : e.linkName with
      | some target => exact of.link some_left type linked
      | none =>
        refine of.skip ?_ ?_ ?_
        · rcases type with type | type <;> simp [TarEntry.grows, type]
        · rcases type with type | type <;> simp [TarEntry.places, type]
        · simp [TarEntry.connects, linked]
    cases type : e.type with
    | directory => exact of.directory some_left type
    | regular => exact of.file some_left (.inl type)
    | continuous => exact of.file some_left (.inr type)
    | symlink => exact link (.inl type)
    | link => exact link (.inr type)
    | other =>
      exact of.skip (by simp [TarEntry.grows, type]) (by simp [TarEntry.places, type]) (by simp [TarEntry.connects, type])

end Pushed

theorem fromTarBytes_of (tar : Tar) : (fromTarBytes tar).Of tar := by
  induction tar using List.reverseRecOn with
  | nil => exact ⟨rfl, rfl, rfl, nofun⟩
  | append_singleton tar e ih =>
    rw [fromTarBytes, List.foldl_append]
    exact ih.pushed e

/-- What the layer of an archive adds: its directories, then its files, then its links. -/
theorem fromTarBytes_made (tar : Tar) : (fromTarBytes tar).made =
    tar.filterMap TarEntry.grows ++ tar.filterMap TarEntry.places ++ tar.filterMap TarEntry.connects := by
  have of := fromTarBytes_of tar
  rw [Layer.made, of.grown, of.placed, of.linked]

namespace TarEntry

/-- What an entry is for. -/
def adds (e : TarEntry) : Option (Addition String Leaf) :=
  match e.type with
  | .directory => some (.grow e.path)
  | .regular | .continuous => some (.put e.path (.file e.data))
  | .symlink | .link => e.linkName.map fun target => .put e.path (.link target)
  | .other => none

theorem adds_path {e : TarEntry} {a : Addition String Leaf} (adds : e.adds = some a) : a.path = e.path := by
  unfold TarEntry.adds at adds
  split at adds
  · cases adds
    rfl
  · cases adds
    rfl
  · cases adds
    rfl
  · obtain ⟨target, -, rfl⟩ := Option.map_eq_some_iff.1 adds
    rfl
  · obtain ⟨target, -, rfl⟩ := Option.map_eq_some_iff.1 adds
    rfl
  · cases adds

/-- An entry that names something, and is a link or not taken for a whiteout. -/
def Kept (e : TarEntry) : Prop := e.path ≠ [] ∧ (e.type = .symlink ∨ e.type = .link ∨ hidden e.path = false)

theorem kept_adds {e : TarEntry} {a : Addition String Leaf} :
    e.grows = some a ∨ e.places = some a ∨ e.connects = some a ↔ e.Kept ∧ e.adds = some a := by
  cases type : e.type <;> simp [grows, places, connects, Kept, adds, type, and_assoc]

end TarEntry

theorem mem_made {tar : Tar} {a : Addition String Leaf} :
    a ∈ (fromTarBytes tar).made ↔ ∃ e ∈ tar, e.Kept ∧ e.adds = some a := by
  simp only [fromTarBytes_made, List.mem_append, List.mem_filterMap, ← TarEntry.kept_adds]
  constructor
  · rintro ((⟨e, member, grows⟩ | ⟨e, member, places⟩) | ⟨e, member, connects⟩)
    · exact ⟨e, member, .inl grows⟩
    · exact ⟨e, member, .inr (.inl places)⟩
    · exact ⟨e, member, .inr (.inr connects)⟩
  · rintro ⟨e, member, grows | places | connects⟩
    · exact .inl (.inl ⟨e, member, grows⟩)
    · exact .inl (.inr ⟨e, member, places⟩)
    · exact .inr ⟨e, member, connects⟩

/-! ## What an archive leaves -/

/-- The paths of some additions, with all above them. -/
def reach (as : List (Addition String Leaf)) : Finset (List String) :=
  insert [] (as.flatMap fun a => a.path.inits).toFinset

theorem mem_reach {as : List (Addition String Leaf)} {q : List String} :
    q ∈ reach as ↔ q = [] ∨ ∃ a ∈ as, q <+: a.path := by
  simp [reach]

/-- What stands where an archive is applied to an empty filesystem. -/
def Tar.stand (tar : Tar) (q : List String) : Stand Leaf :=
  (Fs.new.apply (fromTarBytes tar) 0 "").standAt (Layer.leaf (fromTarBytes tar).files) q

/-- The last addition of each path stands there, and nothing else but what is above them. -/
def Tar.Leaves (tar : Tar) (as : List (Addition String Leaf)) : Prop :=
  (∀ q a, PathTree.lastAt as q = some a → tar.stand q = a.stand) ∧
    ∀ q, tar.stand q ≠ .free → q = [] ∨ ∃ a ∈ as, q <+: a.path

section Leaves

variable {tar : Tar} {as : List (Addition String Leaf)}

/-- With room for some additions, an archive whose entries are at their paths makes the tree of
its entries. -/
theorem stand_made (few : (reach as).card < maxFsNodes)
    (members : ∀ a ∈ (fromTarBytes tar).made, a.path ∈ reach as) (q : List String) :
    tar.stand q = (PathTree.empty.make (fromTarBytes tar).made).stand q := by
  have room : Fs.Room (reach as) := by
    refine ⟨fun {p q} up member => ?_, few⟩
    rcases mem_reach.1 member with rfl | ⟨a, there, further⟩
    · exact mem_reach.2 (.inl (List.prefix_nil.1 up))
    · exact mem_reach.2 (.inr ⟨a, there, up.trans further⟩)
  exact (apply_pictures room (mem_reach.2 (.inl rfl)) members).stand q

theorem apply_single (l : Layer) (base : Nat) (under : String) :
    (Fs.new.apply l base under).Shaped ∧ (Fs.new.apply l base under).Single ∧
      (Fs.new.apply l base under).nodes.entries.length ≤ maxFsNodes :=
  Fs.hosted_single _ Fs.Shaped.new (fun d k d' k' c entry => absurd (Fs.new_child d k ▸ entry) nofun) (by decide)

/-- What stands at all the paths of some additions is within the node cap. -/
theorem reach_few (stands : ∀ q, tar.stand q = PathTree.meant as q) : (reach as).card ≤ maxFsNodes := by
  obtain ⟨shaped, single, few⟩ := apply_single (fromTarBytes tar) 0 ""
  have member : ∀ q ∈ reach as,
      (Fs.new.apply (fromTarBytes tar) 0 "").standAt (Layer.leaf (fromTarBytes tar).files) q ≠ .free := by
    intro q inside
    show tar.stand q ≠ .free
    rw [stands q]
    exact PathTree.meant_ne_free (mem_reach.1 inside)
  exact (Fs.many single shaped member).trans few

theorem stand_nil : tar.stand [] = .branch :=
  Fs.standAt_dir (x := root) rfl (apply_single (fromTarBytes tar) 0 "").1.rootDir

theorem stand_above {p q : List String} (above : Above q p) (stands : tar.stand p ≠ .free) : tar.stand q = .branch := by
  obtain ⟨⟨more, rfl⟩, other⟩ := above
  obtain ⟨name, rest, rfl⟩ := List.exists_cons_of_ne_nil (show more ≠ [] by rintro rfl; exact other (by simp))
  have some_here : ((Fs.new.apply (fromTarBytes tar) 0 "").address (q ++ name :: rest)).isSome := by
    rw [Option.isSome_iff_ne_none]
    exact fun absent => stands (Fs.standAt_none absent)
  obtain ⟨x, here⟩ := Option.isSome_iff_exists.1 some_here
  rw [Fs.address_append] at here
  obtain ⟨d, up, down⟩ := Option.bind_eq_some_iff.1 here
  obtain ⟨_, entry, _⟩ := Option.bind_eq_some_iff.1 down
  exact Fs.standAt_dir up (Fs.isDir_of_child entry)

theorem leaves_iff : tar.Leaves as ↔ ∀ q, tar.stand q = PathTree.meant as q := by
  constructor
  · rintro ⟨last, nothing⟩ q
    rw [PathTree.meant]
    cases here : PathTree.lastAt as q with
    | some a => exact last q a here
    | none =>
      dsimp only
      split
      · next up =>
          rcases up with rfl | ⟨a, member, up⟩
          · exact stand_nil
          · obtain ⟨a', last'⟩ := PathTree.lastAt_isSome member
            have other : q ≠ a.path := fun same => PathTree.lastAt_none.1 here a member same.symm
            exact stand_above ⟨up, other⟩ (last _ a' last' ▸ a'.stand_ne_free)
      · next apart =>
          by_contra stands
          exact apart (nothing q stands)
  · intro same
    refine ⟨fun q a last => by rw [same, PathTree.meant, last], fun q stands => ?_⟩
    rw [same, PathTree.meant] at stands
    cases here : PathTree.lastAt as q with
    | some a =>
      obtain ⟨member, rfl⟩ := PathTree.lastAt_mem here
      exact .inr ⟨a, member, List.prefix_rfl⟩
    | none =>
      rw [here] at stands
      by_contra apart
      exact stands (if_neg apart)

theorem leaves_few (leaves : tar.Leaves as) : (reach as).card ≤ maxFsNodes := reach_few (leaves_iff.1 leaves)

/-- With room, an archive of some of the additions leaves them all exactly where it carries them. -/
theorem leaves_iff_carries (few : (reach as).card < maxFsNodes) (some_of : ∀ a ∈ (fromTarBytes tar).made, a ∈ as) :
    tar.Leaves as ↔ PathTree.Carries as (fromTarBytes tar).made := by
  have made := stand_made few fun a member => mem_reach.2 (.inr ⟨a, some_of a member, List.prefix_rfl⟩)
  have noRoot : ∀ v, .put [] v ∉ (fromTarBytes tar).made := by
    intro v member
    obtain ⟨e, _, kept, adds⟩ := mem_made.1 member
    have path := TarEntry.adds_path adds
    exact kept.1 path.symm
  rw [leaves_iff, ← PathTree.make_meant_iff some_of noRoot]
  exact forall_congr' fun q => by rw [made]

/-- With room, what stands at a path was put there. -/
theorem put_of_stand (few : (reach as).card < maxFsNodes)
    (members : ∀ a ∈ (fromTarBytes tar).made, a.path ∈ reach as) {q : List String} {v : Leaf} (stands : tar.stand q = .leaf v) :
    .put q v ∈ (fromTarBytes tar).made :=
  PathTree.mem_of_lastPut (PathTree.make_leaf ((stand_made few members q).symm.trans stands))

/-! ## Orders of an archive -/

theorem made_perm {tar' : Tar} (same : tar.Perm tar') : (fromTarBytes tar).made.Perm (fromTarBytes tar').made := by
  rw [fromTarBytes_made, fromTarBytes_made]
  exact ((same.filterMap _).append (same.filterMap _)).append (same.filterMap _)

/-- Nothing is in the way of an entry at first. -/
theorem made_admitted {a : Addition String Leaf} (member : a ∈ (fromTarBytes tar).made) : PathTree.empty.Admits a := by
  obtain ⟨e, _, kept, adds⟩ := mem_made.1 member
  have bare : ∀ q v, (PathTree.empty : PathTree String Leaf).stand q ≠ .leaf v := fun q v => by cases q <;> nofun
  cases a with
  | grow p => exact fun ⟨r, _, v, leaf⟩ => bare r v leaf
  | put p w =>
    rintro (root | ⟨r, _, v, leaf⟩)
    · exact kept.1 ((TarEntry.adds_path adds).symm.trans root)
    · exact bare r v leaf

/-- **Entries of different paths may stand in any order**: with room for them the same is left,
and an entry is there exactly where no file or link is put above it. -/
theorem stand_perm {tar' : Tar} (same : tar.Perm tar') (once : ((fromTarBytes tar).made.map Addition.path).Nodup)
    (few : (reach (fromTarBytes tar).made).card < maxFsNodes) :
    (∀ q, tar.stand q = tar'.stand q) ∧ ∀ a ∈ (fromTarBytes tar).made,
      (tar.stand a.path = a.stand ↔ ∀ b ∈ (fromTarBytes tar).made, b.Puts → ¬ Above b.path a.path) := by
  have inside : ∀ a ∈ (fromTarBytes tar).made, a.path ∈ reach (fromTarBytes tar).made :=
    fun a member => mem_reach.2 (.inr ⟨a, member, List.prefix_rfl⟩)
  have here := stand_made few inside
  have there := stand_made few fun a member => inside a ((made_perm same).mem_iff.2 member)
  refine ⟨fun q => ?_, fun a member => ?_⟩
  · rw [here, there, PathTree.make_perm (made_perm same) once]
  · rw [here, PathTree.stands_iff once member]
    exact and_iff_right (made_admitted member)

/-- A file, and one that would be below it. -/
theorem stand_perm_below : Tar.stand [⟨"a", .regular, [1], none⟩, ⟨"a/b", .regular, [2], none⟩] ["a"] =
    Tar.stand [⟨"a/b", .regular, [2], none⟩, ⟨"a", .regular, [1], none⟩] ["a"] :=
  (stand_perm (.swap _ _ []) (by decide +kernel) (by decide +kernel)).1 _

end Leaves

end Wk.Vfs
