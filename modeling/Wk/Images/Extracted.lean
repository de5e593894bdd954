/-
# Wk.Images.Extracted -- what an added archive leaves

The entries of an archive are re-rooted under the destination and appended one by one: its
directories and its regular files, and nothing else.

* `extracted`: the last entry of each path stands there, and nothing else, exactly where no
  path's last entry is a link, no file is at the root or has an entry below, no directory comes
  after a file of its path, and no name is that of a whiteout.

Poles: `tree_extracted` (a directory is there, with a file), `link_dropped` (a link is not).
-/
import Wk.Images

namespace Wk.Images

open Wk.Library Wk.Vfs

set_option autoImplicit false

variable (dest : String) {q : List String} {es : List TarEntry} {e : TarEntry}

/-- The path of an entry under the destination. -/
def placeUnder (e : TarEntry) : List String := components dest ++ e.path

/-- What an entry is to leave under the destination. -/
def additionUnder (e : TarEntry) : Addition String Leaf :=
  match e.type with
  | .directory => .grow (placeUnder dest e)
  | .symlink => .put (placeUnder dest e) (.link (e.linkName.getD ""))
  | _ => .put (placeUnder dest e) (.file e.data)

/-- The last entry of a path. -/
def lastEntry (es : List TarEntry) (q : List String) : Option TarEntry := es.reverse.find? fun e => placeUnder dest e = q

/-- A regular file, a directory or a symbolic link with a name. -/
structure Member (e : TarEntry) : Prop where
  name : e.name ≠ ""
  type : e.type = .directory ∨ e.type = .regular ∨ e.type = .symlink

variable (ar : Archives) (data : Bytes)

/-- The bytes of a tar archive, plain or gzipped, with these entries. -/
structure Holds (es : List TarEntry) : Prop where
  read : ∃ plain, plainTar ar data = .ok plain ∧ ar.untar plain = .ok es
  members : ∀ e ∈ es, Member e

/-- Extracted, the last entry of each path stands there and nothing else. -/
def KeepsStructure (es : List TarEntry) : Prop :=
  ∃ tar, extractArchiveInto ar [] data dest = .ok (some tar) ∧ tar.Leaves (es.map (additionUnder dest))

/-- The entry appended for a directory or a file. -/
def emitted (e : TarEntry) : Option TarEntry :=
  match e.type with
  | .directory => some ⟨trimEnd '/' (under dest e.name) ++ "/", .directory, [], none⟩
  | .regular => some ⟨under dest e.name, .regular, e.data, none⟩
  | _ => none

/-- The tar builder gives back what is appended. -/
def Returned (es : List TarEntry) : Prop := ∀ e ∈ es, ∀ e', emitted dest e = some e' → ar.GivesBack e'

/-- A directory or a file that is added under the destination. -/
def Lands (e : TarEntry) : Prop :=
  (e.type = .directory ∨ e.type = .regular) ∧ placeUnder dest e ≠ [] ∧ hidden (placeUnder dest e) = false

/-- What the last entry of a path must be. -/
def LastFits (es : List TarEntry) (q : List String) (e : TarEntry) : Prop :=
  match e.type with
  | .directory => (∀ e' ∈ es, e'.type = .regular → placeUnder dest e' = q → ¬ Lands dest e') ∧
      (q = [] ∨ ∃ e' ∈ es, Lands dest e' ∧ q <+: placeUnder dest e')
  | .regular => Lands dest e ∧ ∀ e' ∈ es, ¬ Above q (placeUnder dest e')
  | _ => False

/-- The archive is recognized, its entries are taken, and the last one of each path fits. -/
structure Fits (es : List TarEntry) : Prop where
  recognized : gzipped data = true ∨ ustar data = true
  taken : ∀ e ∈ es, ∀ e', emitted dest e = some e' → ar.refuses e' = none
  last : ∀ q e, lastEntry dest es q = some e → LastFits dest es q e

variable {dest ar data}

/-! ## Under the destination -/

theorem components_dropDotSlash (cs : List Char) : components (String.ofList (dropDotSlash cs)) = components (String.ofList cs) := by
  fun_induction dropDotSlash cs with
  | case1 rest ih =>
    have split : String.ofList ('.' :: '/' :: rest) = "." ++ "/" ++ String.ofList rest := by simp [← String.toList_inj]
    rw [ih, split, components_slash, show components "." = [] by decide +kernel, List.nil_append]
  | case2 => rfl

theorem components_under (name : String) : components (under dest name) = components dest ++ components name := by
  have trimmed : components (trimEnd '/' (String.ofList (dropDotSlash name.toList))) = components name := by
    rw [components_trimEnd, components_dropDotSlash, String.ofList_toList]
  unfold under
  dsimp only
  split
  · next here => rw [trimmed, here, components_empty, List.nil_append]
  · rw [components_slash, trimmed]

@[simp] theorem additionUnder_path : (additionUnder dest e).path = placeUnder dest e := by
  unfold additionUnder
  split <;> rfl

theorem emitted_path {e' : TarEntry} (emits : emitted dest e = some e') : e'.path = placeUnder dest e := by
  unfold emitted at emits
  split at emits
  · cases emits
    rw [TarEntry.path, components_dir, components_trimEnd, components_under]
    rfl
  · cases emits
    exact components_under e.name
  · cases emits

/-- What is appended adds what the entry is to leave, if it lands. -/
theorem emitted_lands {a : Addition String Leaf} :
    (∃ e', emitted dest e = some e' ∧ e'.Kept ∧ e'.adds = some a) ↔ Lands dest e ∧ a = additionUnder dest e := by
  constructor
  · rintro ⟨e', emits, ⟨notRoot, shown⟩, adds⟩
    have path := emitted_path emits
    rw [path] at notRoot shown
    unfold emitted at emits
    split at emits
    · next type =>
        cases emits
        simp only [TarEntry.adds, path, Option.some.injEq] at adds
        simp only [reduceCtorEq, false_or] at shown
        exact ⟨⟨.inl type, notRoot, shown⟩, by rw [additionUnder, type, ← adds]⟩
    · next type =>
        cases emits
        simp only [TarEntry.adds, path, Option.some.injEq] at adds
        simp only [reduceCtorEq, false_or] at shown
        exact ⟨⟨.inr type, notRoot, shown⟩, by rw [additionUnder, type, ← adds]⟩
    · cases emits
  · rintro ⟨⟨type, notRoot, shown⟩, rfl⟩
    rcases type with type | type
    · have emits : emitted dest e = some ⟨trimEnd '/' (under dest e.name) ++ "/", .directory, [], none⟩ := by rw [emitted, type]
      have path := emitted_path emits
      exact ⟨_, emits, ⟨path ▸ notRoot, .inr (.inr (path ▸ shown))⟩, by simp only [TarEntry.adds, path, additionUnder, type]⟩
    · have emits : emitted dest e = some ⟨under dest e.name, .regular, e.data, none⟩ := by rw [emitted, type]
      have path := emitted_path emits
      exact ⟨_, emits, ⟨path ▸ notRoot, .inr (.inr (path ▸ shown))⟩, by simp only [TarEntry.adds, path, additionUnder, type]⟩

theorem lastAt_map : PathTree.lastAt (es.map (additionUnder dest)) q = (lastEntry dest es q).map (additionUnder dest) := by
  rw [PathTree.lastAt, ← List.map_reverse, List.find?_map]
  simp [lastEntry]

theorem lastEntry_mem (last : lastEntry dest es q = some e) : e ∈ es ∧ placeUnder dest e = q :=
  ⟨List.mem_reverse.1 (List.mem_of_find?_eq_some last), by simpa using List.find?_some last⟩

/-! ## What is made -/

theorem mem_made_emitted {a : Addition String Leaf} :
    a ∈ (fromTarBytes (es.filterMap (emitted dest))).made ↔ ∃ e ∈ es, Lands dest e ∧ a = additionUnder dest e := by
  simp only [mem_made, List.mem_filterMap, ← emitted_lands]
  constructor
  · rintro ⟨e', ⟨e, member, emits⟩, kept, adds⟩
    exact ⟨e, member, e', emits, kept, adds⟩
  · rintro ⟨e, member, e', emits, kept, adds⟩
    exact ⟨e', ⟨e, member, emits⟩, kept, adds⟩

/-- The last file of a path that lands is the one that stands there. -/
theorem lastPut_placed (es : List TarEntry) (last : lastEntry dest es q = some e) (type : e.type = .regular) (lands : Lands dest e) :
    PathTree.lastPut ((es.filterMap (emitted dest)).filterMap TarEntry.places) q = some (.file e.data) := by
  induction es using List.reverseRecOn with
  | nil => cases last
  | append_singleton es x ih =>
    rw [lastEntry, List.reverse_append, List.reverse_singleton, List.singleton_append, List.find?_cons] at last
    rw [List.filterMap_append, List.filterMap_append, PathTree.lastPut_append]
    by_cases here : placeUnder dest x = q
    · simp only [here, decide_true, Option.some.injEq] at last
      subst last
      have emits : emitted dest x = some ⟨under dest x.name, .regular, x.data, none⟩ := by rw [emitted, type]
      have path := emitted_path emits
      have places : TarEntry.places ⟨under dest x.name, .regular, x.data, none⟩ = some (.put q (.file x.data)) := by
        rw [TarEntry.places, path, if_pos ⟨lands.2.1, .inl rfl, lands.2.2⟩, here]
      simp [emits, places, PathTree.lastPut]
    · simp only [here, decide_false] at last
      rw [ih last]
      suffices none_put : PathTree.lastPut (([x].filterMap (emitted dest)).filterMap TarEntry.places) q = none by
        rw [none_put, Option.none_or]
      by_contra some_put
      obtain ⟨v, put⟩ := Option.ne_none_iff_exists'.1 some_put
      obtain ⟨e', member, places⟩ := List.mem_filterMap.1 (PathTree.mem_of_lastPut put)
      obtain ⟨x', there, emits⟩ := List.mem_filterMap.1 member
      cases List.mem_singleton.1 there
      have path := TarEntry.adds_path (TarEntry.kept_adds.1 (.inr (.inl places))).2
      exact here ((emitted_path emits).symm.trans path.symm)

/-- Only files are put, and only where one lands. -/
theorem put_emitted {v : Leaf} (member : .put q v ∈ (fromTarBytes (es.filterMap (emitted dest))).made) :
    ∃ e ∈ es, Lands dest e ∧ e.type = .regular ∧ placeUnder dest e = q ∧ v = .file e.data := by
  obtain ⟨e, there, lands, same⟩ := mem_made_emitted.1 member
  unfold additionUnder at same
  rcases lands.1 with type | type <;> rw [type] at same
  · cases same
  · cases same
    exact ⟨e, there, lands, type, rfl, rfl⟩

theorem lastPut_emitted (last : lastEntry dest es q = some e) (type : e.type = .regular) (lands : Lands dest e) :
    PathTree.lastPut (fromTarBytes (es.filterMap (emitted dest))).made q = some (.file e.data) := by
  have noLinks : (es.filterMap (emitted dest)).filterMap TarEntry.connects = [] := by
    rw [List.filterMap_eq_nil_iff]
    intro e' member
    obtain ⟨e, _, emits⟩ := List.mem_filterMap.1 member
    unfold emitted at emits
    split at emits <;> cases emits <;> simp [TarEntry.connects]
  rw [fromTarBytes_made, noLinks, List.append_nil, PathTree.lastPut_append, lastPut_placed es last type lands, Option.some_or]

/-- An archive of what is emitted carries everything where the last entry of each path fits. -/
theorem carries_iff_fits (members : ∀ e ∈ es, Member e) :
    PathTree.Carries (es.map (additionUnder dest)) (fromTarBytes (es.filterMap (emitted dest))).made ↔
      ∀ q e, lastEntry dest es q = some e → LastFits dest es q e := by
  constructor
  · intro carries q e last
    obtain ⟨member, path⟩ := lastEntry_mem last
    have carried := carries q (additionUnder dest e) (by rw [lastAt_map, last]; rfl)
    unfold LastFits
    unfold additionUnder at carried
    rcases (members e member).type with type | type | type <;> rw [type] at carried ⊢ <;> dsimp only at carried ⊢
    · refine ⟨fun e' there type' path' lands => ?_, carried.2.imp_right ?_⟩
      · have put : .put q (.file e'.data) ∈ (fromTarBytes (es.filterMap (emitted dest))).made :=
          mem_made_emitted.2 ⟨e', there, lands, by rw [additionUnder, type', path']⟩
        obtain ⟨w, put⟩ := PathTree.lastPut_isSome put
        exact absurd (carried.1.symm.trans put) nofun
      · rintro ⟨b, made, up⟩
        obtain ⟨e', there, lands, rfl⟩ := mem_made_emitted.1 made
        exact ⟨e', there, lands, additionUnder_path ▸ up⟩
    · obtain ⟨notRoot, put, nothing⟩ := carried
      obtain ⟨e', there, lands, _, path', _⟩ := put_emitted (PathTree.mem_of_lastPut put)
      refine ⟨⟨.inr type, ?_, ?_⟩, fun e' there above => nothing _ (List.mem_map_of_mem there) (additionUnder_path.symm ▸ above)⟩
      · rwa [path]
      · rw [path, ← path']
        exact lands.2.2
    · obtain ⟨e', _, _, _, _, same⟩ := put_emitted (PathTree.mem_of_lastPut carried.2.1)
      cases same
  · intro fits q a last
    rw [lastAt_map] at last
    obtain ⟨e, lastHere, rfl⟩ := Option.map_eq_some_iff.1 last
    obtain ⟨member, path⟩ := lastEntry_mem lastHere
    have fit := fits q e lastHere
    unfold LastFits at fit
    rw [additionUnder]
    rcases (members e member).type with type | type | type <;> rw [type] at fit ⊢ <;> dsimp only at fit ⊢
    · refine ⟨?_, fit.2.imp_right ?_⟩
      · by_contra some_put
        obtain ⟨w, put⟩ := Option.ne_none_iff_exists'.1 some_put
        obtain ⟨e', there, lands, type', path', _⟩ := put_emitted (PathTree.mem_of_lastPut put)
        exact fit.1 e' there type' path' lands
      · rintro ⟨e', there, lands, up⟩
        exact ⟨_, mem_made_emitted.2 ⟨e', there, lands, rfl⟩, by rwa [additionUnder_path]⟩
    · refine ⟨path ▸ fit.1.2.1, lastPut_emitted lastHere type fit.1, fun b wanted above => ?_⟩
      obtain ⟨e', there, rfl⟩ := List.mem_map.1 wanted
      rw [additionUnder_path] at above
      exact fit.2 e' there above

/-! ## Extracting -/

theorem extractEntry_appends (b : Tar) (e : TarEntry) : extractEntry ar dest b e = (b ++ ·) <$> extractEntry ar dest [] e := by
  unfold extractEntry
  split
  · simp
  · split
    · exact ar.append_eq b _ _
    · exact ar.append_eq b _ _
    all_goals simp

theorem extractEntry_ok (member : Member e) {more : Tar} :
    extractEntry ar dest [] e = .ok more ↔
      (∀ e', emitted dest e = some e' → ar.refuses e' = none) ∧ more = ((emitted dest e).map ar.gives).toList := by
  unfold extractEntry emitted
  rw [if_neg member.name]
  rcases member.type with type | type | type <;> rw [type]
  · simp [Archives.tarDirEntry, Archives.append_ok]
  · simp [Archives.tarFile, Archives.append_ok]
  · simp [eq_comm]

theorem entries_ok (members : ∀ e ∈ es, Member e) {tar : Tar} :
    es.foldlM (extractEntry ar dest) [] = .ok tar ↔
      (∀ e ∈ es, ∀ e', emitted dest e = some e' → ar.refuses e' = none) ∧ tar = (es.filterMap (emitted dest)).map ar.gives := by
  rw [foldlM_ok_iff extractEntry_appends, List.nil_append]
  have all : (∀ e ∈ es, ∃ more, extractEntry ar dest [] e = .ok more) ↔
      ∀ e ∈ es, ∀ e', emitted dest e = some e' → ar.refuses e' = none := by
    refine forall₂_congr fun e there => ⟨?_, fun accepted => ⟨_, (extractEntry_ok (members e there)).2 ⟨accepted, rfl⟩⟩⟩
    rintro ⟨more, ok⟩
    exact ((extractEntry_ok (members e there)).1 ok).1
  rw [all]
  refine and_congr_right fun accepted => ?_
  have same : (es.flatMap fun e => (extractEntry ar dest [] e).toOption.getD []) =
      (es.filterMap (emitted dest)).map ar.gives := by
    rw [List.map_filterMap, List.filterMap_eq_flatMap_toList]
    refine List.flatMap_congr fun e there => ?_
    rw [(extractEntry_ok (members e there)).2 ⟨accepted e there, rfl⟩]
    rfl
  rw [same]

/-- What is recognized is extracted. -/
theorem extracts_iff (holds : Holds ar data es) (recognized : gzipped data = true ∨ ustar data = true) {tar : Tar} :
    extractArchiveInto ar [] data dest = .ok (some tar) ↔
      (∀ e ∈ es, ∀ e', emitted dest e = some e' → ar.refuses e' = none) ∧ tar = (es.filterMap (emitted dest)).map ar.gives := by
  obtain ⟨plain, read, entries⟩ := holds.read
  rw [← entries_ok holds.members]
  unfold extractArchiveInto
  rw [if_pos (by simpa using recognized), read]
  show (ar.untar plain >>= _) = _ ↔ _
  rw [entries]
  show (some <$> es.foldlM (extractEntry ar dest) [] : Except String (Option Tar)) = _ ↔ _
  cases es.foldlM (extractEntry ar dest) [] with
  | error text => exact ⟨nofun, nofun⟩
  | ok out => exact ⟨fun same => by cases same; rfl, fun same => by cases same; rfl⟩

/-- With room, the last entry of each path stands there, and nothing else, exactly where the
archive fits; the bytes of a tar archive that start like a zip may yet be read as one. -/
theorem extracted (holds : Holds ar data es) :
    (Returned dest ar es → (reach (es.map (additionUnder dest))).card < maxFsNodes →
      (Fits dest ar data es → KeepsStructure dest ar data es) ∧
        ((zipped data = true → ustar data = true) → KeepsStructure dest ar data es → Fits dest ar data es)) ∧
      (KeepsStructure dest ar data es → (reach (es.map (additionUnder dest))).card ≤ maxFsNodes) := by
  have leaves : Returned dest ar es → (reach (es.map (additionUnder dest))).card < maxFsNodes →
      (Tar.Leaves ((es.filterMap (emitted dest)).map ar.gives) (es.map (additionUnder dest)) ↔ _) := fun returned few => by
    have same := fromTarBytes_gives fun e' member => by
      obtain ⟨e, there, emits⟩ := List.mem_filterMap.1 member
      exact returned e there e' emits
    refine (leaves_iff_carries few fun a member => ?_).trans (same ▸ carries_iff_fits holds.members)
    obtain ⟨e, there, _, rfl⟩ := mem_made_emitted.1 (same ▸ member)
    exact List.mem_map_of_mem there
  refine ⟨fun returned few => ⟨fun fits => ?_, fun noZip keeps => ?_⟩, fun ⟨tar, _, left⟩ => leaves_few left⟩
  · exact ⟨_, (extracts_iff holds fits.recognized).2 ⟨fits.taken, rfl⟩, (leaves returned few).2 fits.last⟩
  · obtain ⟨tar, extracts, left⟩ := keeps
    have recognized : gzipped data = true ∨ ustar data = true := by
      by_contra none_of
      have notTar : ¬ (gzipped data || ustar data) = true := by simpa using none_of
      have notZip : ¬ zipped data = true := fun zip => none_of (.inr (noZip zip))
      rw [extractArchiveInto, if_neg notTar, if_neg notZip] at extracts
      cases extracts
    obtain ⟨taken, rfl⟩ := (extracts_iff holds recognized).1 extracts
    exact ⟨recognized, taken, (leaves returned few).1 left⟩

section Poles

/-- A field of a tar header, padded with zeros. -/
def field (text : String) (width : Nat) : Bytes := text.toUTF8.toList ++ List.replicate (width - text.utf8ByteSize) 0

/-- A member of a tar archive, whose header has the checksum `sum`. -/
def memberOf (name mode size sum kind link : String) (body : Bytes) : Bytes :=
  field name 100 ++ field mode 8 ++ field "0000000" 8 ++ field "0000000" 8 ++ field size 12 ++ field "00000000000" 12 ++
    field sum 7 ++ field " " 1 ++ field kind 1 ++ field link 100 ++ field "ustar" 6 ++ field "00" 2 ++ field "" 247 ++ body

/-- Archives that read these bytes as these entries, and nothing else. -/
def readsOnly (bytes : Bytes) (es : List TarEntry) : Archives where
  refuses _ := none
  gives := id
  gunzip _ := .error "invalid gzip header"
  untar data := if data = bytes then .ok es else .error "failed to read entire block"
  unzip _ := .error "invalid Zip archive"

/-- The archive of a directory, and of a link below it that a file takes the place of. -/
def treeBytes : Bytes :=
  memberOf "d/" "0000755" "00000000000" "006170" "5" "" [] ++ memberOf "d/l" "0000777" "00000000000" "006513" "2" "f" [] ++
    memberOf "d/l" "0000644" "00000000001" "006335" "0" "" (field "x" 512) ++ field "" 1024

def treeEntries : List TarEntry :=
  [⟨"d/", .directory, [], none⟩, ⟨"d/l", .symlink, [], some "f"⟩, ⟨"d/l", .regular, [120], none⟩]

theorem mem_treeEntries {e : TarEntry} (there : e ∈ treeEntries) :
    e = ⟨"d/", .directory, [], none⟩ ∨ e = ⟨"d/l", .symlink, [], some "f"⟩ ∨ e = ⟨"d/l", .regular, [120], none⟩ := by
  simpa [treeEntries] using there

theorem tree_holds : Holds (readsOnly treeBytes treeEntries) treeBytes treeEntries where
  read := ⟨treeBytes, if_neg (by decide +kernel), if_pos rfl⟩
  members e there := by
    rcases mem_treeEntries there with rfl | rfl | rfl
    · exact ⟨by decide, .inl rfl⟩
    · exact ⟨by decide, .inr (.inr rfl)⟩
    · exact ⟨by decide, .inr (.inl rfl)⟩

theorem tree_fits : Fits "opt" (readsOnly treeBytes treeEntries) treeBytes treeEntries where
  recognized := .inr (by decide +kernel)
  taken _ _ _ _ := rfl
  last q e last := by
    obtain ⟨there, rfl⟩ := lastEntry_mem last
    rcases mem_treeEntries there with rfl | rfl | rfl
    · refine ⟨fun e' there' regular same => ?_, .inr ⟨⟨"d/l", .regular, [120], none⟩, by simp [treeEntries], ?_, by decide +kernel⟩⟩
      · rcases mem_treeEntries there' with rfl | rfl | rfl
        · cases regular
        · cases regular
        · exact absurd same (by decide +kernel)
      · exact ⟨.inr rfl, by decide +kernel, by decide +kernel⟩
    · have file : (lastEntry "opt" treeEntries (placeUnder "opt" ⟨"d/l", .symlink, [], some "f"⟩)).map TarEntry.type =
          some .regular := by decide +kernel
      rw [last] at file
      cases file
    · refine ⟨⟨.inr rfl, by decide +kernel, by decide +kernel⟩, fun e' there' above => ?_⟩
      have none_below : ∀ e' ∈ treeEntries, placeUnder "opt" ⟨"d/l", .regular, [120], none⟩ <+: placeUnder "opt" e' →
          placeUnder "opt" e' = placeUnder "opt" ⟨"d/l", .regular, [120], none⟩ := by decide +kernel
      exact above.2 (none_below e' there' above.1).symm

/-- The directory of an archive is there under the destination, and the file in it. -/
theorem tree_extracted : KeepsStructure "opt" (readsOnly treeBytes treeEntries) treeBytes treeEntries :=
  ((extracted tree_holds).1 (fun _ _ _ _ => ⟨rfl, rfl, rfl, rfl⟩) (by decide +kernel)).1 tree_fits

/-- The archive of a link `l`. -/
def linkBytes : Bytes := memberOf "l" "0000777" "00000000000" "006270" "2" "f" [] ++ field "" 1024

def linkEntry : TarEntry := ⟨"l", .symlink, [], some "f"⟩

/-- The link of an archive is not there. -/
theorem link_dropped : Holds (readsOnly linkBytes [linkEntry]) linkBytes [linkEntry] ∧
    ¬ KeepsStructure "opt" (readsOnly linkBytes [linkEntry]) linkBytes [linkEntry] := by
  have holds : Holds (readsOnly linkBytes [linkEntry]) linkBytes [linkEntry] := by
    refine ⟨⟨linkBytes, if_neg (by decide +kernel), if_pos rfl⟩, fun e there => ?_⟩
    cases List.mem_singleton.1 there
    exact ⟨by decide, .inr (.inr rfl)⟩
  refine ⟨holds, ?_⟩
  rintro ⟨tar, extracts, leaves⟩
  obtain ⟨_, rfl⟩ := (extracts_iff holds (.inr (by decide +kernel))).1 extracts
  have few : (reach (List.map (additionUnder "opt") [linkEntry])).card < maxFsNodes := by decide +kernel
  have members : ∀ a ∈ (fromTarBytes ([linkEntry].filterMap (emitted "opt"))).made,
      a.path ∈ reach (List.map (additionUnder "opt") [linkEntry]) := by
    intro a member
    obtain ⟨e, there, lands, rfl⟩ := mem_made_emitted.1 member
    exact mem_reach.2 (.inr ⟨_, List.mem_map_of_mem there, List.prefix_rfl⟩)
  have stands := leaves.1 (placeUnder "opt" linkEntry) (additionUnder "opt" linkEntry) (by
    rw [lastAt_map, lastEntry, List.reverse_singleton, List.find?_singleton, if_pos (by simp), Option.map_some])
  obtain ⟨_, _, _, _, _, same⟩ := put_emitted (put_of_stand few members stands)
  cases same

end Poles

end Wk.Images
