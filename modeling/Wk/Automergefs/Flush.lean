/-
# Wk.Automergefs.Flush -- what a flush makes of the documents

A flush replays the rename log into the directory document and then goes through the dirty
paths, each a document's new content, a new document, or an entry to drop.  Log and set were
both written while the tree kept changing.  What ties them together is `Tracks`: with the
log replayed, a file that is not dirty has a document with its bytes.

Two things break the tie.  A rename onto itself is put under its path and deleted from it
(`selfMoved`), and a write that is refused for its size leaves an empty file behind that is
neither dirty nor in the log (`MemTree.stray`).  `flush_agrees_iff` says that nothing else does.
-/
import Wk.Automergefs.Repo
import Wk.Library.Run

namespace Wk.Automergefs

open Wk.Library Wk.Provider

set_option autoImplicit false

/-- Whether a push went through. -/
abbrev Pushed := Except String Unit

/-- What the sync client holds of the repository. -/
structure Repo where
  dir : Doc := ∅
  /-- The document of a path, and its url as the directory document has it. -/
  ids : Table String (DocId × String) := ∅
  docs : Table DocId Doc := ∅

namespace Repo

/-- The ids and documents without the source, and without what the destination had. -/
def clear (r : Repo) (src dest : String) : Table String (DocId × String) × Table DocId Doc :=
  let ids := r.ids.erase src
  match ids.lookup dest with
  | some (old, _) => (ids.erase dest, r.docs.erase old)
  | none => (ids, r.docs)

/-- `flush_rename`, with the outcomes of its pushes. -/
def flushRename (r : Repo) (move : String × String) (first second : Pushed) : Pushed × Repo :=
  let (src, dest) := move
  match r.ids.lookup src with
  -- never synced under `src`: the dirty flush creates it
  | none => (.ok (), r)
  | some (id, url) =>
    let (ids, docs) := r.clear src dest
    let r : Repo := { dir := renameDirEntry r.dir src dest url, ids, docs }
    match first with
    | .error e => (.error e, r)
    | .ok () =>
      match if basename src = basename dest then none else r.docs.lookup id with
      | none => (.ok (), { r with ids := r.ids.insert dest (id, url) })
      | some doc =>
        let r := { r with docs := r.docs.insert id (setFileMeta doc dest) }
        match second with
        | .error e => (.error e, r)
        | .ok () => (.ok (), { r with ids := r.ids.insert dest (id, url) })

/-- `flush_path`, with the bytes drawn for a new document and the outcomes of its pushes. -/
def flushPath (b58 : Base58) (files : Table String Bytes) (drawn : List UInt8) (r : Repo) (path : String)
    (first second : Pushed) : Pushed × Repo :=
  match files.lookup path, r.ids.lookup path with
  | some content, some (id, _) =>
    match r.docs.lookup id with
    | none => (.error "no cached doc", r)
    | some doc => (first, { r with docs := r.docs.insert id (setContent doc content) })
  | some content, none =>
    let (url, id) := newDocUrl b58 drawn
    match first with
    | .error e => (.error e, r)
    | .ok () =>
      (second, {
        dir := setDirEntry r.dir path (some url)
        ids := r.ids.insert path (id, url)
        docs := r.docs.insert id (makeFileDoc path content) })
  | none, some (id, _) =>
    let r := { r with dir := setDirEntry r.dir path none }
    match first with
    | .error e => (.error e, r)
    | .ok () => (.ok (), { r with ids := r.ids.erase path, docs := r.docs.erase id })
  | none, none => (.ok (), r)

/-- A flush whose pushes go through: the log, and then the dirty paths in some order. -/
def flush (b58 : Base58) (r : Repo) (t : MemTree) (order : List String) (drawn : String → List UInt8) : Repo × MemTree :=
  let r := t.renames.foldl (fun r move => (r.flushRename move (.ok ()) (.ok ())).2) r
  let r := (arrange order t.dirty).foldl
    (fun r path => (r.flushPath b58 t.files (drawn path) path (.ok ()) (.ok ())).2) r
  (r, { t with renames := [], dirty := [] })

/-- The directory document's leaves, the ids, the documents and the tree's files agree; each
path has a document of its own. -/
structure Agrees (b58 : Base58) (r : Repo) (t : MemTree) : Prop where
  leaves : ∀ path, (∃ url, (path, url) ∈ dirLeaves r.dir) ↔ path ∈ t.files
  bytes : ∀ path url, (path, url) ∈ dirLeaves r.dir →
    ∃ id doc, parseDocId b58 url = some id ∧ r.docs.lookup id = some doc ∧ t.files.lookup path = some (fileContent doc)
  ids : ∀ path id url, r.ids.lookup path = some (id, url) ↔
    (path, url) ∈ dirLeaves r.dir ∧ parseDocId b58 url = some id
  apart : r.ids.Apart Prod.fst

/-- Every file that renames brought to its path has the url it had at the start. -/
def KeepsUrls (r r' : Repo) (t : MemTree) : Prop :=
  ∀ path path' url, t.whence path = some path' → (path', url) ∈ dirLeaves r.dir → (path, url) ∈ dirLeaves r'.dir

end Repo

/-- Nothing waits for a flush, and every file is where it is. -/
structure MemTree.Quiet (t : MemTree) : Prop where
  dirty : t.dirty = []
  renames : t.renames = []
  whence : ∀ path, t.whence path = if path ∈ t.files then some path else none
  stray : t.stray = []

/-- One operation is answered. -/
def answer (t : MemTree) (asked : Orders × FsOp) : MemTree := (t.handle asked.1 asked.2).2

/-- An operation on paths that do not start with `@`. -/
def OnPlain (t : MemTree) (asked : Orders × FsOp) : Prop := ∀ path ∈ t.named asked.2, Plain path

instance (t : MemTree) (asked : Orders × FsOp) : Decidable (OnPlain t asked) :=
  inferInstanceAs (Decidable (∀ path ∈ t.named asked.2, Plain path))

/-- The ids after a log of renames, and the paths among them that a rename onto itself took
out of the directory document. -/
def selfMove (s : Table String (DocId × String) × List String) (move : String × String) :
    Table String (DocId × String) × List String :=
  match s.1.lookup move.1 with
  | none => s
  | some _ =>
    (s.1.rekey move,
      if move.1 = move.2 then move.1 :: s.2 else s.2.filter fun path => path ≠ move.1 ∧ path ≠ move.2)

/-- The paths whose last rename with a document was onto itself. -/
def selfMoved (ids : Table String (DocId × String)) (log : List (String × String)) : List String :=
  (log.foldl selfMove (ids, [])).2

/-- The condition of a flush: no file of the tree was last renamed onto itself, and what a
refused write left behind is gone, or lies on an empty document. -/
structure Repo.Sound (r : Repo) (t : MemTree) : Prop where
  moved : ∀ path ∈ t.files, path ∉ selfMoved r.ids t.renames
  stray : ∀ path ∈ t.stray, ∃ id url doc, (r.ids.rekeys t.renames).lookup path = some (id, url) ∧
    r.docs.lookup id = some doc ∧ fileContent doc = []

/-- The draws for some new documents are of 16 bytes, all different, and name no document. -/
structure Fresh (drawn : String → List UInt8) (docs : Table DocId Doc) (paths : List String) : Prop where
  size : ∀ path ∈ paths, (drawn path).length = 16
  apart : ∀ path ∈ paths, ∀ path' ∈ paths, drawn path = drawn path' → path = path'
  new : ∀ path ∈ paths, pad (drawn path) ∉ docs

/-! ## What the log and the dirty set know of the tree -/

/-- The tree against the documents as they were when nothing waited. -/
structure Tracks (ids : Table String (DocId × String)) (content : DocId → Bytes) (t : MemTree) : Prop where
  clean : ∀ path e, (ids.rekeys t.renames).lookup path = some e → path ∉ t.dirty → path ∉ t.stray →
    t.files.lookup path = some (content e.1)
  known : ∀ path ∈ t.files, path ∉ t.dirty → path ∉ t.stray → ∃ e, (ids.rekeys t.renames).lookup path = some e
  stray : ∀ path ∈ t.stray, path ∉ t.dirty ∧ t.files.lookup path = some []
  whence : ∀ path path', t.whence path = some path' → path ∈ t.files ∧
    ∃ e, (ids.rekeys t.renames).lookup path = some e ∧ ids.lookup path' = some e
  plain : (∀ path ∈ t.files, Plain path) ∧ (∀ path ∈ t.dirty, Plain path) ∧ ∀ move ∈ t.renames, Plain move.2

namespace Tracks

variable {ids : Table String (DocId × String)} {content : DocId → Bytes} {t : MemTree}

theorem same {t' : MemTree} (same : t.SameFiles t') (tracks : Tracks ids content t) : Tracks ids content t' := by
  obtain ⟨files, dirty, renames, whence, stray, -⟩ := same
  constructor
  · rw [renames, dirty, stray, files]
    exact tracks.clean
  · rw [renames, dirty, stray, files]
    exact tracks.known
  · rw [dirty, stray, files]
    exact tracks.stray
  · rw [renames, whence, files]
    exact tracks.whence
  · rw [renames, dirty, files]
    exact tracks.plain

theorem store {path : String} (b : Bytes) (plain : Plain path) (tracks : Tracks ids content t) :
    Tracks ids content (t.store path b) := by
  have files : ∀ p, p ≠ path → (t.store path b).files.lookup p = t.files.lookup p := fun p other =>
    AList.lookup_insert_ne other
  have dirty : ∀ p, p ∈ (t.store path b).dirty ↔ p = path ∨ p ∈ t.dirty := fun p => List.mem_insert_iff
  have stray : ∀ p, p ∈ (t.store path b).stray ↔ p ∈ t.stray ∧ p ≠ path := fun p => by simp [MemTree.store]
  constructor
  · intro p e here clean unstray
    rw [dirty, not_or] at clean
    rw [files p clean.1]
    exact tracks.clean p e here clean.2 fun old => unstray ((stray p).2 ⟨old, clean.1⟩)
  · intro p here clean unstray
    rw [dirty, not_or] at clean
    obtain ⟨c, found⟩ := Table.mem_iff_lookup.1 here
    rw [files p clean.1] at found
    exact tracks.known p (Table.mem_of_lookup found) clean.2 fun old => unstray ((stray p).2 ⟨old, clean.1⟩)
  · intro p here
    obtain ⟨old, other⟩ := (stray p).1 here
    rw [dirty, not_or, files p other]
    exact ⟨⟨other, (tracks.stray p old).1⟩, (tracks.stray p old).2⟩
  · intro p p' came
    obtain ⟨here, rest⟩ := tracks.whence p p' came
    exact ⟨(AList.mem_insert _).2 (.inr here), rest⟩
  · refine ⟨fun p here => ?_, fun p here => ?_, tracks.plain.2.2⟩
    · rcases (AList.mem_insert _).1 here with rfl | old
      · exact plain
      · exact tracks.plain.1 p old
    · rcases (dirty p).1 here with rfl | old
      · exact plain
      · exact tracks.plain.2.1 p old

/-- A write that is refused for its size. -/
theorem entry {path : String} (plain : Plain path) (tracks : Tracks ids content t) : Tracks ids content (t.entry path) := by
  unfold MemTree.entry
  split
  · exact tracks
  · next absent =>
      have files : ∀ p, p ≠ path → (t.files.insert path []).lookup p = t.files.lookup p := fun p other =>
        AList.lookup_insert_ne other
      have stray : ∀ p, p ∈ (if path ∈ t.dirty then t.stray else t.stray ++ [path]) ↔
          p ∈ t.stray ∨ p = path ∧ path ∉ t.dirty := fun p => by split <;> simp [*]
      constructor
      · intro p e here clean unstray
        rw [stray, not_or] at unstray
        have other : p ≠ path := by
          rintro rfl
          exact unstray.2 ⟨rfl, clean⟩
        rw [files p other]
        exact tracks.clean p e here clean unstray.1
      · intro p here clean unstray
        rw [stray, not_or] at unstray
        rcases (AList.mem_insert _).1 here with rfl | old
        · exact absurd ⟨rfl, clean⟩ unstray.2
        · exact tracks.known p old clean unstray.1
      · intro p here
        rcases (stray p).1 here with old | ⟨rfl, clean⟩
        · have listed := (tracks.stray p old).2
          have other : p ≠ path := by
            rintro rfl
            exact absent (Table.mem_of_lookup listed)
          rw [files p other]
          exact tracks.stray p old
        · exact ⟨clean, AList.lookup_insert _⟩
      · intro p p' came
        obtain ⟨here, rest⟩ := tracks.whence p p' came
        exact ⟨(AList.mem_insert _).2 (.inr here), rest⟩
      · refine ⟨fun p here => ?_, tracks.plain.2⟩
        rcases (AList.mem_insert _).1 here with rfl | old
        · exact plain
        · exact tracks.plain.1 p old

theorem remove {path : String} (plain : Plain path) (tracks : Tracks ids content t) :
    Tracks ids content (t.remove path) := by
  have files : ∀ p, p ≠ path → (t.remove path).files.lookup p = t.files.lookup p := fun p other =>
    AList.lookup_erase_ne other
  have dirty : ∀ p, p ∈ (t.remove path).dirty ↔ p = path ∨ p ∈ t.dirty := fun p => List.mem_insert_iff
  have stray : ∀ p, p ∈ (t.remove path).stray ↔ p ∈ t.stray ∧ p ≠ path := fun p => by simp [MemTree.remove]
  constructor
  · intro p e here clean unstray
    rw [dirty, not_or] at clean
    rw [files p clean.1]
    exact tracks.clean p e here clean.2 fun old => unstray ((stray p).2 ⟨old, clean.1⟩)
  · intro p here clean unstray
    rw [dirty, not_or] at clean
    exact tracks.known p (AList.mem_erase.1 here).2 clean.2 fun old => unstray ((stray p).2 ⟨old, clean.1⟩)
  · intro p here
    obtain ⟨old, other⟩ := (stray p).1 here
    rw [dirty, not_or, files p other]
    exact ⟨⟨other, (tracks.stray p old).1⟩, (tracks.stray p old).2⟩
  · intro p p' came
    have other : p ≠ path := by
      rintro rfl
      simp [MemTree.remove] at came
    have came' : t.whence p = some p' := (Function.update_of_ne other ..).symm.trans came
    obtain ⟨here, rest⟩ := tracks.whence p p' came'
    exact ⟨AList.mem_erase.2 ⟨other, here⟩, rest⟩
  · refine ⟨fun p here => tracks.plain.1 p (AList.mem_erase.1 here).2, fun p here => ?_, tracks.plain.2.2⟩
    rcases (dirty p).1 here with rfl | old
    · exact plain
    · exact tracks.plain.2.1 p old

theorem move {move : String × String} (here : move.1 ∈ t.files) (plain : Plain move.2) (tracks : Tracks ids content t) :
    Tracks ids content (t.moveFile move) := by
  obtain ⟨src, dest⟩ := move
  obtain ⟨b, source⟩ := Table.mem_iff_lookup.1 here
  have files : ∀ p, (t.moveFile (src, dest)).files.lookup p =
      if p = dest then some b else if p = src then none else t.files.lookup p := fun p => Table.lookup_rekey source
  have ids' : ids.rekeys (t.moveFile (src, dest)).renames = (ids.rekeys t.renames).rekey (src, dest) :=
    Table.rekeys_append ids t.renames [(src, dest)]
  have dirty : ∀ p, p ∈ (t.moveFile (src, dest)).dirty ↔
      if src ∈ t.dirty then p = dest ∨ p ∈ t.dirty ∧ p ≠ src else p ∈ t.dirty := fun p => by
    simp only [MemTree.moveFile]
    split <;> simp
  have stray : ∀ p, p ∈ (t.moveFile (src, dest)).stray ↔
      (p ∈ t.stray ∧ p ≠ src ∧ p ≠ dest) ∨ p = dest ∧ src ∈ t.stray ∧ dest ∉ t.dirty := fun p => by
    simp only [MemTree.moveFile, List.mem_append]
    split <;> simp [*]
  -- what the move leaves alone at `dest` lies on a file that was clean and known
  have arrives : dest ∉ (t.moveFile (src, dest)).dirty → dest ∉ (t.moveFile (src, dest)).stray →
      src ∉ t.dirty ∧ src ∉ t.stray := by
    intro clean unstray
    rw [dirty] at clean
    rw [stray] at unstray
    split at clean
    · exact absurd (.inl rfl) clean
    · next cleanly => exact ⟨cleanly, fun old => unstray (.inr ⟨rfl, old, clean⟩)⟩
  have stays : ∀ p, p ≠ src → p ≠ dest → p ∉ (t.moveFile (src, dest)).dirty →
      p ∉ (t.moveFile (src, dest)).stray → p ∉ t.dirty ∧ p ∉ t.stray := by
    intro p source target clean unstray
    rw [dirty] at clean
    rw [stray] at unstray
    refine ⟨fun old => clean ?_, fun old => unstray (.inl ⟨old, source, target⟩)⟩
    split
    · exact .inr ⟨old, source⟩
    · exact old
  constructor
  · intro p e found clean unstray
    rw [ids'] at found
    rw [files]
    rcases Table.of_lookup_rekey found with ⟨rfl, there⟩ | ⟨unmoved, unfilled, there⟩
    · obtain ⟨cleanly, unstrayed⟩ := arrives clean unstray
      rw [if_pos rfl, ← source]
      exact tracks.clean src e there cleanly unstrayed
    · have other : p ≠ dest := by
        rintro rfl
        obtain ⟨cleanly, unstrayed⟩ := arrives clean unstray
        obtain ⟨e', known⟩ := tracks.known src here cleanly unstrayed
        cases (unfilled rfl).symm.trans known
      have source' : p ≠ src := by
        rintro rfl
        cases (unmoved rfl).symm.trans there
      rw [if_neg other, if_neg source']
      exact tracks.clean p e there (stays p source' other clean unstray).1 (stays p source' other clean unstray).2
  · intro p present clean unstray
    obtain ⟨c, found⟩ := Table.mem_iff_lookup.1 present
    rw [files] at found
    rw [ids']
    by_cases target : p = dest
    · subst target
      obtain ⟨cleanly, unstrayed⟩ := arrives clean unstray
      obtain ⟨e, known⟩ := tracks.known src here cleanly unstrayed
      refine ⟨e, ?_⟩
      rw [Table.lookup_rekey known]
      exact if_pos rfl
    · have source' : p ≠ src := by
        rintro rfl
        rw [if_neg target, if_pos rfl] at found
        cases found
      rw [if_neg target, if_neg source'] at found
      obtain ⟨cleanly, unstrayed⟩ := stays p source' target clean unstray
      obtain ⟨e, known⟩ := tracks.known p (Table.mem_of_lookup found) cleanly unstrayed
      exact ⟨e, (Table.lookup_rekey_of_ne source' target).trans known⟩
  · intro p strays
    rw [dirty, files]
    rcases (stray p).1 strays with ⟨old, source', target⟩ | ⟨rfl, old, clean⟩
    · rw [if_neg target, if_neg source']
      refine ⟨?_, (tracks.stray p old).2⟩
      split
      · exact fun again => again.elim target fun old' => (tracks.stray p old).1 old'.1
      · exact (tracks.stray p old).1
    · rw [if_neg (tracks.stray src old).1, if_pos rfl, ← source]
      exact ⟨clean, (tracks.stray src old).2⟩
  · intro p p' came
    rw [ids']
    change Function.update (Function.update t.whence src none) dest (t.whence src) p = some p' at came
    by_cases target : p = dest
    · subst target
      rw [Function.update_self] at came
      obtain ⟨-, e, there, first⟩ := tracks.whence src p' came
      refine ⟨Table.mem_of_lookup ((files p).trans (if_pos rfl)), e, ?_, first⟩
      rw [Table.lookup_rekey there]
      exact if_pos rfl
    · rw [Function.update_of_ne target] at came
      have source' : p ≠ src := by
        rintro rfl
        rw [Function.update_self] at came
        cases came
      rw [Function.update_of_ne source'] at came
      obtain ⟨present, e, there, first⟩ := tracks.whence p p' came
      exact ⟨MemTree.mem_moveFile source' present, e, (Table.lookup_rekey_of_ne source' target).trans there, first⟩
  · refine ⟨fun p present => ?_, fun p listed => ?_, fun m listed => ?_⟩
    · obtain ⟨c, found⟩ := Table.mem_iff_lookup.1 present
      rw [files] at found
      split at found
      · next target => exact target ▸ plain
      · split at found
        · cases found
        · exact tracks.plain.1 p (Table.mem_of_lookup found)
    · rw [dirty] at listed
      split at listed
      · rcases listed with rfl | old
        · exact plain
        · exact tracks.plain.2.1 p old.1
      · exact tracks.plain.2.1 p listed
    · rcases List.mem_append.1 listed with old | new
      · exact tracks.plain.2.2 m old
      · rw [List.mem_singleton.1 new]
        exact plain

theorem plain_below (dest rest : String) (plain : Plain dest) : Plain (dest ++ "/" ++ rest) := by
  unfold Plain at *
  rw [String.toList_append, String.toList_append]
  cases chars : dest.toList with
  | nil => simp
  | cons c cs =>
    rw [chars] at plain
    simpa using plain

theorem answer {asked : Orders × FsOp} (plain : OnPlain t asked) (tracks : Tracks ids content t) :
    Tracks ids content (answer t asked) :=
  MemTree.handle_keeps (P := Tracks ids content) plain_below (fun _ _ same tracks => tracks.same same)
    (fun _ _ b plain tracks => tracks.store b plain) (fun _ _ _ plain tracks => tracks.remove plain)
    (fun _ _ here plain tracks => tracks.move here plain) asked.1 asked.2
    (fun _ _ plain tracks => tracks.entry plain) plain tracks

end Tracks

/-! ## Replaying the log -/

namespace Repo

variable {b58 : Base58} {r : Repo} {t : MemTree}

/-- The bytes of a document. -/
def contentIn (docs : Table DocId Doc) (id : DocId) : Bytes := ((docs.lookup id).map fileContent).getD []

/-- The documents against ids as a replay leaves them, the paths that lost their entry in
the directory document, and the documents there were. -/
structure Replayed (b58 : Base58) (docs : Table DocId Doc) (s : Table String (DocId × String) × List String)
    (r : Repo) : Prop where
  ids : ∀ path, r.ids.lookup path = s.1.lookup path
  leaves : ∀ path, leaf r.dir path = if path ∈ s.2 then none else (s.1.lookup path).map Prod.snd
  cached : ∀ path e, s.1.lookup path = some e →
    ∃ doc, r.docs.lookup e.1 = some doc ∧ fileContent doc = contentIn docs e.1
  old : ∀ id ∈ r.docs, id ∈ docs
  urls : ∀ path e, s.1.lookup path = some e →
    (stripPrefix "automerge:" e.2).isSome = true ∧ parseDocId b58 e.2 = some e.1
  apart : s.1.Apart Prod.fst
  lost : ∀ path ∈ s.2, ∃ e, s.1.lookup path = some e

theorem clear_ids {src dest path : String} (other : path ≠ dest) :
    (r.clear src dest).1.lookup path = if path = src then none else r.ids.lookup path := by
  rw [← Table.lookup_erase_eq]
  unfold clear
  dsimp only
  split
  · exact AList.lookup_erase_ne other
  · rfl

theorem clear_docs {src dest : String} {id : DocId} {doc : Doc} (found : r.docs.lookup id = some doc)
    (spared : ∀ old, src ≠ dest → r.ids.lookup dest = some old → old.1 ≠ id) :
    (r.clear src dest).2.lookup id = some doc := by
  unfold clear
  dsimp only
  split
  · next old _ covered =>
      rw [Table.lookup_erase_eq] at covered
      split at covered
      · cases covered
      · next other => exact (AList.lookup_erase_ne (spared _ (Ne.symm other) covered).symm).trans found
  · exact found

theorem mem_of_mem_clear {src dest : String} {id : DocId} (here : id ∈ (r.clear src dest).2) : id ∈ r.docs := by
  unfold clear at here
  dsimp only at here
  split at here
  · exact (AList.mem_erase.1 here).2
  · exact here

/-- A rename of a path with a document whose pushes go through. -/
theorem flushRename_known {src : String} (dest : String) {e : DocId × String} (known : r.ids.lookup src = some e) :
    (∀ path, (r.flushRename (src, dest) (.ok ()) (.ok ())).2.ids.lookup path =
      if path = dest then some e else if path = src then none else r.ids.lookup path) ∧
    (r.flushRename (src, dest) (.ok ()) (.ok ())).2.dir = renameDirEntry r.dir src dest e.2 ∧
    (∀ id doc, r.docs.lookup id = some doc → (∀ old, src ≠ dest → r.ids.lookup dest = some old → old.1 ≠ id) →
      ∃ doc', (r.flushRename (src, dest) (.ok ()) (.ok ())).2.docs.lookup id = some doc' ∧
        fileContent doc' = fileContent doc) ∧
    ∀ id ∈ (r.flushRename (src, dest) (.ok ()) (.ok ())).2.docs, id ∈ r.docs := by
  obtain ⟨id, url⟩ := e
  simp only [flushRename, known]
  have moved : ∀ path, ((r.clear src dest).1.insert dest (id, url)).lookup path =
      if path = dest then some (id, url) else if path = src then none else r.ids.lookup path := by
    intro path
    rw [Table.lookup_insert_eq]
    split
    · rfl
    · next other => exact clear_ids other
  split
  · exact ⟨moved, rfl, fun id doc found spared => ⟨doc, clear_docs found spared, rfl⟩, fun _ => mem_of_mem_clear⟩
  · next doc named =>
      have here : (r.clear src dest).2.lookup id = some doc := by
        split at named
        · cases named
        · exact named
      refine ⟨moved, rfl, fun id' doc' found spared => ?_, fun id' member => ?_⟩
      · have kept := clear_docs found spared
        by_cases same : id' = id
        · subst same
          refine ⟨_, AList.lookup_insert _, ?_⟩
          rw [fileContent_setFileMeta, Option.some.inj (here.symm.trans kept)]
        · exact ⟨doc', (AList.lookup_insert_ne same).trans kept, rfl⟩
      · rcases (AList.mem_insert _).1 member with rfl | member
        · exact mem_of_mem_clear (Table.mem_of_lookup here)
        · exact mem_of_mem_clear member

variable {docs : Table DocId Doc} {s : Table String (DocId × String) × List String}

theorem Replayed.rename {move : String × String} (plain : Plain move.2) (replayed : Replayed b58 docs s r) :
    Replayed b58 docs (selfMove s move) (r.flushRename move (.ok ()) (.ok ())).2 := by
  obtain ⟨src, dest⟩ := move
  cases there : s.1.lookup src with
  | none =>
    have unmoved : selfMove s (src, dest) = s := by
      unfold selfMove
      rw [there]
    have unchanged : (r.flushRename (src, dest) (.ok ()) (.ok ())).2 = r := by
      unfold flushRename
      dsimp only
      rw [replayed.ids, there]
    rw [unmoved, unchanged]
    exact replayed
  | some e =>
    have known : r.ids.lookup src = some e := (replayed.ids src).trans there
    obtain ⟨ids, dir, kept, old⟩ := flushRename_known dest known
    have moved : selfMove s (src, dest) = (s.1.rekey (src, dest),
        if src = dest then src :: s.2 else s.2.filter fun path => path ≠ src ∧ path ≠ dest) := by
      unfold selfMove
      rw [there]
    have lookup : ∀ path, (s.1.rekey (src, dest)).lookup path =
        if path = dest then some e else if path = src then none else s.1.lookup path :=
      fun path => Table.lookup_rekey there
    rw [moved]
    refine ⟨fun path => ?_, fun path => ?_, fun path e' found => ?_, fun id member => replayed.old id (old id member),
      fun path e' found => ?_, replayed.apart.rekey,
      fun path lost => ?_⟩
    · rw [ids, lookup, replayed.ids]
    · rw [dir, renameDirEntry, leaf_erase, leaf_insert plain (replayed.urls src e there).1, lookup]
      by_cases itself : src = dest
      · subst itself
        by_cases here : path = src
        · simp [here]
        · simp [here, replayed.leaves]
      · by_cases source : path = src
        · simp [source, itself]
        · by_cases target : path = dest
          · simp [target, itself, Ne.symm itself]
          · simp [source, target, itself, replayed.leaves]
    · rcases Table.of_lookup_rekey found with ⟨-, source⟩ | ⟨unmoved, unfilled, stayed⟩
      · obtain ⟨doc, cached, same⟩ := replayed.cached src e' source
        have spared : ∀ old, src ≠ dest → r.ids.lookup dest = some old → old.1 ≠ e'.1 := fun old other covered shared =>
          other (replayed.apart _ _ _ _ source ((replayed.ids dest).symm.trans covered) shared.symm)
        obtain ⟨doc', cached', same'⟩ := kept e'.1 doc cached spared
        exact ⟨doc', cached', same'.trans same⟩
      · obtain ⟨doc, cached, same⟩ := replayed.cached path e' stayed
        have spared : ∀ old, src ≠ dest → r.ids.lookup dest = some old → old.1 ≠ e'.1 := by
          intro old _ covered shared
          have here := replayed.apart _ _ _ _ stayed ((replayed.ids dest).symm.trans covered) shared.symm
          cases (unfilled here).symm.trans there
        obtain ⟨doc', cached', same'⟩ := kept e'.1 doc cached spared
        exact ⟨doc', cached', same'.trans same⟩
    · obtain ⟨path', found'⟩ := Table.of_lookup_rekeys [(src, dest)] found
      exact replayed.urls path' e' found'
    · by_cases itself : src = dest
      · subst itself
        simp only [if_true] at lost
        rcases List.mem_cons.1 lost with rfl | old
        · exact ⟨e, (lookup path).trans (if_pos rfl)⟩
        · by_cases here : path = src
          · exact ⟨e, (lookup path).trans (if_pos here)⟩
          · obtain ⟨e', found⟩ := replayed.lost path old
            exact ⟨e', (Table.lookup_rekey_of_ne here here).trans found⟩
      · rw [if_neg itself] at lost
        obtain ⟨old, others⟩ := List.mem_filter.1 lost
        obtain ⟨e', found⟩ := replayed.lost path old
        have others' : path ≠ src ∧ path ≠ dest := by simpa using others
        exact ⟨e', (Table.lookup_rekey_of_ne others'.1 others'.2).trans found⟩

theorem selfMove_ids : ∀ (log : List (String × String)) (s : Table String (DocId × String) × List String),
    (log.foldl selfMove s).1 = s.1.rekeys log
  | [], _ => rfl
  | move :: log, s => by
    have first : (selfMove s move).1 = s.1.rekey move := by
      unfold selfMove
      split
      · next unknown => exact (Table.rekey_of_none unknown).symm
      · rfl
    rw [List.foldl_cons, selfMove_ids log, first]
    rfl

theorem Replayed.renames : ∀ (log : List (String × String)) {s : Table String (DocId × String) × List String} {r : Repo},
    (∀ move ∈ log, Plain move.2) → Replayed b58 docs s r →
      Replayed b58 docs (log.foldl selfMove s)
        (log.foldl (fun r move => (r.flushRename move (.ok ()) (.ok ())).2) r)
  | [], _, _, _, replayed => replayed
  | _ :: log, _, _, plain, replayed =>
    Replayed.renames log (fun move member => plain move (List.mem_cons_of_mem _ member))
      (replayed.rename (plain _ List.mem_cons_self))

/-! ## Going through the dirty paths -/

section Dirty

variable (b58 : Base58) (files : Table String Bytes) (drawn : String → List UInt8)
  (ids : Table String (DocId × String))

/-- The entry of a dirty path once it is flushed. -/
def settled (path : String) : Option (DocId × String) :=
  match files.lookup path, ids.lookup path with
  | none, _ => none
  | some _, some e => some e
  | some _, none => some ((newDocUrl b58 (drawn path)).2, (newDocUrl b58 (drawn path)).1)

/-- The entry of a path when some dirty paths are flushed. -/
def entryAfter (done : List String) (path : String) : Option (DocId × String) :=
  if path ∈ done then settled b58 files drawn ids path else ids.lookup path

end Dirty

section Dirty

variable {files : Table String Bytes} {drawn : String → List UInt8} {done : List String} {path : String}

theorem entryAfter_self (ids : Table String (DocId × String)) :
    entryAfter b58 files drawn ids (path :: done) path = settled b58 files drawn ids path :=
  if_pos List.mem_cons_self

theorem entryAfter_of_ne (ids : Table String (DocId × String)) {path' : String} (other : path' ≠ path) :
    entryAfter b58 files drawn ids (path :: done) path' = entryAfter b58 files drawn ids done path' := by
  unfold entryAfter
  simp [other]

/-- The documents when some dirty paths are flushed. -/
structure Flushed (b58 : Base58) (docs : Table DocId Doc) (s : Table String (DocId × String) × List String)
    (files : Table String Bytes) (drawn : String → List UInt8) (done : List String) (r : Repo) : Prop where
  ids : ∀ path, r.ids.lookup path = entryAfter b58 files drawn s.1 done path
  leaves : ∀ path, leaf r.dir path = if path ∈ s.2 then none else (entryAfter b58 files drawn s.1 done path).map Prod.snd
  cached : ∀ path e, entryAfter b58 files drawn s.1 done path = some e → ∃ doc, r.docs.lookup e.1 = some doc ∧
    (path ∈ done → files.lookup path = some (fileContent doc)) ∧ (path ∉ done → fileContent doc = contentIn docs e.1)
  old : ∀ id ∈ r.docs, id ∈ docs ∨ ∃ path ∈ done, id = pad (drawn path)
  urls : ∀ path e, entryAfter b58 files drawn s.1 done path = some e →
    (stripPrefix "automerge:" e.2).isSome = true ∧ parseDocId b58 e.2 = some e.1
  apart : r.ids.Apart Prod.fst

theorem Replayed.flushed (files : Table String Bytes) (drawn : String → List UInt8) (replayed : Replayed b58 docs s r) :
    Flushed b58 docs s files drawn [] r where
  ids path := by simp [entryAfter, replayed.ids]
  leaves path := by simp [entryAfter, replayed.leaves]
  cached path e found := by
    obtain ⟨doc, cached, same⟩ := replayed.cached path e (by simpa [entryAfter] using found)
    exact ⟨doc, cached, nofun, fun _ => same⟩
  old id here := .inl (replayed.old id here)
  urls path e found := replayed.urls path e (by simpa [entryAfter] using found)
  apart a a' e e' found found' same := by
    rw [replayed.ids] at found found'
    exact replayed.apart a a' e e' found found' same

theorem pad_injective {bytes bytes' : List UInt8} (size : bytes.length = 16) (size' : bytes'.length = 16)
    (same : pad bytes = pad bytes') : bytes = bytes' := by
  unfold pad at same
  rw [size, size'] at same
  exact List.append_cancel_right same

theorem mem_cons_of_other {path' : String} (other : path' ≠ path) : path' ∈ path :: done ↔ path' ∈ done := by
  simp [other]

theorem drawn_cons {id : DocId} (old : id ∈ docs ∨ ∃ p ∈ done, id = pad (drawn p)) :
    id ∈ docs ∨ ∃ p ∈ path :: done, id = pad (drawn p) :=
  old.imp_right fun ⟨p, member, same⟩ => ⟨p, List.mem_cons_of_mem _ member, same⟩

theorem entryAfter_gone (b58 : Base58) (drawn : String → List UInt8) (ids : Table String (DocId × String))
    (done : List String) (content : files.lookup path = none) :
    entryAfter b58 files drawn ids (path :: done) path = none := by
  rw [entryAfter_self, settled, content]

section Paths

variable (flushed : Flushed b58 docs s files drawn done r)
include flushed

theorem Flushed.unknown (undone : path ∉ done) : r.ids.lookup path = s.1.lookup path :=
  (flushed.ids path).trans (if_neg undone)

theorem Flushed.again (again : path ∈ done) : r.ids.lookup path = settled b58 files drawn s.1 path :=
  (flushed.ids path).trans (if_pos again)

theorem Flushed.cached_of_known {e : DocId × String} (known : r.ids.lookup path = some e) :
    ∃ doc, r.docs.lookup e.1 = some doc := by
  obtain ⟨doc, cached, -⟩ := flushed.cached path e ((flushed.ids path).symm.trans known)
  exact ⟨doc, cached⟩

/-- A path without a file or a document. -/
theorem Flushed.nothing (content : files.lookup path = none) (known : r.ids.lookup path = none) :
    Flushed b58 docs s files drawn (path :: done) r := by
  have gone := entryAfter_gone b58 drawn s.1 done content
  have entries : ∀ p, entryAfter b58 files drawn s.1 (path :: done) p = entryAfter b58 files drawn s.1 done p := by
    intro p
    by_cases here : p = path
    · rw [here, gone, ← flushed.ids, known]
    · exact entryAfter_of_ne s.1 here
  refine ⟨fun p => ?_, fun p => ?_, fun p e found => ?_, fun id here => drawn_cons (flushed.old id here),
    fun p e found => ?_, flushed.apart⟩
  · rw [entries]
    exact flushed.ids p
  · rw [entries]
    exact flushed.leaves p
  · have other : p ≠ path := by
      rintro rfl
      cases gone.symm.trans found
    rw [entries] at found
    rw [mem_cons_of_other other]
    exact flushed.cached p e found
  · rw [entries] at found
    exact flushed.urls p e found

/-- A path whose file is gone loses its entry and its document. -/
theorem Flushed.dropped {id : DocId} {url : String} (content : files.lookup path = none)
    (known : r.ids.lookup path = some (id, url)) :
    Flushed b58 docs s files drawn (path :: done)
      { dir := r.dir.erase path, ids := r.ids.erase path, docs := r.docs.erase id } := by
  have gone := entryAfter_gone b58 drawn s.1 done content
  refine ⟨fun p => ?_, fun p => ?_, fun p e found => ?_, fun id' here => ?_, fun p e found => ?_, ?_⟩
  · rw [Table.lookup_erase_eq]
    split
    · next here => rw [here, gone]
    · next other => rw [entryAfter_of_ne s.1 other, flushed.ids]
  · rw [leaf_erase]
    split
    · next here => simp [here, gone]
    · next other => rw [entryAfter_of_ne s.1 other, flushed.leaves]
  · have other : p ≠ path := by
      rintro rfl
      cases gone.symm.trans found
    rw [entryAfter_of_ne s.1 other] at found
    rw [mem_cons_of_other other]
    obtain ⟨doc, cached, same⟩ := flushed.cached p e found
    have apart : e.1 ≠ id := fun shared =>
      other (flushed.apart p path e _ ((flushed.ids p).trans found) known shared)
    exact ⟨doc, (AList.lookup_erase_ne apart).trans cached, same⟩
  · exact drawn_cons (flushed.old id' (AList.mem_erase.1 here).2)
  · have other : p ≠ path := by
      rintro rfl
      cases gone.symm.trans found
    rw [entryAfter_of_ne s.1 other] at found
    exact flushed.urls p e found
  · intro a a' e e' found found' same
    rw [Table.lookup_erase_eq] at found found'
    split at found
    · cases found
    · split at found'
      · cases found'
      · exact flushed.apart a a' e e' found found' same

/-- The document of a path gets the file's bytes. -/
theorem Flushed.changed {c : Bytes} {id : DocId} {url : String} {doc : Doc} (content : files.lookup path = some c)
    (known : r.ids.lookup path = some (id, url)) (cached : r.docs.lookup id = some doc) :
    Flushed b58 docs s files drawn (path :: done) { r with docs := r.docs.insert id (setContent doc c) } := by
  have here : entryAfter b58 files drawn s.1 (path :: done) path = some (id, url) := by
    rw [entryAfter_self]
    by_cases before : path ∈ done
    · exact (flushed.again before).symm.trans known
    · rw [settled, content, (flushed.unknown before).symm.trans known]
  have entries : ∀ p, entryAfter b58 files drawn s.1 (path :: done) p = entryAfter b58 files drawn s.1 done p := by
    intro p
    by_cases same : p = path
    · rw [same, here, ← flushed.ids, known]
    · exact entryAfter_of_ne s.1 same
  refine ⟨fun p => ?_, fun p => ?_, fun p e found => ?_, fun id' present => ?_, fun p e found => ?_, flushed.apart⟩
  · rw [entries]
    exact flushed.ids p
  · rw [entries]
    exact flushed.leaves p
  · by_cases same : p = path
    · subst same
      cases here.symm.trans found
      exact ⟨_, AList.lookup_insert _, fun _ => by rw [content, fileContent_setContent],
        fun undone => absurd List.mem_cons_self undone⟩
    · rw [entries] at found
      rw [mem_cons_of_other same]
      obtain ⟨doc', cached', same'⟩ := flushed.cached p e found
      have apart : e.1 ≠ id := fun shared =>
        same (flushed.apart p path e _ ((flushed.ids p).trans found) known shared)
      exact ⟨doc', (AList.lookup_insert_ne apart).trans cached', same'⟩
  · rcases (AList.mem_insert _).1 present with rfl | old
    · exact drawn_cons (flushed.old _ (Table.mem_of_lookup cached))
    · exact drawn_cons (flushed.old id' old)
  · rw [entries] at found
    exact flushed.urls p e found

/-- A path without a document gets a new one. -/
theorem Flushed.created {c : Bytes} {id : DocId} {url : String} (content : files.lookup path = some c)
    (known : r.ids.lookup path = none) (drew : newDocUrl b58 (drawn path) = (url, id)) (new : id ∉ r.docs)
    (parsed : parseDocId b58 url = some id) (plain : Plain path)
    (lost : ∀ p ∈ s.2, ∃ e, s.1.lookup p = some e) :
    Flushed b58 docs s files drawn (path :: done)
      { dir := r.dir.insert path (.str url), ids := r.ids.insert path (id, url),
        docs := r.docs.insert id (makeFileDoc path c) } := by
  have url_eq : (newDocUrl b58 (drawn path)).1 = url := congrArg Prod.fst drew
  have id_eq : pad (drawn path) = id := congrArg Prod.snd drew
  have named : (stripPrefix "automerge:" url).isSome = true := by
    rw [← url_eq]
    exact Option.isSome_iff_exists.2 ⟨_, stripPrefix_eq_some.2 rfl⟩
  have undone : path ∉ done := by
    intro done
    have some_entry := (flushed.again done).symm.trans known
    cases there : s.1.lookup path <;> rw [settled, content, there] at some_entry <;> cases some_entry
  have absent : s.1.lookup path = none := (flushed.unknown undone).symm.trans known
  have here : entryAfter b58 files drawn s.1 (path :: done) path = some (id, url) := by
    rw [entryAfter_self, settled, content, absent, drew]
  have apart : ∀ p e, r.ids.lookup p = some e → e.1 ≠ id := fun p e found shared => by
    obtain ⟨doc, cached⟩ := flushed.cached_of_known found
    exact new (shared ▸ Table.mem_of_lookup cached)
  refine ⟨fun p => ?_, fun p => ?_, fun p e found => ?_, fun id' present => ?_, fun p e found => ?_, ?_⟩
  · rw [Table.lookup_insert_eq]
    split
    · next same => rw [same, here]
    · next other => rw [entryAfter_of_ne s.1 other, flushed.ids]
  · rw [leaf_insert plain named]
    split
    · next same =>
        have found : path ∉ s.2 := fun lost_path => by
          obtain ⟨e, there⟩ := lost path lost_path
          cases absent.symm.trans there
        rw [same, if_neg found, here]
        rfl
    · next other => rw [entryAfter_of_ne s.1 other, flushed.leaves]
  · by_cases same : p = path
    · subst same
      cases here.symm.trans found
      exact ⟨_, AList.lookup_insert _, fun _ => by rw [content, makeFileDoc, fileContent_setContent],
        fun undone => absurd List.mem_cons_self undone⟩
    · rw [entryAfter_of_ne s.1 same] at found
      rw [mem_cons_of_other same]
      obtain ⟨doc, cached, same'⟩ := flushed.cached p e found
      have apart : e.1 ≠ id := fun shared => new (shared ▸ Table.mem_of_lookup cached)
      exact ⟨doc, (AList.lookup_insert_ne apart).trans cached, same'⟩
  · rcases (AList.mem_insert _).1 present with rfl | old
    · exact .inr ⟨path, List.mem_cons_self, id_eq.symm⟩
    · exact drawn_cons (flushed.old id' old)
  · by_cases same : p = path
    · subst same
      cases here.symm.trans found
      exact ⟨named, parsed⟩
    · rw [entryAfter_of_ne s.1 same] at found
      exact flushed.urls p e found
  · intro a a' e e' found found' shared
    rw [Table.lookup_insert_eq] at found found'
    split at found
    · next same =>
        cases found
        split at found'
        · next same' => exact same.trans same'.symm
        · exact absurd shared.symm (apart a' e' found')
    · split at found'
      · cases found'
        exact absurd shared (apart a e found)
      · exact flushed.apart a a' e e' found found' shared

end Paths

theorem Flushed.one (lawful : b58.Lawful) {paths : List String} (fresh : Fresh drawn docs paths)
    (sub : ∀ p ∈ done, p ∈ paths) (member : path ∈ paths) (plain : Plain path)
    (lost : ∀ p ∈ s.2, ∃ e, s.1.lookup p = some e) (flushed : Flushed b58 docs s files drawn done r) :
    Flushed b58 docs s files drawn (path :: done)
      (r.flushPath b58 files (drawn path) path (.ok ()) (.ok ())).2 := by
  unfold flushPath
  cases content : files.lookup path with
  | none =>
    cases known : r.ids.lookup path with
    | none => exact flushed.nothing content known
    | some e => exact flushed.dropped content known
  | some c =>
    cases known : r.ids.lookup path with
    | some e =>
      obtain ⟨doc, cached⟩ := flushed.cached_of_known known
      dsimp only
      rw [cached]
      exact flushed.changed content known cached
    | none =>
      have size := fresh.size path member
      refine flushed.created content known rfl ?_ (parseDocId_newDocUrl lawful size) plain lost
      intro present
      rcases flushed.old _ present with old | ⟨p, before, same⟩
      · exact fresh.new path member old
      · have same' := fresh.apart path member p (sub p before) (pad_injective size (fresh.size p (sub p before)) same)
        have some_entry := (flushed.again (same' ▸ before)).symm.trans known
        cases there : s.1.lookup path <;> rw [settled, content, there] at some_entry <;> cases some_entry

theorem Flushed.all (lawful : b58.Lawful) {paths : List String} (fresh : Fresh drawn docs paths)
    (plain : ∀ p ∈ paths, Plain p) (lost : ∀ p ∈ s.2, ∃ e, s.1.lookup p = some e) :
    ∀ (todo : List String) {done : List String} {r : Repo}, (∀ p ∈ todo, p ∈ paths) → (∀ p ∈ done, p ∈ paths) →
      Flushed b58 docs s files drawn done r →
        Flushed b58 docs s files drawn (todo.reverse ++ done)
          (todo.foldl (fun r path => (r.flushPath b58 files (drawn path) path (.ok ()) (.ok ())).2) r)
  | [], _, _, _, _, flushed => flushed
  | path :: todo, done, r, within, sub, flushed => by
    have member := within path List.mem_cons_self
    have first := flushed.one lawful fresh sub member (plain path member) lost
    have rest := Flushed.all lawful fresh plain lost todo (fun p here => within p (List.mem_cons_of_mem _ here))
      (fun p here => (List.mem_cons.1 here).elim (fun same => same ▸ member) (sub p)) first
    rwa [List.reverse_cons, List.append_assoc]

end Dirty

/-! ## The whole flush -/

theorem Agrees.leaf_eq (agrees : r.Agrees b58 t) (path : String) : leaf r.dir path = (r.ids.lookup path).map Prod.snd := by
  cases found : leaf r.dir path with
  | some url =>
    obtain ⟨id, doc, parsed, -, -⟩ := agrees.bytes path url (mem_dirLeaves.2 found)
    rw [(agrees.ids path id url).2 ⟨mem_dirLeaves.2 found, parsed⟩]
    rfl
  | none =>
    cases known : r.ids.lookup path with
    | none => rfl
    | some e =>
      have named := mem_dirLeaves.1 ((agrees.ids path e.1 e.2).1 known).1
      cases found.symm.trans named

/-- A path with an entry has a document, with the bytes of its file. -/
theorem Agrees.cached (agrees : r.Agrees b58 t) {path : String} {e : DocId × String} (known : r.ids.lookup path = some e) :
    parseDocId b58 e.2 = some e.1 ∧ ∃ doc, r.docs.lookup e.1 = some doc ∧ t.files.lookup path = some (fileContent doc) := by
  obtain ⟨named, parsed⟩ := (agrees.ids path e.1 e.2).1 known
  obtain ⟨id, doc, parsed', cached, content⟩ := agrees.bytes path e.2 named
  cases parsed.symm.trans parsed'
  exact ⟨parsed, doc, cached, content⟩

theorem contentIn_of_lookup {docs : Table DocId Doc} {id : DocId} {doc : Doc} (cached : docs.lookup id = some doc) :
    contentIn docs id = fileContent doc := by
  unfold contentIn
  rw [cached]
  rfl

theorem Agrees.replayed (agrees : r.Agrees b58 t) : Replayed b58 r.docs (r.ids, []) r where
  ids _ := rfl
  leaves path := by
    rw [agrees.leaf_eq]
    rfl
  cached path e known := by
    obtain ⟨-, doc, cached, -⟩ := agrees.cached known
    exact ⟨doc, cached, (contentIn_of_lookup cached).symm⟩
  old _ here := here
  urls path e known := by
    refine ⟨?_, (agrees.cached known).1⟩
    have named := mem_dirLeaves.1 ((agrees.ids path e.1 e.2).1 known).1
    unfold leaf at named
    split at named
    · exact (Option.filter_eq_some_iff.1 named).2
    · cases named
  apart := agrees.apart
  lost _ := nofun

theorem Agrees.tracks (agrees : r.Agrees b58 t) (quiet : t.Quiet) : Tracks r.ids (contentIn r.docs) t := by
  have named : ∀ path ∈ t.files, ∃ url, leaf r.dir path = some url := fun path here => by
    obtain ⟨url, named⟩ := (agrees.leaves path).2 here
    exact ⟨url, mem_dirLeaves.1 named⟩
  have known : ∀ path ∈ t.files, ∃ e, r.ids.lookup path = some e := fun path here => by
    obtain ⟨url, named⟩ := named path here
    rw [agrees.leaf_eq] at named
    obtain ⟨e, found, -⟩ := Option.map_eq_some_iff.1 named
    exact ⟨e, found⟩
  constructor
  · rw [quiet.renames]
    intro path e found _ _
    obtain ⟨-, doc, cached, content⟩ := agrees.cached found
    rw [content, contentIn_of_lookup cached]
  · rw [quiet.renames]
    exact fun path here _ _ => known path here
  · rw [quiet.stray]
    exact fun _ => nofun
  · rw [quiet.renames]
    intro path path' came
    rw [quiet.whence] at came
    split at came
    · next here =>
        cases came
        obtain ⟨e, found⟩ := known path here
        exact ⟨here, e, found, found⟩
    · cases came
  · rw [quiet.dirty, quiet.renames]
    refine ⟨fun path here => ?_, fun _ => nofun, fun _ => nofun⟩
    obtain ⟨url, named⟩ := named path here
    unfold leaf at named
    split at named
    · assumption
    · cases named

/-- A file has an entry after the flush, and its document the file's bytes, as long as what
a refused write left behind is gone or lies on an empty document. -/
theorem Flushed.file {t : MemTree} {done : List String} {drawn : String → List UInt8} {r : Repo}
    (flushed : Flushed b58 docs s t.files drawn done r) (processed : ∀ path, path ∈ done ↔ path ∈ t.dirty)
    {ids : Table String (DocId × String)} (tracks : Tracks ids (contentIn docs) t) (replay : s.1 = ids.rekeys t.renames)
    (stray : ∀ path ∈ t.stray, ∃ id url doc, s.1.lookup path = some (id, url) ∧ docs.lookup id = some doc ∧
      fileContent doc = []) (path : String) :
    (path ∈ t.files ↔ ∃ e, entryAfter b58 t.files drawn s.1 done path = some e) ∧
      ∀ e, entryAfter b58 t.files drawn s.1 done path = some e → ∃ doc, r.docs.lookup e.1 = some doc ∧
        t.files.lookup path = some (fileContent doc) := by
  by_cases dirty : path ∈ t.dirty
  · have again : entryAfter b58 t.files drawn s.1 done path = settled b58 t.files drawn s.1 path :=
      if_pos ((processed path).2 dirty)
    refine ⟨?_, fun e found => ?_⟩
    · rw [again, Table.mem_iff_lookup]
      cases content : t.files.lookup path with
      | none => simp [settled, content]
      | some c => cases known : s.1.lookup path <;> simp [settled, content, known]
    · obtain ⟨doc, cached, same, -⟩ := flushed.cached path e found
      exact ⟨doc, cached, same ((processed path).2 dirty)⟩
  · have kept : entryAfter b58 t.files drawn s.1 done path = s.1.lookup path :=
      if_neg fun member => dirty ((processed path).1 member)
    have content : ∀ e, s.1.lookup path = some e → t.files.lookup path = some (contentIn docs e.1) := by
      intro e found
      by_cases strays : path ∈ t.stray
      · obtain ⟨id, url, doc, known, cached, empty⟩ := stray path strays
        cases known.symm.trans found
        rw [(tracks.stray path strays).2, contentIn_of_lookup cached, empty]
      · exact tracks.clean path e (replay ▸ found) dirty strays
    rw [kept]
    refine ⟨⟨fun here => ?_, fun ⟨e, found⟩ => Table.mem_of_lookup (content e found)⟩, fun e found => ?_⟩
    · by_cases strays : path ∈ t.stray
      · obtain ⟨id, url, doc, known, -⟩ := stray path strays
        exact ⟨_, known⟩
      · rw [replay]
        exact tracks.known path here dirty strays
    · obtain ⟨doc, cached, -, same⟩ := flushed.cached path e (kept.trans found)
      refine ⟨doc, cached, ?_⟩
      rw [same fun member => dirty ((processed path).1 member)]
      exact content e found

/-- What was flushed agrees with the tree exactly when the tree is sound. -/
theorem Flushed.agrees_iff {t t' : MemTree} {done : List String} {drawn : String → List UInt8} {r r' : Repo}
    (agrees : r.Agrees b58 t) (tracks : Tracks r.ids (contentIn r.docs) t')
    (flushed : Flushed b58 r.docs s t'.files drawn done r') (processed : ∀ path, path ∈ done ↔ path ∈ t'.dirty)
    (replay : s.1 = r.ids.rekeys t'.renames) (lost : s.2 = selfMoved r.ids t'.renames) :
    (r'.Agrees b58 { t' with renames := [], dirty := [] } ∧ r.KeepsUrls r' { t' with renames := [], dirty := [] }) ↔
      r.Sound t' := by
  constructor
  · rintro ⟨after, -⟩
    have entry_of_file : ∀ path ∈ t'.files, path ∉ s.2 ∧ ∃ e, leaf r'.dir path = some e.2 ∧
        entryAfter b58 t'.files drawn s.1 done path = some e := by
      intro path here
      obtain ⟨url, named⟩ := (after.leaves path).2 here
      have named' := mem_dirLeaves.1 named
      rw [flushed.leaves] at named'
      split at named'
      · cases named'
      · next kept =>
          obtain ⟨e, found, rfl⟩ := Option.map_eq_some_iff.1 named'
          exact ⟨kept, e, mem_dirLeaves.1 named, found⟩
    refine ⟨fun path here => lost ▸ (entry_of_file path here).1, fun path strays => ?_⟩
    obtain ⟨clean, empty⟩ := tracks.stray path strays
    obtain ⟨-, e, named, found⟩ := entry_of_file path (Table.mem_of_lookup empty)
    have undone : path ∉ done := fun member => clean ((processed path).1 member)
    have known : s.1.lookup path = some e := (if_neg undone).symm.trans found
    obtain ⟨doc, cached, -, same⟩ := flushed.cached path e found
    -- the document of the leaf is the one it had, and holds the file's bytes
    obtain ⟨id, doc', parsed, cached', content⟩ := after.bytes path e.2 (mem_dirLeaves.2 named)
    cases parsed.symm.trans (flushed.urls path e found).2
    cases cached.symm.trans cached'
    have none_left : fileContent doc = [] := Option.some.inj (content.symm.trans empty)
    rw [replay] at known
    obtain ⟨path', first⟩ := Table.of_lookup_rekeys _ known
    obtain ⟨-, old, was, -⟩ := agrees.cached first
    refine ⟨e.1, e.2, old, known, was, ?_⟩
    rw [← contentIn_of_lookup was, ← same undone, none_left]
  · intro sound
    have file := flushed.file processed tracks replay (replay ▸ sound.stray)
    have leaf_eq : ∀ path, leaf r'.dir path = (entryAfter b58 t'.files drawn s.1 done path).map Prod.snd := by
      intro path
      rw [flushed.leaves]
      split
      · next gone =>
          cases found : entryAfter b58 t'.files drawn s.1 done path with
          | none => rfl
          | some e => exact absurd (lost ▸ gone) (sound.moved path ((file path).1.2 ⟨e, found⟩))
      · rfl
    refine ⟨⟨fun path => ?_, fun path url named => ?_, fun path id url => ?_, flushed.apart⟩, fun path path' url came named => ?_⟩
    · rw [(file path).1]
      simp only [mem_dirLeaves, leaf_eq, Option.map_eq_some_iff]
      exact ⟨fun ⟨_, e, found, _⟩ => ⟨e, found⟩, fun ⟨e, found⟩ => ⟨e.2, e, found, rfl⟩⟩
    · rw [mem_dirLeaves, leaf_eq] at named
      obtain ⟨e, found, rfl⟩ := Option.map_eq_some_iff.1 named
      obtain ⟨doc, cached, content⟩ := (file path).2 e found
      exact ⟨e.1, doc, (flushed.urls path e found).2, cached, content⟩
    · rw [flushed.ids, mem_dirLeaves, leaf_eq]
      constructor
      · intro found
        exact ⟨Option.map_eq_some_iff.2 ⟨_, found, rfl⟩, (flushed.urls path _ found).2⟩
      · rintro ⟨named, parsed⟩
        obtain ⟨e, found, rfl⟩ := Option.map_eq_some_iff.1 named
        cases parsed.symm.trans (flushed.urls path e found).2
        exact found
    · obtain ⟨here, e, known, first⟩ := tracks.whence path path' came
      have same : e.2 = url := by
        rw [mem_dirLeaves, agrees.leaf_eq, first] at named
        exact Option.some.inj named
      have kept : entryAfter b58 t'.files drawn s.1 done path = some e := by
        rw [← replay] at known
        obtain ⟨c, content⟩ := Table.mem_iff_lookup.1 here
        unfold entryAfter
        split
        · rw [settled, content, known]
        · exact known
      rw [mem_dirLeaves, leaf_eq, kept, ← same]
      rfl

/-- From a state in which everything agrees, whatever the mount asks for on plain paths: a
flush whose pushes go through makes everything agree again, and every file that was brought
to its path by renames keeps its url, exactly when the tree is sound. -/
theorem flush_agrees_iff (lawful : b58.Lawful) (agrees : r.Agrees b58 t) (quiet : t.Quiet)
    (asked : List (Orders × FsOp)) (plain : Along answer OnPlain t asked) (order : List String)
    (drawn : String → List UInt8) (fresh : Fresh drawn r.docs (asked.foldl answer t).dirty) :
    ((r.flush b58 (asked.foldl answer t) order drawn).1.Agrees b58 (r.flush b58 (asked.foldl answer t) order drawn).2 ∧
      r.KeepsUrls (r.flush b58 (asked.foldl answer t) order drawn).1 (r.flush b58 (asked.foldl answer t) order drawn).2) ↔
    r.Sound (asked.foldl answer t) := by
  have turn : ∀ t a, OnPlain t a → Tracks r.ids (contentIn r.docs) t → Tracks r.ids (contentIn r.docs) (answer t a) :=
    fun _ _ plain tracks => tracks.answer plain
  have tracks := Along.keeps turn plain (agrees.tracks quiet)
  generalize asked.foldl answer t = t' at fresh tracks
  have replayed := agrees.replayed.renames t'.renames tracks.plain.2.2
  have flushed := replayed.flushed t'.files drawn |>.all lawful fresh tracks.plain.2.1 replayed.lost
    (arrange order t'.dirty) (fun p here => mem_arrange.1 here) (List.forall_mem_nil _)
  refine Flushed.agrees_iff agrees tracks flushed (fun path => ?_) (selfMove_ids _ _) rfl
  rw [List.append_nil, List.mem_reverse, mem_arrange]

/-! ### One file -/

/-- A stand-in for Base58Check with a letter for each byte. -/
def letters : Base58 where
  encode bytes := String.ofList (bytes.map fun b => Char.ofNat (0x100 + b.toNat))
  decode s := some (s.toList.map fun c => (c.toNat - 0x100).toUInt8)

theorem toNat_letter (b : UInt8) : (Char.ofNat (0x100 + b.toNat)).toNat = 0x100 + b.toNat := by
  have small := b.toNat_lt
  rw [Char.toNat_ofNat, if_pos (.inl (by omega))]

theorem letters_lawful : letters.Lawful where
  decode_encode bytes _ := by
    have letter : ∀ b : UInt8, ((Char.ofNat (0x100 + b.toNat)).toNat - 0x100).toUInt8 = b := fun b => by
      rw [toNat_letter]
      simp
    simp [letters, letter, Function.comp_def]
  alphabet bytes member := by
    obtain ⟨b, -, same⟩ := List.mem_map.1 (String.toList_ofList ▸ member)
    have code := congrArg Char.toNat same
    rw [toNat_letter] at code
    exact absurd code (by rw [show '#'.toNat = 35 from rfl]; omega)
  short bytes size := by simp [letters, size]

def zeros : String := "automerge:" ++ String.ofList (List.replicate 64 '0')

/-- A repository with one document, under `a`. -/
def oneRepo : Repo where
  dir := .ofRows [("a", .str zeros)]
  ids := .ofRows [("a", (List.replicate 32 0, zeros))]
  docs := .ofRows [(List.replicate 32 0, .ofRows [("content", .text "hi")])]

def oneTree : MemTree where
  files := .ofRows [("a", [0x68, 0x69])]
  whence path := if path ∈ (.ofRows [("a", [0x68, 0x69])] : Table String Bytes) then some path else none

theorem oneTree_quiet : oneTree.Quiet := ⟨rfl, rfl, fun _ => rfl, rfl⟩

theorem oneRepo_agrees : oneRepo.Agrees letters oneTree := by
  have leaves : dirLeaves oneRepo.dir = [("a", zeros)] := by decide +kernel
  have parsed : parseDocId letters zeros = some (List.replicate 32 0) := by decide +kernel
  have ids : ∀ path, oneRepo.ids.lookup path = if path = "a" then some (List.replicate 32 0, zeros) else none :=
    fun path => Table.lookup_insert_eq ∅ "a" path _
  have files : ∀ path, oneTree.files.lookup path = if path = "a" then some [0x68, 0x69] else none :=
    fun path => Table.lookup_insert_eq ∅ "a" path _
  constructor
  · intro path
    rw [leaves, Table.mem_iff_lookup, files]
    by_cases here : path = "a" <;> simp [here]
  · intro path url named
    rw [leaves] at named
    cases List.mem_singleton.1 named
    exact ⟨_, .ofRows [("content", .text "hi")], parsed, AList.lookup_insert _, by decide +kernel⟩
  · intro path id url
    rw [leaves, ids, List.mem_singleton]
    constructor
    · intro found
      split at found
      · next here =>
          cases found
          exact ⟨by rw [here], parsed⟩
      · cases found
    · rintro ⟨same, found⟩
      cases same
      cases parsed.symm.trans found
      rfl
  · intro a a' e e' found found' _
    rw [ids] at found found'
    split at found
    · next here =>
        split at found'
        · next here' => rw [here, here']
        · cases found'
    · cases found

/-- `a` is renamed, and a second file made. -/
def renameAndCreate : List (Orders × FsOp) := [({}, .rename "a" "b"), ({}, .open "c" true false false)]

/-- A rename onto itself. -/
def renameOntoItself : List (Orders × FsOp) := [({}, .rename "a" "a")]

/-- A write refused for its size, through a handle opened on a directory. -/
def writeTooMuch : List (Orders × FsOp) :=
  [({}, .mkdir "d"), ({}, .open "d" false false false), ({}, .write 1 (64 * 1024 * 1024) [0])]

theorem flush_agrees_one :
    (oneRepo.flush letters (renameAndCreate.foldl answer oneTree) [] fun _ => List.replicate 16 7).1.Agrees letters
      (oneRepo.flush letters (renameAndCreate.foldl answer oneTree) [] fun _ => List.replicate 16 7).2 := by
  have checked : ∀ t a, decide (OnPlain t a) = true → OnPlain t a := fun _ _ => of_decide_eq_true
  have plain : Along answer OnPlain oneTree renameAndCreate := along_of_check checked (by decide +kernel)
  have dirty : (renameAndCreate.foldl answer oneTree).dirty = ["c"] := by decide +kernel
  have stray : (renameAndCreate.foldl answer oneTree).stray = [] := by decide +kernel
  have fresh : Fresh (fun _ => List.replicate 16 7) oneRepo.docs (renameAndCreate.foldl answer oneTree).dirty := by
    rw [dirty]
    refine ⟨fun _ _ => rfl, fun path here path' here' _ => ?_, fun _ _ => by decide +kernel⟩
    rw [List.mem_singleton.1 here, List.mem_singleton.1 here']
  have sound : oneRepo.Sound (renameAndCreate.foldl answer oneTree) := by
    refine ⟨by decide +kernel, ?_⟩
    rw [stray]
    exact fun _ => nofun
  exact ((flush_agrees_iff letters_lawful oneRepo_agrees oneTree_quiet renameAndCreate plain [] _ fresh).2 sound).1

/-- The file renamed onto itself loses its leaf, and what the refused write left has none. -/
theorem flush_disagrees :
    ¬ (oneRepo.flush letters (renameOntoItself.foldl answer oneTree) [] fun _ => []).1.Agrees letters
      (oneRepo.flush letters (renameOntoItself.foldl answer oneTree) [] fun _ => []).2 ∧
    ¬ (oneRepo.flush letters (writeTooMuch.foldl answer oneTree) [] fun _ => []).1.Agrees letters
      (oneRepo.flush letters (writeTooMuch.foldl answer oneTree) [] fun _ => []).2 := by
  constructor
  · intro after
    obtain ⟨url, named⟩ := (after.leaves "a").2 (by decide +kernel)
    have leaves : dirLeaves (oneRepo.flush letters (renameOntoItself.foldl answer oneTree) [] fun _ => []).1.dir = [] := by
      decide +kernel
    rw [leaves] at named
    cases named
  · intro after
    obtain ⟨url, named⟩ := (after.leaves "d").2 (by decide +kernel)
    have leaves : dirLeaves (oneRepo.flush letters (writeTooMuch.foldl answer oneTree) [] fun _ => []).1.dir =
        [("a", zeros)] := by decide +kernel
    rw [leaves] at named
    have same : "d" = "a" := congrArg Prod.fst (List.mem_singleton.1 named)
    exact absurd same (by decide)

end Repo

end Wk.Automergefs
