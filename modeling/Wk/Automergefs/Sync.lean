/-
# Wk.Automergefs.Sync -- the serve loop, and what becomes of local edits

One thread answers the mount, flushes what was changed, and looks now and then whether the
repository has changed elsewhere.  The loops of a flush and of a check are taken step by
step here, each push, fetch and load with its outcome; no operation is answered in between.

`Client.owed` holds what the mount has changed and no push has carried yet, with the state
the tree should have.  A local edit is kept while it is so in the tree and the path waits to
be flushed (`Client.Kept`).  `edits_kept_iff` says on which steps that rests.
-/
import Wk.Automergefs.Flush

namespace Wk.Automergefs

open Wk.Library Wk.Provider

set_option autoImplicit false

/-- What the thread is about. -/
inductive Phase where
  | serving
  /-- Flushing: the renames and the paths taken and still to be pushed. -/
  | flushing (moves : List (String × String)) (paths : List String)
  /-- Checking the directory: its entries, and the paths still to be looked at. -/
  | fetching (current : Table String (DocId × String)) (paths : List String)
  /-- Checking the files: the paths still to be looked at. -/
  | refreshing (paths : List String)

structure Client where
  tree : MemTree := {}
  repo : Repo := {}
  /-- How many blobs a document had when last looked at. -/
  counts : Table DocId Nat := ∅
  phase : Phase := .serving
  -- ghost
  /-- The paths changed and not pushed, with their local state. -/
  owed : String → Option (Option Bytes) := fun _ => none

inductive Event where
  /-- An operation is answered. -/
  | ask (orders : Orders) (op : FsOp)
  /-- A flush takes the log and the dirty paths. -/
  | flush (order : List String)
  | pushRename (first second : Pushed)
  | pushPath (drawn : List UInt8) (first second : Pushed)
  /-- A flush ends by counting blobs. -/
  | count (blobs : DocId → Nat)
  /-- A check starts with the directory: its count, and what loading it gives. -/
  | check (now : Nat) (loaded : Option Doc) (order : List String)
  /-- A path of a new directory is looked at. -/
  | fetch (fetched : Option Doc) (now : Nat)
  /-- The new directory is taken over. -/
  | adopt (order : List String)
  /-- A file is looked at. -/
  | refresh (now : Nat) (loaded : Option Doc)

/-- The bytes a path has in the documents: those of the document that the ids and the
directory document give it. -/
def Repo.shown (r : Repo) (path : String) : Option Bytes :=
  match r.ids.lookup path with
  | some (id, url) => if stringAt r.dir path = some url then (r.docs.lookup id).map fileContent else none
  | none => none

/-- The entries of a directory document whose urls name a document. -/
def entriesOf (b58 : Base58) (dir : Doc) : Table String (DocId × String) :=
  .ofRows ((dirLeaves dir).filterMap fun (path, url) => (parseDocId b58 url).map fun id => (path, (id, url)))

namespace Client

variable (b58 : Base58) (root : DocId)

/-- A client that has synced. -/
def start (tree : MemTree) (repo : Repo) (counts : Table DocId Nat) : Client := { tree, repo, counts }

/-- After a push: what it covers is no longer owed where the documents now show it. -/
def settle (c : Client) (outcome : Pushed) (covers : List String) : Client :=
  { c with
    owed := fun path =>
      match outcome with
      | .ok () => if path ∈ covers ∧ c.repo.shown path = c.tree.files.lookup path then none else c.owed path
      | .error _ => c.owed path }

def ask (c : Client) (orders : Orders) (op : FsOp) : Client :=
  let tree := ({ c.tree with touched := [] }.handle orders op).2
  { c with
    tree
    owed := fun path => if path ∈ tree.touched then some (tree.files.lookup path) else c.owed path }

/-- Once every path of a check is looked at, the loop goes on. -/
def refreshing : List String → Phase
  | [] => .serving
  | paths => .refreshing paths

/-- The start of a check: a changed directory is loaded, and files it does not have are
dropped, but for the dirty ones. -/
def check (c : Client) (now : Nat) (loaded : Option Doc) (order : List String) : Client :=
  if c.counts.lookup root = some now then { c with phase := refreshing (arrange order c.repo.ids.keys) }
  else
    let counts := c.counts.insert root now
    match loaded with
    | none => { c with counts, phase := refreshing (arrange order c.repo.ids.keys) }
    | some dir =>
      let current := entriesOf b58 dir
      { c with
        counts
        repo := { c.repo with dir }
        tree := { c.tree with files := c.tree.files.retain fun path _ => path ∈ current || path ∈ c.tree.dirty }
        phase := .fetching current (arrange order current.keys) }

/-- A path of the new directory without an entry so far is fetched. -/
def fetch (c : Client) (current : Table String (DocId × String)) (path : String) (fetched : Option Doc) (now : Nat) :
    Client :=
  match current.lookup path, fetched with
  | some (id, _), some doc =>
    if path ∈ c.repo.ids then c
    else
      { c with
        tree := { c.tree with files := c.tree.files.insert path (fileContent doc) }
        counts := c.counts.insert id now
        repo := { c.repo with docs := c.repo.docs.insert id doc } }
  | _, _ => c

/-- A file whose document has changed is loaded, unless it is dirty. -/
def refresh (c : Client) (path : String) (now : Nat) (loaded : Option Doc) : Client :=
  match c.repo.ids.lookup path with
  | none => c
  | some (id, _) =>
    if path ∈ c.tree.dirty ∨ c.counts.lookup id = some now then c
    else
      let c := { c with counts := c.counts.insert id now }
      match loaded with
      | none => c
      | some doc =>
        { c with
          tree := { c.tree with files := c.tree.files.insert path (fileContent doc) }
          repo := { c.repo with docs := c.repo.docs.insert id doc } }

def step (c : Client) (e : Event) : Client :=
  match c.phase, e with
  | .serving, .ask orders op => c.ask orders op
  | .serving, .flush order =>
    if c.tree.dirty = [] ∧ c.tree.renames = [] then c
    else
      { c with
        tree := { c.tree with dirty := [], renames := [] }
        phase := .flushing c.tree.renames (arrange order c.tree.dirty) }
  | .flushing (move :: moves) paths, .pushRename first second =>
    let (outcome, repo) := c.repo.flushRename move first second
    { c with repo, phase := .flushing moves paths }.settle outcome [move.1, move.2]
  | .flushing [] (path :: paths), .pushPath drawn first second =>
    let (outcome, repo) := c.repo.flushPath b58 c.tree.files drawn path first second
    { c with repo, phase := .flushing [] paths }.settle outcome [path]
  | .flushing [] [], .count blobs =>
    { c with
      counts := (c.repo.ids.values.map Prod.fst).foldl (fun counts id => counts.insert id (blobs id))
        (c.counts.insert root (blobs root))
      phase := .serving }
  | .serving, .check now loaded order => c.check b58 root now loaded order
  | .fetching current (path :: paths), .fetch fetched now =>
    { c.fetch current path fetched now with phase := .fetching current paths }
  | .fetching current [], .adopt order =>
    { c with repo := { c.repo with ids := current }, phase := refreshing (arrange order current.keys) }
  | .refreshing (path :: paths), .refresh now loaded =>
    { c.refresh path now loaded with phase := refreshing paths }
  | _, _ => c

/-! ## What is kept, and on which condition -/

/-- The paths that a flush has still to go through. -/
def waiting (c : Client) : List String :=
  let named := fun moves : List (String × String) => moves.flatMap fun move => [move.1, move.2]
  c.tree.dirty ++ named c.tree.renames ++
    match c.phase with
    | .flushing moves paths => named moves ++ paths
    | _ => []

/-- Every local change not pushed yet is in the tree, and waits to be flushed. -/
def Kept (c : Client) : Prop :=
  ∀ path edit, c.owed path = some edit → c.tree.files.lookup path = edit ∧ path ∈ c.waiting

end Client

/-- The pushes of a rename go through and the documents then show `file` at one of its two
paths: at the destination the bytes of the source's document, at the source nothing. -/
def Repo.RenameShows (r : Repo) (file : Option Bytes) (move : String × String) (first second : Pushed)
    (path : String) : Prop :=
  match r.ids.lookup move.1 with
  | none => r.shown path = file
  | some (id, _) =>
    first = .ok () ∧
    (basename move.1 ≠ basename move.2 → id ∈ (r.clear move.1 move.2).2 → second = .ok ()) ∧
    file = if path = move.2 ∧ move.1 ≠ move.2 then ((r.clear move.1 move.2).2.lookup id).map fileContent else none

/-- The pushes of a dirty path go through and the documents then show it: a document that is
to be changed must be at hand and named by the directory. -/
def Repo.PathShows (r : Repo) (file : Option Bytes) (path : String) (first second : Pushed) : Prop :=
  match file, r.ids.lookup path with
  | some _, some (id, url) => id ∈ r.docs ∧ first = .ok () ∧ stringAt r.dir path = some url
  | some _, none => first = .ok () ∧ second = .ok ()
  | none, some _ => first = .ok ()
  | none, none => True

namespace Client

variable (b58 : Base58) (root : DocId)

/-- The condition on a step.  An operation may not be a write refused for its size at a path
whose removal is still owed.  A push must go through and show what is owed, but for a path
that comes again.  A check may drop no owed file, and bring no other bytes to an owed path:
not for one that is new in the directory, nor for one that is not dirty. -/
def Meets (c : Client) (e : Event) : Prop :=
  match c.phase, e with
  | .serving, .ask _ op => ∀ path, c.tree.Refuses op path → path ∉ c.tree.files → c.owed path = none
  | .flushing (move :: moves) paths, .pushRename first second =>
    ∀ path ∈ [move.1, move.2], c.owed path ≠ none → path ∈ { c with phase := .flushing moves paths }.waiting ∨
      c.repo.RenameShows (c.tree.files.lookup path) move first second path
  | .flushing [] (path :: paths), .pushPath _ first second =>
    c.owed path ≠ none → path ∈ { c with phase := .flushing [] paths }.waiting ∨
      c.repo.PathShows (c.tree.files.lookup path) path first second
  | .serving, .check now loaded _ =>
    c.counts.lookup root ≠ some now → ∀ dir, loaded = some dir → ∀ path b, c.owed path = some (some b) →
      path ∈ entriesOf b58 dir ∨ path ∈ c.tree.dirty
  | .fetching current (path :: _), .fetch fetched _ =>
    path ∈ current → path ∉ c.repo.ids → ∀ doc, fetched = some doc → ∀ edit, c.owed path = some edit →
      edit = some (fileContent doc)
  | .refreshing (path :: _), .refresh now loaded =>
    ∀ e, c.repo.ids.lookup path = some e → path ∉ c.tree.dirty → c.counts.lookup e.1 ≠ some now →
      ∀ doc, loaded = some doc → ∀ edit, c.owed path = some edit → edit = some (fileContent doc)
  | _, _ => True

end Client

/-! ## What a push shows -/

namespace Repo

variable {r : Repo}

theorem shown_of_none {path : String} (unknown : r.ids.lookup path = none) : r.shown path = none := by
  unfold shown
  rw [unknown]

theorem shown_of_some {path : String} {e : DocId × String} (known : r.ids.lookup path = some e) :
    r.shown path = if stringAt r.dir path = some e.2 then (r.docs.lookup e.1).map fileContent else none := by
  unfold shown
  rw [known]

theorem flushRename_shows (move : String × String) (first second : Pushed) {path : String}
    (covered : path = move.1 ∨ path = move.2) (file : Option Bytes) :
    ((r.flushRename move first second).1 = .ok () ∧ (r.flushRename move first second).2.shown path = file) ↔
      r.RenameShows file move first second path := by
  obtain ⟨src, dest⟩ := move
  dsimp only at covered
  unfold flushRename RenameShows
  dsimp only
  cases known : r.ids.lookup src with
  | none => simp
  | some e =>
    obtain ⟨id, url⟩ := e
    cases first with
    | error e => simp
    | ok _ =>
      -- what is shown once the entry is moved, for any documents
      have moved : ∀ docs : Table DocId Doc,
          ({ dir := renameDirEntry r.dir src dest url, ids := (r.clear src dest).1.insert dest (id, url), docs } :
            Repo).shown path = if path = dest ∧ src ≠ dest then (docs.lookup id).map fileContent else none := by
        intro docs
        by_cases target : path = dest
        · subst target
          rw [shown_of_some (AList.lookup_insert _)]
          simp only [renameDirEntry, stringAt_erase, stringAt_insert]
          by_cases itself : src = path
          · simp [itself]
          · simp [itself, Ne.symm itself]
        · have source : path = src := covered.resolve_right target
          rw [if_neg fun both => target both.1]
          refine shown_of_none ?_
          rw [AList.lookup_insert_ne target, clear_ids target, if_pos source]
      dsimp only
      split
      · next unnamed =>
          rw [moved]
          have spared : basename src ≠ basename dest → id ∈ (r.clear src dest).2 → second = .ok () := by
            intro differ cached
            rw [if_neg differ] at unnamed
            obtain ⟨doc, found⟩ := Table.mem_iff_lookup.1 cached
            cases unnamed.symm.trans found
          simp only [true_and, eq_comm (a := file)]
          exact ⟨fun same => ⟨spared, same⟩, fun both => both.2⟩
      · next doc named =>
          have differ : basename src ≠ basename dest := fun same => by
            rw [if_pos same] at named
            cases named
          rw [if_neg differ] at named
          cases second with
          | error e => simp [differ, Table.mem_of_lookup named]
          | ok _ =>
            dsimp only
            rw [moved, AList.lookup_insert, named]
            simp [eq_comm]

theorem flushPath_shows (b58 : Base58) (files : Table String Bytes) (drawn : List UInt8) (path : String)
    (first second : Pushed) :
    ((r.flushPath b58 files drawn path first second).1 = .ok () ∧
      (r.flushPath b58 files drawn path first second).2.shown path = files.lookup path) ↔
      r.PathShows (files.lookup path) path first second := by
  unfold flushPath PathShows
  cases content : files.lookup path with
  | none =>
    cases known : r.ids.lookup path with
    | none => simp [shown_of_none known]
    | some e =>
      cases first with
      | error e => simp
      | ok _ =>
        refine iff_of_true ⟨rfl, shown_of_none ?_⟩ rfl
        exact AList.lookup_erase path _
  | some c =>
    cases known : r.ids.lookup path with
    | none =>
      cases first with
      | error e => simp
      | ok _ =>
        dsimp only
        rw [shown_of_some (AList.lookup_insert _)]
        simp [setDirEntry, stringAt_insert, makeFileDoc]
    | some e =>
      obtain ⟨id, url⟩ := e
      dsimp only
      cases cached : r.docs.lookup id with
      | none =>
        have absent : id ∉ r.docs := fun here => by
          obtain ⟨doc, found⟩ := Table.mem_iff_lookup.1 here
          cases cached.symm.trans found
        simp [absent]
      | some doc =>
        have shown : ({ r with docs := r.docs.insert id (setContent doc c) } : Repo).shown path =
            if stringAt r.dir path = some url then some c else none := by
          rw [shown_of_some (r := { r with docs := r.docs.insert id (setContent doc c) }) known,
            AList.lookup_insert, Option.map_some, fileContent_setContent]
        dsimp only
        rw [shown]
        simp [Table.mem_of_lookup cached]

end Repo

/-! ## One step -/

namespace Client

variable {b58 : Base58} {root : DocId} {c : Client}

/-- After a push, what it covers is settled, or has to wait. -/
theorem settle_kept (c' : Client) (kept : c.Kept) (tree : c'.tree = c.tree) (owed : c'.owed = c.owed)
    (outcome : Pushed) (covers : List String) (rest : ∀ path ∈ c.waiting, path ∉ covers → path ∈ c'.waiting) :
    (c'.settle outcome covers).Kept ↔ ∀ path ∈ covers, c.owed path ≠ none →
      path ∈ c'.waiting ∨ (outcome = .ok () ∧ c'.repo.shown path = c.tree.files.lookup path) := by
  have waits : (c'.settle outcome covers).waiting = c'.waiting := rfl
  have files : (c'.settle outcome covers).tree.files = c.tree.files := congrArg MemTree.files tree
  have settled : ∀ path edit, (c'.settle outcome covers).owed path = some edit ↔ c.owed path = some edit ∧
      ¬ (path ∈ covers ∧ outcome = .ok () ∧ c'.repo.shown path = c.tree.files.lookup path) := by
    intro path edit
    unfold settle
    rw [tree, owed]
    cases outcome with
    | error e => simp
    | ok _ => by_cases done : path ∈ covers ∧ c'.repo.shown path = c.tree.files.lookup path <;> simp [done]
  constructor
  · intro after path covered changed
    by_contra neither
    rw [not_or] at neither
    obtain ⟨edit, found⟩ := Option.ne_none_iff_exists'.1 changed
    have open' := (settled path edit).2 ⟨found, fun both => neither.2 both.2⟩
    exact neither.1 (waits ▸ (after path edit open').2)
  · intro shows path edit left
    obtain ⟨found, unsettled⟩ := (settled path edit).1 left
    obtain ⟨same, waiting⟩ := kept path edit found
    refine ⟨files ▸ same, waits ▸ ?_⟩
    by_cases covered : path ∈ covers
    · have changed : c.owed path ≠ none := fun none => by cases none.symm.trans found
      exact (shows path covered changed).resolve_right fun shown => unsettled ⟨covered, shown⟩
    · exact rest path waiting covered

theorem mem_waiting_serving (serving : c.phase = .serving) {path : String} : path ∈ c.waiting ↔ c.tree.Pending path := by
  unfold waiting MemTree.Pending
  rw [serving]
  simp

theorem ask_kept (kept : c.Kept) (serving : c.phase = .serving) (orders : Orders) (op : FsOp) :
    (c.ask orders op).Kept ↔ ∀ path, c.tree.Refuses op path → path ∉ c.tree.files → c.owed path = none := by
  have waits : ∀ path, path ∈ (c.ask orders op).waiting ↔ (c.ask orders op).tree.Pending path := fun path =>
    mem_waiting_serving (c := c.ask orders op) serving
  by_cases strays : ∃ path, c.tree.Refuses op path ∧ path ∉ c.tree.files
  · -- a refused write makes an entry and touches nothing
    obtain ⟨path, refuses, absent⟩ := strays
    have tree : (c.ask orders op).tree = ({ c.tree with touched := [] } : MemTree).entry path :=
      MemTree.handle_of_refuses (t := { c.tree with touched := [] }) refuses orders
    have entry : ({ c.tree with touched := [] } : MemTree).entry path =
        { c.tree with
          touched := []
          files := c.tree.files.insert path []
          stray := if path ∈ c.tree.dirty then c.tree.stray else c.tree.stray ++ [path] } := if_neg absent
    have files : (c.ask orders op).tree.files = c.tree.files.insert path [] := by rw [tree, entry]
    have owed : (c.ask orders op).owed = c.owed := by
      funext p
      have untouched : p ∉ (c.ask orders op).tree.touched := by
        rw [tree, entry]
        exact nofun
      exact if_neg untouched
    have only : ∀ p, c.tree.Refuses op p → p = path := by
      rintro p ⟨handle, _, _, rfl, held, -⟩
      obtain ⟨_, _, _, same, held', -⟩ := refuses
      cases same
      exact Option.some.inj (held.symm.trans held')
    have unowed : (∀ p, c.tree.Refuses op p → p ∉ c.tree.files → c.owed p = none) ↔ c.owed path = none :=
      ⟨fun all => all path refuses absent, fun none p refused _ => only p refused ▸ none⟩
    rw [unowed]
    constructor
    · intro after
      by_contra changed
      obtain ⟨edit, found⟩ := Option.ne_none_iff_exists'.1 changed
      have now := (after path edit (owed ▸ found)).1
      rw [files, AList.lookup_insert] at now
      have before := (kept path edit found).1
      rw [← now] at before
      exact absent (Table.mem_of_lookup before)
    · intro none p edit found
      rw [owed] at found
      have other : p ≠ path := by
        rintro rfl
        cases none.symm.trans found
      obtain ⟨same, waiting⟩ := kept p edit found
      refine ⟨?_, (waits p).2 ?_⟩
      · rw [files, AList.lookup_insert_ne other]
        exact same
      · rw [tree, entry]
        exact (mem_waiting_serving serving).1 waiting
  · have since := MemTree.handle_since (t := { c.tree with touched := [] }) rfl orders op fun path refuses => by
      by_contra absent
      exact strays ⟨path, refuses, absent⟩
    refine iff_of_true (fun path edit found => ?_) fun path refuses absent => absurd ⟨path, refuses, absent⟩ strays
    rw [waits]
    change (if path ∈ (c.ask orders op).tree.touched then some ((c.ask orders op).tree.files.lookup path)
      else c.owed path) = some edit at found
    split at found
    · next touched => exact ⟨Option.some.inj found, since.touched path touched⟩
    · next untouched =>
        obtain ⟨same, waiting⟩ := kept path edit found
        exact ⟨(since.files path untouched).trans same, since.pending path ((mem_waiting_serving serving).1 waiting)⟩

theorem waiting_refreshing (c : Client) (paths : List String) :
    { c with phase := refreshing paths }.waiting = { c with phase := .serving }.waiting := by
  cases paths <;> rfl

/-- Owed paths keep their bytes and their place in the queue: nothing else matters. -/
theorem kept_congr (c' : Client) (kept : c.Kept) (owed : c'.owed = c.owed)
    (waiting : ∀ path ∈ c.waiting, path ∈ c'.waiting) :
    c'.Kept ↔ ∀ path edit, c.owed path = some edit → c'.tree.files.lookup path = edit := by
  constructor
  · intro after path edit found
    exact (after path edit (owed ▸ found)).1
  · intro same path edit found
    rw [owed] at found
    exact ⟨same path edit found, waiting path (kept path edit found).2⟩

theorem mem_waiting_flushing {moves : List (String × String)} {paths : List String}
    (flushing : c.phase = .flushing moves paths) {path : String} :
    path ∈ c.waiting ↔ c.tree.Pending path ∨ (∃ move ∈ moves, path = move.1 ∨ path = move.2) ∨ path ∈ paths := by
  unfold waiting MemTree.Pending
  rw [flushing]
  simp [or_assoc]

theorem flush_kept (kept : c.Kept) (serving : c.phase = .serving) (order : List String) :
    ({ c with
        tree := { c.tree with dirty := [], renames := [] }
        phase := .flushing c.tree.renames (arrange order c.tree.dirty) } : Client).Kept := by
  refine (kept_congr _ kept ?_ fun path waits => ?_).2 fun path edit found => (kept path edit found).1
  · rfl
  · rw [mem_waiting_flushing rfl, mem_arrange]
    rw [mem_waiting_serving serving] at waits
    exact .inr waits.symm

theorem pushRename_kept (kept : c.Kept) {move : String × String} {moves : List (String × String)} {paths : List String}
    (flushing : c.phase = .flushing (move :: moves) paths) (first second : Pushed) :
    (({ c with repo := (c.repo.flushRename move first second).2, phase := .flushing moves paths } : Client).settle
      (c.repo.flushRename move first second).1 [move.1, move.2]).Kept ↔
    ∀ path ∈ [move.1, move.2], c.owed path ≠ none → path ∈ ({ c with phase := .flushing moves paths } : Client).waiting ∨
      c.repo.RenameShows (c.tree.files.lookup path) move first second path := by
  refine (settle_kept _ kept ?_ ?_ _ _ fun path waits other => ?_).trans ?_
  · rfl
  · rfl
  · rw [mem_waiting_flushing rfl]
    rw [mem_waiting_flushing flushing] at waits
    refine waits.imp_right (Or.imp_left fun ⟨m, member, named⟩ => ?_)
    rcases List.mem_cons.1 member with rfl | later
    · exact absurd (by simpa using named) other
    · exact ⟨m, later, named⟩
  · refine forall₂_congr fun path covered => imp_congr_right fun _ => or_congr_right ?_
    exact c.repo.flushRename_shows move first second (by simpa using covered) _

theorem pushPath_kept (kept : c.Kept) {path : String} {paths : List String}
    (flushing : c.phase = .flushing [] (path :: paths)) (drawn : List UInt8) (first second : Pushed) :
    (({ c with
        repo := (c.repo.flushPath b58 c.tree.files drawn path first second).2
        phase := .flushing [] paths } : Client).settle
      (c.repo.flushPath b58 c.tree.files drawn path first second).1 [path]).Kept ↔
    (c.owed path ≠ none → path ∈ ({ c with phase := .flushing [] paths } : Client).waiting ∨
      c.repo.PathShows (c.tree.files.lookup path) path first second) := by
  refine (settle_kept _ kept ?_ ?_ _ _ fun p waits other => ?_).trans ?_
  · rfl
  · rfl
  · rw [mem_waiting_flushing rfl]
    rw [mem_waiting_flushing flushing] at waits
    refine waits.imp_right (Or.imp_right fun member => ?_)
    exact (List.mem_cons.1 member).resolve_left fun same => other (List.mem_singleton.2 same)
  · rw [List.forall_mem_singleton]
    refine imp_congr_right fun _ => or_congr_right ?_
    exact c.repo.flushPath_shows b58 c.tree.files drawn path first second

theorem check_kept (kept : c.Kept) (serving : c.phase = .serving) (now : Nat) (loaded : Option Doc) (order : List String) :
    (c.check b58 root now loaded order).Kept ↔
      (c.counts.lookup root ≠ some now → ∀ dir, loaded = some dir → ∀ path b, c.owed path = some (some b) →
        path ∈ entriesOf b58 dir ∨ path ∈ c.tree.dirty) := by
  have still : ∀ (counts : Table DocId Nat) (paths : List String),
      ({ c with counts, phase := refreshing paths } : Client).Kept := fun counts paths => by
    refine (kept_congr _ kept ?_ fun path waits => ?_).2 fun path edit found => (kept path edit found).1
    · rfl
    · rw [waiting_refreshing { c with counts } paths]
      exact (mem_waiting_serving (c := { c with counts, phase := .serving }) rfl).2 ((mem_waiting_serving serving).1 waits)
  unfold check
  by_cases same : c.counts.lookup root = some now
  · rw [if_pos same]
    exact iff_of_true (still c.counts _) fun changed => absurd same changed
  · rw [if_neg same]
    cases loaded with
    | none => exact iff_of_true (still _ _) fun _ _ => nofun
    | some dir =>
      dsimp only
      refine (kept_congr _ kept ?_ fun path waits => ?_).trans ?_
      · rfl
      · rw [mem_waiting_serving serving] at waits
        unfold waiting
        simpa [MemTree.Pending] using waits
      · simp only [ne_eq, same, not_false_iff, forall_const, Option.some.injEq, forall_eq', Table.lookup_retain]
        constructor
        · intro after path b found
          have there := after path (some b) found
          rw [(kept path _ found).1] at there
          simpa using (Option.filter_eq_some_iff.1 there).2
        · intro spared path edit found
          rw [(kept path edit found).1]
          cases edit with
          | none => rfl
          | some b => exact Option.filter_eq_some_iff.2 ⟨rfl, by simpa using spared path b found⟩

/-- The bytes at one path are replaced by those of a document. -/
theorem brings_kept (kept : c.Kept) (c' : Client) (path : String) (doc : Doc) (owed : c'.owed = c.owed)
    (waiting : ∀ p ∈ c.waiting, p ∈ c'.waiting) (files : c'.tree.files = c.tree.files.insert path (fileContent doc)) :
    c'.Kept ↔ ∀ edit, c.owed path = some edit → edit = some (fileContent doc) := by
  rw [kept_congr _ kept owed waiting, files]
  constructor
  · intro after edit found
    exact (after path edit found).symm.trans (AList.lookup_insert _)
  · intro same p edit found
    rw [Table.lookup_insert_eq]
    split
    · next here => exact (same edit (here ▸ found)).symm
    · exact (kept p edit found).1

theorem waiting_of_idle {c' : Client} (tree : c'.tree.dirty = c.tree.dirty ∧ c'.tree.renames = c.tree.renames)
    (idle : ∀ moves paths, c.phase ≠ .flushing moves paths) : ∀ p ∈ c.waiting, p ∈ c'.waiting := by
  intro p waits
  unfold waiting at waits ⊢
  rw [tree.1, tree.2]
  refine List.mem_append_left _ ?_
  rcases List.mem_append.1 waits with queued | hand
  · exact queued
  · split at hand
    · next moves paths flushing => exact absurd flushing (idle moves paths)
    · cases hand

theorem fetch_kept (kept : c.Kept) {current : Table String (DocId × String)} {path : String} {paths : List String}
    (fetching : c.phase = .fetching current (path :: paths)) (fetched : Option Doc) (now : Nat) :
    ({ c.fetch current path fetched now with phase := .fetching current paths } : Client).Kept ↔
      (path ∈ current → path ∉ c.repo.ids → ∀ doc, fetched = some doc → ∀ edit, c.owed path = some edit →
        edit = some (fileContent doc)) := by
  have idle : ∀ moves paths, c.phase ≠ .flushing moves paths := fun _ _ flushing => by
    cases fetching.symm.trans flushing
  have still : ({ c with phase := .fetching current paths } : Client).Kept := by
    refine (kept_congr _ kept ?_ (waiting_of_idle ⟨?_, ?_⟩ idle)).2 fun path edit found => (kept path edit found).1
    · rfl
    · rfl
    · rfl
  unfold fetch
  cases named : current.lookup path with
  | none =>
    refine iff_of_true still fun here => ?_
    obtain ⟨e, found⟩ := Table.mem_iff_lookup.1 here
    cases named.symm.trans found
  | some e =>
    cases fetched with
    | none => exact iff_of_true still fun _ _ => nofun
    | some doc =>
      dsimp only
      by_cases known : path ∈ c.repo.ids
      · rw [if_pos known]
        exact iff_of_true still fun _ unknown => absurd known unknown
      · rw [if_neg known]
        refine (brings_kept kept _ path doc ?_ (waiting_of_idle ⟨?_, ?_⟩ idle) ?_).trans ?_
        · rfl
        · rfl
        · rfl
        · rfl
        · simp [Table.mem_of_lookup named, known]

theorem refresh_kept (kept : c.Kept) {path : String} {paths : List String}
    (looking : c.phase = .refreshing (path :: paths)) (now : Nat) (loaded : Option Doc) :
    ({ c.refresh path now loaded with phase := refreshing paths } : Client).Kept ↔
      ∀ e, c.repo.ids.lookup path = some e → path ∉ c.tree.dirty → c.counts.lookup e.1 ≠ some now →
        ∀ doc, loaded = some doc → ∀ edit, c.owed path = some edit → edit = some (fileContent doc) := by
  have idle : ∀ moves paths, c.phase ≠ .flushing moves paths := fun _ _ flushing => by
    cases looking.symm.trans flushing
  have still : ∀ counts : Table DocId Nat, ({ c with counts, phase := refreshing paths } : Client).Kept := by
    intro counts
    refine (kept_congr _ kept ?_ (waiting_of_idle ⟨?_, ?_⟩ idle)).2 fun path edit found => (kept path edit found).1
    · rfl
    · rfl
    · rfl
  unfold refresh
  cases known : c.repo.ids.lookup path with
  | none => exact iff_of_true (still c.counts) fun _ => nofun
  | some e =>
    obtain ⟨id, url⟩ := e
    dsimp only
    by_cases skips : path ∈ c.tree.dirty ∨ c.counts.lookup id = some now
    · rw [if_pos skips]
      refine iff_of_true (still c.counts) fun e same clean changed => ?_
      cases same
      exact absurd skips (not_or.2 ⟨clean, changed⟩)
    · rw [if_neg skips]
      rw [not_or] at skips
      cases loaded with
      | none => exact iff_of_true (still _) fun _ _ _ _ _ => nofun
      | some doc =>
        refine (brings_kept kept _ path doc ?_ (waiting_of_idle ⟨?_, ?_⟩ idle) ?_).trans ?_
        · rfl
        · rfl
        · rfl
        · rfl
        · simp [skips.1, skips.2]

theorem step_kept (kept : c.Kept) (e : Event) : (c.step b58 root e).Kept ↔ c.Meets b58 root e := by
  unfold step Meets
  split
  · next serving =>
      rw [serving]
      exact ask_kept kept serving _ _
  · next order serving =>
      rw [serving]
      refine iff_of_true ?_ trivial
      split
      · exact kept
      · exact flush_kept kept serving order
  · next flushing =>
      rw [flushing]
      exact pushRename_kept kept flushing _ _
  · next flushing =>
      rw [flushing]
      exact pushPath_kept kept flushing _ _ _
  · next blobs flushing =>
      rw [flushing]
      refine iff_of_true ?_ trivial
      refine (kept_congr _ kept ?_ fun path waits => ?_).2 fun path edit found => (kept path edit found).1
      · rfl
      · rw [mem_waiting_serving rfl]
        simpa [mem_waiting_flushing flushing] using waits
  · next serving =>
      rw [serving]
      exact check_kept kept serving _ _ _
  · next fetching =>
      rw [fetching]
      exact fetch_kept kept fetching _ _
  · next fetching =>
      rw [fetching]
      refine iff_of_true ?_ trivial
      have idle : ∀ moves paths, c.phase ≠ .flushing moves paths := fun _ _ flushing => by
        cases fetching.symm.trans flushing
      refine (kept_congr _ kept ?_ (waiting_of_idle ⟨?_, ?_⟩ idle)).2 fun path edit found => (kept path edit found).1
      · rfl
      · rfl
      · rfl
  · next looking =>
      rw [looking]
      exact refresh_kept kept looking _ _
  · next neither =>
      refine iff_of_true kept ?_
      split
      all_goals first | trivial | (exfalso; solve_by_elim)

/-! ## Whole runs -/

theorem start_kept (tree : MemTree) (repo : Repo) (counts : Table DocId Nat) : (start tree repo counts).Kept :=
  fun _ _ => nofun

/-- **Local edits are kept exactly as long as every step meets its condition.**  Whatever
is asked, pushed, fetched and loaded, and in whatever order: in every state of a run each
local change that was not pushed is in the tree and waits for a flush, if and only if no
step of the run breaks `Meets`. -/
theorem edits_kept_iff (b58 : Base58) (root : DocId) (tree : MemTree) (repo : Repo) (counts : Table DocId Nat)
    (events : List Event) :
    Along (step b58 root) (fun c e => (c.step b58 root e).Kept) (start tree repo counts) events ↔
      Along (step b58 root) (Meets b58 root) (start tree repo counts) events :=
  along_keeps_iff (I := Kept) (fun _ e kept => step_kept kept e) (start_kept tree repo counts)

/-- What the flush of the log does, step by step. -/
theorem pushRenames (b58 : Base58) (root : DocId) (paths : List String) : ∀ (moves : List (String × String)) (c : Client),
    c.phase = .flushing moves paths →
      let c' := (moves.map fun _ => Event.pushRename (.ok ()) (.ok ())).foldl (step b58 root) c
      c'.phase = .flushing [] paths ∧ c'.tree = c.tree ∧
        c'.repo = moves.foldl (fun r move => (r.flushRename move (.ok ()) (.ok ())).2) c.repo
  | [], _, flushing => ⟨flushing, rfl, rfl⟩
  | move :: moves, c, flushing => by
    have first : c.step b58 root (.pushRename (.ok ()) (.ok ())) =
        ({ c with repo := (c.repo.flushRename move (.ok ()) (.ok ())).2, phase := .flushing moves paths } : Client).settle
          (c.repo.flushRename move (.ok ()) (.ok ())).1 [move.1, move.2] := by
      unfold step
      rw [flushing]
    rw [List.map_cons, List.foldl_cons, first]
    exact pushRenames b58 root paths moves _ rfl

theorem pushPaths (b58 : Base58) (root : DocId) (drawn : String → List UInt8) : ∀ (paths : List String) (c : Client), c.phase = .flushing [] paths →
    let c' := (paths.map fun path => Event.pushPath (drawn path) (.ok ()) (.ok ())).foldl (step b58 root) c
    c'.phase = .flushing [] [] ∧ c'.tree = c.tree ∧
      c'.repo = paths.foldl (fun r path => (r.flushPath b58 c.tree.files (drawn path) path (.ok ()) (.ok ())).2) c.repo
  | [], _, flushing => ⟨flushing, rfl, rfl⟩
  | path :: paths, c, flushing => by
    have first : c.step b58 root (.pushPath (drawn path) (.ok ()) (.ok ())) =
        ({ c with
            repo := (c.repo.flushPath b58 c.tree.files (drawn path) path (.ok ()) (.ok ())).2
            phase := .flushing [] paths } : Client).settle
          (c.repo.flushPath b58 c.tree.files (drawn path) path (.ok ()) (.ok ())).1 [path] := by
      unfold step
      rw [flushing]
    rw [List.map_cons, List.foldl_cons, first]
    exact pushPaths b58 root drawn paths _ rfl

/-- A flush of a tree, step by step, with pushes that go through. -/
def flushEvents (t : MemTree) (order : List String) (drawn : String → List UInt8) (blobs : DocId → Nat) : List Event :=
  .flush order :: ((t.renames.map fun _ => .pushRename (.ok ()) (.ok ())) ++
    (((arrange order t.dirty).map fun path => .pushPath (drawn path) (.ok ()) (.ok ())) ++ [.count blobs]))

/-- Taken step by step, it is `Repo.flush`. -/
theorem flush_steps (serving : c.phase = .serving) (waits : ¬ (c.tree.dirty = [] ∧ c.tree.renames = []))
    (order : List String) (drawn : String → List UInt8) (blobs : DocId → Nat) :
    ((flushEvents c.tree order drawn blobs).foldl (step b58 root) c).phase = .serving ∧
      (((flushEvents c.tree order drawn blobs).foldl (step b58 root) c).repo,
        ((flushEvents c.tree order drawn blobs).foldl (step b58 root) c).tree) = c.repo.flush b58 c.tree order drawn := by
  have begins : c.step b58 root (.flush order) =
      { c with
        tree := { c.tree with dirty := [], renames := [] }
        phase := .flushing c.tree.renames (arrange order c.tree.dirty) } := by
    unfold step
    rw [serving]
    exact if_neg waits
  rw [flushEvents, List.foldl_cons, begins, List.foldl_append, List.foldl_append]
  obtain ⟨moved, tree, repo⟩ := pushRenames b58 root (arrange order c.tree.dirty) c.tree.renames
    { c with
      tree := { c.tree with dirty := [], renames := [] }
      phase := .flushing c.tree.renames (arrange order c.tree.dirty) } rfl
  generalize (c.tree.renames.map fun _ => Event.pushRename (.ok ()) (.ok ())).foldl (step b58 root) _ = c₁ at moved tree repo ⊢
  obtain ⟨done, tree', repo'⟩ := pushPaths b58 root drawn (arrange order c.tree.dirty) c₁ moved
  generalize ((arrange order c.tree.dirty).map fun path => Event.pushPath (drawn path) (.ok ()) (.ok ())).foldl
    (step b58 root) c₁ = c₂ at done tree' repo' ⊢
  have ends : ([.count blobs] : List Event).foldl (step b58 root) c₂ =
      { c₂ with
        counts := (c₂.repo.ids.values.map Prod.fst).foldl (fun counts id => counts.insert id (blobs id))
          (c₂.counts.insert root (blobs root))
        phase := .serving } := by
    rw [List.foldl_cons, List.foldl_nil]
    unfold step
    rw [done]
  rw [ends]
  refine ⟨rfl, Prod.ext ?_ (tree'.trans tree)⟩
  change c₂.repo = _
  rw [repo', repo, tree]
  rfl

/-- A rename and a new file are flushed. -/
theorem flush_steps_one : ((flushEvents (Repo.renameAndCreate.foldl answer Repo.oneTree) [] (fun _ => []) fun _ => 0).foldl
    (step Repo.letters []) (start (Repo.renameAndCreate.foldl answer Repo.oneTree) Repo.oneRepo ∅)).phase = .serving :=
  (flush_steps (c := start (Repo.renameAndCreate.foldl answer Repo.oneTree) Repo.oneRepo ∅) rfl (by decide +kernel) [] _ _).1

/-- A client that serves one file: the directory document and the file's have one blob each. -/
def oneClient : Client :=
  start Repo.oneTree Repo.oneRepo (.ofRows [(List.replicate 32 1, 1), (List.replicate 32 0, 1)])

/-- The directory with a second file, which another client made. -/
def twoFiles : Doc :=
  .ofRows [("a", .str Repo.zeros), ("c", .str ("automerge:" ++ String.ofList (List.replicate 64 '2')))]

/-- Two schedules that lose an edit: a check between a rename and its flush finds a new file
in the directory, and drops the renamed one; and a push of a new file fails. -/
theorem edits_lost :
    ¬ (([.ask {} (.rename "a" "b"), .check 2 (some twoFiles) []] : List Event).foldl
      (step Repo.letters (List.replicate 32 1)) oneClient).Kept ∧
    ¬ (([.ask {} (.open "d" true false false), .flush [],
        .pushPath (List.replicate 16 7) (.error "push timed out") (.ok ())] : List Event).foldl
      (step Repo.letters (List.replicate 32 1)) oneClient).Kept := by
  constructor
  · intro kept
    exact absurd (kept "b" (some [0x68, 0x69]) (by decide +kernel)).1 (by decide +kernel)
  · intro kept
    exact absurd (kept "d" (some []) (by decide +kernel)).2 (by decide +kernel)

end Client

end Wk.Automergefs
