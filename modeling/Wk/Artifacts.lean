/-
# Wk.Artifacts -- the artifact cache: blobs by content, references by name

A call's file writes are a list; a process that stops, or a write that fails, does a beginning
of it.

* `Cache.answer`: the bytes `cached_artifact` answers with.
* `Keyed`: what a reference's answer is, is what was last stored or legacy-cached for it, and a
  call on one reference leaves the answers of the others.
* `keyed`: in every run over references of which none shares a legacy file's name with another,
  in which an index write is cut only where the legacy files answer like the index.

Poles: `torn_forgets` (a cut index write loses the other references), `revives` (and brings a
legacy file back that had been stored over), `shares` (two references with one legacy name).
-/
import Wk.Protocol
import Wk.Library.Run
import Wk.Library.Table

namespace Wk.Artifacts

open Wk.Library

set_option autoImplicit false

/-- Make a reference safe to use as a filename. -/
def sanitize (reference : String) : String :=
  String.ofList (reference.toList.map fun c => if c.isAlphanum || c == '.' || c == '-' then c else '_')

/-- `refs.json`; a file whose rewriting was cut is no JSON text. -/
inductive RefsFile
  | absent
  | torn
  | written (refs : Table String String)

/-- The cache directory: blobs by digest, the index, and legacy files by sanitized name. -/
structure Cache where
  blobs : Table String Bytes
  refs : RefsFile
  legacy : Table String Bytes

/-- A change of the directory that happens at once or not at all. -/
inductive Write
  | blob (digest : String) (bytes : Bytes)
  | tear
  | refs (refs : Table String String)
  | unlink (name : String)

namespace Cache

def write (c : Cache) : Write → Cache
  | .blob digest bytes => { c with blobs := c.blobs.insert digest bytes }
  | .tear => { c with refs := .torn }
  | .refs refs => { c with refs := .written refs }
  | .unlink name => { c with legacy := c.legacy.erase name }

def writes (c : Cache) (ws : List Write) : Cache := ws.foldl write c

def loadRefs (c : Cache) : Table String String :=
  match c.refs with
  | .written refs => refs
  | .absent | .torn => ∅

end Cache

/-- The file is truncated before it is filled. -/
def saveRefs (refs : Table String String) : List Write := [.tear, .refs refs]

section Calls

variable (digest : Bytes → String)

namespace Cache

/-- The blob is written to a temporary file, which nothing reads, and renamed. -/
def putBlob (c : Cache) (bytes : Bytes) : List Write :=
  if digest bytes ∈ c.blobs then [] else [.blob (digest bytes) bytes]

/-- The writes of storing; those of the blob leave the index as it is read here. -/
def storeArtifact (c : Cache) (reference : String) (wasm : Bytes) : List Write :=
  c.putBlob digest wasm ++
    if c.loadRefs.lookup reference ≠ some (digest wasm) then saveRefs (c.loadRefs.insert reference (digest wasm))
    else []

/-- The digest answered with, and the writes on the way to it. -/
def cachedArtifact (c : Cache) (reference : String) : Option String × List Write :=
  match (c.loadRefs.lookup reference).filter (· ∈ c.blobs) with
  | some digest => (some digest, [])
  | none =>
    match c.legacy.lookup (sanitize reference) with
    | none => (none, [])
    | some bytes => (some (digest bytes), c.storeArtifact digest reference bytes ++ [.unlink (sanitize reference)])

/-- The bytes of the blob that `cachedArtifact` answers with. -/
def answer (c : Cache) (reference : String) : Option Bytes :=
  (c.cachedArtifact digest reference).1.bind (c.writes (c.cachedArtifact digest reference).2).blobs.lookup

end Cache

inductive Call
  | store (reference : String) (wasm : Bytes)
  | cached (reference : String)

def Call.reference : Call → String
  | .store reference _ | .cached reference => reference

/-- A call, and after how many writes the process stops or a write fails, if it does. -/
structure Event where
  call : Call
  stop : Option Nat

/-- The directory, and what a reference may be answered with: what was last stored or
legacy-cached for it, and what a store that did not end was storing. -/
structure Log extends Cache where
  may : String → List Bytes

namespace Cache

def ofCall (c : Cache) : Call → List Write
  | .store reference wasm => c.storeArtifact digest reference wasm
  | .cached reference => (c.cachedArtifact digest reference).2

/-- The writes that are done. -/
def done (c : Cache) (e : Event) : List Write :=
  e.stop.elim (c.ofCall digest e.call) fun n => (c.ofCall digest e.call).take n

end Cache

namespace Log

/-- A directory with pre-index files only. -/
def start (pulled : List (String × Bytes)) : Log where
  blobs := ∅
  refs := .absent
  legacy := Table.ofRows (pulled.map fun p => (sanitize p.1, p.2))
  may reference := ((Table.ofRows pulled).lookup reference).toList

def step (s : Log) (e : Event) : Log where
  toCache := s.writes (s.done digest e)
  may := match e.call with
    | .store reference wasm =>
      Function.update s.may reference (if e.stop = none then [wasm] else wasm :: s.may reference)
    | .cached _ => s.may

end Log

/-- A reference of `S` is answered with what it may be, and a call leaves the answers of the
others. -/
def Keyed (S : Set String) (s : Log) (e : Event) : Prop :=
  (∀ reference ∈ S, ∀ bytes ∈ s.answer digest reference, bytes ∈ s.may reference) ∧
    ∀ reference ∈ S, reference ≠ e.call.reference → (s.step digest e).answer digest reference = s.answer digest reference

end Calls

/-! ## What a directory answers -/

section Kept

variable {digest : Bytes → String} {S : Set String} {B : Set Bytes}

namespace Cache

variable {c : Cache} {reference : String} {wasm : Bytes} {ws : List Write}

/-- The blob that the index names for a reference. -/
def indexed (c : Cache) (reference : String) : Option Bytes :=
  (c.loadRefs.lookup reference).bind c.blobs.lookup

/-- The pre-index file of a reference. -/
def legacyBytes (c : Cache) (reference : String) : Option Bytes :=
  c.legacy.lookup (sanitize reference)

/-- Every blob stands under its digest. -/
def Addressed (digest : Bytes → String) (B : Set Bytes) (c : Cache) : Prop :=
  ∀ d bytes, c.blobs.lookup d = some bytes → bytes ∈ B ∧ digest bytes = d

/-- The directory with a blob more, if it is new. -/
def put (digest : Bytes → String) (c : Cache) (bytes : Bytes) : Cache := c.writes (c.putBlob digest bytes)

@[simp] theorem put_refs : (c.put digest wasm).refs = c.refs := by
  rw [put, putBlob]
  split <;> rfl

@[simp] theorem put_legacy : (c.put digest wasm).legacy = c.legacy := by
  rw [put, putBlob]
  split <;> rfl

@[simp] theorem put_loadRefs : (c.put digest wasm).loadRefs = c.loadRefs := by simp only [loadRefs, put_refs]

@[simp] theorem loadRefs_refs (refs : Table String String) : (c.write (.refs refs)).loadRefs = refs := rfl

/-- Under its digest there is the blob, whether it was there before or not. -/
theorem lookup_put (apart : Set.InjOn digest B) (addressed : c.Addressed digest B) (here : wasm ∈ B) (d : String) :
    (c.put digest wasm).blobs.lookup d = if d = digest wasm then some wasm else c.blobs.lookup d := by
  rw [put, putBlob]
  split
  · next stored =>
      obtain ⟨bytes, found⟩ := Table.mem_iff_lookup.1 stored
      obtain ⟨member, same⟩ := addressed _ _ found
      have bytes_eq : bytes = wasm := apart member here same
      subst bytes_eq
      show c.blobs.lookup d = _
      split
      · next at' => rw [at', found]
      · rfl
  · exact Table.lookup_insert_eq ..

theorem writes_append (ws ws' : List Write) : c.writes (ws ++ ws') = (c.writes ws).writes ws' := List.foldl_append

/-- The directory after a whole store. -/
theorem writes_store : c.writes (c.storeArtifact digest reference wasm) =
    if c.loadRefs.lookup reference ≠ some (digest wasm) then
      (c.put digest wasm).write (.refs (c.loadRefs.insert reference (digest wasm)))
    else c.put digest wasm := by
  rw [storeArtifact, writes_append]
  split <;> rfl

theorem blobs_store : (c.writes (c.storeArtifact digest reference wasm)).blobs = (c.put digest wasm).blobs := by
  rw [writes_store]
  split <;> rfl

/-- After a whole store the index names the blob. -/
theorem loadRefs_store : (c.writes (c.storeArtifact digest reference wasm)).loadRefs.lookup reference =
    some (digest wasm) := by
  rw [writes_store]
  split
  · exact AList.lookup_insert _
  · next named => rw [put_loadRefs, not_not.1 named]

@[simp] theorem legacy_store : (c.writes (c.storeArtifact digest reference wasm)).legacy = c.legacy := by
  rw [writes_store]
  split
  · exact put_legacy
  · exact put_legacy

/-- A whole store does not end inside the index write. -/
theorem last_store : (c.storeArtifact digest reference wasm).getLast? ≠ some .tear := by
  simp only [storeArtifact, putBlob, saveRefs]
  split <;> split <;> simp

/-- A beginning of a store ends before it, behind the blob, inside the index or at the end. -/
theorem store_cut (before : ws <+: c.storeArtifact digest reference wasm) :
    c.writes ws = c ∨ c.writes ws = c.put digest wasm ∨
      c.writes ws = (c.put digest wasm).write .tear ∧ ws.getLast? = some .tear ∨
      ws = c.storeArtifact digest reference wasm := by
  by_cases stored : digest wasm ∈ c.blobs <;> by_cases named : c.loadRefs.lookup reference = some (digest wasm)
  all_goals
    simp only [storeArtifact, put, putBlob, saveRefs, stored, named, if_true, if_false, ne_eq, not_true_eq_false,
      not_false_eq_true, List.nil_append, List.cons_append, List.prefix_nil, List.prefix_cons_iff] at before ⊢
  · exact .inl (by rw [before]; rfl)
  · rcases before with rfl | ⟨_, rfl, rfl | ⟨_, rfl, rfl⟩⟩
    · exact .inl rfl
    · exact .inr (.inr (.inl ⟨rfl, rfl⟩))
    · exact .inr (.inr (.inr rfl))
  · rcases before with rfl | ⟨_, rfl, rfl⟩
    · exact .inl rfl
    · exact .inr (.inl rfl)
  · rcases before with rfl | ⟨_, rfl, rfl | ⟨_, rfl, rfl | ⟨_, rfl, rfl⟩⟩⟩
    · exact .inl rfl
    · exact .inr (.inl rfl)
    · exact .inr (.inr (.inl ⟨rfl, rfl⟩))
    · exact .inr (.inr (.inr rfl))

/-- The answer is the blob that the index names, or else the legacy file. -/
theorem answer_eq (apart : Set.InjOn digest B) (addressed : c.Addressed digest B)
    (filed : ∀ name bytes, c.legacy.lookup name = some bytes → bytes ∈ B) (reference : String) :
    c.answer digest reference = (c.indexed reference).or (c.legacyBytes reference) := by
  have legacy : (c.loadRefs.lookup reference).filter (· ∈ c.blobs) = none →
      c.answer digest reference = c.legacyBytes reference := by
    intro missed
    rw [answer, cachedArtifact, missed, legacyBytes]
    cases file : c.legacy.lookup (sanitize reference) with
    | none => rfl
    | some bytes =>
      show ((c.writes (_ ++ _)).blobs.lookup (digest bytes)) = _
      rw [writes_append]
      show (c.writes (c.storeArtifact digest reference bytes)).blobs.lookup (digest bytes) = _
      rw [blobs_store, lookup_put apart addressed (filed _ _ file), if_pos rfl]
  cases named : c.loadRefs.lookup reference with
  | none => rw [legacy (by rw [named]; rfl), indexed, named, Option.bind_none, Option.none_or]
  | some d =>
    cases stored : c.blobs.lookup d with
    | none =>
      have absent : d ∉ c.blobs := AList.lookup_eq_none.1 stored
      rw [legacy (by simp [named, absent]), indexed, named, Option.bind_some, stored, Option.none_or]
    | some bytes =>
      have here : d ∈ c.blobs := Table.mem_of_lookup stored
      have hit : (c.loadRefs.lookup reference).filter (· ∈ c.blobs) = some d := by simp [named, here]
      have same : c.answer digest reference = c.blobs.lookup d := by
        rw [answer, cachedArtifact, hit]
        rfl
      rw [same, indexed, named, Option.bind_some, stored, Option.some_or]

end Cache

/-! ## What a run keeps -/

/-- Blobs stand under their digests; what the index names, or else the legacy file, may be
answered; and a legacy file is one reference's. -/
structure Kept (digest : Bytes → String) (S : Set String) (B : Set Bytes) (c : Cache) (may : String → List Bytes) :
    Prop where
  addressed : c.Addressed digest B
  named : ∀ reference d, c.loadRefs.lookup reference = some d → ∃ bytes ∈ may reference, c.blobs.lookup d = some bytes
  filed : ∀ name bytes, c.legacy.lookup name = some bytes → bytes ∈ B
  alone : ∀ reference ∈ S, c.legacyBytes reference ≠ none → ∀ reference' ∈ S,
    sanitize reference' = sanitize reference → reference' = reference
  left : ∀ reference ∈ S, c.loadRefs.lookup reference = none →
    ∀ bytes, c.legacyBytes reference = some bytes → bytes ∈ may reference

namespace Kept

variable {c c' : Cache} {may may' : String → List Bytes} {reference : String} {wasm : Bytes}

theorem mono (kept : Kept digest S B c may) (more : ∀ r, may r ⊆ may' r) : Kept digest S B c may' where
  addressed := kept.addressed
  named r d there := by
    obtain ⟨bytes, member, found⟩ := kept.named r d there
    exact ⟨bytes, more r member, found⟩
  filed := kept.filed
  alone := kept.alone
  left r member unnamed bytes there := more r (kept.left r member unnamed bytes there)

theorem answer (kept : Kept digest S B c may) (apart : Set.InjOn digest B) (r : String) :
    c.answer digest r = (c.indexed r).or (c.legacyBytes r) :=
  Cache.answer_eq apart kept.addressed kept.filed r

/-- A named reference is answered with its blob. -/
theorem indexed_named (kept : Kept digest S B c may) {d : String} (there : c.loadRefs.lookup reference = some d) :
    ∃ bytes ∈ may reference, c.indexed reference = some bytes := by
  obtain ⟨bytes, member, found⟩ := kept.named _ _ there
  exact ⟨bytes, member, by rw [Cache.indexed, there, Option.bind_some, found]⟩

/-- What is answered may be. -/
theorem answers (kept : Kept digest S B c may) (apart : Set.InjOn digest B) (member : reference ∈ S) :
    ∀ bytes ∈ c.answer digest reference, bytes ∈ may reference := by
  intro bytes there
  rw [kept.answer apart] at there
  cases named : c.loadRefs.lookup reference with
  | some d =>
    obtain ⟨bytes', allowed, found⟩ := kept.indexed_named named
    rw [found, Option.some_or] at there
    cases there
    exact allowed
  | none =>
    rw [Cache.indexed, named, Option.bind_none, Option.none_or] at there
    exact kept.left _ member named _ there

/-- A blob more changes no answer. -/
theorem put (kept : Kept digest S B c may) (apart : Set.InjOn digest B) (here : wasm ∈ B) :
    Kept digest S B (c.put digest wasm) may ∧ ∀ r, (c.put digest wasm).answer digest r = c.answer digest r := by
  have blobs := Cache.lookup_put apart kept.addressed here
  have named : ∀ r d, c.loadRefs.lookup r = some d →
      ∃ bytes ∈ may r, c.blobs.lookup d = some bytes ∧ (c.put digest wasm).blobs.lookup d = some bytes := by
    intro r d there
    obtain ⟨bytes, member, found⟩ := kept.named r d there
    refine ⟨bytes, member, found, ?_⟩
    rw [blobs]
    split
    · next same =>
        rw [← apart (kept.addressed _ _ found).1 here ((kept.addressed _ _ found).2.trans same)]
    · exact found
  have next : Kept digest S B (c.put digest wasm) may :=
    { addressed := fun d bytes found => by
        rw [blobs] at found
        split at found
        · next same =>
            cases found
            exact ⟨here, same.symm⟩
        · exact kept.addressed d bytes found
      named := fun r d there => by
        rw [Cache.put_loadRefs] at there
        obtain ⟨bytes, member, _, found⟩ := named r d there
        exact ⟨bytes, member, found⟩
      filed := by simpa only [Cache.put_legacy] using kept.filed
      alone := by simpa only [Cache.legacyBytes, Cache.put_legacy] using kept.alone
      left := by simpa only [Cache.legacyBytes, Cache.put_legacy, Cache.put_loadRefs] using kept.left }
  refine ⟨next, fun r => ?_⟩
  rw [next.answer apart, kept.answer apart, Cache.legacyBytes, Cache.put_legacy, Cache.indexed, Cache.put_loadRefs]
  cases there : c.loadRefs.lookup r with
  | none => simp [Cache.indexed, Cache.legacyBytes, there]
  | some d =>
    obtain ⟨bytes, _, before, after⟩ := named r d there
    simp [Cache.indexed, there, before, after]

/-- The index names a stored blob for a reference. -/
theorem points (kept : Kept digest S B c may) (apart : Set.InjOn digest B)
    (stored : c.blobs.lookup (digest wasm) = some wasm) (allowed : wasm ∈ may reference) :
    Kept digest S B (c.write (.refs (c.loadRefs.insert reference (digest wasm)))) may ∧
      ∀ r, r ≠ reference →
        (c.write (.refs (c.loadRefs.insert reference (digest wasm)))).answer digest r =
          c.answer digest r := by
  have next : Kept digest S B (c.write (.refs (c.loadRefs.insert reference (digest wasm)))) may :=
    { addressed := kept.addressed
      named := fun r d there => by
        rw [Cache.loadRefs_refs, Table.lookup_insert_eq] at there
        split at there
        · next same =>
            cases there
            exact ⟨wasm, same ▸ allowed, stored⟩
        · exact kept.named r d there
      filed := kept.filed
      alone := kept.alone
      left := fun r member unnamed bytes there => by
        rw [Cache.loadRefs_refs, Table.lookup_insert_eq] at unnamed
        split at unnamed
        · cases unnamed
        · exact kept.left r member unnamed bytes there }
  refine ⟨next, fun r other => ?_⟩
  rw [next.answer apart, kept.answer apart, Cache.indexed, Cache.loadRefs_refs, Table.lookup_insert_eq, if_neg other]
  rfl

/-- The index is gone, and the legacy files answer. -/
theorem tears (kept : Kept digest S B c may) (apart : Set.InjOn digest B)
    (same : ∀ r ∈ S, r ≠ reference → c.legacyBytes r = c.answer digest r)
    (own : ∀ bytes, c.legacyBytes reference = some bytes → bytes ∈ may reference) :
    Kept digest S B (c.write .tear) may ∧
      ∀ r ∈ S, r ≠ reference → (c.write .tear).answer digest r = c.answer digest r := by
  have next : Kept digest S B (c.write .tear) may :=
    { addressed := kept.addressed
      named := nofun
      filed := kept.filed
      alone := kept.alone
      left := fun r member _ bytes there => by
        by_cases mine : r = reference
        · subst mine
          exact own bytes there
        · exact kept.answers apart member bytes ((same r member mine).symm.trans there) }
  refine ⟨next, fun r member other => ?_⟩
  rw [next.answer apart, ← same r member other]
  exact Option.none_or

/-- The legacy file of a named reference goes. -/
theorem unlinks (kept : Kept digest S B c may) (apart : Set.InjOn digest B) (member : reference ∈ S)
    (there : c.loadRefs.lookup reference ≠ none) (file : c.legacyBytes reference ≠ none) :
    Kept digest S B (c.write (.unlink (sanitize reference))) may ∧
      ∀ r ∈ S, (c.write (.unlink (sanitize reference))).answer digest r =
        c.answer digest r := by
  have other : ∀ r ∈ S, r ≠ reference →
      (c.legacy.erase (sanitize reference)).lookup (sanitize r) = c.legacy.lookup (sanitize r) := by
    intro r member' different
    rw [Table.lookup_erase_eq, if_neg]
    exact fun same => different (kept.alone reference member file r member' same)
  have fewer : ∀ name bytes, (c.legacy.erase (sanitize reference)).lookup name = some bytes →
      c.legacy.lookup name = some bytes := by
    intro name bytes found
    rw [Table.lookup_erase_eq] at found
    split at found
    · cases found
    · exact found
  have next : Kept digest S B (c.write (.unlink (sanitize reference))) may :=
    { addressed := kept.addressed
      named := kept.named
      filed := fun name bytes found => kept.filed name bytes (fewer name bytes found)
      alone := fun r member' found => kept.alone r member' fun none' => found (by
        cases gone : (c.legacy.erase (sanitize reference)).lookup (sanitize r) with
        | none => exact gone
        | some bytes => exact absurd (fewer _ _ gone) (by rw [show c.legacy.lookup _ = none from none']; nofun))
      left := fun r member' unnamed bytes found => kept.left r member' unnamed bytes (fewer _ _ found) }
  refine ⟨next, fun r member' => ?_⟩
  rw [next.answer apart, kept.answer apart]
  by_cases mine : r = reference
  · subst mine
    obtain ⟨d, named⟩ := Option.ne_none_iff_exists'.1 there
    obtain ⟨bytes, _, found⟩ := kept.indexed_named named
    show (c.indexed r).or _ = _
    rw [found, Option.some_or, Option.some_or]
  · show (c.indexed r).or ((c.legacy.erase (sanitize reference)).lookup (sanitize r)) = _
    rw [other r member' mine]
    rfl

end Kept

/-! ## Runs -/

/-- The references and the bytes of a call are in play. -/
def Call.In (S : Set String) (B : Set Bytes) : Call → Prop
  | .store reference wasm => reference ∈ S ∧ wasm ∈ B
  | .cached reference => reference ∈ S

/-- A call that is cut inside the index write finds the other references answered by their legacy
files as by the index, and its own file, if there is one, holds the answer or what is being stored. -/
def Careful (digest : Bytes → String) (S : Set String) (c : Cache) (e : Event) : Prop :=
  (c.done digest e).getLast? = some .tear →
    (∀ reference ∈ S, reference ≠ e.call.reference → c.legacyBytes reference = c.answer digest reference) ∧
      ∀ bytes, c.legacyBytes e.call.reference = some bytes →
        c.answer digest e.call.reference = some bytes ∨ e.call = .store e.call.reference bytes

namespace Kept

variable {c : Cache} {may : String → List Bytes} {reference : String} {wasm : Bytes} {ws : List Write}

/-- A beginning of a store, of bytes that may be answered. -/
theorem stores (kept : Kept digest S B c may) (apart : Set.InjOn digest B) (here : wasm ∈ B)
    (allowed : wasm ∈ may reference) (before : ws <+: c.storeArtifact digest reference wasm)
    (careful : ws.getLast? = some .tear →
      (∀ r ∈ S, r ≠ reference → c.legacyBytes r = c.answer digest r) ∧
        ∀ bytes, c.legacyBytes reference = some bytes → bytes ∈ may reference) :
    Kept digest S B (c.writes ws) may ∧
      ∀ r ∈ S, r ≠ reference → (c.writes ws).answer digest r = c.answer digest r := by
  obtain ⟨put, same⟩ := kept.put apart here
  rcases Cache.store_cut before with cut | cut | ⟨cut, last⟩ | rfl
  · rw [cut]
    exact ⟨kept, fun _ _ _ => rfl⟩
  · rw [cut]
    exact ⟨put, fun r _ _ => same r⟩
  · obtain ⟨others, own⟩ := careful last
    obtain ⟨torn, answers⟩ := put.tears apart
      (fun r member (other : r ≠ reference) => by rw [same, ← others r member other, Cache.legacyBytes, Cache.put_legacy]; rfl)
      (fun bytes there => own bytes (by rwa [Cache.legacyBytes, Cache.put_legacy] at there))
    rw [cut]
    exact ⟨torn, fun r member other => (answers r member other).trans (same r)⟩
  · rw [Cache.writes_store]
    split
    · have stored : (c.put digest wasm).blobs.lookup (digest wasm) = some wasm := by
        rw [Cache.lookup_put apart kept.addressed here, if_pos rfl]
      obtain ⟨pointed, answers⟩ := put.points apart stored allowed
      rw [Cache.put_loadRefs] at pointed answers
      exact ⟨pointed, fun r _ other => (answers r other).trans (same r)⟩
    · exact ⟨put, fun r _ _ => same r⟩

/-- A whole store. -/
theorem storesAll (kept : Kept digest S B c may) (apart : Set.InjOn digest B) (here : wasm ∈ B)
    (allowed : wasm ∈ may reference) :
    Kept digest S B (c.writes (c.storeArtifact digest reference wasm)) may ∧
      ∀ r ∈ S, r ≠ reference → (c.writes (c.storeArtifact digest reference wasm)).answer digest r = c.answer digest r :=
  kept.stores apart here allowed List.prefix_rfl fun last => absurd last Cache.last_store

/-- A beginning of a lookup. -/
theorem caches (kept : Kept digest S B c may) (apart : Set.InjOn digest B) (member : reference ∈ S)
    (before : ws <+: (c.cachedArtifact digest reference).2)
    (careful : ws.getLast? = some .tear → ∀ r ∈ S, r ≠ reference → c.legacyBytes r = c.answer digest r) :
    Kept digest S B (c.writes ws) may ∧
      ∀ r ∈ S, r ≠ reference → (c.writes ws).answer digest r = c.answer digest r := by
  rw [Cache.cachedArtifact] at before
  split at before
  · rw [List.prefix_nil.1 before]
    exact ⟨kept, fun _ _ _ => rfl⟩
  · next missed =>
      split at before
      · rw [List.prefix_nil.1 before]
        exact ⟨kept, fun _ _ _ => rfl⟩
      · next bytes file =>
          have unnamed : c.loadRefs.lookup reference = none := by
            cases named : c.loadRefs.lookup reference with
            | none => rfl
            | some d =>
              obtain ⟨_, _, stored⟩ := kept.named _ _ named
              rw [named, Option.filter_some, if_pos (by simpa using Table.mem_of_lookup stored)] at missed
              cases missed
          have allowed : bytes ∈ may reference := kept.left _ member unnamed _ file
          have here : bytes ∈ B := kept.filed _ _ file
          rcases List.prefix_concat_iff.1 before with rfl | before
          · have stores := kept.storesAll apart here allowed
            obtain ⟨stored, answers⟩ := stores
            obtain ⟨next, same⟩ := stored.unlinks apart member (by rw [Cache.loadRefs_store]; nofun)
              (by rw [Cache.legacyBytes, Cache.legacy_store, file]; nofun)
            rw [Cache.writes_append]
            exact ⟨next, fun r member' other => (same r member').trans (answers r member' other)⟩
          · refine kept.stores apart here allowed before fun last => ⟨careful last, fun bytes' there => ?_⟩
            exact kept.left _ member unnamed _ there

/-- After a whole store its bytes alone may be answered. -/
theorem settles (kept : Kept digest S B c may) (named : c.loadRefs.lookup reference = some (digest wasm))
    (stored : c.blobs.lookup (digest wasm) = some wasm) :
    Kept digest S B c (Function.update may reference [wasm]) where
  addressed := kept.addressed
  named r d there := by
    by_cases mine : r = reference
    · subst mine
      rw [Option.some.inj (there.symm.trans named), Function.update_self]
      exact ⟨wasm, List.mem_singleton_self _, stored⟩
    · rw [Function.update_of_ne mine]
      exact kept.named r d there
  filed := kept.filed
  alone := kept.alone
  left r member unnamed bytes there := by
    by_cases mine : r = reference
    · rw [mine, named] at unnamed
      cases unnamed
    · rw [Function.update_of_ne mine]
      exact kept.left r member unnamed bytes there

variable {s : Log} {e : Event}

/-- A call of a run. -/
theorem step (kept : Kept digest S B s.toCache s.may) (apart : Set.InjOn digest B) (inPlay : e.call.In S B)
    (careful : Careful digest S s.toCache e) :
    Kept digest S B (s.step digest e).toCache (s.step digest e).may ∧
      ∀ r ∈ S, r ≠ e.call.reference → (s.step digest e).answer digest r = s.answer digest r := by
  obtain ⟨call, stop⟩ := e
  cases call with
  | cached reference =>
    have before : s.done digest ⟨.cached reference, stop⟩ <+: (s.cachedArtifact digest reference).2 := by
      cases stop with
      | none => exact List.prefix_rfl
      | some n => exact List.take_prefix n _
    exact kept.caches apart inPlay before fun last => (careful last).1
  | store reference wasm =>
    obtain ⟨member, here⟩ := inPlay
    have more : ∀ r, s.may r ⊆ Function.update s.may reference (wasm :: s.may reference) r := by
      intro r
      by_cases mine : r = reference
      · subst mine
        rw [Function.update_self]
        exact List.subset_cons_self ..
      · rw [Function.update_of_ne mine]
        exact List.Subset.refl _
    have allowed : wasm ∈ Function.update s.may reference (wasm :: s.may reference) reference := by
      rw [Function.update_self]
      exact List.mem_cons_self
    have wider := kept.mono more
    cases stop with
    | none =>
      obtain ⟨stored, answers⟩ := wider.storesAll apart here allowed
      have settled := stored.settles Cache.loadRefs_store
        (by rw [Cache.blobs_store, Cache.lookup_put apart kept.addressed here, if_pos rfl])
      rw [Function.update_idem] at settled
      exact ⟨settled, answers⟩
    | some n =>
      refine wider.stores apart here allowed (List.take_prefix n _) fun last => ?_
      obtain ⟨others, own⟩ := careful last
      refine ⟨others, fun bytes there => ?_⟩
      rcases own bytes there with answered | storing
      · exact more _ (kept.answers apart member _ answered)
      · cases storing
        exact allowed

/-- A directory with pre-index files, each of them one reference's. -/
theorem start {pulled : List (String × Bytes)} (inPlay : ∀ p ∈ pulled, p.1 ∈ S ∧ p.2 ∈ B)
    (alone : ∀ p ∈ pulled, ∀ r ∈ S, sanitize r = sanitize p.1 → r = p.1) :
    Kept digest S B (Log.start pulled).toCache (Log.start pulled).may where
  addressed := nofun
  named := nofun
  filed name bytes found := by
    obtain ⟨p, member, same⟩ := List.mem_map.1 (Table.mem_of_lookup_ofRows found)
    cases same
    exact (inPlay p member).2
  alone r member file r' member' same := by
    obtain ⟨bytes, found⟩ := Option.ne_none_iff_exists'.1 file
    obtain ⟨p, there, row⟩ := List.mem_map.1 (Table.mem_of_lookup_ofRows found)
    have name : sanitize p.1 = sanitize r := congrArg Prod.fst row
    rw [alone p there r member name.symm, alone p there r' member' (same.trans name.symm)]
  left r member _ bytes there := by
    have same : (Log.start pulled).legacyBytes r = (Table.ofRows pulled).lookup r :=
      Table.lookup_ofRows_rename sanitize fun p there' name => (alone p there' r member name.symm).symm
    rw [same] at there
    simp [Log.start, there]

end Kept

/-- In a run over references of which none shares a legacy file's name with another, and whose
calls are cut inside the index write only where the legacy files answer like the index, every
reference is answered with what was last stored or legacy-cached for it, and no call changes
the answer of another. -/
theorem keyed (apart : Set.InjOn digest B) {pulled : List (String × Bytes)}
    (inPlay : ∀ p ∈ pulled, p.1 ∈ S ∧ p.2 ∈ B)
    (alone : ∀ p ∈ pulled, ∀ r ∈ S, sanitize r = sanitize p.1 → r = p.1) {events : List Event}
    (met : Along (Log.step digest) (fun s e => e.call.In S B ∧ Careful digest S s.toCache e) (Log.start pulled) events) :
    Along (Log.step digest) (Keyed digest S) (Log.start pulled) events :=
  met.imp (I := fun s => Kept digest S B s.toCache s.may) (fun _ _ careful kept => (kept.step apart careful.1 careful.2).1)
    (fun _ _ kept careful => ⟨fun _ member => kept.answers apart member, (kept.step apart careful.1 careful.2).2⟩)
    (Kept.start inPlay alone)

end Kept

/-! ## Poles -/

section Poles

/-- The digests of three short blobs. -/
def sha256 : Bytes → String
  | [1] => "sha256-4bf5122f344554c53bde2ebb8cd2b7e3d1600ad631c385a5d7cce23c7785459a"
  | [2] => "sha256-dbc1b4c900ffe48d575b5da5c638040125f65db0fe3e24494b76ea986457d986"
  | _ => "sha256-e3b0c44298fc1c149afbf4c8996fb92427ae41e4649b934ca495991b7852b855"

theorem sha256_apart : Set.InjOn sha256 {[1], [2]} := by
  rintro _ (rfl | rfl) _ (rfl | rfl) same
  · rfl
  · exact absurd same (by decide)
  · exact absurd same (by decide)
  · rfl

/-- One reference with a pre-index file, and one whose second store is cut inside the index write. -/
theorem keyed_pulled : Along (Log.step sha256) (Keyed sha256 {"a", "b"}) (Log.start [("b", [1])])
    [⟨.store "a" [1], none⟩, ⟨.store "a" [2], some 2⟩, ⟨.cached "b", none⟩] := by
  refine keyed (B := {[1], [2]}) sha256_apart ?_ ?_ ⟨⟨⟨.inl rfl, .inl rfl⟩, ?_⟩, ⟨⟨.inl rfl, .inr rfl⟩, ?_⟩, ⟨.inr rfl, ?_⟩, trivial⟩
  · intro p member
    rw [List.mem_singleton.1 member]
    exact ⟨.inr rfl, .inl rfl⟩
  · rintro p member r (rfl | rfl) same
    · rw [List.mem_singleton.1 member] at same
      exact absurd same (by decide)
    · rw [List.mem_singleton.1 member]
  · nofun
  · refine fun _ => ⟨?_, fun bytes there => absurd there ?_⟩
    · rintro r (rfl | rfl) other
      · exact absurd rfl other
      · decide
    · nofun
  · nofun

/-- The index write of one store is cut, and the other reference is forgotten. -/
theorem torn_forgets : ¬ Along (Log.step sha256) (Keyed sha256 {"a", "b"}) (Log.start [])
    [⟨.store "a" [1], none⟩, ⟨.store "b" [2], some 2⟩] := by
  rintro ⟨_, ⟨_, same⟩, _⟩
  exact absurd (same "a" (.inl rfl) (by decide)) (by decide)

/-- A file that had been stored over answers again. -/
theorem revives : ¬ Along (Log.step sha256) (Keyed sha256 {"a", "b"}) (Log.start [("a", [1])])
    [⟨.store "a" [2], none⟩, ⟨.store "a" [], some 2⟩, ⟨.cached "a", none⟩] := by
  rintro ⟨_, _, ⟨answers, _⟩, _⟩
  exact absurd (answers "a" (.inl rfl) [1] (by decide)) (by decide)

/-- One legacy name is two references'. -/
theorem shares : ¬ Along (Log.step sha256) (Keyed sha256 {"a/b", "a_b"}) (Log.start [("a/b", [1])])
    [⟨.cached "a_b", none⟩] := by
  rintro ⟨⟨answers, _⟩, _⟩
  exact absurd (answers "a_b" (.inr rfl) [1] (by decide)) (by decide)

end Poles

end Wk.Artifacts
