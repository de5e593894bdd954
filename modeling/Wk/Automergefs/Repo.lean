/-
# Wk.Automergefs.Repo -- the documents behind a synced filesystem

A directory document maps paths to the urls of file documents, and a file document holds
its bytes under `content`: as text where they are UTF-8, so that concurrent editors merge,
and as a scalar otherwise.  A document is an Automerge map at its root, and a write to a key
is a `put`, a `delete` or a replacement of text.

What a url names is decided by `parseDocId`; Base58Check is a library's and stands as a
parameter.
-/
import Wk.Automergefs

namespace Wk.Automergefs

open Wk.Library

set_option autoImplicit false

/-- What a key of a document holds. -/
inductive Value where
  /-- A live text object. -/
  | text (s : String)
  /-- An immutable string. -/
  | str (s : String)
  | bytes (b : Bytes)
  /-- Any other scalar, as it prints. -/
  | scalar (shown : String)
  /-- A map or a list. -/
  | object (entries : List (String × String))
  deriving DecidableEq, Repr

/-- A document: the map at its root. -/
abbrev Doc := Table String Value

/-! ## Document ids -/

/-- A `SedimentreeId`: 32 bytes. -/
abbrev DocId := List UInt8

/-- Base58Check, as the library computes it. -/
structure Base58 where
  encode : List UInt8 → String
  decode : String → Option (List UInt8)

/-- What the code relies on, for the 16 bytes it encodes. -/
structure Base58.Lawful (b58 : Base58) : Prop where
  decode_encode : ∀ bytes, bytes.length = 16 → b58.decode (b58.encode bytes) = some bytes
  /-- The alphabet has no `#`. -/
  alphabet : ∀ bytes, '#' ∉ (b58.encode bytes).toList
  /-- Four bytes of checksum and 16 of payload take at most 28 letters. -/
  short : ∀ bytes, bytes.length = 16 → (b58.encode bytes).toList.length ≤ 28

def hexVal (c : Char) : Option UInt8 :=
  if '0' ≤ c ∧ c ≤ '9' then some (c.toNat - '0'.toNat).toUInt8
  else if 'a' ≤ c ∧ c ≤ 'f' then some (c.toNat - 'a'.toNat + 10).toUInt8
  else if 'A' ≤ c ∧ c ≤ 'F' then some (c.toNat - 'A'.toNat + 10).toUInt8
  else none

/-- `from_str_radix(_, 16)` on each pair of digits. -/
def hexBytes : List Char → Option (List UInt8)
  | [] => some []
  | hi :: lo :: rest => do return (16 * (← hexVal hi) + (← hexVal lo)) :: (← hexBytes rest)
  | [_] => none

def pad (bytes : List UInt8) : DocId := bytes ++ List.replicate (32 - bytes.length) 0

def parseDocId (b58 : Base58) (input : String) : Option DocId :=
  let stripped := (stripPrefix "automerge:" input).getD input
  let stripped := stripped.toList.takeWhile (· ≠ '#')
  if stripped.length = 64 ∧ stripped.all (fun c => (hexVal c).isSome) then hexBytes stripped
  else
    match b58.decode (String.ofList stripped) with
    | none => none
    | some decoded => if 32 < decoded.length then none else some (pad decoded)

/-- `new_doc_url`, for the 16 random bytes it draws. -/
def newDocUrl (b58 : Base58) (drawn : List UInt8) : String × DocId := ("automerge:" ++ b58.encode drawn, pad drawn)

/-! ## Reading -/

/-- A string at a key, whichever way a writer stored it. -/
def stringAt (doc : Doc) (key : String) : Option String :=
  match doc.lookup key with
  | some (.text s) | some (.str s) => some s
  | _ => none

/-- A path that is no metadata key. -/
def Plain (path : String) : Prop := path.toList.head? ≠ some '@'

instance (path : String) : Decidable (Plain path) := inferInstanceAs (Decidable (_ ≠ _))

/-- The url of a file document, where a path of the directory document holds one. -/
def leaf (dir : Doc) (path : String) : Option String :=
  if Plain path then (stringAt dir path).filter fun url => (stripPrefix "automerge:" url).isSome else none

def dirLeaves (dir : Doc) : List (String × String) :=
  dir.keys.filterMap fun path => (leaf dir path).map fun url => (path, url)

/-- `String::into_bytes`. -/
def bytesOf (s : String) : Bytes := s.toUTF8.data.toList

def fileContent (doc : Doc) : Bytes :=
  match doc.lookup "content" with
  | some (.text s) | some (.str s) | some (.scalar s) => bytesOf s
  | some (.bytes b) => b
  | some (.object _) | none => []

/-! ## Writing -/

def setContent (doc : Doc) (b : Bytes) : Doc :=
  match String.fromUTF8? ⟨b.toArray⟩ with
  -- `update_text` on the text there is, or a new text object
  | some s => doc.insert "content" (.text s)
  | none => doc.insert "content" (.bytes b)

/-- `rsplit('/').next()`. -/
def basename (path : String) : String := String.ofList (path.toList.reverse.takeWhile (· ≠ '/')).reverse

/-- What follows the last dot of a name, unless that is its first character. -/
def extensionOf (name : String) : String :=
  let after := (name.toList.reverse.takeWhile (· ≠ '.')).reverse
  if after.length + 1 < name.length then String.ofList after else ""

def mimeOf (ext : String) : String :=
  if ext = "html" then "text/html"
  else if ext = "css" then "text/css"
  else if ext ∈ ["js", "jsx", "ts", "tsx"] then "text/javascript"
  else if ext = "json" then "application/json"
  else if ext = "md" then "text/markdown"
  else if ext = "png" then "image/png"
  else if ext ∈ ["jpg", "jpeg"] then "image/jpeg"
  else "text/plain"

/-- The name, extension and MIME type of a path, as a file document keeps them. -/
def putMeta (doc : Doc) (rel : String) : Doc :=
  let name := basename rel
  let ext := extensionOf name
  ((doc.insert "name" (.str name)).insert "extension" (.str ext)).insert "mimeType" (.str (mimeOf ext))

def makeFileDoc (rel : String) (content : Bytes) : Doc :=
  setContent (putMeta ((∅ : Doc).insert "@patchwork" (.object [("type", "file")])) rel) content

def setFileMeta (doc : Doc) (rel : String) : Doc := putMeta doc rel

/-- `put` under the new path, then `delete` of the old one. -/
def renameDirEntry (dir : Doc) (src dest url : String) : Doc := (dir.insert dest (.str url)).erase src

def setDirEntry (dir : Doc) (path : String) : Option String → Doc
  | some url => dir.insert path (.str url)
  | none => dir.erase path

/-! ## What is read of what was written -/

@[simp] theorem fileContent_setContent (doc : Doc) (b : Bytes) : fileContent (setContent doc b) = b := by
  unfold setContent
  split
  · next s decoded =>
      have same : s.toUTF8 = ⟨b.toArray⟩ := by
        unfold String.fromUTF8? at decoded
        split at decoded
        · cases decoded
          rfl
        · cases decoded
      rw [fileContent, AList.lookup_insert]
      exact congrArg (fun whole : ByteArray => whole.data.toList) same
  · rw [fileContent, AList.lookup_insert]

@[simp] theorem fileContent_putMeta (doc : Doc) (rel : String) : fileContent (putMeta doc rel) = fileContent doc := by
  have same : (putMeta doc rel).lookup "content" = doc.lookup "content" := by
    simp [putMeta]
  rw [fileContent, fileContent, same]

@[simp] theorem fileContent_setFileMeta (doc : Doc) (rel : String) : fileContent (setFileMeta doc rel) = fileContent doc :=
  fileContent_putMeta doc rel

theorem stringAt_insert (dir : Doc) (path key url : String) :
    stringAt (dir.insert path (.str url)) key = if key = path then some url else stringAt dir key := by
  unfold stringAt
  rw [Table.lookup_insert_eq]
  by_cases here : key = path
  · rw [if_pos here, if_pos here]
  · rw [if_neg here, if_neg here]

theorem stringAt_erase (dir : Doc) (path key : String) :
    stringAt (dir.erase path) key = if key = path then none else stringAt dir key := by
  unfold stringAt
  rw [Table.lookup_erase_eq]
  by_cases here : key = path
  · rw [if_pos here, if_pos here]
  · rw [if_neg here, if_neg here]

theorem leaf_insert {dir : Doc} {path key url : String} (plain : Plain path)
    (named : (stripPrefix "automerge:" url).isSome = true) :
    leaf (dir.insert path (.str url)) key = if key = path then some url else leaf dir key := by
  unfold leaf
  rw [stringAt_insert]
  by_cases here : key = path
  · subst here
    rw [if_pos plain, if_pos rfl, if_pos rfl]
    exact Option.filter_eq_some_iff.2 ⟨rfl, named⟩
  · rw [if_neg here, if_neg here]

theorem leaf_erase (dir : Doc) (path key : String) :
    leaf (dir.erase path) key = if key = path then none else leaf dir key := by
  unfold leaf
  rw [stringAt_erase]
  by_cases here : key = path
  · simp [here]
  · rw [if_neg here, if_neg here]

theorem mem_dirLeaves {dir : Doc} {path url : String} : (path, url) ∈ dirLeaves dir ↔ leaf dir path = some url := by
  unfold dirLeaves
  simp only [List.mem_filterMap, Option.map_eq_some_iff, Prod.mk.injEq]
  constructor
  · rintro ⟨path, -, url, found, rfl, rfl⟩
    exact found
  · intro found
    refine ⟨path, ?_, url, found, rfl, rfl⟩
    unfold leaf at found
    split at found
    · have held : stringAt dir path = some url := (Option.filter_eq_some_iff.1 found).1
      refine AList.mem_keys.1 (AList.lookup_isSome.1 ?_)
      unfold stringAt at held
      cases there : dir.lookup path with
      | none => rw [there] at held; cases held
      | some value => rfl
    · cases found

/-- A new url names the id that was drawn. -/
theorem parseDocId_newDocUrl {b58 : Base58} (lawful : b58.Lawful) {drawn : List UInt8} (size : drawn.length = 16) :
    parseDocId b58 (newDocUrl b58 drawn).1 = some (newDocUrl b58 drawn).2 := by
  have stripped : stripPrefix "automerge:" ("automerge:" ++ b58.encode drawn) = some (b58.encode drawn) :=
    stripPrefix_eq_some.2 rfl
  have whole : (b58.encode drawn).toList.takeWhile (· ≠ '#') = (b58.encode drawn).toList := by
    refine List.takeWhile_eq_self_iff.2 fun c member => ?_
    exact decide_eq_true fun same : c = '#' => lawful.alphabet drawn (same ▸ member)
  have short := lawful.short drawn size
  unfold parseDocId newDocUrl
  simp only [stripped, Option.getD_some, whole, String.ofList_toList, lawful.decode_encode drawn size]
  rw [if_neg fun long => by omega, if_neg (by omega)]

end Wk.Automergefs
