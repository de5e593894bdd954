/-
# Wk.Automergefs.Handles -- where a handle writes, and what it addresses

The tree is a flat map of paths, a handle is the path it was opened on, and an offset is cut to
a machine word.

* `MemTree.Exact`: a read, a write or a new size acts at the offset asked for, or is refused.
* `exact_iff`: it does so on exactly the operations of `MemTree.Lands`.
* `Held.Sound`, `Held.Faithful`: no path is a file and a directory, a handle addresses the file
  it was opened on, an error changes nothing, and a handle brings no name back.
* `served_sound`: they hold in every run whose operations make no file or directory below a file,
  none where a handle points, and go through no handle whose file is gone.

Poles: `wraps` (the offset 2^32 is the offset 0), `tree_breaks` (a file below a file, an unlinked
file that a write or its refusal brings back, a handle on a file that another has replaced).
-/
import Wk.Automergefs
import Wk.Library.Run

namespace Wk.Automergefs

open Wk.Library Wk.Provider

set_option autoImplicit false

/-! ## Offsets -/

/-- A file's bytes after a write at an offset: zeros stand in a gap. -/
def written (b : Bytes) (offset : Nat) (data : Bytes) : Bytes :=
  b.take offset ++ List.replicate (offset - b.length) 0 ++ data ++ b.drop (offset + data.length)

namespace MemTree

variable {t : MemTree} {orders : Orders} {op : FsOp}

/-- The lengths fit in a machine word. -/
def Fits (t : MemTree) : Prop := ∀ path b, t.files.lookup path = some b → b.length < 2 ^ 32

/-- What an operation on an open handle answers and leaves, if it acts at the offset it is given. -/
def Exact (t : MemTree) (out : FsResult × MemTree) : FsOp → Prop
  | .read handle offset len => ∀ path b, t.handles.lookup handle = some path → t.files.lookup path = some b →
      ∃ eof, out.1 = .ok (.data ((b.drop offset).take len) eof)
  | .write handle offset data => ∀ path, t.handles.lookup handle = some path →
      out = (.error .tooLarge, t) ∨
        out = (.ok (.written data.length), t.store path (written ((t.files.lookup path).getD []) offset data))
  | .setSize handle size => ∀ path, t.handles.lookup handle = some path →
      out = (.error .tooLarge, t) ∨ out = (.ok .done, t.store path (resize ((t.files.lookup path).getD []) size))
  | _ => True

/-- The offset or size fits in a word, or what is left of it is past the end or too large. -/
def Lands (t : MemTree) : FsOp → Prop
  | .read handle offset len => ∀ path b, t.handles.lookup handle = some path → t.files.lookup path = some b →
      offset < 2 ^ 32 ∨ b.length ≤ asUsize offset ∨ len = 0
  | .write handle offset data => ∀ path, t.handles.lookup handle = some path →
      if MAX_FILE < asUsize offset + data.length then path ∈ t.files else offset < 2 ^ 32
  | .setSize handle size => t.handles.lookup handle ≠ none → size < 2 ^ 32 ∨ MAX_FILE < asUsize size
  | _ => True

theorem asUsize_of_lt {n : Nat} (small : n < 2 ^ 32) : asUsize n = n := Nat.mod_eq_of_lt small

theorem asUsize_lt (n : Nat) : asUsize n < 2 ^ 32 := Nat.mod_lt _ (by decide)

@[simp] theorem length_resize (b : Bytes) (size : Nat) : (resize b size).length = size := by
  simp only [resize, List.length_append, List.length_take, List.length_replicate]
  omega

theorem length_written (b : Bytes) (offset : Nat) (data : Bytes) :
    (written b offset data).length = max b.length (offset + data.length) := by
  simp only [written, List.length_append, List.length_take, List.length_replicate, List.length_drop]
  omega

/-- The bytes that a write stores are those of a write at the start it works out. -/
theorem write_stores (b : Bytes) (start : Nat) (data : Bytes) :
    (if b.length < start + data.length then resize b (start + data.length) else b).take start ++ data ++
      (if b.length < start + data.length then resize b (start + data.length) else b).drop (start + data.length) =
        written b start data := by
  split
  · next short =>
      have tail : b.drop (start + data.length) = [] := List.drop_eq_nil_of_le short.le
      have cut : (resize b (start + data.length)).drop (start + data.length) = [] :=
        List.drop_eq_nil_of_le (length_resize ..).le
      have head : (resize b (start + data.length)).take start = b.take start ++ List.replicate (start - b.length) 0 := by
        rw [resize, List.take_of_length_le short.le, List.take_append, List.take_replicate]
        congr 2
        omega
      rw [written, tail, cut, head]
  · next long =>
      rw [written, Nat.sub_eq_zero_of_le (by omega), List.replicate_zero, List.append_nil]

/-- An open fails, or gives out the next handle: on what is there, on a file it empties, or on a file it makes. -/
theorem open_cases (t : MemTree) (path : String) (create truncate exclusive : Bool) :
    (∃ e, t.open' path create truncate exclusive = (.error e, t)) ∨
      ∃ o u, t.open' path create truncate exclusive =
          (.ok (.opened o), { u with nextHandle := u.nextHandle + 1, handles := u.handles.insert u.nextHandle path }) ∧
        o.handle = t.nextHandle ∧
          (u = t ∧ (path ∈ t.files ∨ t.isDir path = true) ∨ u = t.store path [] ∧ path ∈ t.files ∨
            u = t.store path [] ∧ create = true ∧ path ∉ t.files ∧ t.isDir path = false) := by
  simp only [open']
  split
  · exact .inl ⟨_, rfl⟩
  · split
    · exact .inl ⟨_, rfl⟩
    · next refused =>
        refine .inr ⟨_, if !(path ∈ t.files || t.isDir path) || truncate && path ∈ t.files then t.store path [] else t, rfl, ?_⟩
        split
        · next stores =>
            refine ⟨rfl, .inr ?_⟩
            by_cases here : path ∈ t.files
            · exact .inl ⟨rfl, here⟩
            · have dir : t.isDir path = false := by simpa [here] using stores
              exact .inr ⟨rfl, by simpa [here, dir] using refused, here, dir⟩
        · next stays =>
            refine ⟨rfl, .inl ⟨rfl, ?_⟩⟩
            by_cases here : path ∈ t.files
            · exact .inl here
            · exact .inr (by simpa [here] using stays)

theorem entry_of_mem {path : String} (here : path ∈ t.files) : t.entry path = t := by rw [entry, if_pos here]

theorem entry_ne {path : String} (absent : path ∉ t.files) : t.entry path ≠ t := by
  intro same
  refine absent (same ▸ ?_)
  rw [entry, if_neg absent]
  exact (AList.mem_insert t.files).2 (.inl rfl)

/-- A slice whose ends are cut to the length. -/
theorem slice_eq (b : Bytes) (start len : Nat) :
    (b.drop (min start b.length)).take (min (min start b.length + len) b.length - min start b.length) =
      (b.drop start).take len := by
  by_cases inside : start ≤ b.length
  · rw [Nat.min_eq_left inside]
    rcases Nat.le_total (start + len) b.length with fits | past
    · rw [Nat.min_eq_left fits, Nat.add_sub_cancel_left]
    · rw [Nat.min_eq_right past, List.take_of_length_le (by simp), List.take_of_length_le]
      rw [List.length_drop]
      omega
  · have none' : b.drop start = [] := List.drop_eq_nil_of_le (by omega)
    simp [none', Nat.min_eq_right (not_le.1 inside).le]

theorem read_data {handle : Nat} (offset len : Nat) {path : String} {b : Bytes} (held : t.handles.lookup handle = some path)
    (found : t.files.lookup path = some b) :
    ∃ eof, t.read handle offset len = .ok (.data ((b.drop (asUsize offset)).take len) eof) := by
  simp only [read, held, Option.bind_some, found, slice_eq]
  exact ⟨_, rfl⟩

theorem write_cases {handle offset : Nat} {data : Bytes} {path : String} (held : t.handles.lookup handle = some path) :
    t.write handle offset data =
      if MAX_FILE < asUsize offset + data.length then (.error .tooLarge, t.entry path)
      else (.ok (.written data.length), t.store path (written ((t.files.lookup path).getD []) (asUsize offset) data)) := by
  simp only [write, held, write_stores]

theorem setSize_cases {handle size : Nat} {path : String} (held : t.handles.lookup handle = some path) :
    t.setSize handle size =
      if MAX_FILE < asUsize size then (.error .tooLarge, t)
      else (.ok .done, t.store path (resize ((t.files.lookup path).getD []) (asUsize size))) := by
  simp only [setSize, held]

/-- A file that was stored is the one that is there. -/
theorem store_inj {path : String} {b b' : Bytes} (same : t.store path b = t.store path b') : b = b' := by
  have files : (t.files.insert path b).lookup path = (t.files.insert path b').lookup path :=
    congrArg (fun u => u.files.lookup path) same
  simpa using files

theorem Fits.getD (fits : t.Fits) (path : String) : ((t.files.lookup path).getD []).length < 2 ^ 32 := by
  cases found : t.files.lookup path with
  | none => decide
  | some b => exact fits path b found

/-- An operation acts at the offset or size it is given, or is refused, exactly where that fits in a word or
what is left of it is past the end or too large. -/
theorem exact_iff (fits : t.Fits) (orders : Orders) (op : FsOp) : t.Exact (t.handle orders op) op ↔ t.Lands op := by
  cases op with
  | read handle offset len =>
    simp only [Exact, Lands, MemTree.handle]
    refine forall₂_congr fun path b => forall₂_congr fun held found => ?_
    obtain ⟨eof, answer⟩ := read_data offset len held found
    have short := fits path b found
    rw [answer]
    constructor
    · rintro ⟨eof', same⟩
      by_contra far
      simp only [not_or, not_lt, not_le] at far
      obtain ⟨large, inside, some'⟩ := far
      simp only [Except.ok.injEq, FsReplyData.data.injEq] at same
      have lengths := congrArg List.length same.1
      simp only [List.length_take, List.length_drop] at lengths
      omega
    · rintro (small | past | none')
      · exact ⟨eof, by rw [asUsize_of_lt small]⟩
      · refine ⟨eof, ?_⟩
        have beyond : b.length ≤ offset := past.trans (Nat.mod_le ..)
        rw [List.drop_eq_nil_of_le past, List.drop_eq_nil_of_le beyond]
      · exact ⟨eof, by rw [none', List.take_zero, List.take_zero]⟩
  | write handle offset data =>
    simp only [Exact, Lands, MemTree.handle]
    refine forall₂_congr fun path held => ?_
    rw [write_cases held]
    have short := fits.getD path
    split
    · constructor
      · rintro (same | stored)
        · by_contra absent
          exact entry_ne absent (Prod.ext_iff.1 same).2
        · cases (Prod.ext_iff.1 stored).1
      · exact fun here => .inl (by rw [entry_of_mem here])
    · next within =>
        simp only [MAX_FILE, not_lt] at within
        constructor
        · rintro (refused | stored)
          · cases (Prod.ext_iff.1 refused).1
          · have lengths := congrArg List.length (store_inj (Prod.ext_iff.1 stored).2)
            rw [length_written, length_written] at lengths
            omega
        · exact fun small => .inr (by rw [asUsize_of_lt small])
  | setSize handle size =>
    simp only [Exact, Lands, MemTree.handle]
    cases held : t.handles.lookup handle with
    | none => simp
    | some path =>
      simp only [Option.some.injEq, forall_eq', setSize_cases held, ne_eq, reduceCtorEq, not_false_eq_true, true_imp_iff]
      split
      · next large => exact iff_of_true (.inl rfl) (.inr large)
      · next within =>
          constructor
          · rintro (refused | stored)
            · cases (Prod.ext_iff.1 refused).1
            · have lengths := congrArg List.length (store_inj (Prod.ext_iff.1 stored).2)
              rw [length_resize, length_resize] at lengths
              exact .inl (lengths ▸ asUsize_lt size)
          · rintro (small | large)
            · exact .inr (by rw [asUsize_of_lt small])
            · exact absurd large within
  | _ => exact iff_of_true trivial trivial

/-- A file of three bytes, and a handle on it. -/
def short : MemTree := { files := AList.insert "a" [1, 2, 3] ∅, handles := AList.insert 1 "a" ∅, nextHandle := 2 }

theorem short_fits : short.Fits := by
  intro path b found
  obtain ⟨rfl, rfl⟩ : "a" = path ∧ [1, 2, 3] = b := by
    rw [short, Table.lookup_insert_eq] at found
    split at found
    · next here => exact ⟨here.symm, Option.some.inj found⟩
    · cases found
  decide

theorem exact_iff_short : short.Exact (short.handle {} (.write 1 2 [9])) (.write 1 2 [9]) :=
  (exact_iff short_fits {} (.write 1 2 [9])).2 fun path _ => by
    rw [if_neg (by decide)]
    decide

/-- The offset 2^32 is the offset 0: a read there has bytes, a write overwrites the first, and the size 2^32
empties the file. -/
theorem wraps :
    ¬ short.Exact (short.handle {} (.read 1 (2 ^ 32) 2)) (.read 1 (2 ^ 32) 2) ∧
      ¬ short.Exact (short.handle {} (.write 1 (2 ^ 32) [9])) (.write 1 (2 ^ 32) [9]) ∧
        ¬ short.Exact (short.handle {} (.setSize 1 (2 ^ 32))) (.setSize 1 (2 ^ 32)) ∧
    (short.handle {} (.read 1 (2 ^ 32) 2)).1 = .ok (.data [1, 2] false) ∧
      (short.handle {} (.write 1 (2 ^ 32) [9])).2.files.lookup "a" = some [9, 2, 3] ∧
        (short.handle {} (.setSize 1 (2 ^ 32))).2.files.lookup "a" = some [] := by
  have held : short.handles.lookup 1 = some "a" := by decide
  have found : short.files.lookup "a" = some [1, 2, 3] := by decide
  refine ⟨fun exact' => ?_, fun exact' => ?_, fun exact' => ?_, by decide +kernel, by decide +kernel, by decide +kernel⟩
  · obtain ⟨eof, answer⟩ := exact' "a" [1, 2, 3] held found
    have none' : List.drop (2 ^ 32) ([1, 2, 3] : Bytes) = [] := List.drop_eq_nil_of_le (by decide)
    rw [none'] at answer
    exact absurd answer (by cases eof <;> decide +kernel)
  · rcases exact' "a" held with refused | stored
    · exact absurd (Prod.ext_iff.1 refused).1 (by decide +kernel)
    · have file := congrArg (fun t => (t.files.lookup "a").map List.length) (Prod.ext_iff.1 stored).2
      simp only [store, AList.lookup_insert, found, Option.getD_some, Option.map_some, length_written] at file
      exact absurd file (by decide +kernel)
  · rcases exact' "a" held with refused | stored
    · exact absurd (Prod.ext_iff.1 refused).1 (by decide +kernel)
    · have file := congrArg (fun t => (t.files.lookup "a").map List.length) (Prod.ext_iff.1 stored).2
      simp only [store, AList.lookup_insert, found, Option.getD_some, Option.map_some, length_resize] at file
      exact absurd file (by decide +kernel)

end MemTree

/-! ## Paths -/

theorem isUnder_iff {dir path : String} : isUnder dir path = true ↔ ∃ rest, path = dir ++ "/" ++ rest := by
  simp only [isUnder, Option.any_eq_true, stripPrefix_eq_some, beq_iff_eq]
  constructor
  · rintro ⟨rest, rfl, first⟩
    obtain ⟨tail, rest_eq⟩ := List.head?_eq_some_iff.1 first
    refine ⟨String.ofList tail, ?_⟩
    rw [← String.toList_inj]
    simp [rest_eq]
  · rintro ⟨rest, rfl⟩
    exact ⟨"/" ++ rest, String.append_assoc .., by simp⟩

theorem below_inj {dir r s : String} : dir ++ "/" ++ r = dir ++ "/" ++ s ↔ r = s := by
  simp [← String.toList_inj]

/-- What is below what, in a directory. -/
theorem isUnder_below {dir r s : String} : isUnder (dir ++ "/" ++ r) (dir ++ "/" ++ s) = true ↔ isUnder r s = true := by
  simp only [isUnder_iff, String.append_assoc, ← String.toList_inj, String.toList_append, List.append_cancel_left_eq]

theorem isUnder_dir {dir r : String} : isUnder dir (dir ++ "/" ++ r) = true := isUnder_iff.2 ⟨r, rfl⟩

theorem not_isUnder_self {path : String} : ¬ isUnder path path = true := by
  intro under
  obtain ⟨rest, same⟩ := isUnder_iff.1 under
  have lengths := congrArg (fun s => s.toList.length) same
  simp only [String.toList_append, List.length_append] at lengths
  have slash : "/".toList.length = 1 := rfl
  omega

theorem isUnder_trans {a b c : String} (ab : isUnder a b = true) (bc : isUnder b c = true) : isUnder a c = true := by
  obtain ⟨r, rfl⟩ := isUnder_iff.1 ab
  obtain ⟨s, rfl⟩ := isUnder_iff.1 bc
  exact isUnder_iff.2 ⟨r ++ "/" ++ s, by simp only [String.append_assoc]⟩

/-- Two directories with a common path below them are one, or one is below the other. -/
theorem below_both {dir dir' r s : String} (same : dir ++ "/" ++ r = dir' ++ "/" ++ s) :
    dir = dir' ∨ isUnder dir dir' = true ∨ isUnder dir' dir = true := by
  have side : ∀ {a b : String} {x y : List Char} {more : List Char}, b.toList = a.toList ++ more →
      '/' :: x = more ++ '/' :: y → a = b ∨ isUnder a b = true := by
    intro a b x y more longer rest
    cases more with
    | nil => exact .inl (String.toList_inj.1 (by simpa using longer.symm))
    | cons c more =>
      obtain ⟨rfl, -⟩ := List.cons.inj rest
      exact .inr (isUnder_iff.2 ⟨String.ofList more, by simp [← String.toList_inj, longer]⟩)
  have chars : dir.toList ++ '/' :: r.toList = dir'.toList ++ '/' :: s.toList := by
    simpa [String.append_assoc] using congrArg String.toList same
  rcases List.append_eq_append_iff.1 chars with ⟨more, longer, rest⟩ | ⟨more, longer, rest⟩
  · exact (side longer rest).imp_right .inl
  · rcases side longer rest with rfl | under
    · exact .inl rfl
    · exact .inr (.inr under)

/-! ## Which file a handle is on -/

namespace MemTree

variable {t : MemTree} {path : String}

theorem mem_names : path ∈ t.names ↔ path ∈ t.files ∨ path ∈ t.dirs := by
  rw [names, List.mem_append, AList.mem_keys]

theorem isDir_eq_false : t.isDir path = false ↔ path ≠ "" ∧ path ∉ t.dirs ∧ ∀ name ∈ t.names, isUnder path name = false := by
  simp [isDir, and_assoc]

/-- No path is both a file and a directory. -/
def Apart (t : MemTree) : Prop := ∀ path ∈ t.files, t.isDir path = false

/-- The moves of a rename, file by file. -/
def movesOf (t : MemTree) (orders : Orders) (src dest : String) : List (String × String) :=
  if src ∈ t.files then [(src, dest)] else if t.isDir src then t.moves orders src dest else []

/-- A move to a path that no handle points at, and that is neither a directory nor below a file once the file
is gone from where it was. -/
structure Moves (t : MemTree) (move : String × String) : Prop where
  free : move.1 = move.2 ∨ ∀ h, t.handles.lookup h ≠ some move.2
  dir : move.2 ≠ "" ∧ move.2 ∉ t.dirs
  empty : ∀ name ∈ t.names, name ≠ move.1 → isUnder move.2 name = false
  above : ∀ file ∈ t.files, file ≠ move.1 → isUnder file move.2 = false

end MemTree

/-- A tree with the identity of each file, and of the file each handle was opened on. -/
structure Held where
  tree : MemTree
  /-- The file at a path. -/
  file : String → Option Nat
  /-- How many files there have been. -/
  made : Nat
  /-- The file a handle was opened on. -/
  opened : Nat → Option Nat

namespace Held

/-- A tree before any operation. -/
def start (t : MemTree) : Held where
  tree := t
  file path := if path ∈ t.files then some (t.files.keys.idxOf path) else none
  made := t.files.keys.length
  opened _ := none

/-- A file goes from one path to another. -/
def moved (file : String → Option Nat) (move : String × String) : String → Option Nat :=
  Function.update (Function.update file move.1 none) move.2 (file move.1)

variable (x : Held)

/-- The tree is replaced, and a file at a path that had none is a new one. -/
def found (tree : MemTree) (path : String) : Held :=
  if path ∈ x.tree.files ∨ path ∉ tree.files then { x with tree }
  else { x with tree, file := Function.update x.file path (some x.made), made := x.made + 1 }

/-- An operation, with the orders it goes through the tree in. -/
def step (act : Orders × FsOp) : Held :=
  let (result, tree) := x.tree.handle act.1 act.2
  match act.2 with
  | .open path _ _ _ =>
    let x := x.found tree path
    match result with
    | .ok (.opened o) => { x with opened := Function.update x.opened o.handle (x.file path) }
    | _ => x
  | .write handle _ _ | .setSize handle _ =>
    match x.tree.handles.lookup handle with
    | some path => x.found tree path
    | none => { x with tree }
  | .unlink path => { x with tree, file := Function.update x.file path none }
  | .rename src dest => { x with tree, file := (x.tree.movesOf act.1 src dest).foldl moved x.file }
  | _ => { x with tree }

/-- No path is a file and a directory, and what an open handle points at is the file it was opened on or no
file, wherever that file is now. -/
structure Sound : Prop where
  apart : x.tree.Apart
  addressed : ∀ handle path, x.tree.handles.lookup handle = some path →
    ∀ p ∈ x.tree.files, x.opened handle = x.file p ↔ p = path

/-- An operation that fails changes nothing, and one through a handle makes no file. -/
structure Faithful (act : Orders × FsOp) : Prop where
  failed : ∀ e, (x.tree.handle act.1 act.2).1 = .error e →
    (x.tree.handle act.1 act.2).2.files = x.tree.files ∧ (x.tree.handle act.1 act.2).2.dirs = x.tree.dirs ∧
      (x.tree.handle act.1 act.2).2.dirty = x.tree.dirty ∧ (x.tree.handle act.1 act.2).2.renames = x.tree.renames
  unrevived : ∀ handle, act.2.handle? = some handle →
    ∀ path ∈ (x.tree.handle act.1 act.2).2.files, path ∈ x.tree.files

/-- What an operation must not do: make a file or a directory below a file, make or move a file to where
a handle points or a directory is, move a directory into itself, and write through a handle whose file is gone. -/
def Careful (act : Orders × FsOp) : Prop :=
  match act.2 with
  | .open path create _ _ => create = true → path ∉ x.tree.files → x.tree.isDir path = false →
      (∀ file ∈ x.tree.files, isUnder file path = false) ∧ ∀ h, x.tree.handles.lookup h ≠ some path
  | .write handle _ _ => ∀ path, x.tree.handles.lookup handle = some path → path ∈ x.tree.files
  | .setSize handle size => asUsize size ≤ MAX_FILE →
      ∀ path, x.tree.handles.lookup handle = some path → path ∈ x.tree.files
  | .mkdir path => path ∉ x.tree.files → x.tree.isDir path = false → ∀ file ∈ x.tree.files, isUnder file path = false
  | .rename src dest =>
    if src ∈ x.tree.files then x.tree.Moves (src, dest)
    else x.tree.isDir src = true →
      (src = dest ∨ isUnder src dest = false ∧ isUnder dest src = false) ∧
      (∀ rest, src ++ "/" ++ rest ∈ x.tree.files → x.tree.Moves (src ++ "/" ++ rest, dest ++ "/" ++ rest)) ∧
      (src ∈ x.tree.dirs → dest ∉ x.tree.files ∧ ∀ file ∈ x.tree.files, isUnder file dest = false) ∧
      (∀ rest, src ++ "/" ++ rest ∈ x.tree.dirs →
        dest ++ "/" ++ rest ∉ x.tree.files ∧ ∀ file ∈ x.tree.files, isUnder file (dest ++ "/" ++ rest) = false)
  | _ => True

variable {x}

/-- What every operation keeps of the identities. -/
structure Kept (x : Held) : Prop where
  sound : x.Sound
  known : ∀ path, path ∈ x.tree.files ↔ ∃ i, x.file path = some i
  one : ∀ p q i, x.file p = some i → x.file q = some i → p = q
  below : ∀ p i, x.file p = some i → i < x.made
  since : ∀ h i, x.opened h = some i → i < x.made

theorem Kept.eq_of_file (kept : x.Kept) {p q : String} (here : p ∈ x.tree.files) (same : x.file p = x.file q) : p = q := by
  obtain ⟨i, at_⟩ := (kept.known p).1 here
  exact kept.one p q i at_ (same ▸ at_)

/-- The files stay, a directory that is new is no file and below none, and no handle is new. -/
theorem Kept.stays (kept : x.Kept) {tree : MemTree} (files : ∀ p, p ∈ tree.files ↔ p ∈ x.tree.files)
    (dirs : ∀ d ∈ tree.dirs, d ∈ x.tree.dirs ∨ d ∉ x.tree.files ∧ ∀ file ∈ x.tree.files, isUnder file d = false)
    (handles : ∀ h path, tree.handles.lookup h = some path → x.tree.handles.lookup h = some path) :
    ({ x with tree } : Held).Kept := by
  refine ⟨⟨fun path here => ?_, fun h path held p here => ?_⟩, fun p => (files p).trans (kept.known p), kept.one, kept.below, kept.since⟩
  · have here' := (files path).1 here
    obtain ⟨root, dir, empty⟩ := MemTree.isDir_eq_false.1 (kept.sound.apart path here')
    refine MemTree.isDir_eq_false.2 ⟨root, fun made => ?_, fun name member => ?_⟩
    · rcases dirs path made with old | ⟨absent, -⟩
      · exact dir old
      · exact absent here'
    · rcases MemTree.mem_names.1 member with file | made
      · exact empty name (MemTree.mem_names.2 (.inl ((files name).1 file)))
      · rcases dirs name made with old | ⟨-, above⟩
        · exact empty name (MemTree.mem_names.2 (.inr old))
        · exact above path here'
  · exact kept.sound.addressed h path (handles h path held) p ((files p).1 here)

/-- A new file, where no handle points and no directory is, and below no file. -/
theorem Kept.makes (kept : x.Kept) (tree : MemTree) {path : String} (files : ∀ p, p ∈ tree.files ↔ p = path ∨ p ∈ x.tree.files)
    (dirs : tree.dirs = x.tree.dirs) (handles : tree.handles = x.tree.handles) (absent : path ∉ x.tree.files)
    (dir : x.tree.isDir path = false) (above : ∀ file ∈ x.tree.files, isUnder file path = false)
    (free : ∀ h, x.tree.handles.lookup h ≠ some path) : (x.found tree path).Kept := by
  have new : path ∈ tree.files := (files path).2 (.inl rfl)
  rw [found, if_neg (by simp [absent, new])]
  have other : ∀ p i, Function.update x.file path (some x.made) p = some i →
      p = path ∧ i = x.made ∨ p ≠ path ∧ x.file p = some i := by
    intro p i at_
    by_cases here : p = path
    · subst here
      rw [Function.update_self] at at_
      exact .inl ⟨rfl, (Option.some.inj at_).symm⟩
    · rw [Function.update_of_ne here] at at_
      exact .inr ⟨here, at_⟩
  obtain ⟨root, noDir, empty⟩ := MemTree.isDir_eq_false.1 dir
  refine ⟨⟨fun p here => ?_, fun h q held p here => ?_⟩, fun p => ?_, fun p q i at_ at' => ?_, fun p i at_ => ?_, fun h i at_ => ?_⟩
  · refine MemTree.isDir_eq_false.2 ?_
    rcases (files p).1 here with rfl | old
    · refine ⟨root, dirs ▸ noDir, fun name member => ?_⟩
      rcases MemTree.mem_names.1 member with file | made
      · rcases (files name).1 file with rfl | old
        · exact Bool.eq_false_iff.2 not_isUnder_self
        · exact empty name (MemTree.mem_names.2 (.inl old))
      · exact empty name (MemTree.mem_names.2 (.inr (dirs ▸ made)))
    · obtain ⟨root', noDir', empty'⟩ := MemTree.isDir_eq_false.1 (kept.sound.apart p old)
      refine ⟨root', dirs ▸ noDir', fun name member => ?_⟩
      rcases MemTree.mem_names.1 member with file | made
      · rcases (files name).1 file with rfl | file
        · exact above p old
        · exact empty' name (MemTree.mem_names.2 (.inl file))
      · exact empty' name (MemTree.mem_names.2 (.inr (dirs ▸ made)))
  · have held' : x.tree.handles.lookup h = some q := handles ▸ held
    show x.opened h = Function.update x.file path (some x.made) p ↔ p = q
    by_cases here' : p = path
    · subst here'
      rw [Function.update_self]
      refine iff_of_false (fun at_ => ?_) fun same => free h (same ▸ held')
      exact Nat.lt_irrefl _ (kept.since h x.made at_)
    · rw [Function.update_of_ne here']
      exact kept.sound.addressed h q held' p (((files p).1 here).resolve_left here')
  · by_cases here : p = path
    · subst here
      exact iff_of_true new ⟨x.made, Function.update_self ..⟩
    · show _ ↔ ∃ i, Function.update x.file path (some x.made) p = some i
      rw [Function.update_of_ne here, ← kept.known, files]
      exact ⟨fun either => either.resolve_left here, .inr⟩
  · rcases other p i at_ with ⟨rfl, rfl⟩ | ⟨-, old⟩
    · rcases other q _ at' with ⟨rfl, -⟩ | ⟨-, old⟩
      · rfl
      · exact absurd (kept.below q _ old) (Nat.lt_irrefl _)
    · rcases other q i at' with ⟨-, rfl⟩ | ⟨-, old'⟩
      · exact absurd (kept.below p _ old) (Nat.lt_irrefl _)
      · exact kept.one p q i old old'
  · rcases other p i at_ with ⟨-, rfl⟩ | ⟨-, old⟩
    · exact Nat.lt_succ_self _
    · exact Nat.lt_succ_of_lt (kept.below p i old)
  · exact Nat.lt_succ_of_lt (kept.since h i at_)

/-- A handle is given out. -/
theorem Kept.opens (kept : x.Kept) (handle : Nat) (path : String) {tree : MemTree} (files : tree.files = x.tree.files)
    (dirs : tree.dirs = x.tree.dirs) (handles : tree.handles = x.tree.handles.insert handle path) :
    ({ x with tree, opened := Function.update x.opened handle (x.file path) } : Held).Kept := by
  refine ⟨⟨fun p here => ?_, fun h q held p here => ?_⟩, fun p => files ▸ kept.known p, kept.one, kept.below, fun h i at_ => ?_⟩
  · have apart := MemTree.isDir_eq_false.1 (kept.sound.apart p (files ▸ here))
    refine MemTree.isDir_eq_false.2 ⟨apart.1, dirs ▸ apart.2.1, fun name member => apart.2.2 name ?_⟩
    rw [MemTree.mem_names] at member ⊢
    exact files ▸ dirs ▸ member
  · have here' : p ∈ x.tree.files := files ▸ here
    rw [handles, Table.lookup_insert_eq] at held
    show Function.update x.opened handle (x.file path) h = x.file p ↔ p = q
    split at held
    · next same =>
        obtain rfl := Option.some.inj held
        subst same
        rw [Function.update_self]
        exact ⟨fun at_ => kept.eq_of_file here' at_.symm, fun same => same ▸ rfl⟩
    · next other =>
        rw [Function.update_of_ne other]
        exact kept.sound.addressed h q held p here'
  · have at' : Function.update x.opened handle (x.file path) h = some i := at_
    by_cases same : h = handle
    · subst same
      rw [Function.update_self] at at'
      exact kept.below path i at'
    · rw [Function.update_of_ne same] at at'
      exact kept.since h i at'

/-- A file is removed. -/
theorem Kept.drops (kept : x.Kept) (path : String) {tree : MemTree} (files : ∀ p, p ∈ tree.files ↔ p ≠ path ∧ p ∈ x.tree.files)
    (dirs : tree.dirs = x.tree.dirs) (handles : tree.handles = x.tree.handles) :
    ({ x with tree, file := Function.update x.file path none } : Held).Kept := by
  have other : ∀ p i, Function.update x.file path none p = some i → x.file p = some i := by
    intro p i at_
    by_cases here : p = path
    · simp [here] at at_
    · rwa [Function.update_of_ne here] at at_
  refine ⟨⟨fun p here => ?_, fun h q held p here => ?_⟩, fun p => ?_, fun p q i at_ at' => kept.one p q i (other p i at_) (other q i at'),
    fun p i at_ => kept.below p i (other p i at_), kept.since⟩
  · have apart := MemTree.isDir_eq_false.1 (kept.sound.apart p ((files p).1 here).2)
    refine MemTree.isDir_eq_false.2 ⟨apart.1, dirs ▸ apart.2.1, fun name member => apart.2.2 name ?_⟩
    rw [MemTree.mem_names] at member ⊢
    exact member.imp (fun file => ((files name).1 file).2) fun made => dirs ▸ made
  · obtain ⟨away, here'⟩ := (files p).1 here
    show x.opened h = Function.update x.file path none p ↔ p = q
    rw [Function.update_of_ne away]
    exact kept.sound.addressed h q (handles ▸ held) p here'
  · show _ ↔ ∃ i, Function.update x.file path none p = some i
    by_cases here : p = path
    · subst here
      simp [files]
    · rw [Function.update_of_ne here, ← kept.known, files]
      exact ⟨And.right, fun old => ⟨here, old⟩⟩

end Held

/-! ## Moves -/

namespace MemTree

variable {t : MemTree} {m m' : String × String}

theorem mem_moveFile_iff (here : m.1 ∈ t.files) {p : String} :
    p ∈ (t.moveFile m).files ↔ p = m.2 ∨ p ∈ t.files ∧ p ≠ m.1 := by
  obtain ⟨b, found⟩ := Table.mem_iff_lookup.1 here
  show p ∈ t.files.rekey m ↔ _
  rw [Table.mem_iff_lookup, Table.lookup_rekey found]
  split
  · next there => exact iff_of_true ⟨b, rfl⟩ (.inl there)
  · next apart =>
      split
      · next source =>
          refine iff_of_false nofun ?_
          rintro (there | ⟨-, away⟩)
          · exact apart there
          · exact away source
      · next other => simp [apart, other, Table.mem_iff_lookup]

theorem lookup_moveFile_handles (h : Nat) :
    (t.moveFile m).handles.lookup h = (t.handles.lookup h).map fun path => if path = m.1 then m.2 else path :=
  Table.lookup_mapValues ..

/-- Two moves that do not meet. -/
structure Clear (m m' : String × String) : Prop where
  source : m'.1 ≠ m.1
  onto : m'.1 ≠ m.2
  back : m'.2 ≠ m.1
  target : m'.2 ≠ m.2
  under : isUnder m'.2 m.2 = false
  above : isUnder m.2 m'.2 = false

/-- A move stays possible after one that it does not meet. -/
theorem Moves.after (moves : t.Moves m') (here : m.1 ∈ t.files) (clear : Clear m m') : (t.moveFile m).Moves m' where
  free := by
    refine moves.free.imp_right fun free h held => ?_
    rw [lookup_moveFile_handles] at held
    obtain ⟨path, was, same⟩ := Option.map_eq_some_iff.1 held
    split at same
    · exact clear.target same.symm
    · exact free h (same ▸ was)
  dir := moves.dir
  empty name member other := by
    rcases mem_names.1 member with file | made
    · rcases (mem_moveFile_iff here).1 file with rfl | ⟨old, -⟩
      · exact clear.under
      · exact moves.empty name (mem_names.2 (.inl old)) other
    · exact moves.empty name (mem_names.2 (.inr made)) other
  above file member other := by
    rcases (mem_moveFile_iff here).1 member with rfl | ⟨old, -⟩
    · exact clear.above
    · exact moves.above file old other

end MemTree

namespace Held

variable {x : Held}

theorem moved_apply {file : String → Option Nat} {m : String × String} {p : String} :
    moved file m p = if p = m.2 then file m.1 else if p = m.1 then none else file p := by
  simp only [moved, Function.update_apply]

/-- A file is moved. -/
theorem Kept.moves (kept : x.Kept) {m : String × String} (here : m.1 ∈ x.tree.files) (moves : x.tree.Moves m) :
    ({ x with tree := x.tree.moveFile m, file := moved x.file m } : Held).Kept := by
  have came : ∀ p i, moved x.file m p = some i → p = m.2 ∧ x.file m.1 = some i ∨ p ≠ m.2 ∧ p ≠ m.1 ∧ x.file p = some i := by
    intro p i at_
    rw [moved_apply] at at_
    split at at_
    · next there => exact .inl ⟨there, at_⟩
    · next apart =>
        split at at_
        · cases at_
        · next other => exact .inr ⟨apart, other, at_⟩
  refine ⟨⟨fun p member => ?_, fun h q held p member => ?_⟩, fun p => ?_, fun p q i at_ at' => ?_, fun p i at_ => ?_, kept.since⟩
  · refine MemTree.isDir_eq_false.2 ?_
    rcases (MemTree.mem_moveFile_iff here).1 member with rfl | ⟨old, apart⟩
    · refine ⟨moves.dir.1, moves.dir.2, fun name named => ?_⟩
      rcases MemTree.mem_names.1 named with file | made
      · rcases (MemTree.mem_moveFile_iff here).1 file with rfl | ⟨old, away⟩
        · exact Bool.eq_false_iff.2 not_isUnder_self
        · exact moves.empty name (MemTree.mem_names.2 (.inl old)) away
      · refine moves.empty name (MemTree.mem_names.2 (.inr made)) fun same => ?_
        exact (MemTree.isDir_eq_false.1 (kept.sound.apart m.1 here)).2.1 (same ▸ made)
    · obtain ⟨root, dir, empty⟩ := MemTree.isDir_eq_false.1 (kept.sound.apart p old)
      refine ⟨root, dir, fun name named => ?_⟩
      rcases MemTree.mem_names.1 named with file | made
      · rcases (MemTree.mem_moveFile_iff here).1 file with rfl | ⟨older, -⟩
        · exact moves.above p old apart
        · exact empty name (MemTree.mem_names.2 (.inl older))
      · exact empty name (MemTree.mem_names.2 (.inr made))
  · rw [MemTree.lookup_moveFile_handles] at held
    obtain ⟨was, held', rfl⟩ := Option.map_eq_some_iff.1 held
    have addressed := kept.sound.addressed h was held'
    show x.opened h = moved x.file m p ↔ _
    rw [moved_apply]
    by_cases there : p = m.2
    · rw [if_pos there, addressed m.1 here]
      split
      · next same => exact iff_of_true same.symm there
      · next other =>
          -- The handle points elsewhere, and not at the target either.
          refine iff_of_false (fun same => other same.symm) fun same => ?_
          rcases moves.free with self | free
          · exact other (same.symm.trans (there.trans self.symm))
          · exact free h (by rw [held', ← same, there])
    · obtain ⟨old, apart⟩ := ((MemTree.mem_moveFile_iff here).1 member).resolve_left there
      rw [if_neg there, if_neg apart, addressed p old]
      split
      · next same => exact iff_of_false (fun at_ => apart (at_.trans same)) there
      · rfl
  · show _ ↔ ∃ i, moved x.file m p = some i
    rw [MemTree.mem_moveFile_iff here, moved_apply]
    split
    · next there => exact iff_of_true (.inl there) ((kept.known m.1).1 here)
    · next apart =>
        split
        · next source =>
            refine iff_of_false ?_ nofun
            rintro (there | ⟨-, away⟩)
            · exact apart there
            · exact away source
        · next other =>
            rw [← kept.known]
            simp [apart, other]
  · rcases came p i at_ with ⟨rfl, old⟩ | ⟨-, away, old⟩
    · rcases came q i at' with ⟨rfl, -⟩ | ⟨-, away, old'⟩
      · rfl
      · exact absurd (kept.one q m.1 i old' old) away
    · rcases came q i at' with ⟨rfl, old'⟩ | ⟨-, -, old'⟩
      · exact absurd (kept.one p m.1 i old old') away
      · exact kept.one p q i old old'
  · rcases came p i at_ with ⟨-, old⟩ | ⟨-, -, old⟩
    · exact kept.below m.1 i old
    · exact kept.below p i old

/-- Files are moved one after another. -/
theorem Kept.movesAll : ∀ (moves : List (String × String)) {x : Held}, x.Kept → (∀ m ∈ moves, m.1 ∈ x.tree.files ∧ x.tree.Moves m) →
    moves.Pairwise MemTree.Clear →
      ({ x with tree := moves.foldl MemTree.moveFile x.tree, file := moves.foldl moved x.file } : Held).Kept
  | [], _, kept, _, _ => kept
  | m :: moves, x, kept, possible, clear => by
    obtain ⟨first, rest⟩ := List.pairwise_cons.1 clear
    obtain ⟨here, free⟩ := possible m List.mem_cons_self
    refine Kept.movesAll moves (x := { x with tree := x.tree.moveFile m, file := moved x.file m }) (kept.moves here free)
      (fun m' member => ?_) rest
    obtain ⟨here', free'⟩ := possible m' (List.mem_cons_of_mem _ member)
    exact ⟨(MemTree.mem_moveFile_iff here).2 (.inr ⟨here', (first m' member).source⟩), free'.after here (first m' member)⟩

end Held

namespace MemTree

variable {t : MemTree} {orders : Orders} {src dest : String}

theorem mem_moves {m : String × String} (member : m ∈ t.moves orders src dest) :
    ∃ rest, m = (src ++ "/" ++ rest, dest ++ "/" ++ rest) ∧ src ++ "/" ++ rest ∈ t.files := by
  obtain ⟨old, listed, found⟩ := List.mem_filterMap.1 member
  obtain ⟨rest, stripped, rfl⟩ := Option.map_eq_some_iff.1 found
  rw [stripPrefix_eq_some] at stripped
  subst stripped
  exact ⟨rest, rfl, AList.mem_keys.1 (mem_arrange.1 listed)⟩

/-- The moves of a directory's rename do not meet, unless one directory is in the other. -/
theorem moves_clear (apart : t.Apart) (nested : src = dest ∨ isUnder src dest = false ∧ isUnder dest src = false) :
    (t.moves orders src dest).Pairwise Clear := by
  have sources : (t.moves orders src dest).Pairwise fun m m' => m.1 ≠ m'.1 :=
    List.pairwise_map.1 (t.moves_sound orders src dest).2
  refine sources.imp_of_mem fun {m m'} member member' differ => ?_
  obtain ⟨r, rfl, file⟩ := mem_moves member
  obtain ⟨s, rfl, file'⟩ := mem_moves member'
  have rests : r ≠ s := fun same => differ (same ▸ rfl)
  have across : ∀ {a b : String}, a ≠ b → src ++ "/" ++ a ≠ dest ++ "/" ++ b := by
    intro a b other same
    rcases nested with rfl | ⟨outside, inside⟩
    · exact other (below_inj.1 same)
    · rcases below_both same with rfl | under | under
      · exact other (below_inj.1 same)
      · simp [outside] at under
      · simp [inside] at under
  have level : ∀ {a b : String}, src ++ "/" ++ a ∈ t.files → src ++ "/" ++ b ∈ t.files →
      isUnder (dest ++ "/" ++ a) (dest ++ "/" ++ b) = false := by
    intro a b here there
    have free := (isDir_eq_false.1 (apart _ here)).2.2 _ (mem_names.2 (.inl there))
    rw [Bool.eq_false_iff, Ne, isUnder_below] at free ⊢
    exact free
  exact ⟨differ.symm, across rests.symm, (across rests).symm, fun same => rests (below_inj.1 same).symm, level file' file, level file file'⟩

@[simp] theorem moveFiles_dirs : ∀ (moves : List (String × String)) (t : MemTree), (moves.foldl moveFile t).dirs = t.dirs
  | [], _ => rfl
  | m :: moves, t => moveFiles_dirs moves (t.moveFile m)

theorem mem_moveFiles {p : String} : ∀ (moves : List (String × String)) {t : MemTree},
    p ∈ (moves.foldl moveFile t).files → p ∈ t.files ∨ ∃ m ∈ moves, p = m.2
  | [], _, here => .inl here
  | m :: moves, t, here => by
    rcases mem_moveFiles moves here with first | ⟨m', member, rfl⟩
    · obtain ⟨b, found⟩ := Table.mem_iff_lookup.1 first
      rcases Table.of_lookup_rekey found with ⟨rfl, -⟩ | ⟨-, -, old⟩
      · exact .inr ⟨m, List.mem_cons_self, rfl⟩
      · exact .inl (Table.mem_of_lookup old)
    · exact .inr ⟨m', List.mem_cons_of_mem _ member, rfl⟩

/-- A directory after a directory's rename was there, or is where one of those renamed goes. -/
theorem mem_moveDirs {d : String} : ∀ {olds dirs : List String},
    (∀ old ∈ olds, old = src ∨ ∃ rest, old = src ++ "/" ++ rest) → d ∈ olds.foldl (moveDir src dest) dirs →
      d ∈ dirs ∨ (src ∈ olds ∧ d = dest) ∨ ∃ rest, src ++ "/" ++ rest ∈ olds ∧ d = dest ++ "/" ++ rest
  | [], _, _, here => .inl here
  | old :: olds, dirs, within, here => by
    rcases mem_moveDirs (fun o member => within o (List.mem_cons_of_mem _ member)) here with first | ⟨own, rfl⟩ | ⟨rest, under, rfl⟩
    · rcases List.mem_insert_iff.1 first with rfl | kept
      · split
        · next own => exact .inr (.inl ⟨own ▸ List.mem_cons_self, rfl⟩)
        · next other =>
            obtain ⟨rest, rfl⟩ := (within old List.mem_cons_self).resolve_left other
            refine .inr (.inr ⟨rest, List.mem_cons_self, ?_⟩)
            rw [stripPrefix_eq_some.2 rfl, Option.getD_some]
      · exact .inl (List.mem_filter.1 kept).1
    · exact .inr (.inl ⟨List.mem_cons_of_mem _ own, rfl⟩)
    · exact .inr (.inr ⟨rest, List.mem_cons_of_mem _ under, rfl⟩)

end MemTree

namespace Held

variable {x : Held}

theorem Kept.renames (kept : x.Kept) {orders : Orders} {src dest : String} (careful : x.Careful (orders, .rename src dest)) :
    (x.step (orders, .rename src dest)).Kept := by
  simp only [Careful] at careful
  simp only [step, MemTree.handle, MemTree.rename, MemTree.movesOf]
  by_cases file : src ∈ x.tree.files
  · simp only [if_pos file] at careful ⊢
    exact kept.moves file careful
  · simp only [if_neg file] at careful ⊢
    by_cases dir : x.tree.isDir src = true
    · simp only [if_pos dir]
      obtain ⟨nested, possible, own, under⟩ := careful dir
      have moved := kept.movesAll (x.tree.moves orders src dest) (fun m member => by
        obtain ⟨rest, rfl, here⟩ := MemTree.mem_moves member
        exact ⟨here, possible rest here⟩) (MemTree.moves_clear kept.sound.apart nested)
      refine moved.stays (fun _ => .rfl) (fun d here => ?_) fun _ _ held => held
      have within : ∀ old ∈ arrange orders.dirs (((x.tree.moves orders src dest).foldl MemTree.moveFile x.tree).dirs.filter
          fun d => d = src || (stripPrefix (src ++ "/") d).isSome), old ∈ x.tree.dirs ∧ (old = src ∨ ∃ rest, old = src ++ "/" ++ rest) := by
        intro old listed
        obtain ⟨made, named⟩ := List.mem_filter.1 (mem_arrange.1 listed)
        refine ⟨by simpa using made, ?_⟩
        simpa [Option.isSome_iff_exists, stripPrefix_eq_some] using named
      -- Where a renamed directory goes, no file is, and no file is above.
      have goes : ∀ d', (d' ∉ x.tree.files ∧ ∀ file ∈ x.tree.files, isUnder file d' = false) →
          (∀ rest, src ++ "/" ++ rest ∈ x.tree.files → dest ++ "/" ++ rest ≠ d' ∧ isUnder (dest ++ "/" ++ rest) d' = false) →
            d' ∉ ((x.tree.moves orders src dest).foldl MemTree.moveFile x.tree).files ∧
              ∀ file ∈ ((x.tree.moves orders src dest).foldl MemTree.moveFile x.tree).files, isUnder file d' = false := by
        intro d' old new
        refine ⟨fun here => ?_, fun f here => ?_⟩
        · rcases MemTree.mem_moveFiles _ here with stays | ⟨m, member, rfl⟩
          · exact old.1 stays
          · obtain ⟨rest, rfl, there⟩ := MemTree.mem_moves member
            exact (new rest there).1 rfl
        · rcases MemTree.mem_moveFiles _ here with stays | ⟨m, member, rfl⟩
          · exact old.2 f stays
          · obtain ⟨rest, rfl, there⟩ := MemTree.mem_moves member
            exact (new rest there).2
      rcases MemTree.mem_moveDirs (fun old listed => (within old listed).2) here with stays | ⟨listed, rfl⟩ | ⟨rest, listed, rfl⟩
      · exact .inl stays
      · refine .inr (goes _ (own (within _ listed).1) fun rest there => ⟨fun same => ?_, Bool.eq_false_iff.2 fun above => ?_⟩)
        · exact not_isUnder_self (isUnder_iff.2 ⟨rest, same.symm⟩)
        · exact not_isUnder_self (isUnder_trans isUnder_dir above)
      · have made := (within _ listed).1
        refine .inr (goes _ (under rest made) fun rest' there => ?_)
        obtain ⟨-, apart, empty⟩ := MemTree.isDir_eq_false.1 (kept.sound.apart _ there)
        refine ⟨fun same => apart (below_inj.1 same ▸ made), ?_⟩
        have level := empty _ (MemTree.mem_names.2 (.inr made))
        rw [Bool.eq_false_iff, Ne, isUnder_below] at level ⊢
        exact level
    · simp only [if_neg dir, List.foldl_nil]
      exact kept

/-- A write through a handle on a file leaves the same files. -/
theorem mem_store {t : MemTree} {path : String} {b : Bytes} (here : path ∈ t.files) {p : String} :
    p ∈ (t.store path b).files ↔ p ∈ t.files := by
  show p ∈ t.files.insert path b ↔ _
  rw [AList.mem_insert]
  exact or_iff_right_of_imp fun same => same ▸ here

theorem found_of_mem {tree : MemTree} {path : String} (here : path ∈ x.tree.files) : x.found tree path = { x with tree } := by
  rw [found, if_pos (.inl here)]

theorem Kept.opening (kept : x.Kept) {orders : Orders} {path : String} {create truncate exclusive : Bool}
    (careful : x.Careful (orders, .open path create truncate exclusive)) :
    (x.step (orders, .open path create truncate exclusive)).Kept := by
  simp only [step, MemTree.handle]
  rcases x.tree.open_cases path create truncate exclusive with ⟨e, failed⟩ | ⟨⟨handle, kind, size⟩, u, opened, given, state⟩
  · rw [failed, found, if_pos (by tauto)]
    exact kept
  · obtain rfl : handle = x.tree.nextHandle := given
    rw [opened]
    dsimp only
    rcases state with ⟨rfl, there⟩ | ⟨rfl, here⟩ | ⟨rfl, creates, absent, dir⟩
    · rw [found, if_pos (by tauto)]
      exact kept.opens x.tree.nextHandle path rfl rfl rfl
    · have emptied : ({ x with tree := x.tree.store path [] } : Held).Kept :=
        kept.stays (fun _ => mem_store here) (fun _ => .inl) fun _ _ held => held
      rw [found_of_mem here]
      exact emptied.opens x.tree.nextHandle path rfl rfl rfl
    · obtain ⟨above, free⟩ := careful creates absent dir
      have made := kept.makes (x.tree.store path []) (fun _ => AList.mem_insert x.tree.files) rfl rfl absent dir above free
      have stored : path ∈ (x.tree.store path []).files := (AList.mem_insert x.tree.files).2 (.inl rfl)
      rw [found, if_neg (by simp [absent, stored])] at made ⊢
      exact made.opens x.tree.nextHandle path rfl rfl rfl

theorem Kept.step (kept : x.Kept) {act : Orders × FsOp} (careful : x.Careful act) : (x.step act).Kept := by
  obtain ⟨orders, op⟩ := act
  -- A change of bytes at a file, or none.
  have stays : ∀ path b, path ∈ x.tree.files → (x.found (x.tree.store path b) path).Kept := by
    intro path b here
    rw [found_of_mem here]
    exact kept.stays (fun _ => mem_store here) (fun _ => .inl) fun _ _ held => held
  have same : ∀ path, (x.found x.tree path).Kept := by
    intro path
    rw [found, if_pos (by tauto)]
    exact kept
  cases op with
  | getattr path => exact kept
  | readdir path => exact kept
  | «open» path create truncate exclusive => exact kept.opening careful
  | read handle offset len => exact kept
  | write handle offset data =>
    simp only [Held.step, MemTree.handle]
    cases held : x.tree.handles.lookup handle with
    | none =>
      simp only [MemTree.write, held]
      exact kept
    | some path =>
      have here := careful path held
      simp only [MemTree.write_cases held]
      split
      · rw [MemTree.entry_of_mem here]
        exact same path
      · exact stays path _ here
  | release handle =>
    refine kept.stays (fun _ => .rfl) (fun _ => .inl) fun h path held => ?_
    simp only [Table.lookup_erase_eq] at held
    split at held
    · cases held
    · exact held
  | setSize handle size =>
    simp only [Held.step, MemTree.handle]
    cases held : x.tree.handles.lookup handle with
    | none =>
      simp only [MemTree.setSize, held]
      exact kept
    | some path =>
      simp only [MemTree.setSize_cases held]
      split
      · exact same path
      · next small => exact stays path _ (careful (not_lt.1 small) path held)
  | mkdir path =>
    simp only [Held.step, MemTree.handle, MemTree.mkdir]
    split
    · exact kept
    · next absent =>
        have free : path ∉ x.tree.files ∧ x.tree.isDir path = false := by simpa using absent
        refine kept.stays (fun _ => .rfl) (fun d made => ?_) fun _ _ held => held
        rcases List.mem_insert_iff.1 made with rfl | old
        · exact .inr ⟨free.1, careful free.1 free.2⟩
        · exact .inl old
  | unlink path =>
    simp only [Held.step, MemTree.handle, MemTree.unlink]
    split
    · exact kept.drops path (fun _ => AList.mem_erase) rfl rfl
    · next absent => exact kept.drops path (fun p => (and_iff_right_of_imp fun here => fun same => absurd (same ▸ here) absent).symm) rfl rfl
  | rmdir path =>
    simp only [Held.step, MemTree.handle, MemTree.rmdir]
    split
    · exact kept
    · split
      · exact kept
      · split
        · exact kept
        · exact kept.stays (fun _ => .rfl) (fun d made => .inl (List.mem_filter.1 made).1) fun _ _ held => held
  | rename src dest => exact kept.renames careful

theorem faithful_of_careful {act : Orders × FsOp} (careful : x.Careful act) : x.Faithful act := by
  obtain ⟨orders, op⟩ := act
  have same : ∀ {tree : MemTree}, tree = x.tree → tree.files = x.tree.files ∧ tree.dirs = x.tree.dirs ∧
      tree.dirty = x.tree.dirty ∧ tree.renames = x.tree.renames := fun eq => eq ▸ ⟨rfl, rfl, rfl, rfl⟩
  constructor
  · intro e failed
    apply same
    cases op <;> simp only [MemTree.handle] at failed ⊢
    case «open» path create truncate exclusive =>
      rcases x.tree.open_cases path create truncate exclusive with ⟨e', same⟩ | ⟨o, u, opened, -⟩
      · rw [same]
      · rw [opened] at failed
        cases failed
    case write handle offset data =>
      cases held : x.tree.handles.lookup handle with
      | none => simp only [MemTree.write, held]
      | some path =>
        rw [MemTree.write_cases held] at failed ⊢
        split at failed
        · next large =>
            rw [if_pos large]
            exact MemTree.entry_of_mem (careful path held)
        · cases failed
    case release => cases failed
    case setSize handle size =>
      cases held : x.tree.handles.lookup handle with
      | none => simp only [MemTree.setSize, held]
      | some path =>
        rw [MemTree.setSize_cases held] at failed ⊢
        split at failed
        · next large => rw [if_pos large]
        · cases failed
    case mkdir path =>
      simp only [MemTree.mkdir] at failed ⊢
      split at failed
      · next here => rw [if_pos here]
      · cases failed
    case unlink path =>
      simp only [MemTree.unlink] at failed ⊢
      split at failed
      · cases failed
      · next absent => rw [if_neg absent]
    case rmdir path =>
      simp only [MemTree.rmdir] at failed ⊢
      split at failed
      · next file => rw [if_pos file]
      · next file =>
          rw [if_neg file]
          split at failed
          · next absent => rw [if_pos absent]
          · next dir =>
              rw [if_neg dir]
              split at failed
              · next some' => rw [if_pos some']
              · cases failed
    case rename src dest =>
      simp only [MemTree.rename] at failed ⊢
      split at failed
      · cases failed
      · next file =>
          rw [if_neg file]
          split at failed
          · cases failed
          · next dir => rw [if_neg dir]
  · intro handle carried path here
    cases op <;> simp only [FsOp.handle?, Option.some.injEq, reduceCtorEq] at carried
    case read => exact here
    case release => exact here
    case write h offset data =>
      subst carried
      simp only [MemTree.handle] at here
      cases held : x.tree.handles.lookup h with
      | none => simpa only [MemTree.write, held] using here
      | some path' =>
        rw [MemTree.write_cases held] at here
        split at here
        · rwa [MemTree.entry_of_mem (careful path' held)] at here
        · exact (mem_store (careful path' held)).1 here
    case setSize h size =>
      subst carried
      simp only [MemTree.handle] at here
      cases held : x.tree.handles.lookup h with
      | none => simpa only [MemTree.setSize, held] using here
      | some path' =>
        rw [MemTree.setSize_cases held] at here
        split at here
        · exact here
        · next small => exact (mem_store (careful (not_lt.1 small) path' held)).1 here

theorem kept_start {t : MemTree} (apart : t.Apart) (closed : t.handles = ∅) : (start t).Kept := by
  have known : ∀ p i, (start t).file p = some i → p ∈ t.files.keys ∧ i = t.files.keys.idxOf p := by
    intro p i at_
    simp only [start] at at_
    split at at_
    · next here => exact ⟨AList.mem_keys.2 here, (Option.some.inj at_).symm⟩
    · cases at_
  refine ⟨⟨apart, fun h path held => ?_⟩, fun p => ?_, fun p q i at_ at' => ?_, fun p i at_ => ?_, nofun⟩
  · have none' : t.handles.lookup h = some path := held
    rw [closed] at none'
    cases none'
  · simp only [start]
    split
    · next here => exact iff_of_true here ⟨_, rfl⟩
    · next absent => exact iff_of_false absent nofun
  · obtain ⟨here, rfl⟩ := known p i at_
    obtain ⟨-, same⟩ := known q _ at'
    exact (List.idxOf_inj here).1 same
  · obtain ⟨here, rfl⟩ := known p i at_
    exact List.idxOf_lt_length_of_mem here

/-- A tree in which no path is a file and a directory stays one under careful operations, its handles stay on their
files, its errors change nothing, and no handle brings a name back. -/
theorem served_sound {t : MemTree} (apart : t.Apart) (closed : t.handles = ∅) {acts : List (Orders × FsOp)}
    (run : Along step Careful (start t) acts) :
    (∀ done, done <+: acts → (done.foldl step (start t)).Sound) ∧
      ∀ done act, done ++ [act] <+: acts → (done.foldl step (start t)).Faithful act := by
  constructor
  · rintro done ⟨rest, rfl⟩
    exact (run.append.1.keeps (fun _ _ careful kept => kept.step careful) (kept_start apart closed)).sound
  · rintro done act ⟨rest, rfl⟩
    exact faithful_of_careful run.append.1.append.2.1

/-! ## Poles -/

section Poles

def sample : MemTree := { files := (AList.insert "b" [2] (AList.insert "a" [1] ∅)) }

theorem sample_apart : sample.Apart := by
  have all : ∀ path ∈ sample.files.keys, sample.isDir path = false := by decide +kernel
  exact fun path here => all path (AList.mem_keys.1 here)

def opens (path : String) (create : Bool) : Orders × FsOp := ({}, .open path create false false)
def renames (src dest : String) : Orders × FsOp := ({}, .rename src dest)
def writes (offset : Nat) : Orders × FsOp := ({}, .write 1 offset [9])
def unlinks (path : String) : Orders × FsOp := ({}, .unlink path)

/-- A file is opened, renamed, written through the handle, and unlinked. -/
def edited : List (Orders × FsOp) := [opens "a" false, renames "a" "c", writes 0, unlinks "c"]

theorem edited_careful : Along step Careful (start sample) edited := by
  refine ⟨nofun, ?_, fun path held => ?_, trivial, trivial⟩
  · have handles : ∀ h, ((start sample).step (opens "a" false)).tree.handles.lookup h = if h = 1 then some "a" else none := fun h =>
      Table.lookup_insert_eq ∅ 1 h "a"
    have above : ∀ file ∈ ((start sample).step (opens "a" false)).tree.files.keys, file ≠ "a" → isUnder file "c" = false := by decide +kernel
    have here : "a" ∈ ((start sample).step (opens "a" false)).tree.files := by decide +kernel
    simp only [Careful, renames, if_pos here]
    refine ⟨.inr fun h held => ?_, ⟨by decide, by decide +kernel⟩, by decide +kernel, fun file here => above file (AList.mem_keys.1 here)⟩
    rw [handles] at held
    split at held
    · exact absurd (Option.some.inj held) (by decide)
    · cases held
  · have held' : some "c" = some path := held
    obtain rfl := Option.some.inj held'
    decide +kernel

theorem served_sound_edited : (edited.foldl step (start sample)).Sound ∧
    ((edited.take 3).foldl step (start sample)).tree.files.lookup "c" = some [9] :=
  ⟨(served_sound sample_apart rfl edited_careful).1 edited List.prefix_rfl, by decide +kernel⟩

/-- A file below a file; an unlinked file that a write brings back, and that its refusal brings back; a handle that
is on another file once that is renamed over its own. -/
theorem tree_breaks : sample.Apart ∧ sample.handles = ∅ ∧
    ¬ ([opens "a/x" true].foldl step (start sample)).Sound ∧
      ¬ ([opens "a" false, unlinks "a"].foldl step (start sample)).Faithful (writes 0) ∧
        ¬ ([opens "a" false, unlinks "a"].foldl step (start sample)).Faithful (writes MAX_FILE) ∧
          ¬ ([opens "b" false, renames "a" "b"].foldl step (start sample)).Sound := by
  refine ⟨sample_apart, rfl, fun sound => ?_, fun faithful => ?_, fun faithful => ?_, fun sound => ?_⟩
  · exact absurd (sound.apart "a" (by decide +kernel)) (by decide +kernel)
  · exact absurd (faithful.unrevived 1 rfl "a" (by decide +kernel)) (by decide +kernel)
  · have files := (faithful.failed .tooLarge (by decide +kernel)).1
    exact absurd (congrArg (fun t => t.lookup "a") files) (by decide +kernel)
  · exact absurd (sound.addressed 1 "b" (by decide +kernel) "b" (by decide +kernel)) (by decide +kernel)

end Poles

end Held

end Wk.Automergefs
