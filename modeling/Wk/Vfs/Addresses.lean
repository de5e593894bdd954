/-
# Wk.Vfs.Addresses -- where the nodes stand

The address of a node is a list of names that leads to it from the root, a directory at a
time and across no link.  A directory has one address (`Shaped.address_unique`); a file
may have several.  A new node adds one address (`address_enter`).  Taking entries out of a
directory with everything they reach takes a whole region of addresses, and with it just
the nodes that had one there (`felled_of_dropped`).
-/
import Wk.Vfs.Paths
import Wk.Vfs.HostMoves
import Wk.Library.PathTree

namespace Wk.Vfs

open Wk.Library Relation

set_option autoImplicit false

namespace Fs

variable {fs : Fs}

/-- Where the names lead from `cur` down. -/
def descend (fs : Fs) : Nat → List String → Option Nat
  | cur, [] => some cur
  | cur, name :: rest => (fs.child cur name).bind fun next => fs.descend next rest

/-- Where the names lead from the root. -/
def address (fs : Fs) (names : List String) : Option Nat := fs.descend root names

theorem descend_append : ∀ (names more : List String) (cur : Nat),
    fs.descend cur (names ++ more) = (fs.descend cur names).bind fun mid => fs.descend mid more
  | [], more, cur => rfl
  | name :: names, more, cur => by
    simp only [List.cons_append, descend]
    cases fs.child cur name with
    | none => rfl
    | some next => exact descend_append names more next

theorem descend_concat {cur : Nat} {names : List String} {k : String} :
    fs.descend cur (names ++ [k]) = (fs.descend cur names).bind fun d => fs.child d k := by
  rw [descend_append]
  cases fs.descend cur names with
  | none => rfl
  | some d =>
    simp only [Option.bind_some, descend]
    cases fs.child d k <;> rfl

theorem address_append (names more : List String) :
    fs.address (names ++ more) = (fs.address names).bind fun mid => fs.descend mid more :=
  descend_append names more root

theorem address_concat {names : List String} {k : String} :
    fs.address (names ++ [k]) = (fs.address names).bind fun d => fs.child d k := descend_concat

theorem address_concat_some {names : List String} {k : String} {x : Nat} :
    fs.address (names ++ [k]) = some x ↔ ∃ d, fs.address names = some d ∧ fs.child d k = some x := by
  rw [address_concat, Option.bind_eq_some_iff]

theorem reaches_descend : ∀ {names : List String} {cur x : Nat},
    fs.descend cur names = some x → fs.Reaches cur x
  | [], cur, x, leads => by
    cases leads
    exact .refl
  | name :: names, cur, x, leads => by
    obtain ⟨next, entry, onward⟩ := Option.bind_eq_some_iff.1 leads
    exact .head ⟨name, entry⟩ (reaches_descend onward)

theorem descend_of_reaches {cur x : Nat} (path : fs.Reaches cur x) : ∃ names, fs.descend cur names = some x := by
  induction path with
  | refl => exact ⟨[], rfl⟩
  | tail _ last ih =>
    obtain ⟨names, leads⟩ := ih
    obtain ⟨k, entry⟩ := last
    refine ⟨names ++ [k], ?_⟩
    rw [descend_concat, leads]
    exact entry

namespace Shaped

/-- A directory has one address. -/
theorem address_unique (shaped : fs.Shaped) {p q : List String} {d : Nat} (isDir : fs.isDir d = true)
    (here : fs.address p = some d) (there : fs.address q = some d) : p = q := by
  induction p using List.reverseRecOn generalizing q d with
  | nil =>
    cases here
    rcases List.eq_nil_or_concat' q with rfl | ⟨q, k, rfl⟩
    · rfl
    · obtain ⟨_, _, entry⟩ := address_concat_some.1 there
      exact absurd entry shaped.rootFree
  | append_singleton p k ih =>
    obtain ⟨parent, up, entry⟩ := address_concat_some.1 here
    rcases List.eq_nil_or_concat' q with rfl | ⟨q, k', rfl⟩
    · cases there
      exact absurd entry shaped.rootFree
    · obtain ⟨parent', up', entry'⟩ := address_concat_some.1 there
      obtain ⟨rfl, rfl⟩ := shaped.once isDir entry entry'
      rw [ih (isDir_of_child entry) up up']

end Shaped

/-! ## A new node -/

section Enter

variable {p : Nat} {name : String} {node : FsNode} {at_ : List String}

/-- A new node adds one address. -/
theorem address_enter (shaped : fs.Shaped) (leaf : Childless node) (isDir : fs.isDir p = true)
    (here : fs.address at_ = some p) (free : fs.child p name = none) (q : List String) :
    (fs.enter p name node).address q = if q = at_ ++ [name] then some fs.next else fs.address q := by
  induction q using List.reverseRecOn with
  | nil => rw [if_neg (by simp)]; rfl
  | append_singleton q k ih =>
    have old : fs.next ≠ p := fun same => shaped.fresh (same ▸ mem_of_isDir isDir)
    rw [address_concat, ih]
    by_cases below : q = at_ ++ [name]
    · -- nothing is below the new node, and nothing was where it is put
      subst below
      have none_below : (fs.enter p name node).child fs.next k = none := by
        rw [child_enter shaped leaf isDir, if_neg fun there => old there.1]
        by_contra named
        obtain ⟨c, entry⟩ := Option.ne_none_iff_exists'.1 named
        exact shaped.fresh (Names.mem ⟨k, entry⟩)
      rw [if_pos rfl, if_neg (by simp), Option.bind_some, none_below, address_concat, address_concat, here,
        Option.bind_some, free]
      rfl
    · rw [if_neg below, address_concat]
      cases there : fs.address q with
      | none =>
        have other : q ++ [k] ≠ at_ ++ [name] := by
          intro same
          rw [(List.append_inj' same rfl).1, here] at there
          cases there
        rw [if_neg other]
        rfl
      | some d =>
        rw [Option.bind_some, child_enter shaped leaf isDir]
        have same : (d = p ∧ k = name) ↔ q ++ [k] = at_ ++ [name] := by
          constructor
          · rintro ⟨rfl, rfl⟩
            rw [shaped.address_unique isDir there here]
          · intro same
            obtain ⟨rfl, last⟩ := List.append_inj' same rfl
            exact ⟨Option.some.inj (there.symm.trans here), List.head_eq_of_cons_eq last⟩
        simp only [same, Option.bind_some]

end Enter

/-! ## Entries taken out -/

/-- `fs'` is `fs` without the addresses of a region and the nodes that had one there. -/
structure Felled (fs fs' : Fs) (region : Region String) : Prop where
  gone : ∀ {q}, region.has q → fs'.address q = none
  stays : ∀ {q}, ¬ region.has q → fs'.address q = fs.address q
  dropped : ∀ {q x}, region.has q → fs.address q = some x → x ∉ fs'.nodes
  kept : ∀ {x}, (∀ q, region.has q → fs.address q ≠ some x) → fs.isDir x = false →
    fs'.nodes.lookup x = fs.nodes.lookup x
  dirs : ∀ {q d}, ¬ region.has q → fs.address q = some d → fs.isDir d = true → fs'.isDir d = true
  noDirs : ∀ {x}, fs'.isDir x = true → fs.isDir x = true
  names : ∀ {d k c}, fs'.child d k = some c → fs.child d k = some c
  next : fs'.next = fs.next
  fewer : fs'.nodes.entries.length ≤ fs.nodes.entries.length

section Felling

variable {fs' : Fs} {p : Nat} {at_ : List String} {f : Table String Nat → Table String Nat}
  {taken : String → Prop} {roots : List Nat}

/-- What is reached through the entries `taken` out of the directory at `at_`. -/
def felledRegion (at_ : List String) (taken : String → Prop) : Region String where
  has q := ∃ k, taken k ∧ at_ ++ [k] <+: q
  down := fun ⟨k, out, below⟩ => ⟨k, out, below.trans (List.prefix_append _ _)⟩
  root := fun ⟨k, _, below⟩ => by simp at below

/-- Entries are taken out of the directory at `at_`, and what they reached is dropped. -/
structure Felling (fs fs' : Fs) (p : Nat) (at_ : List String) (f : Table String Nat → Table String Nat)
    (taken : String → Prop) (roots : List Nat) : Prop where
  shaped : fs.Shaped
  here : fs.address at_ = some p
  isDir : fs.isDir p = true
  out : ∀ {k}, taken k → (fs.alter p f).child p k = none
  other : ∀ {d k}, ¬ (d = p ∧ taken k) → (fs.alter p f).child d k = fs.child d k
  reach : ∀ {r}, r ∈ roots ↔ ∃ k, taken k ∧ fs.child p k = some r
  drop : Dropped (fs.alter p f) fs' roots

namespace Felling

variable (felling : Felling fs fs' p at_ f taken roots)

include felling

theorem alter_names {d c : Nat} {k : String} (entry : (fs.alter p f).child d k = some c) :
    fs.child d k = some c := by
  by_cases gone : d = p ∧ taken k
  · obtain ⟨rfl, out⟩ := gone
    rw [felling.out out] at entry
    cases entry
  · rwa [felling.other gone] at entry

/-- What a root reaches has an address in the region. -/
theorem has_of_reaches {r x : Nat} (member : r ∈ roots) (path : (fs.alter p f).Reaches r x) :
    ∃ q, (felledRegion at_ taken).has q ∧ fs.address q = some x := by
  obtain ⟨k, out, entry⟩ := felling.reach.1 member
  have before : fs.Reaches r x :=
    ReflTransGen.mono (fun _ _ ⟨k, entry⟩ => ⟨k, felling.alter_names entry⟩) _ _ path
  obtain ⟨more, leads⟩ := descend_of_reaches before
  refine ⟨at_ ++ [k] ++ more, ⟨k, out, List.prefix_append _ _⟩, ?_⟩
  rw [address_append, address_concat_some.2 ⟨p, felling.here, entry⟩]
  exact leads

/-- What has an address in the region is reached by a root. -/
theorem reaches_of_has {q : List String} {x : Nat} (within : (felledRegion at_ taken).has q)
    (there : fs.address q = some x) : ∃ r ∈ roots, (fs.alter p f).Reaches r x := by
  obtain ⟨k, out, more, rfl⟩ := within
  rw [address_append] at there
  obtain ⟨r, root, leads⟩ := Option.bind_eq_some_iff.1 there
  obtain ⟨_, up, entry⟩ := address_concat_some.1 root
  cases Option.some.inj (felling.here.symm.trans up)
  refine ⟨r, felling.reach.2 ⟨k, out, entry⟩, ?_⟩
  clear there
  induction more using List.reverseRecOn generalizing x with
  | nil =>
    cases leads
    exact .refl
  | append_singleton more k' ih =>
    rw [descend_concat] at leads
    obtain ⟨d, down, last⟩ := Option.bind_eq_some_iff.1 leads
    refine (ih down).tail ⟨k', ?_⟩
    rw [felling.other]
    · exact last
    · -- the directory the entries were taken from is not below itself
      rintro ⟨rfl, _⟩
      have again : fs.address (at_ ++ [k] ++ more) = some d := by
        rw [address_append, root]
        exact down
      have same := congrArg List.length (felling.shaped.address_unique felling.isDir again felling.here)
      simp at same

theorem mem_iff {x : Nat} :
    x ∈ fs'.nodes ↔ x ∈ fs.nodes ∧ ∀ q, (felledRegion at_ taken).has q → fs.address q ≠ some x := by
  rw [felling.drop.mem_iff, mem_alter]
  refine and_congr_right fun _ => ⟨fun apart q within there => ?_, fun apart r member path => ?_⟩
  · obtain ⟨r, member, path⟩ := felling.reaches_of_has within there
    exact apart r member path
  · obtain ⟨q, within, there⟩ := felling.has_of_reaches member path
    exact apart q within there

theorem names {d c : Nat} {k : String} (entry : fs'.child d k = some c) :
    (fs.alter p f).child d k = some c :=
  (felling.drop.child_of_mem (Names.mem ⟨k, entry⟩) k).symm.trans entry

/-- A directory outside the region is still there. -/
theorem dir_mem {q : List String} {d : Nat} (outside : ¬ (felledRegion at_ taken).has q)
    (there : fs.address q = some d) (isDir : fs.isDir d = true) : d ∈ fs'.nodes := by
  refine felling.mem_iff.2 ⟨mem_of_isDir isDir, fun q' within there' => ?_⟩
  exact outside (felling.shaped.address_unique isDir there there' ▸ within)

theorem address_eq (q : List String) :
    ((felledRegion at_ taken).has q → fs'.address q = none) ∧
      (¬ (felledRegion at_ taken).has q → fs'.address q = fs.address q) := by
  induction q using List.reverseRecOn with
  | nil => exact ⟨fun within => absurd within (felledRegion at_ taken).root, fun _ => rfl⟩
  | append_singleton q k ih =>
    constructor
    · rintro ⟨k', out, below⟩
      rcases List.prefix_concat_iff.1 below with same | above
      · obtain ⟨rfl, last⟩ := List.append_inj' same rfl
        obtain rfl := List.head_eq_of_cons_eq last
        rw [address_concat]
        have outside : ¬ (felledRegion at_ taken).has at_ := fun ⟨_, _, down⟩ =>
          absurd down.length_le (by simp)
        rw [ih.2 outside, felling.here, Option.bind_some]
        by_contra named
        obtain ⟨c, entry⟩ := Option.ne_none_iff_exists'.1 named
        have before := felling.names entry
        rw [felling.out out] at before
        cases before
      · rw [address_concat, ih.1 ⟨k', out, above⟩]
        rfl
    · intro outside
      have above : ¬ (felledRegion at_ taken).has q := fun within => outside ((felledRegion at_ taken).down within)
      rw [address_concat, address_concat, ih.2 above]
      cases there : fs.address q with
      | none => rfl
      | some d =>
        have kept : ¬ (d = p ∧ taken k) := by
          rintro ⟨rfl, out⟩
          obtain rfl := felling.shaped.address_unique felling.isDir there felling.here
          exact outside ⟨k, out, List.prefix_rfl⟩
        simp only [Option.bind_some]
        cases isDir : fs.isDir d with
        | true =>
          rw [felling.drop.child_of_mem (felling.dir_mem above there isDir), felling.other kept]
        | false =>
          rw [child_none isDir]
          by_contra named
          obtain ⟨c, entry⟩ := Option.ne_none_iff_exists'.1 named
          have before := felling.names entry
          rw [felling.other kept, child_none isDir] at before
          cases before

theorem felled : Felled fs fs' (felledRegion at_ taken) where
  gone within := (felling.address_eq _).1 within
  stays outside := (felling.address_eq _).2 outside
  dropped within there present := (felling.mem_iff.1 present).2 _ within there
  kept {x} apart notDir := by
    have other : x ≠ p := by
      rintro rfl
      rw [felling.isDir] at notDir
      cases notDir
    by_cases present : x ∈ fs.nodes
    · rw [felling.drop.lookup_of_mem (felling.mem_iff.2 ⟨present, apart⟩), lookup_alter other]
    · have absent : x ∉ fs'.nodes := fun there => present (felling.mem_iff.1 there).1
      rw [AList.lookup_eq_none.2 present, AList.lookup_eq_none.2 absent]
  dirs {q d} outside there isDir := by
    have stays := felling.drop.lookup_of_mem (felling.dir_mem outside there isDir)
    have before : (fs.alter p f).isDir d = true := by rwa [isDir_alter]
    simpa only [Fs.isDir, stays] using before
  noDirs {x} isDir := by
    have before : (fs.alter p f).isDir x = true := by
      simpa only [Fs.isDir, felling.drop.lookup_of_mem (mem_of_isDir isDir)] using isDir
    rwa [isDir_alter] at before
  names entry := felling.alter_names (felling.names entry)
  next := felling.drop.next.trans alter_next
  fewer := Table.length_le_of_mem fun _ present => (felling.mem_iff.1 present).1

end Felling

end Felling

end Fs

end Wk.Vfs
