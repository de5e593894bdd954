/-
# Wk.Vfs.Pictures -- a filesystem as a tree of paths

A filesystem without links to files or forgotten nodes is a tree: what stands at each path is
read off its nodes (`Fs.standAt`), and `Pictures` says that it is a given `PathTree`.  Then
every node has one path, and what the host does to the filesystem is what is done to the tree:
ensuring directories grows branches, placing a node puts a leaf.

* `ensureDirs_pictures`, `putAt_pictures`, `hosted_pictures`: as long as the node cap is not met.
* `Pictures.few`, `many`: as many nodes as paths at which something stands.
-/
import Wk.Vfs.Bounds

namespace Wk.Vfs

open Wk.Library Relation

set_option autoImplicit false

variable {V : Type} {read : FsNode → V}

/-- What a node is as part of a tree. -/
def FsNode.stands (read : FsNode → V) : FsNode → Stand V
  | .dir _ => .branch
  | node => .leaf (read node)

theorem FsNode.stands_leaf {node : FsNode} (notDir : ∀ children, node ≠ .dir children) :
    node.stands read = .leaf (read node) := by
  cases node with
  | dir children => exact absurd rfl (notDir children)
  | _ => rfl

namespace Fs

/-- What stands at a path. -/
def standAt (read : FsNode → V) (fs : Fs) (q : List String) : Stand V :=
  (fs.address q).elim .free fun x => (fs.nodes.lookup x).elim .free (FsNode.stands read)

variable {fs : Fs} {t : PathTree String V} {q at_ : List String} {x : Nat}

theorem standAt_none (absent : fs.address q = none) : fs.standAt read q = .free := by rw [standAt, absent]; rfl

theorem standAt_some (here : fs.address q = some x) :
    fs.standAt read q = (fs.nodes.lookup x).elim .free (FsNode.stands read) := by rw [standAt, here]; rfl

theorem standAt_dir (here : fs.address q = some x) (isDir : fs.isDir x = true) : fs.standAt read q = .branch := by
  obtain ⟨children, found⟩ := isDir_iff.1 isDir
  rw [standAt_some here, found]
  rfl

theorem stands_ne_free {node : FsNode} : node.stands read ≠ .free := by cases node <;> nofun

/-- The filesystem is the tree `t`, read off its nodes. -/
structure Pictures (read : FsNode → V) (fs : Fs) (t : PathTree String V) : Prop where
  shaped : fs.Shaped
  stand : ∀ q, fs.standAt read q = t.stand q
  held : ∀ {q x}, fs.address q = some x → x ∈ fs.nodes
  once : ∀ {q q' x}, fs.address q = some x → fs.address q' = some x → q = q'
  found : ∀ {x}, x ∈ fs.nodes → ∃ q, fs.address q = some x

theorem address_new : ∀ q : List String, Fs.new.address q = if q = [] then some root else none
  | [] => rfl
  | name :: q => by
    rw [if_neg (by simp), address, descend, Fs.new_child]
    rfl

theorem Pictures.new : Pictures read Fs.new .empty where
  shaped := Shaped.new
  stand q := by
    by_cases atRoot : q = []
    · subst atRoot
      rfl
    · rw [PathTree.empty_free atRoot, standAt_none (by rw [address_new, if_neg atRoot])]
  held {q x} here := by
    rw [address_new] at here
    split at here
    · cases here
      exact mem_of_isDir Shaped.new.rootDir
    · cases here
  once {q q' x} here there := by
    rw [address_new] at here there
    split at here <;> split at there <;> simp_all
  found {x} member := by
    have atRoot : x = root := List.mem_singleton.1 (AList.mem_keys.1 member)
    exact ⟨[], by rw [atRoot]; rfl⟩

namespace Pictures

variable (pictures : Pictures read fs t)

include pictures

theorem address_free : fs.address q = none ↔ t.stand q = .free := by
  rw [← pictures.stand]
  constructor
  · exact standAt_none
  · intro free
    by_contra there
    obtain ⟨x, here⟩ := Option.ne_none_iff_exists'.1 there
    obtain ⟨node, found⟩ := Table.mem_iff_lookup.1 (pictures.held here)
    rw [standAt_some here, found] at free
    exact stands_ne_free free

theorem branch (here : fs.address q = some x) (isDir : fs.isDir x = true) : t.stand q = .branch :=
  (pictures.stand q).symm.trans (standAt_dir here isDir)

/-- A node more stands where it is named. -/
theorem enter {p : Nat} {name : String} {node : FsNode} {t' : PathTree String V} (leaf : Childless node)
    (isDir : fs.isDir p = true) (here : fs.address at_ = some p) (free : fs.child p name = none)
    (same : ∀ q, t'.stand q = if q = at_ ++ [name] then node.stands read else t.stand q) :
    Pictures read (fs.enter p name node) t' := by
  have shaped := pictures.shaped
  have address := address_enter shaped leaf isDir here free
  have old : fs.next ≠ p := fun same => shaped.fresh (same ▸ mem_of_isDir isDir)
  have earlier : ∀ {q x}, fs.address q = some x → x ≠ fs.next := fun there same =>
    shaped.fresh (same ▸ pictures.held there)
  exact
    { shaped := shaped.enter leaf isDir
      stand := fun q => by
        rw [same]
        split
        · next new =>
            rw [standAt_some (by rw [address, if_pos new]), lookup_enter_self old]
            rfl
        · next other =>
            rw [← pictures.stand]
            cases there : fs.address q with
            | none => rw [standAt_none there, standAt_none (by rw [address, if_neg other, there])]
            | some x =>
              have there' : (fs.enter p name node).address q = some x := by rw [address, if_neg other, there]
              by_cases parent : x = p
              · subst parent
                rw [standAt_dir there isDir, standAt_dir there' (by rwa [isDir_enter_of_ne old.symm])]
              · rw [standAt_some there, standAt_some there', lookup_enter (earlier there) parent]
      held := fun {q x} there => by
        rw [address] at there
        rw [mem_enter]
        split at there
        · cases there
          exact .inl rfl
        · exact .inr (pictures.held there)
      once := fun {q q' x} there there' => by
        rw [address] at there there'
        split at there <;> split at there'
        · next new new' => rw [new, new']
        · cases there
          exact absurd rfl (earlier there')
        · cases there'
          exact absurd rfl (earlier there)
        · exact pictures.once there there'
      found := fun {x} member => by
        rcases mem_enter.1 member with rfl | before
        · exact ⟨at_ ++ [name], by rw [address, if_pos rfl]⟩
        · obtain ⟨q, there⟩ := pictures.found before
          refine ⟨q, ?_⟩
          rw [address, if_neg, there]
          rintro rfl
          rw [address_concat, here, Option.bind_some, free] at there
          cases there }

/-- Entries taken out with all they reach are cut. -/
theorem fell {fs' : Fs} {p : Nat} {f : Table String Nat → Table String Nat} {taken : String → Prop} {roots : List Nat}
    (felling : Felling fs fs' p at_ f taken roots) (shaped' : fs'.Shaped) :
    Pictures read fs' (t.cut (felledRegion at_ taken)) := by
  have felled := felling.felled
  have address : ∀ {q x}, fs'.address q = some x → ¬ (felledRegion at_ taken).has q ∧ fs.address q = some x := by
    intro q x there
    by_cases within : (felledRegion at_ taken).has q
    · rw [felled.gone within] at there
      cases there
    · exact ⟨within, (felled.stays within).symm.trans there⟩
  have outside : ∀ {q x}, ¬ (felledRegion at_ taken).has q → fs.address q = some x →
      ∀ q', (felledRegion at_ taken).has q' → fs.address q' ≠ some x := fun out there q' within there' =>
    out (pictures.once there' there ▸ within)
  exact
    { shaped := shaped'
      stand := fun q => by
        rw [PathTree.cut_stand]
        split
        · next within => exact standAt_none (felled.gone within)
        · next out =>
            rw [← pictures.stand]
            have same := felled.stays out
            cases there : fs.address q with
            | none => rw [standAt_none there, standAt_none (same.trans there)]
            | some x =>
              cases isDir : fs.isDir x with
              | true => rw [standAt_dir there isDir, standAt_dir (same.trans there) (felled.dirs out there isDir)]
              | false =>
                rw [standAt_some there, standAt_some (same.trans there), felled.kept (outside out there) isDir]
      held := fun {q x} there => by
        obtain ⟨out, before⟩ := address there
        exact felling.mem_iff.2 ⟨pictures.held before, outside out before⟩
      once := fun there there' => pictures.once (address there).2 (address there').2
      found := fun {x} member => by
        obtain ⟨before, apart⟩ := felling.mem_iff.1 member
        obtain ⟨q, there⟩ := pictures.found before
        exact ⟨q, (felled.stays fun within => apart q within there).trans there⟩ }

/-- There are no more nodes than paths at which something stands. -/
theorem few {U : Finset (List String)} (within : ∀ q, t.stand q ≠ .free → q ∈ U) :
    fs.nodes.entries.length ≤ U.card := by
  have keys : fs.nodes.keys.toFinset ⊆ U.image fun q => (fs.address q).getD root := by
    intro x member
    obtain ⟨q, there⟩ := pictures.found (AList.mem_keys.2 (List.mem_toFinset.1 member))
    refine Finset.mem_image.2 ⟨q, within q fun free => ?_, by rw [there]; rfl⟩
    rw [pictures.address_free.2 free] at there
    cases there
  calc fs.nodes.entries.length = fs.nodes.keys.length := by simp [AList.keys, List.keys]
    _ = fs.nodes.keys.toFinset.card := (List.toFinset_card_of_nodup fs.nodes.keys_nodup).symm
    _ ≤ (U.image fun q => (fs.address q).getD root).card := Finset.card_le_card keys
    _ ≤ U.card := Finset.card_image_le

end Pictures

/-! ## What the host does -/

/-- The paths the host works with, with all above them, are fewer than the cap. -/
structure Room (U : Finset (List String)) : Prop where
  above : ∀ {p q}, q <+: p → p ∈ U → q ∈ U
  few : U.card < maxFsNodes

variable {U : Finset (List String)}

theorem Pictures.room (pictures : Pictures read fs t) (room : Room U) (within : ∀ q, t.stand q ≠ .free → q ∈ U) :
    fs.atCapacity = false := by
  have few := pictures.few within
  have cap := room.few
  simp only [atCapacity, decide_eq_false_iff_not]
  omega

theorem within_grow {p : List String} (room : Room U) (member : p ∈ U) (within : ∀ q, t.stand q ≠ .free → q ∈ U) :
    ∀ q, (t.grow p).stand q ≠ .free → q ∈ U := by
  intro q stands
  by_cases up : q <+: p
  · exact room.above up member
  · exact within q (by rwa [PathTree.grow_outside up] at stands)

theorem within_put {p : List String} {v : V} (room : Room U) (member : p ∈ U)
    (within : ∀ q, t.stand q ≠ .free → q ∈ U) : ∀ q, (t.put p v).stand q ≠ .free → q ∈ U := by
  intro q stands
  by_cases blocked : t.Blocked p
  · exact within q (by rwa [PathTree.put_blocked blocked] at stands)
  · by_cases up : q <+: p
    · exact room.above up member
    · by_cases down : p <+: q
      · have below : Above p q := ⟨down, fun same => up (same ▸ List.prefix_rfl)⟩
        rw [PathTree.put_below blocked below] at stands
        exact absurd rfl stands
      · exact within q (by rwa [PathTree.put_apart blocked down up] at stands)

/-- What ensuring directories leaves: the tree with their branches, and the last of them unless
a leaf is in the way. -/
def Grown (read : FsNode → V) (t : PathTree String V) (p : List String) (result : Fs × Option Nat) : Prop :=
  Pictures read result.1 (t.grow p) ∧
    (result.2 = none ∧ t.Sealed p ∨
      ¬ t.Sealed p ∧ ∃ d, result.2 = some d ∧ result.1.address p = some d ∧ result.1.isDir d = true)

/-- Ensuring directories grows branches. -/
theorem ensureDirs_pictures (room : Room U) : ∀ (rest : List String) {fs : Fs} {t : PathTree String V}
    {at_ : List String} {cur : Nat}, Pictures read fs t → (∀ q, t.stand q ≠ .free → q ∈ U) → at_ ++ rest ∈ U →
      fs.address at_ = some cur → fs.isDir cur = true → Grown read t (at_ ++ rest) (fs.ensureDirs cur rest)
  | [], fs, t, at_, cur, pictures, _, _, here, isDir => by
    have branch := pictures.branch here isDir
    rw [List.append_nil, Grown, PathTree.grow_standing branch]
    exact ⟨pictures, .inr ⟨PathTree.not_sealed_of_branch branch, cur, rfl, here, isDir⟩⟩
  | comp :: rest, fs, t, at_, cur, pictures, within, member, here, isDir => by
    have further : at_ ++ comp :: rest = at_ ++ [comp] ++ rest := by simp
    have branch := pictures.branch here isDir
    obtain ⟨children, found⟩ := isDir_iff.1 isDir
    have child : ∀ id, fs.child cur comp = id → fs.address (at_ ++ [comp]) = id := fun id entry => by
      rw [address_concat, here, Option.bind_some, entry]
    cases entry : children.lookup comp with
    | some id =>
      have there := child _ ((child_eq found).trans entry)
      obtain ⟨node, stored⟩ := Table.mem_iff_lookup.1 (pictures.held there)
      by_cases dir : ∃ inner, node = .dir inner
      · obtain ⟨inner, rfl⟩ := dir
        have step : fs.ensureDirs cur (comp :: rest) = fs.ensureDirs id rest := by
          simp only [ensureDirs, found, entry, stored]
        rw [further, step]
        exact ensureDirs_pictures room rest pictures within (further ▸ member) there (isDir_iff.2 ⟨inner, stored⟩)
      · have notDir : ∀ inner, node ≠ .dir inner := fun inner same => dir ⟨inner, same⟩
        have closed : t.Sealed (at_ ++ comp :: rest) := by
          refine ⟨at_ ++ [comp], further ▸ List.prefix_append _ _, read node, ?_⟩
          rw [← pictures.stand, standAt_some there, stored]
          exact FsNode.stands_leaf notDir
        have step : fs.ensureDirs cur (comp :: rest) = (fs, none) := by
          simp only [ensureDirs, found, entry, stored]
          cases node with
          | dir inner => exact absurd rfl (notDir inner)
          | _ => rfl
        rw [Grown, step, PathTree.grow_closed closed]
        exact ⟨pictures, .inl ⟨rfl, closed⟩⟩
    | none =>
      have free := (child_eq found).trans entry
      have free' : t.stand (at_ ++ [comp]) = .free := pictures.address_free.1 (child _ free)
      have grown : Pictures read (fs.enter cur comp (.dir ∅)) (t.grow (at_ ++ [comp])) :=
        pictures.enter childless_dir isDir here free fun q => PathTree.grow_concat branch free'
      have added := address_enter pictures.shaped childless_dir isDir here free
      have old : fs.next ≠ cur := fun same => pictures.shaped.fresh (same ▸ mem_of_isDir isDir)
      have down : Grown read (t.grow (at_ ++ [comp])) (at_ ++ [comp] ++ rest)
          ((fs.enter cur comp (.dir ∅)).ensureDirs fs.next rest) :=
        ensureDirs_pictures room rest grown
          (within_grow room (room.above (further ▸ List.prefix_append _ _) member) within) (further ▸ member)
          (by rw [added, if_pos rfl]) (isDir_iff.2 ⟨∅, lookup_enter_self old⟩)
      rw [Grown, PathTree.grow_grow_prefix (List.prefix_append _ _), PathTree.grow_sealed, ← further] at down
      have step : fs.ensureDirs cur (comp :: rest) = (fs.enter cur comp (.dir ∅)).ensureDirs fs.next rest := by
        simp only [ensureDirs, found, entry, pictures.room room within]
        rfl
      rw [step]
      exact down

/-- What stands at the place of a node, and below, is cut before it is placed. -/
theorem removePathIn_pictures (pictures : Pictures read fs t) {p : Nat} (name : String)
    (here : fs.address at_ = some p) (isDir : fs.isDir p = true) :
    Pictures read (fs.removePathIn p name) (t.cut (.under (at_ ++ [name]))) ∧
      (fs.removePathIn p name).address at_ = some p := by
  have region : ∀ q, (Region.under (at_ ++ [name])).has q ↔ (felledRegion at_ fun k => k = name).has q := by
    simp [Region.under, felledRegion]
  have same_cut : t.cut (.under (at_ ++ [name])) = t.cut (felledRegion at_ fun k => k = name) := by
    ext q
    rw [PathTree.cut_stand, PathTree.cut_stand]
    by_cases below : (felledRegion at_ fun k => k = name).has q
    · rw [if_pos below, if_pos ((region q).2 below)]
    · rw [if_neg below, if_neg fun there => below ((region q).1 there)]
  rcases removePathIn_moves (fun _ _ => True) p name (fun _ _ => trivial) with ⟨absent, same⟩ | ⟨id, entry, drop, _⟩
  · rw [same]
    have free : t.stand (at_ ++ [name]) = .free :=
      pictures.address_free.1 (by rw [address_concat, here, Option.bind_some, absent])
    have nothing : t.cut (.under (at_ ++ [name])) = t := by
      ext q
      rw [PathTree.cut_stand]
      split
      · next below =>
          by_contra stands
          exact PathTree.stand_prefix below.2 (Ne.symm stands) free
      · rfl
    rw [nothing]
    exact ⟨pictures, here⟩
  · rw [same_cut]
    have felling : Felling fs (fs.removePathIn p name) p at_ (fun children => children.erase name) (fun k => k = name)
        [id] :=
      { shaped := pictures.shaped
        here := here
        isDir := isDir
        out := fun {k} taken => by
          have gone : (fs.removeChild p name).child p k = _ := child_removeChild p name p k
          rwa [if_pos ⟨rfl, taken⟩] at gone
        other := fun {d k} apart => by
          have kept : (fs.removeChild p name).child d k = _ := child_removeChild p name d k
          rwa [if_neg apart] at kept
        reach := fun {r} => by simp [entry, eq_comm]
        drop := drop }
    have outside : ¬ (felledRegion at_ fun k => k = name).has at_ := fun ⟨_, _, below⟩ =>
      absurd below.length_le (by simp)
    refine ⟨pictures.fell felling ((pictures.shaped.removeChild p name).dropped drop fun member => ?_),
      (felling.felled.stays outside).trans here⟩
    exact pictures.shaped.rootFree (List.mem_singleton.1 member ▸ entry)

/-- Placing a node puts a leaf. -/
theorem putAt_pictures (room : Room U) (pictures : Pictures read fs t) (within : ∀ q, t.stand q ≠ .free → q ∈ U)
    {path : String} (member : components path ∈ U) {node : FsNode} (notDir : ∀ children, node ≠ .dir children) :
    Pictures read (fs.putAt path node false) (t.put (components path) (read node)) := by
  rcases List.eq_nil_or_concat' (components path) with parts | ⟨dirs, name, parts⟩
  · have none_placed : fs.putAt path node false = fs := by rw [putAt, parts]; rfl
    rw [none_placed, parts, PathTree.put_blocked (.inl rfl)]
    exact pictures
  · have reversed : (components path).reverse = name :: dirs.reverse := by rw [parts]; simp
    have inside : dirs ∈ U := room.above (List.prefix_append dirs [name]) (parts ▸ member)
    have grown := ensureDirs_pictures room dirs pictures within (show [] ++ dirs ∈ U from inside) rfl pictures.shaped.rootDir
    rw [putAt, reversed, parts]
    simp only [List.reverse_reverse]
    rcases made : fs.ensureDirs root dirs with ⟨fs₁, parent⟩
    rw [made] at grown
    rcases grown with ⟨pictures₁, ⟨rfl, closed⟩ | ⟨open_, d, rfl, here, isDir⟩⟩
    · show Pictures read fs₁ _
      rw [List.nil_append] at closed pictures₁
      rw [PathTree.put_blocked (PathTree.blocked_concat.2 closed)]
      rwa [PathTree.grow_closed closed] at pictures₁
    · rw [List.nil_append] at pictures₁ here
      have space := pictures₁.room room (within_grow room inside within)
      have branch := pictures₁.branch here isDir
      obtain ⟨cut, here'⟩ := removePathIn_pictures pictures₁ name here isDir
      obtain ⟨isDir', free⟩ := removePathIn_parent name pictures₁.shaped isDir (reaches_descend here)
      have placed : Pictures read ((fs₁.removePathIn d name).enter d name node) ((t.grow dirs).put (dirs ++ [name]) (read node)) :=
        cut.enter (childless_of_ne notDir) isDir' here' free fun q => by
          rw [PathTree.put_concat branch, FsNode.stands_leaf notDir]
      rw [PathTree.put_grow] at placed
      simp only [space]
      exact placed

/-- The host operation makes the addition. -/
def Adds (read : FsNode → V) : HostOp → Addition String V → Prop
  | .ensureDirPath path, .grow p => components path = p
  | .putRoFileAt path layer, .put p v => components path = p ∧ read (.roFile layer) = v
  | .putSymlinkAt path target, .put p v => components path = p ∧ read (.symlink target) = v
  | _, _ => False

theorem Adds.pictures {op : HostOp} {a : Addition String V} (adds : Adds read op a) (room : Room U) (member : a.path ∈ U)
    (pictures : Pictures read fs t) (within : ∀ q, t.stand q ≠ .free → q ∈ U) :
    Pictures read (fs.host op) (t.add a) ∧ ∀ q, (t.add a).stand q ≠ .free → q ∈ U := by
  cases a with
  | grow p =>
    refine ⟨?_, within_grow room member within⟩
    cases op with
    | ensureDirPath path =>
      have same : components path = p := adds
      subst same
      exact (ensureDirs_pictures room (components path) pictures within (show [] ++ components path ∈ U from member) rfl
        pictures.shaped.rootDir).1
    | _ => exact adds.elim
  | put p v =>
    refine ⟨?_, within_put room member within⟩
    cases op with
    | putRoFileAt path layer =>
      obtain ⟨rfl, rfl⟩ := adds
      exact putAt_pictures room pictures within member nofun
    | putSymlinkAt path target =>
      obtain ⟨rfl, rfl⟩ := adds
      exact putAt_pictures room pictures within member nofun
    | _ => exact adds.elim

/-- Host operations that make additions, one after the other. -/
theorem hosted_pictures (room : Room U) {ops : List HostOp} {as : List (Addition String V)}
    (adds : List.Forall₂ (Adds read) ops as) : ∀ {fs : Fs} {t : PathTree String V}, (∀ a ∈ as, a.path ∈ U) →
      Pictures read fs t → (∀ q, t.stand q ≠ .free → q ∈ U) → Pictures read (ops.foldl host fs) (t.make as) := by
  induction adds with
  | nil => exact fun _ pictures _ => pictures
  | cons first _ ih =>
    intro fs t members pictures within
    obtain ⟨here, within'⟩ := first.pictures room (members _ List.mem_cons_self) pictures within
    exact ih (fun a member => members a (List.mem_cons_of_mem _ member)) here within'

/-! ## One name each -/

/-- No node has two names. -/
def Single (fs : Fs) : Prop :=
  ∀ d k d' k' c, fs.child d k = some c → fs.child d' k' = some c → d = d' ∧ k = k'

theorem Single.fewer {fs' : Fs} (single : fs.Single) (old : ∀ {d k c}, fs'.child d k = some c → fs.child d k = some c) :
    fs'.Single :=
  fun _ _ _ _ _ first second => single _ _ _ _ _ (old first) (old second)

theorem Single.move {drops : Fs → List Nat → Prop} {fs' : Fs} (single : fs.Single) (shaped : fs.Shaped)
    (move : HostMove drops fs fs') : fs'.Single := by
  cases move with
  | enter leaf isDir free =>
    intro d k d' k' c first second
    rw [child_enter shaped leaf isDir] at first second
    split at first <;> split at second
    · next here there => exact ⟨here.1.trans there.1.symm, here.2.trans there.2.symm⟩
    · cases first
      exact absurd second shaped.unnamed
    · cases second
      exact absurd first shaped.unnamed
    · exact single _ _ _ _ _ first second
  | @drop _ p id name entry drop noted =>
    refine single.fewer fun {d k c} there => ?_
    have before := (drop.child_of_mem (Names.mem ⟨k, there⟩) k).symm.trans there
    rw [child_removeChild] at before
    split at before
    · cases before
    · exact before
  | clear isDir drop noted =>
    refine single.fewer fun {d k c} there => ?_
    exact (child_clearDir ((drop.child_of_mem (Names.mem ⟨k, there⟩) k).symm.trans there)).2
  | guard id => exact single

/-- What the host makes of an empty filesystem: in shape, every node with one name, within the cap. -/
theorem hosted_single (ops : List HostOp) : ∀ {fs : Fs}, fs.Shaped → fs.Single →
    fs.nodes.entries.length ≤ maxFsNodes →
      (ops.foldl host fs).Shaped ∧ (ops.foldl host fs).Single ∧ (ops.foldl host fs).nodes.entries.length ≤ maxFsNodes := by
  induction ops with
  | nil => exact fun shaped single few => ⟨shaped, single, few⟩
  | cons op ops ih =>
    intro fs shaped single few
    have moved := reaches_within (P := fun fs : Fs => fs.Shaped ∧ fs.Single) (host_moves shaped op) ⟨shaped, single⟩
      fun _ _ held move => ⟨move.shaped held.1, held.2.move held.1 move⟩
    exact ih moved.1 moved.2 ((host_later op).few few)

theorem Single.address (single : fs.Single) (shaped : fs.Shaped) {p q : List String} {x : Nat}
    (here : fs.address p = some x) (there : fs.address q = some x) : p = q := by
  induction p using List.reverseRecOn generalizing q x with
  | nil =>
    cases here
    exact shaped.address_unique shaped.rootDir rfl there
  | append_singleton p k ih =>
    obtain ⟨d, up, entry⟩ := address_concat_some.1 here
    rcases List.eq_nil_or_concat' q with rfl | ⟨q, k', rfl⟩
    · cases there
      exact absurd entry shaped.rootFree
    · obtain ⟨d', up', entry'⟩ := address_concat_some.1 there
      obtain ⟨rfl, rfl⟩ := single _ _ _ _ _ entry entry'
      rw [ih up up']

/-- Where something stands at each of some paths, there are as many nodes. -/
theorem many (single : fs.Single) (shaped : fs.Shaped) {U : Finset (List String)}
    (stands : ∀ q ∈ U, fs.standAt read q ≠ .free) : U.card ≤ fs.nodes.entries.length := by
  have there : ∀ q ∈ U, ∃ x, fs.address q = some x ∧ x ∈ fs.nodes := by
    intro q member
    have here := stands q member
    cases address : fs.address q with
    | none => exact absurd (standAt_none address) here
    | some x =>
      rw [standAt_some address] at here
      refine ⟨x, rfl, ?_⟩
      by_contra absent
      rw [AList.lookup_eq_none.2 absent] at here
      exact here rfl
  have inside : U.image (fun q => (fs.address q).getD root) ⊆ fs.nodes.keys.toFinset := by
    intro x member
    obtain ⟨q, inU, rfl⟩ := Finset.mem_image.1 member
    obtain ⟨x, address, held⟩ := there q inU
    rw [address]
    exact List.mem_toFinset.2 (AList.mem_keys.1 held)
  have apart : Set.InjOn (fun q => (fs.address q).getD root) U := by
    intro p inU q inU' same
    obtain ⟨x, here, _⟩ := there p inU
    obtain ⟨y, here', _⟩ := there q inU'
    simp only [here, here', Option.getD_some] at same
    exact single.address shaped here (same ▸ here')
  calc U.card = (U.image fun q => (fs.address q).getD root).card := (Finset.card_image_of_injOn apart).symm
    _ ≤ fs.nodes.keys.toFinset.card := Finset.card_le_card inside
    _ = fs.nodes.keys.length := List.toFinset_card_of_nodup fs.nodes.keys_nodup
    _ = fs.nodes.entries.length := by simp [AList.keys, List.keys]

end Fs

end Wk.Vfs
