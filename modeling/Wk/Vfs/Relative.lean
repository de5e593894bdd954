/-
# Wk.Vfs.Relative -- resolving from a descriptor

From the descriptor of a directory `d` a walk starts with no ancestors, and above them is
the root.  A walk from the root that came down to `d` has the directories on the way as
ancestors.  The two walks go side by side (`Beside`) until the first is sent up from `d`
with nothing left to go up to: it lands at the root, the other in the parent of `d`.  So a
path from a descriptor is what the joined path is from the root as long as it does not
climb above `d` (`Climbs`), and every path is exactly where `d` is the root or named by the
root (`composes_iff`).
-/
import Wk.Vfs.Paths
import Wk.Vfs.Resolvers
import Wk.Vfs.HostMoves

namespace Wk.Vfs

open Wk.Library

set_option autoImplicit false

namespace Fs

open Walker

variable {fs : Fs} {crossing followFinal : Bool}

/-- `w'` stands where `w` stands and has `base` above the way that `w` took from `d`, or they
do not differ at all. -/
def Beside (d : Nat) (base : List Nat) (w w' : Walker) : Prop :=
  w' = w ∨ (w' = { w with ancestors := w.ancestors ++ base } ∧ ∃ way, w.cur :: w.ancestors = way ++ [d])

/-- `w` is about to go up from `d` with nothing left to go up to. -/
def Leaving (d : Nat) (w : Walker) : Prop := w.todo.head? = some ".." ∧ w.cur = d ∧ w.ancestors = []

theorem ahead_up {w : Walker} : fs.ahead followFinal w = .up ↔ w.todo.head? = some ".." := by
  unfold ahead
  split
  · next none_left => simp [none_left]
  · next comp rest left =>
      rw [left, List.head?_cons, Option.some_inj]
      split
      · next climbs => exact iff_of_true rfl climbs
      · next stays =>
          refine iff_of_false ?_ stays
          repeat' split
          all_goals nofun

theorem turn_refl (t : Walker ⊕ WalkEnd) {S : Walker → Walker → Prop} (same : ∀ w, S w w) :
    Sum.LiftRel S Eq t t := by
  cases t with
  | inl w => exact .inl (same w)
  | inr e => exact .inr rfl

/-- One turn keeps two walks side by side, unless the one is leaving `d` for the root and
the other for somewhere else. -/
theorem turns_beside {d : Nat} {base : List Nat} {w w' : Walker} (beside : Beside d base w w')
    (stays : Leaving d w → base = [] ∨ base = [root]) :
    Sum.LiftRel (Beside d base) Eq (fs.turn crossing followFinal w) (fs.turn crossing followFinal w') := by
  rcases beside with rfl | ⟨rfl, way, along⟩
  · exact turn_refl _ fun w => .inl rfl
  have sameAhead : fs.ahead followFinal { w with ancestors := w.ancestors ++ base } = fs.ahead followFinal w := rfl
  unfold turn
  rw [sameAhead]
  cases before : fs.ahead followFinal w with
  | arrived => exact .inr rfl
  | nowhere => exact .inr rfl
  | up =>
    refine .inl ?_
    cases upward : w.ancestors with
    | nil =>
      have atD : w.cur = d := by
        rw [upward] at along
        cases way with
        | nil => exact List.head_eq_of_cons_eq along
        | cons _ _ => simp at along
      rcases stays ⟨ahead_up.1 before, atD, upward⟩ with rfl | rfl
      · exact .inl (by simp [Walker.up, upward])
      · exact .inl (by simp [Walker.up, upward])
    | cons a rest =>
      rw [upward] at along
      cases way with
      | nil => simp at along
      | cons _ way =>
        refine .inr ⟨by simp [Walker.up, upward], way, ?_⟩
        simpa [Walker.up, upward] using List.tail_eq_of_cons_eq along
  | child next => exact .inl (.inr ⟨rfl, next :: way, by rw [into, along]; rfl⟩)
  | link target =>
    by_cases spent : maxSymlinkHops < w.hops + 1
    · simp only [if_pos spent]
      exact .inr rfl
    · simp only [if_neg spent]
      by_cases anchored : absolute target
      · exact .inl (.inl (by simp [across, anchored]))
      · exact .inl (.inr ⟨by simp [across, anchored], way, by simp [across, anchored, along]⟩)
  | mount next conn =>
    cases crossing with
    | true => exact .inr rfl
    | false => exact .inl (.inr ⟨rfl, next :: way, by rw [into, along]; rfl⟩)

theorem endOf_beside {d : Nat} {base : List Nat} {w w' : Walker} (beside : Beside d base w w')
    (stays : ∀ m, ComesBy (fs.turn crossing followFinal) w m → Leaving d m → base = [] ∨ base = [root]) :
    fs.endOf crossing followFinal w = fs.endOf crossing followFinal w' :=
  (turn_ends w).alike (turn_ends w') beside fun m _ way still => turns_beside still (stays m way)

/-! ## Down to a directory -/

theorem ahead_child {w : Walker} {name : String} {rest : List String} {next : Nat} (left : w.todo = name :: rest)
    (plain : name ≠ "..") (named : fs.child w.cur name = some next) (isDir : fs.isDir next = true) :
    fs.ahead followFinal w = .child next := by
  obtain ⟨children, here, entry⟩ := child_some named
  obtain ⟨_, there⟩ := isDir_iff.1 isDir
  simp [ahead, left, plain, here, entry, there]

/-- Down one name, to a directory. -/
theorem endOf_into {hops cur next : Nat} {name : String} {rest : List String} {ancestors : List Nat}
    (plain : name ≠ "..") (named : fs.child cur name = some next) (isDir : fs.isDir next = true) :
    fs.endOf crossing followFinal ⟨hops, name :: rest, cur, ancestors⟩ =
      fs.endOf crossing followFinal ⟨hops, rest, next, cur :: ancestors⟩ := by
  rw [endOf_turn, turn, ahead_child rfl plain named isDir]
  rfl

/-- Up, the way the walk came. -/
theorem endOf_up {hops cur : Nat} {rest : List String} {ancestors : List Nat} :
    fs.endOf crossing followFinal ⟨hops, ".." :: rest, cur, ancestors⟩ =
      fs.endOf crossing followFinal ⟨hops, rest, ancestors.headD root, ancestors.tail⟩ := by
  have climbs : fs.ahead followFinal ⟨hops, ".." :: rest, cur, ancestors⟩ = .up := ahead_up.2 rfl
  rw [endOf_turn, turn, climbs]
  rfl

/-- Down the names of a symlink-free path, the walk comes to where they lead, over directories
that are then its ancestors. -/
theorem endOf_down {d : Nat} (isDir : fs.isDir d = true) : ∀ {names : List String} {cur : Nat},
    fs.Leads cur names d → ".." ∉ names → ∀ ancestors, ∃ base, ∀ crossing followFinal hops rest,
      fs.endOf crossing followFinal ⟨hops, names ++ rest, cur, ancestors⟩ =
        fs.endOf crossing followFinal ⟨hops, rest, d, base⟩
  | [], cur, leads, _, ancestors => by
    cases leads
    exact ⟨ancestors, fun _ _ _ _ => rfl⟩
  | name :: names, cur, leads, plain, ancestors => by
    obtain ⟨next, named, leads⟩ := leads
    simp only [List.mem_cons, not_or] at plain
    have nextDir : fs.isDir next = true := by
      cases names with
      | nil =>
        cases leads
        exact isDir
      | cons _ _ => exact leads.isDir_of_ne nofun
    obtain ⟨base, comes⟩ := endOf_down isDir leads plain.2 (cur :: ancestors)
    refine ⟨base, fun crossing followFinal hops rest => ?_⟩
    rw [List.cons_append, endOf_into (fun same => plain.1 same.symm) named nextDir]
    exact comes crossing followFinal hops rest

/-! ## From the descriptor, and from the root -/

/-- A walk of `q` from the directory `d` goes up from `d`. -/
def Climbs (fs : Fs) (d : Nat) (q : String) : Prop :=
  ∃ followFinal w, ComesBy (fs.turnAt followFinal) (setOff d q) w ∧ Leaving d w

/-- Resolving `q` from the descriptor of `d` is resolving `path/q` from the root: for both
resolvers, and for the parent of what `q` names. -/
structure Composes (fs : Fs) (d : Nat) (path q : String) : Prop where
  at_ : ∀ followFinal, fs.resolveAt d q followFinal = fs.resolveAt root (path ++ "/" ++ q) followFinal
  place : ∀ followFinal, fs.resolvePlace d q followFinal = fs.resolvePlace root (path ++ "/" ++ q) followFinal
  parent : components q ≠ [] → fs.resolveParent d q = fs.resolveParent root (path ++ "/" ++ q)

/-- What the resolvers make of a walk that starts at a directory. -/
theorem resolvePlace_eq {start : Nat} {path : String} (isDir : fs.isDir (origin start path) = true) :
    fs.resolvePlace start path followFinal = fs.placeAt (fs.endOf true followFinal (setOff start path)) := by
  obtain ⟨children, here⟩ := isDir_iff.1 isDir
  simp only [resolvePlace, here]
  rfl

theorem resolveParent_append {start : Nat} {path name : String} {dirs : List String}
    (split : components path = dirs ++ [name]) :
    fs.resolveParent start path =
      match foundAt (fs.endOf false true ⟨0, dirs, start, []⟩) with
      | none => none
      | some parent => match fs.nodes.lookup parent with
        | some (.dir _) => some (parent, name)
        | _ => none := by
  unfold resolveParent
  rw [split, List.reverse_concat]
  simp only [List.reverse_reverse]
  rfl

/-- If walking down from the root to `d` and walking from `d` end alike for the components of
`q`, and for all but the last of them, resolving composes. -/
theorem composes_of_endOf {d : Nat} {path q : String} (isDir : fs.isDir d = true)
    (leads : fs.Leads root (components path) d) (relative : absolute q = false)
    (alike : ∀ crossing followFinal,
      fs.endOf crossing followFinal ⟨0, components q, d, []⟩ =
        fs.endOf crossing followFinal ⟨0, components path ++ components q, root, []⟩)
    (parents : ∀ dirs name, components q = dirs ++ [name] →
      fs.endOf false true ⟨0, dirs, d, []⟩ = fs.endOf false true ⟨0, components path ++ dirs, root, []⟩) :
    fs.Composes d path q := by
  have fromRoot : setOff root (path ++ "/" ++ q) = ⟨0, components path ++ components q, root, []⟩ := by
    rw [setOff, components_slash, origin, ite_self]
  have fromDir : setOff d q = ⟨0, components q, d, []⟩ := by simp [setOff, origin, relative]
  have rootDir : fs.isDir root = true := by
    by_cases some_left : components path = []
    · rw [some_left] at leads
      cases leads
      exact isDir
    · exact leads.isDir_of_ne some_left
  refine ⟨fun followFinal => ?_, fun followFinal => ?_, fun some_left => ?_⟩
  · have same := congrArg foundAt (alike false followFinal)
    rw [← fromRoot, ← fromDir] at same
    exact same
  · have started : origin d q = d := by simp [origin, relative]
    rw [resolvePlace_eq (started.symm ▸ isDir), resolvePlace_eq (by rw [origin, ite_self]; exact rootDir), fromRoot, fromDir,
      alike true followFinal]
  · obtain ⟨dirs, name, split⟩ := (List.eq_nil_or_concat' _).resolve_left some_left
    rw [resolveParent_append split, parents dirs name split,
      resolveParent_append (by rw [components_slash, split, ← List.append_assoc])]

/-- The components of a path but the last, walked with every link followed, go the way of the
whole path. -/
theorem comesBy_dirs {w m : Walker} (name : String) (way : ComesBy (fs.turn false true) w m) :
    ComesBy (fs.turn false true) { w with todo := w.todo ++ [name] } { m with todo := m.todo ++ [name] } := by
  exact way.map (fun w : Walker => { w with todo := w.todo ++ [name] }) fun _ _ goes => turn_append [name] goes (.inr rfl)

/-- Where either loop goes on, that of `resolve_at` does. -/
theorem turnAt_goes {w w' : Walker} (goes : fs.turn crossing followFinal w = .inl w') :
    fs.turnAt followFinal w = .inl w' := by
  rw [turnAt_eq]
  unfold turn at goes ⊢
  cases before : fs.ahead followFinal w with
  | link target =>
    simp only [before] at goes ⊢
    split at goes
    · cases goes
    · next few =>
        cases goes
        rw [if_neg few]
        rfl
  | mount next conn =>
    cases crossing with
    | true =>
      simp only [before] at goes
      cases goes
    | false =>
      simp only [before] at goes
      cases goes
      rfl
  | _ =>
    simp only [before] at goes
    cases goes <;> rfl

theorem climbs_of_turn {d : Nat} {q : String} (relative : absolute q = false) {m : Walker}
    (way : ComesBy (fs.turn crossing followFinal) ⟨0, components q, d, []⟩ m) (leaving : Leaving d m) :
    fs.Climbs d q := by
  refine ⟨followFinal, m, ?_, leaving⟩
  have fromDir : setOff d q = ⟨0, components q, d, []⟩ := by simp [setOff, origin, relative]
  rw [fromDir]
  exact way.map id fun w w' goes => turnAt_goes goes

/-- A path that never climbs above the descriptor composes. -/
theorem composes_of_stays {d : Nat} {path q : String} (isDir : fs.isDir d = true)
    (leads : fs.Leads root (components path) d) (plain : ".." ∉ components path) (relative : absolute q = false)
    (stays : ¬ fs.Climbs d q) : fs.Composes d path q := by
  obtain ⟨base, comes⟩ := endOf_down isDir leads plain []
  refine composes_of_endOf isDir leads relative (fun crossing followFinal => ?_) fun dirs name split => ?_
  · rw [comes crossing followFinal 0 (components q)]
    refine endOf_beside (.inr ⟨rfl, [], rfl⟩) fun m way leaving => ?_
    exact absurd (climbs_of_turn relative way leaving) stays
  · rw [comes false true 0 dirs]
    refine endOf_beside (.inr ⟨rfl, [], rfl⟩) fun m way leaving => ?_
    have whole := comesBy_dirs name way
    simp only [← split] at whole
    refine absurd (climbs_of_turn relative whole ⟨?_, leaving.2⟩) stays
    rw [List.head?_append, leaving.1]
    rfl

/-- From the root, or from a directory the root names, every path composes. -/
theorem composes_of_shallow {d : Nat} {path q : String} (isDir : fs.isDir d = true)
    (leads : fs.Leads root (components path) d) (plain : ".." ∉ components path) (relative : absolute q = false)
    (shallow : (components path).length ≤ 1) : fs.Composes d path q := by
  have same : ∀ crossing followFinal rest, fs.endOf crossing followFinal ⟨0, rest, d, []⟩ =
      fs.endOf crossing followFinal ⟨0, components path ++ rest, root, []⟩ := by
    intro crossing followFinal rest
    cases names : components path with
    | nil =>
      rw [names] at leads
      cases leads
      rfl
    | cons name more =>
      rw [names] at leads plain shallow
      obtain rfl : more = [] := List.length_eq_zero_iff.1 (by simpa using shallow)
      obtain ⟨_, named, rfl⟩ := leads
      rw [List.singleton_append, endOf_into (fun climbs => plain (by simp [climbs])) named isDir]
      exact endOf_beside (.inr ⟨rfl, [], rfl⟩) fun _ _ _ => .inr rfl
  exact composes_of_endOf isDir leads relative (fun crossing followFinal => same crossing followFinal _)
    fun dirs _ _ => same false true dirs

theorem endOf_arrived {hops cur : Nat} {ancestors : List Nat} :
    fs.endOf crossing followFinal ⟨hops, [], cur, ancestors⟩ = .done cur := by
  rw [endOf_turn, turn, ahead_arrived rfl]
  rfl

/-- `..` from the descriptor of a directory below another is not `..` after its path: the one is
the root, the other the directory it is in. -/
theorem not_composes_up {d : Nat} {path : String} (free : ∀ p name, fs.child p name ≠ some root)
    (isDir : fs.isDir d = true) (leads : fs.Leads root (components path) d) (plain : ".." ∉ components path)
    (deep : 1 < (components path).length) : ¬ fs.Composes d path ".." := by
  intro composes
  have up : components ".." = [".."] := components_name ⟨by decide, by decide, by decide⟩
  obtain ⟨names, last, split⟩ :=
    (List.eq_nil_or_concat' (components path)).resolve_left (List.ne_nil_of_length_pos (by omega))
  rw [split] at leads plain deep
  obtain ⟨p, down, _, named, rfl⟩ := leads_append.1 leads
  have some_left : names ≠ [] := List.ne_nil_of_length_pos (by simpa using deep)
  simp only [List.mem_append, List.mem_singleton, not_or] at plain
  obtain ⟨base, comes⟩ := endOf_down (isDir_of_child named) down plain.1 []
  have fromDir : fs.resolveAt d ".." true = some root := by
    show foundAt (fs.endOf false true ⟨0, components "..", d, []⟩) = some root
    rw [up, endOf_up, endOf_arrived]
    rfl
  have fromRoot : fs.resolveAt root (path ++ "/" ++ "..") true = some p := by
    have started : setOff root (path ++ "/" ++ "..") = ⟨0, names ++ [last, ".."], root, []⟩ := by
      rw [setOff, components_slash, split, up, origin, ite_self, List.append_assoc]
      rfl
    show foundAt (fs.endOf false true (setOff root (path ++ "/" ++ ".."))) = some p
    rw [started, comes, endOf_into (fun climbs => plain.2 climbs.symm) named isDir, endOf_up, endOf_arrived]
    rfl
  obtain rfl : root = p := Option.some.inj (fromDir.symm.trans ((composes.at_ true).trans fromRoot))
  obtain ⟨q, k, entry⟩ := down.named some_left
  exact free q k entry

/-- Resolving from the descriptor of a directory composes for every path exactly where the
directory is the root or named by it, and elsewhere for the paths that do not climb above it. -/
theorem composes_iff (fs : Fs) (free : ∀ p name, fs.child p name ≠ some root) (path : String) (d : Nat)
    (leads : fs.Leads root (components path) d) (plain : ".." ∉ components path) (isDir : fs.isDir d = true) :
    ((∀ q, absolute q = false → fs.Composes d path q) ↔ (components path).length ≤ 1) ∧
      ∀ q, absolute q = false → ¬ fs.Climbs d q → fs.Composes d path q := by
  refine ⟨⟨fun composes => ?_, fun shallow q relative => composes_of_shallow isDir leads plain relative shallow⟩,
    fun q relative stays => composes_of_stays isDir leads plain relative stays⟩
  by_contra deep
  exact not_composes_up free isDir leads plain (by omega) (composes ".." (by decide))

/-- The directory `a/b`, with id 2, and `a`, with id 1. -/
def nested : Fs := Fs.new.ensureDirPath "a/b"

theorem nested_shaped : nested.Shaped := hostMoves_shaped (host_moves .new (.ensureDirPath "a/b")) .new

theorem nested_leads : nested.Leads root (components "a/b") 2 := by
  rw [show components "a/b" = ["a", "b"] by decide +kernel]
  exact ⟨1, by decide +kernel, 2, by decide +kernel, rfl⟩

theorem up_at_the_descriptor :
    nested.Shaped ∧ nested.isDir 2 = true ∧ nested.Leads root (components "a/b") 2 ∧
      nested.resolveAt 2 ".." true = some root ∧ nested.resolveAt root ("a/b" ++ "/" ++ "..") true = some 1 :=
  ⟨nested_shaped, by decide +kernel, nested_leads, by decide +kernel, by decide +kernel⟩

theorem nested_composes :
    (nested.Composes 1 "a" "b/../..") ∧ ¬ ∀ q, absolute q = false → nested.Composes 2 "a/b" q := by
  have one : components "a" = ["a"] := by decide +kernel
  have two : components "a/b" = ["a", "b"] := by decide +kernel
  have shallow := nested.composes_iff (fun _ _ => nested_shaped.rootFree) "a" 1
    (by rw [one]; exact ⟨1, by decide +kernel, rfl⟩) (by rw [one]; decide) (by decide +kernel)
  have deep := nested.composes_iff (fun _ _ => nested_shaped.rootFree) "a/b" 2 nested_leads
    (by rw [two]; decide) (by decide +kernel)
  rw [one] at shallow
  rw [two] at deep
  exact ⟨shallow.1.2 (by decide) _ (by decide), fun composes => absurd (deep.1.1 composes) (by decide)⟩

end Fs

end Wk.Vfs
