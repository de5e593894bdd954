/-
# Wk.Vfs.Creating -- a created node against the lookup of its path

Creating looks the whole path up, but puts the node where `resolve_parent` lands: it walks
the components but the last, from the descriptor even where the path starts at the root,
and takes the last as a name.  `Comes` is the walk of the path itself coming to stand
before that name.

* `create_found_iff`: the created node is what its path then leads to, and no entry is
  replaced, exactly where the name is free, is not `..`, and the path comes to it.
* `comes_of_near`: a path that is not absolute, or is taken from the root, comes to it.

Poles: `root_slash_lost` (a file created at `/x` from a descriptor is not at `/x`).
-/
import Wk.Vfs.Relative
import Wk.Vfs.Effects

namespace Wk.Vfs

open Wk.Library

set_option autoImplicit false

namespace Fs

open Walker

variable {fs : Fs} {p : Nat} {name : String} {node : FsNode} {follow : Bool}

/-! ## One turn -/

/-- What is ahead, by the entry and the node it names. -/
theorem ahead_entry {w : Walker} {comp : String} {rest : List String} (left : w.todo = comp :: rest) (plain : comp ≠ "..") :
    fs.ahead follow w =
      match fs.child w.cur comp with
      | none => .nowhere
      | some next =>
        match fs.nodes.lookup next with
        | some (.provider conn) => .mount next conn
        | some (.symlink target) => if !rest.isEmpty || follow then .link target else .child next
        | some _ => .child next
        | none => .nowhere := by
  rw [ahead, left]
  simp only [if_neg plain, child]
  cases fs.nodes.lookup w.cur with
  | none => rfl
  | some here =>
    cases here with
    | _ => rfl

/-- What is walked into is named. -/
theorem ahead_named {w : Walker} {next : Nat}
    (before : fs.ahead follow w = .child next ∨ ∃ conn, fs.ahead follow w = .mount next conn) :
    ∃ comp, fs.child w.cur comp = some next := by
  cases left : w.todo with
  | nil =>
    rw [ahead_arrived left] at before
    rcases before with same | ⟨_, same⟩ <;> cases same
  | cons comp rest =>
    by_cases climbs : comp = ".."
    · have upward : fs.ahead follow w = .up := ahead_up.2 (by rw [left, climbs]; rfl)
      rw [upward] at before
      rcases before with same | ⟨_, same⟩ <;> cases same
    rw [ahead_entry left climbs] at before
    cases named : fs.child w.cur comp with
    | none =>
      rw [named] at before
      rcases before with same | ⟨_, same⟩ <;> cases same
    | some found =>
      rw [named] at before
      have same : found = next := by
        dsimp only at before
        repeat' split at before
        all_goals rcases before with same | ⟨_, same⟩ <;> cases same <;> rfl
      exact ⟨comp, same ▸ named⟩

/-- The walk stands before the name, in its directory. -/
def Before (p : Nat) (name : String) (w : Walker) : Prop := w.cur = p ∧ w.todo.head? = some name

/-- The walk is nowhere near a node. -/
def Clear (id : Nat) (w : Walker) : Prop := w.cur ≠ id ∧ id ∉ w.ancestors

theorem Clear.up {id : Nat} {w : Walker} (clear : Clear id w) (notRoot : id ≠ root) : Clear id w.up := by
  obtain ⟨away, above⟩ := clear
  constructor
  · cases ancestors : w.ancestors with
    | nil => simpa [Walker.up, ancestors] using notRoot.symm
    | cons a rest =>
      rw [ancestors, List.mem_cons, not_or] at above
      simpa [Walker.up, ancestors] using Ne.symm above.1
  · exact fun member => above (List.mem_of_mem_tail member)

theorem Clear.into {id next : Nat} {w : Walker} (clear : Clear id w) (other : next ≠ id) : Clear id (w.into next) := by
  refine ⟨other, fun member => ?_⟩
  rcases List.mem_cons.1 member with same | above
  · exact clear.1 same.symm
  · exact clear.2 above

theorem Clear.across {id : Nat} {w : Walker} (clear : Clear id w) (notRoot : id ≠ root) (target : String) :
    Clear id (w.across target) := by
  unfold Walker.across
  by_cases anchored : absolute target
  · simpa [Clear, anchored] using notRoot.symm
  · simpa [Clear, anchored] using clear

theorem Clear.setOff {start : Nat} (shaped : fs.Shaped) (isDir : fs.isDir start = true) (path : String) :
    Clear fs.next (Walker.setOff start path) := by
  refine ⟨fun same => shaped.fresh ?_, List.not_mem_nil⟩
  change origin start path = fs.next at same
  rw [← same, origin]
  split
  · exact mem_of_isDir shaped.rootDir
  · exact mem_of_isDir isDir

/-- A turn does not come to a node that nothing names. -/
theorem Clear.turn {w w' : Walker} (clear : Clear fs.next w) (shaped : fs.Shaped)
    (goes : fs.turn false follow w = .inl w') : Clear fs.next w' := by
  have notRoot : fs.next ≠ root := shaped.root_lt.ne'
  have old : ∀ {next}, (fs.ahead follow w = .child next ∨ ∃ conn, fs.ahead follow w = .mount next conn) → next ≠ fs.next := by
    rintro next before rfl
    obtain ⟨comp, named⟩ := ahead_named before
    exact shaped.unnamed named
  unfold Fs.turn at goes
  cases before : fs.ahead follow w with
  | up =>
    simp only [before] at goes
    cases goes
    exact clear.up notRoot
  | link target =>
    simp only [before] at goes
    split at goes
    · cases goes
    · cases goes
      exact clear.across notRoot target
  | child next =>
    simp only [before] at goes
    cases goes
    exact clear.into (old (.inl before))
  | mount next conn =>
    simp only [before] at goes
    cases goes
    exact clear.into (old (.inr ⟨conn, before⟩))
  | _ =>
    simp only [before] at goes
    cases goes

/-- Before the name there was nowhere to go. -/
theorem turn_before {w : Walker} (free : fs.child p name = none) (plain : name ≠ "..") (before : Before p name w) :
    fs.turn false follow w = .inr .missing := by
  obtain ⟨here, first⟩ := before
  obtain ⟨rest, left⟩ : ∃ rest, w.todo = name :: rest := List.head?_eq_some_iff.1 first
  rw [turn, ahead_entry left plain, here, free]

/-! ## One turn with the node there -/

section
variable (shaped : fs.Shaped) (leaf : Childless node) (isDir : fs.isDir p = true)
include shaped leaf isDir

/-- Away from the name a turn is as before, and everywhere if the name is `..`. -/
theorem ahead_enter {w : Walker} (away : name = ".." ∨ ¬ Before p name w) :
    (fs.enter p name node).ahead follow w = fs.ahead follow w := by
  cases left : w.todo with
  | nil => rw [ahead_arrived left, ahead_arrived left]
  | cons comp rest =>
    by_cases climbs : comp = ".."
    · have upward : ∀ fs : Fs, fs.ahead follow w = .up := fun fs => ahead_up.2 (by rw [left, climbs]; rfl)
      rw [upward, upward]
    have entry : (fs.enter p name node).child w.cur comp = fs.child w.cur comp := by
      rw [child_enter shaped leaf isDir, if_neg]
      rintro ⟨here, rfl⟩
      exact (away.resolve_left climbs) ⟨here, by rw [left]; rfl⟩
    rw [ahead_entry left climbs, ahead_entry left climbs, entry]
    cases named : fs.child w.cur comp with
    | none => rfl
    | some next =>
      have old : next ≠ fs.next := fun same => shaped.unnamed (same ▸ named)
      by_cases here : next = p
      · -- the directory of the name has one more entry, and is a directory still
        subst here
        obtain ⟨children, found⟩ := isDir_iff.1 isDir
        have still : (fs.enter next name node).isDir next = true := (isDir_enter_of_ne old).trans isDir
        obtain ⟨more, grown⟩ := isDir_iff.1 still
        simp only [found, grown]
      · simp only [lookup_enter old here]

theorem turn_enter {w : Walker} (away : name = ".." ∨ ¬ Before p name w) :
    (fs.enter p name node).turn false follow w = fs.turn false follow w := by
  rw [turn, turn, ahead_enter shaped leaf isDir away]

omit leaf in
/-- A directory is an older node than the one to come. -/
theorem next_ne_dir : fs.next ≠ p := fun same => shaped.fresh (same.symm ▸ mem_of_isDir isDir)

/-- Before the name the walk goes into the node, unless that is a link to be followed. -/
theorem turn_into {w : Walker} (plain : name ≠ "..") (before : Before p name w)
    (stays : ∀ target, node = .symlink target → w.todo.tail = [] ∧ follow = false) :
    (fs.enter p name node).turn false follow w = .inl (w.into fs.next) := by
  obtain ⟨here, first⟩ := before
  obtain ⟨rest, left⟩ : ∃ rest, w.todo = name :: rest := List.head?_eq_some_iff.1 first
  have entry : (fs.enter p name node).child w.cur name = some fs.next := by
    rw [child_enter shaped leaf isDir, if_pos ⟨here, rfl⟩]
  rw [turn, ahead_entry left plain, entry]
  dsimp only
  rw [lookup_enter_self (next_ne_dir shaped isDir)]
  cases node with
  | symlink target =>
    obtain ⟨none_left, rfl⟩ := stays target rfl
    rw [left, List.tail_cons] at none_left
    subst none_left
    rfl
  | _ => rfl

/-- Or else across it. -/
theorem turn_across {w : Walker} {target : String} (plain : name ≠ "..") (before : Before p name w)
    (link : node = .symlink target) (more : w.todo.tail ≠ []) :
    (fs.enter p name node).turn false follow w =
      if maxSymlinkHops < w.hops + 1 then .inr .missing else .inl (w.across target) := by
  obtain ⟨here, first⟩ := before
  obtain ⟨rest, left⟩ : ∃ rest, w.todo = name :: rest := List.head?_eq_some_iff.1 first
  have entry : (fs.enter p name node).child w.cur name = some fs.next := by
    rw [child_enter shaped leaf isDir, if_pos ⟨here, rfl⟩]
  have crossed : (!rest.isEmpty || follow) = true := by
    rw [left, List.tail_cons] at more
    simp [List.isEmpty_eq_false_iff.2 more]
  rw [turn, ahead_entry left plain, entry]
  dsimp only
  rw [lookup_enter_self (next_ne_dir shaped isDir), link]
  simp only [if_pos crossed]

/-- From the node itself there is no way but up. -/
theorem turn_from {w : Walker} (here : w.cur = fs.next) :
    (fs.enter p name node).turn false follow w =
      if w.todo = [] then .inr (.done fs.next) else if w.todo.head? = some ".." then .inl w.up else .inr .missing := by
  cases left : w.todo with
  | nil => rw [turn, ahead_arrived left, here]; rfl
  | cons comp rest =>
    rw [if_neg (List.cons_ne_nil _ _), List.head?_cons]
    by_cases climbs : comp = ".."
    · rw [turn, ahead_up.2 (by rw [left, climbs]; rfl), if_pos (congrArg some climbs)]
    · have nothing : (fs.enter p name node).child w.cur comp = none := by
        rw [child_enter shaped leaf isDir, here, if_neg fun both => next_ne_dir shaped isDir both.1,
          child_none shaped.next_notDir]
      rw [turn, ahead_entry left climbs, nothing, if_neg fun same => climbs (Option.some.inj same)]

/-- So before the name it is either, and across only with more to walk. -/
theorem turn_at {w : Walker} (plain : name ≠ "..") (lazy : ∀ target, node = .symlink target → follow = false)
    (before : Before p name w) :
    ((fs.enter p name node).turn false follow w = .inl (w.into fs.next) ∧
        ∀ target, node = .symlink target → w.todo.tail = []) ∨
      ∃ target, node = .symlink target ∧ w.todo.tail ≠ [] ∧
        (fs.enter p name node).turn false follow w =
          if maxSymlinkHops < w.hops + 1 then .inr .missing else .inl (w.across target) := by
  by_cases crosses : (∃ target, node = .symlink target) ∧ w.todo.tail ≠ []
  · obtain ⟨⟨target, link⟩, more⟩ := crosses
    exact .inr ⟨target, link, more, turn_across shaped leaf isDir plain before link more⟩
  · have lone : ∀ target, node = .symlink target → w.todo.tail = [] := fun target link =>
      not_not.1 fun more => crosses ⟨⟨target, link⟩, more⟩
    exact .inl ⟨turn_into shaped leaf isDir plain before fun target link => ⟨lone target link, lazy target link⟩, lone⟩

end

theorem todo_of_arrived {w : Walker} (before : fs.ahead follow w = .arrived) : w.todo = [] := by
  unfold ahead at before
  split at before
  · assumption
  · repeat' split at before
    all_goals cases before

/-- A walk ends where it stands, with nothing left. -/
theorem turn_done {w : Walker} {id : Nat} (last : fs.turn false follow w = .inr (.done id)) : w.todo = [] ∧ w.cur = id := by
  unfold turn at last
  split at last
  · next before =>
      cases last
      exact ⟨todo_of_arrived before, rfl⟩
  all_goals repeat' split at last
  all_goals cases last

/-! ## Coming to the name -/

/-- The walk comes to stand in `p` with `name` as the last that is left.  Coming by the name
with more to walk, it is as if `node` stood there: back up from it, or across it if it is a
link. -/
inductive Comes (fs : Fs) (p : Nat) (name : String) (node : FsNode) (follow : Bool) : Walker → Prop
  | stands {w : Walker} (here : w.cur = p) (last : w.todo = [name]) : Comes fs p name node follow w
  | goes {w w' : Walker} (goes : fs.turn false follow w = .inl w') (rest : Comes fs p name node follow w') :
      Comes fs p name node follow w
  | back {w : Walker} {rest : List String} (here : w.cur = p) (left : w.todo = name :: ".." :: rest)
      (noLink : ∀ target, node ≠ .symlink target) (on : Comes fs p name node follow { w with todo := rest }) :
      Comes fs p name node follow w
  | across {w : Walker} {target : String} (before : Before p name w) (more : w.todo.tail ≠ [])
      (link : node = .symlink target) (few : ¬ maxSymlinkHops < w.hops + 1)
      (on : Comes fs p name node follow (w.across target)) : Comes fs p name node follow w

section
variable (shaped : fs.Shaped) (leaf : Childless node) (isDir : fs.isDir p = true) (free : fs.child p name = none)
  (plain : name ≠ "..") (lazy : ∀ target, node = .symlink target → follow = false)
include shaped leaf isDir free plain lazy

/-- A walk that comes to the name ends at the node. -/
theorem Comes.lands {w : Walker} (comes : fs.Comes p name node follow w) (clear : Clear fs.next w) :
    Ends ((fs.enter p name node).turn false follow) w (.done fs.next) := by
  have notRoot : fs.next ≠ root := shaped.root_lt.ne'
  induction comes with
  | @stands w here last =>
    have before : Before p name w := ⟨here, by rw [last]; rfl⟩
    have into := turn_into shaped leaf isDir plain before fun target link => ⟨by rw [last]; rfl, lazy target link⟩
    refine .goes into (.returns ?_)
    have none_left : (w.into fs.next).todo = [] := by rw [Walker.into, last]; rfl
    rw [turn_from shaped leaf isDir rfl, if_pos none_left]
  | @goes w w' goes _ ih =>
    have away : ¬ Before p name w := fun before => by cases goes.symm.trans (turn_before free plain before)
    exact .goes ((turn_enter shaped leaf isDir (.inr away)).trans goes) (ih (clear.turn shaped goes))
  | @back w rest here left noLink _ ih =>
    have before : Before p name w := ⟨here, by rw [left]; rfl⟩
    have into : (fs.enter p name node).turn false follow w = .inl (w.into fs.next) :=
      turn_into shaped leaf isDir plain before fun target link => absurd link (noLink target)
    have left' : (w.into fs.next).todo = ".." :: rest := by rw [Walker.into, left]; rfl
    have upward : (fs.enter p name node).turn false follow (w.into fs.next) = .inl { w with todo := rest } := by
      rw [turn_from shaped leaf isDir rfl, left', if_neg (List.cons_ne_nil _ _), List.head?_cons, if_pos rfl, Walker.up, left']
      rfl
    exact .goes into (.goes upward (ih clear))
  | @across w target before more link few _ ih =>
    have crossed : (fs.enter p name node).turn false follow w = .inl (w.across target) :=
      (turn_across shaped leaf isDir plain before link more).trans (if_neg few)
    exact .goes crossed (ih (clear.across notRoot target))

omit free in
/-- A walk that ends at the node comes to the name; and so did the walk that has just gone
into the node, if it ends there. -/
theorem comes_of_lands {w : Walker} (ended : Ends ((fs.enter p name node).turn false follow) w (.done fs.next)) :
    (Clear fs.next w → fs.Comes p name node follow w) ∧
      ∀ v, w = v.into fs.next → Before p name v → Clear fs.next v →
        (∀ target, node = .symlink target → v.todo.tail = []) → fs.Comes p name node follow v := by
  have notRoot : fs.next ≠ root := shaped.root_lt.ne'
  generalize lands : WalkEnd.done fs.next = e at ended
  induction ended with
  | @returns w e last =>
    subst lands
    constructor
    · intro clear
      by_cases before : Before p name w
      · rcases turn_at shaped leaf isDir plain lazy before with ⟨into, _⟩ | ⟨target, _, _, crossed⟩
        · cases into.symm.trans last
        · rw [crossed] at last
          split at last <;> cases last
      · rw [turn_enter shaped leaf isDir (.inr before)] at last
        exact absurd (turn_done last).2 clear.1
    · rintro v rfl ⟨here, first⟩ _ _
      rw [turn_from shaped leaf isDir rfl] at last
      obtain ⟨rest, left⟩ : ∃ rest, v.todo = name :: rest := List.head?_eq_some_iff.1 first
      have same : (v.into fs.next).todo = rest := by rw [Walker.into, left]; rfl
      rw [same] at last
      split at last
      · next none_left => exact .stands here (none_left ▸ left)
      · split at last <;> cases last
  | @goes w w' e goes _ ih =>
    obtain ⟨on, inside⟩ := ih lands
    constructor
    · intro clear
      by_cases before : Before p name w
      · rcases turn_at shaped leaf isDir plain lazy before with ⟨into, lone⟩ | ⟨target, link, more, crossed⟩
        · exact inside w (Sum.inl.inj (goes.symm.trans into)) before clear lone
        · rw [crossed] at goes
          split at goes
          · cases goes
          · next few =>
              cases goes
              exact .across before more link few (on (clear.across notRoot target))
      · rw [turn_enter shaped leaf isDir (.inr before)] at goes
        exact .goes goes (on (clear.turn shaped goes))
    · rintro v rfl ⟨here, first⟩ clear lone
      rw [turn_from shaped leaf isDir rfl] at goes
      obtain ⟨rest, left⟩ : ∃ rest, v.todo = name :: rest := List.head?_eq_some_iff.1 first
      have same : (v.into fs.next).todo = rest := by rw [Walker.into, left]; rfl
      rw [same] at goes
      split at goes
      · cases goes
      · split at goes
        · next upward =>
            -- back in the directory, with the name and `..` off the worklist
            cases goes
            obtain ⟨after, rfl⟩ := List.head?_eq_some_iff.1 upward
            have noLink : ∀ target, node ≠ .symlink target := fun target link => by
              have none_left := lone target link
              rw [left] at none_left
              cases none_left
            have back : (v.into fs.next).up = { v with todo := after } := by rw [Walker.up, same]; rfl
            exact .back here left noLink (back ▸ on (back ▸ clear))
        · cases goes

/-- The lookup of a path, with the node there, is the node exactly where the path comes to
its name. -/
theorem resolveAt_enter_iff {start : Nat} {path : String} (startDir : fs.isDir start = true) :
    (fs.enter p name node).resolveAt start path follow = some fs.next ↔ fs.Comes p name node follow (setOff start path) := by
  have clear : Clear fs.next (setOff start path) := .setOff shaped startDir path
  have ended : Ends ((fs.enter p name node).turn false follow) (setOff start path)
      ((fs.enter p name node).endOf false follow (setOff start path)) := turn_ends _
  have found : (fs.enter p name node).resolveAt start path follow =
      foundAt ((fs.enter p name node).endOf false follow (setOff start path)) := rfl
  rw [found]
  constructor
  · intro lands
    cases e : (fs.enter p name node).endOf false follow (setOff start path) with
    | done id =>
      rw [e] at lands ended
      cases lands
      exact (comes_of_lands shaped leaf isDir plain lazy ended).1 clear
    | _ =>
      rw [e] at lands
      cases lands
  · intro comes
    rw [ended.unique (comes.lands shaped leaf isDir free plain lazy clear)]
    rfl

omit free plain lazy in
/-- A node named `..` is not found at all. -/
theorem resolveAt_enter_up {start : Nat} {path : String} (startDir : fs.isDir start = true) (climbs : name = "..") :
    (fs.enter p name node).resolveAt start path follow ≠ some fs.next := by
  have never : ∀ {w e}, Ends ((fs.enter p name node).turn false follow) w e → Clear fs.next w → e ≠ .done fs.next := by
    intro w e ended
    induction ended with
    | @returns w e last =>
      rintro clear rfl
      rw [turn_enter shaped leaf isDir (.inl climbs)] at last
      exact clear.1 (turn_done last).2
    | @goes w w' e goes _ ih =>
      intro clear
      rw [turn_enter shaped leaf isDir (.inl climbs)] at goes
      exact ih (clear.turn shaped goes)
  have clear : Clear fs.next (setOff start path) := .setOff shaped startDir path
  have other := never (turn_ends (setOff start path)) clear
  intro lands
  change foundAt ((fs.enter p name node).endOf false follow (setOff start path)) = some fs.next at lands
  cases e : (fs.enter p name node).endOf false follow (setOff start path) with
  | done id =>
    rw [e] at lands other
    cases lands
    exact other rfl
  | _ =>
    rw [e] at lands
    cases lands

end

/-! ## Paths that come to their name -/

/-- With more to walk after, following the last link makes no difference. -/
theorem turn_append_name {w w' : Walker} (name : String) (goes : fs.turn false true w = .inl w') :
    fs.turn false follow { w with todo := w.todo ++ [name] } = .inl { w' with todo := w'.todo ++ [name] } := by
  have appended := turn_append [name] goes (.inr rfl)
  have left : w.todo ≠ [] := by
    intro none_left
    rw [turn, ahead_arrived none_left] at goes
    cases goes
  have more : (w.todo ++ [name]).tail ≠ [] := by
    rw [List.tail_append_of_ne_nil left]
    exact List.append_ne_nil_of_right_ne_nil _ (List.cons_ne_nil _ _)
  have same : fs.ahead follow { w with todo := w.todo ++ [name] } = fs.ahead true { w with todo := w.todo ++ [name] } := by
    obtain ⟨comp, rest, whole⟩ := List.exists_cons_of_ne_nil (List.append_ne_nil_of_left_ne_nil left [name])
    rw [whole, List.tail_cons] at more
    simp only [ahead, whole, List.isEmpty_eq_false_iff.2 more, Bool.not_false, Bool.true_or]
  rw [← appended, turn, turn, same]

/-- A path that is taken from where `resolve_parent` takes it comes to its name. -/
theorem comes_of_near {start : Nat} {path : String} (near : absolute path = false ∨ start = root)
    (landing : fs.resolveParent start path = some (p, name)) : fs.Comes p name node follow (setOff start path) := by
  have started : origin start path = start := by
    rcases near with relative | rfl
    · rw [origin, relative]; rfl
    · rw [origin, ite_self]
  have some_left : components path ≠ [] := by
    intro none_left
    rw [resolveParent, none_left] at landing
    cases landing
  obtain ⟨dirs, last, split⟩ := (List.eq_nil_or_concat' (components path)).resolve_left some_left
  rw [resolveParent_append split] at landing
  have walked : Ends (fs.turn false true) ⟨0, dirs, start, []⟩ (fs.endOf false true ⟨0, dirs, start, []⟩) := turn_ends _
  obtain ⟨w, way, stops⟩ := walked.last
  obtain ⟨lands, rfl⟩ : fs.endOf false true ⟨0, dirs, start, []⟩ = .done p ∧ last = name := by
    cases e : fs.endOf false true ⟨0, dirs, start, []⟩ with
    | done id =>
      rw [e] at landing
      dsimp only [foundAt] at landing
      split at landing
      · cases landing
        exact ⟨rfl, rfl⟩
      · cases landing
    | _ =>
      rw [e] at landing
      cases landing
  rw [lands] at stops
  obtain ⟨none_left, here⟩ := turn_done stops
  have comes : fs.Comes p last node follow ⟨0, dirs ++ [last], start, []⟩ := by
    -- the walk of the directories, with the name after them
    have along : ∀ {v}, ComesBy (fs.turn false true) v w → fs.Comes p last node follow { v with todo := v.todo ++ [last] } := by
      intro v way
      induction way using Relation.ReflTransGen.head_induction_on with
      | refl => exact .stands here (by rw [none_left]; rfl)
      | head goes _ ih => exact .goes (turn_append_name last goes) ih
    exact along way
  rw [setOff, split, started]
  exact comes

end Fs

/-! ## The operations -/

/-- The requests that can make a node at a path: opening with `create`, following links,
making a directory, and making a symbolic link. -/
inductive Creation where
  | file (flags : OpenFlags)
  | directory
  | symlink (target : String)

namespace Creation

def op (fd : Nat) (path : String) : Creation → Op
  | file flags => .openAt fd true path flags
  | directory => .createDirectoryAt fd path
  | symlink target => .symlinkAt fd target path

/-- The node it makes. -/
def node : Creation → FsNode
  | file _ => .file []
  | directory => .dir ∅
  | symlink target => .symlink target

/-- Whether the node is looked up across a final link: a new link is not. -/
def follows : Creation → Bool
  | symlink _ => false
  | _ => true

theorem childless : ∀ c : Creation, Fs.Childless c.node
  | file _ => Fs.childless_of_ne fun _ same => by cases same
  | directory => Fs.childless_dir
  | symlink _ => Fs.childless_of_ne fun _ same => by cases same

theorem lazy (c : Creation) (target : String) (link : c.node = .symlink target) : c.follows = false := by
  cases c <;> first | rfl | cases link

end Creation

namespace Fs

/-- The new node, with the next id, is what its path leads to, and every entry that was
there still is. -/
def Agrees (fs fs' : Fs) (start : Nat) (path : String) (c : Creation) : Prop :=
  fs'.resolveAt start path c.follows = some fs.next ∧ ∀ d k id, fs.child d k = some id → fs'.child d k = some id

/-- Where `resolve_parent` lands the name is free and can be looked up, and the path comes to
it. -/
def Aimed (fs : Fs) (start : Nat) (path : String) (c : Creation) : Prop :=
  ∃ p name, fs.resolveParent start path = some (p, name) ∧ fs.child p name = none ∧ name ≠ ".." ∧
    fs.Comes p name c.node c.follows (.setOff start path)

theorem endOf_openRef (fs : Fs) (id : Nat) (w : Walker) (follow : Bool) :
    (fs.openRef id).endOf false follow w = fs.endOf false follow w := by
  have ended : Ends ((fs.openRef id).turn false follow) w ((fs.openRef id).endOf false follow w) := turn_ends w
  have same : (fs.openRef id).turn false follow = fs.turn false follow := rfl
  rw [same] at ended
  exact ended.unique (turn_ends w)

theorem resolveAt_openRef (fs : Fs) (id start : Nat) (path : String) (follow : Bool) :
    (fs.openRef id).resolveAt start path follow = fs.resolveAt start path follow :=
  congrArg foundAt (fs.endOf_openRef id (.setOff start path) follow)

/-- A node that enters where `resolve_parent` lands agrees exactly where that is aimed. -/
theorem agrees_enter_iff {fs : Fs} {start p : Nat} {path name : String} (c : Creation) (shaped : fs.Shaped)
    (startDir : fs.isDir start = true) (landing : fs.resolveParent start path = some (p, name)) :
    fs.Agrees (fs.enter p name c.node) start path c ↔ fs.Aimed start path c := by
  have isDir := resolveParent_isDir landing
  have added : (fs.enter p name c.node).child p name = some fs.next := by
    rw [child_enter shaped c.childless isDir, if_pos ⟨rfl, rfl⟩]
  constructor
  · rintro ⟨found, kept⟩
    have free : fs.child p name = none := by
      by_contra taken
      obtain ⟨id, entry⟩ := Option.ne_none_iff_exists'.1 taken
      have same : fs.next = id := Option.some.inj (added.symm.trans (kept p name id entry))
      exact shaped.unnamed (same ▸ entry)
    have plain : name ≠ ".." := fun climbs => resolveAt_enter_up shaped c.childless isDir startDir climbs found
    exact ⟨p, name, landing, free, plain,
      (resolveAt_enter_iff shaped c.childless isDir free plain c.lazy startDir).1 found⟩
  · rintro ⟨p', name', landing', free, plain, comes⟩
    cases landing.symm.trans landing'
    refine ⟨(resolveAt_enter_iff shaped c.childless isDir free plain c.lazy startDir).2 comes, fun d k id entry => ?_⟩
    rw [child_enter shaped c.childless isDir, if_neg, entry]
    rintro ⟨rfl, rfl⟩
    cases free.symm.trans entry

end Fs

namespace Machine

variable {m : Machine} {env : Env} {fd start : Nat} {path : String}

/-- Where a creating request hands out an id, its node enters where `resolve_parent` lands. -/
theorem created_enters (c : Creation) (held : m.fds.lookup fd = some (.node start))
    (created : (m.step env (c.op fd path)).1.fs.next ≠ m.fs.next) :
    ∃ p name, m.fs.resolveParent start path = some (p, name) ∧
      ((m.step env (c.op fd path)).1.fs = m.fs.enter p name c.node ∨
        (m.step env (c.op fd path)).1.fs = (m.fs.enter p name c.node).openRef m.fs.next) := by
  have effect := (m.step_effect env (c.op fd path)).effect
  generalize (m.step env (c.op fd path)).1.fs = fs at effect created ⊢
  generalize (m.step env (c.op fd path)).1.fds = fds at effect
  generalize asked : c.op fd path = op at effect
  cases effect with
  | created place _ _ landing _ =>
    cases c <;> cases asked
    cases held.symm.trans place
    exact ⟨_, _, landing, .inr rfl⟩
  | madeDirectory place landing _ _ =>
    cases c <;> cases asked
    cases held.symm.trans place
    exact ⟨_, _, landing, .inl rfl⟩
  | symlinked place landing _ _ =>
    cases c <;> cases asked
    cases held.symm.trans place
    exact ⟨_, _, landing, .inl rfl⟩
  | @unlinked _ _ _ _ dir => cases c <;> cases dir <;> cases asked
  | linked | renamed | closed | closedRemote => cases c <;> cases asked
  | _ => exact absurd rfl created

/-- **Creating and looking up.** Where a request makes a node, looking its path up again
finds just that node, and no entry is replaced, exactly where the creation was aimed. -/
theorem create_found_iff (c : Creation) (shaped : m.fs.Shaped) (held : m.fds.lookup fd = some (.node start))
    (isDir : m.fs.isDir start = true) (created : (m.step env (c.op fd path)).1.fs.next ≠ m.fs.next) :
    m.fs.Agrees (m.step env (c.op fd path)).1.fs start path c ↔ m.fs.Aimed start path c := by
  obtain ⟨p, name, landing, same | same⟩ := created_enters c held created
  · rw [same]
    exact Fs.agrees_enter_iff c shaped isDir landing
  · rw [same]
    refine Iff.trans ?_ (Fs.agrees_enter_iff c shaped isDir landing)
    rw [Fs.Agrees, Fs.resolveAt_openRef]
    rfl

/-- A guest with a descriptor onto the directory `a`. -/
def insideA : Machine := { boot Fs.nested .empty with fds := (∅ : Table Nat DescPlace).insert 0 (.node 1), next := 1 }

theorem create_found_iff_relative :
    Fs.nested.Agrees (insideA.step .quiet ((Creation.symlink "b").op 0 "x")).1.fs 1 "x" (.symlink "b") ↔
      Fs.nested.Aimed 1 "x" (.symlink "b") :=
  create_found_iff (m := insideA) (.symlink "b") Fs.nested_shaped rfl (by decide +kernel) (by decide +kernel)

/-- From a descriptor below the root, a file created at `/x` is not what `/x` leads to. -/
theorem root_slash_lost :
    ¬ ∀ (m : Machine) (env : Env) (fd start : Nat) (path : String) (c : Creation), m.fs.Shaped →
      m.fds.lookup fd = some (.node start) → m.fs.isDir start = true →
      (m.step env (c.op fd path)).1.fs.next ≠ m.fs.next →
      m.fs.Agrees (m.step env (c.op fd path)).1.fs start path c := by
  intro every
  have agrees := every insideA .quiet 0 1 "/x" (.file { create := true }) Fs.nested_shaped rfl (by decide +kernel) (by decide +kernel)
  have lost : (insideA.step .quiet ((Creation.file { create := true }).op 0 "/x")).1.fs.resolveAt 1 "/x" true = none := by
    decide +kernel
  cases lost.symm.trans agrees.1

end Machine

end Wk.Vfs
