/-
# Wk.Vfs.Resolvers -- the two path resolvers, turn by turn

`resolve_at` and `resolve_place` are two loops over one kind of worklist: the components
still to walk, where the walk is, the way it took there and the symbolic links it crossed.
A link pushes the components of its target back onto the worklist.  Every turn crosses one
of at most `maxSymlinkHops` links or shortens the worklist, so both loops end, on every
filesystem (`turn_ends`).  They return what `resolveAt` and `resolvePlace` compute, and
they return alike unless the walk comes upon a provider (`resolvers_agree`), which is
exactly when `resolvePlace` hands the rest over (`meetsProvider_iff`).
-/
import Wk.Vfs
import Wk.Library.Loop

namespace Wk.Vfs

open Wk.Library

set_option autoImplicit false

/-- A walk under way. -/
structure Walker where
  /-- Symbolic links crossed so far. -/
  hops : Nat
  /-- The components still to walk, the next one first. -/
  todo : List String
  cur : Nat
  /-- The directories walked through to get to `cur`, the latest first. -/
  ancestors : List Nat

namespace Walker

def setOff (start : Nat) (path : String) : Walker where
  hops := 0
  todo := components path
  cur := Fs.origin start path
  ancestors := []

/-- Back up the way the walk came. -/
def up (w : Walker) : Walker :=
  { w with todo := w.todo.tail, cur := w.ancestors.headD root, ancestors := w.ancestors.tail }

/-- Into `next`, a child of `cur`. -/
def into (w : Walker) (next : Nat) : Walker :=
  { w with todo := w.todo.tail, cur := next, ancestors := w.cur :: w.ancestors }

/-- Across a symbolic link, whose own components come before what is left. -/
def across (w : Walker) (target : String) : Walker where
  hops := w.hops + 1
  todo := components target ++ w.todo.tail
  cur := if Fs.absolute target then root else w.cur
  ancestors := if Fs.absolute target then [] else w.ancestors

/-- One more link is crossed, or as many and the worklist is shorter. -/
def Lower (w' w : Walker) : Prop :=
  Prod.Lex (· < ·) (· < ·) (maxSymlinkHops + 1 - w'.hops, w'.todo.length) (maxSymlinkHops + 1 - w.hops, w.todo.length)

theorem lower_wellFounded : WellFounded Lower :=
  InvImage.wf (fun w : Walker => (maxSymlinkHops + 1 - w.hops, w.todo.length)) (wellFounded_lt.prod_lex wellFounded_lt)

variable {w : Walker}

theorem tail_lower (left : w.todo ≠ []) : w.todo.tail.length < w.todo.length := by
  have positive := List.length_pos_iff.2 left
  rw [List.length_tail]
  omega

theorem up_lower (left : w.todo ≠ []) : w.up.Lower w := Prod.Lex.right _ (tail_lower left)

theorem into_lower {next : Nat} (left : w.todo ≠ []) : (w.into next).Lower w := Prod.Lex.right _ (tail_lower left)

theorem across_lower {target : String} (few : ¬ maxSymlinkHops < w.hops + 1) : (w.across target).Lower w :=
  Prod.Lex.left _ _ (by simp only [across]; omega)

end Walker

namespace Fs

open Walker

/-- One turn of the loop of `resolve_at`. -/
def turnAt (fs : Fs) (followFinal : Bool) (w : Walker) : Walker ⊕ Option Nat :=
  match w.todo with
  | [] => .inr (some w.cur)
  | comp :: rest =>
    if comp = ".." then .inl (w.up)
    else
      match fs.nodes.lookup w.cur with
      | some (.dir children) =>
        match children.lookup comp with
        | none => .inr none
        | some next =>
          match fs.nodes.lookup next with
          | some (.symlink target) =>
            if !rest.isEmpty || followFinal then
              if maxSymlinkHops < w.hops + 1 then .inr none else .inl (w.across target)
            else .inl (w.into next)
          | some _ => .inl (w.into next)
          | none => .inr none
      -- nothing there, or no directory in the middle of a path
      | _ => .inr none

/-- One turn of the loop of `resolve_place`. -/
def turnPlace (fs : Fs) (followFinal : Bool) (w : Walker) : Walker ⊕ Resolved :=
  match w.todo with
  | [] => .inr (.node w.cur)
  | comp :: rest =>
    if comp = ".." then .inl (w.up)
    else
      match fs.nodes.lookup w.cur with
      | some (.dir children) =>
        match children.lookup comp with
        | none => .inr .missing
        | some next =>
          match fs.nodes.lookup next with
          | some (.provider conn) =>
            .inr (.remote conn ("/".intercalate rest) (next ∈ fs.readonly))
          | some (.symlink target) =>
            if !rest.isEmpty || followFinal then
              if maxSymlinkHops < w.hops + 1 then .inr .missing else .inl (w.across target)
            else .inl (w.into next)
          | some _ => .inl (w.into next)
          | none => .inr .missing
      | _ => .inr .missing

/-- `resolve_at` returns `found`. -/
def ReturnsAt (fs : Fs) (start : Nat) (path : String) (followFinal : Bool) (found : Option Nat) : Prop :=
  Ends (fs.turnAt followFinal) (setOff start path) found

/-- `resolve_place` returns `place`: at once where the walk starts at a provider, else what
its loop ends with. -/
def ReturnsPlace (fs : Fs) (start : Nat) (path : String) (followFinal : Bool) (place : Resolved) : Prop :=
  match fs.nodes.lookup (origin start path) with
  | some (.provider conn) =>
    place = .remote conn ("/".intercalate (components path)) (origin start path ∈ fs.readonly)
  | _ => Ends (fs.turnPlace followFinal) (setOff start path) place

/-! ## What the loops return -/

section Loops

variable {fs : Fs} {crossing followFinal : Bool}

/-- Where the walk of `w` ends once its links are followed. -/
def endOf (fs : Fs) (crossing followFinal : Bool) (w : Walker) : WalkEnd :=
  fs.follow crossing followFinal (maxSymlinkHops - w.hops) (fs.walk crossing followFinal w.todo w.cur w.ancestors)

/-- What a walk has before it. -/
inductive Ahead where
  | arrived
  | nowhere
  | up
  | child (next : Nat)
  | link (target : String)
  | mount (next : Nat) (conn : NodeId)

def ahead (fs : Fs) (followFinal : Bool) (w : Walker) : Ahead :=
  match w.todo with
  | [] => .arrived
  | comp :: rest =>
    if comp = ".." then .up
    else
      match fs.nodes.lookup w.cur with
      | some (.dir children) =>
        match children.lookup comp with
        | none => .nowhere
        | some next =>
          match fs.nodes.lookup next with
          | some (.provider conn) => .mount next conn
          | some (.symlink target) => if !rest.isEmpty || followFinal then .link target else .child next
          | some _ => .child next
          | none => .nowhere
      | _ => .nowhere

/-- The turn of either loop: `resolve_place` stops at a mount, `resolve_at` does not. -/
def turn (fs : Fs) (crossing followFinal : Bool) (w : Walker) : Walker ⊕ WalkEnd :=
  match fs.ahead followFinal w with
  | .arrived => .inr (.done w.cur)
  | .nowhere => .inr .missing
  | .up => .inl w.up
  | .child next => .inl (w.into next)
  | .link target => if maxSymlinkHops < w.hops + 1 then .inr .missing else .inl (w.across target)
  | .mount next conn => if crossing then .inr (.remote next conn w.todo.tail) else .inl (w.into next)

theorem ahead_arrived {w : Walker} (none_left : w.todo = []) : fs.ahead followFinal w = .arrived := by
  rw [ahead, none_left]

theorem turn_lowers {w w' : Walker} (turned : fs.turn crossing followFinal w = .inl w') : w'.Lower w := by
  have left : w.todo ≠ [] := by
    intro none_left
    rw [turn, ahead_arrived none_left] at turned
    cases turned
  unfold turn at turned
  split at turned
  · cases turned
  · cases turned
  · cases turned
    exact up_lower left
  · cases turned
    exact into_lower left
  · split at turned
    · cases turned
    · next few =>
        cases turned
        exact across_lower few
  · split at turned
    · cases turned
    · cases turned
      exact into_lower left

@[simp] theorem followed_done (hops id : Nat) : fs.follow crossing followFinal hops (.done id) = .done id := by
  cases hops <;> rfl

@[simp] theorem followed_missing (hops : Nat) : fs.follow crossing followFinal hops .missing = .missing := by
  cases hops <;> rfl

@[simp] theorem followed_remote (hops mount : Nat) (conn : NodeId) (rest : List String) :
    fs.follow crossing followFinal hops (.remote mount conn rest) = .remote mount conn rest := by
  cases hops <;> rfl

/-- A link the walk stops at, followed: within the budget from its target, past it nowhere. -/
theorem follow_link (crossing followFinal : Bool) (w : Walker) (target : String) :
    fs.follow crossing followFinal (maxSymlinkHops - w.hops) (.link target w.todo.tail w.cur w.ancestors) =
      if maxSymlinkHops < w.hops + 1 then .missing else fs.endOf crossing followFinal (w.across target) := by
  split
  · next spent =>
      rw [show maxSymlinkHops - w.hops = 0 by omega]
      rfl
  · next few =>
      rw [show maxSymlinkHops - w.hops = maxSymlinkHops - (w.hops + 1) + 1 by omega]
      by_cases anchored : absolute target <;> simp [follow, endOf, across, anchored]

/-- A walk ends where it ends after one more turn. -/
theorem endOf_turn (w : Walker) :
    fs.endOf crossing followFinal w = (fs.turn crossing followFinal w).elim (fs.endOf crossing followFinal) id := by
  obtain ⟨hops, todo, cur, ancestors⟩ := w
  cases todo with
  | nil => simp [turn, ahead, endOf, walk]
  | cons comp rest =>
    by_cases climbs : comp = ".."
    · simp [turn, ahead, endOf, walk, up, climbs]
    cases here : fs.nodes.lookup cur with
    | none => simp [turn, ahead, endOf, walk, climbs, here]
    | some node =>
      cases node with
      | dir children =>
        cases named : children.lookup comp with
        | none => simp [turn, ahead, endOf, walk, climbs, here, named]
        | some next =>
          cases there : fs.nodes.lookup next with
          | none => simp [turn, ahead, endOf, walk, climbs, here, named, there]
          | some node =>
            cases node with
            | symlink target =>
              by_cases ends : rest = [] ∧ followFinal = false
              · obtain ⟨rfl, rfl⟩ := ends
                simp [turn, ahead, endOf, walk, into, climbs, here, named, there]
              · have crossed : (!rest.isEmpty || followFinal) = true := by
                  cases rest <;> cases followFinal <;> simp_all
                have stops : (rest.isEmpty && !followFinal) = false := by
                  cases rest <;> cases followFinal <;> simp_all
                have linked := fs.follow_link crossing followFinal
                  ⟨hops, comp :: rest, cur, ancestors⟩ target
                simp only [turn, ahead, endOf, walk, climbs, here, named, there, crossed, stops, if_true, if_false,
                  Bool.false_eq_true]
                refine linked.trans ?_
                split <;> rfl
            | provider conn => cases crossing <;> simp [turn, ahead, endOf, walk, into, climbs, here, named, there]
            | _ => simp [turn, ahead, endOf, walk, into, climbs, here, named, there]
      | _ => simp [turn, ahead, endOf, walk, climbs, here]

/-- The common loop ends, wherever it is entered. -/
theorem turn_ends (w : Walker) : Ends (fs.turn crossing followFinal) w (fs.endOf crossing followFinal w) := by
  refine Ends.of_lowers lower_wellFounded _ (fun _ _ => turn_lowers) ?_ ?_ w
  · intro w w' turned
    rw [endOf_turn w, turned]
    rfl
  · intro w r turned
    rw [endOf_turn w, turned]
    rfl

/-- What `resolve_at` makes of where its walk ends. -/
def foundAt : WalkEnd → Option Nat
  | .done id => some id
  | _ => none

/-- What `resolve_place` makes of where its walk ends. -/
def placeAt (fs : Fs) : WalkEnd → Resolved
  | .done id => .node id
  | .remote mount conn rest => .remote conn ("/".intercalate rest) (mount ∈ fs.readonly)
  | _ => .missing

theorem turnAt_eq (w : Walker) : fs.turnAt followFinal w = (fs.turn false followFinal w).map id foundAt := by
  obtain ⟨hops, todo, cur, ancestors⟩ := w
  cases todo with
  | nil => rfl
  | cons comp rest =>
    by_cases climbs : comp = ".."
    · simp [turnAt, turn, ahead, climbs]
    cases here : fs.nodes.lookup cur with
    | none => simp [turnAt, turn, ahead, climbs, here, foundAt]
    | some node =>
      cases node with
      | dir children =>
        cases named : children.lookup comp with
        | none => simp [turnAt, turn, ahead, climbs, here, named, foundAt]
        | some next =>
          cases there : fs.nodes.lookup next with
          | none => simp [turnAt, turn, ahead, climbs, here, named, there, foundAt]
          | some node =>
            cases node with
            | symlink target =>
              simp only [turnAt, turn, ahead, climbs, here, named, there, if_false]
              repeat' split
              all_goals simp_all [foundAt]
            | _ => simp [turnAt, turn, ahead, climbs, here, named, there]
      | _ => simp [turnAt, turn, ahead, climbs, here, foundAt]

theorem turnPlace_eq (w : Walker) :
    fs.turnPlace followFinal w = (fs.turn true followFinal w).map id fs.placeAt := by
  obtain ⟨hops, todo, cur, ancestors⟩ := w
  cases todo with
  | nil => rfl
  | cons comp rest =>
    by_cases climbs : comp = ".."
    · simp [turnPlace, turn, ahead, climbs]
    cases here : fs.nodes.lookup cur with
    | none => simp [turnPlace, turn, ahead, climbs, here, placeAt]
    | some node =>
      cases node with
      | dir children =>
        cases named : children.lookup comp with
        | none => simp [turnPlace, turn, ahead, climbs, here, named, placeAt]
        | some next =>
          cases there : fs.nodes.lookup next with
          | none => simp [turnPlace, turn, ahead, climbs, here, named, there, placeAt]
          | some node =>
            cases node with
            | symlink target =>
              simp only [turnPlace, turn, ahead, climbs, here, named, there, if_false]
              repeat' split
              all_goals simp_all [placeAt]
            | _ => simp [turnPlace, turn, ahead, climbs, here, named, there, placeAt]
      | _ => simp [turnPlace, turn, ahead, climbs, here, placeAt]

theorem turnAt_ends (w : Walker) : Ends (fs.turnAt followFinal) w (foundAt (fs.endOf false followFinal w)) := by
  have same : fs.turnAt followFinal = fun w => (fs.turn false followFinal w).map id foundAt := funext turnAt_eq
  rw [same]
  exact (turn_ends w).map foundAt

theorem turnPlace_ends (w : Walker) :
    Ends (fs.turnPlace followFinal) w (fs.placeAt (fs.endOf true followFinal w)) := by
  have same : fs.turnPlace followFinal = fun w => (fs.turn true followFinal w).map id fs.placeAt := funext turnPlace_eq
  rw [same]
  exact (turn_ends w).map fs.placeAt

variable {start : Nat} {path : String}

theorem at_returns : fs.ReturnsAt start path followFinal (fs.resolveAt start path followFinal) :=
  turnAt_ends (setOff start path)

theorem place_returns :
    fs.ReturnsPlace start path followFinal (fs.resolvePlace start path followFinal) := by
  unfold ReturnsPlace
  split
  · next conn mounted => simp only [resolvePlace, mounted]
  · next unmounted =>
      have walks : fs.resolvePlace start path followFinal =
          fs.placeAt (fs.endOf true followFinal (setOff start path)) := by
        unfold resolvePlace
        split
        · next conn mounted => exact absurd mounted (unmounted conn)
        · rfl
      rw [walks]
      exact turnPlace_ends (setOff start path)

/-! ## More to walk -/

/-- A link is followed where more is left or the last one is. -/
theorem ahead_link {w : Walker} {target : String} (before : fs.ahead followFinal w = .link target) :
    (!w.todo.tail.isEmpty || followFinal) = true := by
  unfold ahead at before
  split at before
  · cases before
  · next comp rest left =>
      rw [left, List.tail_cons]
      repeat' split at before
      all_goals first | assumption | cases before

/-- What is ahead does not depend on what comes after, unless it is the last of the worklist. -/
theorem ahead_append {w : Walker} (more : List String) (left : w.todo ≠ [])
    (follows : (!w.todo.tail.isEmpty || followFinal) = true) :
    fs.ahead followFinal { w with todo := w.todo ++ more } = fs.ahead followFinal w := by
  obtain ⟨hops, todo, cur, ancestors⟩ := w
  cases todo with
  | nil => exact absurd rfl left
  | cons comp rest =>
    have still : (!(rest ++ more).isEmpty || followFinal) = true := by
      cases rest with
      | nil => simpa using .inr follows
      | cons _ _ => rfl
    simp only [ahead, List.cons_append, List.tail_cons] at follows ⊢
    simp only [follows, still]

/-- But across a link, a turn takes the first component off the worklist. -/
theorem todo_of_goes {w w' : Walker} (goes : fs.turn crossing followFinal w = .inl w') :
    (∃ target, fs.ahead followFinal w = .link target ∧ w' = w.across target) ∨ w'.todo = w.todo.tail := by
  unfold turn at goes
  cases before : fs.ahead followFinal w with
  | link target =>
    simp only [before] at goes
    split at goes
    · cases goes
    · cases goes
      exact .inl ⟨target, rfl, rfl⟩
  | mount next conn =>
    simp only [before] at goes
    split at goes
    · cases goes
    · cases goes
      exact .inr rfl
  | _ =>
    simp only [before] at goes
    cases goes <;> exact .inr rfl

/-- A turn does not look past what it leaves of the worklist. -/
theorem turn_append {w w' : Walker} (more : List String) (goes : fs.turn crossing followFinal w = .inl w')
    (kept : w'.todo ≠ [] ∨ followFinal = true) :
    fs.turn crossing followFinal { w with todo := w.todo ++ more } = .inl { w' with todo := w'.todo ++ more } := by
  have left : w.todo ≠ [] := by
    intro none_left
    rw [turn, ahead_arrived none_left] at goes
    cases goes
  have tail : (w.todo ++ more).tail = w.todo.tail ++ more := List.tail_append_of_ne_nil left
  have follows : (!w.todo.tail.isEmpty || followFinal) = true := by
    rcases kept with more_left | follow
    · rcases todo_of_goes goes with ⟨target, before, _⟩ | taken
      · exact ahead_link before
      · rw [taken] at more_left
        simp [more_left]
    · simp [follow]
  have sameAhead := fs.ahead_append more left follows
  unfold turn at goes ⊢
  rw [sameAhead]
  cases before : fs.ahead followFinal w with
  | link target =>
    simp only [before] at goes ⊢
    split at goes
    · cases goes
    · next few =>
        cases goes
        simp only [if_neg few]
        simp [across, tail]
  | mount next conn =>
    simp only [before] at goes ⊢
    split at goes
    · cases goes
    · next stays =>
        cases goes
        simp only [if_neg stays]
        simp [into, tail]
  | up =>
    simp only [before] at goes ⊢
    cases goes
    simp [Walker.up, tail]
  | child next =>
    simp only [before] at goes ⊢
    cases goes
    simp [into, tail]
  | _ =>
    simp only [before] at goes
    cases goes

/-! ## Where the two agree -/

/-- The walk sets off at a provider or comes to stand before one. -/
def MeetsProvider (fs : Fs) (start : Nat) (path : String) (followFinal : Bool) : Prop :=
  (∃ conn, fs.nodes.lookup (origin start path) = some (.provider conn)) ∨
    ∃ w next conn, ComesBy (fs.turnAt followFinal) (setOff start path) w ∧ fs.ahead followFinal w = .mount next conn

/-- `place` is what `found` says. -/
def SamePlace (found : Option Nat) (place : Resolved) : Prop :=
  (∀ id, place = .node id ↔ found = some id) ∧ (place = .missing ↔ found = none)

/-- Where no mount is next, the two turns are alike. -/
theorem turns_alike {w : Walker} (clear : ∀ next conn, fs.ahead followFinal w ≠ .mount next conn) :
    Sum.LiftRel Eq SamePlace (fs.turnAt followFinal w) (fs.turnPlace followFinal w) := by
  rw [turnAt_eq, turnPlace_eq, turn, turn]
  cases before : fs.ahead followFinal w with
  | arrived => exact .inr (by simp [SamePlace, foundAt, placeAt, eq_comm])
  | nowhere => exact .inr (by simp [SamePlace, foundAt, placeAt])
  | up => exact .inl rfl
  | child next => exact .inl rfl
  | link target =>
    by_cases spent : maxSymlinkHops < w.hops + 1
    · simp only [if_pos spent]
      exact .inr (by simp [SamePlace, foundAt, placeAt])
    · simp only [if_neg spent]
      exact .inl rfl
  | mount next conn => exact absurd before (clear next conn)

/-- Where a mount is next, `resolve_place` hands the rest over. -/
theorem turnPlace_mount {w : Walker} {next : Nat} {conn : NodeId} (before : fs.ahead followFinal w = .mount next conn) :
    fs.turnPlace followFinal w = .inr (.remote conn ("/".intercalate w.todo.tail) (next ∈ fs.readonly)) := by
  rw [turnPlace_eq, turn, before]
  rfl

/-- Unless it starts at a provider, `resolve_place` returns what its loop ends with. -/
theorem place_ends (followFinal : Bool) (unmounted : ¬ ∃ conn, fs.nodes.lookup (origin start path) = some (.provider conn)) :
    Ends (fs.turnPlace followFinal) (setOff start path) (fs.resolvePlace start path followFinal) := by
  have returned : fs.ReturnsPlace start path followFinal (fs.resolvePlace start path followFinal) := place_returns
  unfold ReturnsPlace at returned
  split at returned
  · next conn there => exact absurd ⟨conn, there⟩ unmounted
  · exact returned

/-- Before a mount on the way of `resolve_at`, the loop of `resolve_place` hands over. -/
theorem hands_over {w m : Walker} {next : Nat} {conn : NodeId} (way : ComesBy (fs.turnAt followFinal) w m)
    (before : fs.ahead followFinal m = .mount next conn) :
    ∃ conn rest readonly, Ends (fs.turnPlace followFinal) w (.remote conn rest readonly) := by
  induction way using Relation.ReflTransGen.head_induction_on with
  | refl => exact ⟨_, _, _, .returns (turnPlace_mount before)⟩
  | @head w w' goes _ ih =>
    by_cases sooner : ∃ next conn, fs.ahead followFinal w = .mount next conn
    · obtain ⟨next, conn, mounted⟩ := sooner
      exact ⟨_, _, _, .returns (turnPlace_mount mounted)⟩
    · obtain ⟨conn, rest, readonly, ended⟩ := ih
      have clear : ∀ next conn, fs.ahead followFinal w ≠ .mount next conn :=
        fun next conn mounted => sooner ⟨next, conn, mounted⟩
      exact ⟨conn, rest, readonly, .goes ((goes_iff (turns_alike clear) w').1 goes) ended⟩

/-- Where the loop of `resolve_place` hands over, that of `resolve_at` stands before a mount. -/
theorem of_hands_over {w : Walker} {conn : NodeId} {rest : String} {readonly : Bool}
    (ended : Ends (fs.turnPlace followFinal) w (.remote conn rest readonly)) :
    ∃ m next conn, ComesBy (fs.turnAt followFinal) w m ∧ fs.ahead followFinal m = .mount next conn := by
  generalize handed : Resolved.remote conn rest readonly = place at ended
  induction ended with
  | @returns w place last =>
    subst handed
    by_cases mounted : ∃ next conn, fs.ahead followFinal w = .mount next conn
    · obtain ⟨next, conn, before⟩ := mounted
      exact ⟨w, next, conn, .refl, before⟩
    · have alike : Sum.LiftRel Eq SamePlace (fs.turnAt followFinal w) (fs.turnPlace followFinal w) :=
        turns_alike fun next conn before => mounted ⟨next, conn, before⟩
      rw [last] at alike
      obtain ⟨found, -, same⟩ := returns_of_alike alike
      cases found with
      | none => cases same.2.2 rfl
      | some id => cases (same.1 id).2 rfl
  | @goes w w' place goes _ ih =>
    obtain ⟨m, next, conn, way, before⟩ := ih handed
    refine ⟨m, next, conn, .head ?_ way, before⟩
    refine (goes_iff (turns_alike ?_) w').2 goes
    intro next conn mounted
    cases goes.symm.trans (turnPlace_mount mounted)

/-- The walk meets a provider exactly when `resolve_place` hands the rest of it over. -/
theorem meetsProvider_iff :
    fs.MeetsProvider start path followFinal ↔
      ∃ conn rest readonly, fs.resolvePlace start path followFinal = .remote conn rest readonly := by
  by_cases mounted : ∃ conn, fs.nodes.lookup (origin start path) = some (.provider conn)
  · obtain ⟨conn, there⟩ := mounted
    refine iff_of_true (.inl ⟨conn, there⟩) ⟨conn, "/".intercalate (components path), origin start path ∈ fs.readonly, ?_⟩
    simp only [resolvePlace, there]
  · have ended := place_ends followFinal mounted
    constructor
    · rintro (there | ⟨w, next, conn, way, before⟩)
      · exact absurd there mounted
      · obtain ⟨conn, rest, readonly, handed⟩ := hands_over way before
        exact ⟨conn, rest, readonly, ended.unique handed⟩
    · rintro ⟨conn, rest, readonly, handed⟩
      rw [handed] at ended
      exact .inr (of_hands_over ended)

/-- Both resolvers return, and the same unless the walk meets a provider. -/
theorem resolvers_agree (fs : Fs) (start : Nat) (path : String) (followFinal : Bool) :
    ∃ found place, fs.ReturnsAt start path followFinal found ∧ fs.ReturnsPlace start path followFinal place ∧
      found = fs.resolveAt start path followFinal ∧ place = fs.resolvePlace start path followFinal ∧
      (¬ fs.MeetsProvider start path followFinal →
        (∀ id, place = .node id ↔ found = some id) ∧ (place = .missing ↔ found = none)) := by
  refine ⟨_, _, at_returns, place_returns, rfl, rfl, fun clear => ?_⟩
  have ended : Ends (fs.turnPlace followFinal) (setOff start path) (fs.resolvePlace start path followFinal) :=
    place_ends followFinal fun there => clear (.inl there)
  refine at_returns.alike (R := SamePlace) ended rfl ?_
  rintro m _ way rfl
  exact turns_alike fun next conn before => clear (.inr ⟨m, next, conn, way, before⟩)

end Loops

/-- Two links whose targets name each other through `..`, beside a mount. -/
def circling : Fs where
  nodes := Table.ofRows [(root, .dir (Table.ofRows [("a", 1), ("b", 2), ("d", 3), ("mnt", 4)])),
    (1, .symlink "d/../b"), (2, .symlink "/d/../../a"), (3, .dir ∅), (4, .provider 7)]
  next := 5
  readonly := []
  openFds := ∅

theorem circling_returns :
    ¬ circling.MeetsProvider root "a/x" true ∧ circling.resolveAt root "a/x" true = none ∧
      circling.resolvePlace root "a/x" true = .missing := by
  have missing : circling.resolvePlace root "a/x" true = .missing := by rfl
  have clear : ¬ circling.MeetsProvider root "a/x" true := by
    rw [meetsProvider_iff, missing]
    rintro ⟨conn, rest, readonly, handed⟩
    cases handed
  obtain ⟨found, place, -, -, rfl, rfl, agree⟩ := circling.resolvers_agree root "a/x" true
  exact ⟨clear, (agree clear).2.1 missing, missing⟩

end Fs

end Wk.Vfs
