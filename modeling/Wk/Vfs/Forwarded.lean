/-
# Wk.Vfs.Forwarded -- what is forwarded to a provider

Where a walk crosses into a mount, what is left of its worklist is handed to the provider as
it stands, `..` and all, and a path from a descriptor behind a mount is joined to the
descriptor's without looking at its components.  So the forwarded paths of a descriptor stay
inside the mounts only where no path from it comes to a mount at all (`inside_iff`), and that
of one path where nothing left at the crossing is `..`.
-/
import Wk.Vfs.Paths
import Wk.Vfs.Resolvers

namespace Wk.Vfs

open Wk.Library Relation

set_option autoImplicit false

namespace Fs

open Walker

variable {fs : Fs} {crossing followFinal : Bool}

/-- The walk of `path` crosses into a mount with `left` still to walk. -/
def Crosses (fs : Fs) (start : Nat) (path : String) (followFinal : Bool) (left : List String) : Prop :=
  match fs.nodes.lookup (origin start path) with
  | some (.provider _) => left = components path
  | _ => ∃ w next conn, ComesBy (fs.turnPlace followFinal) (setOff start path) w ∧
      fs.ahead followFinal w = .mount next conn ∧ left = w.todo.tail

/-- What a walk has left are names. -/
theorem names_left {w m : Walker} (way : ComesBy (fs.turn crossing followFinal) w m)
    (named : ∀ comp ∈ w.todo, IsName comp) : ∀ comp ∈ m.todo, IsName comp := by
  induction way with
  | refl => exact named
  | @tail m m' _ goes ih =>
    rcases todo_of_goes goes with ⟨target, _, rfl⟩ | taken
    · intro comp member
      rcases List.mem_append.1 member with inTarget | later
      · exact isName_of_mem inTarget
      · exact ih comp (List.mem_of_mem_tail later)
    · intro comp member
      rw [taken] at member
      exact ih comp (List.mem_of_mem_tail member)

theorem comesBy_place {w m : Walker} :
    ComesBy (fs.turnPlace followFinal) w m ↔ ComesBy (fs.turn true followFinal) w m := by
  have goes : ∀ w w', fs.turnPlace followFinal w = .inl w' ↔ fs.turn true followFinal w = .inl w' := by
    intro w w'
    rw [turnPlace_eq]
    cases fs.turn true followFinal w with
    | inl _ => simp
    | inr _ => simp
  exact ⟨fun way => way.map id fun w w' => (goes w w').1, fun way => way.map id fun w w' => (goes w w').2⟩

/-- Only before a mount does a turn of `resolve_place` hand over. -/
theorem mount_of_turnPlace {w : Walker} {conn : NodeId} {rest : String} {readonly : Bool}
    (last : fs.turnPlace followFinal w = .inr (.remote conn rest readonly)) :
    ∃ next, fs.ahead followFinal w = .mount next conn ∧ rest = "/".intercalate w.todo.tail := by
  cases before : fs.ahead followFinal w with
  | mount next conn' =>
    rw [turnPlace_mount before] at last
    cases last
    exact ⟨next, rfl, rfl⟩
  | link target =>
    rw [turnPlace_eq, turn, before] at last
    by_cases spent : maxSymlinkHops < w.hops + 1
    · simp only [if_pos spent] at last
      cases last
    · simp only [if_neg spent] at last
      cases last
  | _ =>
    rw [turnPlace_eq, turn, before] at last
    cases last

theorem crosses_at {start : Nat} {path : String} {conn : NodeId}
    (there : fs.nodes.lookup (origin start path) = some (.provider conn)) {left : List String} :
    fs.Crosses start path followFinal left ↔ left = components path := by
  unfold Crosses
  rw [there]

theorem crosses_on_way {start : Nat} {path : String} {left : List String}
    (unmounted : ¬ ∃ conn, fs.nodes.lookup (origin start path) = some (.provider conn)) :
    fs.Crosses start path followFinal left ↔
      ∃ w next conn, ComesBy (fs.turnPlace followFinal) (setOff start path) w ∧
        fs.ahead followFinal w = .mount next conn ∧ left = w.todo.tail := by
  unfold Crosses
  split
  · next conn there => exact absurd ⟨conn, there⟩ unmounted
  · rfl

/-- A path resolves across a mount exactly where its walk crosses into it, to what is left then. -/
theorem remote_iff {start : Nat} {path rest : String} :
    (∃ conn readonly, fs.resolvePlace start path followFinal = .remote conn rest readonly) ↔
      ∃ left, fs.Crosses start path followFinal left ∧ rest = "/".intercalate left := by
  by_cases mounted : ∃ conn, fs.nodes.lookup (origin start path) = some (.provider conn)
  · obtain ⟨conn, there⟩ := mounted
    simp only [crosses_at there, resolvePlace, there]
    constructor
    · rintro ⟨_, _, same⟩
      cases same
      exact ⟨_, rfl, rfl⟩
    · rintro ⟨_, rfl, rfl⟩
      exact ⟨_, _, rfl⟩
  · have ended := place_ends followFinal mounted
    constructor
    · rintro ⟨conn, readonly, handed⟩
      rw [handed] at ended
      obtain ⟨m, way, last⟩ := ended.last
      obtain ⟨next, before, rfl⟩ := mount_of_turnPlace last
      exact ⟨_, (crosses_on_way mounted).2 ⟨m, next, conn, way, before, rfl⟩, rfl⟩
    · rintro ⟨left, crossed, rfl⟩
      obtain ⟨m, next, conn, way, before, rfl⟩ := (crosses_on_way mounted).1 crossed
      exact ⟨_, _, ended.unique (.of_comesBy way (.returns (turnPlace_mount before)))⟩

/-- What a walk crosses with are names. -/
theorem Crosses.names {start : Nat} {path : String} {left : List String}
    (crosses : fs.Crosses start path followFinal left) : ∀ comp ∈ left, IsName comp := by
  unfold Crosses at crosses
  split at crosses
  · subst crosses
    exact fun comp => isName_of_mem
  · obtain ⟨w, _, _, way, _, rfl⟩ := crosses
    intro comp member
    exact names_left (comesBy_place.1 way) (fun _ => isName_of_mem) comp (List.mem_of_mem_tail member)

/-! ## Going on after a crossing -/

/-- A walk with more after it comes by where it came by with something left. -/
theorem comesBy_append {w m : Walker} (more : List String) (way : ComesBy (fs.turn crossing followFinal) w m)
    (left : m.todo ≠ []) :
    ComesBy (fs.turn crossing followFinal) { w with todo := w.todo ++ more } { m with todo := m.todo ++ more } := by
  induction way using ReflTransGen.head_induction_on with
  | refl => exact .refl
  | @head w w' goes way ih =>
    refine .head (turn_append more goes (.inl fun none_left => ?_)) ih
    -- nothing left, `w'` is where the walk ends
    rcases ReflTransGen.cases_head way with rfl | ⟨_, goes', _⟩
    · exact left none_left
    · rw [turn, ahead_arrived none_left] at goes'
      cases goes'

theorem ahead_mount_append {w : Walker} {next : Nat} {conn : NodeId} (more : List String)
    (before : fs.ahead followFinal w = .mount next conn) :
    fs.ahead followFinal { w with todo := w.todo ++ more } = .mount next conn := by
  obtain ⟨hops, todo, cur, ancestors⟩ := w
  unfold ahead at before ⊢
  cases todo with
  | nil => cases before
  | cons comp rest =>
    simp only [List.cons_append] at before ⊢
    repeat' split at before
    all_goals first | (cases before; done) | simp_all

theorem absolute_slash {path : String} (nonempty : path ≠ "") (rest : String) :
    absolute (path ++ "/" ++ rest) = absolute path := by
  obtain ⟨c, cs, chars⟩ := List.exists_cons_of_ne_nil fun empty : path.toList = [] => nonempty (String.toList_inj.1 empty)
  simp [absolute, chars]

/-- A path that comes to a mount also comes there with a `..` left to walk. -/
theorem crosses_up {start : Nat} {path : String} (meets : fs.MeetsProvider start path followFinal) :
    ∃ path left, fs.Crosses start path followFinal left ∧ ".." ∈ left := by
  by_cases mounted : ∃ conn, fs.nodes.lookup (origin start path) = some (.provider conn)
  · obtain ⟨conn, there⟩ := mounted
    by_cases anchored : absolute path
    · have same : origin start "/.." = origin start path := by
        rw [origin, origin, if_pos anchored, if_pos (by decide)]
      exact ⟨"/..", _, (crosses_at (same ▸ there)).2 rfl, by decide +kernel⟩
    · have same : origin start ".." = origin start path := by
        rw [origin, origin, if_neg anchored, if_neg (by decide)]
      exact ⟨"..", _, (crosses_at (same ▸ there)).2 rfl, by decide +kernel⟩
  · obtain ⟨conn, rest, readonly, handed⟩ := meetsProvider_iff.1 meets
    obtain ⟨left, crossed, _⟩ := remote_iff.1 ⟨conn, readonly, handed⟩
    obtain ⟨w, next, conn, way, before, rfl⟩ := (crosses_on_way mounted).1 crossed
    have way := comesBy_place.1 way
    have some_left : w.todo ≠ [] := by
      intro none_left
      rw [ahead_arrived none_left] at before
      cases before
    have nonempty : path ≠ "" := by
      rintro rfl
      rcases ReflTransGen.cases_head way with rfl | ⟨_, goes, _⟩
      · exact some_left components_empty
      · rw [turn, ahead_arrived components_empty] at goes
        cases goes
    have same : origin start (path ++ "/" ++ "..") = origin start path := by
      rw [origin, origin, absolute_slash nonempty]
    have further : setOff start (path ++ "/" ++ "..") =
        { setOff start path with todo := (setOff start path).todo ++ [".."] } := by
      rw [setOff, same, components_slash, show components ".." = [".."] by decide +kernel]
      rfl
    refine ⟨path ++ "/" ++ "..", w.todo.tail ++ [".."], (crosses_on_way (same ▸ mounted)).2 ?_, by simp⟩
    rw [further]
    exact ⟨_, next, conn, comesBy_place.2 (comesBy_append [".."] way some_left), ahead_mount_append _ before,
      (List.tail_append_of_ne_nil some_left).symm⟩

end Fs

namespace Machine

variable {m : Machine}

/-- Of `path` from `place`, nothing that goes up is forwarded to a provider. -/
def Inside (m : Machine) (place : DescPlace) (path : String) (follow : Bool) : Prop :=
  ∀ conn rest readonly, m.target place path follow = .remote conn rest readonly → ".." ∉ components rest

/-- No `..` is left where the walk of `path` crosses into a mount; behind one, there is none. -/
def UpTaken (m : Machine) (place : DescPlace) (path : String) (follow : Bool) : Prop :=
  match place with
  | .node start => ∀ left, m.fs.Crosses start path follow left → ".." ∉ left
  | .remote r => ".." ∉ components r.path ∧ ".." ∉ components path

theorem components_remoteJoin (base path : String) :
    components (remoteJoin base path) = components base ++ components path := by
  refine components_join fun name member => ?_
  rcases List.mem_append.1 member with inBase | inPath
  · exact isName_of_mem inBase
  · exact isName_of_mem inPath

theorem inside_iff_upTaken {place : DescPlace} {path : String} {follow : Bool} :
    m.Inside place path follow ↔ m.UpTaken place path follow := by
  cases place with
  | remote r =>
    have joined : m.Inside (.remote r) path follow ↔ ".." ∉ components (remoteJoin r.path path) := by
      constructor
      · exact fun inside => inside _ _ _ rfl
      · rintro below conn rest readonly same
        cases same
        exact below
    rw [joined, components_remoteJoin, List.mem_append, not_or]
    rfl
  | node start =>
    constructor
    · intro inside left crosses member
      obtain ⟨conn, readonly, handed⟩ := Fs.remote_iff.2 ⟨left, crosses, rfl⟩
      have below := inside conn _ readonly handed
      rw [components_join crosses.names] at below
      exact below member
    · intro taken conn rest readonly handed
      obtain ⟨left, crosses, rfl⟩ := Fs.remote_iff.1 ⟨conn, readonly, handed⟩
      rw [components_join crosses.names]
      exact taken left crosses

/-- What is forwarded of every path from a descriptor stays inside the mounts exactly where no
path from it comes to a mount; of one path, where no `..` is left to the provider. -/
theorem inside_iff (m : Machine) (place : DescPlace) :
    ((∀ path follow, m.Inside place path follow) ↔
      ∃ start, place = .node start ∧ ∀ path follow, ¬ m.fs.MeetsProvider start path follow) ∧
      ∀ path follow, m.Inside place path follow ↔ m.UpTaken place path follow := by
  refine ⟨?_, fun path follow => inside_iff_upTaken⟩
  constructor
  · intro inside
    cases place with
    | remote r =>
      have below := (inside_iff_upTaken.1 (inside ".." true)).2
      exact absurd (by decide +kernel) below
    | node start =>
      refine ⟨start, rfl, fun path follow meets => ?_⟩
      obtain ⟨path, left, crosses, member⟩ := Fs.crosses_up meets
      exact inside_iff_upTaken.1 (inside path follow) left crosses member
  · rintro ⟨start, rfl, clear⟩ path follow conn rest readonly handed
    exact absurd (Fs.meetsProvider_iff.2 ⟨conn, rest, readonly, handed⟩) (clear path follow)

/-- The root holds a provider's mount, `mnt`, and a file beside it, `x`. -/
def besideMount : List Turn := [
  .host (.mount "mnt" (.provider 7) true),
  .host (.putFileAt "x" []),
  .guest .getDirectories .quiet]

theorem up_is_forwarded :
    let m := (boot Fs.new .empty).run besideMount
    m.fs.resolveAt root "mnt/../x" true = some 2 ∧
      (m.openAt .quiet 0 true "mnt/../x" {}).1.sent = [(7, .open "../x" false false false)] ∧
      ¬ m.Inside (.node root) "mnt/../x" true := by
  refine ⟨by decide +kernel, by decide +kernel, fun inside => ?_⟩
  exact inside 7 "../x" false (by rfl) (by decide +kernel)

end Machine

end Wk.Vfs
