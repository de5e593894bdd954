/-
# Wk.Instancing.Endless -- when expansion ends

Nesting is bounded by `maxDepth` and instances by `maxInstances`, so the walk along the
groups ends on every document.  The search for a free generated name inside it has no
bound: there are as many names as pairs of words, and a group that finds them all taken
on its canvas searches on for ever.

A search is computed with a number of candidates (`Digests.walk`), and what the source
returns is what is computed from some number of candidates on (`Returns`).

* `group_further`: with more candidates a walk that did not run out is the same.
* `group_visits`: the walk reads the document in the order of `visits`, and stops where
  that order says.
* `expand_ends_iff`: expansion ends, errs on every cycle and keeps its bounds exactly where
  no canvas runs out of names before a group is refused.

Pole: `crowded_endless` (a tab whose groups take every name there is, and one more group).
-/
import Wk.Instancing.Chains

namespace Wk

open Wk.Library

set_option autoImplicit false

/-- The same digests, with `w` candidates to a search. -/
def Digests.reaching (dg : Digests) (w : Nat) : Digests := { dg with walk := w }

namespace Instancing

/-- What the source returns: the same from some number of candidates on. -/
def Returns (dg : Digests) (doc : Document) (r : Except ExpandError (List Instance)) : Prop :=
  r ≠ .error .namesExhausted ∧ ∃ w, ∀ w', w ≤ w' → expand (dg.reaching w') doc = r

/-- A group whose line gives it no name. -/
def Unnamed (n : NodeSnap) : Prop := ∃ definition inWires outWires, n.kind = .group definition none inWires outWires

/-- A canvas on which a search for a name never ends: the groups before some unnamed group
have taken every name its id generates. -/
def RunsOut (dg : Digests) (canvas : List NodeSnap) : Prop :=
  ∃ before n after taken, canvas = before ++ n :: after ∧ Unnamed n ∧
    (∃ w, localNames (dg.reaching w) before = .ok taken) ∧ ∀ nth, Nodename.generated dg n.id nth ∈ taken

/-! ## More candidates -/

section Further

variable {dg : Digests} {doc : Document} {defs : Table String Workspace} {w w' : Nat}

theorem firstFree_further (more : w ≤ w') {id : NodeId} {free : String → Bool} {c : String}
    (found : Nodename.firstFree (dg.reaching w) id free = some c) :
    Nodename.firstFree (dg.reaching w') id free = some c := by
  obtain ⟨d, rfl⟩ := Nat.exists_eq_add_of_le more
  unfold Nodename.firstFree at *
  have split : (dg.reaching (w + d)).walk = (dg.reaching w).walk + d := rfl
  rw [split, List.range_add, List.map_append, List.find?_append]
  have start : ((List.range (dg.reaching w).walk).map (Nodename.generated (dg.reaching (w + d)) id)).find? free =
      some c := found
  rw [start, Option.some_or]

theorem nameNode_further (more : w ≤ w') (taken : List String) (n : NodeSnap) :
    Further .namesExhausted (nameNode (dg.reaching w) taken n) (nameNode (dg.reaching w') taken n) := by
  unfold nameNode
  cases n.kind with
  | group definition name inWires outWires =>
    cases name with
    | some chosen => exact .refl _
    | none =>
      dsimp only
      cases found : Nodename.firstFree (dg.reaching w) n.id fun c => !taken.contains c with
      | none => exact .inl rfl
      | some c => exact .inr (by rw [firstFree_further more found])
  | _ => exact .refl _

theorem localNames_further (more : w ≤ w') (canvas : List NodeSnap) :
    Further .namesExhausted (localNames (dg.reaching w) canvas) (localNames (dg.reaching w') canvas) :=
  Further.foldlM fun taken n _ => nameNode_further more taken n

/-- **With more candidates** a walk that did not run out is the same.  Induction on the
room left. -/
theorem group_further (more : w ≤ w') {room : Nat} : ∀ {path : List String} {out : List Instance} {at_ : Site}
    {inst : NodeId} {parent : Option NodeId} {node : NodeSnap} {name : String} {outer : NodeId → List NodeId},
    Further .namesExhausted (group (dg.reaching w) doc defs room path out at_ inst parent node name outer)
      (group (dg.reaching w') doc defs room path out at_ inst parent node name outer) := by
  induction room with
  | zero => exact .refl _
  | succ room ih =>
    intro path out at_ inst parent node name outer
    unfold group
    refine (Further.refl _).bind fun defn _ => (Further.refl _).bind fun ports _ => ?_
    refine (localNames_further more _).bind fun locals _ => ?_
    exact Further.foldlM fun out nested _ => ih

theorem expand_further (more : w ≤ w') :
    Further .namesExhausted (expand (dg.reaching w) doc) (expand (dg.reaching w') doc) := by
  unfold expand
  refine (Further.refl _).bind fun defs _ => Further.foldlM fun out ws _ => ?_
  unfold expandTab
  refine (localNames_further more _).bind fun names _ => ?_
  exact Further.foldlM fun out g _ => group_further more

end Further

/-! ## Names that run out -/

section Names

variable {dg : Digests}

theorem nameNode_unnamed {n : NodeSnap} (unnamed : Unnamed n) (taken : List String) :
    nameNode dg taken n = match Nodename.firstFree dg n.id fun c => !taken.contains c with
      | some c => .ok (taken ++ [c])
      | none => .error .namesExhausted := by
  obtain ⟨definition, inWires, outWires, kind⟩ := unnamed
  cases n
  cases kind
  rfl

/-- A node with a name, or no group, takes its turn whatever the candidates. -/
theorem nameNode_steady {n : NodeSnap} (named : ¬Unnamed n) (taken : List String) :
    ∃ next, ∀ w, nameNode (dg.reaching w) taken n = .ok next := by
  unfold nameNode
  cases kind : n.kind with
  | group definition name inWires outWires =>
    cases name with
    | some chosen => exact ⟨_, fun _ => rfl⟩
    | none => exact absurd ⟨definition, inWires, outWires, kind⟩ named
  | _ => exact ⟨_, fun _ => rfl⟩

/-- A search with a free name among its candidates ends. -/
theorem firstFree_of_free {id : NodeId} {taken : List String} {nth : Nat}
    (free : Nodename.generated dg id nth ∉ taken) :
    ∃ c, Nodename.firstFree (dg.reaching (nth + 1)) id (fun c => !taken.contains c) = some c := by
  refine Option.isSome_iff_exists.1 (List.find?_isSome.2 ⟨Nodename.generated dg id nth, ?_, ?_⟩)
  · exact List.mem_map.2 ⟨nth, List.mem_range.2 (Nat.lt_succ_self nth), rfl⟩
  · simpa using free

/-- A search all of whose names are taken does not. -/
theorem firstFree_of_taken {id : NodeId} {taken : List String} (all : ∀ nth, Nodename.generated dg id nth ∈ taken)
    (w : Nat) : Nodename.firstFree (dg.reaching w) id (fun c => !taken.contains c) = none := by
  refine List.find?_eq_none.2 fun c member => ?_
  obtain ⟨nth, _, rfl⟩ := List.mem_map.1 member
  have here : taken.contains (Nodename.generated dg id nth) = true := List.contains_iff_mem.2 (all nth)
  intro free
  have absent : (!taken.contains (Nodename.generated dg id nth)) = true := free
  rw [here] at absent
  cases absent

/-- **A canvas is named from some number of candidates on, or runs out**: here from any
names taken before. -/
theorem names_settle : ∀ (canvas : List NodeSnap) (taken : List String),
    (∃ w names, ∀ w', w ≤ w' → canvas.foldlM (nameNode (dg.reaching w')) taken = .ok names) ∨
      ∃ before n after held, canvas = before ++ n :: after ∧ Unnamed n ∧
        (∃ w, before.foldlM (nameNode (dg.reaching w)) taken = .ok held) ∧
        ∀ nth, Nodename.generated dg n.id nth ∈ held
  | [], taken => .inl ⟨0, taken, fun _ _ => rfl⟩
  | n :: canvas, taken => by
    -- the first turn succeeds from some number of candidates on, or never does
    have turn : (∃ w next, ∀ w', w ≤ w' → nameNode (dg.reaching w') taken n = .ok next) ∨
        (Unnamed n ∧ ∀ nth, Nodename.generated dg n.id nth ∈ taken) := by
      by_cases unnamed : Unnamed n
      · by_cases all : ∀ nth, Nodename.generated dg n.id nth ∈ taken
        · exact .inr ⟨unnamed, all⟩
        · obtain ⟨nth, free⟩ := not_forall.1 all
          obtain ⟨c, found⟩ := firstFree_of_free free
          refine .inl ⟨nth + 1, taken ++ [c], fun w' more => ?_⟩
          rw [nameNode_unnamed unnamed, firstFree_further more found]
      · obtain ⟨next, steady⟩ := @nameNode_steady dg _ unnamed taken
        exact .inl ⟨0, next, fun w' _ => steady w'⟩
    rcases turn with ⟨w, next, first⟩ | ⟨unnamed, all⟩
    · rcases names_settle canvas next with ⟨w₁, names, rest⟩ | ⟨before, m, after, held, rfl, unnamed, ⟨w₁, rest⟩, all⟩
      · refine .inl ⟨max w w₁, names, fun w' more => ?_⟩
        rw [List.foldlM_cons, first w' (le_trans (le_max_left w w₁) more)]
        exact rest w' (le_trans (le_max_right w w₁) more)
      · refine .inr ⟨n :: before, m, after, held, rfl, unnamed, ⟨max w w₁, ?_⟩, all⟩
        rw [List.foldlM_cons, first _ (le_max_left w w₁)]
        have further : Further .namesExhausted (before.foldlM (nameNode (dg.reaching w₁)) next)
            (before.foldlM (nameNode (dg.reaching (max w w₁))) next) :=
          Further.foldlM fun taken n _ => nameNode_further (le_max_right w w₁) taken n
        exact further.same rest nofun
    · exact .inr ⟨[], n, canvas, taken, rfl, unnamed, ⟨0, rfl⟩, all⟩

theorem settles_or_runsOut (dg : Digests) (canvas : List NodeSnap) :
    (∃ w names, ∀ w', w ≤ w' → localNames (dg.reaching w') canvas = .ok names) ∨ RunsOut dg canvas :=
  names_settle canvas []

/-- Naming a canvas fails in one way only. -/
theorem localNames_error {canvas : List NodeSnap} {e : ExpandError} (failed : localNames dg canvas = .error e) :
    e = .namesExhausted := by
  have only : ∀ (canvas : List NodeSnap) (taken : List String), canvas.foldlM (nameNode dg) taken = .error e →
      e = .namesExhausted := by
    intro canvas
    induction canvas with
    | nil => exact fun _ ended => nomatch ended
    | cons n canvas ih =>
      intro taken ended
      rw [List.foldlM_cons] at ended
      by_cases unnamed : Unnamed n
      · rw [nameNode_unnamed unnamed] at ended
        split at ended
        · exact ih _ ended
        · cases ended
          rfl
      · obtain ⟨next, steady⟩ := @nameNode_steady dg _ unnamed taken
        have first : nameNode dg taken n = .ok next := steady dg.walk
        rw [first] at ended
        exact ih _ ended
  exact only canvas [] failed

/-- **A canvas that runs out** is not named with any number of candidates. -/
theorem RunsOut.exhausted {canvas : List NodeSnap} (out : RunsOut dg canvas) (w : Nat) :
    localNames (dg.reaching w) canvas = .error .namesExhausted := by
  obtain ⟨before, n, after, taken, rfl, unnamed, ⟨w₁, named⟩, all⟩ := out
  rw [localNames_eq, List.foldlM_append]
  cases first : before.foldlM (nameNode (dg.reaching w)) [] with
  | error e =>
    rw [@localNames_error _ before _ first]
    rfl
  | ok held =>
    -- both numbers of candidates name what is before alike
    have here : localNames (dg.reaching (max w w₁)) before = .ok held :=
      (localNames_further (le_max_left w w₁) before).same first nofun
    have there : localNames (dg.reaching (max w w₁)) before = .ok taken :=
      (localNames_further (le_max_right w w₁) before).same named nofun
    obtain rfl : held = taken := Except.ok.inj (here.symm.trans there)
    have turn : nameNode (dg.reaching w) held n = .error .namesExhausted := by
      rw [nameNode_unnamed unnamed, firstFree_of_taken all]
    have rest : (n :: after).foldlM (nameNode (dg.reaching w)) held = .error .namesExhausted := by
      rw [List.foldlM_cons, turn]
      rfl
    exact rest

end Names

/-! ## The order of the walk -/

/-- What the walk looks at in turn: a canvas, to name its groups, or a group. -/
inductive Visit where
  | canvas (nodes : List NodeSnap)
  | group (room : Nat) (path : List String) (at_ : Site) (inst : NodeId) (node : NodeSnap)

/-- A group, the canvas of its definition, and what is below each group there. -/
def visits (dg : Digests) (defs : Table String Workspace) :
    Nat → List String → Site → NodeId → NodeSnap → List Visit
  | 0, path, at_, inst, node => [.group 0 path at_ inst node]
  | room + 1, path, at_, inst, node => .group (room + 1) path at_ inst node ::
      match defs.lookup (groupDefinition node.kind) with
      | none => []
      | some defn => .canvas defn.nodes :: defn.groupsIn.flatMap fun nested =>
        visits dg defs room (path ++ [groupDefinition node.kind])
          { tab := at_.tab, label := s!"definition {debugStr (groupDefinition node.kind)}", canvas := defn.nodes }
          (dg.derive inst nested.id) nested

/-- The site of the groups on a tab. -/
def tabSite (ws : Workspace) : Site := { tab := ws.id, label := siteLabel ws, canvas := ws.nodes }

/-- All that is looked at, tab by tab. -/
def visitsOf (dg : Digests) (doc : Document) : List Visit :=
  (tabs doc).flatMap fun ws => .canvas ws.nodes :: ws.groupsIn.flatMap fun g =>
    visits dg (definitionTable doc) maxDepth [] (tabSite ws) g.id g

/-- A line names a port, and a node of the canvas that may be at its other end. -/
def Fits (at_ : Site) (named : Table (PortDir × String) (NodeId × PortKind)) (l : PortDir × String × NodeId) : Prop :=
  ∃ port kind far, named.lookup (l.1, l.2.1) = some (port, kind) ∧
    at_.canvas.find? (fun n => n.id = l.2.2) = some far ∧
    (Wiring.classify l.2.2 port (classOf far.kind) (.boundary l.1.opposite kind)).isSome

/-- The lines of a group fit the ports of its definition. -/
structure Binds (dg : Digests) (at_ : Site) (inst : NodeId) (defn : Workspace)
    (lines : List (PortDir × String × NodeId)) : Prop where
  sources : portAsSource dg inst defn = none
  lines : ∀ l ∈ lines, Fits at_ (namedPorts dg inst defn.nodes) l

/-- A group is refused, with `n` instances before it: it is in a cycle, too deep, one too
many, or it names no definition its lines fit. -/
def Refused (dg : Digests) (defs : Table String Workspace) (n : Nat) (room : Nat) (path : List String) (at_ : Site)
    (inst : NodeId) (node : NodeSnap) : Prop :=
  groupDefinition node.kind ∈ path ∨ room = 0 ∨ maxInstances ≤ n ∨
    ∀ defn, defs.lookup (groupDefinition node.kind) = some defn →
      ¬Binds dg at_ inst defn (groupLines node.kind)

/-- None of the groups looked at is refused, with `n` instances before them. -/
def Unrefused (dg : Digests) (defs : Table String Workspace) : Nat → List Visit → Prop
  | _, [] => True
  | n, .canvas _ :: rest => Unrefused dg defs n rest
  | n, .group room path at_ inst node :: rest =>
    ¬Refused dg defs n room path at_ inst node ∧ Unrefused dg defs (n + 1) rest

/-- The walk comes to a canvas that runs out of names before it refuses a group. -/
def NamesRunOut (dg : Digests) (doc : Document) : Prop :=
  (definedNames doc).Nodup ∧ ∃ before canvas after, visitsOf dg doc = before ++ .canvas canvas :: after ∧
    RunsOut dg canvas ∧ Unrefused dg (definitionTable doc) 0 before

/-! ## Stopping -/

/-- How a walk stops short. -/
inductive Stop where
  | refused
  | endless
  deriving DecidableEq

/-- What is seen of a walk: how many instances it made, or how it stopped short. -/
def seen : Except ExpandError (List Instance) → Except Stop Nat
  | .ok out => .ok out.length
  | .error .namesExhausted => .error .endless
  | .error _ => .error .refused

open Classical in
/-- One visit, with `n` instances made. -/
noncomputable def visit (dg : Digests) (defs : Table String Workspace) (w n : Nat) : Visit → Except Stop Nat
  | .canvas nodes => match localNames (dg.reaching w) nodes with
      | .ok _ => .ok n
      | .error _ => .error .endless
  | .group room path at_ inst node =>
    if Refused dg defs n room path at_ inst node then .error .refused else .ok (n + 1)

theorem seen_refused {e : ExpandError} (other : e ≠ .namesExhausted) : seen (.error e) = .error .refused := by
  cases e <;> first | rfl | exact absurd rfl other

/-- A loop is seen turn by turn. -/
theorem seen_foldlM {α : Type} {f : List Instance → α → Except ExpandError (List Instance)} {g : Nat → α → Except Stop Nat} :
    ∀ {xs : List α} {out : List Instance}, (∀ out, ∀ x ∈ xs, seen (f out x) = g out.length x) →
      seen (xs.foldlM f out) = xs.foldlM g out.length
  | [], _, _ => rfl
  | x :: xs, out, turn => by
    rw [List.foldlM_cons, List.foldlM_cons, ← turn out x List.mem_cons_self]
    cases first : f out x with
    | error e => cases e <;> rfl
    | ok out' => exact seen_foldlM fun out y member => turn out y (List.mem_cons_of_mem _ member)

section Visits

variable {dg : Digests} {doc : Document} {defs : Table String Workspace} {w : Nat}

theorem resolveDefinition_error {room : Nat} {path : List String} {n : Nat} {site definition : String} {e : ExpandError}
    (failed : resolveDefinition doc defs room path n site definition = .error e) :
    e ≠ .namesExhausted ∧ (definition ∈ path ∨ room = 0 ∨ maxInstances ≤ n ∨ defs.lookup definition = none) := by
  unfold resolveDefinition at failed
  split at failed
  · next i at_ =>
      cases failed
      refine ⟨nofun, .inl ?_⟩
      obtain ⟨bound, same, _⟩ := List.findIdx?_eq_some_iff_getElem.1 at_
      exact of_decide_eq_true same ▸ List.getElem_mem bound
  · split at failed
    · next none_ =>
        cases failed
        exact ⟨nofun, .inr (.inl none_)⟩
    · split at failed
      · next absent =>
          refine ⟨?_, .inr (.inr (.inr absent))⟩
          split at failed <;> cases failed <;> exact nofun
      · split at failed
        · next many =>
            cases failed
            exact ⟨nofun, .inr (.inr (.inl many))⟩
        · cases failed

/-- One line fits exactly where it is bound. -/
theorem bindLine_cases (at_ : Site) (definition : String) (named : Table (PortDir × String) (NodeId × PortKind))
    (outer : NodeId → List NodeId) (ports : Table NodeId (List NodeId)) (l : PortDir × String × NodeId) :
    (∃ ports', bindLine at_ definition named outer ports l = .ok ports') ∧ Fits at_ named l ∨
      (∃ e, bindLine at_ definition named outer ports l = .error e ∧ e ≠ .namesExhausted) ∧
        ¬Fits at_ named l := by
  obtain ⟨dir, name, endpoint⟩ := l
  simp only [bindLine, Fits]
  cases picked : named.lookup (dir, name) with
  | none =>
    refine .inr ⟨?_, ?_⟩
    · dsimp only
      split <;> exact ⟨_, rfl, fun same => by cases same⟩
    · rintro ⟨_, _, _, found, _⟩
      cases found
  | some p =>
    obtain ⟨port, kind⟩ := p
    dsimp only
    cases reached : at_.canvas.find? fun n => n.id = endpoint with
    | none =>
      refine .inr ⟨⟨_, rfl, fun same => by cases same⟩, ?_⟩
      rintro ⟨_, _, _, _, found, _⟩
      cases found
    | some far =>
      dsimp only
      split
      · next unfit =>
          refine .inr ⟨⟨_, rfl, fun same => by cases same⟩, ?_⟩
          rintro ⟨_, _, _, found, found', fits⟩
          cases found
          cases found'
          rw [Option.isNone_iff_eq_none] at unfit
          rw [unfit] at fits
          cases fits
      · next fits =>
          exact .inl ⟨⟨_, rfl⟩, port, kind, far, rfl, rfl, Option.isSome_iff_ne_none.2 (by simpa using fits)⟩

/-- All lines are bound exactly where each fits. -/
theorem bindLines_cases (at_ : Site) (definition : String) (named : Table (PortDir × String) (NodeId × PortKind))
    (outer : NodeId → List NodeId) : ∀ (lines : List (PortDir × String × NodeId)) (ports : Table NodeId (List NodeId)),
    (∃ ports', lines.foldlM (bindLine at_ definition named outer) ports = .ok ports') ∧
        (∀ l ∈ lines, Fits at_ named l) ∨
      (∃ e, lines.foldlM (bindLine at_ definition named outer) ports = .error e ∧ e ≠ .namesExhausted) ∧
        ¬∀ l ∈ lines, Fits at_ named l
  | [], ports => .inl ⟨⟨ports, rfl⟩, by simp⟩
  | l :: lines, ports => by
    rw [List.foldlM_cons]
    rcases bindLine_cases at_ definition named outer ports l with ⟨⟨next, turn⟩, fits⟩ | ⟨⟨e, turn, other⟩, unfit⟩
    · rw [turn]
      rcases bindLines_cases at_ definition named outer lines next with ⟨ended, all⟩ | ⟨failed, some_⟩
      · exact .inl ⟨ended, List.forall_mem_cons.2 ⟨fits, all⟩⟩
      · exact .inr ⟨failed, fun all => some_ (List.forall_mem_cons.1 all).2⟩
    · rw [turn]
      exact .inr ⟨⟨e, rfl, other⟩, fun all => unfit (List.forall_mem_cons.1 all).1⟩

/-- **A group's lines are bound** exactly where they fit. -/
theorem bindPorts_cases (at_ : Site) (inst : NodeId) (definition : String) (defn : Workspace)
    (lines : List (PortDir × String × NodeId)) (outer : NodeId → List NodeId) :
    (∃ ports, bindPorts (dg.reaching w) at_ inst definition defn lines outer = .ok ports) ∧
        Binds dg at_ inst defn lines ∨
      (∃ e, bindPorts (dg.reaching w) at_ inst definition defn lines outer = .error e ∧ e ≠ .namesExhausted) ∧
        ¬Binds dg at_ inst defn lines := by
  have derived : portAsSource (dg.reaching w) inst defn = portAsSource dg inst defn := rfl
  rw [bindPorts, derived]
  cases sources : portAsSource dg inst defn with
  | some p => exact .inr ⟨⟨_, rfl, nofun⟩, fun binds => nomatch binds.sources.symm.trans sources⟩
  | none =>
    rcases bindLines_cases at_ definition (namedPorts dg inst defn.nodes) outer lines
      (unboundPorts dg inst defn.nodes) with ⟨ended, all⟩ | ⟨failed, some_⟩
    · exact .inl ⟨ended, sources, all⟩
    · exact .inr ⟨failed, fun binds => some_ binds.lines⟩

theorem foldlM_visit_refused {n room : Nat} {path : List String} {at_ : Site} {inst : NodeId} {node : NodeSnap}
    {rest : List Visit} (refused : Refused dg defs n room path at_ inst node) :
    (Visit.group room path at_ inst node :: rest).foldlM (visit dg defs w) n = .error .refused := by
  have turn : visit dg defs w n (.group room path at_ inst node) = .error .refused := if_pos refused
  rw [List.foldlM_cons, turn]
  rfl

theorem foldlM_visit_goes {n room : Nat} {path : List String} {at_ : Site} {inst : NodeId} {node : NodeSnap}
    {rest : List Visit} (goes : ¬Refused dg defs n room path at_ inst node) :
    (Visit.group room path at_ inst node :: rest).foldlM (visit dg defs w) n =
      rest.foldlM (visit dg defs w) (n + 1) := by
  have turn : visit dg defs w n (.group room path at_ inst node) = .ok (n + 1) := if_neg goes
  rw [List.foldlM_cons, turn]
  rfl

theorem foldlM_visit_endless {n : Nat} {nodes : List NodeSnap} {rest : List Visit} {e : ExpandError}
    (failed : localNames (dg.reaching w) nodes = .error e) :
    (Visit.canvas nodes :: rest).foldlM (visit dg defs w) n = .error .endless := by
  rw [List.foldlM_cons, visit, failed]
  rfl

theorem foldlM_visit_named {n : Nat} {nodes : List NodeSnap} {rest : List Visit} {names : List String}
    (named : localNames (dg.reaching w) nodes = .ok names) :
    (Visit.canvas nodes :: rest).foldlM (visit dg defs w) n = rest.foldlM (visit dg defs w) n := by
  rw [List.foldlM_cons, visit, named]
  rfl

/-- The groups of a canvas are seen one after the other, whatever they are called. -/
theorem seen_groups {ws : Workspace} {locals : List String} (named : localNames (dg.reaching w) ws.nodes = .ok locals)
    {f : List Instance → NodeSnap × String → Except ExpandError (List Instance)} (look : NodeSnap → List Visit)
    (turn : ∀ out g, seen (f out g) = (look g.1).foldlM (visit dg defs w) out.length) (out : List Instance) :
    seen ((ws.groupsIn.zip locals).foldlM f out) =
      (ws.groupsIn.flatMap look).foldlM (visit dg defs w) out.length := by
  have lengths : locals.length = ws.groupsIn.length := localNames_length named
  rw [foldlM_flatMap, seen_foldlM (g := fun n g => (look g.1).foldlM (visit dg defs w) n) fun out g _ => turn out g]
  have groups : (ws.groupsIn.zip locals).map Prod.fst = ws.groupsIn := List.map_fst_zip lengths.ge
  conv_rhs => rw [← groups, List.foldlM_map]

/-- **The walk reads a group in the order of `visits`**, and stops where that order says.
Induction on the room left. -/
theorem group_visits {room : Nat} : ∀ {path : List String} {out : List Instance} {at_ : Site}
    {inst : NodeId} {parent : Option NodeId} {node : NodeSnap} {name : String} {outer : NodeId → List NodeId},
    seen (group (dg.reaching w) doc defs room path out at_ inst parent node name outer) =
      (visits dg defs room path at_ inst node).foldlM (visit dg defs w) out.length := by
  induction room with
  | zero =>
    intro path out at_ inst parent node name outer
    rw [visits, foldlM_visit_refused (.inr (.inl rfl))]
    cases resolved : resolveDefinition doc defs 0 path out.length at_.label (groupDefinition node.kind) with
    | ok defn => exact absurd rfl (resolveDefinition_ok resolved).1
    | error e =>
      simp only [group, bind, Except.bind, resolved]
      exact seen_refused (resolveDefinition_error resolved).1
  | succ room ih =>
    intro path out at_ inst parent node name outer
    rw [visits]
    cases resolved : resolveDefinition doc defs (room + 1) path out.length at_.label (groupDefinition node.kind) with
    | error e =>
      obtain ⟨other, why⟩ := resolveDefinition_error resolved
      rw [foldlM_visit_refused]
      · simp only [group, bind, Except.bind, resolved]
        exact seen_refused other
      · refine why.imp_right (Or.imp_right (Or.imp_right fun absent defn found => ?_))
        rw [absent] at found
        cases found
    | ok defn =>
      obtain ⟨-, absent, few, found⟩ := resolveDefinition_ok resolved
      rcases bindPorts_cases (w := w) at_ inst (groupDefinition node.kind) defn (groupLines node.kind) outer with
        ⟨⟨ports, bound⟩, binds⟩ | ⟨⟨e, failed, other⟩, unfit⟩
      · have goes : ¬Refused dg defs out.length (room + 1) path at_ inst node := by
          rintro (member | none_ | many | unfit)
          · exact absent member
          · cases none_
          · exact absurd few (Nat.not_lt.2 many)
          · exact unfit defn found binds
        rw [foldlM_visit_goes goes, found]
        cases named : localNames (dg.reaching w) defn.nodes with
        | error e =>
          obtain rfl := localNames_error named
          rw [foldlM_visit_endless named]
          simp only [group, bind, Except.bind, resolved, bound, named]
          rfl
        | ok locals =>
          rw [foldlM_visit_named named]
          have counted : (out ++ [({
              id := inst, definition := groupDefinition node.kind, name, definedIn := defn.id, tab := at_.tab,
              parent, path := path ++ [groupDefinition node.kind]
              content := stampContent (dg.reaching w) inst name defn ports } : Instance)]).length =
              out.length + 1 := List.length_append
          rw [← counted]
          simp only [group, bind, Except.bind, resolved, bound, named]
          exact seen_groups named (fun nested => visits dg defs room (path ++ [groupDefinition node.kind])
            ⟨at_.tab, s!"definition {debugStr (groupDefinition node.kind)}", defn.nodes⟩
            (dg.derive inst nested.id) nested) (fun out g => ih) _
      · rw [foldlM_visit_refused]
        · simp only [group, bind, Except.bind, resolved, failed]
          exact seen_refused other
        · refine .inr (.inr (.inr fun defn' found' binds => ?_))
          cases found.symm.trans found'
          exact unfit binds

/-- **Expansion reads a document in the order of `visitsOf`.** -/
theorem expand_visits (indexed : definitions doc = .ok defs) :
    seen (expand (dg.reaching w) doc) = (visitsOf dg doc).foldlM (visit dg defs w) 0 := by
  rw [expand_indexed _ indexed, visitsOf, foldlM_flatMap, definitionTable_eq indexed]
  refine seen_foldlM fun out ws _ => ?_
  cases named : localNames (dg.reaching w) ws.nodes with
  | error e =>
    obtain rfl := localNames_error named
    rw [foldlM_visit_endless named]
    simp only [expandTab, bind, Except.bind, named]
    rfl
  | ok names =>
    rw [foldlM_visit_named named]
    simp only [expandTab, bind, Except.bind, named]
    exact seen_groups named (fun g => visits dg defs maxDepth [] (tabSite ws) g.id g)
      (fun out g => group_visits) out

/-- **Where the order says stop**: with any number of candidates, a canvas that runs out
before a group is refused. -/
theorem visits_endless {before after : List Visit} {canvas : List NodeSnap} (runs : RunsOut dg canvas) :
    ∀ {n : Nat}, Unrefused dg defs n before →
      (before ++ .canvas canvas :: after).foldlM (visit dg defs w) n = .error .endless := by
  induction before with
  | nil => exact fun _ => foldlM_visit_endless (runs.exhausted w)
  | cons v before ih =>
    intro n unrefused
    cases v with
    | canvas nodes =>
      cases named : localNames (dg.reaching w) nodes with
      | error e => exact foldlM_visit_endless named
      | ok names =>
        rw [List.cons_append, foldlM_visit_named named]
        exact ih unrefused
    | group room path at_ inst node =>
      rw [List.cons_append, foldlM_visit_goes unrefused.1]
      exact ih unrefused.2

/-- **Elsewhere it goes on**, from some number of candidates. -/
theorem visits_end : ∀ {list : List Visit} {n : Nat},
    (¬∃ before canvas after, list = before ++ .canvas canvas :: after ∧ RunsOut dg canvas ∧ Unrefused dg defs n before) →
      ∃ w, ∀ w', w ≤ w' → list.foldlM (visit dg defs w') n ≠ .error .endless
  | [], _, _ => ⟨0, fun _ _ => nofun⟩
  | .canvas nodes :: list, n, none_ => by
    rcases settles_or_runsOut dg nodes with ⟨w, names, settles⟩ | runs
    · obtain ⟨w₁, rest⟩ := @visits_end list n fun ⟨before, canvas, after, split, runs, unrefused⟩ =>
        none_ ⟨.canvas nodes :: before, canvas, after, congrArg _ split, runs, unrefused⟩
      refine ⟨max w w₁, fun w' more => ?_⟩
      rw [foldlM_visit_named (settles w' (le_trans (le_max_left w w₁) more))]
      exact rest w' (le_trans (le_max_right w w₁) more)
    · exact absurd ⟨[], nodes, list, rfl, runs, trivial⟩ none_
  | .group room path at_ inst node :: list, n, none_ => by
    by_cases refused : Refused dg defs n room path at_ inst node
    · refine ⟨0, fun w' _ => ?_⟩
      rw [foldlM_visit_refused refused]
      exact nofun
    · obtain ⟨w, rest⟩ := @visits_end list (n + 1)
        fun ⟨before, canvas, after, split, runs, unrefused⟩ =>
          none_ ⟨.group room path at_ inst node :: before, canvas, after, congrArg _ split, runs, refused, unrefused⟩
      refine ⟨w, fun w' more => ?_⟩
      rw [foldlM_visit_goes refused]
      exact rest w' more

end Visits

/-! ## Ending -/

section Ends

variable {dg : Digests} {doc : Document}

/-- **What runs out of names never returns.** -/
theorem NamesRunOut.endless (runs : NamesRunOut dg doc) (w : Nat) :
    expand (dg.reaching w) doc = .error .namesExhausted := by
  obtain ⟨nodup, before, canvas, after, split, out, unrefused⟩ := runs
  obtain ⟨defs, indexed⟩ := (definitions_ok_iff doc).2 nodup
  rw [definitionTable_eq indexed] at unrefused
  have stops : seen (expand (dg.reaching w) doc) = .error .endless := by
    rw [expand_visits indexed, split]
    exact visits_endless out unrefused
  cases result : expand (dg.reaching w) doc with
  | ok out => rw [result] at stops; cases stops
  | error e =>
    by_cases same : e = .namesExhausted
    · rw [same]
    · rw [result, seen_refused same] at stops
      cases stops

/-- **What does not run out of names returns.** -/
theorem returns_of_names (names : ¬NamesRunOut dg doc) : ∃ r, Returns dg doc r := by
  obtain ⟨w, ends⟩ : ∃ w, expand (dg.reaching w) doc ≠ .error .namesExhausted := by
    cases indexed : definitions doc with
    | error e =>
      refine ⟨0, ?_⟩
      obtain ⟨name, first, second, rfl⟩ := indexing_refuses indexed
      rw [expand_refused _ indexed]
      exact nofun
    | ok defs =>
      have nodup := (definitions_ok_iff doc).1 ⟨defs, indexed⟩
      obtain ⟨w, ends⟩ := @visits_end dg defs (visitsOf dg doc) 0 (by
        rintro ⟨before, canvas, after, split, runs, unrefused⟩
        exact names ⟨nodup, before, canvas, after, split, runs, definitionTable_eq indexed ▸ unrefused⟩)
      refine ⟨w, fun endless => ends w le_rfl ?_⟩
      rw [← expand_visits indexed, endless]
      rfl
  exact ⟨_, ends, w, fun w' more => (expand_further more).same rfl ends⟩

/-- **Expansion ends, errs on every cycle and keeps its bounds** exactly where no canvas
runs out of names before a group is refused. -/
theorem expand_ends_iff (dg : Digests) (doc : Document) :
    (∃ r, Returns dg doc r ∧ (CycleReached doc → ∃ e, r = .error e) ∧ ∀ out, r = .ok out → Bounded dg doc out) ↔
      ¬NamesRunOut dg doc := by
  constructor
  · rintro ⟨r, ⟨ends, w, returns⟩, _⟩ runs
    exact ends ((returns w le_rfl).symm.trans (runs.endless w))
  · intro names
    obtain ⟨r, returned⟩ := returns_of_names names
    obtain ⟨w, returns⟩ := returned.2
    refine ⟨r, returned, fun cycle => ?_, fun out result => ?_⟩
    · cases result : r with
      | error e => exact ⟨e, rfl⟩
      | ok out => exact absurd cycle (expand_acyclic ((returns w le_rfl).trans result))
    · have bounded := expand_bounded ((returns w le_rfl).trans result)
      exact ⟨bounded.few, bounded.shallow, bounded.nodup, bounded.once⟩

end Ends

/-! ## A tab that takes every name -/

/-- Every name there is: a quality and a thing. -/
def everyName : List String := Nodename.qualities.flatMap fun q => Nodename.things.map fun t => q ++ "-" ++ t

theorem getD_mem {α : Type} {xs : List α} {d : α} {n : Nat} (bound : n < xs.length) : xs.getD n d ∈ xs := by
  rw [List.getD_eq_getElem _ _ bound]
  exact List.getElem_mem bound

theorem generated_mem (dg : Digests) (id : NodeId) (nth : Nat) : Nodename.generated dg id nth ∈ everyName := by
  refine List.mem_flatMap.2 ⟨_, getD_mem (Nat.mod_lt _ ?_), List.mem_map.2 ⟨_, getD_mem (Nat.mod_lt _ ?_), rfl⟩⟩
  · exact Nat.succ_pos _
  · exact Nat.succ_pos _

/-- A group for each name of a list, numbered from `id` on. -/
def namedVoices : NodeId → List String → List NodeSnap
  | _, [] => []
  | id, name :: names => { id, kind := .group "voice" (some name) [] [] } :: namedVoices (id + 1) names

/-- Named groups take their names. -/
theorem namedVoices_taken (dg : Digests) : ∀ (names : List String) (id : NodeId) (taken : List String),
    (namedVoices id names).foldlM (nameNode dg) taken = .ok (taken ++ names)
  | [], _, taken => by
    rw [List.append_nil]
    rfl
  | name :: names, id, taken => by
    have turn : nameNode dg taken { id, kind := .group "voice" (some name) [] [] } = .ok (taken ++ [name]) := rfl
    have rest := namedVoices_taken dg names (id + 1) (taken ++ [name])
    rw [List.append_assoc, List.singleton_append] at rest
    rw [namedVoices, List.foldlM_cons, turn]
    exact rest

/-- A tab with a group of each name, and a last group without one. -/
def crowdedTab (names : List String) : Workspace where
  id := 1
  nodes := namedVoices 10 names ++ [{ id := 2, kind := .group "voice" none [] [] }]

/-- A tab with a group of each name and one more, over an empty definition. -/
def crowdedDocument (names : List String) : Document where
  workspaces := [crowdedTab names, { id := 3, name := some "voice", tab := false }]

theorem crowded_names {names : List String} (dg : Digests) (all : ∀ nth, Nodename.generated dg 2 nth ∈ names) :
    NamesRunOut dg (crowdedDocument names) := by
  have runs : RunsOut dg (crowdedTab names).nodes :=
    ⟨namedVoices 10 names, { id := 2, kind := .group "voice" none [] [] }, [], names, rfl, ⟨"voice", [], [], rfl⟩,
      ⟨0, (localNames_eq _ _).trans (namedVoices_taken (dg.reaching 0) names 10 [])⟩, all⟩
  have looked : visitsOf dg (crowdedDocument names) = .canvas (crowdedTab names).nodes ::
      (crowdedTab names).groupsIn.flatMap fun g =>
        visits dg (definitionTable (crowdedDocument names)) maxDepth [] (tabSite (crowdedTab names)) g.id g := by
    have one : tabs (crowdedDocument names) = [crowdedTab names] := rfl
    rw [visitsOf, one, List.flatMap_singleton]
  exact ⟨List.nodup_singleton "voice", [], _, _, looked, runs, trivial⟩

/-- Whatever the digests are, the last group finds no name. -/
theorem crowded_endless : ¬∃ dg r, Returns dg (crowdedDocument everyName) r := by
  rintro ⟨dg, r, ends, w, returns⟩
  exact ends ((returns w le_rfl).symm.trans ((crowded_names dg (generated_mem dg 2)).endless w))

end Instancing

end Wk
