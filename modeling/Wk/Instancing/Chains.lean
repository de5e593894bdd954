/-
# Wk.Instancing.Chains -- one instance for each chain of groups, and no more than there may be

A chain says where a group is by positions: the tab, the group on the tab's canvas, the
group inside its definition, and so on down.  Chains are read off the document alone
(`Chain.lines`), without ids or names.  An expansion has one instance for each chain that
leads somewhere (`expand_chains`), no path of it repeats a definition or is longer than
`maxDepth`, there are no more than `maxInstances`, and no cycle of definitions is reached.
-/
import Wk.Instancing.Order
import Wk.Library.Fuel
import Wk.Library.Ranked

namespace Wk.Instancing

open Wk.Library Relation

set_option autoImplicit false

/-! ## Chains -/

/-- The groups met from `line` down, one position a definition. -/
def follow (defs : Table String Workspace) (line : NodeSnap) : List Nat → Option (List NodeSnap)
  | [] => some [line]
  | p :: inner => do
    let defn ← defs.lookup (groupDefinition line.kind)
    let nested ← defn.groupsIn[p]?
    let rest ← follow defs nested inner
    some (line :: rest)

/-- A group, by its position on its tab and then in one definition after the other. -/
structure Chain where
  tab : Nat
  group : Nat
  inner : List Nat
  deriving DecidableEq, Repr

/-- The groups of a chain, from the tab's down, when it leads somewhere. -/
def Chain.lines (doc : Document) (c : Chain) : Option (List NodeSnap) := do
  let ws ← (tabs doc)[c.tab]?
  let line ← ws.groupsIn[c.group]?
  follow (definitionTable doc) line c.inner

/-- The id derived along the groups of a chain. -/
def idAlong (dg : Digests) (inst : NodeId) (lines : List NodeSnap) : NodeId :=
  lines.foldl (fun i n => dg.derive i n.id) inst

/-- The definitions a chain leads through. -/
def definitionsOf (lines : List NodeSnap) : List String := lines.map fun n => groupDefinition n.kind

/-- An instance stands for a chain. -/
def Represents (dg : Digests) (doc : Document) (i : Instance) (c : Chain) : Prop :=
  ∃ ws line rest, (tabs doc)[c.tab]? = some ws ∧ c.lines doc = some (line :: rest) ∧
    i.tab = ws.id ∧ i.id = idAlong dg line.id rest ∧ i.path = definitionsOf (line :: rest) ∧
    i.path.getLast? = some i.definition

/-! ## Definitions that contain each other -/

/-- A definition of the first name holds a group of the second. -/
def Contains (doc : Document) (d e : String) : Prop :=
  ∃ ws ∈ doc.workspaces, ws.tab = false ∧ ws.name = some d ∧ ∃ n ∈ ws.groupsIn, groupDefinition n.kind = e

/-- A group of a tab leads to a definition that contains itself. -/
def CycleReached (doc : Document) : Prop :=
  ∃ ws ∈ tabs doc, ∃ n ∈ ws.groupsIn, ∃ d, ReflTransGen (Contains doc) (groupDefinition n.kind) d ∧
    TransGen (Contains doc) d d

/-- A definition that unfolds within the room there is. -/
def Unfolds (defs : Table String Workspace) : Nat → String → Prop
  | 0, _ => False
  | room + 1, d => ∃ defn, defs.lookup d = some defn ∧ ∀ n ∈ defn.groupsIn, Unfolds defs room (groupDefinition n.kind)

section Unfolding

variable {doc : Document} {defs : Table String Workspace}

theorem Unfolds.contained (indexed : definitions doc = .ok defs) {room : Nat} {d e : String}
    (unfolds : Unfolds defs room d) (inside : Contains doc d e) : ∃ less < room, Unfolds defs less e := by
  cases room with
  | zero => exact unfolds.elim
  | succ room =>
    obtain ⟨defn, found, below⟩ := unfolds
    obtain ⟨ws, member, isDefinition, named, n, written, rfl⟩ := inside
    rw [definitions_names_unique indexed member isDefinition named] at found
    cases found
    exact ⟨room, Nat.lt_succ_self room, below n written⟩

theorem Unfolds.reached (indexed : definitions doc = .ok defs) {room : Nat} {d e : String}
    (unfolds : Unfolds defs room d) (path : ReflTransGen (Contains doc) d e) : ∃ less, Unfolds defs less e := by
  refine reaches_within (P := fun d => ∃ less, Unfolds defs less d) path ⟨room, unfolds⟩ ?_
  rintro x y ⟨less, unfolds⟩ inside
  obtain ⟨fewer, _, unfolds'⟩ := unfolds.contained indexed inside
  exact ⟨fewer, unfolds'⟩

/-- **What unfolds is in no cycle.**  Each turn round it would take room. -/
theorem Unfolds.acyclic (indexed : definitions doc = .ok defs) {room : Nat} : ∀ {d : String},
    Unfolds defs room d → ¬TransGen (Contains doc) d d := by
  induction room using Nat.strong_induction_on with
  | _ room ih =>
    intro d unfolds loop
    have less : ∃ less < room, Unfolds defs less d := by
      have along : ∀ e, TransGen (Contains doc) d e → ∃ less < room, Unfolds defs less e := by
        intro e path
        induction path with
        | single inside => exact unfolds.contained indexed inside
        | tail _ inside before =>
          obtain ⟨some_, shorter, unfolds'⟩ := before
          obtain ⟨less, shorter', unfolds''⟩ := unfolds'.contained indexed inside
          exact ⟨less, shorter'.trans shorter, unfolds''⟩
      exact along d loop
    obtain ⟨less, shorter, unfolds'⟩ := less
    exact ih less shorter unfolds' loop

end Unfolding

/-! ## Listing the chains -/

/-- The positions that lead on from a group, in document order. -/
def leads (defs : Table String Workspace) : Nat → NodeSnap → List (List Nat)
  | 0, _ => []
  | room + 1, line => [] :: match defs.lookup (groupDefinition line.kind) with
      | none => []
      | some defn => defn.groupsIn.zipIdx.flatMap fun g => (leads defs room g.1).map (g.2 :: ·)

/-- The chains of a document, in document order. -/
def chains (doc : Document) : List Chain :=
  (tabs doc).zipIdx.flatMap fun ws => ws.1.groupsIn.zipIdx.flatMap fun g =>
    (leads (definitionTable doc) maxDepth g.1).map (Chain.mk ws.2 g.2)

/-- What is listed position by position is listed once where each part is. -/
theorem indexed_nodup {α β γ : Type} {xs : List α} (f : α → List β) (put : Nat → β → γ)
    (apart : ∀ p q b c, put p b = put q c → p = q ∧ b = c) (each : ∀ x ∈ xs, (f x).Nodup) :
    (xs.zipIdx.flatMap fun x => (f x.1).map (put x.2)).Nodup := by
  rw [List.nodup_flatMap]
  constructor
  · rintro ⟨x, p⟩ member
    have here : x ∈ xs := List.mem_of_getElem? (List.mem_zipIdx_iff_getElem?.1 member)
    exact (each x here).map fun b c same => (apart p p b c same).2
  · have positions : xs.zipIdx.Pairwise fun a b => a.2 ≠ b.2 := by
      refine List.pairwise_map.1 ?_
      have listed : xs.zipIdx.map Prod.snd = List.range' 0 xs.length := List.zipIdx_map_snd ..
      rw [listed]
      exact List.nodup_range'
    refine positions.imp ?_
    rintro ⟨x, p⟩ ⟨y, q⟩ differ c here there
    obtain ⟨b, _, rfl⟩ := List.mem_map.1 here
    obtain ⟨b', _, same⟩ := List.mem_map.1 there
    exact differ (apart q p b' b same).1.symm

theorem leads_nodup (defs : Table String Workspace) : ∀ (room : Nat) (line : NodeSnap), (leads defs room line).Nodup
  | 0, _ => List.nodup_nil
  | room + 1, line => by
    rw [leads]
    refine List.nodup_cons.2 ⟨?_, ?_⟩
    · split
      · exact List.not_mem_nil
      · intro member
        obtain ⟨_, _, inner⟩ := List.mem_flatMap.1 member
        obtain ⟨_, _, same⟩ := List.mem_map.1 inner
        cases same
    · split
      · exact List.nodup_nil
      · refine indexed_nodup (fun g => leads defs room g) (fun p inner => p :: inner) ?_ fun g _ => leads_nodup defs room g
        intro p q b c same
        exact List.cons.inj same

/-- **No chain is listed twice.** -/
theorem chains_nodup (doc : Document) : (chains doc).Nodup := by
  have put : chains doc = (tabs doc).zipIdx.flatMap fun ws =>
      (ws.1.groupsIn.zipIdx.flatMap fun g => (leads (definitionTable doc) maxDepth g.1).map (Prod.mk g.2)).map
        fun c => Chain.mk ws.2 c.1 c.2 := by
    rw [chains]
    refine List.flatMap_congr fun ws _ => ?_
    rw [List.map_flatMap]
    refine List.flatMap_congr fun g _ => ?_
    rw [List.map_map]
    rfl
  rw [put]
  refine indexed_nodup (fun ws : Workspace => ws.groupsIn.zipIdx.flatMap fun g =>
    (leads (definitionTable doc) maxDepth g.1).map (Prod.mk g.2))
    (fun p (c : Nat × List Nat) => Chain.mk p c.1 c.2) ?_ fun ws _ => ?_
  · rintro p q ⟨b, inner⟩ ⟨b', inner'⟩ same
    cases same
    exact ⟨rfl, rfl⟩
  · refine indexed_nodup (leads (definitionTable doc) maxDepth) Prod.mk ?_ fun g _ => leads_nodup _ _ g
    intro p q b c same
    exact Prod.mk.inj same

/-- **What leads somewhere is listed**, below a group that unfolds. -/
theorem mem_leads {defs : Table String Workspace} {room : Nat} : ∀ {line : NodeSnap} {inner : List Nat},
    Unfolds defs room (groupDefinition line.kind) → (inner ∈ leads defs room line ↔ (follow defs line inner).isSome) := by
  induction room with
  | zero => exact fun unfolds => unfolds.elim
  | succ room ih =>
    intro line inner unfolds
    obtain ⟨defn, found, below⟩ := unfolds
    rw [leads, found]
    cases inner with
    | nil => simp [follow]
    | cons p inner =>
      simp only [List.mem_cons, reduceCtorEq, false_or, List.mem_flatMap, List.mem_map, List.cons.injEq, follow,
        found, Option.bind_eq_bind, Option.bind_some, Option.isSome_bind]
      constructor
      · rintro ⟨⟨g, q⟩, member, rest, listed, rfl, rfl⟩
        have at_ := List.mem_zipIdx_iff_getElem?.1 member
        have here := (ih (below g (List.mem_of_getElem? at_))).1 listed
        obtain ⟨rest', followed⟩ := Option.isSome_iff_exists.1 here
        simp [at_, followed]
      · intro leads_
        cases at_ : defn.groupsIn[p]? with
        | none => simp [at_] at leads_
        | some g =>
          rw [at_] at leads_
          refine ⟨(g, p), List.mem_zipIdx_iff_getElem?.2 at_, inner, ?_, rfl, rfl⟩
          refine (ih (below g (List.mem_of_getElem? at_))).2 ?_
          cases followed : follow defs g inner with
          | none => simp [followed] at leads_
          | some rest => rfl

/-! ## The walk -/

/-- An instance stands for what leads on from a group. -/
structure Below (dg : Digests) (defs : Table String Workspace) (tab inst : NodeId) (path : List String)
    (line : NodeSnap) (i : Instance) (inner : List Nat) : Prop where
  lines : ∃ rest, follow defs line inner = some (line :: rest) ∧ i.id = idAlong dg inst rest ∧
    i.path = path ++ definitionsOf (line :: rest)
  tab : i.tab = tab
  last : i.path.getLast? = some i.definition
  nodup : i.path.Nodup
  shallow : i.path.length ≤ maxDepth

theorem zip_zipIdx_flatMap {α β γ : Type} (f : α → Nat → List γ) : ∀ {xs : List α} {ys : List β} (n : Nat),
    ys.length = xs.length → ((xs.zip ys).zipIdx n).flatMap (fun x => f x.1.1 x.2) =
      (xs.zipIdx n).flatMap fun x => f x.1 x.2
  | [], _, _, _ => rfl
  | _ :: _, [], _, short => nomatch short
  | x :: xs, y :: ys, n, same => by
    rw [List.zip_cons_cons, List.zipIdx_cons, List.zipIdx_cons, List.flatMap_cons, List.flatMap_cons,
      zip_zipIdx_flatMap f (n + 1) (Nat.succ.inj same)]

section Walk

variable {dg : Digests} {doc : Document} {defs : Table String Workspace}

/-- One node's turn in naming the groups of a canvas. -/
def nameNode (dg : Digests) (taken : List String) (node : NodeSnap) : Except ExpandError (List String) :=
  match node.kind with
  | .group _ (some chosen) _ _ => .ok (taken ++ [chosen])
  | .group _ none _ _ =>
    match Nodename.firstFree dg node.id fun c => !taken.contains c with
    | some c => .ok (taken ++ [c])
    | none => .error .namesExhausted
  | _ => .ok taken

theorem localNames_eq (dg : Digests) (canvas : List NodeSnap) :
    localNames dg canvas = canvas.foldlM (nameNode dg) [] := rfl

theorem nameNode_plain {taken : List String} {node : NodeSnap} (plain : node.kind.isGroup = false) :
    nameNode dg taken node = .ok taken := by
  unfold nameNode
  cases kind : node.kind with
  | group => rw [kind] at plain; cases plain
  | _ => rfl

theorem nameNode_group {taken next : List String} {node : NodeSnap} (isGroup : node.kind.isGroup = true)
    (named : nameNode dg taken node = .ok next) : ∃ c, next = taken ++ [c] := by
  unfold nameNode at named
  cases kind : node.kind with
  | group definition name inWires outWires =>
    rw [kind] at named
    cases name with
    | some chosen =>
      cases named
      exact ⟨chosen, rfl⟩
    | none =>
      dsimp only at named
      split at named
      · cases named
        exact ⟨_, rfl⟩
      · cases named
  | _ => rw [kind] at isGroup; cases isGroup

/-- Every group of a canvas has a local name. -/
theorem localNames_length {canvas : List NodeSnap} {locals : List String}
    (named : localNames dg canvas = .ok locals) :
    locals.length = (canvas.filter fun n => n.kind.isGroup).length := by
  have grows : ∀ (canvas : List NodeSnap) (taken locals : List String), canvas.foldlM (nameNode dg) taken = .ok locals →
      locals.length = taken.length + (canvas.filter fun n => n.kind.isGroup).length := by
    intro canvas
    induction canvas with
    | nil =>
      intro taken locals ended
      cases ended
      rfl
    | cons n canvas ih =>
      intro taken locals ended
      obtain ⟨next, first, rest⟩ := foldlM_cons_ok ended
      rw [ih next locals rest, List.filter_cons]
      cases isGroup : n.kind.isGroup with
      | true =>
        obtain ⟨c, rfl⟩ := nameNode_group isGroup first
        rw [if_pos rfl, List.length_cons, List.length_append, List.length_singleton]
        omega
      | false =>
        rw [nameNode_plain isGroup] at first
        cases first
        rfl
  rw [grows canvas [] locals named, List.length_nil, Nat.zero_add]

/-- **The walk emits one instance for each chain below a group**, which unfolds, and keeps
to the number of instances there may be.  Induction on the room left. -/
theorem group_chains {room : Nat} : ∀ {path : List String} {out out' : List Instance} {at_ : Site}
    {inst : NodeId} {parent : Option NodeId} {node : NodeSnap} {name : String} {outer : NodeId → List NodeId},
    group dg doc defs room path out at_ inst parent node name outer = .ok out' → path.Nodup →
    path.length + room = maxDepth →
    Unfolds defs room (groupDefinition node.kind) ∧ out'.length ≤ maxInstances ∧
      ∃ new, out' = out ++ new ∧ List.Forall₂ (Below dg defs at_.tab inst path node) new (leads defs room node) := by
  induction room with
  | zero =>
    intro path out out' at_ inst parent node name outer ended
    obtain ⟨_, _, _, _, ⟨⟩, _⟩ := group_ok ended
  | succ room ih =>
    intro path out out' at_ inst parent node name outer ended nodup depth
    obtain ⟨_, defn, ports, locals, ⟨⟩, ⟨absent, few, found⟩, bound, named, ended⟩ := group_ok ended
    have longer : (path ++ [groupDefinition node.kind]).Nodup :=
      List.nodup_append.2 ⟨nodup, List.nodup_singleton _, fun d member e same => by
        rw [List.mem_singleton.1 same]
        rintro rfl
        exact absent member⟩
    have deeper : (path ++ [groupDefinition node.kind]).length + room = maxDepth := by
      rw [List.length_append, List.length_singleton]
      omega
    have lengths : locals.length = defn.groupsIn.length := localNames_length named
    refine ⟨⟨defn, found, fun n written => ?_⟩, ?_, ?_⟩
    · have listed : n ∈ (defn.groupsIn.zip locals).map Prod.fst := by
        rw [List.map_fst_zip lengths.ge]
        exact written
      obtain ⟨g, member, rfl⟩ := List.mem_map.1 listed
      obtain ⟨before, after, turn⟩ := foldlM_turns ended g member
      exact (ih turn longer deeper).1
    · refine foldlM_keeps (fun out => out.length ≤ maxInstances) ended ?_ ?_
      · rw [List.length_append, List.length_singleton]
        omega
      · intro _ g _ _ turn _
        exact (ih turn longer deeper).2.1
    · rw [foldlM_zipIdx _ _ 0] at ended
      obtain ⟨new, rfl, emitted⟩ := foldlM_emits (R := Below dg defs at_.tab inst path node)
        (g := fun x => (leads defs room x.1.1).map (x.2 :: ·)) ended fun x member out out' turn => by
          obtain ⟨new, rfl, inner⟩ := (ih turn longer deeper).2.2
          refine ⟨new, rfl, List.forall₂_map_right_iff.2 (inner.imp fun i rest_ below => ?_)⟩
          have at_p : defn.groupsIn[x.2]? = some x.1.1 := by
            have here := List.mem_zipIdx_iff_getElem?.1 member
            exact (List.getElem?_zip_eq_some.1 here).1
          obtain ⟨⟨rest, followed, id, path⟩, tab, last, nodup, shallow⟩ := below
          refine ⟨⟨x.1.1 :: rest, ?_, id, ?_⟩, tab, last, nodup, shallow⟩
          · simp [follow, found, at_p, followed]
          · rw [path, List.append_assoc]
            rfl
      refine ⟨_ :: new, List.append_assoc .., ?_⟩
      rw [leads, found]
      dsimp only
      rw [zip_zipIdx_flatMap (fun g p => (leads defs room g).map (p :: ·)) 0 lengths] at emitted
      refine .cons ⟨⟨[], rfl, rfl, rfl⟩, rfl, List.getLast?_concat, longer, ?_⟩ emitted
      dsimp only
      omega

/-- **A tab emits** one instance for each chain on its canvas. -/
theorem expandTab_chains {out out' : List Instance} {ws : Workspace} (ended : expandTab dg doc defs out ws = .ok out') :
    (∀ n ∈ ws.groupsIn, Unfolds defs maxDepth (groupDefinition n.kind)) ∧
      (out.length ≤ maxInstances → out'.length ≤ maxInstances) ∧
      ∃ new, out' = out ++ new ∧ List.Forall₂
        (fun i c => ∃ line, ws.groupsIn[c.1]? = some line ∧ Below dg defs ws.id line.id [] line i c.2) new
        (ws.groupsIn.zipIdx.flatMap fun g => (leads defs maxDepth g.1).map (Prod.mk g.2)) := by
  obtain ⟨locals, named, ended⟩ := expandTab_ok ended
  have lengths : locals.length = ws.groupsIn.length := localNames_length named
  refine ⟨fun n written => ?_, fun few => ?_, ?_⟩
  · have listed : n ∈ (ws.groupsIn.zip locals).map Prod.fst := by
      rw [List.map_fst_zip lengths.ge]
      exact written
    obtain ⟨g, member, rfl⟩ := List.mem_map.1 listed
    obtain ⟨before, after, turn⟩ := foldlM_turns ended g member
    exact (group_chains turn List.nodup_nil rfl).1
  · refine foldlM_keeps (fun out => out.length ≤ maxInstances) ended few ?_
    intro _ g _ _ turn _
    exact (group_chains turn List.nodup_nil rfl).2.1
  · rw [foldlM_zipIdx _ _ 0] at ended
    rw [← zip_zipIdx_flatMap (fun g p => (leads defs maxDepth g).map (Prod.mk p)) 0 lengths]
    refine foldlM_emits ended fun x member out out' turn => ?_
    obtain ⟨new, rfl, inner⟩ := (group_chains turn List.nodup_nil rfl).2.2
    refine ⟨new, rfl, List.forall₂_map_right_iff.2 (inner.imp fun i rest below => ⟨x.1.1, ?_, below⟩)⟩
    exact (List.getElem?_zip_eq_some.1 (List.mem_zipIdx_iff_getElem?.1 member)).1

end Walk

/-! ## Expansions -/

/-- What an expansion keeps to. -/
structure Bounded (dg : Digests) (doc : Document) (out : List Instance) : Prop where
  few : out.length ≤ maxInstances
  shallow : ∀ i ∈ out, i.path.length ≤ maxDepth
  nodup : ∀ i ∈ out, i.path.Nodup
  /-- One instance for each chain of groups that leads somewhere. -/
  once : ∃ chains : List Chain, chains.Nodup ∧ (∀ c, c ∈ chains ↔ (c.lines doc).isSome) ∧
    List.Forall₂ (Represents dg doc) out chains

section Expansions

variable {dg : Digests} {doc : Document} {out : List Instance}

theorem definitionTable_eq {defs : Table String Workspace} (indexed : definitions doc = .ok defs) :
    definitionTable doc = defs := by
  rw [definitionTable, indexed]
  rfl

/-- Every group of a tab of a document that expands unfolds. -/
theorem expand_unfolds (expanded : expand dg doc = .ok out) : ∃ defs, definitions doc = .ok defs ∧
    ∀ ws ∈ tabs doc, ∀ n ∈ ws.groupsIn, Unfolds defs maxDepth (groupDefinition n.kind) := by
  cases indexed : definitions doc with
  | error e => rw [expand_refused dg indexed] at expanded; cases expanded
  | ok defs =>
    rw [expand_indexed dg indexed] at expanded
    refine ⟨defs, rfl, fun ws isTab => ?_⟩
    obtain ⟨before, after, turn⟩ := foldlM_turns expanded ws isTab
    exact (expandTab_chains turn).1

/-- **No cycle is reached** by what expands. -/
theorem expand_acyclic (expanded : expand dg doc = .ok out) : ¬CycleReached doc := by
  obtain ⟨defs, indexed, unfolds⟩ := expand_unfolds expanded
  rintro ⟨ws, isTab, n, written, d, path, loop⟩
  obtain ⟨room, unfolds'⟩ := (unfolds ws isTab n written).reached indexed path
  exact unfolds'.acyclic indexed loop

/-- **What leads somewhere is listed** in a document that expands. -/
theorem mem_chains (expanded : expand dg doc = .ok out) (c : Chain) : c ∈ chains doc ↔ (c.lines doc).isSome := by
  obtain ⟨defs, indexed, unfolds⟩ := expand_unfolds expanded
  obtain ⟨t, p, inner⟩ := c
  simp only [chains, Chain.lines, definitionTable_eq indexed, List.mem_flatMap, List.mem_map, Option.bind_eq_bind,
    Prod.exists, List.mem_zipIdx_iff_getElem?, Chain.mk.injEq]
  constructor
  · rintro ⟨ws, _, onTab, line, _, onCanvas, rest, listed, rfl, rfl, rfl⟩
    have found := (mem_leads (unfolds ws (List.mem_of_getElem? onTab) line (List.mem_of_getElem? onCanvas))).1 listed
    simp only [onTab, onCanvas, Option.bind_some]
    exact found
  · intro leads_
    cases onTab : (tabs doc)[t]? with
    | none => simp [onTab] at leads_
    | some ws =>
      cases onCanvas : ws.groupsIn[p]? with
      | none => simp [onTab, onCanvas] at leads_
      | some line =>
        simp only [onTab, onCanvas, Option.bind_some] at leads_
        exact ⟨ws, t, onTab, line, p, onCanvas, inner,
          (mem_leads (unfolds ws (List.mem_of_getElem? onTab) line (List.mem_of_getElem? onCanvas))).2 leads_,
          rfl, rfl, rfl⟩

/-- **An expansion is bounded** and has one instance for each chain. -/
theorem expand_bounded (expanded : expand dg doc = .ok out) : Bounded dg doc out := by
  have listed := mem_chains expanded
  obtain ⟨defs, indexed, _⟩ := expand_unfolds expanded
  have table := definitionTable_eq indexed
  rw [expand_indexed dg indexed] at expanded
  have few : out.length ≤ maxInstances := by
    refine foldlM_keeps (fun out => out.length ≤ maxInstances) expanded (Nat.zero_le _) ?_
    exact fun _ ws _ _ turn before => (expandTab_chains turn).2.1 before
  rw [foldlM_zipIdx _ _ 0] at expanded
  obtain ⟨out, rfl, emitted⟩ := foldlM_emits
    (R := fun i c => Represents dg doc i c ∧ i.path.Nodup ∧ i.path.length ≤ maxDepth)
    (g := fun ws => ws.1.groupsIn.zipIdx.flatMap fun g => (leads defs maxDepth g.1).map (Chain.mk ws.2 g.2))
    expanded fun ws member out out' turn => by
      obtain ⟨new, rfl, emitted⟩ := (expandTab_chains turn).2.2
      refine ⟨new, rfl, ?_⟩
      have parts : (ws.1.groupsIn.zipIdx.flatMap fun g => (leads defs maxDepth g.1).map (Chain.mk ws.2 g.2)) =
          (ws.1.groupsIn.zipIdx.flatMap fun g => (leads defs maxDepth g.1).map (Prod.mk g.2)).map
            fun c => Chain.mk ws.2 c.1 c.2 := by
        rw [List.map_flatMap]
        refine List.flatMap_congr fun g _ => ?_
        rw [List.map_map]
        rfl
      rw [parts]
      refine List.forall₂_map_right_iff.2 (emitted.imp fun i c => ?_)
      rintro ⟨line, onCanvas, ⟨rest, followed, id, path⟩, tab, last, nodup, shallow⟩
      have onTab := List.mem_zipIdx_iff_getElem?.1 member
      refine ⟨⟨ws.1, line, rest, onTab, ?_, tab, id, path, last⟩, nodup, shallow⟩
      simp only [Chain.lines, table, onTab, onCanvas, Option.bind_eq_bind, Option.bind_some]
      exact followed
  have each : ∀ i ∈ out, i.path.Nodup ∧ i.path.length ≤ maxDepth := fun i member => by
    obtain ⟨k, bound, rfl⟩ := List.mem_iff_getElem.1 member
    have both := List.forall₂_iff_get.1 emitted
    exact (both.2 k bound (both.1 ▸ bound)).2
  refine ⟨few, fun i member => (each i member).2, fun i member => (each i member).1, chains doc, chains_nodup doc,
    listed, ?_⟩
  rw [chains, table]
  exact emitted.imp fun _ _ related => related.1

end Expansions

end Wk.Instancing
