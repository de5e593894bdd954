/-
# Wk.Instancing.Collapse -- the wiring of an instance is its definition's, resolved

The expansion threads port substitution through nested closures.  This module
states what that substitution is, without the closures: an instance sits at the
end of a chain of `Level`s, and an id of its definition `resolve`s along the
chain -- an inner node to its derived id, a boundary port to whatever the lines
of the enclosing level wired to it, resolved one level further out.

* `Nested` -- the chains a document really writes;
* `CollisionFree` -- what is asked of the digests: of the ids the document `Derives`,
  and of no others;
* `sub_resolves` -- one level of the code's substitution is one level of `resolve`;
* `group_collapses` -- every instance a walk adds has the resolved wiring of its
  definition (induction on the room left below `maxDepth`);
* `resolve_lands` -- where a resolved end can be: a derived node that is no port,
  or a node of the tab's own canvas.
-/
import Wk.Instancing
import Wk.Library.Run
import Mathlib

namespace Wk.Instancing

open Wk.Library

set_option autoImplicit false

/-! ## Chains of levels and resolution along them -/

/-- One level of nesting: an instance, the group line that made it, and the
definition it stamps out. -/
structure Level where
  inst : NodeId
  line : NodeSnap
  defn : Workspace

namespace Level

/-- Whether the definition writes `a` as a boundary port. -/
def isPort (lv : Level) (a : NodeId) : Bool :=
  lv.defn.nodes.any fun n => n.id = a && (portOf n).isSome

/-- The port a line of direction `dir` and name `name` picks. -/
def picks (lv : Level) (dir : PortDir) (name : String) : Option NodeId :=
  (lv.defn.nodes.reverse.find? fun n =>
    (portOf n).any fun p => p.1 = dir && p.2.1 = name).map NodeSnap.id

/-- The nodes of the enclosing canvas wired to port `a`, once per line. -/
def wiredTo (lv : Level) (a : NodeId) : List NodeId :=
  ((groupLines lv.line.kind).filter fun l => lv.picks l.1 l.2.1 = some a).map fun l => l.2.2

end Level

/-- The live nodes an id of the innermost definition stands for, innermost level
first.  On the tab itself an id is that node. -/
def resolve (dg : Digests) : List Level → NodeId → Multiset NodeId
  | [], a => {a}
  | lv :: up, a =>
    if lv.isPort a then (lv.wiredTo a : Multiset NodeId).bind (resolve dg up)
    else {dg.derive lv.inst a}

/-- The canvas a group of the innermost level is written on. -/
def canvasOf (tab : Workspace) : List Level → List NodeSnap
  | [] => tab.nodes
  | lv :: _ => lv.defn.nodes

/-- The identity of a group written at the end of a chain. -/
def instanceId (dg : Digests) (line : NodeSnap) : List Level → NodeId
  | [] => line.id
  | lv :: _ => dg.derive lv.inst line.id

/-- The chains of groups a document writes under one of its tabs. -/
inductive Nested (dg : Digests) (doc : Document) (tab : Workspace) : List Level → Prop where
  | tab (member : tab ∈ doc.workspaces) (isTab : tab.tab = true) : Nested dg doc tab []
  | group {up : List Level} {line : NodeSnap} {defn : Workspace} (outside : Nested dg doc tab up)
      (written : line ∈ canvasOf tab up) (isGroup : line.kind.isGroup = true)
      (member : defn ∈ doc.workspaces) (isDefinition : defn.tab = false)
      (named : defn.name = some (groupDefinition line.kind))
      (reaches : ∀ l ∈ groupLines line.kind,
        ∃ far ∈ canvasOf tab up, far.id = l.2.2 ∧ far.kind.isGroup = false) :
      Nested dg doc tab (⟨instanceId dg line up, line, defn⟩ :: up)

/-- The chains of groups that are written under a tab, whatever their lines reach. -/
inductive Written (dg : Digests) (doc : Document) (tab : Workspace) : List Level → Prop where
  | tab (member : tab ∈ doc.workspaces) (isTab : tab.tab = true) : Written dg doc tab []
  | group {up : List Level} {line : NodeSnap} {defn : Workspace} (outside : Written dg doc tab up)
      (written : line ∈ canvasOf tab up) (isGroup : line.kind.isGroup = true)
      (member : defn ∈ doc.workspaces) (isDefinition : defn.tab = false)
      (named : defn.name = some (groupDefinition line.kind)) :
      Written dg doc tab (⟨instanceId dg line up, line, defn⟩ :: up)

theorem Nested.written {dg : Digests} {doc : Document} {tab : Workspace} {chain : List Level}
    (nested : Nested dg doc tab chain) : Written dg doc tab chain := by
  induction nested with
  | tab member isTab => exact .tab member isTab
  | group _ written isGroup member isDefinition named _ ih =>
    exact .group ih written isGroup member isDefinition named

/-! ## The ids that are derived -/

/-- The ids a workspace writes: of its nodes, and at the ends of its wires. -/
def Mentions (ws : Workspace) (a : NodeId) : Prop :=
  (∃ n ∈ ws.nodes, n.id = a) ∨ ∃ r, ∃ w ∈ ws.links r, w.1 = a ∨ w.2 = a

theorem mentions_node {ws : Workspace} {n : NodeSnap} (placed : n ∈ ws.nodes) : Mentions ws n.id :=
  .inl ⟨n, placed, rfl⟩

theorem mentions_ends {ws : Workspace} {r : WireRel} {w : Pair} (laid : w ∈ ws.links r) :
    Mentions ws w.1 ∧ Mentions ws w.2 :=
  ⟨.inr ⟨r, w, laid, .inl rfl⟩, .inr ⟨r, w, laid, .inr rfl⟩⟩

/-- The document derives an id for `a` in the instance `i`: the instance is made by a
written chain, and its definition mentions `a`. -/
def Derives (dg : Digests) (doc : Document) (i a : NodeId) : Prop :=
  ∃ tab lv up, Written dg doc tab (lv :: up) ∧ lv.inst = i ∧ Mentions lv.defn a

/-- What a definition mentions is derived apart within an instance of it. -/
def InnerApart (dg : Digests) (doc : Document) : Prop :=
  ∀ tab lv up, Written dg doc tab (lv :: up) →
    Set.InjOn (dg.derive lv.inst) {a | Mentions lv.defn a}

/-- The ids the document derives do not collide, with each other or with what it
writes. -/
structure CollisionFree (dg : Digests) (doc : Document) : Prop where
  injective : ∀ i j a b, Derives dg doc i a → Derives dg doc j b →
    dg.derive i a = dg.derive j b → i = j ∧ a = b
  fresh : ∀ i a, Derives dg doc i a → ∀ n ∈ doc.placed, dg.derive i a ≠ n.id

theorem CollisionFree.inner {dg : Digests} {doc : Document} (free : CollisionFree dg doc) :
    InnerApart dg doc :=
  fun tab lv up written _ here _ there same => (free.injective _ _ _ _
    ⟨tab, lv, up, written, rfl, here⟩ ⟨tab, lv, up, written, rfl, there⟩ same).2

/-! ## The tables of one level -/

section Tables

variable (dg : Digests) (inst : NodeId)

theorem namedPorts_lookup (nodes : List NodeSnap) (dir : PortDir) (name : String) :
    (namedPorts dg inst nodes).lookup (dir, name) =
      (nodes.reverse.find? fun n => (portOf n).any fun p => p.1 = dir && p.2.1 = name).bind
        fun n => (portOf n).map fun p => (dg.derive inst n.id, p.2.2) := by
  induction nodes using List.reverseRecOn with
  | nil => rfl
  | append_singleton init n ih =>
    rw [namedPorts, List.foldl_append, ← namedPorts, List.reverse_append, List.reverse_singleton,
      List.singleton_append, List.foldl_cons, List.foldl_nil]
    cases port : portOf n with
    | none => simp [port, ih]
    | some p =>
      obtain ⟨d, nm, kind⟩ := p
      by_cases same : (dir, name) = (d, nm)
      · obtain ⟨rfl, rfl⟩ := Prod.mk.inj same
        simp [port, AList.lookup_insert]
      · rw [AList.lookup_insert_ne same, ih, List.find?_cons_of_neg]
        simp only [port, Option.any_some, Bool.and_eq_true, decide_eq_true_eq, not_and]
        intro sameDir sameName
        exact same (by rw [sameDir, sameName])

theorem unboundPorts_lookup (nodes : List NodeSnap) (k : NodeId) :
    (unboundPorts dg inst nodes).lookup k =
      if ∃ n ∈ nodes, (portOf n).isSome ∧ dg.derive inst n.id = k then some [] else none := by
  induction nodes using List.reverseRecOn with
  | nil => simp [unboundPorts, AList.lookup_empty]
  | append_singleton init n ih =>
    rw [unboundPorts, List.foldl_append, ← unboundPorts, List.foldl_cons, List.foldl_nil]
    by_cases port : (portOf n).isSome
    · rw [if_pos port, Table.lookup_insert_eq, ih]
      by_cases same : k = dg.derive inst n.id
      · rw [if_pos same, if_pos ⟨n, by simp, port, same.symm⟩]
      · rw [if_neg same]
        have older : dg.derive inst n.id ≠ k := fun h => same h.symm
        simp [or_and_right, exists_or, older]
    · rw [if_neg port, ih]
      simp [port]

variable {dg inst}

/-- What one successful line does: it binds the endpoint to the port it picks. -/
theorem bindLine_ok {at_ : Site} {definition : String}
    {named : Table (PortDir × String) (NodeId × PortKind)} {outer : NodeId → List NodeId}
    {ports ports' : Table NodeId (List NodeId)} {line : PortDir × String × NodeId}
    (bound : bindLine at_ definition named outer ports line = .ok ports') :
    ∃ port kind, named.lookup (line.1, line.2.1) = some (port, kind) ∧
      (∃ far ∈ at_.canvas, far.id = line.2.2 ∧ far.kind.isGroup = false) ∧
      ports' = ports.insert port ((ports.lookup port).getD [] ++ outer line.2.2) := by
  obtain ⟨dir, name, endpoint⟩ := line
  simp only [bindLine] at bound
  cases picked : named.lookup (dir, name) with
  | none => rw [picked] at bound; simp only at bound; split at bound <;> cases bound
  | some p =>
    obtain ⟨port, kind⟩ := p
    rw [picked] at bound
    simp only at bound
    split at bound
    · cases bound
    · next far found =>
        split at bound
        · cases bound
        · next fits =>
            refine ⟨port, kind, rfl, ⟨far, List.mem_of_find?_eq_some found, ?_, ?_⟩, ?_⟩
            · simpa using List.find?_some found
            · -- A group is no end of any wire, so the line would have been refused.
              cases shape : far.kind <;> first | rfl | skip
              exfalso
              apply fits
              rw [shape]
              cases dir <;> cases kind <;> rfl
            · cases bound
              rfl

/-- The tables after all lines: a port holds the nodes of the lines that pick it,
and nothing but a port is a key. -/
theorem bindLines_lookup {at_ : Site} {definition : String}
    {named : Table (PortDir × String) (NodeId × PortKind)} {outer : NodeId → List NodeId}
    {lines : List (PortDir × String × NodeId)} {ports ports' : Table NodeId (List NodeId)}
    (bound : lines.foldlM (bindLine at_ definition named outer) ports = .ok ports')
    (known : ∀ key port kind, named.lookup key = some (port, kind) → port ∈ ports) (k : NodeId) :
    ports'.lookup k = (ports.lookup k).map fun start =>
      start ++ (lines.filter fun l => (named.lookup (l.1, l.2.1)).map Prod.fst = some k).flatMap
        fun l => outer l.2.2 := by
  induction lines generalizing ports with
  | nil =>
    cases bound
    simp
  | cons line lines ih =>
    obtain ⟨next, first, rest⟩ := foldlM_cons_ok bound
    obtain ⟨port, kind, picked, -, rfl⟩ := bindLine_ok first
    rw [ih rest fun key p kd found => by
      rw [AList.mem_insert]; exact .inr (known key p kd found)]
    rw [Table.lookup_insert_eq]
    by_cases same : k = port
    · subst same
      obtain ⟨start, present⟩ := Table.mem_iff_lookup.1 (known _ _ _ picked)
      simp [picked, present]
    · rw [if_neg same]
      have other : ¬ (some port = some k) := fun h => same (Option.some.inj h).symm
      simp [picked, other]

/-- **One level of the substitution.** When the ports were bound by the group's
lines through `outer`, and `outer` resolves an endpoint along `up`, the code's
`sub` resolves an inner id along the chain one level longer. -/
theorem sub_resolves {at_ : Site} {definition : String} {defn : Workspace} {line : NodeSnap}
    {up : List Level} {outer : NodeId → List NodeId} {ports : Table NodeId (List NodeId)}
    (apart : Set.InjOn (dg.derive inst) {a | Mentions defn a})
    (bound : bindPorts dg at_ inst definition defn (groupLines line.kind) outer = .ok ports)
    (outside : ∀ l ∈ groupLines line.kind, (outer l.2.2 : Multiset NodeId) = resolve dg up l.2.2)
    {a : NodeId} (mentioned : Mentions defn a) :
    (sub dg inst ports a : Multiset NodeId) = resolve dg (⟨inst, line, defn⟩ :: up) a := by
  have sameId : ∀ n ∈ defn.nodes, dg.derive inst n.id = dg.derive inst a ↔ n.id = a :=
    fun n placed => apart.eq_iff (mentions_node placed) mentioned
  unfold bindPorts at bound
  split at bound
  · cases bound
  · have known : ∀ key port kind, (namedPorts dg inst defn.nodes).lookup key = some (port, kind) →
        port ∈ unboundPorts dg inst defn.nodes := by
      rintro ⟨dir, name⟩ port kind found
      rw [namedPorts_lookup, Option.bind_eq_some_iff] at found
      obtain ⟨n, last, found⟩ := found
      rw [Option.map_eq_some_iff] at found
      obtain ⟨p, isPort, same⟩ := found
      cases same
      rw [Table.mem_iff_lookup, unboundPorts_lookup]
      have member := List.mem_of_find?_eq_some last
      rw [List.mem_reverse] at member
      exact ⟨[], if_pos ⟨n, member, by simp [isPort], rfl⟩⟩
    have table := bindLines_lookup bound known (dg.derive inst a)
    rw [unboundPorts_lookup] at table
    have portIff : (∃ n ∈ defn.nodes, (portOf n).isSome ∧ dg.derive inst n.id = dg.derive inst a) ↔
        (⟨inst, line, defn⟩ : Level).isPort a = true := by
      simp only [Level.isPort, List.any_eq_true, Bool.and_eq_true, decide_eq_true_eq]
      exact exists_congr fun n => and_congr_right fun placed => by rw [sameId n placed, and_comm]
    simp only [portIff] at table
    by_cases port : (⟨inst, line, defn⟩ : Level).isPort a = true
    · rw [if_pos port] at table
      rw [sub, table, resolve, if_pos port]
      have picks : ∀ l : PortDir × String × NodeId,
          ((namedPorts dg inst defn.nodes).lookup (l.1, l.2.1)).map Prod.fst =
              some (dg.derive inst a) ↔
            (⟨inst, line, defn⟩ : Level).picks l.1 l.2.1 = some a := by
        intro l
        rw [namedPorts_lookup, Level.picks]
        cases last : defn.nodes.reverse.find? fun n =>
            (portOf n).any fun p => p.1 = l.1 && p.2.1 = l.2.1 with
        | none => simp
        | some n =>
          have isPort := List.find?_some last
          have placed := List.mem_reverse.1 (List.mem_of_find?_eq_some last)
          cases found : portOf n with
          | none => simp [found] at isPort
          | some p => simp [found, sameId n placed]
      simp only [Option.map_some, List.nil_append, Level.wiredTo, picks]
      rw [← Multiset.map_coe, Multiset.bind_map, ← Multiset.coe_bind]
      exact Multiset.bind_congr fun l wired => outside l (List.mem_of_mem_filter (Multiset.mem_coe.1 wired))
    · rw [if_neg port] at table
      rw [sub, table, resolve, if_neg port]
      rfl

end Tables

/-! ## The walk -/

/-- All combinations of two substituted ends, as a product of multisets. -/
theorem pairs_product {sub : NodeId → List NodeId} {ends : NodeId → Multiset NodeId} {links : List Pair}
    (resolved : ∀ w ∈ links, (sub w.1 : Multiset NodeId) = ends w.1 ∧ (sub w.2 : Multiset NodeId) = ends w.2) :
    (pairs sub links : Multiset Pair) =
      (links : Multiset Pair).bind fun w => ends w.1 ×ˢ ends w.2 := by
  rw [pairs, ← Multiset.coe_bind]
  refine Multiset.bind_congr fun w laid => ?_
  rw [← (resolved w laid).1, ← (resolved w laid).2, Multiset.coe_product]
  rfl

/-- Indexing one definition adds at most its own name, which was free. -/
theorem indexDefinition_ok {defs defs' : Table String Workspace} {ws : Workspace}
    (turn : indexDefinition defs ws = .ok defs') :
    (ws.name = none ∧ defs' = defs) ∨
    ∃ name, ws.name = some name ∧ defs.lookup name = none ∧ defs' = defs.insert name ws := by
  unfold indexDefinition at turn
  split at turn
  · next unnamed => cases turn; exact .inl ⟨unnamed, rfl⟩
  · next name named =>
      split at turn
      · cases turn
      · next absent => cases turn; exact .inr ⟨name, named, absent, rfl⟩

theorem definitions_lookup {doc : Document} {defs : Table String Workspace}
    (indexed : definitions doc = .ok defs) {name : String} {defn : Workspace}
    (found : defs.lookup name = some defn) :
    defn ∈ doc.workspaces ∧ defn.tab = false ∧ defn.name = some name := by
  revert name defn
  refine foldlM_keeps (fun defs => ∀ {name defn}, defs.lookup name = some defn →
    defn ∈ doc.workspaces ∧ defn.tab = false ∧ defn.name = some name) indexed ?_ ?_
  · intro name defn found
    rw [AList.lookup_empty] at found
    cases found
  · intro defs ws member defs' turn known name defn found
    obtain ⟨member, notTab⟩ := List.mem_filter.1 member
    rcases indexDefinition_ok turn with ⟨-, rfl⟩ | ⟨own, named, -, rfl⟩
    · exact known found
    · rw [Table.lookup_insert_eq] at found
      split at found
      · next same =>
          cases found
          exact ⟨member, by simpa using notTab, by rw [named, same]⟩
      · exact known found

theorem resolveDefinition_ok {doc : Document} {defs : Table String Workspace} {room : Nat}
    {path : List String} {expanded : Nat} {site definition : String} {defn : Workspace}
    (resolved : resolveDefinition doc defs room path expanded site definition = .ok defn) :
    room ≠ 0 ∧ definition ∉ path ∧ expanded < maxInstances ∧ defs.lookup definition = some defn := by
  unfold resolveDefinition at resolved
  split at resolved
  · cases resolved
  · next absent =>
      split at resolved
      · cases resolved
      · next room =>
          split at resolved
          · split at resolved <;> cases resolved
          · next found =>
              split at resolved
              · cases resolved
              · next few =>
                  cases resolved
                  refine ⟨room, ?_, by omega, found⟩
                  intro member
                  have none := List.findIdx?_eq_none_iff.1 absent definition member
                  simp at none

/-- What the walk did over a group, when it did not fail: it stamped the definition and went on
with the groups in it. -/
theorem group_ok {dg : Digests} {doc : Document} {defs : Table String Workspace} {room : Nat} {path : List String}
    {out out' : List Instance} {at_ : Site} {inst : NodeId} {parent : Option NodeId} {node : NodeSnap} {name : String}
    {outer : NodeId → List NodeId}
    (ended : group dg doc defs room path out at_ inst parent node name outer = .ok out') :
    ∃ left defn ports locals, room = left + 1 ∧
      (groupDefinition node.kind ∉ path ∧ out.length < maxInstances ∧
        defs.lookup (groupDefinition node.kind) = some defn) ∧
      bindPorts dg at_ inst (groupDefinition node.kind) defn (groupLines node.kind) outer = .ok ports ∧
      localNames dg defn.nodes = .ok locals ∧
      (defn.groupsIn.zip locals).foldlM (fun out nested =>
        group dg doc defs left (path ++ [groupDefinition node.kind]) out
          { tab := at_.tab, label := s!"definition {debugStr (groupDefinition node.kind)}", canvas := defn.nodes }
          (dg.derive inst nested.1.id) (some inst) nested.1 (name ++ "-" ++ nested.2) (sub dg inst ports))
        (out ++ [{ id := inst, definition := groupDefinition node.kind, name, definedIn := defn.id, tab := at_.tab,
                   parent, path := path ++ [groupDefinition node.kind]
                   content := stampContent dg inst name defn ports }]) = .ok out' := by
  cases room with
  | zero =>
    -- No room left: the walk stops with an error before anything is stamped.
    exfalso
    simp only [group, bind, Except.bind] at ended
    split at ended
    · cases ended
    · next resolved => exact (resolveDefinition_ok resolved).1 rfl
  | succ left =>
    simp only [group, bind, Except.bind] at ended
    split at ended
    · cases ended
    · next defn resolved =>
        obtain ⟨-, found⟩ := resolveDefinition_ok resolved
        split at ended
        · cases ended
        · next ports bound =>
            split at ended
            · cases ended
            · next locals named => exact ⟨left, defn, ports, locals, rfl, found, bound, named, ended⟩

/-- The same over the groups of a tab. -/
theorem expandTab_ok {dg : Digests} {doc : Document} {defs : Table String Workspace} {out out' : List Instance}
    {ws : Workspace} (ended : expandTab dg doc defs out ws = .ok out') :
    ∃ names, localNames dg ws.nodes = .ok names ∧
      (ws.groupsIn.zip names).foldlM (fun out g =>
        group dg doc defs maxDepth [] out { tab := ws.id, label := siteLabel ws, canvas := ws.nodes } g.1.id none g.1 g.2
          fun id => [id]) out = .ok out' := by
  simp only [expandTab, bind, Except.bind] at ended
  split at ended
  · cases ended
  · next names named => exact ⟨names, named, ended⟩

/-- The same over the tabs of a document. -/
theorem expand_ok {dg : Digests} {doc : Document} {out : List Instance} (expanded : expand dg doc = .ok out) :
    ∃ defs, definitions doc = .ok defs ∧
      (doc.workspaces.filter fun ws => ws.tab).foldlM (expandTab dg doc defs) [] = .ok out := by
  simp only [expand, bind, Except.bind] at expanded
  split at expanded
  · cases expanded
  · next defs indexed => exact ⟨defs, indexed, expanded⟩

/-- What an instance of an expansion is: the content of a definition, stamped at
the end of a chain the document writes, with a substitution that resolves ids
along that chain. -/
def Stamped (dg : Digests) (doc : Document) (i : Instance) : Prop :=
  ∃ (tab : Workspace) (up : List Level) (line : NodeSnap) (defn : Workspace)
    (ports : Table NodeId (List NodeId)),
    Nested dg doc tab (⟨i.id, line, defn⟩ :: up) ∧ i.tab = tab.id ∧ i.definedIn = defn.id ∧
    i.definition = groupDefinition line.kind ∧
    i.content = stampContent dg i.id i.name defn ports ∧
    ∀ a, Mentions defn a → (sub dg i.id ports a : Multiset NodeId) = resolve dg (⟨i.id, line, defn⟩ :: up) a

section Walk

variable {dg : Digests} {doc : Document} {defs : Table String Workspace}

/-- Every line of a group that expands reaches a node of its canvas that is no
group. -/
theorem bindPorts_reaches {at_ : Site} {inst : NodeId} {definition : String} {defn : Workspace}
    {lines : List (PortDir × String × NodeId)} {outer : NodeId → List NodeId}
    {ports : Table NodeId (List NodeId)}
    (bound : bindPorts dg at_ inst definition defn lines outer = .ok ports) :
    ∀ l ∈ lines, ∃ far ∈ at_.canvas, far.id = l.2.2 ∧ far.kind.isGroup = false := by
  unfold bindPorts at bound
  split at bound
  · cases bound
  · generalize unboundPorts dg inst defn.nodes = start at bound
    induction lines generalizing start with
    | nil => simp
    | cons line lines ih =>
      obtain ⟨next, first, rest⟩ := foldlM_cons_ok bound
      obtain ⟨_, _, _, reaches, _⟩ := bindLine_ok first
      rintro l (_ | ⟨_, member⟩)
      · exact reaches
      · exact ih next rest l member

/-- **The walk stamps.** Every instance a successful walk adds below a written
group is the stamped content of a definition.  Induction on the room left. -/
theorem group_stamps (apart : InnerApart dg doc)
    (indexed : definitions doc = .ok defs) {tab : Workspace} {room : Nat} :
    ∀ {up : List Level} {path : List String} {out out' : List Instance} {at_ : Site} {inst : NodeId}
      {parent : Option NodeId} {node : NodeSnap} {name : String} {outer : NodeId → List NodeId},
      group dg doc defs room path out at_ inst parent node name outer = .ok out' →
      Nested dg doc tab up → at_.canvas = canvasOf tab up → at_.tab = tab.id →
      node ∈ canvasOf tab up → node.kind.isGroup = true → inst = instanceId dg node up →
      (∀ n ∈ canvasOf tab up, (outer n.id : Multiset NodeId) = resolve dg up n.id) →
      ∀ i ∈ out', i ∈ out ∨ Stamped dg doc i := by
  induction room with
  | zero =>
    intro up path out out' at_ inst parent node name outer ended
    -- No room left: the walk stops with an error.
    obtain ⟨_, _, _, _, ⟨⟩, _⟩ := group_ok ended
  | succ room ih =>
    intro up path out out' at_ inst parent node name outer ended outside canvas tabId written
      isGroup instEq resolves
    obtain ⟨_, defn, ports, locals, ⟨⟩, ⟨-, -, found⟩, bound, namedAll, ended⟩ := group_ok ended
    obtain ⟨member, isDefinition, named⟩ := definitions_lookup indexed found
    have reaches : ∀ l ∈ groupLines node.kind,
        ∃ far ∈ canvasOf tab up, far.id = l.2.2 ∧ far.kind.isGroup = false := by
      rw [← canvas]
      exact bindPorts_reaches bound
    have inside : Nested dg doc tab (⟨inst, node, defn⟩ :: up) := by
      rw [instEq]
      exact .group outside written isGroup member isDefinition named reaches
    have subs : ∀ a, Mentions defn a → (sub dg inst ports a : Multiset NodeId) =
        resolve dg (⟨inst, node, defn⟩ :: up) a := by
      refine fun a => sub_resolves (apart _ _ _ inside.written) bound fun l line => ?_
      obtain ⟨far, placed, same, _⟩ := reaches l line
      rw [← same]
      exact resolves far placed
    refine foldlM_keeps (fun out'' => ∀ i ∈ out'', i ∈ out ∨ Stamped dg doc i) ended ?_ ?_
    · intro i member'
      rw [List.mem_append, List.mem_singleton] at member'
      rcases member' with old | rfl
      · exact .inl old
      · exact .inr ⟨tab, up, node, defn, ports, inside, tabId, rfl, rfl, rfl, subs⟩
    · intro sofar nested member' sofar' turn known i added
      have inner := (List.of_mem_zip member').1
      rw [Workspace.groupsIn, List.mem_filter] at inner
      rcases ih turn inside rfl tabId inner.1 inner.2 rfl (fun n placed => subs _ (mentions_node placed))
        i added with old | new
      · exact known i old
      · exact .inr new

/-- **Expansion stamps.** Every instance of an expanded document is the content of
a definition, its wires resolved along the chain the document writes. -/
theorem expand_stamps (apart : InnerApart dg doc) {out : List Instance}
    (expanded : expand dg doc = .ok out) : ∀ i ∈ out, Stamped dg doc i := by
  obtain ⟨defs, indexed, expanded⟩ := expand_ok expanded
  refine foldlM_keeps (fun out => ∀ i ∈ out, Stamped dg doc i) expanded (by simp) ?_
  intro out ws member out' turn known
  rw [List.mem_filter] at member
  obtain ⟨_, -, turn⟩ := expandTab_ok turn
  refine foldlM_keeps (fun out => ∀ i ∈ out, Stamped dg doc i) turn known ?_
  intro out g member' out' turn known i added
  have inner := (List.of_mem_zip member').1
  rw [Workspace.groupsIn, List.mem_filter] at inner
  rcases group_stamps apart indexed turn (.tab member.1 member.2) rfl rfl inner.1 inner.2 rfl
    (fun _ _ => rfl) i added with old | new
  · exact known i old
  · exact new

end Walk

/-! ## Where an end lands -/

/-- Where an end `a` of a wire of the innermost definition may land: on the
derived node, or, when `a` is a port, on a node some enclosing level placed. -/
def Lands (dg : Digests) (tab : Workspace) (lv : Level) (up : List Level) (a x : NodeId) : Prop :=
  (lv.isPort a = false ∧ x = dg.derive lv.inst a) ∨
  (lv.isPort a = true ∧
    ((∃ lv' ∈ up, ∃ n ∈ lv'.defn.nodes, n.kind.isGroup = false ∧ lv'.isPort n.id = false ∧
        x = dg.derive lv'.inst n.id) ∨
      ∃ n ∈ tab.nodes, n.kind.isGroup = false ∧ x = n.id))

/-- One level of resolution: an end is the derived node, or, where it is a port, what a
node of the enclosing canvas resolves to one level further out. -/
theorem mem_resolve {dg : Digests} {doc : Document} {tab : Workspace} {lv : Level} {up : List Level}
    (nested : Nested dg doc tab (lv :: up)) {a x : NodeId} (member : x ∈ resolve dg (lv :: up) a) :
    (lv.isPort a = false ∧ x = dg.derive lv.inst a) ∨
    (lv.isPort a = true ∧ Nested dg doc tab up ∧
      ∃ far ∈ canvasOf tab up, far.kind.isGroup = false ∧ x ∈ resolve dg up far.id) := by
  rw [resolve] at member
  split at member
  · next port =>
    obtain ⟨e, wired, there⟩ := Multiset.mem_bind.1 member
    obtain ⟨l, line, rfl⟩ := List.mem_map.1 (Multiset.mem_coe.1 wired)
    cases nested with
    | group outside _ _ _ _ _ reaches =>
      obtain ⟨far, placed, same, notGroup⟩ := reaches l (List.mem_of_mem_filter line)
      exact .inr ⟨port, outside, far, placed, notGroup, same ▸ there⟩
  · next inner => exact .inl ⟨by simpa using inner, Multiset.mem_singleton.1 member⟩

theorem resolve_lands {dg : Digests} {doc : Document} {tab : Workspace} {up : List Level} :
    ∀ {lv : Level}, Nested dg doc tab (lv :: up) →
      ∀ {a x : NodeId}, x ∈ resolve dg (lv :: up) a → Lands dg tab lv up a x := by
  induction up with
  | nil =>
    intro lv nested a x member
    rcases mem_resolve nested member with inner | ⟨port, _, far, placed, notGroup, there⟩
    · exact .inl inner
    · exact .inr ⟨port, .inr ⟨far, placed, notGroup, Multiset.mem_singleton.1 there⟩⟩
  | cons lv' up ih =>
    intro lv nested a x member
    rcases mem_resolve nested member with inner | ⟨port, outside, far, placed, notGroup, there⟩
    · exact .inl inner
    · refine .inr ⟨port, ?_⟩
      rcases ih outside there with ⟨notPort, derived⟩ | ⟨_, ⟨lv'', above, rest⟩ | onTab⟩
      · exact .inl ⟨lv', List.mem_cons_self .., far, placed, notGroup, notPort, derived⟩
      · exact .inl ⟨lv'', List.mem_cons_of_mem _ above, rest⟩
      · exact .inr onTab

/-! ## Ids of ports and of groups -/

/-- The id a boundary port of a definition would have in an instance. -/
def IsPortId (dg : Digests) (doc : Document) (x : NodeId) : Prop :=
  ∃ tab lv up, Nested dg doc tab (lv :: up) ∧
    ∃ p ∈ lv.defn.nodes, (portOf p).isSome ∧ x = dg.derive lv.inst p.id

/-- The id of a group, written on a tab or inside a definition. -/
def IsGroupId (dg : Digests) (doc : Document) (x : NodeId) : Prop :=
  ∃ tab up, Nested dg doc tab up ∧
    ∃ g ∈ canvasOf tab up, g.kind.isGroup = true ∧ x = instanceId dg g up

theorem definitions_names_unique {doc : Document} {defs : Table String Workspace}
    (indexed : definitions doc = .ok defs) {ws : Workspace} {name : String}
    (member : ws ∈ doc.workspaces) (isDefinition : ws.tab = false) (named : ws.name = some name) :
    defs.lookup name = some ws := by
  have all : ∀ (l : List Workspace) (start defs : Table String Workspace),
      l.foldlM indexDefinition start = .ok defs →
      (∀ n w, start.lookup n = some w → defs.lookup n = some w) ∧
      ∀ ws ∈ l, ∀ n, ws.name = some n → defs.lookup n = some ws := by
    intro l
    induction l with
    | nil =>
      intro start defs ended
      cases ended
      exact ⟨fun _ _ found => found, by simp⟩
    | cons w l ih =>
      intro start defs ended
      obtain ⟨next, first, rest⟩ := foldlM_cons_ok ended
      obtain ⟨kept, later⟩ := ih next defs rest
      rcases indexDefinition_ok first with ⟨unnamed, rfl⟩ | ⟨own, ownName, absent, rfl⟩
      · refine ⟨kept, ?_⟩
        rintro ws (_ | ⟨_, member⟩) n named
        · rw [unnamed] at named
          cases named
        · exact later ws member n named
      · refine ⟨fun n w found => kept n w ?_, ?_⟩
        · rw [Table.lookup_insert_eq]
          split
          · next same => rw [same, absent] at found; cases found
          · exact found
        · rintro ws (_ | ⟨_, member⟩) n named
          · rw [ownName] at named
            cases named
            exact kept _ _ (AList.lookup_insert _)
          · exact later ws member n named
  exact (all _ _ _ indexed).2 ws (List.mem_filter.2 ⟨member, by simp [isDefinition]⟩) name named

section Ids

variable {dg : Digests} {doc : Document} {tab tab' : Workspace}

namespace Written

theorem tab_mem {chain : List Level} (chained : Written dg doc tab chain) : tab ∈ doc.workspaces := by
  induction chained with
  | tab member _ => exact member
  | group _ _ _ _ _ _ ih => exact ih

theorem canvas_placed {chain : List Level} (chained : Written dg doc tab chain) {n : NodeSnap}
    (written : n ∈ canvasOf tab chain) : n ∈ doc.placed := by
  cases chained with
  | tab member _ => exact List.mem_flatMap.2 ⟨tab, member, written⟩
  | group _ _ _ member _ _ => exact List.mem_flatMap.2 ⟨_, member, written⟩

/-- A level of a chain heads a chain of its own. -/
theorem suffix {chain : List Level} (chained : Written dg doc tab chain) {lv : Level}
    (member : lv ∈ chain) : ∃ up, Written dg doc tab (lv :: up) := by
  induction chained with
  | tab _ _ => cases member
  | group outside written isGroup defined isDefinition named ih =>
    rcases List.mem_cons.1 member with rfl | above
    · exact ⟨_, .group outside written isGroup defined isDefinition named⟩
    · exact ih above

theorem defined {lv : Level} {up : List Level} (chained : Written dg doc tab (lv :: up)) :
    lv.defn ∈ doc.workspaces := by
  cases chained with
  | group _ _ _ member => exact member

theorem derives {lv : Level} {up : List Level} (chained : Written dg doc tab (lv :: up)) {a : NodeId}
    (mentioned : Mentions lv.defn a) : Derives dg doc lv.inst a :=
  ⟨tab, lv, up, chained, rfl, mentioned⟩

/-- The group a level was made by is written above it. -/
theorem outside {lv : Level} {up : List Level} (chained : Written dg doc tab (lv :: up)) :
    Written dg doc tab up ∧ lv.line ∈ canvasOf tab up ∧ lv.inst = instanceId dg lv.line up := by
  cases chained with
  | group above written => exact ⟨above, written, rfl⟩

/-- **An instance id determines its address**, the ids of the groups it sits in, where
derived ids do not collide.  Induction on the chain. -/
theorem address_inj (free : CollisionFree dg doc) {up : List Level} : ∀ {up' : List Level} {lv lv' : Level},
    Written dg doc tab (lv :: up) → Written dg doc tab' (lv' :: up') → lv.inst = lv'.inst →
      (lv :: up).map (fun lv => lv.line.id) = (lv' :: up').map fun lv => lv.line.id := by
  induction up with
  | nil =>
    intro up' lv lv' chained chained' same
    obtain ⟨above, written, inst⟩ := chained.outside
    obtain ⟨above', written', inst'⟩ := chained'.outside
    rw [inst, inst'] at same
    cases up' with
    | nil => exact congrArg (fun id => [id]) same
    | cons =>
      exact absurd same.symm
        (free.fresh _ _ (above'.derives (mentions_node written')) _ (above.canvas_placed written))
  | cons _ _ ih =>
    intro up' lv lv' chained chained' same
    obtain ⟨above, written, inst⟩ := chained.outside
    obtain ⟨above', written', inst'⟩ := chained'.outside
    rw [inst, inst'] at same
    cases up' with
    | nil =>
      exact absurd same
        (free.fresh _ _ (above.derives (mentions_node written)) _ (above'.canvas_placed written'))
    | cons =>
      obtain ⟨sameInst, sameId⟩ := free.injective _ _ _ _ (above.derives (mentions_node written))
        (above'.derives (mentions_node written')) same
      exact congrArg₂ List.cons sameId (ih above above' sameInst)

/-- An address determines its chain when no id is written twice. -/
theorem eq_of_address {defs : Table String Workspace} (indexed : definitions doc = .ok defs)
    (unique : doc.UniqueIds) {chain : List Level} (chained : Written dg doc tab chain) :
    ∀ {chain' : List Level}, Written dg doc tab' chain' →
      (chain.map fun lv => lv.line.id) = (chain'.map fun lv => lv.line.id) → chain = chain' := by
  induction chained with
  | tab _ _ =>
    intro chain' chained' same
    exact (List.map_eq_nil_iff.1 same.symm).symm
  | @group up line defn outside written _ member isDefinition named ih =>
    intro chain' chained' same
    cases chained' with
    | tab _ _ => cases same
    | @group up' line' defn' outside' written' _ member' isDefinition' named' =>
      obtain ⟨sameId, above⟩ := List.cons.inj same
      obtain rfl := ih outside' above
      obtain rfl : line = line' := unique.eq_of_id (outside.canvas_placed written)
        (outside'.canvas_placed written') sameId
      have here := definitions_names_unique indexed member isDefinition named
      have there := definitions_names_unique indexed member' isDefinition' named'
      rw [Option.some.inj (here.symm.trans there)]

end Written

/-- **An instance id determines its level** when no id is written twice and derived ids
do not collide. -/
theorem level_unique {defs : Table String Workspace} (indexed : definitions doc = .ok defs)
    (free : CollisionFree dg doc) (unique : doc.UniqueIds) {lv lv' : Level} {up up' : List Level}
    (chained : Written dg doc tab (lv :: up)) (chained' : Written dg doc tab' (lv' :: up'))
    (same : lv.inst = lv'.inst) : lv = lv' :=
  (List.cons.inj (chained.eq_of_address indexed unique chained' (chained.address_inj free chained' same))).1

/-- An end that lands is no port of any instance. -/
theorem lands_not_port {defs : Table String Workspace} (indexed : definitions doc = .ok defs)
    (free : CollisionFree dg doc) (unique : doc.UniqueIds) {lv : Level} {up : List Level}
    (chained : Written dg doc tab (lv :: up)) {a x : NodeId} (mentioned : Mentions lv.defn a)
    (lands : Lands dg tab lv up a x) : ¬ IsPortId dg doc x := by
  rintro ⟨tab', lv', up', nested', p, written, port, rfl⟩
  have derived := nested'.written.derives (mentions_node written)
  have clash : ∀ {lv₁ : Level} {up₁ : List Level} {b : NodeId}, Written dg doc tab (lv₁ :: up₁) →
      Mentions lv₁.defn b → lv₁.isPort b = false → dg.derive lv'.inst p.id ≠ dg.derive lv₁.inst b := by
    intro lv₁ up₁ b chained₁ mentioned₁ inner same
    obtain ⟨sameInst, rfl⟩ := free.injective _ _ _ _ derived (chained₁.derives mentioned₁) same
    rw [level_unique indexed free unique chained₁ nested'.written sameInst.symm] at inner
    have isPort : lv'.isPort p.id = true :=
      List.any_eq_true.2 ⟨p, written, by simp [port]⟩
    rw [isPort] at inner
    cases inner
  rcases lands with ⟨inner, same⟩ | ⟨-, ⟨lv₁, above, n, placed, -, inner, same⟩ | ⟨n, onTab, -, same⟩⟩
  · exact clash chained mentioned inner same
  · obtain ⟨up₁, chained₁⟩ := chained.suffix (List.mem_cons_of_mem _ above)
    exact clash chained₁ (mentions_node placed) inner same
  · exact free.fresh _ _ derived n (List.mem_flatMap.2 ⟨tab, chained.tab_mem, onTab⟩) same

/-- An end that lands on a group's id is a wire line naming that group. -/
theorem lands_group {defs : Table String Workspace} (indexed : definitions doc = .ok defs)
    (free : CollisionFree dg doc) (unique : doc.UniqueIds) {lv : Level} {up : List Level}
    (chained : Written dg doc tab (lv :: up)) {a x : NodeId} (mentioned : Mentions lv.defn a)
    (lands : Lands dg tab lv up a x) (group : IsGroupId dg doc x) : ∃ g ∈ lv.defn.groupsIn, g.id = a := by
  obtain ⟨tab', chain, nested', g, written, isGroup, rfl⟩ := group
  have placed := nested'.written.canvas_placed written
  have inTab : ∀ n ∈ tab.nodes, n ∈ doc.placed := fun n onTab => List.mem_flatMap.2 ⟨tab, chained.tab_mem, onTab⟩
  cases chain with
  | nil =>
    rcases lands with ⟨-, same⟩ | ⟨-, ⟨lv₁, above, n, written₁, -, -, same⟩ | ⟨n, onTab, notGroup, same⟩⟩
    · exact absurd same.symm (free.fresh _ _ (chained.derives mentioned) g placed)
    · obtain ⟨up₁, chained₁⟩ := chained.suffix (List.mem_cons_of_mem _ above)
      exact absurd same.symm (free.fresh _ _ (chained₁.derives (mentions_node written₁)) g placed)
    · have sameNode := unique.eq_of_id placed (inTab n onTab) same
      rw [← sameNode, isGroup] at notGroup
      cases notGroup
  | cons lv' up' =>
    have derived := nested'.written.derives (mentions_node written)
    rcases lands with ⟨-, same⟩ | ⟨-, ⟨lv₁, above, n, written₁, notGroup, -, same⟩ | ⟨n, onTab, -, same⟩⟩
    · obtain ⟨sameInst, rfl⟩ := free.injective _ _ _ _ derived (chained.derives mentioned) same
      rw [level_unique indexed free unique chained nested'.written sameInst.symm]
      exact ⟨g, List.mem_filter.2 ⟨written, isGroup⟩, rfl⟩
    · obtain ⟨up₁, chained₁⟩ := chained.suffix (List.mem_cons_of_mem _ above)
      obtain ⟨-, sameId⟩ := free.injective _ _ _ _ derived (chained₁.derives (mentions_node written₁)) same
      have sameNode := unique.eq_of_id placed (chained₁.canvas_placed written₁) sameId
      rw [← sameNode, isGroup] at notGroup
      cases notGroup
    · exact absurd same (free.fresh _ _ derived n (inTab n onTab))

end Ids

/-! ## The collapse is exact -/

/-- **Collapse is exact.** Every instance of an expanded document stands at the
end of a chain the document writes, and each of its seven link lists is, as a
multiset, all combinations of the resolved ends of the definition's wires.  Each
resolved end is the derived id of an inner node or a node some enclosing level
placed; when no id is written twice none is a definition's port, and one is a
group's id only where the wire line itself names that group. -/
theorem collapse_exact {dg : Digests} {doc : Document} (free : CollisionFree dg doc)
    {out : List Instance} (expanded : expand dg doc = .ok out) {i : Instance} (member : i ∈ out) :
    ∃ (tab : Workspace) (up : List Level) (line : NodeSnap) (defn : Workspace),
      Nested dg doc tab (⟨i.id, line, defn⟩ :: up) ∧ i.tab = tab.id ∧ i.definedIn = defn.id ∧
      ∀ r, (i.content.links r : Multiset Pair) = ((defn.links r : Multiset Pair).bind fun w =>
          resolve dg (⟨i.id, line, defn⟩ :: up) w.1 ×ˢ resolve dg (⟨i.id, line, defn⟩ :: up) w.2) ∧
        ∀ w ∈ defn.links r, ∀ a, a = w.1 ∨ a = w.2 →
          ∀ x ∈ resolve dg (⟨i.id, line, defn⟩ :: up) a,
            Lands dg tab ⟨i.id, line, defn⟩ up a x ∧
            (doc.UniqueIds → ¬ IsPortId dg doc x ∧
              (IsGroupId dg doc x → ∃ g ∈ defn.groupsIn, g.id = a)) := by
  obtain ⟨tab, up, line, defn, ports, nested, onTab, definedIn, -, content, resolved⟩ :=
    expand_stamps free.inner expanded i member
  obtain ⟨defs, indexed, -⟩ := expand_ok expanded
  refine ⟨tab, up, line, defn, nested, onTab, definedIn, fun r => ⟨?_, ?_⟩⟩
  · rw [content]
    exact pairs_product fun w laid =>
      ⟨resolved _ (mentions_ends laid).1, resolved _ (mentions_ends laid).2⟩
  · intro w laid a end_ x resolves
    have lands := resolve_lands nested resolves
    have mentioned : Mentions defn a := by
      rcases end_ with rfl | rfl
      · exact (mentions_ends laid).1
      · exact (mentions_ends laid).2
    exact ⟨lands, fun unique =>
      ⟨lands_not_port indexed free unique nested.written mentioned lands,
       lands_group indexed free unique nested.written mentioned lands⟩⟩

section Poles

theorem apart_collisionFree {doc : Document} (low : ∀ n ∈ doc.placed, n.id < 1000) :
    CollisionFree Digests.apart doc where
  injective := by
    intro i j a b _ _ same
    have samePair : Nat.pair i a = Nat.pair j b := by
      change (1000 + 2 * Nat.pair i a : Nat) = 1000 + 2 * Nat.pair j b at same
      omega
    exact Nat.pair_eq_pair.1 samePair
  fresh := by
    intro i a _ n member same
    have below := low n member
    rw [← same] at below
    exact absurd below (Nat.not_lt.2 (Nat.le_add_right _ _))

/-- A definition with one MIDI in-port feeding one app. -/
def voiceDefinition : Workspace where
  id := 20
  name := some "voice"
  tab := false
  nodes := [{ id := 21, kind := .inPort "n" .midi }, { id := 22, kind := .app "synth" none [] [] none }]
  links := fun r => match r with
    | .midi => [(21, 22)]
    | _ => []

/-- A definition that hands its own in-port on to a `voice`. -/
def chorusDefinition : Workspace where
  id := 10
  name := some "chorus"
  tab := false
  nodes := [{ id := 11, kind := .inPort "in" .midi },
    { id := 12, kind := .group "voice" none [("n", 11)] [] }]

/-- A tab that feeds an app into a `chorus`. -/
def chorusDocument : Document where
  workspaces := [
    { id := 1
      nodes := [{ id := 2, kind := .app "keys" none [] [] none },
        { id := 3, kind := .group "chorus" none [("in", 2)] [] }] },
    chorusDefinition, voiceDefinition]

/-- A tab that feeds its own boundary port into a `voice`. -/
def portedDocument : Document where
  workspaces := [
    { id := 1
      nodes := [{ id := 2, kind := .inPort "notes" .midi },
        { id := 3, kind := .group "voice" none [("n", 2)] [] }] },
    voiceDefinition]

/-- Two levels down, the tab's app is what the inner definition's port resolves
to. -/
theorem collapse_exact_chorus :
    ∃ out, expand Digests.apart chorusDocument = .ok out ∧ out.length = 2 ∧
      ∀ i ∈ out, ∃ (tab : Workspace) (up : List Level) (line : NodeSnap) (defn : Workspace),
        Nested Digests.apart chorusDocument tab (⟨i.id, line, defn⟩ :: up) ∧ i.definedIn = defn.id := by
  have free : CollisionFree Digests.apart chorusDocument :=
    apart_collisionFree (by decide)
  have ends : (expand Digests.apart chorusDocument).toOption.map List.length = some 2 := by decide
  match expanded : expand Digests.apart chorusDocument with
  | .error e => rw [expanded] at ends; cases ends
  | .ok out =>
    rw [expanded] at ends
    refine ⟨out, rfl, Option.some.inj ends, fun i member => ?_⟩
    obtain ⟨tab, up, line, defn, nested, -, definedIn, -⟩ := collapse_exact free expanded member
    exact ⟨tab, up, line, defn, nested, definedIn⟩

/-- An end can be a boundary port: the tab's own, which is a placed node there. -/
theorem collapse_keeps_tab_port :
    CollisionFree Digests.apart portedDocument ∧ portedDocument.UniqueIds ∧
    ∃ out, expand Digests.apart portedDocument = .ok out ∧
      ∃ i ∈ out, ∃ l ∈ i.content.links .midi,
        ∃ n ∈ portedDocument.placed, (portOf n).isSome ∧ n.id = l.1 := by
  refine ⟨apart_collisionFree (by decide), by decide, ?_⟩
  have ends : (expand Digests.apart portedDocument).toOption.map
      (fun out => out.map fun i => i.content.links .midi) = some [[(2, 1000 + 2 * Nat.pair 3 22)]] := by
    decide
  match expanded : expand Digests.apart portedDocument with
  | .error e => rw [expanded] at ends; cases ends
  | .ok [] => rw [expanded] at ends; cases ends
  | .ok (i :: rest) =>
    rw [expanded] at ends
    have wires : i.content.links .midi = [(2, 1000 + 2 * Nat.pair 3 22)] :=
      (List.cons.inj (Option.some.inj ends)).1
    refine ⟨i :: rest, rfl, i, List.mem_cons_self .., (2, 1000 + 2 * Nat.pair 3 22), ?_, ?_⟩
    · rw [wires]
      exact List.mem_cons_self ..
    · exact ⟨{ id := 2, kind := .inPort "notes" .midi }, by decide, rfl, rfl⟩

end Poles

end Wk.Instancing
