/-
# Wk.Instancing.Scopes -- the instances a document writes

`scopes` lists the chains of groups under a document's tabs, in document order, with the
name each is called by: what there is to expand, before anything is derived or bound.  An
expansion has one instance for each of them, in the same order (`expand_scopes`).

From that an instance is known by its address, the ids of the groups it sits in, and ids
derived along different addresses differ (`scopes_ids_nodup`).

Pole: `expand_unique_chorus` (a group inside a group).
-/
import Wk.Instancing.Forest

namespace Wk.Instancing

open Wk.Library

set_option autoImplicit false

/-! ## What is written -/

/-- An instance as written: the chain of groups it sits at the end of, and its name. -/
structure Scope where
  tab : Workspace
  level : Level
  up : List Level
  name : String

namespace Scope

def levels (s : Scope) : List Level := s.level :: s.up

/-- The ids of the groups an instance sits in, its own first. -/
def address (s : Scope) : List NodeId := s.levels.map fun lv => lv.line.id

end Scope

/-- The local names of the groups of a canvas. -/
def namesOn (dg : Digests) (canvas : List NodeSnap) : List String :=
  (localNames dg canvas).toOption.getD []

/-- The groups of a canvas with their local names. -/
def namedGroups (dg : Digests) (ws : Workspace) : List (NodeSnap × String) :=
  ws.groupsIn.zip (namesOn dg ws.nodes)

/-- A group and the groups below it, parents first. -/
def below (dg : Digests) (defs : Table String Workspace) (tab : Workspace) :
    Nat → List Level → NodeSnap → String → List Scope
  | 0, _, _, _ => []
  | room + 1, up, line, name =>
    match defs.lookup (groupDefinition line.kind) with
    | none => []
    | some defn =>
      let level : Level := ⟨instanceId dg line up, line, defn⟩
      ⟨tab, level, up, name⟩ :: (namedGroups dg defn).flatMap fun g =>
        below dg defs tab room (level :: up) g.1 (name ++ "-" ++ g.2)

/-- The definitions of a document, by name. -/
def definitionTable (doc : Document) : Table String Workspace := (definitions doc).toOption.getD ∅

/-- The tabs of a document. -/
def tabs (doc : Document) : List Workspace := doc.workspaces.filter fun ws => ws.tab

/-- Every instance a document writes. -/
def scopes (dg : Digests) (doc : Document) : List Scope :=
  (tabs doc).flatMap fun ws => (namedGroups dg ws).flatMap fun g =>
    below dg (definitionTable doc) ws maxDepth [] g.1 g.2

/-! ## What is expanded -/

/-- An instance stands for a scope. -/
structure Embodies (dg : Digests) (i : Instance) (s : Scope) : Prop where
  id : i.id = s.level.inst
  name : i.name = s.name
  tab : i.tab = s.tab.id
  definedIn : i.definedIn = s.level.defn.id
  parent : i.parent = s.up.head?.map Level.inst
  path : i.path.length = s.levels.length
  sources : portAsSource dg s.level.inst s.level.defn = none
  content : ∃ ports, i.content = stampContent dg s.level.inst s.name s.level.defn ports ∧
    ((∀ lv ∈ s.levels, Set.InjOn (dg.derive lv.inst) {a | Mentions lv.defn a}) →
      ∀ a, Mentions s.level.defn a → (sub dg s.level.inst ports a : Multiset NodeId) = resolve dg s.levels a)

section Walk

variable {dg : Digests} {doc : Document} {defs : Table String Workspace} {tab : Workspace}

theorem bindPorts_sources {at_ : Site} {inst : NodeId} {definition : String} {defn : Workspace}
    {lines : List (PortDir × String × NodeId)} {outer : NodeId → List NodeId}
    {ports : Table NodeId (List NodeId)}
    (bound : bindPorts dg at_ inst definition defn lines outer = .ok ports) :
    portAsSource dg inst defn = none := by
  unfold bindPorts at bound
  split at bound
  · cases bound
  · next none_ => exact none_

/-- **The walk emits** one instance for each scope below a group.  Induction on the room
left. -/
theorem group_scopes {room : Nat} : ∀ (up : List Level) {path : List String} {out out' : List Instance}
    {at_ : Site} {parent : Option NodeId} {node : NodeSnap} {name : String} {outer : NodeId → List NodeId},
    group dg doc defs room path out at_ (instanceId dg node up) parent node name outer = .ok out' →
    at_.tab = tab.id → path.length = up.length → parent = up.head?.map Level.inst →
    ((∀ lv ∈ up, Set.InjOn (dg.derive lv.inst) {a | Mentions lv.defn a}) →
      ∀ n ∈ at_.canvas, (outer n.id : Multiset NodeId) = resolve dg up n.id) →
    ∃ new, out' = out ++ new ∧ List.Forall₂ (Embodies dg) new (below dg defs tab room up node name) := by
  induction room with
  | zero =>
    intro up path out out' at_ parent node name outer ended
    obtain ⟨_, _, _, _, ⟨⟩, _⟩ := group_ok ended
  | succ room ih =>
    intro up path out out' at_ parent node name outer ended onTab depth above resolves
    obtain ⟨_, defn, ports, locals, ⟨⟩, ⟨-, -, found⟩, bound, named, ended⟩ := group_ok ended
    have named' : namesOn dg defn.nodes = locals := by rw [namesOn, named]; rfl
    have subs : (∀ lv ∈ (⟨instanceId dg node up, node, defn⟩ : Level) :: up,
        Set.InjOn (dg.derive lv.inst) {a | Mentions lv.defn a}) → ∀ a, Mentions defn a →
          (sub dg (instanceId dg node up) ports a : Multiset NodeId) =
            resolve dg (⟨instanceId dg node up, node, defn⟩ :: up) a := by
      refine fun apart a => sub_resolves (apart _ List.mem_cons_self) bound fun l line => ?_
      obtain ⟨far, placed, same, _⟩ := bindPorts_reaches bound l line
      rw [← same]
      exact resolves (fun lv above => apart lv (List.mem_cons_of_mem _ above)) far placed
    obtain ⟨new, rfl, emitted⟩ := foldlM_emits ended fun g member out out' turn =>
      ih (⟨instanceId dg node up, node, defn⟩ :: up) turn onTab
        (by rw [List.length_append, depth]; rfl) rfl fun apart n placed => subs apart _ (mentions_node placed)
    refine ⟨_ :: new, List.append_assoc .., ?_⟩
    rw [below, found]
    dsimp only
    rw [namedGroups, named']
    exact .cons ⟨rfl, rfl, onTab, rfl, above, by simp [depth, Scope.levels],
      bindPorts_sources bound, ports, rfl, subs⟩ emitted

/-- **An expansion has an instance for each scope**, in order. -/
theorem expand_scopes {out : List Instance} (expanded : expand dg doc = .ok out) :
    List.Forall₂ (Embodies dg) out (scopes dg doc) := by
  obtain ⟨defs, indexed, expanded⟩ := expand_ok expanded
  have defs_eq : definitionTable doc = defs := by rw [definitionTable, indexed]; rfl
  obtain ⟨new, rfl, emitted⟩ := foldlM_emits (g := fun ws => (namedGroups dg ws).flatMap fun g =>
      below dg defs ws maxDepth [] g.1 g.2) (R := Embodies dg) expanded fun ws member out out' turn => by
    obtain ⟨locals, named, turn⟩ := expandTab_ok turn
    have named' : namesOn dg ws.nodes = locals := by rw [namesOn, named]; rfl
    rw [namedGroups, named']
    exact foldlM_emits turn fun g member out out' turn =>
      group_scopes [] turn rfl rfl rfl fun _ _ _ => rfl
  rw [scopes, defs_eq]
  exact emitted

end Walk

/-! ## Addresses -/

section Addresses

variable {dg : Digests} {doc : Document} {defs : Table String Workspace} {tab : Workspace}

theorem definitionTable_lookup {name : String} {defn : Workspace}
    (found : (definitionTable doc).lookup name = some defn) :
    defn ∈ doc.workspaces ∧ defn.tab = false ∧ defn.name = some name := by
  cases indexed : definitions doc with
  | error e =>
    rw [definitionTable, indexed] at found
    cases found
  | ok defs =>
    rw [definitionTable, indexed] at found
    exact definitions_lookup indexed found

/-- What a canvas names as a group is one of its nodes, and a group. -/
theorem mem_namedGroups {ws : Workspace} {g : NodeSnap × String} (named : g ∈ namedGroups dg ws) :
    g.1 ∈ ws.nodes ∧ g.1.kind.isGroup = true :=
  List.mem_filter.1 (List.of_mem_zip named).1

/-- The instance of a written group is written. -/
theorem Written.inner {up : List Level} {line : NodeSnap} {defn : Workspace} (outside : Written dg doc tab up)
    (placed : line ∈ canvasOf tab up ∧ line.kind.isGroup = true)
    (found : (definitionTable doc).lookup (groupDefinition line.kind) = some defn) :
    Written dg doc tab (⟨instanceId dg line up, line, defn⟩ :: up) := by
  obtain ⟨defined, isDefinition, named⟩ := definitionTable_lookup found
  exact .group outside placed.1 placed.2 defined isDefinition named

/-- What is below a group is written, at an address that ends in the group's. -/
theorem mem_below {room : Nat} : ∀ {up : List Level} {line : NodeSnap} {name : String} {s : Scope},
    s ∈ below dg (definitionTable doc) tab room up line name → Written dg doc tab up →
      line ∈ canvasOf tab up ∧ line.kind.isGroup = true →
        Written dg doc tab s.levels ∧ s.tab = tab ∧ (line.id :: up.map fun lv => lv.line.id) <:+ s.address := by
  induction room with
  | zero => exact fun member => absurd member List.not_mem_nil
  | succ room ih =>
    intro up line name s member outside placed
    rw [below] at member
    split at member
    · cases member
    · next defn found =>
        have chain := outside.inner placed found
        rcases List.mem_cons.1 member with rfl | deeper
        · exact ⟨chain, rfl, List.suffix_refl _⟩
        · obtain ⟨g, member, inner⟩ := List.mem_flatMap.1 deeper
          obtain ⟨chained, same, ends⟩ := ih inner chain (mem_namedGroups member)
          exact ⟨chained, same, (List.suffix_cons _ _).trans ends⟩

theorem zip_fst_sublist {α β : Type} : ∀ (xs : List α) (ys : List β), ((xs.zip ys).map Prod.fst).Sublist xs
  | [], _ => List.Sublist.refl _
  | _ :: _, [] => List.nil_sublist _
  | _ :: xs, _ :: ys => (zip_fst_sublist xs ys).cons_cons _

/-- A group is named once where its id is. -/
theorem namedGroups_nodup {ws : Workspace} (once : (ws.groupsIn.map NodeSnap.id).Nodup) :
    ((namedGroups dg ws).map fun g => g.1.id).Nodup := by
  have parts : ((namedGroups dg ws).map fun g => g.1.id) =
      ((namedGroups dg ws).map Prod.fst).map NodeSnap.id := by
    rw [List.map_map]
    rfl
  rw [parts]
  exact once.sublist ((zip_fst_sublist _ _).map _)

/-- Addresses that end in different groups of one canvas differ. -/
theorem suffix_apart {a b : NodeId} {rest x : List NodeId} (one : a :: rest <:+ x) (two : b :: rest <:+ x) :
    a = b := by
  have same := List.IsSuffix.eq_of_length (List.suffix_of_suffix_length_le one two (by simp)) (by simp)
  exact (List.cons.inj same).1

/-- **No address twice** below a group.  Induction on the room left. -/
theorem below_nodup (once : GroupsOnce (definitionTable doc)) {room : Nat} :
    ∀ {up : List Level} {line : NodeSnap} {name : String}, Written dg doc tab up →
      line ∈ canvasOf tab up ∧ line.kind.isGroup = true →
        ((below dg (definitionTable doc) tab room up line name).map Scope.address).Nodup := by
  induction room with
  | zero => exact fun _ _ => List.nodup_nil
  | succ room ih =>
    intro up line name outside placed
    rw [below]
    split
    · exact List.nodup_nil
    · next defn found =>
        have chain := outside.inner placed found
        have ends := fun {g : NodeSnap × String} {s : Scope} (member : g ∈ namedGroups dg defn)
            (below_ : s ∈ below dg (definitionTable doc) tab room (⟨instanceId dg line up, line, defn⟩ :: up) g.1
              (name ++ "-" ++ g.2)) => (mem_below below_ chain (mem_namedGroups member)).2.2
        rw [List.map_cons, List.map_flatMap, List.nodup_cons, List.nodup_flatMap]
        refine ⟨fun member => ?_, fun g member => ih chain (mem_namedGroups member), ?_⟩
        · -- what is below has a longer address
          obtain ⟨g, written, inner⟩ := List.mem_flatMap.1 member
          obtain ⟨s, below_, same⟩ := List.mem_map.1 inner
          have longer := (ends written below_).length_le
          rw [same] at longer
          simp [Scope.address, Scope.levels] at longer
        · refine (List.pairwise_map.1 (namedGroups_nodup (once _ _ found))).imp_of_mem ?_
          intro g h written written' differ x here there
          obtain ⟨s, below_, rfl⟩ := List.mem_map.1 here
          obtain ⟨s', below_', same⟩ := List.mem_map.1 there
          refine differ (suffix_apart (ends written below_) ?_)
          rw [← same]
          exact ends written' below_'

/-- A tab with one of its groups. -/
theorem tab_group {ws : Workspace} (isTab : ws ∈ tabs doc) {g : NodeSnap × String} (named : g ∈ namedGroups dg ws) :
    Written dg doc ws [] ∧ g.1 ∈ canvasOf ws [] ∧ g.1.kind.isGroup = true :=
  ⟨.tab (List.mem_filter.1 isTab).1 (List.mem_filter.1 isTab).2, mem_namedGroups named⟩

/-- Every scope is written. -/
theorem mem_scopes {s : Scope} (member : s ∈ scopes dg doc) :
    Written dg doc s.tab s.levels ∧ s.level.defn ∈ doc.workspaces := by
  obtain ⟨ws, isTab, inside⟩ := List.mem_flatMap.1 member
  obtain ⟨g, named, inner⟩ := List.mem_flatMap.1 inside
  obtain ⟨outside, placed⟩ := tab_group isTab named
  obtain ⟨chained, rfl, _⟩ := mem_below inner outside placed
  exact ⟨chained, chained.defined⟩

theorem InnerApart.levels (apart : InnerApart dg doc) {s : Scope} (member : s ∈ scopes dg doc) :
    ∀ lv ∈ s.levels, Set.InjOn (dg.derive lv.inst) {a | Mentions lv.defn a} := by
  intro lv above
  obtain ⟨_, chained⟩ := (mem_scopes member).1.suffix above
  exact apart _ _ _ chained

/-- Every workspace places a node's id once. -/
def OncePerCanvas (doc : Document) : Prop := ∀ ws ∈ doc.workspaces, (ws.nodes.map NodeSnap.id).Nodup

instance : DecidablePred OncePerCanvas := fun doc =>
  inferInstanceAs (Decidable (∀ ws ∈ doc.workspaces, (ws.nodes.map NodeSnap.id).Nodup))

/-- The groups of all tabs have different ids. -/
def GroupsApart (doc : Document) : Prop := (((tabs doc).flatMap Workspace.groupsIn).map NodeSnap.id).Nodup

instance : DecidablePred GroupsApart := fun doc =>
  inferInstanceAs (Decidable (((tabs doc).flatMap Workspace.groupsIn).map NodeSnap.id).Nodup)

theorem OncePerCanvas.groups {ws : Workspace} (once : OncePerCanvas doc) (member : ws ∈ doc.workspaces) :
    (ws.groupsIn.map NodeSnap.id).Nodup :=
  (once ws member).sublist (List.filter_sublist.map _)

/-- The tabs' groups each with its tab, in document order. -/
theorem scopes_eq : scopes dg doc = ((tabs doc).flatMap fun ws => (namedGroups dg ws).map fun g => (ws, g)).flatMap
    fun p => below dg (definitionTable doc) p.1 maxDepth [] p.2.1 p.2.2 := by
  rw [scopes, List.flatMap_assoc]
  refine List.flatMap_congr fun ws _ => ?_
  rw [List.flatMap_map]

/-- **No address twice** in a document. -/
theorem scopes_nodup (once : OncePerCanvas doc) (apart : GroupsApart doc) :
    ((scopes dg doc).map Scope.address).Nodup := by
  have groups : GroupsOnce (definitionTable doc) := fun d defn found =>
    once.groups (definitionTable_lookup found).1
  have keys : (((tabs doc).flatMap fun ws => (namedGroups dg ws).map fun g => (ws, g)).map
      fun p => p.2.1.id).Nodup := by
    refine apart.sublist ?_
    rw [List.map_flatMap, List.map_flatMap]
    refine List.Sublist.flatMap_right _ fun ws _ => ?_
    have named : ((namedGroups dg ws).map fun g => (ws, g)).map (fun p => p.2.1.id) =
        ((namedGroups dg ws).map Prod.fst).map NodeSnap.id := by
      rw [List.map_map, List.map_map]
      rfl
    rw [named]
    exact (zip_fst_sublist _ _).map _
  have onTab : ∀ p ∈ (tabs doc).flatMap fun ws => (namedGroups dg ws).map fun g => (ws, g),
      Written dg doc p.1 [] ∧ p.2.1 ∈ canvasOf p.1 [] ∧ p.2.1.kind.isGroup = true := by
    intro p member
    obtain ⟨ws, isTab, inside⟩ := List.mem_flatMap.1 member
    obtain ⟨g, named, rfl⟩ := List.mem_map.1 inside
    exact tab_group isTab named
  rw [scopes_eq, List.map_flatMap, List.nodup_flatMap]
  refine ⟨fun p member => below_nodup groups (onTab p member).1 (onTab p member).2,
    (List.pairwise_map.1 keys).imp_of_mem ?_⟩
  intro p q member member' differ x here there
  obtain ⟨s, below_, rfl⟩ := List.mem_map.1 here
  obtain ⟨s', below_', same⟩ := List.mem_map.1 there
  refine differ (suffix_apart (mem_below below_ (onTab p member).1 (onTab p member).2).2.2 ?_)
  rw [← same]
  exact (mem_below below_' (onTab q member').1 (onTab q member').2).2.2

end Addresses

/-! ## Ids -/

section Ids

variable {dg : Digests} {doc : Document} {out : List Instance}

/-- A list that stands for another, element by element, has its keys. -/
theorem map_of_forall₂ {α β κ : Type} {R : α → β → Prop} {f : α → κ} {g : β → κ} :
    ∀ {xs : List α} {ys : List β}, (∀ a, ∀ b ∈ ys, R a b → f a = g b) → List.Forall₂ R xs ys → xs.map f = ys.map g
  | _, _, _, .nil => rfl
  | _, _, keyed, .cons related rest => congrArg₂ List.cons (keyed _ _ List.mem_cons_self related)
      (map_of_forall₂ (fun a b member => keyed a b (List.mem_cons_of_mem _ member)) rest)

/-- **Different scopes have different ids.** -/
theorem scopes_ids_nodup (free : CollisionFree dg doc) (once : OncePerCanvas doc) (apart : GroupsApart doc) :
    ((scopes dg doc).map fun s => s.level.inst).Nodup :=
  List.pairwise_map.2 ((List.pairwise_map.1 (scopes_nodup once apart)).imp_of_mem fun here there differ same =>
    differ ((mem_scopes here).1.address_inj free (mem_scopes there).1 same))

theorem expand_ids_nodup (free : CollisionFree dg doc) (once : OncePerCanvas doc) (apart : GroupsApart doc)
    (expanded : expand dg doc = .ok out) : (out.map Instance.id).Nodup := by
  rw [map_of_forall₂ (g := fun s : Scope => s.level.inst) (fun _ _ _ e => e.id) (expand_scopes expanded)]
  exact scopes_ids_nodup free once apart

/-- What is behind an instance in the list comes from a scope. -/
theorem exists_scope (expanded : expand dg doc = .ok out) {i : Instance} (member : i ∈ out) :
    ∃ s ∈ scopes dg doc, Embodies dg i s := by
  obtain ⟨k, bound, rfl⟩ := List.mem_iff_getElem.1 member
  have both := List.forall₂_iff_get.1 (expand_scopes expanded)
  exact ⟨_, List.get_mem _ _, both.2 k bound (both.1 ▸ bound)⟩

/-- Every instance but a root comes after its parent. -/
theorem Grows.parent_before {defs : Table String Workspace} {roots : NodeId → String → Prop}
    (grown : Grows dg defs roots out) : ∀ {before after : List Instance} {i : Instance},
      out = before ++ i :: after → ∀ p, i.parent = some p → ∃ q ∈ before, q.id = p := by
  induction grown with
  | nil => exact fun split => absurd split.symm (by simp)
  | @root out i _ top _ _ ih =>
    intro before after j split p above
    rcases List.eq_nil_or_concat after with rfl | ⟨after, last, rfl⟩
    · obtain ⟨_, same⟩ := List.append_inj' split rfl
      cases same
      rw [top] at above
      cases above
    · rw [List.concat_eq_append, ← List.cons_append, ← List.append_assoc] at split
      exact ih (List.append_inj' split rfl).1 p above
  | @nested out q i _ _ _ member below_ _ _ _ _ _ ih =>
    intro before after j split p above
    rcases List.eq_nil_or_concat after with rfl | ⟨after, last, rfl⟩
    · obtain ⟨rfl, same⟩ := List.append_inj' split rfl
      cases same
      rw [below_] at above
      exact ⟨q, member, Option.some.inj above⟩
    · rw [List.concat_eq_append, ← List.cons_append, ← List.append_assoc] at split
      exact ih (List.append_inj' split rfl).1 p above

/-- An instance's parent has a shorter path. -/
theorem path_lt (free : CollisionFree dg doc) {i q : Instance} {s s' : Scope} (member : s ∈ scopes dg doc) (member' : s' ∈ scopes dg doc)
    (stands : Embodies dg i s) (stands' : Embodies dg q s') (above : i.parent = some q.id) :
    q.path.length < i.path.length := by
  rw [stands.parent] at above
  obtain ⟨lv, outer, same⟩ := Option.map_eq_some_iff.1 above
  obtain ⟨up, split⟩ : ∃ up, s.up = lv :: up := by
    cases ups : s.up with
    | nil => rw [ups] at outer; cases outer
    | cons lv' up =>
      rw [ups] at outer
      cases outer
      exact ⟨up, rfl⟩
  have chain := (mem_scopes member).1
  rw [Scope.levels, split] at chain
  have sameAddress : (lv :: up).map (fun lv => lv.line.id) = s'.address :=
    chain.outside.1.address_inj free (mem_scopes member').1 (same.trans stands'.id)
  have lengths : (lv :: up).length = s'.levels.length := by
    have mapped : ((lv :: up).map fun lv => lv.line.id).length = (lv :: up).length := List.length_map ..
    rw [← mapped, sameAddress, Scope.address, List.length_map]
  rw [stands.path, stands'.path, ← lengths, Scope.levels, split]
  exact Nat.lt_succ_self _

/-- The ids of an instance's nodes, by its scope. -/
theorem Embodies.nodes {i : Instance} {s : Scope} (stands : Embodies dg i s) :
    i.content.nodes.map NodeSnap.id = stampedIds dg s.level.defn i.id := by
  obtain ⟨ports, content, _⟩ := stands.content
  rw [content, stands.id]
  simp [stampContent, stampedIds, stampNode, List.map_map, Function.comp_def]

/-- The nodes an instance gets are derived from its definition's. -/
theorem expand_derives (expanded : expand dg doc = .ok out) {i : Instance} (member : i ∈ out) :
    ∃ defn ∈ doc.workspaces, i.content.nodes.map NodeSnap.id = stampedIds dg defn i.id ∧
      ∀ n ∈ defn.nodes, Derives dg doc i.id n.id := by
  obtain ⟨s, written, stands⟩ := exists_scope expanded member
  refine ⟨_, (mem_scopes written).2, stands.nodes, fun n placed => ?_⟩
  rw [stands.id]
  exact (mem_scopes written).1.derives (mentions_node placed)

/-- A definition's nodes that an instance gets are nodes of the definition. -/
theorem mem_kept {ws : Workspace} {n : NodeSnap}
    (kept : n ∈ (ws.nodes.filter fun n => !n.kind.isGroup).filter fun n => (portOf n).isNone) : n ∈ ws.nodes :=
  List.mem_of_mem_filter (List.mem_of_mem_filter kept)

/-- **Expansion ids do not collide**: no two instances have one id, no node id occurs
twice, and every nested instance comes after its parent, with a longer path. -/
theorem expand_unique (free : CollisionFree dg doc) (once : OncePerCanvas doc) (apart : GroupsApart doc)
    (expanded : expand dg doc = .ok out) :
    (out.map Instance.id).Nodup ∧ (out.flatMap fun i => i.content.nodes.map NodeSnap.id).Nodup ∧
      ∀ before i after, out = before ++ i :: after → ∀ p, i.parent = some p →
        ∃ q ∈ before, q.id = p ∧ q.path.length < i.path.length := by
  have ids := expand_ids_nodup free once apart expanded
  refine ⟨ids, ?_, ?_⟩
  · rw [List.nodup_flatMap]
    refine ⟨fun i member => ?_, (List.pairwise_map.1 ids).imp_of_mem ?_⟩
    · obtain ⟨defn, placed, nodes, derived⟩ := expand_derives expanded member
      have parts : stampedIds dg defn i.id = (((defn.nodes.filter fun n => !n.kind.isGroup).filter
          fun n => (portOf n).isNone).map NodeSnap.id).map (dg.derive i.id) := by
        rw [stampedIds, List.map_map]
        rfl
      rw [nodes, parts]
      refine ((once _ placed).sublist ((List.filter_sublist.trans List.filter_sublist).map _)).map_on ?_
      intro a here b there same
      obtain ⟨n, kept, rfl⟩ := List.mem_map.1 here
      obtain ⟨m, kept', rfl⟩ := List.mem_map.1 there
      exact (free.injective _ _ _ _ (derived n (mem_kept kept)) (derived m (mem_kept kept')) same).2
    · intro i j here there differ x inside outside
      obtain ⟨_, _, nodes, derived⟩ := expand_derives expanded here
      obtain ⟨_, _, nodes', derived'⟩ := expand_derives expanded there
      dsimp only at inside outside
      rw [nodes, stampedIds] at inside
      rw [nodes', stampedIds] at outside
      obtain ⟨n, kept, rfl⟩ := List.mem_map.1 inside
      obtain ⟨m, kept', same⟩ := List.mem_map.1 outside
      exact differ (free.injective _ _ _ _ (derived' m (mem_kept kept')) (derived n (mem_kept kept)) same).1.symm
  · intro before i after split p above
    obtain ⟨_, _, grown⟩ := expand_grows expanded
    obtain ⟨q, member, rfl⟩ := grown.parent_before split p above
    obtain ⟨s, written, stands⟩ := exists_scope expanded (split ▸ List.mem_append_right _ List.mem_cons_self)
    obtain ⟨s', written', stands'⟩ := exists_scope expanded (split ▸ List.mem_append_left _ member)
    exact ⟨q, member, rfl, path_lt free written written' stands stands' above⟩

/-- Two levels down, ids and paths are apart. -/
theorem expand_unique_chorus :
    ∃ out, expand Digests.apart chorusDocument = .ok out ∧
      (out.map Instance.id).Nodup ∧ (out.flatMap fun i => i.content.nodes.map NodeSnap.id).Nodup ∧
        ∀ before i after, out = before ++ i :: after → ∀ p, i.parent = some p →
          ∃ q ∈ before, q.id = p ∧ q.path.length < i.path.length := by
  obtain ⟨out, expanded, _⟩ := ok_of_observed (x := expand Digests.apart chorusDocument) (f := List.length) (v := 2)
    (by decide)
  exact ⟨out, expanded, expand_unique (apart_collisionFree (by decide)) (by decide) (by decide) expanded⟩

end Ids

end Wk.Instancing
