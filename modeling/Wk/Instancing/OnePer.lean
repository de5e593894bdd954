/-
# Wk.Instancing.OnePer -- one wire per source, through an expansion

In five relations a source holds one wire, and laying a second takes the first away.  An
expansion refuses a port for a source; a port for a destination it lets through, once for
each node behind the port.

* `sources_eq`: the sources of an instance's wires, each as often as its destination
  resolves.
* `one_per_source_iff`: what the tabs and the instances lay together has one wire per
  source exactly where no such destination stands for two nodes.

Poles: `camera_once` (a port with one node behind it), `camera_twice` (with two).
-/
import Wk.Instancing.Scopes

namespace Wk.Instancing

open Wk.Library

set_option autoImplicit false

/-! ## What is laid -/

/-- A router holds a wire for each of its networks. -/
def exempt (ws : Workspace) (r : WireRel) (l : Pair) : Bool :=
  r = .netLink && ws.nodes.any fun n => n.id = l.1 && n.kind = .router

/-- The wires of a relation whose source holds one. -/
def lone (ws : Workspace) (r : WireRel) : List Pair := (ws.links r).filter fun l => !exempt ws r l

theorem mem_lone {ws : Workspace} {r : WireRel} {l : Pair} (member : l ∈ lone ws r) : l ∈ ws.links r :=
  List.mem_of_mem_filter member

/-- One wire per source. -/
def Single (links : List Pair) : Prop := (links.map Prod.fst).Nodup

instance : DecidablePred Single := fun links => inferInstanceAs (Decidable (links.map Prod.fst).Nodup)

/-- What is left when wires are laid one after another. -/
def laid (links : List Pair) : List Pair := links.foldl (fun held l => Wiring.toggleUnique held l.1 l.2) []

/-- The wires of the tabs and of the instances. -/
def linked (doc : Document) (out : List Instance) (r : WireRel) : List Pair :=
  ((tabs doc).flatMap fun ws => lone ws r) ++ out.flatMap fun i => lone i.content r

/-- Where every source has one wire, laying them drops none. -/
theorem Single.laid_eq : ∀ {links held : List Pair}, Single (held ++ links) →
    links.foldl (fun held l => Wiring.toggleUnique held l.1 l.2) held = held ++ links
  | [], held, _ => (List.append_nil held).symm
  | l :: links, held, single => by
    have apart : ∀ h ∈ held, h.1 ≠ l.1 := by
      unfold Single at single
      rw [List.map_append, List.map_cons, List.nodup_append] at single
      exact fun h member => single.2.2 _ (List.mem_map.2 ⟨h, member, rfl⟩) _ List.mem_cons_self
    have absent : (l.1, l.2) ∉ held := fun member => apart _ member rfl
    have whole : held.filter (fun h => decide (h.1 ≠ l.1)) = held :=
      List.filter_eq_self.2 fun h member => decide_eq_true (apart h member)
    rw [List.foldl_cons, Wiring.toggleUnique_of_not_mem absent, whole, Single.laid_eq, List.append_assoc]
    · rfl
    · rw [List.append_assoc]
      exact single

/-! ## The wires of an instance -/

section Stamped

variable {dg : Digests} {doc : Document} {inst : NodeId} {defn : Workspace} {ports : Table NodeId (List NodeId)}

variable (dg inst) in
/-- A port is known by its derived id. -/
theorem portsById_of_port {nodes : List NodeSnap} {n : NodeSnap} (member : n ∈ nodes) (port : (portOf n).isSome) :
    dg.derive inst n.id ∈ portsById dg inst nodes := by
  induction nodes using List.reverseRecOn with
  | nil => cases member
  | append_singleton init m ih =>
    rw [portsById, List.foldl_append, List.foldl_cons, List.foldl_nil, ← portsById]
    rcases List.mem_append.1 member with old | new
    · split
      · exact (AList.mem_insert _).2 (.inr (ih old))
      · exact ih old
    · obtain rfl := List.mem_singleton.1 new
      obtain ⟨⟨dir, name, kind⟩, isPort⟩ := Option.isSome_iff_exists.1 port
      rw [isPort]
      exact (AList.mem_insert _).2 (.inl rfl)

/-- A source that is no port is the derived node alone. -/
theorem sub_source {line : NodeSnap} {up : List Level}
    (sources : portAsSource dg inst defn = none)
    (resolves : ∀ a, Mentions defn a →
      (sub dg inst ports a : Multiset NodeId) = resolve dg (⟨inst, line, defn⟩ :: up) a)
    {r : WireRel} (one : r ∈ oneWireRels) {w : Pair} (member : w ∈ defn.links r) :
    sub dg inst ports w.1 = [dg.derive inst w.1] := by
  have unlisted := List.findSome?_eq_none_iff.1 (List.findSome?_eq_none_iff.1 sources r one) w member
  rw [Option.map_eq_none_iff] at unlisted
  have inner : (⟨inst, line, defn⟩ : Level).isPort w.1 = false := by
    rw [Level.isPort, List.any_eq_false]
    intro n placed port
    rw [Bool.and_eq_true, decide_eq_true_iff] at port
    have known := portsById_of_port dg inst placed port.2
    rw [port.1, Table.mem_iff_lookup, unlisted] at known
    obtain ⟨_, none_⟩ := known
    cases none_
  refine Multiset.coe_eq_singleton.1 ?_
  rw [resolves _ (mentions_ends member).1, resolve, if_neg (by simp [inner])]

/-- A router of the definition is a router of the instance. -/
theorem exempt_stamp (apart : Set.InjOn (dg.derive inst) {a | Mentions defn a}) (name : String) (r : WireRel)
    {a : NodeId} (mentioned : Mentions defn a) (b y : NodeId) :
    exempt (stampContent dg inst name defn ports) r (dg.derive inst a, y) = exempt defn r (a, b) := by
  refine congrArg (decide (r = .netLink) && ·) (Bool.eq_iff_iff.2 ?_)
  rw [List.any_eq_true, List.any_eq_true]
  constructor
  · rintro ⟨n, member, facts⟩
    obtain ⟨m, kept, rfl⟩ := List.mem_map.1 member
    rw [Bool.and_eq_true, decide_eq_true_iff, decide_eq_true_iff] at facts
    have placed := mem_kept kept
    refine ⟨m, placed, ?_⟩
    have router : m.kind = .router := by
      have stamped := facts.2
      unfold stampNode at stamped
      dsimp only at stamped
      split at stamped
      · cases stamped
      · exact stamped
    rw [Bool.and_eq_true, decide_eq_true_iff, decide_eq_true_iff]
    exact ⟨apart (mentions_node placed) mentioned facts.1, router⟩
  · rintro ⟨m, member, facts⟩
    rw [Bool.and_eq_true, decide_eq_true_iff, decide_eq_true_iff] at facts
    refine ⟨stampNode dg inst name m, List.mem_map.2 ⟨m, List.mem_filter.2 ⟨List.mem_filter.2 ⟨member, ?_⟩, ?_⟩, rfl⟩, ?_⟩
    · rw [facts.2]
      rfl
    · rw [portOf, facts.2]
      rfl
    · rw [Bool.and_eq_true, decide_eq_true_iff, decide_eq_true_iff]
      exact ⟨congrArg (dg.derive inst) facts.1, by simp only [stampNode, facts.2]⟩

/-- The sources of a scope's wires, each as often as its destination resolves. -/
def sources (dg : Digests) (s : Scope) (r : WireRel) : List NodeId :=
  (lone s.level.defn r).flatMap fun w =>
    List.replicate (resolve dg s.levels w.2).card (dg.derive s.level.inst w.1)

theorem flatMap_unless {α β : Type} (p : α → Bool) (f : α → List β) : ∀ xs : List α,
    (xs.flatMap fun x => if p x then [] else f x) = (xs.filter fun x => !p x).flatMap f
  | [] => rfl
  | x :: xs => by
    rw [List.flatMap_cons, List.filter_cons, flatMap_unless p f xs]
    cases p x <;> rfl

/-- **The sources of an instance's wires.** -/
theorem sources_eq {i : Instance} {s : Scope} (stands : Embodies dg i s)
    (apart : ∀ lv ∈ s.levels, Set.InjOn (dg.derive lv.inst) {a | Mentions lv.defn a}) {r : WireRel} (one : r ∈ oneWireRels) :
    (lone i.content r).map Prod.fst = sources dg s r := by
  obtain ⟨ports, content, resolves⟩ := stands.content
  have only := fun {w : Pair} => sub_source stands.sources (resolves apart) one (w := w)
  have each : ∀ w ∈ s.level.defn.links r,
      (((sub dg s.level.inst ports w.1).flatMap fun x => (sub dg s.level.inst ports w.2).map fun y => (x, y)).filter
        fun l => !exempt i.content r l) = if exempt s.level.defn r w then [] else
          (sub dg s.level.inst ports w.2).map fun y => (dg.derive s.level.inst w.1, y) := by
    intro w member
    rw [only member, List.flatMap_singleton, List.filter_map]
    have same : ∀ y, exempt i.content r (dg.derive s.level.inst w.1, y) = exempt s.level.defn r w := fun y => by
      rw [content]
      exact exempt_stamp (apart _ List.mem_cons_self) _ _ (mentions_ends member).1 _ _
    split
    · next free =>
        rw [List.map_eq_nil_iff, List.filter_eq_nil_iff]
        simp [same, free]
    · next held =>
        rw [List.filter_eq_self.2 (by simp [same, held])]
  have kept : lone i.content r = (lone s.level.defn r).flatMap fun w =>
      (sub dg s.level.inst ports w.2).map fun y => (dg.derive s.level.inst w.1, y) := by
    have links : i.content.links r = pairs (sub dg s.level.inst ports) (s.level.defn.links r) := by rw [content]; rfl
    rw [lone, links, pairs, List.filter_flatMap, List.flatMap_congr each, flatMap_unless]
    rfl
  rw [kept, sources, List.map_flatMap]
  refine List.flatMap_congr fun w kept => ?_
  rw [← resolves apart _ (mentions_ends (mem_lone kept)).2, Multiset.coe_card, List.map_map,
    List.map_eq_replicate_iff]
  exact fun _ _ => rfl

end Stamped

/-! ## One wire per source -/

section Documents

variable {dg : Digests} {doc : Document} {out : List Instance}

/-- The ids the document derives differ from the sources of the wires that are written. -/
def SourcesWritten (dg : Digests) (doc : Document) : Prop :=
  ∀ i a, Derives dg doc i a → ∀ ws ∈ doc.workspaces, ∀ r, ∀ l ∈ ws.links r, dg.derive i a ≠ l.1

/-- A wire's sources are single where its destination stands for one node at most. -/
theorem sources_nodup_iff {s : Scope} {r : WireRel}
    (apart : Set.InjOn (dg.derive s.level.inst) {a | Mentions s.level.defn a}) (single : Single (lone s.level.defn r)) :
    (sources dg s r).Nodup ↔ ∀ w ∈ lone s.level.defn r, (resolve dg s.levels w.2).card ≤ 1 := by
  rw [sources, List.nodup_flatMap]
  constructor
  · exact fun apart w member => List.nodup_replicate.1 (apart.1 w member)
  · refine fun few => ⟨fun w member => List.nodup_replicate.2 (few w member), ?_⟩
    refine (List.pairwise_map.1 single).imp_of_mem fun {w w'} kept kept' differ x here there => ?_
    exact differ (apart (mentions_ends (mem_lone kept)).1 (mentions_ends (mem_lone kept')).1
      ((List.eq_of_mem_replicate here).symm.trans (List.eq_of_mem_replicate there)))

/-- No destination of a definition's wires stands for two nodes. -/
def Narrow (dg : Digests) (doc : Document) (r : WireRel) : Prop :=
  ∀ s ∈ scopes dg doc, ∀ w ∈ lone s.level.defn r, (resolve dg s.levels w.2).card ≤ 1

/-- **One wire per source**, in the tabs and the instances together, and so none dropped
when they are laid: exactly where it is so in the tabs together, and no destination of a
definition's wires stands for two nodes. -/
theorem one_per_source_iff (free : CollisionFree dg doc) (written : SourcesWritten dg doc)
    (once : OncePerCanvas doc) (apart : GroupsApart doc)
    (each : ∀ ws ∈ doc.workspaces, ∀ r ∈ oneWireRels, Single (lone ws r)) (expanded : expand dg doc = .ok out) :
    (∀ r ∈ oneWireRels, Single (linked doc out r) ∧ laid (linked doc out r) = linked doc out r) ↔
      ∀ r ∈ oneWireRels, Single ((tabs doc).flatMap fun ws => lone ws r) ∧ Narrow dg doc r := by
  refine forall₂_congr fun r one => ?_
  have laid_ : Single (linked doc out r) → laid (linked doc out r) = linked doc out r := fun single =>
    Single.laid_eq (show Single ([] ++ linked doc out r) from single)
  have live : (out.flatMap fun i => lone i.content r).map Prod.fst = (scopes dg doc).flatMap fun s => sources dg s r := by
    rw [List.map_flatMap, List.flatMap_def, List.flatMap_def]
    exact congrArg List.flatten (map_of_forall₂ (f := fun i : Instance => (lone i.content r).map Prod.fst)
      (g := fun s => sources dg s r) (fun _ _ member stands => sources_eq stands (free.inner.levels member) one)
      (expand_scopes expanded))
  have derived : ∀ s ∈ scopes dg doc, ∀ x ∈ sources dg s r,
      ∃ a, Derives dg doc s.level.inst a ∧ x = dg.derive s.level.inst a := by
    intro s member x here
    obtain ⟨w, kept, there⟩ := List.mem_flatMap.1 here
    exact ⟨w.1, (mem_scopes member).1.derives (mentions_ends (mem_lone kept)).1, List.eq_of_mem_replicate there⟩
  have single_iff : ∀ s ∈ scopes dg doc, (sources dg s r).Nodup ↔
      ∀ w ∈ lone s.level.defn r, (resolve dg s.levels w.2).card ≤ 1 := fun s member =>
    sources_nodup_iff (free.inner.levels member _ List.mem_cons_self) (each _ (mem_scopes member).2 r one)
  rw [and_iff_left_of_imp laid_]
  unfold Single linked
  rw [List.map_append, live, List.nodup_append, List.nodup_flatMap]
  constructor
  · rintro ⟨onTabs, ⟨inside, _⟩, _⟩
    exact ⟨onTabs, fun s member => (single_iff s member).1 (inside s member)⟩
  · rintro ⟨onTabs, narrow⟩
    refine ⟨onTabs, ⟨fun s member => ?_, ?_⟩, ?_⟩
    · exact (single_iff s member).2 (narrow s member)
    · refine (List.pairwise_map.1 (scopes_ids_nodup free once apart)).imp_of_mem fun {s s'} scope scope' differ x here there => ?_
      obtain ⟨_, derives, same⟩ := derived s scope x here
      obtain ⟨_, derives', same'⟩ := derived s' scope' x there
      exact differ (free.injective _ _ _ _ derives derives' (same.symm.trans same')).1
    · intro x onTab y inside same
      obtain ⟨l, laid', rfl⟩ := List.mem_map.1 onTab
      obtain ⟨ws, tab, here⟩ := List.mem_flatMap.1 laid'
      obtain ⟨s, scope, there⟩ := List.mem_flatMap.1 inside
      obtain ⟨a, derives, rfl⟩ := derived s scope y there
      exact written _ a derives ws (List.mem_filter.1 tab).1 r l (mem_lone here) same.symm

end Documents

/-! ## Poles -/

/-- A definition whose app is granted whatever is wired to its `screen` port. -/
def cameraDefinition : Workspace where
  id := 20
  name := some "camera"
  tab := false
  nodes := [{ id := 21, kind := .inPort "screen" .capture }, { id := 22, kind := .app "obs" none [] [] none }]
  links := fun r => match r with
    | .captureLink => [(22, 21)]
    | _ => []

/-- A tab that wires the given nodes of its own to a `camera`. -/
def cameraDocument (screens : List NodeId) : Document where
  workspaces := [
    { id := 1
      nodes := [{ id := 2, kind := .capture }, { id := 4, kind := .capture },
        { id := 3, kind := .group "camera" none (screens.map fun n => ("screen", n)) [] }] },
    cameraDefinition]

theorem cameras_written (screens : List NodeId) (i a : NodeId) :
    ∀ ws ∈ (cameraDocument screens).workspaces, ∀ r, ∀ l ∈ ws.links r, Digests.apart.derive i a ≠ l.1 := by
  intro ws member r l laid_
  rcases List.mem_pair.1 member with rfl | rfl
  · cases laid_
  · cases r <;> simp [cameraDefinition] at laid_
    subst laid_
    change 1000 + 2 * Nat.pair i a ≠ 22
    omega

theorem camera_once :
    ∃ out, expand Digests.apart (cameraDocument [2]) = .ok out ∧
      ((∀ r ∈ oneWireRels, Single (linked (cameraDocument [2]) out r) ∧
          laid (linked (cameraDocument [2]) out r) = linked (cameraDocument [2]) out r) ↔
        ∀ r ∈ oneWireRels, Single ((tabs (cameraDocument [2])).flatMap fun ws => lone ws r) ∧
          Narrow Digests.apart (cameraDocument [2]) r) := by
  obtain ⟨out, expanded, _⟩ : ∃ out, expand Digests.apart (cameraDocument [2]) = .ok out ∧ out.length = 1 :=
    ok_of_observed (by decide)
  exact ⟨out, expanded, one_per_source_iff (apart_collisionFree (by decide)) (fun i a _ => cameras_written [2] i a) (by decide) (by decide)
    (by decide) expanded⟩

/-- Wired to two screens, the app's second grant takes the first away. -/
theorem camera_twice :
    (∀ ws ∈ (cameraDocument [2, 4]).workspaces, ∀ r ∈ oneWireRels, Single (lone ws r)) ∧
    ∃ out, expand Digests.apart (cameraDocument [2, 4]) = .ok out ∧
      linked (cameraDocument [2, 4]) out .captureLink =
        [(1000 + 2 * Nat.pair 3 22, 2), (1000 + 2 * Nat.pair 3 22, 4)] ∧
      laid (linked (cameraDocument [2, 4]) out .captureLink) = [(1000 + 2 * Nat.pair 3 22, 4)] := by
  refine ⟨by decide, ?_⟩
  obtain ⟨out, expanded, seen⟩ : ∃ out, expand Digests.apart (cameraDocument [2, 4]) = .ok out ∧
      linked (cameraDocument [2, 4]) out .captureLink =
        [(1000 + 2 * Nat.pair 3 22, 2), (1000 + 2 * Nat.pair 3 22, 4)] :=
    ok_of_observed (by decide)
  refine ⟨out, expanded, seen, ?_⟩
  rw [seen]
  decide

end Wk.Instancing
