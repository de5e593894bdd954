/-
# Wk.Server.Discipline -- the link lists stay sets, and one-per-source relations functions

No link list ever holds a pair twice.  In the serve, capture, clipboard and API
relations, and in net membership for every member that is no Router, a source
holds at most one link: `exclusive` says where that rule applies, `Disciplined` is
the invariant, and each edit keeps it -- with one exception.  Whether a net member
is exclusive depends on its kind, and placing a node over a live Router that is on
several networks changes that kind under the links: `KeepsRouters` rules it out.
-/
import Wk.Server.Edits

namespace Wk

open Wk.Library

set_option autoImplicit false

namespace Graph

/-- Where a source holds at most one link: everywhere but in binds and MIDI, and
for net membership only if the member is no router. -/
def exclusive (g : Graph) (r : WireRel) (src : NodeId) : Bool :=
  match r with
  | .connection | .midi => false
  | .netLink => g.kindOf src ≠ some .router
  | _ => true

/-- At most one link of `r` starts at `src`. -/
def OneFrom (g : Graph) (r : WireRel) (src : NodeId) : Prop :=
  ∀ d d', (src, d) ∈ g.links r → (src, d') ∈ g.links r → d = d'

/-- The link lists hold no pair twice, and exclusive sources hold one link. -/
structure Disciplined (g : Graph) : Prop where
  nodup : ∀ r, (g.links r).Nodup
  single : ∀ r src, g.exclusive r src = true → g.OneFrom r src

theorem toggle_links (g : Graph) (r r' : WireRel) (a b : NodeId) :
    (g.toggle r a b).links r' =
      if r' = r then
        if g.exclusive r a then Wiring.toggleUnique (g.links r) a b
        else Wiring.togglePair (g.links r) a b
      else g.links r' := by
  unfold toggle
  rw [setLinks_links]
  congr 1
  cases r with
  | netLink => by_cases router : g.kindOf a = some .router <;> simp [exclusive, router]
  | _ => rfl

/-- A toggle adds at most the pair it names. -/
theorem mem_toggle {g : Graph} {r r' : WireRel} {a b : NodeId} {l : Pair}
    (member : l ∈ (g.toggle r a b).links r') : l ∈ g.links r' ∨ (r' = r ∧ l = (a, b)) := by
  rw [toggle_links] at member
  split at member
  · next same =>
      subst same
      split at member
      · exact (Wiring.mem_of_mem_toggleUnique member).imp_right fun new => ⟨rfl, new⟩
      · exact (Wiring.mem_of_mem_togglePair member).imp_right fun new => ⟨rfl, new⟩
  · exact .inl member

/-! ## Each operation keeps the discipline -/

/-- Fewer links under no more exclusive sources are as disciplined. -/
theorem Disciplined.mono {g g' : Graph} (good : Disciplined g)
    (fewer : ∀ r, (g'.links r).Sublist (g.links r))
    (kinds : ∀ r src, g'.exclusive r src = true → g.exclusive r src = true ∨ g'.OneFrom r src) :
    Disciplined g' where
  nodup := fun r => (good.nodup r).sublist (fewer r)
  single := by
    intro r src exclusive
    rcases kinds r src exclusive with same | already
    · intro d d' here there
      exact good.single r src same d d' ((fewer r).mem here) ((fewer r).mem there)
    · exact already

/-- Changing nothing but overrides, payloads or private-net records. -/
theorem Disciplined.congr {g g' : Graph} (good : Disciplined g) (links : g'.links = g.links)
    (kinds : ∀ n, g'.kindOf n = g.kindOf n) : Disciplined g' := by
  refine good.mono (fun r => by rw [links]) fun r src exclusive => .inl ?_
  cases r with
  | netLink => simpa [Graph.exclusive, kinds] using exclusive
  | _ => exact exclusive

theorem Disciplined.toggle {g : Graph} (good : Disciplined g) (r : WireRel) (a b : NodeId) :
    Disciplined (g.toggle r a b) where
  nodup := by
    intro r'
    rw [toggle_links]
    split
    · split
      · exact Wiring.toggleUnique_nodup (good.nodup r) a b
      · exact Wiring.togglePair_nodup (good.nodup r) a b
    · exact good.nodup r'
  single := by
    intro r' src exclusive d d' here there
    have was : g.exclusive r' src = true := exclusive
    have old := good.single r' src was
    by_cases same : r' = r ∧ src = a
    · obtain ⟨rfl, rfl⟩ := same
      -- The toggled source itself: the list was rebuilt around its one link.
      rw [toggle_links, if_pos rfl, if_pos was] at here there
      rw [Wiring.mem_toggleUnique (good.nodup r')] at here there
      rcases here with ⟨_, here, _⟩ | ⟨_, ⟨_, differs⟩ | here⟩
      · rcases there with ⟨_, there, _⟩ | ⟨absent, _⟩
        · exact old d d' here there
        · exact absurd ‹_› absent
      · exact absurd rfl differs
      · rcases there with ⟨present, _⟩ | ⟨_, ⟨_, differs⟩ | there⟩
        · exact absurd present ‹_›
        · exact absurd rfl differs
        · rw [Prod.mk.injEq] at here there
          rw [here.2, there.2]
    · have before : ∀ {x}, (src, x) ∈ (g.toggle r a b).links r' → (src, x) ∈ g.links r' := by
        intro x member
        rcases mem_toggle member with old | ⟨sameRel, new⟩
        · exact old
        · exact absurd ⟨sameRel, (Prod.mk.inj new).1⟩ same
      exact old d d' (before here) (before there)

theorem Disciplined.filter {g : Graph} (good : Disciplined g) (r : WireRel) (keep : Pair → Bool) :
    Disciplined (g.setLinks r ((g.links r).filter keep)) := by
  refine good.mono (fun r' => ?_) fun r' src exclusive => .inl exclusive
  rw [setLinks_links]
  split
  · next same =>
      subst same
      exact List.filter_sublist
  · exact .refl _

theorem Disciplined.partNet {g : Graph} (good : Disciplined g) (id : NodeId) (key : Pair) :
    Disciplined (g.partNet id key) := by
  unfold Graph.partNet
  split
  · exact good
  · have forgotten : Disciplined { g with appLinkNets := g.appLinkNets.erase key } :=
      good.congr rfl fun _ => rfl
    exact forgotten.toggle _ _ _

theorem Disciplined.pruneAppLinkNet {g : Graph} (good : Disciplined g)
    (order : List Pair → List Pair) (id : NodeId) : Disciplined (g.pruneAppLinkNet order id) :=
  List.foldlRecOn (motive := Disciplined) _ _ good fun _ good key _ => good.partNet id key

theorem Disciplined.dropWires {g : Graph} (good : Disciplined g) (order : List Pair → List Pair)
    (id : NodeId) : Disciplined (g.dropWires order id) := by
  unfold Graph.dropWires
  split
  · exact (good.filter _ _).congr rfl fun _ => rfl
  · exact (good.filter _ _).congr rfl fun _ => rfl
  · exact good.filter _ _
  · exact good.filter _ _
  · exact good.filter _ _
  · exact good.filter _ _
  · exact good.filter _ _
  · exact good.filter _ _
  · exact good.filter _ _
  · have stripped := ((good.filter .connection fun l => l.2 ≠ id).filter .netLink
      fun l => l.1 ≠ id).filter .midi fun l => l.1 ≠ id && l.2 ≠ id
    have parted := ((stripped.pruneAppLinkNet order id).filter .serve
      fun l => l.1 ≠ id && l.2 ≠ id).filter .clipboardLink fun l => l.1 ≠ id
    exact parted.congr rfl fun _ => rfl
  · exact good.filter _ _
  · exact good.filter _ _
  · exact good.filter _ _
  · exact (good.filter _ _).pruneAppLinkNet order id
  · exact (good.filter _ _).pruneAppLinkNet order id
  · have stripped := (good.filter .connection fun l => l.1 ≠ id && l.2 ≠ id).filter .midi
      fun l => l.1 ≠ id && l.2 ≠ id
    have parted := (((stripped.pruneAppLinkNet order id).filter .captureLink
      fun l => l.1 ≠ id && l.2 ≠ id).filter .clipboardLink
      fun l => l.1 ≠ id && l.2 ≠ id).filter .apiLink fun l => l.1 ≠ id && l.2 ≠ id
    exact parted.congr rfl fun _ => rfl
  all_goals exact good

/-- A removed router's memberships go with it. -/
theorem dropWires_router {g : Graph} {order : List Pair → List Pair} {id : NodeId}
    (router : g.kindOf id = some .router) (d : NodeId) :
    (id, d) ∉ (g.dropWires order id).links .netLink := by
  rw [Graph.dropWires, router]
  simp [dropFrom, setLinks_links]

theorem Disciplined.remove {g : Graph} (good : Disciplined g) (order : List Pair → List Pair)
    (id : NodeId) : Disciplined (g.remove order id) := by
  by_cases present : id ∈ g.nodes
  · have wires : (g.remove order id).links = (g.dropWires order id).links := by
      rw [remove_toWires g present]
    refine (good.dropWires order id).mono (fun r => by rw [wires]) ?_
    intro r src exclusive
    cases r with
    | netLink =>
      simp only [Graph.exclusive, decide_eq_true_eq, ne_eq] at exclusive ⊢
      rw [remove_kindOf] at exclusive
      by_cases same : src = id
      · subst same
        by_cases router : g.kindOf src = some .router
        · right
          intro d d' here
          rw [wires] at here
          exact absurd here (dropWires_router router d)
        · left
          rwa [Canvas.kindOf, dropWires_toCanvas]
      · left
        rw [if_neg same] at exclusive
        rwa [Canvas.kindOf, dropWires_toCanvas]
    | _ => exact .inl exclusive
  · rw [remove_absent g present]
    exact good

/-! ## The run -/

/-- A placement does not turn a live router that is on several networks into
another kind of node. -/
def KeepsRouters (g : Graph) : Edit → Prop
  | .place id _ _ _ payload =>
    g.kindOf id = some .router → payload.kind ≠ .router → g.OneFrom .netLink id
  | _ => True

theorem Disciplined.place {g : Graph} (good : Disciplined g) {id ws : NodeId} {pos size : Vec2}
    {payload : Payload} (keeps : KeepsRouters g (.place id ws pos size payload)) :
    Disciplined (g.place id ws pos size payload) := by
  have links : (g.place id ws pos size payload).links = g.links := by rw [place_toWires]
  refine good.mono (fun r => by rw [links]) ?_
  intro r src exclusive
  cases r with
  | netLink =>
    simp only [Graph.exclusive, decide_eq_true_eq, ne_eq] at exclusive ⊢
    rw [place_kindOf] at exclusive
    by_cases same : src = id
    · subst same
      rw [if_pos rfl] at exclusive
      by_cases router : g.kindOf src = some .router
      · right
        intro d d' here there
        rw [links] at here there
        exact keeps router (fun h => exclusive (by rw [h])) d d' here there
      · exact .inl router
    · rw [if_neg same] at exclusive
      exact .inl exclusive
  | _ => exact .inl exclusive

/-- **One edit.** Every edit that keeps routers keeps the discipline. -/
theorem Disciplined.edit {g : Graph} {e : Edit} (keeps : KeepsRouters g e) (good : Disciplined g) :
    Disciplined (e.apply g) := by
  cases e with
  | toggle r a b => exact good.toggle r a b
  | mintNet key net => exact ((good.toggle _ _ _).toggle _ _ _).congr rfl fun _ => rfl
  | dropNet key =>
    simp only [Edit.apply, Graph.dropNet]
    split
    · exact good
    · have forgotten : Disciplined { g with appLinkNets := g.appLinkNets.erase key } :=
        good.congr rfl fun _ => rfl
      exact (forgotten.toggle _ _ _).toggle _ _ _
  | place id ws pos size payload => exact good.place keeps
  | pose id pos3d panel3d =>
    cases pos3d <;> cases panel3d <;> exact good.congr rfl fun _ => rfl
  | remove order id => exact good.remove order id
  | update id u =>
    exact good.congr (by rw [Edit.apply, update_toWires]) fun n => update_kindOf g id n u
  | addTab index id =>
    refine good.congr (by rw [Edit.apply, addTab_toWires]) fun n => ?_
    simp only [Edit.apply, addTab]
    split <;> rfl
  | removeTab id =>
    refine good.congr (by rw [Edit.apply, removeTab_toWires]) fun n => ?_
    simp only [Edit.apply, removeTab]
    split <;> rfl
  | _ => exact good.congr rfl fun _ => rfl

/-- A list without repeats in which `src` has one destination names it once. -/
theorem count_source_le_one {links : List Pair} (nodup : links.Nodup) {src : NodeId}
    (one : ∀ d d', (src, d) ∈ links → (src, d') ∈ links → d = d') :
    (links.map Prod.fst).count src ≤ 1 := by
  induction links with
  | nil => simp
  | cons l links ih =>
    obtain ⟨a, b⟩ := l
    obtain ⟨new, nodup⟩ := List.nodup_cons.1 nodup
    have rest := ih nodup fun d d' here there =>
      one d d' (List.mem_cons_of_mem _ here) (List.mem_cons_of_mem _ there)
    rw [List.map_cons, List.count_cons]
    by_cases same : a = src
    · subst same
      have none : (links.map Prod.fst).count a = 0 := by
        rw [List.count_eq_zero]
        intro member
        obtain ⟨⟨_, d⟩, there, rfl⟩ := List.mem_map.1 member
        have := one b d (List.mem_cons_self ..) (List.mem_cons_of_mem _ there)
        exact new (this ▸ there)
      simp [none]
    · simpa [same] using rest

end Graph

namespace Server

/-- **Link-set discipline.** In every session in which no placement turns a router
that is on several networks into another kind, no link list holds a pair twice, and
each source of the serve, capture, clipboard and API relations, and each net member
that is no router, occurs at most once: the history of the server carries it. -/
theorem run_links_disciplined {w : World} {h : Host} {doc : Document} {steps : List Step}
    {s : Server (Graph.ofDocument doc)} (_ran : run w h doc steps = .ok s)
    (met : s.history.Every Graph.KeepsRouters) :
    (∀ r, (s.graph.links r).Nodup) ∧
    (∀ r, r = .serve ∨ r = .captureLink ∨ r = .clipboardLink ∨ r = .apiLink →
      ∀ src, ((s.graph.links r).map Prod.fst).count src ≤ 1) ∧
    (∀ src, s.graph.kindOf src ≠ some .router → (s.graph.netLinks.map Prod.fst).count src ≤ 1) := by
  have good : Graph.Disciplined s.graph := by
    refine s.history.every_keeps ?_ (fun g e keeps good => good.edit keeps) met
    exact ⟨fun _ => List.nodup_nil, fun _ _ _ _ _ here => absurd here List.not_mem_nil⟩
  refine ⟨good.nodup, ?_, ?_⟩
  · intro r cases src
    refine Graph.count_source_le_one (good.nodup r) (good.single r src ?_)
    rcases cases with rfl | rfl | rfl | rfl <;> rfl
  · intro src member
    exact Graph.count_source_le_one (good.nodup _)
      (good.single .netLink src (by simpa [Graph.exclusive] using member))

section Poles

/-- A document that writes one id twice: a router on two networks in one tab, and
a volume in the next. -/
def routerTwiceDocument : Document where
  workspaces := [
    { id := 1
      nodes := [{ id := 10, kind := .router }, { id := 11, kind := .net false },
        { id := 12, kind := .net false }]
      links := fun r => match r with
        | .netLink => [(10, 11), (10, 12)]
        | _ => [] },
    { id := 2, nodes := [{ id := 10, kind := .volume "notes" false }] }]

/-- The same tab with the router's id written once. -/
def routerOnceDocument : Document where
  workspaces := routerTwiceDocument.workspaces.take 1

/-- No placement lands on a live router, unless as a router. -/
def placesNoneOverRouters (g : Graph) : Edit → Bool
  | .place id _ _ _ payload => g.kindOf id ≠ some .router || payload.kind = .router
  | _ => true

theorem run_links_disciplined_router :
    ∃ s, run .plain (.plain fun _ => none) routerOnceDocument [.tick (.plain fun _ => none)] = .ok s ∧
      s.graph.netLinks = [(10, 11), (10, 12)] ∧ s.graph.netLinks.Nodup := by
  have seen : (run .plain (.plain fun _ => none) routerOnceDocument
      [.tick (.plain fun _ => none)]).toOption.map
        (fun s => (s.graph.netLinks, s.history.check placesNoneOverRouters)) =
      some ([(10, 11), (10, 12)], true) := by
    decide
  obtain ⟨s, ran, seen⟩ := ok_of_observed seen
  obtain ⟨links, passes⟩ := Prod.mk.inj seen
  have met : s.history.Every Graph.KeepsRouters := by
    refine s.history.every_of_check ?_ passes
    intro g e passed
    cases e with
    | place id ws pos size payload =>
      intro router other
      simp [placesNoneOverRouters, router, other] at passed
    | _ => trivial
  exact ⟨s, ran, links, (run_links_disciplined ran met).1 .netLink⟩

/-- The volume is no router, and is a member of two networks. -/
theorem router_replaced_holds_two :
    ∃ s, run .plain (.plain fun _ => none) routerTwiceDocument [] = .ok s ∧
      s.graph.kindOf 10 = some .file ∧ (s.graph.netLinks.map Prod.fst).count 10 = 2 := by
  have seen : (run .plain (.plain fun _ => none) routerTwiceDocument []).toOption.map
      (fun s => (s.graph.kindOf 10, (s.graph.netLinks.map Prod.fst).count 10)) =
        some (some .file, 2) := by
    decide
  obtain ⟨s, ran, seen⟩ := ok_of_observed seen
  exact ⟨s, ran, (Prod.mk.inj seen).1, (Prod.mk.inj seen).2⟩

end Poles

end Server

end Wk
