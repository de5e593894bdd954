/-
# Wk.Instancing.Overrides -- what becomes of the settings on a definition's wires

A definition may set a mount path, a container port or a MIDI channel on one of its wires.
Where the wire collapses into live wires, a setting should hold of each of them.

* `keyed_carries`: mount paths and container ports do, unless two wires with different
  settings collapse onto one pair.
* `overrides_follow_iff`: MIDI channels do not, so a document's settings follow exactly
  where no channel is set on a wire that is live.

Poles: `voices_mounted` (a path that follows), `channel_forgotten` (a channel that does not).
-/
import Wk.Instancing.Scopes

namespace Wk.Instancing

open Wk.Library

set_option autoImplicit false

variable {β : Type}

/-! ## Following a wire -/

/-- The settings of a definition's wires hold of the live wires they collapse into, and
nothing else is set. -/
structure Follows (ends : NodeId → Multiset NodeId) (wires : List Pair) (set : Table Pair β)
    (liveWires : List Pair) (live : Table Pair β) : Prop where
  carried : ∀ w ∈ wires, ∀ v, set.lookup w = some v →
    ∀ x ∈ ends w.1, ∀ y ∈ ends w.2, live.lookup (x, y) = some v
  only : ∀ p ∈ live, p ∈ liveWires

/-- Two wires set differently have no live wire in common. -/
def Agreeing (ends : NodeId → Multiset NodeId) (set : Table Pair β) : Prop :=
  ∀ w v w' v', set.lookup w = some v → set.lookup w' = some v' →
    ∀ x ∈ ends w.1, x ∈ ends w'.1 → ∀ y ∈ ends w.2, y ∈ ends w'.2 → v = v'

/-- No wire that is set has a live wire. -/
def Silent (ends : NodeId → Multiset NodeId) (set : Table Pair β) : Prop :=
  ∀ w ∈ set, ends w.1 = 0 ∨ ends w.2 = 0

section Keyed

variable {sub : NodeId → List NodeId} {set : Table Pair β} {p : Pair} {v : β}

theorem mem_pairs {links : List Pair} :
    p ∈ pairs sub links ↔ ∃ w ∈ links, p.1 ∈ sub w.1 ∧ p.2 ∈ sub w.2 := by
  obtain ⟨x, y⟩ := p
  simp [pairs]

theorem insertAll_lookup (ps : List Pair) (v : β) : ∀ out : Table Pair β,
    (ps.foldl (fun out q => out.insert q v) out).lookup p = if p ∈ ps then some v else out.lookup p := by
  induction ps with
  | nil => exact fun out => rfl
  | cons q ps ih =>
    intro out
    rw [List.foldl_cons, ih, Table.lookup_insert_eq]
    by_cases later : p ∈ ps
    · simp [later]
    · simp [later]

/-- What a pair is set to was set on a wire that collapses onto it. -/
theorem keyed_sound : (keyed sub set).lookup p = some v →
    ∃ w, set.lookup w = some v ∧ p.1 ∈ sub w.1 ∧ p.2 ∈ sub w.2 := by
  have rows : ∀ row ∈ inKeyOrder set, set.lookup row.1 = some row.2 := fun row member =>
    Table.mem_rows.1 ((List.mem_insertionSort _).1 member)
  unfold keyed
  refine List.foldlRecOn (motive := fun out : Table Pair β => out.lookup p = some v →
    ∃ w, set.lookup w = some v ∧ p.1 ∈ sub w.1 ∧ p.2 ∈ sub w.2) _ _ (fun found => ?_) fun out ih row member found => ?_
  · rw [AList.lookup_empty] at found
    cases found
  · rw [insertAll_lookup] at found
    split at found
    · next collapses =>
        obtain ⟨w, one, both⟩ := mem_pairs.1 collapses
        rw [List.mem_singleton.1 one] at both
        exact ⟨row.1, (rows row member).trans found, both⟩
    · exact ih found

/-- A wire that is set sets every pair it collapses onto. -/
theorem keyed_complete {w : Pair} (isSet : set.lookup w = some v) (first : p.1 ∈ sub w.1) (second : p.2 ∈ sub w.2) :
    ∃ v', (keyed sub set).lookup p = some v' := by
  have row : (w, v) ∈ inKeyOrder set := (List.mem_insertionSort _).2 (Table.mem_rows.2 isSet)
  unfold keyed
  have reached : ∀ (rows : List (Pair × β)) (out : Table Pair β), (w, v) ∈ rows ∨ (∃ v', out.lookup p = some v') →
      ∃ v', (rows.foldl (fun out row => (pairs sub [row.1]).foldl (fun out q => out.insert q row.2) out)
        out).lookup p = some v' := by
    intro rows
    induction rows with
    | nil => exact fun out known => known.resolve_left List.not_mem_nil
    | cons r rows ih =>
      intro out known
      refine ih _ ?_
      rw [insertAll_lookup]
      split
      · exact .inr ⟨_, rfl⟩
      · next missed =>
          rcases known with member | known
          · refine (List.mem_cons.1 member).symm.imp_right fun same => ?_
            subst same
            exact absurd (mem_pairs.2 ⟨w, List.mem_singleton_self _, first, second⟩) missed
          · exact .inr known
  exact reached _ _ (.inl row)

/-- Settings follow their wires exactly where no two that differ meet. -/
theorem keyed_carries {ends : NodeId → Multiset NodeId} {wires : List Pair}
    (resolves : ∀ w ∈ wires, (sub w.1 : Multiset NodeId) = ends w.1 ∧ (sub w.2 : Multiset NodeId) = ends w.2)
    (onWires : ∀ w ∈ set, w ∈ wires) :
    Follows ends wires set (pairs sub wires) (keyed sub set) ↔ Agreeing ends set := by
  have mem : ∀ w v, set.lookup w = some v → (∀ x, x ∈ ends w.1 ↔ x ∈ sub w.1) ∧ ∀ y, y ∈ ends w.2 ↔ y ∈ sub w.2 := by
    intro w v isSet
    obtain ⟨first, second⟩ := resolves w (onWires w (Table.mem_of_lookup isSet))
    rw [← first, ← second]
    exact ⟨fun x => Multiset.mem_coe, fun y => Multiset.mem_coe⟩
  constructor
  · intro follows w v w' v' isSet isSet' x here there y here' there'
    have one := follows.carried w (onWires w (Table.mem_of_lookup isSet)) v isSet x here y here'
    have two := follows.carried w' (onWires w' (Table.mem_of_lookup isSet')) v' isSet' x there y there'
    exact Option.some.inj (one.symm.trans two)
  · intro agreeing
    refine ⟨fun w _ v isSet x first y second => ?_, fun p set_ => ?_⟩
    · obtain ⟨v', found⟩ := keyed_complete (p := (x, y)) isSet (((mem w v isSet).1 x).1 first)
        (((mem w v isSet).2 y).1 second)
      obtain ⟨w', isSet', first', second'⟩ := keyed_sound found
      rw [found, agreeing w v w' v' isSet isSet' x first (((mem w' v' isSet').1 x).2 first') y second
        (((mem w' v' isSet').2 y).2 second')]
    · obtain ⟨v, found⟩ := Table.mem_iff_lookup.1 set_
      obtain ⟨w, isSet, both⟩ := keyed_sound found
      exact mem_pairs.2 ⟨w, onWires w (Table.mem_of_lookup isSet), both⟩

/-- Nothing is carried where the live settings are empty. -/
theorem empty_carries {ends : NodeId → Multiset NodeId} {wires liveWires : List Pair}
    (onWires : ∀ w ∈ set, w ∈ wires) : Follows ends wires set liveWires ∅ ↔ Silent ends set := by
  constructor
  · intro follows w isSet
    obtain ⟨v, found⟩ := Table.mem_iff_lookup.1 isSet
    by_contra live
    rw [not_or] at live
    obtain ⟨x, first⟩ := Multiset.exists_mem_of_ne_zero live.1
    obtain ⟨y, second⟩ := Multiset.exists_mem_of_ne_zero live.2
    have none_ := follows.carried w (onWires w isSet) v found x first y second
    rw [AList.lookup_empty] at none_
    cases none_
  · intro silent
    refine ⟨fun w _ v found x first y second => ?_, fun p member => absurd member (AList.notMem_empty p)⟩
    rcases silent w (Table.mem_of_lookup found) with gone | gone
    · rw [gone] at first
      exact absurd first (Multiset.notMem_zero x)
    · rw [gone] at second
      exact absurd second (Multiset.notMem_zero y)

end Keyed

/-! ## A document's settings -/

/-- Every setting is on a wire of its relation, as a file is read. -/
structure OnWires (ws : Workspace) : Prop where
  mounts : ∀ w ∈ ws.mountPaths, w ∈ ws.connections
  serves : ∀ w ∈ ws.servePorts, w ∈ ws.serves
  channels : ∀ w ∈ ws.midiChannels, w ∈ ws.midi

/-- The settings of an instance's wires are those of the definition's. -/
structure OverridesFollow (dg : Digests) (i : Instance) (s : Scope) : Prop where
  mounts : Follows (resolve dg s.levels) s.level.defn.connections s.level.defn.mountPaths
    i.content.connections i.content.mountPaths
  serves : Follows (resolve dg s.levels) s.level.defn.serves s.level.defn.servePorts
    i.content.serves i.content.servePorts
  channels : Follows (resolve dg s.levels) s.level.defn.midi s.level.defn.midiChannels
    i.content.midi i.content.midiChannels

/-- No channel is set on a wire that is live, and no two mount paths or container ports
that differ are set on one live wire. -/
structure Settled (dg : Digests) (s : Scope) : Prop where
  mounts : Agreeing (resolve dg s.levels) s.level.defn.mountPaths
  serves : Agreeing (resolve dg s.levels) s.level.defn.servePorts
  channels : Silent (resolve dg s.levels) s.level.defn.midiChannels

section Documents

variable {dg : Digests} {doc : Document} {out : List Instance}

theorem overridesFollow_iff {i : Instance} {s : Scope} (stands : Embodies dg i s)
    (apart : ∀ lv ∈ s.levels, Set.InjOn (dg.derive lv.inst) {a | Mentions lv.defn a})
    (onWires : OnWires s.level.defn) : OverridesFollow dg i s ↔ Settled dg s := by
  obtain ⟨ports, content, resolves⟩ := stands.content
  have carries := fun {γ : Type} {set : Table Pair γ} {r : WireRel} (on : ∀ w ∈ set, w ∈ s.level.defn.links r) =>
    keyed_carries (fun w laid => ⟨resolves apart _ (mentions_ends laid).1, resolves apart _ (mentions_ends laid).2⟩) on
  have mounts : Follows (resolve dg s.levels) s.level.defn.connections s.level.defn.mountPaths
      i.content.connections i.content.mountPaths ↔
        Agreeing (resolve dg s.levels) s.level.defn.mountPaths := by
    rw [content]
    exact carries onWires.mounts
  have serves : Follows (resolve dg s.levels) s.level.defn.serves s.level.defn.servePorts
      i.content.serves i.content.servePorts ↔
        Agreeing (resolve dg s.levels) s.level.defn.servePorts := by
    rw [content]
    exact carries onWires.serves
  have channels : Follows (resolve dg s.levels) s.level.defn.midi s.level.defn.midiChannels
      i.content.midi i.content.midiChannels ↔
        Silent (resolve dg s.levels) s.level.defn.midiChannels := by
    rw [content]
    exact empty_carries onWires.channels
  exact ⟨fun follows => ⟨mounts.1 follows.mounts, serves.1 follows.serves, channels.1 follows.channels⟩,
    fun settled => ⟨mounts.2 settled.mounts, serves.2 settled.serves, channels.2 settled.channels⟩⟩

/-- Two lists related element by element, of which each relation is a fact about the
second. -/
theorem forall₂_iff_forall {α γ : Type} {R P : α → γ → Prop} {Q : γ → Prop} : ∀ {xs : List α} {ys : List γ},
    List.Forall₂ R xs ys → (∀ a, ∀ b ∈ ys, R a b → (P a b ↔ Q b)) → (List.Forall₂ P xs ys ↔ ∀ b ∈ ys, Q b)
  | _, _, .nil, _ => by simp
  | _, _, .cons related rest, facts => by
    rw [List.forall₂_cons, List.forall_mem_cons, facts _ _ List.mem_cons_self related,
      forall₂_iff_forall rest fun a b member => facts a b (List.mem_cons_of_mem _ member)]

/-- **Settings follow their wires** exactly where no channel is set on a live wire and no
two other settings that differ meet. -/
theorem overrides_follow_iff (apart : InnerApart dg doc)
    (onWires : ∀ ws ∈ doc.workspaces, OnWires ws) (expanded : expand dg doc = .ok out) :
    List.Forall₂ (OverridesFollow dg) out (scopes dg doc) ↔ ∀ s ∈ scopes dg doc, Settled dg s :=
  forall₂_iff_forall (expand_scopes expanded) fun _ _ written stands =>
    overridesFollow_iff stands (apart.levels written) (onWires _ (mem_scopes written).2)

end Documents

/-! ## Poles -/

/-- A definition that mounts a volume under a path of its own. -/
def mountedDefinition : Workspace where
  id := 20
  name := some "voice"
  tab := false
  nodes := [{ id := 21, kind := .volume "samples" false }, { id := 22, kind := .app "synth" none [] [] none }]
  links := fun r => match r with
    | .connection => [(21, 22)]
    | _ => []
  mountPaths := Table.ofRows [((21, 22), "/samples")]

def mountedDocument : Document where
  workspaces := [{ id := 1, nodes := [{ id := 3, kind := .group "voice" none [] [] }] }, mountedDefinition]

/-- A `voice` whose in-port feeds its app on one channel. -/
def channelDefinition : Workspace := { voiceDefinition with midiChannels := Table.ofRows [((21, 22), 2)] }

def channelDocument : Document where
  workspaces := [
    { id := 1
      nodes := [{ id := 2, kind := .app "keys" none [] [] none },
        { id := 3, kind := .group "voice" none [("n", 2)] [] }] },
    channelDefinition]

/-- The mount path of a definition is the instance's. -/
theorem voices_mounted :
    ∃ out, expand Digests.apart mountedDocument = .ok out ∧
      (List.Forall₂ (OverridesFollow Digests.apart) out (scopes Digests.apart mountedDocument) ↔
        ∀ s ∈ scopes Digests.apart mountedDocument, Settled Digests.apart s) := by
  obtain ⟨out, expanded, _⟩ : ∃ out, expand Digests.apart mountedDocument = .ok out ∧ out.length = 1 :=
    ok_of_observed (by decide)
  refine ⟨out, expanded, overrides_follow_iff (apart_collisionFree (by decide)).inner (fun ws member => ?_) expanded⟩
  have cases_ : ws = { id := 1, nodes := [{ id := 3, kind := .group "voice" none [] [] }] } ∨ ws = mountedDefinition := by
    simpa [mountedDocument] using member
  rcases cases_ with rfl | rfl
  · exact ⟨fun w on => absurd on (AList.notMem_empty w), fun w on => absurd on (AList.notMem_empty w),
      fun w on => absurd on (AList.notMem_empty w)⟩
  · refine ⟨fun w on => ?_, fun w on => absurd on (AList.notMem_empty w), fun w on => absurd on (AList.notMem_empty w)⟩
    have key : w = (21, 22) := by simpa [AList.mem_keys, mountedDefinition, Table.ofRows, AList.keys] using on
    rw [key]
    decide

/-- The channel set on a definition's wire is set on no wire of the instance. -/
theorem channel_forgotten :
    channelDefinition.midiChannels.lookup (21, 22) = some 2 ∧
    (expand Digests.apart channelDocument).toOption.map (fun out => out.map fun i =>
        (i.content.midi, i.content.midiChannels.lookup (2, 1000 + 2 * Nat.pair 3 22))) =
      some [([(2, 1000 + 2 * Nat.pair 3 22)], none)] ∧
    ∀ out, expand Digests.apart channelDocument = .ok out →
      ¬ List.Forall₂ (OverridesFollow Digests.apart) out (scopes Digests.apart channelDocument) := by
  refine ⟨by decide, by decide, fun out expanded follows => ?_⟩
  have seen : ((scopes Digests.apart channelDocument).map fun s =>
      (s.level.defn.midiChannels.lookup (21, 22), decide ((21, 22) ∈ s.level.defn.midi),
        decide (2 ∈ resolve Digests.apart s.levels 21),
        decide (1000 + 2 * Nat.pair 3 22 ∈ resolve Digests.apart s.levels 22))) = [(some 2, true, true, true)] := by
    decide
  obtain ⟨s, written, facts⟩ := List.map_eq_singleton_iff.1 seen
  simp only [Prod.mk.injEq, decide_eq_true_eq] at facts
  have stands := expand_scopes expanded
  rw [written] at follows stands
  cases follows with
  | cons followed _ =>
    cases stands with
    | cons stood _ =>
      obtain ⟨ports, content, _⟩ := stood.content
      have carried := followed.channels.carried _ facts.2.1 2 facts.1 _ facts.2.2.1 _ facts.2.2.2
      rw [content] at carried
      cases carried

end Wk.Instancing
