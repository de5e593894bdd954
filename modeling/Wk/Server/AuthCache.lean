/-
# Wk.Server.AuthCache -- the memoized authorization is transparent

`node_may_use` remembers its decisions under a fingerprint of the node's token and wires.
A `Warden` is what that takes: the graph with the edits that led to it, the key and base
token of the enforcement, and the cache.  It meets any edits of the graph, swaps of tokens
and of the enforcement itself, and questions, in any order (`Event`).

* `decisions_agree`: while no two circumstances that are hashed share a fingerprint, every
  answer is the one that would be decided anew in the state it was asked in.

Poles: `no_token_no_check` (a node that is no app is not asked for a token).
-/
import Wk.Server.State
import Wk.Library.Memo

namespace Wk

open Wk.Library

set_option autoImplicit false

/-- What the token library and the hasher answer. -/
structure Authority where
  Key : Type
  /-- `Biscuit::from` takes the token under this key. -/
  verifies : Key → Bytes → Bool
  /-- Whether the token's Datalog derives `can_use` from the wires. -/
  authorizeUse : Key → Bytes → List (String × String) → String → String → String → Bool
  /-- The hash of a token and a wire list. -/
  fingerprint : Bytes × List (String × NodeId) → UInt64

/-- Whether node `id` may perform `action` on `(kind, target)`. -/
structure Question where
  id : NodeId
  kind : String
  target : NodeId
  action : String
  deriving DecidableEq, Repr

/-- The part of the server that decides what tokens allow. -/
structure Warden (A : Authority) (start : Graph) where
  history : History start
  nodeAuth : Option (A.Key × Bytes) := none
  authCache : Memo Question UInt64 Bool := ∅

namespace Warden

variable {A : Authority} {start : Graph}

def graph (s : Warden A start) : Graph := s.history.graph

/-! ## Deciding -/

/-- The token and the wires a decision about `id` goes by. -/
def circumstances (s : Warden A start) (base : Bytes) (id : NodeId) : Bytes × List (String × NodeId) :=
  ((s.graph.nodeTokens.lookup id).getD base, s.graph.wiresOf id)

/-- What `authorize_use` returns in these circumstances. -/
def authorized (key : A.Key) (q : Question) (c : Bytes × List (String × NodeId)) : Bool :=
  A.authorizeUse key c.1 (c.2.map fun w => (w.1, NodeId.toText w.2)) q.kind (NodeId.toText q.target) q.action

/-- Decide, or remember the decision. -/
def nodeMayUse (s : Warden A start) (q : Question) : Bool × Warden A start :=
  match s.nodeAuth with
  | none => (true, s)
  | some (key, base) =>
    if s.graph.kindOf q.id ≠ some .app then (true, s)
    else
      let (ok, cache) :=
        Memo.consult A.fingerprint (authorized key) s.authCache q (s.circumstances base q.id)
      (ok, { s with authCache := cache })

/-! ## Changes -/

/-- Forget the decisions about a node. -/
def purge (s : Warden A start) (id : NodeId) : Warden A start :=
  { s with authCache := Table.retain (fun q _ => q.id ≠ id) s.authCache }

/-- Edit the graph; a removed node's decisions go with it. -/
def perform (s : Warden A start) (e : Edit) : Warden A start :=
  let after := { s with history := s.history.perform e }
  match e with
  | .remove _ id => if id ∈ s.graph.nodes then after.purge id else after
  | _ => after

/-- Turn on enforcement. -/
def setNodeAuth (s : Warden A start) (key : A.Key) (base : Bytes) : Warden A start :=
  { history := s.history.perform (.keepTokens (A.verifies key))
    nodeAuth := some (key, base)
    authCache := ∅ }

/-- Replace (or, with empty bytes, reset) an app node's token. -/
def setNodeToken (s : Warden A start) (id : NodeId) (token : Bytes) : Warden A start :=
  if s.graph.kindOf id ≠ some .app then s
  else if token = [] then (s.perform (.update id .noToken)).purge id
  else if s.nodeAuth.any fun auth => !A.verifies auth.1 token then s
  else (s.perform (.update id (.token token))).purge id

/-- Undo a token swap. -/
def undoToken (s : Warden A start) (id : NodeId) (old : Option Bytes) : Warden A start :=
  if id ∉ s.graph.nodes then s
  else
    match old with
    | some token => (s.perform (.update id (.token token))).purge id
    | none => (s.perform (.update id .noToken)).purge id

end Warden

/-! ## Runs -/

inductive Event (A : Authority) where
  | edit (e : Edit)
  | setNodeAuth (key : A.Key) (base : Bytes)
  | setNodeToken (id : NodeId) (token : Bytes)
  | undoToken (id : NodeId) (old : Option Bytes)
  | ask (q : Question)

/-- A question, the state it was asked in and the answer it got. -/
structure Decision (A : Authority) (start : Graph) where
  state : Warden A start
  question : Question
  answer : Bool

namespace Warden

variable {A : Authority} {start : Graph}

def step (s : Warden A start) : Event A → Warden A start
  | .edit e => s.perform e
  | .setNodeAuth key base => s.setNodeAuth key base
  | .setNodeToken id token => s.setNodeToken id token
  | .undoToken id old => s.undoToken id old
  | .ask q => (s.nodeMayUse q).2

/-- The decisions of a run, in order. -/
def decisions (s : Warden A start) : List (Event A) → List (Decision A start)
  | [] => []
  | .ask q :: events => ⟨s, q, (s.nodeMayUse q).1⟩ :: (s.nodeMayUse q).2.decisions events
  | e :: events => (s.step e).decisions events

/-- Before anything is configured. -/
def init (A : Authority) (start : Graph) : Warden A start := { history := .empty start }

/-! ## Transparency -/

/-- The key and the circumstances a decision about `id` goes by: for an app, with
enforcement on. -/
def basis (s : Warden A start) (id : NodeId) : Option (A.Key × Bytes × List (String × NodeId)) :=
  match s.nodeAuth with
  | none => none
  | some (key, base) => if s.graph.kindOf id = some .app then some (key, s.circumstances base id) else none

/-- The decision, made anew: what `authorize_use` returns, and yes where it is not asked. -/
def verdict (s : Warden A start) (q : Question) : Bool :=
  match s.basis q.id with
  | none => true
  | some (key, c) => authorized key q c

/-- The rest of the server's model goes by the verdict. -/
theorem verdict_eq_nodeMayUse {s : Warden A start} {w : World} {key : A.Key} {base : Bytes} (q : Question)
    (on : s.nodeAuth = some (key, base))
    (same : ∀ c, w.authorizeUse c.1 c.2 q.kind q.target q.action = authorized key q c) :
    s.verdict q = s.graph.nodeMayUse w (some base) q.id q.kind q.target q.action := by
  unfold verdict basis Graph.nodeMayUse
  rw [on]
  by_cases app : s.graph.kindOf q.id = some .app
  · simp only [app, if_true, ne_eq, not_true_eq_false, if_false]
    exact (same (s.circumstances base q.id)).symm
  · simp only [app, if_false, ne_eq, not_false_eq_true, if_true]

/-- The circumstances a run hashes. -/
def hashed (ds : List (Decision A start)) : List (Bytes × List (String × NodeId)) :=
  ds.filterMap fun d => (d.state.basis d.question.id).map Prod.snd

/-- No two of them share a fingerprint. -/
def CollisionFree (A : Authority) (cs : List (Bytes × List (String × NodeId))) : Prop :=
  ∀ c ∈ cs, ∀ c' ∈ cs, A.fingerprint c = A.fingerprint c' → c = c'

instance (cs : List (Bytes × List (String × NodeId))) : Decidable (CollisionFree A cs) :=
  inferInstanceAs (Decidable (∀ c ∈ cs, ∀ c' ∈ cs, A.fingerprint c = A.fingerprint c' → c = c'))

/-- What is remembered was decided under the present key, in circumstances of the run. -/
def Fresh (seen : List (Bytes × List (String × NodeId))) (s : Warden A start) : Prop :=
  ∀ key base, s.nodeAuth = some (key, base) →
    Memo.Sound A.fingerprint (authorized key) (fun c => c ∈ seen) s.authCache

variable {s : Warden A start} {seen : List (Bytes × List (String × NodeId))}

theorem Fresh.purge (id : NodeId) (fresh : Fresh seen s) : Fresh seen (s.purge id) := by
  intro key base on
  exact (fresh key base on).retain fun q => q.id ≠ id

theorem Fresh.perform (e : Edit) (fresh : Fresh seen s) : Fresh seen (s.perform e) := by
  have after : Fresh seen { s with history := s.history.perform e } := fresh
  cases e with
  | remove order id =>
    rw [Warden.perform]
    split
    · exact after.purge id
    · exact after
  | _ => exact after

theorem Fresh.setNodeToken (id : NodeId) (token : Bytes) (fresh : Fresh seen s) :
    Fresh seen (s.setNodeToken id token) := by
  unfold Warden.setNodeToken
  split
  · exact fresh
  split
  · exact (fresh.perform _).purge id
  split
  · exact fresh
  · exact (fresh.perform _).purge id

theorem Fresh.undoToken (id : NodeId) (old : Option Bytes) (fresh : Fresh seen s) :
    Fresh seen (s.undoToken id old) := by
  unfold Warden.undoToken
  split
  · exact fresh
  · cases old <;> exact (fresh.perform _).purge id

/-- Where nothing goes by a token, the answer is yes and nothing is remembered. -/
theorem nodeMayUse_free {q : Question} (free : s.basis q.id = none) : s.nodeMayUse q = (true, s) := by
  unfold basis at free
  unfold nodeMayUse
  split at free
  · rfl
  · next key base on =>
      split at free
      · cases free
      · next other =>
          rw [on]
          exact if_pos other

theorem nodeMayUse_guarded {q : Question} {key : A.Key} {c : Bytes × List (String × NodeId)}
    (basis : s.basis q.id = some (key, c)) :
    s.nodeMayUse q = ((Memo.consult A.fingerprint (authorized key) s.authCache q c).1,
      { s with authCache := (Memo.consult A.fingerprint (authorized key) s.authCache q c).2 }) ∧
      ∃ base, s.nodeAuth = some (key, base) := by
  unfold Warden.basis at basis
  split at basis
  · cases basis
  · next key' base on =>
      split at basis
      · next app =>
          cases basis
          refine ⟨?_, base, on⟩
          unfold nodeMayUse
          rw [on]
          exact if_neg (not_not_intro app)
      · cases basis

/-- One question: the answer is the verdict, and what is remembered stays true. -/
theorem Fresh.ask {q : Question} (fresh : Fresh seen s)
    (here : ∀ key c, s.basis q.id = some (key, c) → c ∈ seen) (apart : CollisionFree A seen) :
    (s.nodeMayUse q).1 = s.verdict q ∧ Fresh seen (s.nodeMayUse q).2 := by
  cases basis : s.basis q.id with
  | none =>
    rw [nodeMayUse_free basis, verdict, basis]
    exact ⟨rfl, fresh⟩
  | some given =>
    obtain ⟨key, c⟩ := given
    obtain ⟨answers, base, on⟩ := nodeMayUse_guarded basis
    have sound := fresh key base on
    have member := here key c basis
    rw [answers, verdict, basis]
    refine ⟨Memo.consult_eq sound member fun there there' => apart _ there _ there', ?_⟩
    intro key' base' on'
    obtain ⟨rfl, rfl⟩ : key = key' ∧ base = base' := by simpa using on.symm.trans on'
    exact Memo.consult_sound sound member

theorem Fresh.step {e : Event A} (fresh : Fresh seen s) (change : ∀ q, e ≠ .ask q) :
    Fresh seen (s.step e) := by
  cases e with
  | edit e => exact fresh.perform e
  | setNodeAuth key base => exact fun _ _ _ => Memo.sound_empty
  | setNodeToken id token => exact fresh.setNodeToken id token
  | undoToken id old => exact fresh.undoToken id old
  | ask q => exact absurd rfl (change q)

theorem Fresh.decisions (apart : CollisionFree A seen) :
    ∀ (events : List (Event A)) (s : Warden A start), Fresh seen s →
      (∀ c ∈ hashed (s.decisions events), c ∈ seen) →
        ∀ d ∈ s.decisions events, d.answer = d.state.verdict d.question
  | [], _, _, _, _, member => by cases member
  | e :: events, s, fresh, known, d, member => by
    by_cases asks : ∃ q, e = .ask q
    · obtain ⟨q, rfl⟩ := asks
      rw [Warden.decisions] at known member
      have here : ∀ key c, s.basis q.id = some (key, c) → c ∈ seen := by
        intro key c basis
        exact known c (List.mem_filterMap.2 ⟨_, List.mem_cons_self, by rw [basis]; rfl⟩)
      obtain ⟨agrees, still⟩ := fresh.ask here apart
      obtain rfl | member := List.mem_cons.1 member
      · exact agrees
      · refine Fresh.decisions apart events _ still (fun c there => known c ?_) d member
        obtain ⟨d, there, hashes⟩ := List.mem_filterMap.1 there
        exact List.mem_filterMap.2 ⟨d, List.mem_cons_of_mem _ there, hashes⟩
    · have change : ∀ q, e ≠ .ask q := fun q asked => asks ⟨q, asked⟩
      have rest : s.decisions (e :: events) = (s.step e).decisions events := by
        cases e with
        | ask q => exact absurd rfl (change q)
        | _ => rfl
      rw [rest] at known member
      exact Fresh.decisions apart events _ (fresh.step change) known d member

/-- **The cache is transparent**: in any run, every answer is the decision made anew. -/
theorem decisions_agree (A : Authority) (start : Graph) (events : List (Event A))
    (apart : CollisionFree A (hashed ((init A start).decisions events))) :
    ∀ d ∈ (init A start).decisions events, d.answer = d.state.verdict d.question :=
  Fresh.decisions apart events _ (fun _ _ on => by cases on) fun _ member => member

/-- A token that lets an app use what it is wired to. -/
def wiredOnly : Authority where
  Key := Unit
  verifies := fun _ _ => true
  authorizeUse := fun _ _ wires kind target _ => wires.contains (kind, target)
  fingerprint := fun c =>
    c.2.foldl (fun h w => h * 31 + w.2.toUInt64) (c.1.foldl (fun h b => h * 31 + b.toUInt64) 7)

/-- App 1 is wired to volume 2, asks for it, is parted from it and asks again. -/
def parting : List (Event wiredOnly) :=
  [.edit (.place 1 0 default default (.app "dep" "app" [] none)),
    .edit (.place 2 0 default default (.file (.volume "data" 0 false))),
    .edit (.toggle .connection 2 1), .setNodeAuth () [1], .ask ⟨1, "file", 2, "read"⟩,
    .edit (.toggle .connection 2 1), .ask ⟨1, "file", 2, "read"⟩]

theorem decisions_agree_parting :
    (((init wiredOnly {}).decisions parting).map Decision.answer = [true, false]) ∧
      ∀ d ∈ (init wiredOnly {}).decisions parting, d.answer = d.state.verdict d.question :=
  ⟨by decide +kernel, decisions_agree wiredOnly {} parting (by decide +kernel)⟩

/-- A node that is no app is not asked for a token: it may use what the token in its name
does not allow. -/
theorem no_token_no_check : ¬ ∀ (A : Authority) (start : Graph) (events : List (Event A)),
    CollisionFree A (hashed ((init A start).decisions events)) →
      ∀ d ∈ (init A start).decisions events, ∀ key base, d.state.nodeAuth = some (key, base) →
        d.answer = authorized key d.question (d.state.circumstances base d.question.id) := by
  intro all
  let events : List (Event wiredOnly) :=
    [.edit (.place 1 0 default default (.midiIn "keys")), .setNodeAuth () [1], .ask ⟨1, "midi", 2, "write"⟩]
  have agrees := all wiredOnly {} events (by decide +kernel) _ (List.mem_singleton.2 rfl) () [1] rfl
  exact absurd agrees (by decide +kernel)

end Warden

end Wk
