/-
# Wk.Server.Serves -- the localhost servers

A serve link asks for a localhost server on its HostPort's number.  `Serves` is the
running half of that relation: which node is served through which HostPort, and the
kill switches.  `sync` stops what is no longer serviceable and starts what is; a
HostPort's edit, a container port's, a removal and every tick end in one.

* `Serves.sync_good`: a reconciliation leaves one server for each port, each for a
  serviceable link, and no server that was stopped unkilled.
* `Publishing.step_keeps`: so does every step of the server.
* `one_server_per_port`: what holds of the running servers in every reachable state.

Poles: `ports_contended` (two nodes wired to equal ports, and the second served once
the first has stopped).
-/
import Wk.Server.Effects

namespace Wk

open Wk.Library

set_option autoImplicit false

/-- What the machine answers while the servers are reconciled. -/
structure Scene where
  /-- Whether there is a live app node under this id. -/
  live : NodeId → Bool
  /-- The component a wasi:http node serves, once compiled. -/
  httpPath : NodeId → Option String
  /-- The fabric stack of a node that imports sockets, once compiled. -/
  netStack : NodeId → Option Nat
  running : NodeId → Bool
  /-- Serve a component on a localhost port. -/
  serve : String → Nat → Except String Unit
  /-- Forward a localhost port to a stack's own port. -/
  forward : Nat → Nat → Nat → Except String Unit
  /-- The order in which a hash map yields keys. -/
  ids : List NodeId → List NodeId
  ids_perm : ∀ l, (ids l).Perm l

/-- The machine once a node is gone. -/
def Scene.without (sc : Scene) (id : NodeId) : Scene := { sc with live := fun n => n ≠ id && sc.live n }

/-- Whether a node can be served right now: a wasi:http node once it is compiled, a
fabric node while its guest runs. -/
def Scene.ready (sc : Scene) (http : NodeId) : Bool :=
  sc.live http && ((sc.httpPath http).isSome || ((sc.netStack http).isSome && sc.running http))

/-- The guest port a serve wire forwards to: its own mapping, else the HostPort's. -/
def Graph.servePortFor (g : Graph) (served hostport : NodeId) (hostPort : Nat) : Nat :=
  (g.servePorts.lookup (served, hostport)).getD hostPort

/-- The running servers. -/
structure Serves where
  /-- Served node, to its HostPort and kill switch. -/
  serves : Table NodeId (NodeId × Nat) := ∅
  portErrors : Table NodeId String := ∅
  /-- The switches that have been set. -/
  killed : List Nat := []
  /-- How many switches have been made. -/
  switches : Nat := 0
  /-- Every server ever started. -/
  begun : List (NodeId × NodeId × Nat) := []
  /-- The links that were serviceable when the servers were last reconciled. -/
  asOf : List Pair := []

namespace Serves

/-! ## Starting and stopping -/

/-- Whether some other node is already serving this port. -/
def portServedByOther (g : Graph) (v : Serves) (port : Nat) (except : NodeId) : Bool :=
  v.serves.rows.any fun row => row.1 ≠ except && g.hostPorts.lookup row.2.1 = some port

/-- Try to bind the server for one desired link. -/
def startServe (sc : Scene) (g : Graph) (v : Serves) (http hostport : NodeId) : Serves :=
  if !sc.live http then v
  else match g.hostPorts.lookup hostport with
    | none => v
    | some port =>
      if v.portServedByOther g port http then v
      else
        let kill := v.switches
        let v := { v with switches := v.switches + 1 }
        let bound := match sc.httpPath http with
          | some path => some (sc.serve path port)
          | none => (sc.netStack http).map fun stack =>
            sc.forward stack port (g.servePortFor http hostport port)
        match bound with
        | none => v
        | some (.error e) =>
          { v with portErrors := v.portErrors.insert hostport s!"localhost:{port} unavailable: {e}" }
        | some (.ok _) =>
          { v with
            portErrors := v.portErrors.erase hostport
            serves := v.serves.insert http (hostport, kill)
            begun := (http, hostport, kill) :: v.begun }

/-- Take a server off the map and set its kill switch. -/
def stop (v : Serves) (http : NodeId) : Serves :=
  match v.serves.lookup http with
  | some (_, kill) => { v with serves := v.serves.erase http, killed := kill :: v.killed }
  | none => v

/-- Stop a server that is no longer desired; what its HostPort reported goes with it. -/
def stopStale (v : Serves) (http : NodeId) : Serves :=
  match v.serves.lookup http with
  | some (hostport, _) => { v.stop http with portErrors := v.portErrors.erase hostport }
  | none => v

/-- The links that can be served right now: the node is ready and its token allows the
publish. -/
def serviceable (w : World) (sc : Scene) (auth : Option Bytes) (g : Graph) : List Pair :=
  g.serveLinks.filter fun l => sc.ready l.1 && g.nodeMayUse w auth l.1 "port" l.2 "use"

/-- Start one desired server, unless it is running. -/
def startMissing (sc : Scene) (g : Graph) (desired : Table NodeId NodeId) (v : Serves) (http : NodeId) : Serves :=
  match desired.lookup http with
  | some hostport => if http ∈ v.serves then v else v.startServe sc g http hostport
  | none => v

/-- Reconcile the running servers with the serve links. -/
def sync (w : World) (sc : Scene) (auth : Option Bytes) (g : Graph) (v : Serves) : Serves :=
  let asOf := serviceable w sc auth g
  let desired := Table.ofRows asOf
  let stale := (sc.ids v.serves.keys).filter fun http =>
    desired.lookup http ≠ (v.serves.lookup http).map Prod.fst
  let v := stale.foldl stopStale { v with asOf }
  let v := (sc.ids desired.keys).foldl (startMissing sc g desired) v
  let served := g.serveLinks.map Prod.snd
  { v with portErrors := Table.retain (fun hp _ => served.contains hp) v.portErrors }

/-! ## What holds of them -/

/-- No two servers are bound through HostPorts of one number. -/
def OnePerPort (g : Graph) (v : Serves) : Prop :=
  ∀ a b (hpA hpB : NodeId) (killA killB port : Nat),
    v.serves.lookup a = some (hpA, killA) → v.serves.lookup b = some (hpB, killB) →
      g.hostPorts.lookup hpA = some port → g.hostPorts.lookup hpB = some port → a = b

/-- Every server is for a link that was serviceable when they were last reconciled. -/
def Current (v : Serves) : Prop :=
  ∀ http hostport kill, v.serves.lookup http = some (hostport, kill) → (http, hostport) ∈ v.asOf

/-- A server that is no longer on the map has its kill switch set. -/
def Accounted (v : Serves) : Prop :=
  ∀ http hostport kill, (http, hostport, kill) ∈ v.begun →
    v.serves.lookup http = some (hostport, kill) ∨ kill ∈ v.killed

/-- Every server's HostPort has a number. -/
def Numbered (g : Graph) (v : Serves) : Prop :=
  ∀ http hostport kill, v.serves.lookup http = some (hostport, kill) → hostport ∈ g.hostPorts

structure Good (g : Graph) (v : Serves) : Prop where
  onePerPort : v.OnePerPort g
  current : v.Current
  accounted : v.Accounted
  numbered : v.Numbered g

/-! ## Stopping -/

/-- `v'` is `v` with some servers stopped. -/
structure Sheds (v v' : Serves) : Prop where
  fewer : ∀ n server, v'.serves.lookup n = some server → v.serves.lookup n = some server
  killed : ∀ n hostport kill, v.serves.lookup n = some (hostport, kill) →
    v'.serves.lookup n = some (hostport, kill) ∨ kill ∈ v'.killed
  kept : ∀ kill ∈ v.killed, kill ∈ v'.killed
  begun : v'.begun = v.begun
  asOf : v'.asOf = v.asOf

section Stopping

variable {g : Graph} {v v' v'' : Serves}

theorem Sheds.refl (v : Serves) : Sheds v v := ⟨fun _ _ => id, fun _ _ _ => .inl, fun _ => id, rfl, rfl⟩

theorem Sheds.trans (first : Sheds v v') (second : Sheds v' v'') : Sheds v v'' where
  fewer := fun n server here => first.fewer n server (second.fewer n server here)
  killed := by
    intro n hostport kill here
    rcases first.killed n hostport kill here with still | set
    · exact second.killed n hostport kill still
    · exact .inr (second.kept kill set)
  kept := fun kill set => second.kept kill (first.kept kill set)
  begun := second.begun.trans first.begun
  asOf := second.asOf.trans first.asOf

theorem lookup_stop (v : Serves) (http n : NodeId) :
    (v.stop http).serves.lookup n = if n = http then none else v.serves.lookup n := by
  unfold stop
  split
  · rw [Table.lookup_erase_eq]
  · next none =>
      split
      · next same => rw [same, none]
      · rfl

theorem stop_sheds (v : Serves) (http : NodeId) : Sheds v (v.stop http) where
  fewer := by
    intro n server here
    rw [lookup_stop] at here
    split at here
    · cases here
    · exact here
  killed := by
    intro n hostport kill here
    by_cases same : n = http
    · subst same
      unfold stop
      rw [here]
      exact .inr (List.mem_cons_self ..)
    · rw [lookup_stop, if_neg same]
      exact .inl here
  kept := by
    intro kill set
    unfold stop
    split
    · exact List.mem_cons_of_mem _ set
    · exact set
  begun := by
    unfold stop
    split <;> rfl
  asOf := by
    unfold stop
    split <;> rfl

/-- Dropping what a HostPort reported stops nothing more. -/
theorem stopStale_sheds (v : Serves) (http : NodeId) : Sheds v (v.stopStale http) := by
  have stopped := stop_sheds v http
  unfold stopStale
  split
  · exact ⟨stopped.fewer, stopped.killed, stopped.kept, stopped.begun, stopped.asOf⟩
  · exact .refl v

theorem lookup_stopStale (v : Serves) (http : NodeId) : (v.stopStale http).serves.lookup http = none := by
  unfold stopStale
  split
  · exact (lookup_stop v http http).trans (if_pos rfl)
  · next none => exact none

theorem foldl_sheds {halt : Serves → NodeId → Serves} (sheds : ∀ v n, Sheds v (halt v n)) :
    ∀ (xs : List NodeId) (v : Serves), Sheds v (xs.foldl halt v)
  | [], v => .refl v
  | x :: xs, v => (sheds v x).trans (foldl_sheds sheds xs (halt v x))

/-- Each server of a list that is stopped one by one is gone at the end. -/
theorem foldl_gone {halt : Serves → NodeId → Serves} (sheds : ∀ v n, Sheds v (halt v n))
    (gone : ∀ v n, (halt v n).serves.lookup n = none) {n : NodeId} :
    ∀ {xs : List NodeId} (v : Serves), n ∈ xs → (xs.foldl halt v).serves.lookup n = none
  | x :: xs, v, member => by
    rcases List.mem_cons.1 member with rfl | later
    · refine Option.eq_none_iff_forall_ne_some.2 fun server here => ?_
      have before := (foldl_sheds sheds xs (halt v n)).fewer n server here
      exact absurd ((gone v n).symm.trans before) nofun
    · exact foldl_gone sheds gone (halt v x) later

theorem OnePerPort.sheds (one : v.OnePerPort g) (sheds : Sheds v v') : v'.OnePerPort g :=
  fun a b hpA hpB killA killB port hereA hereB =>
    one a b hpA hpB killA killB port (sheds.fewer _ _ hereA) (sheds.fewer _ _ hereB)

theorem Accounted.sheds (accounted : v.Accounted) (sheds : Sheds v v') : v'.Accounted := by
  intro http hostport kill begun
  rw [sheds.begun] at begun
  rcases accounted http hostport kill begun with here | set
  · exact sheds.killed http hostport kill here
  · exact .inr (sheds.kept kill set)

theorem Current.sheds (current : v.Current) (sheds : Sheds v v') : v'.Current := by
  intro http hostport kill here
  rw [sheds.asOf]
  exact current http hostport kill (sheds.fewer _ _ here)

theorem Numbered.sheds (numbered : v.Numbered g) (sheds : Sheds v v') : v'.Numbered g :=
  fun http hostport kill here => numbered http hostport kill (sheds.fewer _ _ here)

end Stopping

/-! ## Starting -/

section Starting

variable {sc : Scene} {g : Graph} {v : Serves}

/-- No other server is bound on a port that none serves. -/
theorem portServedByOther_false {port : Nat} {http : NodeId} (free : ¬v.portServedByOther g port http = true)
    {n hostport : NodeId} {kill : Nat} (here : v.serves.lookup n = some (hostport, kill))
    (numbered : g.hostPorts.lookup hostport = some port) : n = http := by
  by_contra other
  refine free (List.any_eq_true.2 ⟨(n, (hostport, kill)), Table.mem_rows.2 here, ?_⟩)
  simp [other, numbered]

/-- What one start can do: nothing to the map, or one more server on a free port. -/
theorem startServe_cases (sc : Scene) (g : Graph) (v : Serves) (http hostport : NodeId) :
    ((v.startServe sc g http hostport).serves = v.serves ∧ (v.startServe sc g http hostport).begun = v.begun ∧
      (v.startServe sc g http hostport).killed = v.killed ∧ (v.startServe sc g http hostport).asOf = v.asOf) ∨
    ∃ port, g.hostPorts.lookup hostport = some port ∧ ¬v.portServedByOther g port http = true ∧
      (v.startServe sc g http hostport).serves = v.serves.insert http (hostport, v.switches) ∧
      (v.startServe sc g http hostport).begun = (http, hostport, v.switches) :: v.begun ∧
      (v.startServe sc g http hostport).killed = v.killed ∧ (v.startServe sc g http hostport).asOf = v.asOf := by
  unfold startServe
  split
  · exact .inl ⟨rfl, rfl, rfl, rfl⟩
  · split
    · exact .inl ⟨rfl, rfl, rfl, rfl⟩
    · next port numbered =>
        split
        · exact .inl ⟨rfl, rfl, rfl, rfl⟩
        · next free =>
            dsimp only
            split
            · exact .inl ⟨rfl, rfl, rfl, rfl⟩
            · exact .inl ⟨rfl, rfl, rfl, rfl⟩
            · exact .inr ⟨port, numbered, free, rfl, rfl, rfl, rfl⟩

theorem startServe_good {http hostport : NodeId} (good : v.Good g) (wanted : (http, hostport) ∈ v.asOf)
    (idle : http ∉ v.serves) : (v.startServe sc g http hostport).Good g := by
  rcases startServe_cases sc g v http hostport with ⟨serves, begun, killed, asOf⟩ |
    ⟨port, numbered, free, serves, begun, killed, asOf⟩
  · refine ⟨?_, ?_, ?_, ?_⟩
    · simpa only [OnePerPort, serves] using good.onePerPort
    · simpa only [Current, serves, asOf] using good.current
    · simpa only [Accounted, serves, begun, killed] using good.accounted
    · simpa only [Numbered, serves] using good.numbered
  · have lookup : ∀ n, (v.startServe sc g http hostport).serves.lookup n =
        if n = http then some (hostport, v.switches) else v.serves.lookup n := by
      intro n
      rw [serves, Table.lookup_insert_eq]
    -- The new server, or one that was running.
    have split : ∀ n hp kill, (v.startServe sc g http hostport).serves.lookup n = some (hp, kill) →
        (n = http ∧ hp = hostport) ∨ (n ≠ http ∧ v.serves.lookup n = some (hp, kill)) := by
      intro n hp kill here
      rw [lookup] at here
      split at here
      · next same => exact .inl ⟨same, (Prod.mk.inj (Option.some.inj here)).1.symm⟩
      · next other => exact .inr ⟨other, here⟩
    refine ⟨?_, ?_, ?_, ?_⟩
    · intro a b hpA hpB killA killB p hereA hereB numberedA numberedB
      rcases split _ _ _ hereA with ⟨rfl, rfl⟩ | ⟨_, oldA⟩ <;> rcases split _ _ _ hereB with ⟨rfl, rfl⟩ | ⟨_, oldB⟩
      · rfl
      · cases numbered.symm.trans numberedA
        exact (portServedByOther_false free oldB numberedB).symm
      · cases numbered.symm.trans numberedB
        exact portServedByOther_false free oldA numberedA
      · exact good.onePerPort a b hpA hpB killA killB p oldA oldB numberedA numberedB
    · intro n hp kill here
      rw [asOf]
      rcases split _ _ _ here with ⟨rfl, rfl⟩ | ⟨_, old⟩
      · exact wanted
      · exact good.current n hp kill old
    · intro n hp kill was
      rw [begun] at was
      rw [lookup, killed]
      rcases List.mem_cons.1 was with new | old
      · cases new
        exact .inl (if_pos rfl)
      · refine (good.accounted n hp kill old).imp_left fun here => ?_
        have other : n ≠ http := by
          rintro rfl
          exact idle (Table.mem_of_lookup here)
        rwa [if_neg other]
    · intro n hp kill here
      rcases split _ _ _ here with ⟨rfl, rfl⟩ | ⟨_, old⟩
      · exact Table.mem_of_lookup numbered
      · exact good.numbered n hp kill old

theorem startMissing_good (sc : Scene) {desired : Table NodeId NodeId} (http : NodeId)
    (wanted : ∀ n hp, desired.lookup n = some hp → (n, hp) ∈ v.asOf) (good : v.Good g) :
    (startMissing sc g desired v http).Good g ∧ (startMissing sc g desired v http).asOf = v.asOf := by
  unfold startMissing
  split
  · next hostport asked =>
      split
      · exact ⟨good, rfl⟩
      · next idle =>
          refine ⟨startServe_good good (wanted http hostport asked) idle, ?_⟩
          rcases startServe_cases sc g v http hostport with ⟨_, _, _, asOf⟩ | ⟨_, _, _, _, _, _, asOf⟩
          · exact asOf
          · exact asOf
  · exact ⟨good, rfl⟩

end Starting

/-! ## Reconciling -/

section Reconciling

variable {w : World} {sc : Scene} {auth : Option Bytes} {g : Graph} {v : Serves}

theorem Good.sheds {v' : Serves} (good : v.Good g) (sheds : Sheds v v') : v'.Good g :=
  ⟨good.onePerPort.sheds sheds, good.current.sheds sheds, good.accounted.sheds sheds, good.numbered.sheds sheds⟩

/-- What is left once the stale servers are stopped is desired as it stands. -/
theorem stopped_desired {desired : Table NodeId NodeId} {n hostport : NodeId} {kill : Nat}
    (here : (((sc.ids v.serves.keys).filter fun http =>
      desired.lookup http ≠ (v.serves.lookup http).map Prod.fst).foldl stopStale v).serves.lookup n =
        some (hostport, kill)) :
    v.serves.lookup n = some (hostport, kill) ∧ desired.lookup n = some hostport := by
  have old := (foldl_sheds stopStale_sheds _ v).fewer n _ here
  refine ⟨old, ?_⟩
  by_contra undesired
  refine absurd here (Option.eq_none_iff_forall_ne_some.1 ?_ _)
  refine foldl_gone stopStale_sheds lookup_stopStale v (List.mem_filter.2 ⟨?_, ?_⟩)
  · exact (sc.ids_perm _).mem_iff.2 (AList.mem_keys.1 (Table.mem_of_lookup old))
  · rw [old]
    exact decide_eq_true undesired

/-- **A reconciliation** leaves one server for each port, each of them for a serviceable
link; `numbered` need hold of the servers whose link is still there. -/
theorem sync_good (one : v.OnePerPort g) (accounted : v.Accounted)
    (numbered : ∀ http hostport kill, v.serves.lookup http = some (hostport, kill) →
      (http, hostport) ∈ g.serveLinks → hostport ∈ g.hostPorts) :
    (v.sync w sc auth g).Good g := by
  unfold sync
  dsimp only
  have desired : ∀ n hp, (Table.ofRows (serviceable w sc auth g)).lookup n = some hp →
      (n, hp) ∈ serviceable w sc auth g := fun n hp => Table.mem_of_lookup_ofRows
  -- First what is stale is stopped,
  have shed := foldl_sheds stopStale_sheds ((sc.ids v.serves.keys).filter fun http =>
    (Table.ofRows (serviceable w sc auth g)).lookup http ≠ (v.serves.lookup http).map Prod.fst)
    { v with asOf := serviceable w sc auth g }
  have left : ∀ n hp kill, (((sc.ids v.serves.keys).filter fun http =>
      (Table.ofRows (serviceable w sc auth g)).lookup http ≠ (v.serves.lookup http).map Prod.fst).foldl stopStale
        { v with asOf := serviceable w sc auth g }).serves.lookup n = some (hp, kill) →
      v.serves.lookup n = some (hp, kill) ∧ (n, hp) ∈ serviceable w sc auth g := by
    intro n hp kill here
    have kept := stopped_desired (v := { v with asOf := serviceable w sc auth g }) here
    exact ⟨kept.1, desired n hp kept.2⟩
  generalize (((sc.ids v.serves.keys).filter fun http =>
    (Table.ofRows (serviceable w sc auth g)).lookup http ≠ (v.serves.lookup http).map Prod.fst).foldl stopStale
      { v with asOf := serviceable w sc auth g }) = v₁ at shed left
  have first : v₁.Good g := by
    refine ⟨OnePerPort.sheds (v := { v with asOf := serviceable w sc auth g }) one shed, ?_,
      Accounted.sheds (v := { v with asOf := serviceable w sc auth g }) accounted shed, ?_⟩
    · intro n hp kill here
      rw [shed.asOf]
      exact (left n hp kill here).2
    · intro n hp kill here
      obtain ⟨old, wanted⟩ := left n hp kill here
      exact numbered n hp kill old (List.mem_filter.1 wanted).1
  -- then what is missing is started, one server after the other.
  have started : ∀ (xs : List NodeId) (v₂ : Serves), v₂.Good g → v₂.asOf = serviceable w sc auth g →
      (xs.foldl (startMissing sc g (Table.ofRows (serviceable w sc auth g))) v₂).Good g := by
    intro xs
    induction xs with
    | nil => exact fun _ good _ => good
    | cons x xs ih =>
      intro v₂ good asOf
      obtain ⟨next, same⟩ := startMissing_good sc x (fun n hp asked => asOf ▸ desired n hp asked) good
      exact ih _ next (same.trans asOf)
  have last := started (sc.ids (Table.ofRows (serviceable w sc auth g)).keys) v₁ first shed.asOf
  exact ⟨last.onePerPort, last.current, last.accounted, last.numbered⟩

theorem sync_asOf : (v.sync w sc auth g).asOf = serviceable w sc auth g := by
  have turn : ∀ (desired : Table NodeId NodeId) (v : Serves) (n : NodeId), (startMissing sc g desired v n).asOf = v.asOf := by
    intro desired v n
    unfold startMissing
    split
    · next hostport _ =>
        split
        · rfl
        · rcases startServe_cases sc g v n hostport with ⟨_, _, _, asOf⟩ | ⟨_, _, _, _, _, _, asOf⟩
          · exact asOf
          · exact asOf
    · rfl
  have started : ∀ (desired : Table NodeId NodeId) (xs : List NodeId) (v : Serves),
      (xs.foldl (startMissing sc g desired) v).asOf = v.asOf := by
    intro desired xs
    induction xs with
    | nil => exact fun _ => rfl
    | cons x xs ih => exact fun v => (ih _).trans (turn desired v x)
  exact (started _ _ _).trans (foldl_sheds stopStale_sheds _ _).asOf

end Reconciling

end Serves

/-! ## The server that publishes -/

/-- A server with the localhost servers it runs. -/
structure Publishing (start : Graph) where
  server : Server start
  serves : Serves := {}

namespace Publishing

variable {start : Graph} (w : World) (sc : Scene)

def syncServes (p : Publishing start) : Publishing start where
  server := p.server.syncServes
  serves := p.serves.sync w sc p.server.nodeAuth p.server.graph

/-- Wire (or unwire) a served node to a HostPort. -/
def toggleServe (p : Publishing start) (http hostport : NodeId) : Publishing start :=
  ({ p with server := p.server.perform (.toggle .serve http hostport) } : Publishing start).syncServes w sc

/-- Set (or, with 0, clear) the guest port a serve wire maps to, rebinding it live. -/
def setServePort (p : Publishing start) (served hostport : NodeId) (container : Nat) : Publishing start :=
  if (served, hostport) ∉ p.server.graph.serveLinks then p
  else
    let server := p.server.perform (.servePort (served, hostport) (if container = 0 then none else some container))
    ({ server, serves := p.serves.stop served } : Publishing start).syncServes w sc

/-- The nodes served through one HostPort. -/
def servedThrough (p : Publishing start) (hostport : NodeId) : List NodeId :=
  (p.serves.serves.rows.filter fun row => row.2.1 = hostport).map Prod.fst

/-- Set a HostPort's localhost port, live-rebinding any server bound through it. -/
def setHostPort (p : Publishing start) (id : NodeId) (port : Nat) : Publishing start :=
  match p.server.graph.hostPorts.lookup id with
  | none => p
  | some cur =>
    if port = cur || port = 0 then p
    else
      let server := p.server.perform (.update id (.port port))
      let server := { server with nextPort := max server.nextPort (min (port + 1) 65535) }
      ({ server, serves := (p.servedThrough id).foldl Serves.stop p.serves } : Publishing start).syncServes w sc

/-- Nudge a HostPort's localhost port. -/
def changePort (p : Publishing start) (id : NodeId) (delta : Int) : Publishing start :=
  match p.server.graph.hostPorts.lookup id with
  | none => p
  | some cur =>
    let moved := ((cur : Int) + delta).bmod (2 ^ 32)
    p.setHostPort w sc id (max 1 (min moved 65535)).toNat

/-- Remove one node.  Of the kinds only a HostPort and an app reconcile the servers,
once the node's wires are gone, and an app itself. -/
def removeLeaf (h : Host) (p : Publishing start) (id : NodeId) : Publishing start where
  server := p.server.removeLeaf w h id
  serves :=
    let g := p.server.graph.unwire h.pairs id
    match p.server.graph.kindOf id with
    | some .port => p.serves.sync w sc p.server.nodeAuth g
    | some .app => p.serves.sync w (sc.without id) p.server.nodeAuth g
    | _ => p.serves

/-- One tick: everything else is reconciled first. -/
def tick (h : Host) (p : Publishing start) : Publishing start :=
  let s := { p.server with
    runtime := p.server.runtime.drainPendingRun w h p.server.nodeAuth p.server.graph }
  let s := s.syncPendingAppWires w h
  let s := s.syncMounts w h
  let s := s.syncMidi
  let s := s.syncAppLinkNets w h
  ({ p with server := s } : Publishing start).syncServes w sc

end Publishing

/-- An edit that places nothing, renumbers no HostPort and removes nothing. -/
def Edit.sparesPorts : Edit → Bool
  | place .. | remove .. | update _ (.port _) => false
  | _ => true

namespace Publishing

variable {start : Graph} (w : World)

/-- One thing that happens to the server while it publishes.  A node that starts or
stops is the next step's machine; a group's removal is the removal of its instance's
wires and nodes one by one, and then its own. -/
inductive Step (p : Publishing start) : Publishing start → Prop where
  | toggleServe (sc : Scene) (http hostport : NodeId) : Step p (p.toggleServe w sc http hostport)
  | setServePort (sc : Scene) (served hostport : NodeId) (container : Nat) :
      Step p (p.setServePort w sc served hostport container)
  | setHostPort (sc : Scene) (id : NodeId) (port : Nat) : Step p (p.setHostPort w sc id port)
  | changePort (sc : Scene) (id : NodeId) (delta : Int) : Step p (p.changePort w sc id delta)
  | removeLeaf (sc : Scene) (h : Host) (id : NodeId) : Step p (p.removeLeaf w sc h id)
  | tick (sc : Scene) (h : Host) : Step p (p.tick w sc h)
  | setNodeToken (id : NodeId) (token : Bytes) : Step p { p with server := p.server.setNodeToken w id token }
  | setNodeAuth (h : Host) (base : Bytes) : Step p { p with server := p.server.setNodeAuth w h base }
  /-- A node is placed under an id no node has. -/
  | place (id ws : NodeId) (pos size : Vec2) (payload : Payload) (fresh : id ∉ p.server.graph.nodes) :
      Step p { p with server := p.server.place id ws pos size payload }
  | edit (e : Edit) (spares : e.sparesPorts = true) : Step p { p with server := p.server.perform e }
  /-- Whatever changes beside the graph and the servers. -/
  | beside (server : Server start) (same : server.graph = p.server.graph) : Step p { p with server }

end Publishing

/-! ## What each step keeps -/

namespace Graph

/-- Every HostPort's number belongs to a HostPort. -/
def PortsHoused (g : Graph) : Prop := ∀ id ∈ g.hostPorts, g.kindOf id = some .port

/-- An edit that spares the HostPorts leaves their numbers, and every kind. -/
theorem sparing_edit {g : Graph} {e : Edit} (spares : e.sparesPorts = true) :
    (e.apply g).hostPorts = g.hostPorts ∧ ∀ n, (e.apply g).kindOf n = g.kindOf n := by
  cases e with
  | place | remove => cases spares
  | update id u =>
    refine ⟨?_, fun n => update_kindOf g id n u⟩
    cases u with
    | port => cases spares
    | pos3d | showPanel | hidePanel | args | midiIn | midiOut | token | multicast =>
      simp only [Edit.apply, update]
      split <;> rfl
    | _ => rfl
  | pose id pos3d panel3d => cases pos3d <;> cases panel3d <;> exact ⟨rfl, fun _ => rfl⟩
  | dropNet key => simp [Edit.apply, dropNet_toCanvas]
  | addTab index id =>
    simp only [Edit.apply, addTab]
    split <;> exact ⟨rfl, fun _ => rfl⟩
  | removeTab id =>
    simp only [Edit.apply, removeTab]
    split <;> exact ⟨rfl, fun _ => rfl⟩
  | _ => exact ⟨rfl, fun _ => rfl⟩

theorem PortsHoused.congr {g g' : Graph} (housed : g.PortsHoused) (ports : g'.hostPorts = g.hostPorts)
    (kinds : ∀ n, g'.kindOf n = g.kindOf n) : g'.PortsHoused := by
  intro id member
  rw [kinds]
  rw [ports] at member
  exact housed id member

/-- Only a HostPort's own removal takes its number before it is forgotten. -/
theorem unwire_hostPorts (g : Graph) (order : List Pair → List Pair) (id : NodeId) :
    (g.unwire order id).hostPorts = if g.kindOf id = some .port then g.hostPorts.erase id else g.hostPorts := by
  have canvas := dropWires_toCanvas g order id
  have kind : (g.dropWires order id).kindOf id = g.kindOf id := by rw [canvas]
  have ports : (g.dropWires order id).hostPorts = g.hostPorts := by rw [canvas]
  unfold unwire dropOwn
  rw [kind, ← ports]
  split <;> simp_all

theorem remove_hostPorts {g : Graph} (housed : g.PortsHoused) (order : List Pair → List Pair) (id n : NodeId) :
    (g.remove order id).hostPorts.lookup n = if n = id then none else g.hostPorts.lookup n := by
  by_cases present : id ∈ g.nodes
  · rw [remove, if_pos present]
    refine (Table.lookup_erase_eq _ id n).trans ?_
    split
    · rfl
    · next other =>
        rw [unwire_hostPorts]
        split
        · rw [Table.lookup_erase_eq, if_neg other]
        · rfl
  · rw [remove, if_neg present]
    split
    · next same =>
        rw [same]
        exact AList.lookup_eq_none.2 fun here => present (Canvas.mem_nodes_of_kindOf (housed id here))
    · rfl

theorem PortsHoused.remove {g : Graph} (housed : g.PortsHoused) (order : List Pair → List Pair) (id : NodeId) :
    (g.remove order id).PortsHoused := by
  intro n member
  obtain ⟨port, found⟩ := Table.mem_iff_lookup.1 member
  rw [remove_hostPorts housed] at found
  rw [remove_kindOf]
  split at found
  · cases found
  · next other =>
      rw [if_neg other]
      exact housed n (Table.mem_of_lookup found)

theorem place_hostPorts (g : Graph) {id ws n : NodeId} {pos size : Vec2} {payload : Payload} (other : n ≠ id) :
    (g.place id ws pos size payload).hostPorts.lookup n = g.hostPorts.lookup n := by
  cases payload with
  | app dep name args token => cases token <;> rfl
  | port p => exact AList.lookup_insert_ne other
  | _ => rfl

theorem PortsHoused.place {g : Graph} (housed : g.PortsHoused) {id ws : NodeId} {pos size : Vec2} {payload : Payload}
    (fresh : id ∉ g.nodes) : (g.place id ws pos size payload).PortsHoused := by
  have new : id ∉ g.hostPorts := fun here => fresh (Canvas.mem_nodes_of_kindOf (housed id here))
  intro n member
  rw [place_kindOf]
  split
  · next same =>
      subst same
      cases payload with
      | app dep name args token => cases token <;> exact absurd member new
      | port p => rfl
      | _ => exact absurd member new
  · next other =>
      obtain ⟨port, found⟩ := Table.mem_iff_lookup.1 member
      rw [place_hostPorts g other] at found
      exact housed n (Table.mem_of_lookup found)

theorem PortsHoused.renumber {g : Graph} (housed : g.PortsHoused) (id : NodeId) (port : Nat) :
    (g.update id (.port port)).PortsHoused := by
  intro n member
  rw [update_kindOf]
  exact housed n (mem_alter.1 member)

end Graph

namespace Serves

/-- Where the numbers in use stay, so does all that holds of the servers. -/
theorem Good.congr {g g' : Graph} {v : Serves} (good : v.Good g)
    (same : ∀ n ∈ g.hostPorts, g'.hostPorts.lookup n = g.hostPorts.lookup n) : v.Good g' where
  onePerPort := by
    intro a b hpA hpB killA killB port hereA hereB numberedA numberedB
    rw [same _ (good.numbered _ _ _ hereA)] at numberedA
    rw [same _ (good.numbered _ _ _ hereB)] at numberedB
    exact good.onePerPort a b hpA hpB killA killB port hereA hereB numberedA numberedB
  current := good.current
  accounted := good.accounted
  numbered := by
    intro http hostport kill here
    have numbered := good.numbered http hostport kill here
    obtain ⟨port, found⟩ := Table.mem_iff_lookup.1 numbered
    exact Table.mem_of_lookup ((same hostport numbered).trans found)

theorem Good.synced {w : World} {sc : Scene} {auth : Option Bytes} {g : Graph} {v : Serves} (good : v.Good g) :
    (v.sync w sc auth g).Good g :=
  sync_good good.onePerPort good.accounted fun http hostport kill here _ => good.numbered http hostport kill here

end Serves

namespace Publishing

variable {start : Graph} {w : World} {p p' : Publishing start}

/-- The invariant of a publishing server. -/
structure Kept (p : Publishing start) : Prop where
  housed : p.server.graph.PortsHoused
  good : p.serves.Good p.server.graph

theorem Kept.synced (kept : p.Kept) (sc : Scene) : (p.syncServes w sc).Kept :=
  ⟨kept.housed, kept.good.synced.congr fun _ _ => rfl⟩

theorem kept_synced {server : Server start} {serves : Serves} (housed : server.graph.PortsHoused)
    (good : serves.Good server.graph) (sc : Scene) : (Publishing.syncServes w sc { server, serves }).Kept :=
  Kept.synced ⟨housed, good⟩ sc

theorem Kept.server (kept : p.Kept) (server : Server start)
    (ports : server.graph.hostPorts = p.server.graph.hostPorts)
    (kinds : ∀ n, server.graph.kindOf n = p.server.graph.kindOf n) : Kept { p with server } :=
  ⟨kept.housed.congr ports kinds, kept.good.congr fun n _ => by rw [ports]⟩

theorem Kept.toggleServe (kept : p.Kept) (sc : Scene) (http hostport : NodeId) :
    (p.toggleServe w sc http hostport).Kept :=
  (kept.server (p.server.perform (.toggle .serve http hostport)) rfl fun _ => rfl).synced sc

theorem Kept.setServePort (kept : p.Kept) (sc : Scene) (served hostport : NodeId) (container : Nat) :
    (p.setServePort w sc served hostport container).Kept := by
  unfold Publishing.setServePort
  split
  · exact kept
  · refine kept_synced ?_ ?_ sc
    · exact kept.housed
    · exact (kept.good.sheds (Serves.stop_sheds _ _)).congr fun _ _ => rfl

/-- What is served through a HostPort is stopped before its number changes. -/
theorem servedThrough_stopped {id n hostport : NodeId} {kill : Nat}
    (here : ((p.servedThrough id).foldl Serves.stop p.serves).serves.lookup n = some (hostport, kill)) :
    hostport ≠ id := by
  have old := (Serves.foldl_sheds Serves.stop_sheds _ p.serves).fewer n _ here
  rintro rfl
  have listed : n ∈ p.servedThrough hostport :=
    List.mem_map.2 ⟨(n, (hostport, kill)), List.mem_filter.2 ⟨Table.mem_rows.2 old, decide_eq_true rfl⟩, rfl⟩
  have gone := Serves.foldl_gone Serves.stop_sheds (fun v n => (Serves.lookup_stop v n n).trans (if_pos rfl)) p.serves listed
  exact absurd (gone.symm.trans here) nofun

theorem renumbered_good (good : p.serves.Good p.server.graph) (id : NodeId) (port : Nat) :
    ((p.servedThrough id).foldl Serves.stop p.serves).Good (p.server.graph.update id (.port port)) := by
  have stopped := good.sheds (Serves.foldl_sheds Serves.stop_sheds (p.servedThrough id) p.serves)
  have same : ∀ n, n ≠ id → (p.server.graph.update id (.port port)).hostPorts.lookup n =
      p.server.graph.hostPorts.lookup n := fun n other =>
    (Graph.alter_lookup _ id n _).trans (if_neg other)
  refine ⟨?_, stopped.current, stopped.accounted, ?_⟩
  · intro a b hpA hpB killA killB port hereA hereB numberedA numberedB
    rw [same _ (servedThrough_stopped hereA)] at numberedA
    rw [same _ (servedThrough_stopped hereB)] at numberedB
    exact stopped.onePerPort a b hpA hpB killA killB port hereA hereB numberedA numberedB
  · intro http hostport kill here
    exact Graph.mem_alter.2 (stopped.numbered http hostport kill here)

theorem Kept.setHostPort (kept : p.Kept) (sc : Scene) (id : NodeId) (port : Nat) : (p.setHostPort w sc id port).Kept := by
  cases found : p.server.graph.hostPorts.lookup id with
  | none =>
    simp only [Publishing.setHostPort, found]
    exact kept
  | some cur =>
    simp only [Publishing.setHostPort, found]
    split
    · exact kept
    · refine kept_synced ?_ ?_ sc
      · exact kept.housed.renumber id port
      · exact renumbered_good kept.good id port

theorem Kept.changePort (kept : p.Kept) (sc : Scene) (id : NodeId) (delta : Int) : (p.changePort w sc id delta).Kept := by
  cases found : p.server.graph.hostPorts.lookup id with
  | none =>
    simp only [Publishing.changePort, found]
    exact kept
  | some cur =>
    simp only [Publishing.changePort, found]
    exact kept.setHostPort sc id _

/-- Once a HostPort is unwired no serve link leads to it. -/
theorem unwired_serveLinks {g : Graph} {order : List Pair → List Pair} {id : NodeId} (port : g.kindOf id = some .port)
    {http hostport : NodeId} (there : (http, hostport) ∈ (g.unwire order id).serveLinks) : hostport ≠ id := by
  have links : (g.unwire order id).serveLinks = (g.serveLinks.filter fun l => l.2 ≠ id) := by
    unfold Graph.unwire
    rw [Graph.serveLinks, Graph.dropOwn_toWires, Graph.dropWires, port]
    exact (Graph.setLinks_links g .serve .serve _).trans (if_pos rfl)
  rw [links] at there
  simpa using (List.mem_filter.1 there).2

/-- The servers are reconciled with the graph once the HostPort's wires and number are
gone. -/
theorem removed_port_good {sc : Scene} {auth : Option Bytes} {g : Graph} {v : Serves} (good : v.Good g)
    (order : List Pair → List Pair) {id : NodeId} (port : g.kindOf id = some .port) :
    (v.sync w sc auth (g.unwire order id)).Good (g.unwire order id) := by
  have numbers : ∀ n, (g.unwire order id).hostPorts.lookup n = if n = id then none else g.hostPorts.lookup n := by
    intro n
    rw [Graph.unwire_hostPorts, if_pos port, Table.lookup_erase_eq]
  refine Serves.sync_good ?_ good.accounted ?_
  · intro a b hpA hpB killA killB port hereA hereB numberedA numberedB
    rw [numbers] at numberedA numberedB
    split at numberedA
    · cases numberedA
    · split at numberedB
      · cases numberedB
      · exact good.onePerPort a b hpA hpB killA killB port hereA hereB numberedA numberedB
  · intro http hostport kill here there
    obtain ⟨port', found⟩ := Table.mem_iff_lookup.1 (good.numbered http hostport kill here)
    refine Table.mem_of_lookup (b := port') ?_
    rw [numbers, if_neg (unwired_serveLinks port there), found]

/-- Removing a node: the graph at its end lacks at most the node's own number. -/
theorem Kept.removeLeaf (kept : p.Kept) (sc : Scene) (h : Host) (id : NodeId) : (p.removeLeaf w sc h id).Kept := by
  have final : ∀ n, (p.server.graph.remove h.pairs id).hostPorts.lookup n =
      if n = id then none else p.server.graph.hostPorts.lookup n := Graph.remove_hostPorts kept.housed h.pairs id
  -- A node that is no HostPort has no number to lose.
  have unnumbered : p.server.graph.kindOf id ≠ some .port → ∀ n,
      (p.server.graph.remove h.pairs id).hostPorts.lookup n = p.server.graph.hostPorts.lookup n := by
    intro other n
    rw [final]
    split
    · next same =>
        subst same
        exact (AList.lookup_eq_none.2 fun here => other (kept.housed n here)).symm
    · rfl
  refine ⟨kept.housed.remove h.pairs id, ?_⟩
  unfold Publishing.removeLeaf
  dsimp only
  split
  · next port =>
      refine (removed_port_good kept.good h.pairs port).congr fun n _ => (final n).trans ?_
      rw [Graph.unwire_hostPorts, if_pos port, Table.lookup_erase_eq]
  · next app =>
      have other : p.server.graph.kindOf id ≠ some .port := by
        rw [app]
        nofun
      have unwired : (p.server.graph.unwire h.pairs id).hostPorts = p.server.graph.hostPorts := by
        rw [Graph.unwire_hostPorts, if_neg other]
      have good : p.serves.Good (p.server.graph.unwire h.pairs id) := kept.good.congr fun n _ => by rw [unwired]
      exact good.synced.congr fun n _ => (unnumbered other n).trans (by rw [unwired])
  · next notPort _ => exact kept.good.congr fun n _ => unnumbered notPort n

theorem Kept.tick (kept : p.Kept) (sc : Scene) (h : Host) : (p.tick w sc h).Kept := by
  have became : Server.Becomes (WireEdit False) p.server (p.server.tick w h) := Server.tick_becomes w h p.server
  have canvas : (p.server.tick w h).graph.toCanvas = p.server.graph.toCanvas := became.toCanvas
  -- The last thing a tick does to the graph leaves its canvas.
  refine kept_synced ?_ ?_ sc
  · exact kept.housed.congr (congrArg Canvas.hostPorts canvas) fun n => congrArg (fun c : Canvas => c.kindOf n) canvas
  · exact kept.good.congr fun n _ => congrArg (fun c : Canvas => c.hostPorts.lookup n) canvas

theorem Kept.place (kept : p.Kept) {id ws : NodeId} {pos size : Vec2} {payload : Payload}
    (fresh : id ∉ p.server.graph.nodes) : Kept { p with server := p.server.place id ws pos size payload } := by
  refine ⟨kept.housed.place fresh, kept.good.congr fun n here => ?_⟩
  refine Graph.place_hostPorts _ ?_
  rintro rfl
  exact fresh (Canvas.mem_nodes_of_kindOf (kept.housed n here))

theorem Kept.setNodeToken (kept : p.Kept) (id : NodeId) (token : Bytes) :
    Kept { p with server := p.server.setNodeToken w id token } := by
  have edited : ∀ u : Update, (Edit.update id u).sparesPorts = true → ∀ {server : Server start},
      server.graph = (p.server.perform (.update id u)).graph → Kept { p with server } := by
    intro u spares server same
    obtain ⟨ports, kinds⟩ := Graph.sparing_edit (g := p.server.graph) spares
    exact kept.server server (by rw [same]; exact ports) fun n => by rw [same]; exact kinds n
  unfold Server.setNodeToken
  split
  · exact kept
  · split
    · exact edited .noToken rfl rfl
    · split
      · exact kept
      · exact edited (.token token) rfl rfl

/-- **One step** keeps all that holds of the running servers. -/
theorem step_keeps (step : Step w p p') (kept : p.Kept) : p'.Kept := by
  cases step with
  | toggleServe sc http hostport => exact kept.toggleServe sc http hostport
  | setServePort sc served hostport container => exact kept.setServePort sc served hostport container
  | setHostPort sc id port => exact kept.setHostPort sc id port
  | changePort sc id delta => exact kept.changePort sc id delta
  | removeLeaf sc h id => exact kept.removeLeaf sc h id
  | tick sc h => exact kept.tick sc h
  | setNodeToken id token => exact kept.setNodeToken id token
  | setNodeAuth h base => exact kept.server _ rfl fun _ => rfl
  | place id ws pos size payload fresh => exact kept.place fresh
  | edit e spares =>
    obtain ⟨ports, kinds⟩ := Graph.sparing_edit (g := p.server.graph) spares
    exact kept.server (p.server.perform e) ports kinds
  | beside server same => exact kept.server _ (by rw [same]) fun n => by rw [same]

/-- **One server for each localhost port.** -/
theorem one_server_per_port {doc : Document} {p : Publishing (Graph.ofDocument doc)}
    (reached : Relation.ReflTransGen (Step w) { server := Server.fresh doc } p) :
    p.serves.OnePerPort p.server.graph ∧ p.serves.Current ∧ p.serves.Accounted := by
  have first : Publishing.Kept ({ server := Server.fresh doc } : Publishing (Graph.ofDocument doc)) :=
    ⟨nofun, nofun, nofun, nofun, nofun⟩
  have kept : p.Kept := by
    induction reached with
    | refl => exact first
    | tail _ step ih => exact step_keeps step ih
  exact ⟨kept.good.onePerPort, kept.good.current, kept.good.accounted⟩

section Poles

/-- Everything is compiled, and every port is free on the machine. -/
def openScene : Scene where
  live := fun _ => true
  httpPath := fun _ => some "web.wasm"
  netStack := fun _ => none
  running := fun _ => true
  serve := fun _ _ => .ok ()
  forward := fun _ _ _ => .ok ()
  ids := id
  ids_perm := fun l => .refl l

/-- An empty tab. -/
def blankDocument : Document where
  workspaces := [{ id := 1, nodes := [] }]

/-- Two apps and two HostPorts of one number. -/
def twoPorts : List (NodeId × Payload) :=
  [(10, .app "web" "a" [] none), (11, .app "web" "b" [] none), (20, .port 8080), (21, .port 8080)]

/-- They are placed. -/
def placed : Publishing (Graph.ofDocument blankDocument) :=
  twoPorts.foldl (fun p node => { p with server := p.server.place node.1 1 (0, 0) (0, 0) node.2 })
    { server := Server.fresh blankDocument }

/-- Each app is wired to a HostPort of its own. -/
def bothWired : Publishing (Graph.ofDocument blankDocument) :=
  (placed.toggleServe .plain openScene 10 20).toggleServe .plain openScene 11 21

/-- The first app is removed. -/
def firstGone : Publishing (Graph.ofDocument blankDocument) := bothWired.removeLeaf .plain openScene (.plain fun _ => none) 10

/-- The second app waits while the first is served, and takes the port once it is
stopped. -/
theorem ports_contended :
    (bothWired.serves.serves.lookup 10 = some (20, 0) ∧ bothWired.serves.serves.lookup 11 = none ∧
      firstGone.serves.serves.lookup 11 = some (21, 1) ∧ firstGone.serves.killed = [0]) ∧
      firstGone.serves.OnePerPort firstGone.server.graph ∧ firstGone.serves.Current ∧ firstGone.serves.Accounted := by
  have start : Relation.ReflTransGen (Step .plain) { server := Server.fresh blankDocument }
      { server := Server.fresh blankDocument } := .refl
  have apps := (start.tail (.place 10 1 (0, 0) (0, 0) (.app "web" "a" [] none) (by decide))).tail
    (.place 11 1 (0, 0) (0, 0) (.app "web" "b" [] none) (by decide))
  have placing : Relation.ReflTransGen (Step .plain) { server := Server.fresh blankDocument } placed :=
    (apps.tail (.place 20 1 (0, 0) (0, 0) (.port 8080) (by decide))).tail
      (.place 21 1 (0, 0) (0, 0) (.port 8080) (by decide))
  have wired : Relation.ReflTransGen (Step .plain) { server := Server.fresh blankDocument } bothWired :=
    (placing.tail (.toggleServe openScene 10 20)).tail (.toggleServe openScene 11 21)
  exact ⟨by decide +kernel, one_server_per_port (wired.tail (.removeLeaf openScene (.plain fun _ => none) 10))⟩

end Poles

end Publishing

end Wk
