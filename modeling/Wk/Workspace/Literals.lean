/-
# Wk.Workspace.Literals -- the range of a number in the file

A literal is held in 128 bits, cut to 64 by `uint`, and then compared with the range of its
field: a port, or a MIDI channel.

* `literal_exact_iff`: a literal in its range is taken as it is.  Out of it a channel or a
  container port is left out without a word, and a host port is reported unless the cut
  lands among the ports.
-/
import Wk.Workspace.Read

namespace Wk

open Wk.Library

set_option autoImplicit false

/-! ## What is read without a complaint -/

/-- An id that is read is read without a complaint. -/
theorem nodeId_said {v : KdlValue} {id : NodeId} (made : (nodeId v).made = some id) : (nodeId v).said = [] := by
  revert made
  unfold nodeId
  cases v.asString with
  | none => exact fun made => by cases made
  | some s =>
    dsimp only
    cases NodeId.ofText s with
    | none => exact fun made => by cases made
    | some _ => exact fun _ => rfl

theorem idAt_said {n : KdlNode} {i : Nat} {id : NodeId} (made : (idAt n i).made = some id) : (idAt n i).said = [] := by
  revert made
  unfold idAt
  cases n.get i with
  | none => exact fun made => by cases made
  | some v => exact nodeId_said

theorem pairOf_said {n : KdlNode} {p : Pair} (made : (pairOf n).made = some p) : (pairOf n).said = [] := by
  obtain ⟨a, left, rest⟩ := Option.bind_eq_some_iff.1 made
  obtain ⟨b, right, _⟩ := Option.map_eq_some_iff.1 rest
  rw [pairOf, idAt_said left, idAt_said right]
  rfl

/-- A wire line with a third argument. -/
theorem readWire_eq {ws : Workspace} {rel : WireRel} {c : KdlNode} {p : Pair} {v : KdlValue}
    (third : Workspace → Pair → KdlValue → Workspace) (ends : (pairOf c).made = some p) (arg : c.get 2 = some v) :
    readWire ws rel c third = { made := some (third (ws.addLink rel p) p v) } := by
  have made : (pairOf c).optional.made = some (some p) := congrArg some ends
  unfold readWire
  rw [Reading.bind_some made, arg]
  exact congrArg (Reading.mk _) (by rw [Reading.optional, pairOf_said ends]; rfl)

/-- A `hostport` line whose id, position and size can be read. -/
theorem parseSnap_hostport {round : Rounding} {c : KdlNode} {id : NodeId} {ch : KdlDocument} {spot : Vec2 × Vec2}
    (name : c.name = "hostport") (head : (idAt c 0).made = some id) (children : c.children = some ch)
    (placed : geometry round false ch = some spot) :
    parseSnap round c =
      { made := (hostPort ch).map fun port =>
          { id, pos := spot.1, size := spot.2, pos3d := poseIn round ch, panel3d := (flagIn ch "panel3d").getD true,
            kind := .port port } } := by
  have index : idArgIndex c.name = 0 := by rw [name]; decide
  have kind : parseKind round c ch = do return .port (← hostPort ch) := by simp only [parseKind, name]
  have declared : isDeclaration c.name = false := by rw [name]; decide
  unfold parseSnap
  rw [index, Reading.bind_some head, idAt_said head, children, declared, Reading.bind_some rfl, kind, placed]
  cases hostPort ch <;> rfl

/-- Such a line places its node, or is reported. -/
theorem readLine_hostport {round : Rounding} {c : KdlNode} {id : NodeId} {ch : KdlDocument} {spot : Vec2 × Vec2}
    (ws : Workspace) (name : c.name = "hostport") (head : (idAt c 0).made = some id) (children : c.children = some ch)
    (placed : geometry round false ch = some spot) :
    readLine round ws c = match hostPort ch with
      | some port =>
        { made := some { ws with nodes := ws.nodes ++
            [{ id, pos := spot.1, size := spot.2, pos3d := poseIn round ch,
               panel3d := (flagIn ch "panel3d").getD true, kind := .port port }] } }
      | none => { made := some ws, said := [.nodeSkipped "hostport"] } := by
  simp only [readLine, name, parseSnap_hostport name head children placed]
  cases hostPort ch <;> rfl

/-! ## Blocks -/

theorem readWire_made (ws : Workspace) (rel : WireRel) (c : KdlNode) (third : Workspace → Pair → KdlValue → Workspace) :
    ∃ after, (readWire ws rel c third).made = some after := by
  have made : (pairOf c).optional.made = some (pairOf c).made := rfl
  rw [readWire, Reading.bind_some made]
  cases (pairOf c).made <;> exact ⟨_, rfl⟩

/-- A line is never the end of the load. -/
theorem readLine_made (round : Rounding) (ws : Workspace) (c : KdlNode) :
    ∃ after, (readLine round ws c).made = some after := by
  have made : (parseSnap round c).optional.made = some (parseSnap round c).made := rfl
  unfold readLine
  split <;> first | exact ⟨_, rfl⟩ | exact readWire_made .. | skip
  rw [Reading.bind_some made]
  cases (parseSnap round c).made <;> exact ⟨_, rfl⟩

/-- What is said of a line is said in the load of its block. -/
theorem said_of_line {round : Rounding} {c : KdlNode} : ∀ {lines : List KdlNode} (ws : Workspace), c ∈ lines →
    ∃ so, ∀ r ∈ (readLine round so c).said, r ∈ (lines.foldlM (readLine round) ws).said
  | line :: lines, ws, member => by
    obtain ⟨after, made⟩ := readLine_made round ws line
    rw [List.foldlM_cons, Reading.bind_some made]
    rcases List.mem_cons.1 member with rfl | member
    · exact ⟨ws, fun r said => List.mem_append_left _ said⟩
    · obtain ⟨so, reaches⟩ := said_of_line after member
      exact ⟨so, fun r said => List.mem_append_right _ (reaches r said)⟩

theorem parseWorkspace_said {round : Rounding} {n c : KdlNode} {id : NodeId} (head : (idAt n 0).made = some id)
    (line : c ∈ n.block) : ∃ so, ∀ r ∈ (readLine round so c).said, r ∈ (parseWorkspace round n).said := by
  obtain ⟨so, reaches⟩ := @said_of_line round c n.block { id } line
  have made : (idAt n 0).optional.made = some (some id) := congrArg some head
  refine ⟨so, fun r said => ?_⟩
  rw [parseWorkspace, Reading.bind_some made]
  exact List.mem_append_right _ (reaches r said)

/-! ## Places -/

/-- The fields with a range: the port of a `hostport` block, the third argument of a
`serve` line and that of a `midi` line. -/
inductive Place where
  | hostPort | containerPort | channel
  deriving DecidableEq, Repr

namespace Place

/-- The literals a field has room for. -/
def InRange : Place → Int → Prop
  | hostPort, i | containerPort, i => 0 ≤ i ∧ i ≤ 65535
  | channel, i => 1 ≤ i ∧ i ≤ 16

instance : (place : Place) → DecidablePred place.InRange
  | hostPort, i | containerPort, i => inferInstanceAs (Decidable (0 ≤ i ∧ i ≤ 65535))
  | channel, i => inferInstanceAs (Decidable (1 ≤ i ∧ i ≤ 16))

/-- A line that writes the literal in the field, and that can be read otherwise. -/
def Writes (round : Rounding) : Place → KdlNode → Int → Prop
  | hostPort, c, i =>
    c.name = "hostport" ∧ (∃ id, (idAt c 0).made = some id) ∧
      ∃ (ch : KdlDocument) (p : KdlNode) (spot : Vec2 × Vec2), c.children = some ch ∧ ch.get "port" = some p ∧ p.get 0 = some (.integer i) ∧
        geometry round false ch = some spot
  | containerPort, c, i => c.name = "serve" ∧ (∃ p, (pairOf c).made = some p) ∧ c.get 2 = some (.integer i)
  | channel, c, i => c.name = "midi" ∧ (∃ p, (pairOf c).made = some p) ∧ c.get 2 = some (.integer i)

/-- The field holds the number after the line. -/
def Taken (ws : Workspace) (c : KdlNode) (n : Nat) : Place → Workspace → Prop
  | hostPort, after => ∃ snap, snap.kind = .port n ∧ after.nodes = ws.nodes ++ [snap]
  | containerPort, after => ∃ p, (pairOf c).made = some p ∧ after.servePorts = ws.servePorts.insert p n
  | channel, after => ∃ p, (pairOf c).made = some p ∧ after.midiChannels = ws.midiChannels.insert p n

/-- The line has left the fields of its kind as they were. -/
def Untouched (ws : Workspace) : Place → Workspace → Prop
  | hostPort, after => after.nodes = ws.nodes
  | containerPort, after => after.servePorts = ws.servePorts
  | channel, after => after.midiChannels = ws.midiChannels

/-- The literal is taken as it is where there is room for it, and otherwise refused and
reported. -/
def Exact (place : Place) (ws : Workspace) (c : KdlNode) (i : Int) (r : Reading Workspace) : Prop :=
  ∃ after, r.made = some after ∧
    if place.InRange i then place.Taken ws c i.toNat after else place.Untouched ws after ∧ r.said ≠ []

/-- Where `uint` and the range check together do so. -/
def Safe : Place → Int → Prop
  | hostPort, i => hostPort.InRange i ∨ 65535 < i % 2 ^ 64
  | containerPort, i => containerPort.InRange i
  | channel, i => channel.InRange i

instance : (place : Place) → DecidablePred place.Safe
  | hostPort, i => inferInstanceAs (Decidable (hostPort.InRange i ∨ 65535 < i % 2 ^ 64))
  | containerPort, i => inferInstanceAs (Decidable (containerPort.InRange i))
  | channel, i => inferInstanceAs (Decidable (channel.InRange i))

end Place

/-- A literal in the range of `u64` survives the cut. -/
theorem uint_of_small {i : Int} (low : 0 ≤ i) (high : i < 2 ^ 64) : uint (.integer i) = some i.toNat :=
  congrArg (fun j => some (Int.toNat j)) (Int.emod_eq_of_lt low high)

/-- The port check after the cut. -/
theorem port_cut (i : Int) :
    (uint (.integer i)).bind asU16 = if i % 2 ^ 64 ≤ 65535 then some (i % 2 ^ 64).toNat else none := by
  have low : 0 ≤ i % 2 ^ 64 := Int.emod_nonneg i (by norm_num)
  change asU16 (i % 2 ^ 64).toNat = _
  unfold asU16
  split_ifs <;> first | rfl | omega

theorem port_eq {i : Int} (range : Place.hostPort.InRange i) : (uint (.integer i)).bind asU16 = some i.toNat := by
  obtain ⟨low, high⟩ := range
  rw [uint_of_small low (by omega), Option.bind_some]
  exact if_pos (by omega)

/-- A line that says nothing is right just where the literal is in its range. -/
theorem exact_silent_iff {place : Place} {ws after : Workspace} {c : KdlNode} {i : Int}
    (inside : place.InRange i → place.Taken ws c i.toNat after) :
    place.Exact ws c i { made := some after } ↔ place.InRange i := by
  constructor
  · rintro ⟨_, _, rest⟩
    by_contra range
    rw [if_neg range] at rest
    exact rest.2 rfl
  · intro range
    refine ⟨after, rfl, ?_⟩
    rw [if_pos range]
    exact inside range

theorem exact_hostPort_iff {round : Rounding} {ws : Workspace} {c : KdlNode} {i : Int}
    (writes : Place.hostPort.Writes round c i) :
    Place.hostPort.Exact ws c i (readLine round ws c) ↔ Place.hostPort.Safe i := by
  obtain ⟨name, ⟨id, head⟩, ch, p, spot, children, port, literal, placed⟩ := writes
  have field : hostPort ch = (uint (.integer i)).bind asU16 := by
    rw [hostPort, port, Option.bind_some, literal, Option.bind_some]
  rw [readLine_hostport ws name head children placed, field]
  by_cases range : Place.hostPort.InRange i
  · rw [port_eq range]
    refine (exact_silent_iff fun _ => ?_).trans (iff_of_true range (.inl range))
    exact ⟨_, rfl, rfl⟩
  rw [port_cut]
  by_cases cut : i % 2 ^ 64 ≤ 65535
  · -- the cut literal lands among the ports, and the node is placed
    rw [if_pos cut]
    refine (exact_silent_iff fun inside => absurd inside range).trans (iff_of_false range ?_)
    exact fun safe => safe.elim range (by omega)
  · rw [if_neg cut]
    refine iff_of_true ⟨ws, rfl, ?_⟩ (.inr (by omega))
    rw [if_neg range]
    exact ⟨rfl, by simp⟩

/-- A literal is read exactly in its range, and reported out of it, where `Safe` holds. -/
theorem literal_exact_iff {round : Rounding} {place : Place} {ws : Workspace} {c : KdlNode} {i : Int}
    (writes : place.Writes round c i) : place.Exact ws c i (readLine round ws c) ↔ place.Safe i := by
  cases place with
  | hostPort => exact exact_hostPort_iff writes
  | containerPort =>
    obtain ⟨name, ⟨p, ends⟩, literal⟩ := writes
    have line : readLine round ws c = readWire ws .serve c portArg := by simp only [readLine, name]
    rw [line, readWire_eq portArg ends literal]
    refine exact_silent_iff fun range => ⟨p, ends, ?_⟩
    unfold portArg
    rw [port_eq range]
    rfl
  | channel =>
    obtain ⟨name, ⟨p, ends⟩, literal⟩ := writes
    have line : readLine round ws c = readWire ws .midi c channelArg := by simp only [readLine, name]
    rw [line, readWire_eq channelArg ends literal]
    refine exact_silent_iff fun ⟨low, high⟩ => ⟨p, ends, ?_⟩
    unfold channelArg
    rw [uint_of_small (by omega) (by omega)]
    exact congrArg Workspace.midiChannels (if_pos (by omega))

/-- A host port in a file. -/
def portLine (i : Int) : KdlNode :=
  { name := "hostport", entries := [{ value := .string "00000000000000000000000001" }],
    children := some [.line "port" [.integer i], .line "pos" [.integer 0, .integer 0],
      .line "size" [.integer 130, .integer 44]] }

/-- Nothing but zero. -/
def flat : Rounding := { float := fun _ => 0, integer := fun _ => 0, widen := fun _ => 0 }

theorem portLine_writes (i : Int) : Place.hostPort.Writes flat (portLine i) i :=
  have head : (nodeId (.string "00000000000000000000000001")).made = some 1 := by decide +kernel
  ⟨rfl, ⟨1, head⟩, _, .line "port" [.integer i], ((0, 0), (0, 0)), rfl, rfl, rfl, rfl⟩

theorem literal_exact_iff_web :
    Place.hostPort.Exact { id := 0 } (portLine 80) 80 (readLine flat { id := 0 } (portLine 80)) ↔ Place.hostPort.Safe 80 :=
  literal_exact_iff (portLine_writes 80)

/-- `port 18446744073709551696` is read as port 80. -/
theorem port_wraps :
    ¬ ∀ (round : Rounding) (place : Place) (ws : Workspace) (c : KdlNode) (i : Int),
      place.Writes round c i → place.Exact ws c i (readLine round ws c) := by
  intro every
  have exact := every flat .hostPort { id := 0 } (portLine (2 ^ 64 + 80)) _ (portLine_writes _)
  exact absurd ((exact_hostPort_iff (portLine_writes _)).1 exact) (by decide)

end Wk
