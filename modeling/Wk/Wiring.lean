/-
# Wk.Wiring -- which wire two nodes form, and how a toggle moves a link list

The pure decisions of `wiring.rs`: `classify` picks the wire (and its canonical
orientation) two node classes form, and `togglePair` and `toggleUnique` are the
two ways a link list changes.

Each toggle has one specification lemma per question asked of it later: what is
in the list afterwards (`mem_togglePair`, `mem_toggleUnique`), and that the list
keeps no pair twice.
-/
import Wk.Protocol
import Mathlib

namespace Wk

set_option autoImplicit false

/-- What a node is, for the purpose of classifying a wire between two nodes. -/
inductive NodeClass where
  | file | port | net | uplink | hostSvc | capture | clipboard | api | midiSource | midiSink
  /-- A boundary port declares its connection kind and the end of it that it plays. -/
  | boundary (dir : PortDir) (kind : PortKind)
  | router | instance_ | other
  deriving DecidableEq, Repr

namespace Wiring

/-- The wire a boundary port forms with the node it is wired to, already in its
canonical orientation.  An in-port takes the supplier's end, an out-port the
consumer's. -/
def boundaryWire (port : NodeId) (dir : PortDir) (kind : PortKind) (other : NodeId)
    (oc : NodeClass) : Option Wire :=
  -- The far end fits if it is the class this port's own end joins to, or the
  -- matching port of the same kind on the opposite edge.
  let fits (want : NodeClass) : Bool := oc = want || oc = .boundary dir.opposite kind
  match dir, kind with
  | .inward, .bind => if fits .other then some (.bind port other) else none
  | .inward, .midi => if fits .other || oc = .midiSink then some (.midi port other) else none
  | .inward, .capture => if fits .other then some (.capture other port) else none
  | .inward, .clipboard => if fits .other then some (.clipboard other port) else none
  | .inward, .api => if fits .other then some (.api other port) else none
  | .outward, .bind => if fits .file || oc = .other then some (.bind other port) else none
  | .outward, .midi => if fits .other || oc = .midiSource then some (.midi other port) else none
  | .outward, .capture => if fits .capture then some (.capture port other) else none
  | .outward, .clipboard => if fits .clipboard then some (.clipboard port other) else none
  | .outward, .api => if fits .api then some (.api port other) else none
  -- Refused at load; refusing the wire is the safe answer if one ever exists.
  | _, .net | _, .serve => none

/-- Classify the wire that connecting `a` and `b` would form, or `none` if the
pair cannot be wired.  A boundary port is matched first and on its own terms. -/
def classify (a b : NodeId) (ca cb : NodeClass) : Option Wire :=
  match ca, cb with
  | .boundary dir kind, cb => boundaryWire a dir kind b cb
  | ca, .boundary dir kind => boundaryWire b dir kind a ca
  | .file, .other => some (.bind a b)
  | .other, .file => some (.bind b a)
  | .port, .other => some (.serve b a)
  | .other, .port => some (.serve a b)
  | .net, .other | .net, .uplink | .net, .hostSvc | .net, .router => some (.net b a)
  | .other, .net | .uplink, .net | .hostSvc, .net | .router, .net => some (.net a b)
  | .capture, .other => some (.capture b a)
  | .other, .capture => some (.capture a b)
  | .clipboard, .other => some (.clipboard b a)
  | .other, .clipboard => some (.clipboard a b)
  | .api, .other => some (.api b a)
  | .other, .api => some (.api a b)
  | .midiSource, .other => some (.midi a b)
  | .other, .midiSource => some (.midi b a)
  | .midiSink, .other => some (.midi b a)
  | .other, .midiSink => some (.midi a b)
  | .midiSource, .midiSink => some (.midi a b)
  | .midiSink, .midiSource => some (.midi b a)
  | .other, .other => some (.midi a b)
  | _, _ => none

/-- A classified wire joins exactly the two nodes it was asked about. -/
theorem classify_ends {a b : NodeId} {ca cb : NodeClass} {w : Wire}
    (formed : classify a b ca cb = some w) : w.ends = (a, b) ∨ w.ends = (b, a) := by
  have boundary : ∀ {p o : NodeId} {dir : PortDir} {kind : PortKind} {oc : NodeClass},
      boundaryWire p dir kind o oc = some w → w.ends = (p, o) ∨ w.ends = (o, p) := by
    intro p o dir kind oc made
    cases dir <;> cases kind <;> simp only [boundaryWire, reduceCtorEq] at made <;>
      (split at made <;> [skip; cases made]) <;> cases made <;> simp [Wire.ends]
  unfold classify at formed
  split at formed
  · exact boundary formed
  · exact (boundary formed).symm
  all_goals first
    | (cases formed; simp [Wire.ends])
    | cases formed

/-! ## Toggles -/

/-- Toggle a plain link: remove it if present, else append it. -/
def togglePair (links : List Pair) (a b : NodeId) : List Pair :=
  if (a, b) ∈ links then links.erase (a, b) else links ++ [(a, b)]

/-- Toggle a "one destination per source" link: if the exact link exists, remove
it; otherwise drop any other link with the same source and add this one. -/
def toggleUnique (links : List Pair) (src dst : NodeId) : List Pair :=
  if (src, dst) ∈ links then links.erase (src, dst)
  else links.filter (fun l => l.1 ≠ src) ++ [(src, dst)]

theorem togglePair_of_mem {links : List Pair} {a b : NodeId} (present : (a, b) ∈ links) :
    togglePair links a b = links.erase (a, b) := if_pos present

theorem togglePair_of_not_mem {links : List Pair} {a b : NodeId} (absent : (a, b) ∉ links) :
    togglePair links a b = links ++ [(a, b)] := if_neg absent

theorem toggleUnique_of_mem {links : List Pair} {a b : NodeId} (present : (a, b) ∈ links) :
    toggleUnique links a b = links.erase (a, b) := if_pos present

theorem toggleUnique_of_not_mem {links : List Pair} {a b : NodeId} (absent : (a, b) ∉ links) :
    toggleUnique links a b = links.filter (fun l => l.1 ≠ a) ++ [(a, b)] := if_neg absent

theorem togglePair_nodup {links : List Pair} (nodup : links.Nodup) (a b : NodeId) :
    (togglePair links a b).Nodup := by
  unfold togglePair
  split
  · exact nodup.erase _
  · next absent =>
      rw [List.nodup_append]
      refine ⟨nodup, List.nodup_singleton _, ?_⟩
      rintro l member l' same rfl
      rw [List.mem_singleton.1 same] at member
      exact absent member

theorem toggleUnique_nodup {links : List Pair} (nodup : links.Nodup) (a b : NodeId) :
    (toggleUnique links a b).Nodup := by
  unfold toggleUnique
  split
  · exact nodup.erase _
  · next absent =>
      rw [List.nodup_append]
      refine ⟨nodup.filter _, List.nodup_singleton _, ?_⟩
      rintro l member l' same rfl
      rw [List.mem_singleton.1 same] at member
      exact absent (List.mem_of_mem_filter member)

/-- What a plain toggle leaves in a list without repeats. -/
theorem mem_togglePair {links : List Pair} (nodup : links.Nodup) {a b : NodeId} {l : Pair} :
    l ∈ togglePair links a b ↔ (l ∈ links ∧ l ≠ (a, b)) ∨ (l = (a, b) ∧ (a, b) ∉ links) := by
  by_cases present : (a, b) ∈ links
  · rw [togglePair_of_mem present, nodup.mem_erase_iff]
    simp [present, and_comm]
  · rw [togglePair_of_not_mem present, List.mem_append, List.mem_singleton]
    constructor
    · rintro (old | new)
      · exact .inl ⟨old, fun same => present (same ▸ old)⟩
      · exact .inr ⟨new, present⟩
    · rintro (⟨old, _⟩ | ⟨new, _⟩)
      · exact .inl old
      · exact .inr new

/-- What a one-per-source toggle leaves in a list without repeats. -/
theorem mem_toggleUnique {links : List Pair} (nodup : links.Nodup) {a b : NodeId} {l : Pair} :
    l ∈ toggleUnique links a b ↔
      ((a, b) ∈ links ∧ l ∈ links ∧ l ≠ (a, b)) ∨
      ((a, b) ∉ links ∧ ((l ∈ links ∧ l.1 ≠ a) ∨ l = (a, b))) := by
  by_cases present : (a, b) ∈ links
  · rw [toggleUnique_of_mem present, nodup.mem_erase_iff]
    simp [present, and_comm]
  · rw [toggleUnique_of_not_mem present, List.mem_append, List.mem_singleton, List.mem_filter]
    simp [present]

/-- A toggle, of either sort, adds at most the pair it names. -/
theorem mem_of_mem_togglePair {links : List Pair} {a b : NodeId} {l : Pair}
    (member : l ∈ togglePair links a b) : l ∈ links ∨ l = (a, b) := by
  unfold togglePair at member
  split at member
  · exact .inl (List.mem_of_mem_erase member)
  · simpa using member

theorem mem_of_mem_toggleUnique {links : List Pair} {a b : NodeId} {l : Pair}
    (member : l ∈ toggleUnique links a b) : l ∈ links ∨ l = (a, b) := by
  unfold toggleUnique at member
  split at member
  · exact .inl (List.mem_of_mem_erase member)
  · rw [List.mem_append, List.mem_singleton] at member
    exact member.imp_left List.mem_of_mem_filter

end Wiring

end Wk
