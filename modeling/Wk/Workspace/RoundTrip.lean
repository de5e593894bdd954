/-
# Wk.Workspace.RoundTrip -- what is written is read back

The reader of a placed node looks for each part of it by name, at a position that depends on
the keyword, and the writer leaves defaults out.  They agree on every value whose numbers
fit their fields and whose floats are written exactly.
-/
import Wk.Workspace.Load
import Wk.Workspace.Literals
import Wk.Workspace.Write

namespace Wk

open Wk.Library

set_option autoImplicit false

/-! ## Readings without a complaint -/

namespace Reading

variable {α β γ : Type}

instance : LawfulMonad Reading := LawfulMonad.mk' Reading
  (fun {_} x => by
    change (match x.made with
      | none => _
      | some a => _) = _
    cases made : x.made with
    | none => exact congrArg (Reading.mk · x.said) made.symm
    | some a => exact congrArg₂ Reading.mk made.symm (List.append_nil _))
  (fun {_ _} a f => by
    rw [bind_some (a := a) rfl]
    rfl)
  (fun {_ _ _} x f g => by
    cases made : x.made with
    | none => rw [bind_none made, bind_none rfl, bind_none made]
    | some a =>
      rw [bind_some made, bind_some made]
      cases next : (f a).made with
      | none => rw [bind_none next, bind_none rfl]
      | some b => rw [bind_some next, bind_some rfl, List.append_assoc])

/-- A run of lines, each of which puts in what it was written for. -/
theorem foldlM_put {line : γ → α} {f : β → α → Reading β} (put : β → List γ → β) (none_put : ∀ b, put b [] = b)
    (more_put : ∀ b x xs, put (put b [x]) xs = put b (x :: xs)) :
    ∀ {xs : List γ}, (∀ b, ∀ x ∈ xs, f b (line x) = pure (put b [x])) → ∀ b, (xs.map line).foldlM f b = pure (put b xs)
  | [], _, b => congrArg pure (none_put b).symm
  | x :: xs, reads, b => by
    rw [List.map_cons, List.foldlM_cons, reads b x (List.mem_cons_self ..), pure_bind,
      foldlM_put put none_put more_put fun b x member => reads b x (List.mem_cons_of_mem _ member), more_put]

end Reading

/-- Lines that are passed over. -/
theorem foldlM_idle {α β : Type} {m : Type → Type} [Monad m] [LawfulMonad m] {f : β → α → m β} {b : β} :
    ∀ {xs : List α}, (∀ x ∈ xs, f b x = pure b) → xs.foldlM f b = pure b
  | [], _ => rfl
  | x :: xs, idle => by
    rw [List.foldlM_cons, idle x (List.mem_cons_self ..), pure_bind]
    exact foldlM_idle fun x member => idle x (List.mem_cons_of_mem _ member)

/-! ## Lines -/

theorem nodeId_toText {id : NodeId} (small : id < 2 ^ 128) : nodeId (.string (NodeId.toText id)) = { made := some id } := by
  unfold nodeId
  rw [KdlValue.asString_string]
  dsimp only
  rw [NodeId.ofText_toText small]

/-- An id argument is read where it was written. -/
theorem idAt_eq {n : KdlNode} {i : Nat} {id : NodeId} (small : id < 2 ^ 128)
    (arg : n.get i = some (.string (NodeId.toText id))) : idAt n i = { made := some id } := by
  unfold idAt
  rw [arg, Reading.bind_some rfl, nodeId_toText small]
  rfl

theorem strAt_eq {n : KdlNode} {i : Nat} {s : String} (arg : n.get i = some (.string s)) : strAt n i = some s := by
  rw [strAt, arg, Option.bind_some, KdlValue.asString_string]

theorem num_widen {round : Rounding} {v : F32} (exact : round.float (round.widen v) = v) :
    num round (.float (round.widen v)) = some v := by
  rw [num, KdlValue.asFloat_float, Option.map_some, exact, Option.some_or]

@[simp] theorem strLine_name (key value : String) : (strLine key value).name = key := rfl

@[simp] theorem strLine_get (key value : String) : (strLine key value).get 0 = some (.string value) := rfl

@[simp] theorem node2_name (round : Rounding) (key : String) (v : Vec2) : (node2 round key v).name = key := rfl

/-- A line that is there for a value only. -/
theorem get_optional (o : Option String) (key name : String) :
    KdlDocument.get (o.map (strLine key)).toList name = if key = name then o.map (strLine key) else none := by
  cases o with
  | none => exact (ite_self none).symm
  | some value => exact KdlDocument.get_cons ..

theorem textIn_of_get {ch : KdlDocument} {name : String} {o : Option String}
    (found : ch.get name = o.map (strLine name)) : textIn ch name = o := by
  rw [textIn, found]
  cases o <;> rfl

/-! ## The block of a placed node -/

namespace SnapKind

/-- The keys of what a block says before the geometry. -/
theorem content_key {k : SnapKind} {n : KdlNode} (member : n ∈ k.content) :
    n.name ∈ ["secret", "peer", "port", "text", "target", "iface", "group", "in", "out", "persist"] := by
  have strs : ∀ {o : Option String} {key : String}, n ∈ (o.map (strLine key)).toList → n.name = key := by
    intro o key there
    obtain ⟨value, _, rfl⟩ := Option.map_eq_some_iff.1 (Option.mem_toList.1 there)
    rfl
  have wires : ∀ {key : String} {ws : List (String × NodeId)}, n ∈ wireLines key ws → n.name = key := by
    intro key ws there
    obtain ⟨w, _, rfl⟩ := List.mem_map.1 there
    rfl
  unfold content at member
  split at member
  · rcases List.mem_append.1 member with there | there <;> simp [strs there]
  · rcases List.mem_append.1 member with there | there <;> simp [strs there]
  · rw [List.mem_singleton.1 member]; simp
  · rw [List.mem_singleton.1 member]; simp
  · rw [List.mem_singleton.1 member]; simp
  · rcases List.mem_append.1 member with there | there
    · simp [strs there]
    · obtain ⟨g, _, rfl⟩ := List.mem_map.1 there
      simp
  · rcases List.mem_append.1 member with there | there <;> simp [wires there]
  · rw [List.mem_singleton.1 member]; simp
  · cases member

theorem get_content {k : SnapKind} {key : String}
    (other : key ∉ ["secret", "peer", "port", "text", "target", "iface", "group", "in", "out", "persist"]) :
    KdlDocument.get k.content key = none :=
  KdlDocument.get_of_ne fun _ member same => other (same ▸ content_key member)

/-- Only an app says anything after the geometry. -/
theorem extras_key {round : Rounding} {k : SnapKind} {n : KdlNode} (member : n ∈ k.extras round) :
    n.name ∈ ["options", "args", "token"] := by
  unfold extras at member
  split at member
  · rcases List.mem_append.1 member with there | there
    · rcases List.mem_append.1 there with there | there
      · split at there
        · cases there
        · rw [List.mem_singleton.1 there]; simp
      · split at there
        · cases there
        · rw [List.mem_singleton.1 there]; simp
    · obtain ⟨value, _, rfl⟩ := Option.map_eq_some_iff.1 (Option.mem_toList.1 there)
      simp
  · cases member

theorem get_extras {round : Rounding} {k : SnapKind} {key : String} (other : key ∉ ["options", "args", "token"]) :
    KdlDocument.get (k.extras round) key = none :=
  KdlDocument.get_of_ne fun _ member same => other (same ▸ extras_key member)

end SnapKind

/-! ## Geometry -/

namespace NodeSnap

/-- Every float a node writes. -/
def floats (s : NodeSnap) : List F32 :=
  [s.pos.1, s.pos.2, s.size.1, s.size.2] ++ (s.pos3d.map fun p => [p.1, p.2.1, p.2.2.1, p.2.2.2]).getD [] ++
    match s.kind with
    | .app _ _ options .. => options
    | _ => []

end NodeSnap

section

variable {round : Rounding} {s : NodeSnap}

theorem get_pos : KdlDocument.get (snapBlock round s) "pos" = some (node2 round "pos" s.pos) := by
  have content : KdlDocument.get s.kind.content "pos" = none := SnapKind.get_content (by decide)
  simp [snapBlock, get_optional, content]

theorem get_size : KdlDocument.get (snapBlock round s) "size" = some (node2 round "size" s.size) := by
  have content : KdlDocument.get s.kind.content "size" = none := SnapKind.get_content (by decide)
  simp [snapBlock, get_optional, content]

theorem get_pos3d : KdlDocument.get (snapBlock round s) "pos3d" = s.pos3d.map fun p =>
    .line "pos3d" ([p.1, p.2.1, p.2.2.1, p.2.2.2].map fun v => .float (round.widen v)) := by
  have content : KdlDocument.get s.kind.content "pos3d" = none := SnapKind.get_content (by decide)
  have extras : KdlDocument.get (s.kind.extras round) "pos3d" = none := SnapKind.get_extras (by decide)
  unfold snapBlock
  cases s.pos3d <;> cases s.panel3d <;> simp [get_optional, content, extras]

theorem get_panel3d : KdlDocument.get (snapBlock round s) "panel3d" =
    if s.panel3d then none else some (.line "panel3d" [.bool false]) := by
  have content : KdlDocument.get s.kind.content "panel3d" = none := SnapKind.get_content (by decide)
  have extras : KdlDocument.get (s.kind.extras round) "panel3d" = none := SnapKind.get_extras (by decide)
  unfold snapBlock
  cases s.pos3d <;> cases s.panel3d <;> simp [get_optional, content, extras]

/-- A key of the block that is not about the geometry. -/
theorem get_told {key : String} (other : key ∉ ["pos", "size", "pos3d", "panel3d"]) :
    KdlDocument.get (snapBlock round s) key =
      (KdlDocument.get (s.kind.chosen.map (strLine "name")).toList key).or
        ((KdlDocument.get s.kind.content key).or (KdlDocument.get (s.kind.extras round) key)) := by
  have pos : "pos" ≠ key := fun same => other (same ▸ by simp)
  have size : "size" ≠ key := fun same => other (same ▸ by simp)
  have pos3d : "pos3d" ≠ key := fun same => other (same ▸ by simp)
  have panel3d : "panel3d" ≠ key := fun same => other (same ▸ by simp)
  unfold snapBlock
  cases s.pos3d <;> cases s.panel3d <;> simp [pos, size, pos3d, panel3d]

theorem geometry_snapBlock (declaration : Bool) (exact : ∀ v ∈ s.floats, round.float (round.widen v) = v) :
    geometry round declaration (snapBlock round s) = some (s.pos, s.size) := by
  have read : ∀ {key : String} {v : Vec2}, v.1 ∈ s.floats → v.2 ∈ s.floats →
      KdlDocument.get (snapBlock round s) key = some (node2 round key v) → xyIn round (snapBlock round s) key = some v := by
    intro key v left right found
    have first : ((node2 round key v).get 0).bind (num round) = some v.1 := num_widen (exact _ left)
    have second : ((node2 round key v).get 1).bind (num round) = some v.2 := num_widen (exact _ right)
    unfold xyIn
    rw [found]
    change (do return (← ((node2 round key v).get 0).bind (num round), ← ((node2 round key v).get 1).bind (num round))) = _
    rw [first, second]
    rfl
  unfold geometry
  rw [read (by simp [NodeSnap.floats]) (by simp [NodeSnap.floats]) get_pos,
    read (by simp [NodeSnap.floats]) (by simp [NodeSnap.floats]) get_size]

theorem poseIn_snapBlock (exact : ∀ v ∈ s.floats, round.float (round.widen v) = v) :
    poseIn round (snapBlock round s) = s.pos3d := by
  unfold poseIn
  rw [get_pos3d]
  cases pose : s.pos3d with
  | none => rfl
  | some p =>
    have all : ∀ v ∈ [p.1, p.2.1, p.2.2.1, p.2.2.2], num round (.float (round.widen v)) = some v :=
      fun v member => num_widen (exact v (by
        rw [NodeSnap.floats, pose]
        exact List.mem_append_left _ (List.mem_append_right _ member)))
    simp [all]

theorem panel3d_snapBlock : (flagIn (snapBlock round s) "panel3d").getD true = s.panel3d := by
  unfold flagIn
  rw [get_panel3d]
  cases s.panel3d <;> rfl

end

/-! ## Kinds -/

/-- The numbers of a kind fit their fields. -/
def SnapKind.Fits : SnapKind → Prop
  | .port p => p < 2 ^ 16
  | .group _ _ inWires outWires => ∀ w ∈ inWires ++ outWires, w.2 < 2 ^ 128
  | _ => True

/-- Every number of a node fits its field, and its floats are written and read exactly. -/
structure NodeSnap.Sound (round : Rounding) (s : NodeSnap) : Prop where
  id : s.id < 2 ^ 128
  floats : ∀ v ∈ s.floats, round.float (round.widen v) = v
  kind : s.kind.Fits

section

variable {round : Rounding} {s : NodeSnap}

@[simp] theorem snapKdl_name : (snapKdl round s).name = s.kind.keyword := rfl

@[simp] theorem snapKdl_block : (snapKdl round s).block = snapBlock round s := rfl

theorem snapKdl_get (i : Nat) :
    (snapKdl round s).get i = ((s.kind.lead ++ [NodeId.toText s.id]).map KdlValue.string)[i]? :=
  KdlNode.get_args rfl i

theorem strAt_lead {k : SnapKind} (kind : s.kind = k) {i : Nat} {name : String} (led : k.lead[i]? = some name) :
    strAt (snapKdl round s) i = some name := by
  refine strAt_eq ?_
  rw [snapKdl_get, kind, List.getElem?_map, List.getElem?_append_left (List.getElem?_eq_some_iff.1 led).1, led]
  rfl

theorem textIn_name : textIn (snapBlock round s) "name" = s.kind.chosen := by
  refine textIn_of_get ?_
  rw [get_told (by decide), get_optional, if_pos rfl, SnapKind.get_content (by decide),
    SnapKind.get_extras (by decide), Option.or_none, Option.or_none]

/-- The part of a block that is a kind's own. -/
theorem get_own {key : String} (other : key ∉ ["name", "pos", "size", "pos3d", "panel3d"]) :
    KdlDocument.get (snapBlock round s) key =
      (KdlDocument.get s.kind.content key).or (KdlDocument.get (s.kind.extras round) key) := by
  have name : "name" ≠ key := fun same => other (same ▸ by simp)
  rw [get_told fun member => other (List.mem_cons_of_mem _ member), get_optional, if_neg name, Option.none_or]

theorem idArgIndex_keyword (k : SnapKind) : idArgIndex k.keyword = k.lead.length := by
  cases k with
  | net gateway => cases gateway <;> rfl
  | _ => simp [idArgIndex, SnapKind.keyword, SnapKind.lead]

/-- A list is left out where it is empty, and read as empty where it is left out. -/
theorem filterMap_args {α : Type} {line : Option KdlNode} {key : String} {xs : List α} {write : α → KdlValue}
    {read : KdlValue → Option α} (written : line = if xs = [] then none else some (.line key (xs.map write)))
    (back : ∀ x ∈ xs, read (write x) = some x) :
    (line.map fun n => n.entries.filterMap fun e => read e.value).getD [] = xs := by
  rw [written]
  by_cases empty : xs = []
  · rw [if_pos empty, empty]
    rfl
  · rw [if_neg empty, Option.map_some, Option.getD_some, KdlNode.line_values, List.filterMap_map]
    exact (List.filterMap_congr back).trans List.filterMap_some

/-- An app's options and arguments are written after the geometry. -/
theorem parseKind_app {dep : String} {name : Option String} {options : List F32} {args : List String} {token : Option String}
    (kind : s.kind = .app dep name options args token) (exact : ∀ v ∈ s.floats, round.float (round.widen v) = v) :
    parseKind round (snapKdl round s) (snapBlock round s) = pure s.kind := by
  have own : ∀ {key : String}, key ∉ ["name", "pos", "size", "pos3d", "panel3d"] →
      KdlDocument.get (snapBlock round s) key = KdlDocument.get (s.kind.extras round) key := by
    intro key other
    rw [get_own other, kind]
    rfl
  have word : (snapKdl round s).name = "node" := by rw [snapKdl_name, kind]; rfl
  have lead : strAt (snapKdl round s) 0 = some dep := strAt_lead kind rfl
  have chosen : textIn (snapBlock round s) "name" = name := by rw [textIn_name, kind]; rfl
  have optionsRead := @filterMap_args _ (KdlDocument.get (snapBlock round s) "options") "options" options
    (fun v => .float (round.widen v)) (num round)
    (by
      rw [own (by decide), kind]
      unfold SnapKind.extras
      cases options <;> cases args <;> simp [get_optional])
    fun v member => num_widen (exact v (by
      rw [NodeSnap.floats, kind]
      exact List.mem_append_right _ member))
  have argsRead := @filterMap_args _ (KdlDocument.get (snapBlock round s) "args") "args" args .string KdlValue.asString
    (by
      rw [own (by decide), kind]
      unfold SnapKind.extras
      cases options <;> cases args <;> simp [get_optional])
    fun _ _ => rfl
  have tokenRead : textIn (snapBlock round s) "token" = token := by
    refine textIn_of_get ?_
    rw [own (by decide), kind]
    unfold SnapKind.extras
    cases options <;> cases args <;> simp [get_optional]
  simp only [parseKind, word, optionsRead, argsRead, tokenRead, chosen, lead, kind]
  rfl

/-- What the wire reader does with one line of a block. -/
theorem groupWires_step : ∃ f : List (String × NodeId) × List (String × NodeId) → KdlNode →
      Reading (List (String × NodeId) × List (String × NodeId)),
    (∀ ch, groupWires ch = ch.foldlM f ([], [])) ∧
      (∀ wires, ∀ w : String × NodeId, w.2 < 2 ^ 128 →
        f wires (.line "in" [.string w.1, .string (NodeId.toText w.2)]) = pure (wires.1 ++ [w], wires.2)) ∧
      (∀ wires, ∀ w : String × NodeId, w.2 < 2 ^ 128 →
        f wires (.line "out" [.string w.1, .string (NodeId.toText w.2)]) = pure (wires.1, wires.2 ++ [w])) ∧
      ∀ wires n, n.name ∉ ["in", "out"] → f wires n = pure wires := by
  have port : ∀ {key : String} {w : String × NodeId},
      strAt (.line key [.string w.1, .string (NodeId.toText w.2)]) 0 = some w.1 := fun {key w} =>
    strAt_eq (KdlNode.line_get ..)
  have node : ∀ {key : String} {w : String × NodeId}, w.2 < 2 ^ 128 →
      idAt (.line key [.string w.1, .string (NodeId.toText w.2)]) 1 = pure w.2 := fun {key w} small =>
    idAt_eq small (KdlNode.line_get ..)
  refine ⟨_, fun _ => rfl, fun wires w small => ?_, fun wires w small => ?_, fun wires n other => ?_⟩
  · rw [KdlNode.line_name, if_pos rfl, port, node small]
    rfl
  · rw [KdlNode.line_name, if_neg (by decide), if_pos rfl, port, node small]
    rfl
  · rw [if_neg (fun same => other (by simp [same])), if_neg (fun same => other (by simp [same]))]

/-- The boundary wires of a group are the only lines of its block the wire reader takes up. -/
theorem groupWires_snapBlock {definition : String} {name : Option String} {inWires outWires : List (String × NodeId)}
    (kind : s.kind = .group definition name inWires outWires) (fits : s.kind.Fits) :
    groupWires (snapBlock round s) = pure (inWires, outWires) := by
  obtain ⟨f, eq, inward, outward, other⟩ := groupWires_step
  rw [kind] at fits
  have ins : ∀ b, (SnapKind.wireLines "in" inWires).foldlM f b = pure (b.1 ++ inWires, b.2) :=
    Reading.foldlM_put (fun b xs => (b.1 ++ xs, b.2)) (by simp) (by simp)
      fun b w member => inward b w (fits w (List.mem_append_left _ member))
  have outs : ∀ b, (SnapKind.wireLines "out" outWires).foldlM f b = pure (b.1, b.2 ++ outWires) :=
    Reading.foldlM_put (fun b xs => (b.1, b.2 ++ xs)) (by simp) (by simp)
      fun b w member => outward b w (fits w (List.mem_append_right _ member))
  have content : s.kind.content = SnapKind.wireLines "in" inWires ++ SnapKind.wireLines "out" outWires := by
    rw [kind]
    rfl
  have idle : ∀ {lines : KdlDocument} {b}, (∀ n ∈ lines, n.name ∉ ["in", "out"]) → lines.foldlM f b = pure b :=
    fun names => foldlM_idle fun n member => other _ n (names n member)
  rw [eq, snapBlock, content, kind]
  simp only [List.foldlM_append]
  rw [idle, pure_bind, ins, pure_bind, outs, pure_bind, idle, pure_bind, idle, pure_bind, idle, pure_bind, idle]
  · rfl
  · exact fun _ member => absurd member (List.not_mem_nil)
  · cases s.panel3d <;> simp
  · cases s.pos3d <;> simp
  · simp
  · cases (SnapKind.group definition name inWires outWires).chosen <;> simp

theorem textIn_own {k : SnapKind} (kind : s.kind = k) {key : String} {o : Option String}
    (other : key ∉ ["name", "pos", "size", "pos3d", "panel3d"]) (bare : k.extras round = [])
    (found : KdlDocument.get k.content key = o.map (strLine key)) : textIn (snapBlock round s) key = o :=
  textIn_of_get (by rw [get_own other, kind, bare, found]; exact Option.or_none)

/-- Every kind is read as what was written. -/
theorem parseKind_snapKdl (sound : s.Sound round) :
    parseKind round (snapKdl round s) (snapBlock round s) = pure s.kind := by
  have word : (snapKdl round s).name = s.kind.keyword := rfl
  cases kind : s.kind with
  | app dep name options args token => exact (parseKind_app kind sound.floats).trans (congrArg pure kind)
  | volume name persist =>
    have lead : strAt (snapKdl round s) 0 = some name := strAt_lead kind rfl
    have flag : (flagIn (snapBlock round s) "persist").getD false = persist := by
      rw [flagIn, get_own (by decide), kind]
      cases persist <;> rfl
    simp only [parseKind, word, kind, SnapKind.keyword, lead, flag]
    rfl
  | bindMount path =>
    have lead : strAt (snapKdl round s) 0 = some path := strAt_lead kind rfl
    simp only [parseKind, word, kind, SnapKind.keyword, lead]
    rfl
  | port p =>
    have read : hostPort (snapBlock round s) = some p := by
      have fits : p < 2 ^ 16 := by
        have fits := sound.kind
        rwa [kind] at fits
      rw [hostPort, get_own (by decide), kind]
      exact port_eq ⟨Int.natCast_nonneg p, by omega⟩
    simp only [parseKind, word, kind, SnapKind.keyword, read]
    rfl
  | net gateway => cases gateway <;> simp only [parseKind, word, kind, SnapKind.keyword]
  | router | capture | clipboard | api => simp only [parseKind, word, kind, SnapKind.keyword]
  | iroh secret peer | veilid secret peer =>
    have first : textIn (snapBlock round s) "secret" = secret :=
      textIn_own kind (by decide) rfl (by cases secret <;> cases peer <;> rfl)
    have second : textIn (snapBlock round s) "peer" = peer :=
      textIn_own kind (by decide) rfl (by cases secret <;> cases peer <;> rfl)
    simp only [parseKind, word, kind, SnapKind.keyword, first, second]
  | note text =>
    have read : textIn (snapBlock round s) "text" = text := textIn_own kind (by decide) rfl rfl
    simp only [parseKind, word, kind, SnapKind.keyword, read, Option.getD_some]
  | midiIn device | midiOut device =>
    have lead : strAt (snapKdl round s) 0 = some device := strAt_lead kind rfl
    simp only [parseKind, word, kind, SnapKind.keyword, lead, Option.getD_some]
  | hostService name target =>
    have lead : strAt (snapKdl round s) 0 = some name := strAt_lead kind rfl
    have read : textIn (snapBlock round s) "target" = target := textIn_own kind (by decide) rfl rfl
    simp only [parseKind, word, kind, SnapKind.keyword, lead, read]
    rfl
  | multicast iface groups =>
    have read : textIn (snapBlock round s) "iface" = iface :=
      textIn_own kind (by decide) rfl (by
        rw [SnapKind.content, KdlDocument.get_append, get_optional, if_pos rfl, KdlDocument.get_map groups (strLine "group") (fun _ => rfl) (by decide),
          Option.or_none])
    have list : ((snapBlock round s).named "group").filterMap (fun c => strAt c 0) = groups := by
      have own : KdlDocument.named (groups.map (strLine "group")) "group" = groups.map (strLine "group") :=
        KdlDocument.named_self fun n member => by
          obtain ⟨g, _, rfl⟩ := List.mem_map.1 member
          rfl
      have only : (snapBlock round s).named "group" = groups.map (strLine "group") := by
        rw [snapBlock, kind]
        cases iface <;> cases s.pos3d <;> cases s.panel3d <;> simp [SnapKind.chosen, SnapKind.content, SnapKind.extras, own]
      rw [only, List.filterMap_map]
      exact List.filterMap_some
    simp only [parseKind, word, kind, SnapKind.keyword, read, snapKdl_block, list]
  | inPort name port | outPort name port =>
    have lead : strAt (snapKdl round s) 0 = some name := strAt_lead kind rfl
    have carried : strAt (snapKdl round s) 1 = some port.asStr := strAt_lead kind rfl
    simp only [parseKind, word, kind, SnapKind.keyword, lead, carried]
    cases port <;> rfl
  | group definition name inWires outWires =>
    have lead : strAt (snapKdl round s) 0 = some definition := strAt_lead kind rfl
    have chosen : textIn (snapBlock round s) "name" = name := by rw [textIn_name, kind]; rfl
    have wires : groupWires (snapBlock round s) = pure (inWires, outWires) := groupWires_snapBlock kind sound.kind
    simp only [parseKind, word, kind, SnapKind.keyword, lead, chosen, wires]
    rfl

theorem idAt_snapKdl (sound : s.Sound round) : idAt (snapKdl round s) (idArgIndex s.kind.keyword) = pure s.id := by
  refine idAt_eq sound.id ?_
  rw [snapKdl_get, idArgIndex_keyword, List.getElem?_map, List.getElem?_append_right (Nat.le_refl _), Nat.sub_self]
  rfl

/-- A placed node is read back. -/
theorem parseSnap_snapKdl (sound : s.Sound round) : parseSnap round (snapKdl round s) = pure s := by
  have block : (snapKdl round s).children = some (snapBlock round s) := rfl
  unfold parseSnap
  rw [snapKdl_name, idAt_snapKdl sound, pure_bind, block, Option.some_or]
  have some_bind : ∀ {α β : Type} (a : α) (f : α → Reading β), (liftM (some a) : Reading α) >>= f = f a :=
    fun a f => pure_bind a f
  rw [some_bind, parseKind_snapKdl sound, pure_bind, geometry_snapBlock _ sound.floats, some_bind,
    poseIn_snapBlock sound.floats, panel3d_snapBlock]

theorem readLine_snapKdl (sound : s.Sound round) (ws : Workspace) :
    readLine round ws (snapKdl round s) = pure { ws with nodes := ws.nodes ++ [s] } := by
  have word : (snapKdl round s).name = s.kind.keyword := rfl
  have parsed := parseSnap_snapKdl sound
  cases kind : s.kind with
  | net gateway => cases gateway <;> simp only [readLine, word, kind, SnapKind.keyword] <;> rw [parsed] <;> rfl
  | _ => simp only [readLine, word, kind, SnapKind.keyword]; rw [parsed]; rfl

end

/-! ## Wires -/

namespace Workspace

def addLinks (ws : Workspace) (rel : WireRel) (ps : List Pair) : Workspace :=
  { ws with links := Function.update ws.links rel (ws.links rel ++ ps) }

@[simp] theorem addLinks_nil (ws : Workspace) (rel : WireRel) : ws.addLinks rel [] = ws := by
  rw [addLinks, List.append_nil, Function.update_eq_self]

theorem addLinks_addLinks (ws : Workspace) (rel : WireRel) (ps qs : List Pair) :
    (ws.addLinks rel ps).addLinks rel qs = ws.addLinks rel (ps ++ qs) := by
  simp only [addLinks, Function.update_self, Function.update_idem, List.append_assoc]

end Workspace

section

variable {round : Rounding} {rel : WireRel} {ps : List Pair}

/-- Both ends of each wire are ids. -/
def Ends (ps : List Pair) : Prop := ∀ p ∈ ps, p.1 < 2 ^ 128 ∧ p.2 < 2 ^ 128

theorem pairKdl_get (name : String) (p : Pair) (more : Option KdlValue) : (pairKdl name p more).get 2 = more := by
  rw [pairKdl, KdlNode.line_get]
  cases more <;> rfl

theorem pairOf_pairKdl {name : String} {p : Pair} (small : p.1 < 2 ^ 128 ∧ p.2 < 2 ^ 128) (more : Option KdlValue) :
    pairOf (pairKdl name p more) = pure p := by
  have first : idAt (pairKdl name p more) 0 = pure p.1 := idAt_eq small.1 (KdlNode.line_get ..)
  have second : idAt (pairKdl name p more) 1 = pure p.2 := idAt_eq small.2 (KdlNode.line_get ..)
  rw [pairOf, first, second]
  rfl

/-- The wires of one relation are read back, with what rides along on each. -/
theorem readWires {third : Pair → Option KdlValue} {arg : Workspace → Pair → KdlValue → Workspace}
    (line : ∀ ws c, c.name = rel.word → readLine round ws c = readWire ws rel c arg) (put : Workspace → List Pair → Workspace)
    (none_put : ∀ ws, put ws [] = ws) (more_put : ∀ ws p ps, put (put ws [p]) ps = put ws (p :: ps)) (small : Ends ps)
    (one : ∀ ws, ∀ p ∈ ps, ((third p).map (arg (ws.addLink rel p) p)).getD (ws.addLink rel p) = put ws [p]) (ws : Workspace) :
    (ps.map fun p => pairKdl rel.word p (third p)).foldlM (readLine round) ws = pure (put ws ps) := by
  refine Reading.foldlM_put put none_put more_put (fun ws p member => ?_) ws
  rw [line ws _ rfl, readWire, pairOf_pairKdl (small p member), pairKdl_get]
  exact congrArg pure (one ws p member)

/-- Wires on which nothing rides along. -/
theorem readPlainWires (line : ∀ ws c, c.name = rel.word → readLine round ws c = readWire ws rel c fun ws _ _ => ws)
    (small : Ends ps) (ws : Workspace) :
    (ps.map fun p => pairKdl rel.word p none).foldlM (readLine round) ws = pure (ws.addLinks rel ps) :=
  readWires line (fun ws ps => ws.addLinks rel ps) (fun ws => ws.addLinks_nil rel)
    (fun ws p ps => ws.addLinks_addLinks rel [p] ps) small (fun _ _ _ => rfl) ws

/-- The binds, with where each mounts. -/
def putConnections (paths : Table Pair String) (ws : Workspace) (ps : List Pair) : Workspace :=
  { ws.addLinks .connection ps with mountPaths := paths.copy ws.mountPaths ps }

/-- The MIDI links, with the channel each carries. -/
def putMidi (channels : Table Pair Nat) (ws : Workspace) (ps : List Pair) : Workspace :=
  { ws.addLinks .midi ps with midiChannels := channels.copy ws.midiChannels ps }

/-- The serve wires, with the container port of each. -/
def putServes (ports : Table Pair Nat) (ws : Workspace) (ps : List Pair) : Workspace :=
  { ws.addLinks .serve ps with servePorts := ports.copy ws.servePorts ps }

theorem readConnections (paths : Table Pair String) (small : Ends ps) (ws : Workspace) :
    (ps.map fun p => pairKdl WireRel.connection.word p ((paths.lookup p).map .string)).foldlM (readLine round) ws =
      pure (putConnections paths ws ps) := by
  refine @readWires round .connection ps _ mountArg (fun ws c name => ?_) (putConnections paths) (fun ws => ?_)
    (fun ws p ps => ?_) small (fun ws p _ => ?_) ws
  · simp only [readLine, name, WireRel.word]
  · rw [putConnections, Workspace.addLinks_nil]; rfl
  · exact congrArg (fun after : Workspace => { after with mountPaths := paths.copy ws.mountPaths (p :: ps) })
      (ws.addLinks_addLinks .connection [p] ps)
  · rw [putConnections]
    cases found : paths.lookup p with
    | none => rw [Table.copy_of_none found]; rfl
    | some path => rw [Table.copy_of_some found]; rfl

theorem readMidi (channels : Table Pair Nat) (fits : ∀ p ch, channels.lookup p = some ch → 1 ≤ ch ∧ ch ≤ 16)
    (small : Ends ps) (ws : Workspace) :
    (ps.map fun p => pairKdl WireRel.midi.word p ((channels.lookup p).map fun ch => .integer ch)).foldlM (readLine round) ws =
      pure (putMidi channels ws ps) := by
  refine @readWires round .midi ps _ channelArg (fun ws c name => ?_) (putMidi channels) (fun ws => ?_)
    (fun ws p ps => ?_) small (fun ws p _ => ?_) ws
  · simp only [readLine, name, WireRel.word]
  · rw [putMidi, Workspace.addLinks_nil]; rfl
  · exact congrArg (fun after : Workspace => { after with midiChannels := channels.copy ws.midiChannels (p :: ps) })
      (ws.addLinks_addLinks .midi [p] ps)
  · rw [putMidi]
    cases found : channels.lookup p with
    | none => rw [Table.copy_of_none found]; rfl
    | some ch =>
      have range := fits p ch found
      have cut : uint (.integer ch) = some ch := uint_of_small (Int.natCast_nonneg ch) (by omega)
      rw [Table.copy_of_some found]
      change channelArg (ws.addLink .midi p) p (.integer ch) = _
      rw [channelArg, cut]
      exact if_pos range

theorem readServes (ports : Table Pair Nat) (fits : ∀ p port, ports.lookup p = some port → port < 2 ^ 16)
    (small : Ends ps) (ws : Workspace) :
    (ps.map fun p => pairKdl WireRel.serve.word p ((ports.lookup p).map fun port => .integer port)).foldlM (readLine round) ws =
      pure (putServes ports ws ps) := by
  refine @readWires round .serve ps _ portArg (fun ws c name => ?_) (putServes ports) (fun ws => ?_)
    (fun ws p ps => ?_) small (fun ws p _ => ?_) ws
  · simp only [readLine, name, WireRel.word]
  · rw [putServes, Workspace.addLinks_nil]; rfl
  · exact congrArg (fun after : Workspace => { after with servePorts := ports.copy ws.servePorts (p :: ps) })
      (ws.addLinks_addLinks .serve [p] ps)
  · rw [putServes]
    cases found : ports.lookup p with
    | none => rw [Table.copy_of_none found]; rfl
    | some port =>
      have range := fits p port found
      have cut : (uint (.integer port)).bind asU16 = some port := port_eq ⟨Int.natCast_nonneg port, by omega⟩
      rw [Table.copy_of_some found]
      change portArg (ws.addLink .serve p) p (.integer port) = _
      rw [portArg, cut]
      rfl

end

/-! ## Workspaces -/

/-- The nodes of a workspace can be written, its ids fit, and what rides along does so on
a wire of its relation and within its range. -/
structure Workspace.Sound (round : Rounding) (ws : Workspace) : Prop where
  id : ws.id < 2 ^ 128
  nodes : ∀ s ∈ ws.nodes, s.Sound round
  links : ∀ rel, Ends (ws.links rel)
  mountPaths : ∀ p path, ws.mountPaths.lookup p = some path → p ∈ ws.connections
  midiChannels : ∀ p ch, ws.midiChannels.lookup p = some ch → p ∈ ws.midi ∧ 1 ≤ ch ∧ ch ≤ 16
  servePorts : ∀ p port, ws.servePorts.lookup p = some port → p ∈ ws.serves ∧ port < 2 ^ 16

/-- Equal workspaces: the order of rows in a map does not count. -/
structure Workspace.Same (ws ws' : Workspace) : Prop where
  id : ws.id = ws'.id
  name : ws.name = ws'.name
  tab : ws.tab = ws'.tab
  nodes : ws.nodes = ws'.nodes
  links : ws.links = ws'.links
  mountPaths : ∀ p, ws.mountPaths.lookup p = ws'.mountPaths.lookup p
  midiChannels : ∀ p, ws.midiChannels.lookup p = ws'.midiChannels.lookup p
  servePorts : ∀ p, ws.servePorts.lookup p = ws'.servePorts.lookup p

namespace Workspace

/-- What is read from a written workspace. -/
def reread (ws : Workspace) : Workspace :=
  { ws with
    mountPaths := ws.mountPaths.copy ∅ ws.connections
    midiChannels := ws.midiChannels.copy ∅ ws.midi
    servePorts := ws.servePorts.copy ∅ ws.serves }

theorem Sound.reread_same {round : Rounding} {ws : Workspace} (sound : ws.Sound round) : ws.reread.Same ws where
  id := rfl
  name := rfl
  tab := rfl
  nodes := rfl
  links := rfl
  mountPaths := Table.lookup_copy_empty sound.mountPaths
  midiChannels := Table.lookup_copy_empty fun p ch found => (sound.midiChannels p ch found).1
  servePorts := Table.lookup_copy_empty fun p port found => (sound.servePorts p port found).1

end Workspace

section

variable {round : Rounding} {ws : Workspace}

theorem readName (name : Option String) (start : Workspace) (fresh : start.name = none) :
    (name.map (strLine "name")).toList.foldlM (readLine round) start = pure { start with name } := by
  cases name with
  | none =>
    cases start
    cases fresh
    rfl
  | some name => rfl

theorem readTab (tab : Bool) (start : Workspace) (fresh : start.tab = true) :
    (if tab then [] else [KdlNode.line "tab" [.bool false]]).foldlM (readLine round) start = pure { start with tab } := by
  cases tab with
  | true =>
    cases start
    cases fresh
    rfl
  | false => rfl

theorem readNodes {nodes : List NodeSnap} (sound : ∀ s ∈ nodes, s.Sound round) (start : Workspace) :
    (nodes.map (snapKdl round)).foldlM (readLine round) start = pure { start with nodes := start.nodes ++ nodes } :=
  Reading.foldlM_put (fun start nodes => { start with nodes := start.nodes ++ nodes }) (fun start => by simp)
    (fun start s nodes => by simp) (fun start s member => readLine_snapKdl (sound s member) start) start

/-- A workspace is read back line by line. -/
theorem parseWorkspace_workspaceKdl (sound : ws.Sound round) :
    parseWorkspace round (workspaceKdl round ws) = pure ws.reread := by
  have arg : (workspaceKdl round ws).get 0 = [KdlValue.string (NodeId.toText ws.id)][0]? := KdlNode.get_args rfl 0
  have head : idAt (workspaceKdl round ws) 0 = pure ws.id := idAt_eq sound.id arg
  have block : (workspaceKdl round ws).block = workspaceBlock round ws := rfl
  have plain : ∀ rel, ∀ start : Workspace,
      (∀ ws c, c.name = WireRel.word rel → readLine round ws c = readWire ws rel c fun ws _ _ => ws) →
        (wiresKdl ws rel fun _ => none).foldlM (readLine round) start = pure (start.addLinks rel (ws.links rel)) :=
    fun rel start line => readPlainWires line (sound.links rel) start
  have binds : ∀ start : Workspace,
      (wiresKdl ws .connection fun p => (ws.mountPaths.lookup p).map .string).foldlM (readLine round) start =
        pure (putConnections ws.mountPaths start ws.connections) :=
    readConnections ws.mountPaths (sound.links _)
  have midi : ∀ start : Workspace,
      (wiresKdl ws .midi fun p => (ws.midiChannels.lookup p).map fun ch => .integer ch).foldlM (readLine round) start =
        pure (putMidi ws.midiChannels start ws.midi) :=
    readMidi ws.midiChannels (fun p ch found => (sound.midiChannels p ch found).2) (sound.links _)
  have serves : ∀ start : Workspace,
      (wiresKdl ws .serve fun p => (ws.servePorts.lookup p).map fun port => .integer port).foldlM (readLine round) start =
        pure (putServes ws.servePorts start ws.serves) :=
    readServes ws.servePorts (fun p port found => (sound.servePorts p port found).2) (sound.links _)
  have opening : ((ws.name.map (strLine "name")).toList ++ (if ws.tab then [] else [KdlNode.line "tab" [.bool false]]) ++
      ws.nodes.map (snapKdl round)).foldlM (readLine round) { id := ws.id } =
        pure { id := ws.id, name := ws.name, tab := ws.tab, nodes := ws.nodes } := by
    rw [List.foldlM_append, List.foldlM_append, readName ws.name _ rfl, pure_bind, readTab ws.tab _ rfl, pure_bind,
      readNodes sound.nodes]
    rfl
  rw [parseWorkspace, head]
  change (workspaceKdl round ws).block.foldlM (readLine round) { id := ws.id } = _
  rw [block, workspaceBlock]
  iterate 7 rw [List.foldlM_append]
  rw [opening, pure_bind, binds, pure_bind, midi, pure_bind, serves, pure_bind,
    plain .netLink _ (fun ws c name => by simp only [readLine, name, WireRel.word]), pure_bind,
    plain .captureLink _ (fun ws c name => by simp only [readLine, name, WireRel.word]), pure_bind,
    plain .clipboardLink _ (fun ws c name => by simp only [readLine, name, WireRel.word]), pure_bind,
    plain .apiLink _ (fun ws c name => by simp only [readLine, name, WireRel.word])]
  simp only [putConnections, putMidi, putServes, Workspace.addLinks, Workspace.reread]
  congr 2
  -- the seven relations have been put in one after another
  funext rel
  cases rel <;> simp

end

end Wk
