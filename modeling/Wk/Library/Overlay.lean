/-
# Wk.Library.Overlay -- carrying notes from an old tree to a new one

The nodes of a forest carry notes.  A new forest is laid over an old one: a node takes the
note of the last old node of its level with the same identity, and their blocks are laid
over each other in the same way.  A node without an identity is left alone, and so is what
is in its block.

An address is the list of keys on the way to a node: identities, and words for the nodes
without one.  `spoken` follows an address through the old forest, always by the last node
of an identity.

* `reach_overlay`, `overlay_reach`: the new forest keeps its addresses, and each node has
  the note that was spoken at its address, or its own.
* `kept_iff`: so an old note is kept exactly where it is the one spoken at the addresses
  of its node's counterparts.
* `build_overlay`: what is built from a forest without its notes does not change.
-/
import Mathlib

namespace Wk.Library

set_option autoImplicit false

/-- A tree whose nodes carry notes, with or without a block of children. -/
inductive Noted (ν α : Type) where
  | node (note : ν) (item : α) (block : Option (List (Noted ν α)))

namespace Noted

variable {ν α β ι : Type}

def note : Noted ν α → ν
  | node note _ _ => note

def item : Noted ν α → α
  | node _ item _ => item

def block : Noted ν α → Option (List (Noted ν α))
  | node _ _ block => block

/-! ## What is built without the notes -/

section
variable (make : α → Option (List β) → β)

mutual

def build : Noted ν α → β
  | node _ item block => make item (buildBlock block)

def buildBlock : Option (List (Noted ν α)) → Option (List β)
  | none => none
  | some ns => some (buildAll ns)

def buildAll : List (Noted ν α) → List β
  | [] => []
  | n :: ns => build n :: buildAll ns

end

theorem buildAll_eq : ∀ ns : List (Noted ν α), buildAll make ns = ns.map (build make)
  | [] => rfl
  | n :: ns => congrArg (build make n :: ·) (buildAll_eq ns)

end

/-! ## Laying over -/

section
variable [DecidableEq ι] (ident : α → Option ι) (speaks : ν → Prop) [DecidablePred speaks]

/-- The last node with an identity. -/
def lastOf (old : List (Noted ν α)) (i : ι) : Option (Noted ν α) :=
  (old.filter fun o => ident o.item = some i).getLast?

mutual

def overlay (old : List (Noted ν α)) : Noted ν α → Noted ν α
  | node note item block =>
    match (ident item).bind (lastOf ident old) with
    | none => node note item block
    | some o => node (if speaks o.note then o.note else note) item (overlayBlock o.block block)

def overlayBlock : Option (List (Noted ν α)) → Option (List (Noted ν α)) → Option (List (Noted ν α))
  | some old, some fresh => some (overlayAll old fresh)
  | _, none => none
  | none, some fresh => some fresh

def overlayAll (old : List (Noted ν α)) : List (Noted ν α) → List (Noted ν α)
  | [] => []
  | f :: fs => overlay old f :: overlayAll old fs

end

theorem overlayAll_eq (old : List (Noted ν α)) : ∀ fs : List (Noted ν α),
    overlayAll ident speaks old fs = fs.map (overlay ident speaks old)
  | [] => rfl
  | f :: fs => congrArg (overlay ident speaks old f :: ·) (overlayAll_eq old fs)

theorem overlay_none {old : List (Noted ν α)} {f : Noted ν α} (none_of : (ident f.item).bind (lastOf ident old) = none) :
    overlay ident speaks old f = f := by
  cases f with
  | node note item block =>
    unfold overlay
    split
    · rfl
    · next there => exact absurd (none_of.symm.trans there) (by simp)

theorem overlay_some {old : List (Noted ν α)} {f o : Noted ν α} (there : (ident f.item).bind (lastOf ident old) = some o) :
    overlay ident speaks old f =
      node (if speaks o.note then o.note else f.note) f.item (overlayBlock ident speaks o.block f.block) := by
  cases f with
  | node note item block =>
    unfold overlay
    split
    · next none_of => exact absurd (none_of.symm.trans there) (by simp)
    · next o' there' =>
        cases there.symm.trans there'
        rfl

/-- Over an empty forest nothing changes. -/
theorem overlayAll_nil (fs : List (Noted ν α)) : overlayAll ident speaks [] fs = fs := by
  rw [overlayAll_eq]
  refine (List.map_congr_left fun f _ => overlay_none ident speaks ?_).trans (List.map_id _)
  cases ident f.item <;> rfl

/-- A missing old block is an empty one. -/
theorem overlayBlock_some (block : Option (List (Noted ν α))) (fs : List (Noted ν α)) :
    overlayBlock ident speaks block (some fs) = some (overlayAll ident speaks (block.getD []) fs) := by
  cases block with
  | none => exact congrArg some (overlayAll_nil ident speaks fs).symm
  | some old => rfl

@[simp] theorem item_overlay (old : List (Noted ν α)) (f : Noted ν α) : (overlay ident speaks old f).item = f.item := by
  cases there : (ident f.item).bind (lastOf ident old) with
  | none => rw [overlay_none ident speaks there]
  | some o => rw [overlay_some ident speaks there]; rfl

/-! ## Content -/

variable (make : α → Option (List β) → β)

mutual

theorem build_overlay (old : List (Noted ν α)) (f : Noted ν α) : build make (overlay ident speaks old f) = build make f := by
  cases there : (ident f.item).bind (lastOf ident old) with
  | none => rw [overlay_none ident speaks there]
  | some o =>
    rw [overlay_some ident speaks there]
    cases f with
    | node note item block => exact congrArg (make item) (buildBlock_overlay o.block block)

theorem buildBlock_overlay : ∀ old block : Option (List (Noted ν α)),
    buildBlock make (overlayBlock ident speaks old block) = buildBlock make block
  | some old, some fresh => congrArg some (buildAll_overlay old fresh)
  | some _, none | none, none | none, some _ => rfl

theorem buildAll_overlay (old : List (Noted ν α)) : ∀ fs : List (Noted ν α),
    buildAll make (overlayAll ident speaks old fs) = buildAll make fs
  | [] => rfl
  | f :: fs => congrArg₂ List.cons (build_overlay old f) (buildAll_overlay old fs)

end

/-! ## Addresses -/

variable {κ : Type} (word : α → κ)

/-- What a node goes by on its level. -/
def key (a : α) : ι ⊕ κ :=
  match ident a with
  | some i => .inl i
  | none => .inr (word a)

/-- The nodes at an address. -/
inductive Reach : List (Noted ν α) → List (ι ⊕ κ) → Noted ν α → Prop
  | here {ns : List (Noted ν α)} {n : Noted ν α} : n ∈ ns → Reach ns [key ident word n.item] n
  | inside {ns ch : List (Noted ν α)} {n m : Noted ν α} {path : List (ι ⊕ κ)} :
      n ∈ ns → n.block = some ch → Reach ch path m → Reach ns (key ident word n.item :: path) m

/-- The old node a key stands for. -/
def turn (old : List (Noted ν α)) : ι ⊕ κ → Option (Noted ν α)
  | .inl i => lastOf ident old i
  | .inr _ => none

/-- The old node whose note is spoken at an address. -/
def spoken : List (Noted ν α) → List (ι ⊕ κ) → Option (Noted ν α)
  | _, [] => none
  | old, [k] => turn ident old k
  | old, k :: k' :: path => (turn ident old k).bind fun o => spoken (o.block.getD []) (k' :: path)

/-- The note of the old node if there is one that speaks, or else the node's own. -/
def heard (o : Option (Noted ν α)) (own : ν) : ν :=
  match o with
  | some o => if speaks o.note then o.note else own
  | none => own

variable {ident speaks word}

omit [DecidableEq ι] in
theorem Reach.ne_nil {ns : List (Noted ν α)} {path : List (ι ⊕ κ)} {n : Noted ν α} (there : Reach ident word ns path n) :
    path ≠ [] := by
  cases there <;> exact List.cons_ne_nil _ _

theorem turn_key (old : List (Noted ν α)) (a : α) :
    turn ident old (key ident word a) = (ident a).bind (lastOf ident old) := by
  unfold key
  cases ident a <;> rfl

theorem spoken_nil : ∀ path : List (ι ⊕ κ), spoken ident ([] : List (Noted ν α)) path = none
  | [] => rfl
  | [.inl _] | [.inr _] => rfl
  | .inl _ :: _ :: _ | .inr _ :: _ :: _ => rfl

theorem spoken_cons {old : List (Noted ν α)} {k : ι ⊕ κ} {path : List (ι ⊕ κ)} (deeper : path ≠ []) :
    spoken ident old (k :: path) = spoken ident (((turn ident old k).bind block).getD []) path := by
  cases path with
  | nil => exact absurd rfl deeper
  | cons k' path =>
    rw [spoken]
    cases turn ident old k with
    | none => exact (spoken_nil _).symm
    | some o => rfl

theorem note_overlay (old : List (Noted ν α)) (f : Noted ν α) :
    (overlay ident speaks old f).note = heard speaks (turn ident old (key ident word f.item)) f.note := by
  rw [turn_key]
  cases there : (ident f.item).bind (lastOf ident old) with
  | none => rw [overlay_none ident speaks there]; rfl
  | some o => rw [overlay_some ident speaks there]; rfl

theorem block_overlay (word : α → κ) (old : List (Noted ν α)) (f : Noted ν α) :
    (overlay ident speaks old f).block =
      f.block.map (overlayAll ident speaks (((turn ident old (key ident word f.item)).bind block).getD [])) := by
  rw [turn_key]
  cases there : (ident f.item).bind (lastOf ident old) with
  | none =>
    rw [overlay_none ident speaks there]
    cases f.block with
    | none => rfl
    | some fs => exact congrArg some (overlayAll_nil ident speaks fs).symm
  | some o =>
    rw [overlay_some ident speaks there]
    change overlayBlock ident speaks o.block f.block = _
    cases f.block with
    | none => cases o.block <;> rfl
    | some fs => exact overlayBlock_some ident speaks o.block fs

/-- A node of the new forest was there before, and has the note spoken at its address. -/
theorem reach_overlay {old fresh : List (Noted ν α)} {path : List (ι ⊕ κ)} {m : Noted ν α}
    (there : Reach ident word (overlayAll ident speaks old fresh) path m) :
    ∃ f, Reach ident word fresh path f ∧ m.note = heard speaks (spoken ident old path) f.note := by
  generalize laid : overlayAll ident speaks old fresh = ns at there
  induction there generalizing old fresh with
  | here member =>
    rw [← laid, overlayAll_eq, List.mem_map] at member
    obtain ⟨f, member, rfl⟩ := member
    rw [item_overlay]
    exact ⟨f, .here member, note_overlay old f⟩
  | inside member inside deeper ih =>
    rw [← laid, overlayAll_eq, List.mem_map] at member
    obtain ⟨f, member, rfl⟩ := member
    rw [block_overlay word, Option.map_eq_some_iff] at inside
    obtain ⟨fs, block, same⟩ := inside
    obtain ⟨f', reached, note⟩ := ih same
    rw [item_overlay, spoken_cons deeper.ne_nil]
    exact ⟨f', .inside member block reached, note⟩

/-- A node that was there before is there with the note spoken at its address. -/
theorem overlay_reach (speaks : ν → Prop) [DecidablePred speaks] {fresh : List (Noted ν α)} {path : List (ι ⊕ κ)} {f : Noted ν α} (there : Reach ident word fresh path f)
    (old : List (Noted ν α)) :
    ∃ m, Reach ident word (overlayAll ident speaks old fresh) path m ∧
      m.note = heard speaks (spoken ident old path) f.note := by
  induction there generalizing old with
  | @here ns f member =>
    have laid : overlay ident speaks old f ∈ overlayAll ident speaks old ns := by
      rw [overlayAll_eq]
      exact List.mem_map_of_mem member
    refine ⟨_, ?_, note_overlay old f⟩
    rw [← item_overlay ident speaks old f]
    exact .here laid
  | @inside ns ch f _ path member inside deeper ih =>
    have laid : overlay ident speaks old f ∈ overlayAll ident speaks old ns := by
      rw [overlayAll_eq]
      exact List.mem_map_of_mem member
    obtain ⟨m, reached, note⟩ := ih (((turn ident old (key ident word f.item)).bind block).getD [])
    rw [spoken_cons deeper.ne_nil]
    refine ⟨m, ?_, note⟩
    rw [← item_overlay ident speaks old f]
    refine .inside laid ?_ reached
    rw [block_overlay word, inside]
    rfl

/-- Over a forest that says nothing itself, an old note is found on all the counterparts
of its node exactly where it is the one spoken at their addresses. -/
theorem kept_iff {old fresh : List (Noted ν α)} (same : List (ι ⊕ κ) → List (ι ⊕ κ) → Prop)
    (silent : ∀ path f, Reach ident word fresh path f → ¬ speaks f.note) :
    (∀ p q o m, Reach ident word old p o → Reach ident word (overlayAll ident speaks old fresh) q m → same p q →
      speaks o.note → m.note = o.note) ↔
    ∀ p q o f, Reach ident word old p o → Reach ident word fresh q f → same p q → speaks o.note →
      ∃ l, spoken ident old q = some l ∧ l.note = o.note := by
  constructor
  · intro kept p q o f before after pair loud
    obtain ⟨m, reached, note⟩ := overlay_reach speaks after old
    have carried : heard speaks (spoken ident old q) f.note = o.note :=
      note.symm.trans (kept p q o m before reached pair loud)
    -- the node's own note does not speak, so it is the old node that does
    cases there : spoken ident old q with
    | none =>
      rw [there] at carried
      have own : f.note = o.note := carried
      exact absurd (own ▸ loud) (silent q f after)
    | some l =>
      rw [there] at carried
      change (if speaks l.note then l.note else f.note) = o.note at carried
      split at carried
      · exact ⟨l, rfl, carried⟩
      · exact absurd (carried ▸ loud) (silent q f after)
  · intro heard p q o m before reached pair loud
    obtain ⟨f, after, note⟩ := reach_overlay reached
    obtain ⟨l, there, same⟩ := heard p q o f before after pair loud
    rw [note, there, ← same]
    exact if_pos (same ▸ loud)

end

end Noted

end Wk.Library
