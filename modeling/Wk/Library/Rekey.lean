/-
# Wk.Library.Rekey -- moving the rows of a table

A move takes the row at one key to another, over the row there; a log of moves is replayed
one by one.  This module says what a lookup sees after a move and after a replay, and that a
replay neither makes rows up nor makes two of one.  An iteration in no particular order is a
list put in any order (`arrange`).
-/
import Wk.Library.Table

namespace Wk.Library

set_option autoImplicit false

/-- The list in the given order, where it is an order of it. -/
def arrange {α : Type} [DecidableEq α] (order l : List α) : List α := if order.Perm l then order else l

theorem arrange_perm {α : Type} [DecidableEq α] (order l : List α) : (arrange order l).Perm l := by
  unfold arrange
  split
  · assumption
  · exact .refl l

theorem mem_arrange {α : Type} [DecidableEq α] {order l : List α} {a : α} : a ∈ arrange order l ↔ a ∈ l :=
  (arrange_perm order l).mem_iff

namespace Table

variable {α β γ : Type} [DecidableEq α]

/-- Move the row at `move.1`, if there is one, to `move.2`. -/
def rekey (t : Table α β) (move : α × α) : Table α β :=
  match t.lookup move.1 with
  | none => t
  | some b => (t.erase move.1).insert move.2 b

variable {t : Table α β} {move : α × α} {a : α} {b : β}

theorem rekey_of_none (empty : t.lookup move.1 = none) : rekey t move = t := by
  unfold rekey
  rw [empty]

theorem lookup_rekey (found : t.lookup move.1 = some b) :
    (rekey t move).lookup a = if a = move.2 then some b else if a = move.1 then none else t.lookup a := by
  unfold rekey
  rw [found]
  dsimp only
  rw [lookup_insert_eq, lookup_erase_eq]

theorem lookup_rekey_of_ne (source : a ≠ move.1) (target : a ≠ move.2) : (rekey t move).lookup a = t.lookup a := by
  cases found : t.lookup move.1 with
  | none => rw [rekey_of_none found]
  | some b => rw [lookup_rekey found, if_neg target, if_neg source]

/-- A row after a move is the row moved, or one that stayed. -/
theorem of_lookup_rekey (here : (rekey t move).lookup a = some b) :
    (a = move.2 ∧ t.lookup move.1 = some b) ∨ ((a = move.1 → t.lookup move.1 = none) ∧
      (a = move.2 → t.lookup move.1 = none) ∧ t.lookup a = some b) := by
  cases found : t.lookup move.1 with
  | none => exact .inr ⟨fun _ => rfl, fun _ => rfl, rekey_of_none found ▸ here⟩
  | some c =>
    rw [lookup_rekey found] at here
    split at here
    · next same => exact .inl ⟨same, here⟩
    · next other =>
        split at here
        · cases here
        · next different => exact .inr ⟨fun same => absurd same different, fun same => absurd same other, here⟩

/-- No two rows have the same `f`. -/
def Apart (f : β → γ) (t : Table α β) : Prop :=
  ∀ a a' b b', t.lookup a = some b → t.lookup a' = some b' → f b = f b' → a = a'

theorem Apart.rekey {f : β → γ} (apart : Apart f t) : Apart f (rekey t move) := by
  intro a a' b b' here here' same
  rcases of_lookup_rekey here with ⟨rfl, there⟩ | ⟨left, -, there⟩ <;>
    rcases of_lookup_rekey here' with ⟨rfl, there'⟩ | ⟨left', -, there'⟩
  · rfl
  · have source := apart _ _ _ _ there there' same
    cases (left' source.symm).symm.trans there
  · have source := apart _ _ _ _ there there' same
    cases (left source).symm.trans there'
  · exact apart _ _ _ _ there there' same

/-- Replay a log of moves. -/
def rekeys (t : Table α β) (log : List (α × α)) : Table α β := log.foldl rekey t

@[simp] theorem rekeys_append (t : Table α β) (log more : List (α × α)) :
    rekeys t (log ++ more) = rekeys (rekeys t log) more :=
  List.foldl_append

/-- A row after a replay was a row before. -/
theorem of_lookup_rekeys : ∀ (log : List (α × α)) {t : Table α β} {a : α},
    (rekeys t log).lookup a = some b → ∃ a', t.lookup a' = some b
  | [], _, a, here => ⟨a, here⟩
  | _ :: log, _, _, here => by
    obtain ⟨a', there⟩ := of_lookup_rekeys log here
    rcases of_lookup_rekey there with ⟨-, source⟩ | ⟨-, -, stayed⟩
    · exact ⟨_, source⟩
    · exact ⟨a', stayed⟩

end Table

end Wk.Library
