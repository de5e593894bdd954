/-
# Wk.Library.Memo -- answers remembered with a fingerprint

A memo keeps, for each question, its last answer and a fingerprint of the circumstances
it was given under, and answers from that while the fingerprint is the same.  It answers
as asking again would, as long as no two circumstances it has met share a fingerprint
(`Memo.consult_eq`).  Forgetting entries never hurts (`Memo.Sound.retain`).
-/
import Wk.Library.Table

namespace Wk.Library

set_option autoImplicit false

/-- Each question's last answer, under the fingerprint it was given. -/
abbrev Memo (Q F A : Type) := Table Q (F × A)

namespace Memo

variable {Q S F A : Type} [DecidableEq Q] {fingerprint : S → F} {answer : Q → S → A}
  {seen : S → Prop} {memo memo' : Memo Q F A} {q : Q} {s : S}

/-- Answer from the memo if the fingerprint is the same, else anew. -/
def consult [DecidableEq F] (fingerprint : S → F) (answer : Q → S → A) (memo : Memo Q F A) (q : Q) (s : S) : A × Memo Q F A :=
  match memo.lookup q with
  | some (f, a) =>
    if f = fingerprint s then (a, memo) else (answer q s, memo.insert q (fingerprint s, answer q s))
  | none => (answer q s, memo.insert q (fingerprint s, answer q s))

/-- Every entry is the answer under some circumstances that were seen. -/
def Sound (fingerprint : S → F) (answer : Q → S → A) (seen : S → Prop) (memo : Memo Q F A) : Prop :=
  ∀ q f a, memo.lookup q = some (f, a) → ∃ s, seen s ∧ fingerprint s = f ∧ answer q s = a

theorem sound_empty : Sound fingerprint answer seen ∅ := by
  intro q f a found
  rw [AList.lookup_empty] at found
  cases found

/-- Entries may be forgotten. -/
theorem Sound.retain (keep : Q → Bool) (sound : Sound fingerprint answer seen memo) :
    Sound fingerprint answer seen (Table.retain (fun q _ => keep q) memo) := by
  intro q f a found
  rw [Table.lookup_retain] at found
  exact sound q f a (Option.filter_eq_some_iff.1 found).1

variable [DecidableEq F]

/-- The memo answers as asking anew would. -/
theorem consult_eq (sound : Sound fingerprint answer seen memo) (here : seen s)
    (apart : ∀ {s s'}, seen s → seen s' → fingerprint s = fingerprint s' → s = s') :
    (consult fingerprint answer memo q s).1 = answer q s := by
  unfold consult
  split
  · next f a found =>
      obtain ⟨s', member, same, given⟩ := sound q f a found
      split
      · next fresh => rw [apart here member (fresh.symm.trans same.symm), given]
      · rfl
  · rfl

theorem consult_sound (sound : Sound fingerprint answer seen memo) (here : seen s) :
    Sound fingerprint answer seen (consult fingerprint answer memo q s).2 := by
  have added : Sound fingerprint answer seen (memo.insert q (fingerprint s, answer q s)) := by
    intro q' f a found
    rw [Table.lookup_insert_eq] at found
    split at found
    · next same =>
        cases found
        exact ⟨s, here, rfl, by rw [same]⟩
    · exact sound q' f a found
  unfold consult
  split
  · split
    · exact sound
    · exact added
  · exact added

end Memo

end Wk.Library
