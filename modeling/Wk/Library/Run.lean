/-
# Wk.Library.Run -- induction along a loop and along a run

A loop is a fold, a fallible loop is a monadic fold in `Except`, a run is a sequence of
steps each allowed in the state it is taken from, and a schedule is a run whose steps
may also be blocked.  This module holds the invariant rule of each: what holds at the
start and is kept by one turn holds at the end.
-/
import Mathlib

namespace Wk.Library

set_option autoImplicit false

variable {α β ε : Type}

/-- A fallible loop that ends well took its first turn well, and then the rest. -/
theorem foldlM_cons_ok {f : β → α → Except ε β} {x : α} {xs : List α} {b c : β}
    (ended : (x :: xs).foldlM f b = .ok c) : ∃ b', f b x = .ok b' ∧ xs.foldlM f b' = .ok c := by
  rw [List.foldlM_cons] at ended
  cases turn : f b x with
  | error e => rw [turn] at ended; cases ended
  | ok b' => rw [turn] at ended; exact ⟨b', rfl, ended⟩

/-- A fallible loop that ends well keeps what each successful turn keeps. -/
theorem foldlM_keeps {f : β → α → Except ε β} (P : β → Prop) :
    ∀ {xs : List α} {b c : β}, xs.foldlM f b = .ok c → P b →
      (∀ b, ∀ x ∈ xs, ∀ c, f b x = .ok c → P b → P c) → P c
  | [], _, _, ended, start, _ => by
    cases ended
    exact start
  | x :: xs, b, c, ended, start, turn => by
    obtain ⟨b', first, rest⟩ := foldlM_cons_ok ended
    exact foldlM_keeps P rest (turn b x (List.mem_cons_self ..) b' first start)
      fun b y member => turn b y (List.mem_cons_of_mem _ member)

/-- A fallible loop that ends well took every turn well. -/
theorem foldlM_turns {f : β → α → Except ε β} : ∀ {xs : List α} {b c : β}, xs.foldlM f b = .ok c →
    ∀ x ∈ xs, ∃ b' c', f b' x = .ok c'
  | [], _, _, _ => nofun
  | x :: xs, b, c, ended => by
    obtain ⟨b', first, rest⟩ := foldlM_cons_ok ended
    intro y member
    rcases List.mem_cons.1 member with rfl | member
    · exact ⟨b, b', first⟩
    · exact foldlM_turns rest y member

/-- A fallible loop whose every turn appends what it stands for appends what all of them
stand for. -/
theorem foldlM_emits {γ : Type} {R : β → γ → Prop} {f : List β → α → Except ε (List β)} {g : α → List γ} :
    ∀ {xs : List α} {out out' : List β}, xs.foldlM f out = .ok out' →
      (∀ x ∈ xs, ∀ out out', f out x = .ok out' → ∃ new, out' = out ++ new ∧ List.Forall₂ R new (g x)) →
        ∃ new, out' = out ++ new ∧ List.Forall₂ R new (xs.flatMap g)
  | [], out, _, ended, _ => by
    cases ended
    exact ⟨[], (List.append_nil out).symm, .nil⟩
  | x :: xs, out, out', ended, turn => by
    obtain ⟨mid, first, rest⟩ := foldlM_cons_ok ended
    obtain ⟨new, rfl, here⟩ := turn x List.mem_cons_self _ _ first
    obtain ⟨more, rfl, there⟩ := foldlM_emits rest fun y member => turn y (List.mem_cons_of_mem _ member)
    exact ⟨new ++ more, List.append_assoc .., List.rel_append here there⟩

/-- What is seen of a successful computation is seen of its result. -/
theorem ok_of_observed {x : Except ε α} {f : α → β} {v : β}
    (seen : x.toOption.map f = some v) : ∃ a, x = .ok a ∧ f a = v := by
  cases x with
  | error e => cases seen
  | ok a => exact ⟨a, rfl, Option.some.inj seen⟩

/-! ## Runs -/

section Along

variable {step : β → α → β} {P : β → α → Prop}

/-- Every step of a run meets `P` in the state it is taken from. -/
def Along (step : β → α → β) (P : β → α → Prop) : β → List α → Prop
  | _, [] => True
  | b, x :: xs => P b x ∧ Along step P (step b x) xs

/-- What holds at the start and is kept by a step that meets `P` holds at the end of a
run whose steps meet `P`. -/
theorem Along.keeps {Q : β → Prop} (turn : ∀ b x, P b x → Q b → Q (step b x)) :
    ∀ {xs : List α} {b : β}, Along step P b xs → Q b → Q (xs.foldl step b)
  | [], _, _, start => start
  | _ :: _, _, met, start => met.2.keeps turn (turn _ _ met.1 start)

theorem Along.append :
    ∀ {xs ys : List α} {b : β}, Along step P b (xs ++ ys) →
      Along step P b xs ∧ Along step P (xs.foldl step b) ys
  | [], _, _, met => ⟨trivial, met⟩
  | _ :: _, _, _, met => ⟨⟨met.1, met.2.append.1⟩, met.2.append.2⟩

/-- A run whose steps meet `P`, and so keep an invariant, meets what follows from both. -/
theorem Along.imp {I : β → Prop} {Q : β → α → Prop} (kept : ∀ b x, P b x → I b → I (step b x))
    (weaker : ∀ b x, I b → P b x → Q b x) :
    ∀ {xs : List α} {b : β}, Along step P b xs → I b → Along step Q b xs
  | [], _, _, _ => trivial
  | _ :: _, _, met, start =>
    ⟨weaker _ _ start met.1, met.2.imp kept weaker (kept _ _ met.1 start)⟩

theorem along_and {Q : β → α → Prop} : ∀ {xs : List α} {b : β},
    Along step (fun b x => P b x ∧ Q b x) b xs ↔ Along step P b xs ∧ Along step Q b xs
  | [], _ => by simp [Along]
  | x :: xs, b => by
    have rest : Along step (fun b x => P b x ∧ Q b x) (step b x) xs ↔ _ := along_and
    simp only [Along, rest]
    tauto

/-- Of two conditions that are equivalent under an invariant, and keep it, a run meets one
when it meets the other. -/
theorem along_iff {I : β → Prop} {Q : β → α → Prop} (kept : ∀ b x, I b → P b x → I (step b x))
    (same : ∀ b x, I b → (P b x ↔ Q b x)) :
    ∀ {xs : List α} {b : β}, I b → (Along step P b xs ↔ Along step Q b xs)
  | [], _, _ => Iff.rfl
  | x :: xs, b, start => by
    constructor
    · rintro ⟨met, rest⟩
      exact ⟨(same b x start).1 met, (along_iff kept same (kept b x start met)).1 rest⟩
    · rintro ⟨met, rest⟩
      have met' := (same b x start).2 met
      exact ⟨met', (along_iff kept same (kept b x start met')).2 rest⟩

/-- The same under an invariant that every step keeps. -/
theorem along_congr {I : β → Prop} {Q : β → α → Prop} (kept : ∀ b x, I b → I (step b x))
    (same : ∀ b x, I b → (P b x ↔ Q b x)) {xs : List α} {b : β} (start : I b) :
    Along step P b xs ↔ Along step Q b xs :=
  along_iff (fun b x held _ => kept b x held) same start

/-- Where each step keeps an invariant exactly on a condition, a run keeps it all along
exactly when all its steps meet the condition. -/
theorem along_keeps_iff {I : β → Prop} {Q : β → α → Prop} (turn : ∀ b x, I b → (I (step b x) ↔ Q b x))
    {xs : List α} {b : β} (start : I b) : Along step (fun b x => I (step b x)) b xs ↔ Along step Q b xs :=
  along_iff (P := fun b x => I (step b x)) (fun _ _ _ kept => kept) turn start

/-- A run checked step by step. -/
def checkAlong (step : β → α → β) (check : β → α → Bool) : β → List α → Bool
  | _, [] => true
  | b, x :: xs => check b x && checkAlong step check (step b x) xs

theorem along_of_check {check : β → α → Bool} (sound : ∀ b x, check b x = true → P b x) :
    ∀ {xs : List α} {b : β}, checkAlong step check b xs = true → Along step P b xs
  | [], _, _ => trivial
  | _ :: _, _, passed => by
    simp only [checkAlong, Bool.and_eq_true] at passed
    exact ⟨sound _ _ passed.1, along_of_check sound passed.2⟩

end Along

/-! ## Schedules -/

section Scheduled

variable {step : β → α → Option β} {P : β → α → Prop}

/-- The events of a schedule happen one after another, none of them blocked, each of them
meeting `P` in the state it happens in. -/
inductive Scheduled (step : β → α → Option β) (P : β → α → Prop) : β → List α → β → Prop
  | nil (b : β) : Scheduled step P b [] b
  | cons {b b' c : β} {x : α} {xs : List α} (met : P b x) (happens : step b x = some b')
      (rest : Scheduled step P b' xs c) : Scheduled step P b (x :: xs) c

namespace Scheduled

/-- What holds at the start and is kept by every event that meets `P` holds at the end. -/
theorem keeps {Q : β → Prop} {b c : β} {xs : List α} (scheduled : Scheduled step P b xs c)
    (turn : ∀ b x b', P b x → step b x = some b' → Q b → Q b') (start : Q b) : Q c := by
  induction scheduled with
  | nil => exact start
  | cons met happens _ ih => exact ih (turn _ _ _ met happens start)

/-- A measure that every event lowers bounds the length of a schedule. -/
theorem length_le {measure : β → Nat} {b c : β} {xs : List α} (scheduled : Scheduled step P b xs c)
    (lowers : ∀ b x b', P b x → step b x = some b' → measure b' < measure b) :
    xs.length + measure c ≤ measure b := by
  induction scheduled with
  | nil => simp
  | cons met happens _ ih =>
    have lower := lowers _ _ _ met happens
    simp only [List.length_cons]
    omega

end Scheduled

/-- A schedule carried out, if nothing blocks it. -/
def perform (step : β → α → Option β) : β → List α → Option β
  | b, [] => some b
  | b, x :: xs => (step b x).bind fun b' => perform step b' xs

end Scheduled

end Wk.Library
