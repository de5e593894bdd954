/-
# Wk.Library.Transducer -- machines that answer an input with outputs

A machine takes one input at a time and answers each with some outputs.  A script is a list
of inputs, each with the output it is to be answered with, if any; a machine that follows a
script puts out what the script says, however the inputs are cut into pieces.  Inputs that
leave every state as it is may be put in anywhere.
-/
import Mathlib

namespace Wk.Library.Transducer

set_option autoImplicit false

variable {σ α β : Type} {step : σ → α → σ × List β}

/-- The state after some inputs, and everything put out. -/
def run (step : σ → α → σ × List β) : σ → List α → σ × List β
  | s, [] => (s, [])
  | s, a :: as => ((run step (step s a).1 as).1, (step s a).2 ++ (run step (step s a).1 as).2)

/-- The same in pieces, with what each piece put out. -/
def feeds (step : σ → α → σ × List β) : σ → List (List α) → σ × List (List β)
  | s, [] => (s, [])
  | s, as :: rest => ((feeds step (run step s as).1 rest).1, (run step s as).2 :: (feeds step (run step s as).1 rest).2)

theorem run_append (as bs : List α) : ∀ s : σ,
    run step s (as ++ bs) = ((run step (run step s as).1 bs).1, (run step s as).2 ++ (run step (run step s as).1 bs).2) := by
  induction as with
  | nil => exact fun s => rfl
  | cons a as ih =>
    intro s
    rw [List.cons_append, run, ih]
    exact congrArg (Prod.mk _) (List.append_assoc ..).symm

/-- Pieces put out together what the whole does. -/
theorem feeds_flatten : ∀ (pieces : List (List α)) (s : σ),
    ((feeds step s pieces).1, (feeds step s pieces).2.flatten) = run step s pieces.flatten
  | [], _ => rfl
  | as :: rest, s => by
    have ih := feeds_flatten rest (run step s as).1
    rw [List.flatten_cons, run_append, ← ih]
    rfl

/-! ## Scripts -/

/-- An input, with the output it completes. -/
abbrev Cue (α β : Type) := α × Option β

/-- The machine answers each input as the script says, and ends in a state. -/
inductive Follows (step : σ → α → σ × List β) : σ → List (Cue α β) → σ → Prop where
  | nil {s : σ} : Follows step s [] s
  | cons {s s' s'' : σ} {a : α} {out : Option β} {script : List (Cue α β)}
      (answer : step s a = (s', out.toList)) (rest : Follows step s' script s'') : Follows step s ((a, out) :: script) s''

theorem Follows.append {s s' s'' : σ} {script script' : List (Cue α β)} (first : Follows step s script s')
    (second : Follows step s' script' s'') : Follows step s (script ++ script') s'' := by
  induction first with
  | nil => exact second
  | cons answer _ ih => exact .cons answer (ih second)

/-- What a script says is put out. -/
theorem Follows.run {s s' : σ} {script : List (Cue α β)} (follows : Follows step s script s') :
    run step s (script.map Prod.fst) = (s', script.filterMap Prod.snd) := by
  induction follows with
  | nil => rfl
  | @cons _ _ _ _ out _ answer _ ih =>
    rw [List.map_cons, Transducer.run, answer, ih]
    cases out <;> rfl

/-- Inputs of some kind put into a script, each answered with its own output. -/
inductive Inserted (extra : α → β → Prop) : List (Cue α β) → List (Cue α β) → Prop where
  | nil : Inserted extra [] []
  | keep {cue : Cue α β} {script script' : List (Cue α β)} (rest : Inserted extra script script') :
      Inserted extra (cue :: script) (cue :: script')
  | insert {a : α} {b : β} {script script' : List (Cue α β)} (kind : extra a b) (rest : Inserted extra script script') :
      Inserted extra script ((a, some b) :: script')

/-- Inputs that leave every state as it is disturb no script. -/
theorem Follows.inserted {extra : α → β → Prop} (idle : ∀ s a b, extra a b → step s a = (s, [b]))
    {script script' : List (Cue α β)} (inserted : Inserted extra script script') :
    ∀ {s s' : σ}, Follows step s script s' → Follows step s script' s' := by
  induction inserted with
  | nil => exact fun follows => follows
  | keep _ ih =>
    intro s s' follows
    cases follows with
    | cons answer rest => exact .cons answer (ih rest)
  | insert kind _ ih => exact fun follows => .cons (idle _ _ _ kind) (ih follows)

/-- A machine that follows a script puts it out from any pieces of it. -/
theorem Follows.feeds {s s' : σ} {script : List (Cue α β)} (follows : Follows step s script s') {pieces : List (List α)}
    (cut : pieces.flatten = script.map Prod.fst) :
    (Transducer.feeds step s pieces).2.flatten = script.filterMap Prod.snd := by
  have whole := @feeds_flatten σ α β step pieces s
  rw [cut, follows.run] at whole
  exact congrArg Prod.snd whole

end Wk.Library.Transducer
