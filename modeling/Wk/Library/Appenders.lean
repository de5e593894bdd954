/-
# Wk.Library.Appenders -- two appenders that fix their offset when they open

An appender notes the length of a file when it opens, writes there and moves on by what it
wrote.  Two of them append to one file.  While only one is open it stands at the end;
once both are, each goes on from where it stands, over what the other writes.

* `kept_iff`: the file ends as it began with the chunks of both, in some order, exactly
  when not both write once both are open.
-/
import Mathlib

namespace Wk.Library

set_option autoImplicit false

/-- `chunk` put at `offset` into a file that reaches at least that far. -/
def putAt {α : Type} (file : List α) (offset : Nat) (chunk : List α) : List α :=
  file.take offset ++ chunk ++ file.drop (offset + chunk.length)

/-- A file and where each appender stands, if it is open. -/
structure Appended (α : Type) where
  file : List α
  offset : Bool → Option Nat

inductive Appending (α : Type) where
  | opens (w : Bool)
  | writes (w : Bool) (chunk : List α)

namespace Appended

variable {α : Type}

/-- The file is now this and the appender stands there. -/
def leave (a : Appended α) (file : List α) (w : Bool) (o : Nat) : Appended α :=
  ⟨file, Function.update a.offset w (some o)⟩

/-- An appender opens once, and writes when it is open. -/
def step (a : Appended α) : Appending α → Option (Appended α)
  | .opens w =>
    match a.offset w with
    | none => some (a.leave a.file w a.file.length)
    | some _ => none
  | .writes w chunk =>
    match a.offset w with
    | none => none
    | some o => some (a.leave (putAt a.file o chunk) w (o + chunk.length))

def run (a : Appended α) (moves : List (Appending α)) : Option (Appended α) := moves.foldlM step a

/-- A file no appender is open on. -/
def start (file : List α) : Appended α := ⟨file, fun _ => none⟩

def isOpen (a : Appended α) (w : Bool) : Bool := (a.offset w).isSome

end Appended

namespace Appending

variable {α : Type}

/-- What is written, by whom. -/
def written : List (Appending α) → List (Bool × List α)
  | [] => []
  | .opens _ :: moves => written moves
  | .writes w chunk :: moves => (w, chunk) :: written moves

/-- What is written before both are open, if `opened` are so far. -/
def early (opened : Bool → Bool) : List (Appending α) → List (Bool × List α)
  | [] => []
  | .opens w :: moves => early (Function.update opened w true) moves
  | .writes w chunk :: moves =>
    if opened true && opened false then early opened moves else (w, chunk) :: early opened moves

/-- What is written once both are open. -/
def late (opened : Bool → Bool) : List (Appending α) → List (Bool × List α)
  | [] => []
  | .opens w :: moves => late (Function.update opened w true) moves
  | .writes w chunk :: moves =>
    if opened true && opened false then (w, chunk) :: late opened moves else late opened moves

/-- The bytes of some chunks. -/
def flat (zs : List (Bool × List α)) : List α := zs.flatMap Prod.snd

/-- The chunks of one appender. -/
def of (w : Bool) (zs : List (Bool × List α)) : List (List α) := (zs.filter fun z => z.1 = w).map Prod.snd

variable {w : Bool}

theorem early_of_open : ∀ {opened : Bool → Bool} (moves : List (Appending α)),
    (opened true && opened false) = true → early opened moves = []
  | _, [], _ => rfl
  | _, .opens w :: moves, both => by
    rw [early]
    refine early_of_open moves ?_
    rw [Bool.and_eq_true] at both
    cases w <;> simp [both]
  | _, .writes w chunk :: moves, both => by
    rw [early, if_pos both]
    exact early_of_open moves both

/-- Early writes come before late ones. -/
theorem early_append_late : ∀ (opened : Bool → Bool) (moves : List (Appending α)),
    early opened moves ++ late opened moves = written moves
  | _, [] => rfl
  | opened, .opens w :: moves => early_append_late _ moves
  | opened, .writes w chunk :: moves => by
    rw [early, late, written, ← early_append_late opened moves]
    split
    · next both => rw [early_of_open moves both, List.nil_append, List.nil_append]
    · rfl

theorem flat_append (xs ys : List (Bool × List α)) : flat (xs ++ ys) = flat xs ++ flat ys := List.flatMap_append

theorem of_append (w : Bool) (xs ys : List (Bool × List α)) : of w (xs ++ ys) = of w xs ++ of w ys := by
  simp only [of, List.filter_append, List.map_append]

/-- Every chunk is one or the other's. -/
theorem length_flat : ∀ zs : List (Bool × List α),
    (flat zs).length = (of true zs).flatten.length + (of false zs).flatten.length
  | [] => rfl
  | (w, chunk) :: zs => by
    have rest := length_flat zs
    cases w <;> simp [flat, of] at rest ⊢ <;> omega

/-- If one of them writes nothing, what is written is the other's. -/
theorem flat_alone {zs : List (Bool × List α)} (silent : (of w zs).flatten = []) :
    flat zs = (of (!w) zs).flatten := by
  induction zs with
  | nil => rfl
  | cons z zs ih =>
    obtain ⟨w', chunk⟩ := z
    by_cases same : w' = w
    · have nothing : chunk = [] ∧ (of w zs).flatten = [] := by simpa [of, same] using silent
      have rest := ih nothing.2
      simpa [flat, of, same, nothing.1] using rest
    · have other : w' = !w := by cases w <;> cases w' <;> simp_all
      have rest := ih (by simpa [of, same] using silent)
      simpa [flat, of, other] using rest

end Appending

section Put

variable {α : Type} {file chunk : List α} {offset : Nat}

theorem length_putAt (inside : offset ≤ file.length) :
    (putAt file offset chunk).length = max file.length (offset + chunk.length) := by
  simp only [putAt, List.length_append, List.length_take, List.length_drop]
  omega

theorem putAt_end (file chunk : List α) : putAt file file.length chunk = file ++ chunk := by
  rw [putAt, List.take_length, List.drop_eq_nil_of_le (Nat.le_add_right _ _), List.append_nil]

theorem putAt_nil (file : List α) (offset : Nat) : putAt file offset [] = file := by
  rw [putAt, List.append_nil, List.length_nil, Nat.add_zero, List.take_append_drop]

end Put

namespace Appended

open Appending

variable {α : Type} {a a' : Appended α} {base : List α} {acc : Bool → List α} {w : Bool}

/-- Both went on from the end of `base`: where they stand, how long the file has got, and
what it holds if one of them wrote nothing. -/
structure Stands (a : Appended α) (base : List α) (acc : Bool → List α) : Prop where
  offset : ∀ {w o}, a.offset w = some o → o = base.length + (acc w).length
  length : a.file.length = base.length + max (acc true).length (acc false).length
  alone : ∀ {w}, acc w = [] → a.file = base ++ acc (!w)
  both : ∀ {w}, acc w ≠ [] → (a.isOpen true && a.isOpen false) = true

theorem Stands.start (file : List α) : (start file).Stands file fun _ => [] where
  offset stands := by cases stands
  length := by simp [Appended.start]
  alone _ := (List.append_nil file).symm
  both wrote := absurd rfl wrote

/-- Before both are open nobody has gone on from `base`. -/
theorem Stands.fresh (stands : a.Stands base acc) (early : (a.isOpen true && a.isOpen false) ≠ true) :
    acc = fun _ => [] :=
  funext fun _ => by_contra fun wrote => early (stands.both wrote)

theorem leave_offset_self (file : List α) (o : Nat) : (a.leave file w o).offset w = some o := Function.update_self ..

theorem leave_offset_other {w' : Bool} (other : w' ≠ w) (file : List α) (o : Nat) :
    (a.leave file w o).offset w' = a.offset w' := Function.update_of_ne other ..

theorem leave_isOpen (file : List α) (o : Nat) : (a.leave file w o).isOpen = Function.update a.isOpen w true := by
  funext w'
  by_cases same : w' = w
  · rw [same, Function.update_self, isOpen, leave_offset_self]
    rfl
  · rw [Function.update_of_ne same, isOpen, leave_offset_other same]
    rfl

/-- One that is not open leaves the other alone. -/
theorem not_both (closed : a.offset w = none) : (a.isOpen true && a.isOpen false) ≠ true := by
  intro both
  rw [Bool.and_eq_true] at both
  have opened : a.isOpen w = true := by cases w <;> simp [both]
  rw [isOpen, closed] at opened
  cases opened

theorem both_open {w' : Bool} (other : w' ≠ w) (one : a.isOpen w = true) (two : a.isOpen w' = true) :
    (a.isOpen true && a.isOpen false) = true := by
  rw [Bool.and_eq_true]
  cases w <;> cases w' <;> first | exact absurd rfl other | exact ⟨two, one⟩ | exact ⟨one, two⟩

theorem Stands.opens (stands : a.Stands base acc) (closed : a.offset w = none) :
    (a.leave a.file w a.file.length).Stands base acc := by
  have fresh := stands.fresh (not_both closed)
  subst fresh
  have len : a.file.length = base.length := by simpa using stands.length
  refine ⟨?_, stands.length, fun {w'} silent => stands.alone (w := w') silent, fun wrote => absurd rfl wrote⟩
  intro w' o there
  by_cases same : w' = w
  · rw [same, leave_offset_self] at there
    cases there
    simpa using len
  · rw [leave_offset_other same] at there
    exact stands.offset there

/-- A write by the only one that is open goes to the end. -/
theorem Stands.writesEarly {o : Nat} {chunk : List α} (stands : a.Stands base acc) (here : a.offset w = some o)
    (early : (a.isOpen true && a.isOpen false) ≠ true) :
    (a.leave (putAt a.file o chunk) w (o + chunk.length)).Stands (base ++ chunk) acc := by
  have fresh := stands.fresh early
  subst fresh
  have file : a.file = base := by simpa using stands.alone (w := true) rfl
  have end_ : o = base.length := by simpa using stands.offset here
  have grown : putAt a.file o chunk = base ++ chunk := by rw [end_, file, putAt_end]
  rw [grown]
  refine ⟨?_, by simp [leave], fun _ => (List.append_nil _).symm, fun wrote => absurd rfl wrote⟩
  intro w' o' there
  by_cases same : w' = w
  · rw [same, leave_offset_self] at there
    cases there
    simp [end_]
  · rw [leave_offset_other same] at there
    have opened : a.isOpen w = true := by rw [isOpen, here]; rfl
    have opened' : a.isOpen w' = true := by rw [isOpen, there]; rfl
    exact absurd (both_open same opened opened') early

/-- A write by one of two goes over what the other has written. -/
theorem Stands.writesLate {o : Nat} {chunk : List α} (stands : a.Stands base acc) (here : a.offset w = some o)
    (both : (a.isOpen true && a.isOpen false) = true) :
    (a.leave (putAt a.file o chunk) w (o + chunk.length)).Stands base (Function.update acc w (acc w ++ chunk)) := by
  have place := stands.offset here
  have len := stands.length
  have inside : o ≤ a.file.length := by
    rw [place, len]
    cases w <;> omega
  refine ⟨?_, ?_, ?_, ?_⟩
  · intro w' o' there
    by_cases same : w' = w
    · subst same
      rw [leave_offset_self] at there
      cases there
      rw [Function.update_self, place, List.length_append, Nat.add_assoc]
    · rw [leave_offset_other same] at there
      rw [Function.update_of_ne same]
      exact stands.offset there
  · rw [leave, length_putAt inside, len, place]
    cases w <;> simp <;> omega
  · intro w' silent
    by_cases same : w' = w
    · subst same
      rw [Function.update_self, List.append_eq_nil_iff] at silent
      rw [leave, silent.2, putAt_nil, Function.update_of_ne (by cases w' <;> simp)]
      exact stands.alone silent.1
    · have other : w = !w' := by cases w <;> cases w' <;> simp_all
      rw [Function.update_of_ne same] at silent
      have file := stands.alone silent
      have end_ : o = a.file.length := by rw [place, file, List.length_append, other]
      rw [leave, end_, putAt_end, file, other, Function.update_self, List.append_assoc]
  · intro _ _
    rw [leave_isOpen]
    rw [Bool.and_eq_true] at both ⊢
    cases w <;> simp [both]

/-- What a run leaves: the early writes at the end of the file, the late ones over one
another. -/
theorem Stands.run : ∀ {moves : List (Appending α)} {a : Appended α} {base : List α} {acc : Bool → List α},
    a.Stands base acc → a.run moves = some a' →
      a'.Stands (base ++ flat (early a.isOpen moves)) fun w => acc w ++ (of w (late a.isOpen moves)).flatten
  | [], a, base, acc, stands, ran => by
    cases ran
    simpa [early, late, flat, of] using stands
  | .opens w :: moves, a, base, acc, stands, ran => by
    rw [Appended.run, List.foldlM_cons, step] at ran
    split at ran
    · next closed =>
        have rest := (stands.opens closed).run ran
        rwa [leave_isOpen] at rest
    · cases ran
  | .writes w chunk :: moves, a, base, acc, stands, ran => by
    rw [Appended.run, List.foldlM_cons, step] at ran
    split at ran
    · cases ran
    · next o here =>
        have opened : Function.update a.isOpen w true = a.isOpen := by
          rw [Function.update_eq_self_iff, isOpen, here]
          rfl
        by_cases both : (a.isOpen true && a.isOpen false) = true
        · have rest := (stands.writesLate here both).run ran
          rw [leave_isOpen, opened] at rest
          rw [early, late, if_pos both, if_pos both]
          convert rest using 2 with w'
          by_cases same : w' = w
          · subst same
            simp [of]
          · have other : ¬ w = w' := fun here => same here.symm
            simp [of, same, other]
        · have rest := (stands.writesEarly here both).run ran
          rw [leave_isOpen, opened] at rest
          rw [early, late, if_neg both, if_neg both]
          simpa [flat, List.append_assoc] using rest

/-- **Appends are kept exactly while the two take turns at being alone.** -/
theorem kept_iff {file : List α} {moves : List (Appending α)} (ran : (start file).run moves = some a') :
    (∃ zs, (∀ w, of w zs = of w (written moves)) ∧ a'.file = file ++ flat zs) ↔
      ¬ ∀ w, (of w (late (fun _ => false) moves)).flatten ≠ [] := by
  have ends : a'.Stands (file ++ flat (early (fun _ => false) moves))
      fun w => (of w (late (fun _ => false) moves)).flatten := (Stands.start file).run ran
  have order := early_append_late (fun _ => false) moves
  constructor
  · rintro ⟨zs, chunks, kept⟩ clash
    have size := ends.length
    rw [kept, List.length_append, List.length_append, length_flat zs, chunks, chunks, ← order, of_append, of_append,
      List.flatten_append, List.flatten_append, List.length_append, List.length_append, length_flat] at size
    have one := List.length_pos_iff.2 (clash true)
    have two := List.length_pos_iff.2 (clash false)
    omega
  · intro alone
    obtain ⟨w, silent⟩ := not_forall.1 alone
    have silent := not_not.1 silent
    refine ⟨written moves, fun _ => rfl, ?_⟩
    rw [ends.alone silent, ← order, flat_append, flat_alone silent, List.append_assoc]

end Appended

end Wk.Library
