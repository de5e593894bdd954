/-
# Wk.Library.Peg -- parsers of ordered choice and greedy repetition

A parser reads a piece off the front of its input or fails.  A choice takes the first parser that
succeeds, a repetition takes as many items as it can, and neither is gone back on.

* `Consumes.induct`: an input is a run of items and what no item can be read from.
* `repeated_some`, `repeated_none`: a repetition, an item at a time.
* `repeated_filter`: a repetition of single symbols is the longest run of them.
-/
import Mathlib

namespace Wk.Library.Peg

set_option autoImplicit false

variable {σ α β : Type}

/-- What was read off the front, and the rest. -/
abbrev Parser (σ α : Type) := List σ → Option (α × List σ)

/-! ## Combinators -/

/-- One symbol of a kind. -/
def filter (p : σ → Bool) : Parser σ σ
  | [] => none
  | c :: cs => if p c then some (c, cs) else none

def just [DecidableEq σ] (c : σ) : Parser σ σ := filter fun d => d = c

/-- One symbol after the other. -/
def justAll [DecidableEq σ] : List σ → Parser σ Unit
  | [], cs => some ((), cs)
  | c :: word, cs => (just c cs).bind fun r => justAll word r.2

def map (f : α → β) (p : Parser σ α) : Parser σ β := fun cs => (p cs).map fun r => (f r.1, r.2)

def andThen (p : Parser σ α) (q : Parser σ β) : Parser σ (α × β) := fun cs =>
  (p cs).bind fun r => (q r.2).map fun s => ((r.1, s.1), s.2)

def ignoreThen (p : Parser σ α) (q : Parser σ β) : Parser σ β := map (·.2) (andThen p q)

def thenIgnore (p : Parser σ α) (q : Parser σ β) : Parser σ α := map (·.1) (andThen p q)

/-- The first of several that succeeds. -/
def choice : List (Parser σ α) → Parser σ α
  | [], _ => none
  | p :: ps, cs =>
    match p cs with
    | some r => some r
    | none => choice ps cs

def repeatedFor (p : Parser σ α) : Nat → List σ → List α × List σ
  | 0, cs => ([], cs)
  | n + 1, cs =>
    match p cs with
    | some (a, rest) => (a :: (repeatedFor p n rest).1, (repeatedFor p n rest).2)
    | none => ([], cs)

/-- As many as there are.  An item that reads something is read no more often than there are symbols. -/
def repeated (p : Parser σ α) : Parser σ (List α) := fun cs => some (repeatedFor p cs.length cs)

def atLeast (n : Nat) (p : Parser σ α) : Parser σ (List α) := fun cs =>
  (repeated p cs).filter fun r => n ≤ r.1.length

def orNot (p : Parser σ α) : Parser σ (Option α) := fun cs =>
  match p cs with
  | some (a, rest) => some (some a, rest)
  | none => some (none, cs)

/-- Items with separators between them; a separator that no item follows is left. -/
def separatedBy (p : Parser σ α) (sep : Parser σ β) : Parser σ (List α) := fun cs =>
  match p cs with
  | some (a, rest) => map (a :: ·) (repeated (ignoreThen sep p)) rest
  | none => some ([], cs)

def delimitedBy {γ : Type} (p : Parser σ α) (left : Parser σ β) (right : Parser σ γ) : Parser σ α :=
  ignoreThen left (thenIgnore p right)

def paddedBy (p : Parser σ α) (pad : Parser σ β) : Parser σ α := delimitedBy p pad pad

/-- Read the whole input. -/
def parse (p : Parser σ α) (cs : List σ) : Option α :=
  match p cs with
  | some (a, []) => some a
  | _ => none

theorem parse_some {p : Parser σ α} {cs : List σ} {a : α} : parse p cs = some a ↔ p cs = some (a, []) := by
  rw [parse]
  split
  · rename_i b read
    simp [read]
  · rename_i other
    exact ⟨(fun no => nomatch no), fun read => absurd read (other a)⟩

/-! ## One step -/

@[simp] theorem filter_cons (p : σ → Bool) (c : σ) (cs : List σ) :
    filter p (c :: cs) = if p c then some (c, cs) else none := rfl

theorem filter_some {p : σ → Bool} {cs rest : List σ} {c : σ} (read : filter p cs = some (c, rest)) :
    p c = true ∧ cs = c :: rest := by
  cases cs with
  | nil => cases read
  | cons d cs =>
    rw [filter_cons] at read
    split at read
    · rename_i ok
      cases read
      exact ⟨ok, rfl⟩
    · cases read

@[simp] theorem just_cons [DecidableEq σ] (c d : σ) (cs : List σ) :
    just c (d :: cs) = if d = c then some (d, cs) else none := by
  simp [just]

theorem just_some [DecidableEq σ] {c d : σ} {cs rest : List σ} (read : just c cs = some (d, rest)) :
    d = c ∧ cs = c :: rest := by
  obtain ⟨same, rfl⟩ := filter_some read
  obtain rfl : d = c := by simpa using same
  exact ⟨rfl, rfl⟩

theorem map_some {f : α → β} {p : Parser σ α} {cs rest : List σ} {b : β} :
    map f p cs = some (b, rest) ↔ ∃ a, p cs = some (a, rest) ∧ f a = b := by
  simp only [map, Option.map_eq_some_iff]
  constructor
  · rintro ⟨⟨a, _⟩, read, ⟨⟩⟩
    exact ⟨a, read, rfl⟩
  · rintro ⟨a, read, rfl⟩
    exact ⟨_, read, rfl⟩

theorem map_none {f : α → β} {p : Parser σ α} {cs : List σ} : map f p cs = none ↔ p cs = none := by
  simp [map]

theorem andThen_some {p : Parser σ α} {q : Parser σ β} {cs rest : List σ} {r : α × β} :
    andThen p q cs = some (r, rest) ↔ ∃ mid, p cs = some (r.1, mid) ∧ q mid = some (r.2, rest) := by
  simp only [andThen, Option.bind_eq_some_iff, Option.map_eq_some_iff]
  constructor
  · rintro ⟨⟨a, mid⟩, readA, ⟨b, _⟩, readB, ⟨⟩⟩
    exact ⟨mid, readA, readB⟩
  · rintro ⟨mid, readA, readB⟩
    exact ⟨_, readA, _, readB, rfl⟩

theorem ignoreThen_some {p : Parser σ α} {q : Parser σ β} {cs rest : List σ} {b : β} :
    ignoreThen p q cs = some (b, rest) ↔ ∃ a mid, p cs = some (a, mid) ∧ q mid = some (b, rest) := by
  simp only [ignoreThen, map_some, andThen_some]
  constructor
  · rintro ⟨⟨a, _⟩, ⟨mid, readA, readB⟩, rfl⟩
    exact ⟨a, mid, readA, readB⟩
  · rintro ⟨a, mid, readA, readB⟩
    exact ⟨(a, b), ⟨mid, readA, readB⟩, rfl⟩

theorem thenIgnore_some {p : Parser σ α} {q : Parser σ β} {cs rest : List σ} {a : α} :
    thenIgnore p q cs = some (a, rest) ↔ ∃ b mid, p cs = some (a, mid) ∧ q mid = some (b, rest) := by
  simp only [thenIgnore, map_some, andThen_some]
  constructor
  · rintro ⟨⟨_, b⟩, ⟨mid, readA, readB⟩, rfl⟩
    exact ⟨b, mid, readA, readB⟩
  · rintro ⟨b, mid, readA, readB⟩
    exact ⟨(a, b), ⟨mid, readA, readB⟩, rfl⟩

theorem delimitedBy_some {γ : Type} {p : Parser σ α} {left : Parser σ β} {right : Parser σ γ}
    {cs rest : List σ} {a : α} :
    delimitedBy p left right cs = some (a, rest) ↔
      ∃ l start r stop, left cs = some (l, start) ∧ p start = some (a, stop) ∧ right stop = some (r, rest) := by
  simp only [delimitedBy, ignoreThen_some, thenIgnore_some]
  constructor
  · rintro ⟨l, start, readL, r, stop, readP, readR⟩
    exact ⟨l, start, r, stop, readL, readP, readR⟩
  · rintro ⟨l, start, r, stop, readL, readP, readR⟩
    exact ⟨l, start, readL, r, stop, readP, readR⟩

theorem choice_some {ps : List (Parser σ α)} {cs rest : List σ} {a : α} (read : choice ps cs = some (a, rest)) :
    ∃ p ∈ ps, p cs = some (a, rest) := by
  induction ps with
  | nil => cases read
  | cons p ps ih =>
    rw [choice] at read
    split at read
    · rename_i r first
      exact ⟨p, List.mem_cons_self, by rw [first, read]⟩
    · obtain ⟨q, at_, read⟩ := ih read
      exact ⟨q, List.mem_cons_of_mem p at_, read⟩

/-! ## Progress -/

/-- The parser reads something wherever it succeeds. -/
def Consumes (p : Parser σ α) : Prop :=
  ∀ cs a rest, p cs = some (a, rest) → ∃ read, read ≠ [] ∧ cs = read ++ rest

/-- The parser leaves an end of its input wherever it succeeds. -/
def Leaves (p : Parser σ α) : Prop :=
  ∀ cs a rest, p cs = some (a, rest) → ∃ read, cs = read ++ rest

theorem Consumes.leaves {p : Parser σ α} (reads : Consumes p) : Leaves p := fun cs a rest read =>
  let ⟨front, _, same⟩ := reads cs a rest read
  ⟨front, same⟩

theorem Consumes.shorter {p : Parser σ α} (reads : Consumes p) {cs rest : List σ} {a : α}
    (read : p cs = some (a, rest)) : rest.length < cs.length := by
  obtain ⟨front, some_, rfl⟩ := reads cs a rest read
  have := List.length_pos_of_ne_nil some_
  rw [List.length_append]
  omega

theorem consumes_filter (p : σ → Bool) : Consumes (filter p) := fun _ c _ read =>
  ⟨[c], List.cons_ne_nil c [], (filter_some read).2⟩

theorem consumes_just [DecidableEq σ] (c : σ) : Consumes (just c) := consumes_filter _

theorem Consumes.map {p : Parser σ α} (reads : Consumes p) (f : α → β) : Consumes (map f p) := fun cs _ rest read =>
  let ⟨a, read, _⟩ := map_some.1 read
  reads cs a rest read

theorem Consumes.andThen {p : Parser σ α} {q : Parser σ β} (reads : Consumes p) (leaves : Leaves q) :
    Consumes (andThen p q) := fun cs r rest read => by
  obtain ⟨mid, readP, readQ⟩ := andThen_some.1 read
  obtain ⟨front, some_, rfl⟩ := reads cs _ mid readP
  obtain ⟨back, rfl⟩ := leaves mid _ rest readQ
  exact ⟨front ++ back, by simp [some_], by rw [List.append_assoc]⟩

/-- Something is read between two ends. -/
theorem Consumes.delimitedBy {γ : Type} {p : Parser σ α} {left : Parser σ β} {right : Parser σ γ}
    (reads : Consumes p) (leavesL : Leaves left) (leavesR : Leaves right) : Consumes (delimitedBy p left right) :=
  fun cs a rest read => by
    obtain ⟨l, start, r, stop, readL, readP, readR⟩ := delimitedBy_some.1 read
    obtain ⟨front, rfl⟩ := leavesL cs l start readL
    obtain ⟨mid, some_, rfl⟩ := reads start a stop readP
    obtain ⟨back, rfl⟩ := leavesR stop r rest readR
    exact ⟨front ++ mid ++ back, by simp [some_], by simp⟩

theorem consumes_choice {ps : List (Parser σ α)} (reads : ∀ p ∈ ps, Consumes p) : Consumes (choice ps) :=
  fun cs a rest read =>
    let ⟨p, at_, read⟩ := choice_some read
    reads p at_ cs a rest read

/-! ## Repetition -/

theorem repeatedFor_enough {p : Parser σ α} (reads : Consumes p) {n : Nat} {cs : List σ} (enough : cs.length ≤ n) :
    repeatedFor p n cs = repeatedFor p cs.length cs := by
  induction n using Nat.strong_induction_on generalizing cs with
  | _ n ih =>
    cases n with
    | zero => rw [Nat.le_zero.1 enough]
    | succ n =>
      cases read : p cs with
      | none =>
        rw [repeatedFor, read]
        cases size : cs.length with
        | zero => rfl
        | succ m => rw [repeatedFor, read]
      | some r =>
        obtain ⟨a, rest⟩ := r
        have short := reads.shorter read
        cases size : cs.length with
        | zero => omega
        | succ m =>
          rw [repeatedFor, repeatedFor, read]
          simp only
          rw [ih n (by omega) (by omega), ih m (by omega) (by omega)]

theorem repeated_none {p : Parser σ α} {cs : List σ} (stops : p cs = none) : repeated p cs = some ([], cs) := by
  rw [repeated]
  cases cs.length with
  | zero => rfl
  | succ n => rw [repeatedFor, stops]

theorem repeated_some {p : Parser σ α} (reads : Consumes p) {cs rest : List σ} {a : α} (read : p cs = some (a, rest)) :
    repeated p cs = map (a :: ·) (repeated p) rest := by
  have short := reads.shorter read
  rw [map, repeated, repeated]
  cases size : cs.length with
  | zero => omega
  | succ n =>
    rw [repeatedFor, read]
    simp only [Option.map_some]
    rw [repeatedFor_enough reads (show rest.length ≤ n by omega)]

/-- **Induction on items**: an input no item can be read from, or an item and an input behind it. -/
theorem Consumes.induct {p : Parser σ α} (reads : Consumes p) {motive : List σ → Prop}
    (stop : ∀ cs, p cs = none → motive cs)
    (item : ∀ cs a rest, p cs = some (a, rest) → motive rest → motive cs) (cs : List σ) : motive cs := by
  induction size : cs.length using Nat.strong_induction_on generalizing cs with
  | _ n ih =>
    cases read : p cs with
    | none => exact stop cs read
    | some r => exact item cs r.1 r.2 read (ih _ (by rw [← size]; exact reads.shorter read) _ rfl)

theorem repeated_filter (p : σ → Bool) (cs : List σ) :
    repeated (filter p) cs = some (cs.takeWhile p, cs.dropWhile p) := by
  induction cs with
  | nil => rfl
  | cons c cs ih =>
    by_cases ok : p c
    · rw [repeated_some (consumes_filter p) (show filter p (c :: cs) = some (c, cs) by simp [ok]), map, ih,
        List.takeWhile_cons_of_pos ok, List.dropWhile_cons_of_pos ok]
      rfl
    · rw [repeated_none (by simp [ok]), List.takeWhile_cons_of_neg ok, List.dropWhile_cons_of_neg ok]

theorem leaves_repeated {p : Parser σ α} (reads : Consumes p) : Leaves (repeated p) := by
  intro cs
  induction cs using reads.induct with
  | stop cs stops =>
    intro as rest read
    rw [repeated_none stops] at read
    cases read
    exact ⟨[], rfl⟩
  | item cs a mid readP ih =>
    intro as rest read
    rw [repeated_some reads readP, map_some] at read
    obtain ⟨as, read, rfl⟩ := read
    obtain ⟨front, -, rfl⟩ := reads cs a mid readP
    obtain ⟨back, rfl⟩ := ih as rest read
    exact ⟨front ++ back, by rw [List.append_assoc]⟩

theorem atLeast_some {p : Parser σ α} {n : Nat} {cs rest : List σ} {as : List α} :
    atLeast n p cs = some (as, rest) ↔ repeated p cs = some (as, rest) ∧ n ≤ as.length := by
  simp [atLeast, Option.filter_eq_some_iff]

theorem consumes_atLeast {p : Parser σ α} (reads : Consumes p) (n : Nat) : Consumes (atLeast (n + 1) p) := by
  intro cs as rest ran
  obtain ⟨read, many⟩ := atLeast_some.1 ran
  cases readP : p cs with
  | none =>
    rw [repeated_none readP] at read
    cases read
    cases many
  | some r =>
    obtain ⟨a, mid⟩ := r
    rw [repeated_some reads readP, map_some] at read
    obtain ⟨as, read, rfl⟩ := read
    obtain ⟨front, some_, rfl⟩ := reads cs a mid readP
    obtain ⟨back, rfl⟩ := leaves_repeated reads mid as rest read
    exact ⟨front ++ back, by simp [some_], by rw [List.append_assoc]⟩

end Wk.Library.Peg
