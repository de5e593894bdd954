/-
# Wk.Dockerfile.Lines -- comments and blank lines between the lines of a text

A comment line is passed over wherever it stands.  A blank line is passed over between
instructions; behind a backslash it ends the instruction, and what follows is one of its own.

* `joined`: the logical lines without their numbers, by recursion on the physical ones.
* `parse_ok`: what is parsed depends on the keywords and arguments of the logical lines only.
* `joined_apart`: lines put in elsewhere change neither.
* `joined_split`: a blank line inside a continued instruction makes more logical lines.
-/
import Wk.Dockerfile.Stages

namespace Wk.Dockerfile

open Wk.Library
open Wk.Images (Instr Stage)

set_option autoImplicit false

/-! ## Trimming -/

theorem trimEnd_append (cs : List Char) {w : List Char} (white : ∀ c ∈ w, isWhitespace c) :
    trimEnd (cs ++ w) = trimEnd cs := by
  rw [trimEnd, trimEnd, List.reverse_append,
    List.dropWhile_append_of_pos fun c at_ => white c (List.mem_reverse.1 at_)]

theorem trimEnd_nil {cs : List Char} : trimEnd cs = [] ↔ ∀ c ∈ cs, isWhitespace c := by
  simp [trimEnd, List.dropWhile_eq_nil_iff]

/-- What is left after whitespace does not start with it. -/
theorem dropWhile_white {cs : List Char} (white : ∀ c ∈ cs.dropWhile isWhitespace, isWhitespace c) :
    cs.dropWhile isWhitespace = [] := by
  cases rest : cs.dropWhile isWhitespace with
  | nil => rfl
  | cons d ds =>
    have stop := List.head?_dropWhile_not isWhitespace cs
    rw [rest] at stop white
    have dark : isWhitespace d = false := stop
    rw [white d List.mem_cons_self] at dark
    cases dark

theorem trimmed_nil {cs : List Char} : trimmed cs = [] ↔ ∀ c ∈ cs, isWhitespace c := by
  rw [trimmed, trimEnd_nil]
  exact ⟨fun white => List.dropWhile_eq_nil_iff.1 (dropWhile_white white),
    fun white c at_ => white c ((List.dropWhile_suffix _).mem at_)⟩

theorem trimmed_append (cs : List Char) {w : List Char} (white : ∀ c ∈ w, isWhitespace c) :
    trimmed (cs ++ w) = trimmed cs := by
  by_cases all : ∀ c ∈ cs, isWhitespace c
  · rw [trimmed_nil.2 all, trimmed_nil.2 fun c at_ => (List.mem_append.1 at_).elim (all c) (white c)]
  · have some_ : trimStart cs ≠ [] := fun none_ => all (List.dropWhile_eq_nil_iff.1 none_)
    have goes : trimStart (cs ++ w) = trimStart cs ++ w := by
      rw [trimStart, List.dropWhile_append]
      exact if_neg fun empty => some_ (List.isEmpty_iff.1 empty)
    rw [trimmed, goes, trimEnd_append _ white, trimmed]

theorem splitOnceWhitespace_dark {cs : List Char} (dark : ∀ c ∈ cs, isWhitespace c = false) {w : List Char}
    (white : ∀ c ∈ w, isWhitespace c) :
    splitOnceWhitespace (cs ++ w) = w.tail?.map fun after => (cs, after) := by
  have skip : ∀ c ∈ cs, (!isWhitespace c) = true := fun c at_ => by rw [dark c at_]; rfl
  rw [splitOnceWhitespace, List.dropWhile_append_of_pos skip, List.takeWhile_append_of_pos skip]
  cases w with
  | nil => rfl
  | cons c w => simp [white c List.mem_cons_self]

/-- Whitespace behind a logical line is no part of what it says. -/
theorem keywordRest_append (line : List Char) {w : List Char} (white : ∀ c ∈ w, isWhitespace c) :
    keywordRest (line ++ w) = keywordRest line := by
  by_cases dark : ∀ c ∈ line, isWhitespace c = false
  · have alone := splitOnceWhitespace_dark dark (w := []) (by simp)
    rw [List.append_nil] at alone
    rw [keywordRest, keywordRest, alone, splitOnceWhitespace_dark dark white]
    cases w with
    | nil => simp
    | cons c w =>
      have blank : trimmed w = [] := trimmed_nil.2 fun d at_ => white d (List.mem_cons_of_mem c at_)
      simp [blank]
  · have some_ : (line.dropWhile fun c => !isWhitespace c) ≠ [] := fun none_ => dark fun c at_ => by
      simpa using List.dropWhile_eq_nil_iff.1 none_ c at_
    have stop : ∃ c ∈ line, ¬(!isWhitespace c) = true := by
      simp only [not_forall] at dark
      obtain ⟨c, at_, white⟩ := dark
      exact ⟨c, at_, by simpa using white⟩
    rw [keywordRest, keywordRest, splitOnceWhitespace, splitOnceWhitespace, List.dropWhile_append,
      if_neg fun empty => some_ (List.isEmpty_iff.1 empty), List.takeWhile_append, if_neg]
    · cases rest : line.dropWhile fun c => !isWhitespace c with
      | nil => exact absurd rest some_
      | cons c after => simp [trimmed_append after white]
    · intro same
      have := List.takeWhile_append_dropWhile (p := fun c => !isWhitespace c) (l := line)
      have size := congrArg List.length this
      rw [List.length_append, same] at size
      exact some_ (List.length_eq_zero_iff.1 (by omega))

/-- A line that starts with whitespace has no keyword. -/
theorem keywordRest_white {c : Char} (white : isWhitespace c) (line : List Char) : (keywordRest (c :: line)).1 = [] := by
  simp [keywordRest, splitOnceWhitespace, white]

/-! ## One physical line -/

def isComment (raw : List Char) : Bool := (trimStart (trimEnd raw)).head? = some '#'

def isBlank (raw : List Char) : Bool := trimmed (trimEnd raw) = []

/-- What a line adds to a logical one. -/
def text (raw : List Char) : List Char := trimmed ((stripSuffix '\\' (trimEnd raw)).getD (trimEnd raw))

/-- A backslash is the last of the line. -/
def continues (raw : List Char) : Bool := (stripSuffix '\\' (trimEnd raw)).isSome

theorem isBlank_iff {raw : List Char} : isBlank raw = true ↔ trimEnd raw = [] := by
  rw [isBlank, decide_eq_true_iff, trimmed_nil]
  refine ⟨fun white => ?_, fun none_ => by simp [none_]⟩
  rw [trimEnd, dropWhile_white fun c at_ => white c (List.mem_reverse.2 at_), List.reverse_nil]

theorem blank_comment {raw : List Char} (blank : isBlank raw) : isComment raw = false := by
  rw [isComment, isBlank_iff.1 blank]
  rfl

theorem blank_continues {raw : List Char} (blank : isBlank raw) : continues raw = false := by
  rw [continues, isBlank_iff.1 blank]
  rfl

theorem blank_text {raw : List Char} (blank : isBlank raw) : text raw = [] := by
  rw [text, isBlank_iff.1 blank]
  rfl

/-- A line of its own that adds nothing is blank. -/
theorem blank_of_text {raw : List Char} (alone : continues raw = false) (nothing : text raw = []) : isBlank raw := by
  have none_ : stripSuffix '\\' (trimEnd raw) = none := by simpa [continues] using alone
  rw [text, none_] at nothing
  simpa [isBlank] using nothing

/-! ## Logical lines without their numbers -/

/-- The whole of a logical line that goes on with a text. -/
def onto : Option (List Char) → List Char → List Char
  | none, t => t
  | some acc, t => acc ++ ' ' :: t

def shut (whole : List Char) : List (List Char) := if trimmed whole = [] then [] else [whole]

def joined : Option (List Char) → List (List Char) → List (List Char)
  | none, [] => []
  | some acc, [] => shut acc
  | p, raw :: raws =>
    if isComment raw || (p.isNone && isBlank raw) then joined p raws
    else if continues raw then joined (some (onto p (text raw))) raws
    else shut (onto p (text raw)) ++ joined none raws

theorem joined_skip {p : Option (List Char)} {raw : List Char} {raws : List (List Char)}
    (skip : isComment raw ∨ p = none ∧ isBlank raw) : joined p (raw :: raws) = joined p raws := by
  rw [joined, if_pos]
  rcases skip with comment | ⟨rfl, blank⟩
  · simp [comment]
  · simp [blank]

theorem joined_on {p : Option (List Char)} {raw : List Char} {raws : List (List Char)}
    (comment : isComment raw = false) (goes : continues raw) :
    joined p (raw :: raws) = joined (some (onto p (text raw))) raws := by
  have dark : isBlank raw = false := by
    cases blank : isBlank raw with
    | false => rfl
    | true => rw [blank_continues blank] at goes; cases goes
  rw [joined, if_neg (by simp [comment, dark]), if_pos goes]

theorem joined_end {p : Option (List Char)} {raw : List Char} {raws : List (List Char)}
    (comment : isComment raw = false) (ends : continues raw = false) (dark : p = none → isBlank raw = false) :
    joined p (raw :: raws) = shut (onto p (text raw)) ++ joined none raws := by
  rw [joined, if_neg, if_neg (by simp [ends])]
  cases p with
  | none => simp [comment, dark rfl]
  | some acc => simp [comment]

theorem joined_ends {acc raw : List Char} {raws : List (List Char)}
    (comment : isComment raw = false) (ends : continues raw = false) :
    joined (some acc) (raw :: raws) = shut (onto (some acc) (text raw)) ++ joined none raws :=
  joined_end comment ends fun no => nomatch no

theorem next_skip {j : Joining} {i : Nat} {raw : List Char}
    (skip : isComment raw ∨ j.pending = none ∧ isBlank raw) : j.next i raw = j := by
  simp only [isComment, isBlank, decide_eq_true_eq] at skip
  rw [Joining.next]
  rcases skip with comment | ⟨rfl_, blank⟩
  · simp [comment]
  · simp [rfl_, blank]

theorem next_text {j : Joining} {i : Nat} {raw : List Char} (comment : isComment raw = false)
    (dark : j.pending = none → isBlank raw = false) :
    ∃ n, j.next i raw =
      if continues raw then { j with pending := some (n, onto (j.pending.map (·.2)) (text raw)) }
      else Joining.close j.out (n, onto (j.pending.map (·.2)) (text raw)) := by
  simp only [isComment, isBlank, decide_eq_false_iff_not] at comment dark
  refine ⟨((j.pending.map (·.1)).getD (i + 1)), ?_⟩
  rw [Joining.next, if_neg (by tauto), if_neg comment, text, continues]
  cases stripSuffix '\\' (trimEnd raw) <;> cases j.pending <;> rfl

theorem close_out (out : List (Nat × List Char)) (whole : Nat × List Char) :
    (Joining.close out whole).out.map (·.2) = out.map (·.2) ++ shut whole.2 := by
  by_cases blank : trimmed whole.2 = [] <;> simp [Joining.close, shut, blank]

/-- **Logical lines**: the loop's, without their numbers. -/
theorem logicalLines_joined (source : String) : (logicalLines source).map (·.2) = joined none (lines source) := by
  suffices ∀ (raws : List (List Char)) (k : Nat) (j : Joining),
      ((raws.zipIdx k).foldl (fun (j : Joining) line => j.next line.2 line.1) j).finish.map (·.2) =
        j.out.map (·.2) ++ joined (j.pending.map (·.2)) raws by
    simpa [logicalLines] using this (lines source) 0 ⟨[], none⟩
  intro raws
  induction raws with
  | nil =>
    rintro k ⟨out, pending⟩
    cases pending with
    | none => simp [Joining.finish, joined]
    | some whole => simp [Joining.finish, joined, close_out]
  | cons raw raws ih =>
    intro k j
    rw [List.zipIdx_cons, List.foldl_cons, ih]
    by_cases skip : isComment raw ∨ j.pending = none ∧ isBlank raw
    · rw [next_skip skip, joined_skip (by simpa using skip)]
    · simp only [not_or, not_and, Bool.not_eq_true] at skip
      obtain ⟨n, turn⟩ := next_text (i := k) skip.1 skip.2
      rw [turn]
      cases goes : continues raw with
      | true => simp [joined_on skip.1 goes]
      | false =>
        rw [joined_end skip.1 goes (by simpa using skip.2), if_neg (by simp), close_out]
        simp [Joining.close]

/-! ## What is parsed -/

section Parsed

variable (lex : Lexicon)

/-- The instructions of keywords and arguments, if no line is wrong. -/
def told : Bool → List (List Char × List Char) → Option (List Instr)
  | _, [] => some []
  | seenFrom, (kwRaw, args) :: rest =>
    match instruction lex kwRaw args with
    | .ok instr => if seenFrom || instr.isFrom then (told true rest).map (instr :: ·) else none
    | .error _ => none

theorem parseLines_ok {ls : List (Nat × List Char)} {seenFrom : Bool} {is : List Instr} :
    parseLines lex seenFrom ls = .ok is ↔ told lex seenFrom (ls.map fun line => keywordRest line.2) = some is := by
  induction ls generalizing seenFrom is with
  | nil => simp [parseLines, told]
  | cons line ls ih =>
    obtain ⟨n, line⟩ := line
    rw [parseLines, List.map_cons, told]
    cases ran : instruction lex (keywordRest line).1 (keywordRest line).2 with
    | error e => simp [atLine, bind, Except.bind, ran]
    | ok instr =>
      cases seen : (seenFrom || instr.isFrom) with
      | false => simp [atLine, bind, Except.bind, ran, seen, throw, throwThe, MonadExceptOf.throw]
      | true =>
        have rest := @ih true
        cases later : parseLines lex true ls with
        | error e =>
          have none_ : told lex true (ls.map fun line => keywordRest line.2) = none := by
            cases said : told lex true (ls.map fun line => keywordRest line.2) with
            | none => rfl
            | some is => exact absurd (rest.2 said) (by rw [later]; exact fun no => nomatch no)
          simp [atLine, bind, Except.bind, ran, seen, later, none_]
        | ok is' =>
          simp [atLine, bind, Except.bind, ran, seen, later, rest.1 later, pure, Except.pure]

/-- **What a text says** is what the keywords and arguments of its logical lines say. -/
theorem parse_ok {source : String} {d : Dockerfile} :
    parse lex source = .ok d ↔
      told lex false ((joined none (lines source)).map keywordRest) = some d.instructions := by
  rw [← logicalLines_joined, List.map_map, ← Function.comp_def, ← Function.comp_assoc]
  show _ ↔ told lex false ((logicalLines source).map fun line => keywordRest line.2) = _
  rw [← parseLines_ok, parse]
  cases parseLines lex false (logicalLines source) with
  | error e => simp [Except.map]
  | ok is =>
    cases d
    simp [Except.map]

theorem told_length {ks : List (List Char × List Char)} {seenFrom : Bool} {is : List Instr}
    (said : told lex seenFrom ks = some is) : is.length = ks.length := by
  induction ks generalizing seenFrom is with
  | nil =>
    cases said
    rfl
  | cons k ks ih =>
    rw [told] at said
    split at said
    · split at said
      · obtain ⟨later, rest, rfl⟩ := Option.map_eq_some_iff.1 said
        simp [ih rest]
      · cases said
    · cases said

/-- No line says anything without a keyword. -/
theorem told_keyword {ks : List (List Char × List Char)} {seenFrom : Bool} {is : List Instr}
    (said : told lex seenFrom ks = some is) : ∀ k ∈ ks, k.1 ≠ [] := by
  induction ks generalizing seenFrom is with
  | nil => simp
  | cons k ks ih =>
    obtain ⟨kwRaw, args⟩ := k
    rw [told] at said
    split at said
    · rename_i instr ran
      split at said
      · obtain ⟨later, rest, rfl⟩ := Option.map_eq_some_iff.1 said
        rintro k at_
        rcases List.mem_cons.1 at_ with rfl | at_
        · rintro rfl
          have unknown : instruction lex [] args = .error "unknown instruction " := rfl
          rw [unknown] at ran
          cases ran
        · exact ih rest k at_
      · cases said
    · cases said

end Parsed

/-! ## Lines that are put in -/

/-- A line of an edited text: one that was there, or one put in. -/
inductive Edit
  | kept (raw : List Char)
  | inserted (raw : List Char)

def before : List Edit → List (List Char)
  | [] => []
  | .kept raw :: es => raw :: before es
  | .inserted _ :: es => before es

def after : List Edit → List (List Char)
  | [] => []
  | .kept raw :: es => raw :: after es
  | .inserted raw :: es => raw :: after es

/-- Only comments and blank lines are put in. -/
def Passes (es : List Edit) : Prop := ∀ raw, .inserted raw ∈ es → isComment raw ∨ isBlank raw

theorem Passes.tail {e : Edit} {es : List Edit} (passes : Passes (e :: es)) : Passes es :=
  fun raw at_ => passes raw (List.mem_cons_of_mem e at_)

/-- The rest of a continued instruction has text. -/
def carries : List (List Char) → Bool
  | [] => false
  | raw :: raws => if isComment raw then carries raws else text raw ≠ [] || (continues raw && carries raws)

/-- A blank line is put between a line that goes on and text it goes on with. -/
def splits : Bool → List Edit → Bool
  | _, [] => false
  | goesOn, .inserted raw :: es => (goesOn && isBlank raw && carries (before es)) || splits goesOn es
  | goesOn, .kept raw :: es => splits (if isComment raw then goesOn else continues raw) es

/-! ## Pending text -/

/-- Nothing is pending, or nothing but whitespace. -/
def hollow : Option (List Char) → Bool
  | none => true
  | some acc => trimmed acc = []

theorem hollow_onto (p : Option (List Char)) (raw : List Char) :
    hollow (some (onto p (text raw))) = (hollow p && decide (text raw = [])) := by
  have own : (∀ c ∈ text raw, isWhitespace c) ↔ text raw = [] := by
    refine ⟨fun white => ?_, fun none_ => by simp [none_]⟩
    rw [text, trimmed, trimEnd, dropWhile_white fun c at_ => white c (List.mem_reverse.2 at_), List.reverse_nil]
  cases p with
  | none => simp only [hollow, onto, trimmed_nil, own, Bool.true_and]
  | some acc =>
    have space : isWhitespace ' ' = true := by decide
    simp only [hollow, onto, trimmed_nil, List.forall_mem_append, List.forall_mem_cons, own, space, true_and,
      Bool.decide_and]

theorem shut_length (acc : List Char) : (shut acc).length = if hollow (some acc) then 0 else 1 := by
  by_cases blank : trimmed acc = [] <;> simp [shut, hollow, blank]

theorem shut_hollow {acc : List Char} (blank : hollow (some acc)) : shut acc = [] :=
  if_pos (by simpa [hollow] using blank)

/-- A logical line that goes on with nothing says the same. -/
theorem shut_nothing (acc : List Char) : (shut (onto (some acc) [])).map keywordRest = (shut acc).map keywordRest := by
  have white : ∀ c ∈ [' '], isWhitespace c := fun c at_ => by
    rw [List.mem_singleton.1 at_]
    rfl
  rw [onto, shut, shut, trimmed_append acc white]
  split
  · rfl
  · simp [keywordRest_append acc white]

theorem shut_nothing_length (acc : List Char) : (shut (onto (some acc) [])).length = (shut acc).length := by
  simpa using congrArg List.length (shut_nothing acc)

theorem joined_hollow {q : Option (List Char)} (blank : hollow q) : joined q [] = [] := by
  cases q with
  | none => rfl
  | some acc => exact shut_hollow blank

/-- A blank line ends what is pending, if anything is. -/
theorem joined_blank {q : Option (List Char)} (hollow_ : hollow q) {raw : List Char} (blank : isBlank raw)
    (raws : List (List Char)) : joined q (raw :: raws) = joined none raws := by
  cases q with
  | none => exact joined_skip (.inr ⟨rfl, blank⟩)
  | some acc =>
    rw [joined_ends (blank_comment blank) (blank_continues blank), shut_hollow, List.nil_append]
    rw [hollow_onto, hollow_, blank_text blank]
    rfl

theorem carries_false {raw : List Char} {raws : List (List Char)} (comment : isComment raw = false)
    (none_ : carries (raw :: raws) = false) : text raw = [] ∧ (continues raw → carries raws = false) := by
  rw [carries, if_neg (by simp [comment])] at none_
  simp only [Bool.or_eq_false_iff, decide_eq_false_iff_not, not_not, Bool.and_eq_false_iff] at none_
  exact ⟨none_.1, fun goes => none_.2.resolve_left (by simp [goes])⟩

/-! ## Lines put in elsewhere -/

/-- **Lines put in elsewhere**: comments anywhere, and blank lines that split no instruction, leave
the keywords and arguments of all logical lines.  Where a blank line ended an instruction that goes
on with nothing, the edited text is past it while the other is not. -/
theorem joined_apart {es : List Edit} (passes : Passes es) :
    (∀ p : Option (List Char), splits p.isSome es = false →
      (joined p (after es)).map keywordRest = (joined p (before es)).map keywordRest) ∧
    ∀ acc q, hollow q → carries (before es) = false → splits true es = false →
      (joined (some acc) (before es)).map keywordRest =
        (shut acc).map keywordRest ++ (joined q (after es)).map keywordRest := by
  induction es with
  | nil =>
    refine ⟨fun p _ => rfl, fun acc q blank _ _ => ?_⟩
    simp [before, after, joined_hollow blank, joined]
  | cons e es ih =>
    obtain ⟨apart, past⟩ := ih passes.tail
    cases e with
    | inserted raw =>
      simp only [splits, Bool.or_eq_false_iff, before, after]
      rcases passes raw List.mem_cons_self with comment | blank
      · refine ⟨fun p whole => ?_, fun acc q blank none_ whole => ?_⟩
        · rw [joined_skip (.inl comment), apart p whole.2]
        · rw [joined_skip (.inl comment), past acc q blank none_ whole.2]
      · refine ⟨fun p whole => ?_, fun acc q hollow_ none_ whole => ?_⟩
        · cases p with
          | none => rw [joined_skip (.inr ⟨rfl, blank⟩), apart none whole.2]
          | some acc =>
            have none_ : carries (before es) = false := by simpa [blank] using whole.1
            rw [joined_ends (blank_comment blank) (blank_continues blank), blank_text blank,
              List.map_append, shut_nothing, past acc none rfl none_ whole.2]
        · rw [joined_blank hollow_ blank, past acc none rfl none_ whole.2]
    | kept raw =>
      simp only [splits, before, after]
      cases comment : isComment raw with
      | true =>
        simp only [if_true, joined_skip (.inl comment)]
        refine ⟨fun p whole => apart p whole, fun acc q blank none_ whole => past acc q blank ?_ whole⟩
        rwa [carries, if_pos comment] at none_
      | false =>
        simp only [Bool.false_eq_true, if_false]
        refine ⟨fun p whole => ?_, fun acc q blank none_ whole => ?_⟩
        · by_cases skip : p = none ∧ isBlank raw
          · rw [joined_skip (.inr skip), joined_skip (.inr skip), skip.1]
            rw [blank_continues skip.2] at whole
            exact apart none whole
          · cases goes : continues raw with
            | true =>
              rw [goes] at whole
              rw [joined_on comment goes, joined_on comment goes, apart (some _) whole]
            | false =>
              rw [goes] at whole
              have dark : p = none → isBlank raw = false := by simpa using skip
              rw [joined_end comment goes dark, joined_end comment goes dark, List.map_append, List.map_append,
                apart none whole]
        · obtain ⟨nothing, later⟩ := carries_false comment none_
          cases goes : continues raw with
          | true =>
            rw [goes] at whole
            have blank' : hollow (some (onto q (text raw))) := by rw [hollow_onto, blank, nothing]; rfl
            rw [joined_on comment goes, joined_on comment goes, past _ _ blank' (later goes) whole, nothing, shut_nothing]
          | false =>
            rw [goes] at whole
            rw [joined_ends comment goes, joined_blank blank (blank_of_text goes nothing), nothing,
              List.map_append, shut_nothing, apart none whole]

/-! ## A blank line inside an instruction -/

/-- **No line is lost**: an edited text has no fewer logical lines, but for one that it may be past. -/
theorem joined_le {es : List Edit} (passes : Passes es) :
    (joined none (before es)).length ≤ (joined none (after es)).length ∧
    ∀ acc q, (joined (some acc) (before es)).length ≤
      (if hollow (some acc) = false ∧ hollow q ∧ carries (before es) = false then 1 else 0) +
        (joined q (after es)).length := by
  induction es with
  | nil =>
    refine ⟨Nat.le_refl _, fun acc q => ?_⟩
    simp only [before, after, joined, shut_length, carries, and_true]
    cases q with
    | none => cases hollow (some acc) <;> simp [hollow, joined]
    | some b => cases hollow (some acc) <;> cases blank : hollow (some b) <;> simp [joined, shut_length, blank]
  | cons e es ih =>
    obtain ⟨apart, past⟩ := ih passes.tail
    cases e with
    | inserted raw =>
      simp only [before, after]
      rcases passes raw List.mem_cons_self with comment | blank
      · exact ⟨by rwa [joined_skip (.inl comment)], fun acc q => by rw [joined_skip (.inl comment)]; exact past acc q⟩
      · refine ⟨by rwa [joined_skip (.inr ⟨rfl, blank⟩)], fun acc q => ?_⟩
        cases q with
        | none => rw [joined_skip (.inr ⟨rfl, blank⟩)]; exact past acc none
        | some b =>
          have rest := past acc none
          have same : hollow (some (onto (some b) (text raw))) = hollow (some b) := by
            rw [hollow_onto, blank_text blank]
            simp
          rw [joined_ends (blank_comment blank) (blank_continues blank), List.length_append, shut_length, same]
          simp only [hollow, true_and] at rest
          by_cases some_ : hollow (some b)
          · simp only [some_, if_true, true_and, Nat.zero_add] at rest ⊢
            exact rest
          · simp only [some_, Bool.false_eq_true, false_and, and_false, if_false]
            refine rest.trans ?_
            split <;> omega
    | kept raw =>
      simp only [before, after]
      cases comment : isComment raw with
      | true =>
        simp only [joined_skip (.inl comment), carries, comment, if_true]
        exact ⟨apart, past⟩
      | false =>
        refine ⟨?_, fun acc q => ?_⟩
        · by_cases blank : isBlank raw
          · rwa [joined_skip (.inr ⟨rfl, blank⟩), joined_skip (.inr ⟨rfl, blank⟩)]
          · cases goes : continues raw with
            | true =>
              have rest := past (onto none (text raw)) (some (onto none (text raw)))
              rw [joined_on comment goes, joined_on comment goes]
              rwa [if_neg (fun both => by rw [both.1] at both; exact absurd both.2.1 (by decide)), Nat.zero_add] at rest
            | false =>
              have dark : (none : Option (List Char)) = none → isBlank raw = false := fun _ => by simpa using blank
              rw [joined_end comment goes dark, joined_end comment goes dark, List.length_append, List.length_append]
              omega
        · cases goes : continues raw with
          | true =>
            have rest := past (onto (some acc) (text raw)) (some (onto q (text raw)))
            rw [joined_on comment goes, joined_on comment goes]
            refine rest.trans (Nat.add_le_add_right ?_ _)
            simp only [hollow_onto, carries, comment, goes]
            by_cases nothing : text raw = [] <;> simp [nothing]
          | false =>
            have size := shut_length (onto (some acc) (text raw))
            rw [joined_ends comment goes, List.length_append, size, hollow_onto]
            simp only [carries, comment, goes]
            by_cases blank : isBlank raw ∧ q = none
            · rw [blank.2, joined_skip (.inr ⟨rfl, blank.1⟩), blank_text blank.1]
              cases hollow (some acc) <;> simp [hollow] <;> omega
            · have dark : q = none → isBlank raw = false := fun none_ => by simpa [none_] using blank
              rw [joined_end comment goes dark, List.length_append, shut_length, hollow_onto]
              by_cases nothing : text raw = []
              · cases hollow (some acc) <;> cases hollow q <;> simp [nothing] <;> omega
              · simp [nothing]
                omega

/-- Text behind pending whitespace makes a line without a keyword. -/
theorem joined_white {raws : List (List Char)} {acc : List Char} (leads : ∀ c ∈ acc.head?, isWhitespace c)
    (full : hollow (some acc) = false ∨ carries raws) : ∃ l ∈ joined (some acc) raws, (keywordRest l).1 = [] := by
  have emitted : ∀ whole : List Char, (∀ c ∈ whole.head?, isWhitespace c) → hollow (some whole) = false →
      whole ∈ shut whole ∧ (keywordRest whole).1 = [] := by
    intro whole leads full
    cases whole with
    | nil => cases full
    | cons c rest => exact ⟨by simpa [shut, hollow] using full, keywordRest_white (leads c rfl) rest⟩
  induction raws generalizing acc with
  | nil =>
    obtain ⟨at_, none_⟩ := emitted acc leads (full.resolve_right Bool.false_ne_true)
    exact ⟨acc, at_, none_⟩
  | cons raw raws ih =>
    cases comment : isComment raw with
    | true =>
      rw [joined_skip (.inl comment)]
      rw [carries, if_pos comment] at full
      exact ih leads full
    | false =>
      have leads' : ∀ c ∈ (onto (some acc) (text raw)).head?, isWhitespace c := by
        cases acc with
        | nil => rintro c ⟨⟩; rfl
        | cons d acc => exact leads
      have full' : hollow (some (onto (some acc) (text raw))) = false ∨ continues raw ∧ carries raws := by
        rw [carries, if_neg (by simp [comment])] at full
        rw [hollow_onto]
        rcases full with full | full
        · exact .inl (by rw [full]; rfl)
        · by_cases nothing : text raw = []
          · exact .inr (by simpa [nothing] using full)
          · exact .inl (by simp [nothing])
      cases goes : continues raw with
      | true =>
        rw [joined_on comment goes]
        exact ih leads' (full'.imp_right (·.2))
      | false =>
        obtain ⟨at_, none_⟩ := emitted _ leads' (full'.resolve_right fun both => by rw [goes] at both; cases both.1)
        exact ⟨_, by rw [joined_ends comment goes]; exact List.mem_append_left _ at_, none_⟩

/-- A line that is cut off from the text it goes on with is one line more. -/
theorem joined_cut {es : List Edit} (passes : Passes es) {acc : List Char} (full : carries (before es))
    (keyed : ∀ l ∈ joined (some acc) (before es), (keywordRest l).1 ≠ []) :
    (joined (some acc) (before es)).length < (shut acc).length + (joined none (after es)).length := by
  have some_ : hollow (some acc) = false := by
    by_contra blank
    have leads : ∀ c ∈ acc.head?, isWhitespace c := fun c at_ => by
      have white : trimmed acc = [] := by simpa [hollow] using blank
      exact trimmed_nil.1 white c (List.mem_of_mem_head? at_)
    obtain ⟨l, at_, none_⟩ := joined_white leads (.inr full)
    exact keyed l at_ none_
  have rest := (joined_le passes).2 acc none
  rw [if_neg fun both => by rw [full] at both; cases both.2.2] at rest
  rw [shut_length, some_]
  simp only [Bool.false_eq_true, if_false]
  omega

/-- **A blank line inside an instruction**: the edited text has more logical lines, where all lines
of the other have keywords. -/
theorem joined_split {es : List Edit} (passes : Passes es) :
    (∀ p : Option (List Char), (∀ l ∈ joined p (before es), (keywordRest l).1 ≠ []) → splits p.isSome es →
      (joined p (before es)).length < (joined p (after es)).length) ∧
    ∀ acc q, hollow q → carries (before es) = false → (∀ l ∈ joined (some acc) (before es), (keywordRest l).1 ≠ []) →
      splits true es → (joined (some acc) (before es)).length < (shut acc).length + (joined q (after es)).length := by
  induction es with
  | nil => exact ⟨(fun p _ no => nomatch no), (fun acc q _ _ _ no => nomatch no)⟩
  | cons e es ih =>
    obtain ⟨apart, past⟩ := ih passes.tail
    cases e with
    | inserted raw =>
      simp only [splits, Bool.or_eq_true, Bool.and_eq_true, before, after]
      rcases passes raw List.mem_cons_self with comment | blank
      · have dark : isBlank raw = false := by
          cases blank : isBlank raw with
          | false => rfl
          | true => rw [blank_comment blank] at comment; cases comment
        simp only [joined_skip (.inl comment), dark, Bool.false_eq_true, and_false, false_and, false_or]
        exact ⟨apart, past⟩
      · simp only [blank, and_true]
        refine ⟨fun p keyed split => ?_, fun acc q hollow_ none_ keyed split => ?_⟩
        · cases p with
          | none =>
            rw [joined_skip (.inr ⟨rfl, blank⟩)]
            exact apart none keyed (split.resolve_left fun no => nomatch no.1)
          | some acc =>
            rw [joined_ends (blank_comment blank) (blank_continues blank), blank_text blank, List.length_append,
              shut_nothing_length]
            cases text_ : carries (before es) with
            | true => exact joined_cut passes.tail text_ keyed
            | false =>
              exact past acc none rfl text_ keyed (split.resolve_left fun both => by rw [text_] at both; cases both.2)
        · rw [joined_blank hollow_ blank]
          exact past acc none rfl none_ keyed (split.resolve_left fun both => by rw [none_] at both; cases both.2)
    | kept raw =>
      simp only [splits, before, after]
      cases comment : isComment raw with
      | true =>
        simp only [if_true, joined_skip (.inl comment), carries, comment]
        exact ⟨apart, past⟩
      | false =>
        simp only [Bool.false_eq_true, if_false]
        refine ⟨fun p keyed split => ?_, fun acc q blank none_ keyed split => ?_⟩
        · by_cases skip : p = none ∧ isBlank raw
          · rw [joined_skip (.inr skip), skip.1] at keyed ⊢
            rw [joined_skip (.inr ⟨rfl, skip.2⟩)]
            rw [blank_continues skip.2] at split
            exact apart none keyed split
          · cases goes : continues raw with
            | true =>
              rw [goes] at split
              rw [joined_on comment goes] at keyed ⊢
              rw [joined_on comment goes]
              exact apart (some _) keyed split
            | false =>
              rw [goes] at split
              have dark : p = none → isBlank raw = false := by simpa using skip
              rw [joined_end comment goes dark] at keyed ⊢
              rw [joined_end comment goes dark, List.length_append, List.length_append]
              have rest := apart none (fun l at_ => keyed l (List.mem_append_right _ at_)) split
              omega
        · obtain ⟨nothing, later⟩ := carries_false comment none_
          have same : (shut (onto (some acc) (text raw))).length = (shut acc).length := by
            rw [nothing, shut_nothing_length]
          cases goes : continues raw with
          | true =>
            rw [goes] at split
            have blank' : hollow (some (onto q (text raw))) := by rw [hollow_onto, blank, nothing]; rfl
            rw [joined_on comment goes] at keyed ⊢
            rw [joined_on comment goes, ← same]
            exact past _ _ blank' (later goes) keyed split
          | false =>
            rw [goes] at split
            rw [joined_ends comment goes] at keyed ⊢
            rw [joined_blank blank (blank_of_text goes nothing), List.length_append, same]
            have rest := apart none (fun l at_ => keyed l (List.mem_append_right _ at_)) split
            omega

/-! ## Edited texts -/

theorem linesFrom_append (front back line : List Char) :
    linesFrom (front ++ '\n' :: back) line = linesFrom (front ++ ['\n']) line ++ linesFrom back [] := by
  induction front generalizing line with
  | nil => simp [linesFrom]
  | cons c front ih =>
    by_cases newline : c = '\n'
    · subst newline
      simp [linesFrom, ih]
    · simp [linesFrom, newline, ih]

/-- **Lines put into a text that parses**: the text parses to the same exactly where no blank line
is put between a line that goes on and text it goes on with.  The stages are all of the
instructions from the first `FROM` on. -/
theorem parse_edited (lex : Lexicon) :
    (∀ (source edited : String) (es : List Edit) (d : Dockerfile),
      lines source = before es → lines edited = after es → Passes es → parse lex source = .ok d →
        (parse lex edited = .ok d ↔ splits false es = false)) ∧
    ∀ d : Dockerfile, ∃ stages, d.stages = some stages ∧
      stages.flatMap ofStage = d.instructions.dropWhile (fun instr => !instr.isFrom) ∧
      (∀ stage ∈ stages, ∀ instr ∈ stage.instructions, instr.isFrom = false) ∧
      stages.map (fun stage => (stage.image, stage.alias_)) = d.instructions.filterMap fromParts := by
  refine ⟨fun source edited es d was is passes parsed => ?_, stages_whole⟩
  have told_ := (parse_ok lex).1 parsed
  rw [parse_ok, is]
  rw [was] at told_
  constructor
  · intro edited_
    by_contra split
    have keyed : ∀ l ∈ joined none (before es), (keywordRest l).1 ≠ [] := fun l at_ =>
      told_keyword lex told_ _ (List.mem_map_of_mem at_)
    have more := (joined_split passes).1 none keyed (by simpa using split)
    have sizes := (told_length lex told_).symm.trans (told_length lex edited_)
    rw [List.length_map, List.length_map] at sizes
    omega
  · intro apart
    rw [(joined_apart passes).1 none apart]
    exact told_

/-- A comment between the lines of a copy, and a blank line behind it. -/
theorem parse_edited_comment :
    parse .ascii "FROM a\nCOPY b \\\n# c\nc /d\n\n" = .ok ⟨[.from_ "a" none, .copy ["b", "c"] "/d" none]⟩ :=
  ((parse_edited .ascii).1 "FROM a\nCOPY b \\\nc /d" _
    [.kept "FROM a".toList, .kept "COPY b \\".toList, .inserted "# c".toList, .kept "c /d".toList, .inserted []]
    _ rfl rfl (by rintro raw at_; simp at at_; rcases at_ with rfl | rfl <;> decide) rfl).2 rfl

section Poles

/-- A blank line between the lines of a copy leaves it without a destination. -/
theorem parse_blank :
    ¬∀ (source edited : String) (es : List Edit) (d : Dockerfile),
      lines source = before es → lines edited = after es → Passes es → parse .ascii source = .ok d →
        parse .ascii edited = .ok d := by
  intro same
  have bad := same "FROM a\nCOPY b \\\nc /d" "FROM a\nCOPY b \\\n\nc /d"
    [.kept "FROM a".toList, .kept "COPY b \\".toList, .inserted [], .kept "c /d".toList]
    ⟨[.from_ "a" none, .copy ["b", "c"] "/d" none]⟩ rfl rfl
    (by rintro raw at_; simp at at_; rcases at_ with rfl; decide) rfl
  have broken : parse .ascii "FROM a\nCOPY b \\\n\nc /d" = .error "Dockerfile line 2: COPY: invalid arguments" := rfl
  rw [broken] at bad
  cases bad

end Poles

end Wk.Dockerfile
