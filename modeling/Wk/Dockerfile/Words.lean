/-
# Wk.Dockerfile.Words -- the shell form

A shell splits a text at the whitespace outside quotes, and a quote may open anywhere inside a
word.  The grammar here has no such words: a quoted string is a word of its own, also where
nothing stands between it and the next.

* `words_groups`: the words that are read are the pieces of the words of a shell.
* `words_apart`: they are those words exactly where every quote opens behind whitespace and
  closes before it.
-/
import Wk.Dockerfile.Exec

namespace Wk.Dockerfile

open Wk.Library Wk.Library.Peg

set_option autoImplicit false

/-! ## The words of a shell -/

/-- A word of a shell: quoted strings and runs of other characters with nothing between them. -/
def shellWord : Parser Char String := map String.join (atLeast 1 word)

def shellWords (lex : Lexicon) : Parser Char (List String) := atLeast 1 (paddedBy shellWord (inlineWhitespace lex))

/-- Where a text is: outside words, in a run, between double quotes, behind a backslash there, between
single quotes, or right behind a closing quote. -/
inductive Quoting
  | space | bare | double | escaped | single | shut

/-- Where a character leads; `none` where a quote opens or closes beside another character. -/
def Quoting.turn (c : Char) : Quoting → Option Quoting
  | .space =>
    some (if isWhitespace c then .space else if c = '"' then .double else if c = '\'' then .single else .bare)
  | .bare => if isWhitespace c then some .space else if c = '"' ∨ c = '\'' then none else some .bare
  | .double => some (if c = '"' then .shut else if c = '\\' then .escaped else .double)
  | .escaped => some .double
  | .single => some (if c = '\'' then .shut else .single)
  | .shut => if isWhitespace c then some .space else none

/-- Quotes open behind whitespace and close before it. -/
def apart : Quoting → List Char → Bool
  | _, [] => true
  | q, c :: cs =>
    match q.turn c with
    | some q => apart q cs
    | none => false

theorem apart_turn {q next : Quoting} {c : Char} (turn : q.turn c = some next) (cs : List Char) :
    apart q (c :: cs) = apart next cs := by
  rw [apart, turn]

theorem apart_beside {q : Quoting} {c : Char} (turn : q.turn c = none) (cs : List Char) :
    apart q (c :: cs) = false := by
  rw [apart, turn]

theorem apart_white {q : Quoting} (outside : q = .space ∨ q = .bare ∨ q = .shut) {c : Char} (white : isWhitespace c)
    (cs : List Char) : apart q (c :: cs) = apart .space cs := by
  rcases outside with rfl | rfl | rfl <;> exact apart_turn (by simp [Quoting.turn, white]) cs

/-! ## One piece -/

theorem single_some {cs rest : List Char} {s : String} (ran : single cs = some (s, rest)) :
    cs = '\'' :: (s.toList ++ '\'' :: rest) ∧ '\'' ∉ s.toList := by
  obtain ⟨_, start, _, stop, open_, body, close⟩ := delimitedBy_some.1 ran
  obtain ⟨-, rfl⟩ := just_some open_
  obtain ⟨-, rfl⟩ := just_some close
  obtain ⟨chars, read, rfl⟩ := map_some.1 body
  rw [repeated_filter] at read
  simp only [Option.some.injEq, Prod.mk.injEq] at read
  obtain ⟨taken, left⟩ := read
  rw [String.toList_ofList, ← taken, ← left, List.takeWhile_append_dropWhile]
  exact ⟨rfl, fun at_ => by simpa using List.mem_takeWhile_imp at_⟩

/-- What a run of neither whitespace nor quotes is made of. -/
def isBare (c : Char) : Bool := !isWhitespace c && c ≠ '"' && c ≠ '\''

theorem bare_some {cs rest : List Char} {s : String} (ran : bare cs = some (s, rest)) :
    cs = s.toList ++ rest ∧ s.toList ≠ [] ∧ (∀ c ∈ s.toList, isBare c) ∧ ∀ c ∈ rest.head?, isBare c = false := by
  obtain ⟨chars, read, rfl⟩ := map_some.1 ran
  obtain ⟨read, many⟩ := atLeast_some.1 read
  rw [repeated_filter] at read
  simp only [Option.some.injEq, Prod.mk.injEq] at read
  obtain ⟨rfl, rfl⟩ := read
  rw [String.toList_ofList]
  refine ⟨List.takeWhile_append_dropWhile.symm, ?_, fun c at_ => List.mem_takeWhile_imp at_, fun c at_ => ?_⟩
  · intro none_
    rw [none_] at many
    cases many
  have stop := List.head?_dropWhile_not (fun c => !isWhitespace c && c ≠ '"' && c ≠ '\'') cs
  rw [at_] at stop
  exact stop

theorem consumes_word : Consumes word := by
  refine consumes_choice fun p at_ => ?_
  simp only [List.mem_cons, List.not_mem_nil, or_false] at at_
  rcases at_ with rfl | rfl | rfl
  · exact consumes_jsonString
  · exact fun cs s rest read => ⟨'\'' :: (s.toList ++ ['\'']), by simp, by rw [(single_some read).1]; simp⟩
  · exact fun cs s rest read => ⟨s.toList, (bare_some read).2.1, (bare_some read).1⟩

theorem word_cases {cs rest : List Char} {s : String} (read : word cs = some (s, rest)) :
    jsonString cs = some (s, rest) ∨ single cs = some (s, rest) ∨ bare cs = some (s, rest) := by
  obtain ⟨p, at_, read⟩ := choice_some read
  simp only [List.mem_cons, List.not_mem_nil, or_false] at at_
  rcases at_ with rfl | rfl | rfl
  · exact .inl read
  · exact .inr (.inl read)
  · exact .inr (.inr read)

theorem apart_prints {s body : List Char} (prints : PrintsChars s body) (rest : List Char) :
    apart .double (body ++ rest) = apart .double rest := by
  induction prints with
  | nil => rfl
  | cons first later ih =>
    cases first with
    | plain stands =>
      rw [List.append_assoc, List.singleton_append, apart_turn (show Quoting.turn _ .double = some .double by simp [Quoting.turn, stands]), ih]
    | escaped at_ => exact ih

theorem apart_single {s : List Char} (none_ : '\'' ∉ s) (rest : List Char) :
    apart .single (s ++ rest) = apart .single rest := by
  induction s with
  | nil => rfl
  | cons c s ih =>
    simp only [List.mem_cons, not_or] at none_
    rw [List.cons_append, apart_turn (show Quoting.turn c .single = some .single by simp [Quoting.turn, Ne.symm none_.1]),
      ih none_.2]

theorem bare_turn {c : Char} (bare : isBare c) : Quoting.turn c .bare = some .bare ∧ Quoting.turn c .space = some .bare := by
  simp only [isBare, Bool.and_eq_true, Bool.not_eq_true', decide_eq_true_eq] at bare
  simp [Quoting.turn, bare]

theorem apart_run {s : List Char} (all : ∀ c ∈ s, isBare c) (rest : List Char) :
    apart .bare (s ++ rest) = apart .bare rest := by
  induction s with
  | nil => rfl
  | cons c s ih =>
    have goes : Quoting.turn c .bare = some .bare := (bare_turn (all c List.mem_cons_self)).1
    rw [List.cons_append, apart_turn goes, ih fun c at_ => all c (List.mem_cons_of_mem _ at_)]

/-- What stands behind a piece decides whether its quotes stand apart. -/
theorem word_apart {cs rest : List Char} {s : String} (read : word cs = some (s, rest)) :
    apart .space cs = apart .shut rest := by
  rcases word_cases read with read | read | read
  · obtain ⟨_, ⟨body, prints, rfl⟩, rfl⟩ := jsonString_iff.1 read
    show apart .double (body ++ ['"'] ++ rest) = _
    rw [List.append_assoc, apart_prints prints]
    rfl
  · obtain ⟨rfl, none_⟩ := single_some read
    show apart .single (s.toList ++ '\'' :: rest) = _
    rw [apart_single none_]
    rfl
  · obtain ⟨rfl, some_, all, stop⟩ := bare_some read
    obtain ⟨c, chars, same⟩ := List.exists_cons_of_ne_nil some_
    have first := all c (by rw [same]; exact List.mem_cons_self)
    have behind : apart .bare rest = apart .shut rest := by
      cases rest with
      | nil => rfl
      | cons d rest =>
        cases white : isWhitespace d with
        | true => rw [apart_white (.inr (.inl rfl)) white, apart_white (.inr (.inr rfl)) white]
        | false =>
          have quote : d = '"' ∨ d = '\'' := by
            have last := stop d rfl
            rw [isBare, white] at last
            simpa [or_iff_not_imp_left] using last
          rw [apart_beside (by simp [Quoting.turn, white, quote]), apart_beside (by simp [Quoting.turn, white])]
    rw [← behind, ← apart_run all rest, same, List.cons_append, apart_turn (bare_turn first).1, apart_turn (bare_turn first).2]

/-- No piece starts with whitespace. -/
theorem word_dark {cs rest : List Char} {s : String} (read : word cs = some (s, rest)) :
    ∃ c later, cs = c :: later ∧ isWhitespace c = false := by
  rcases word_cases read with read | read | read
  · obtain ⟨_, ⟨body, -, rfl⟩, rfl⟩ := jsonString_iff.1 read
    exact ⟨'"', _, rfl, rfl⟩
  · rw [(single_some read).1]
    exact ⟨'\'', _, rfl, rfl⟩
  · obtain ⟨rfl, some_, all, -⟩ := bare_some read
    obtain ⟨c, chars, same⟩ := List.exists_cons_of_ne_nil some_
    have first := all c (by rw [same]; exact List.mem_cons_self)
    simp only [isBare, Bool.and_eq_true, Bool.not_eq_true'] at first
    exact ⟨c, chars ++ rest, by rw [same]; rfl, first.1.1⟩

/-! ## The words of a text -/

theorem consumes_shellWord : Consumes shellWord := (consumes_atLeast consumes_word 0).map _

section Texts

variable (lex : Lexicon)

theorem consumes_padded {p : Parser Char String} (reads : Consumes p) : Consumes (paddedBy p (inlineWhitespace lex)) :=
  reads.delimitedBy (leaves_inlineWhitespace lex) (leaves_inlineWhitespace lex)

theorem apart_skip (cs : List Char) : apart .space (skip lex cs) = apart .space cs := by
  induction cs with
  | nil => rfl
  | cons c cs ih =>
    cases inline : lex.inline c with
    | true =>
      have white := lex.inline_whitespace c inline
      rw [show skip lex (c :: cs) = skip lex cs from List.dropWhile_cons_of_pos inline, ih, apart_white (.inl rfl) white]
    | false => rw [skip_dark lex inline]

/-- Pieces with nothing between them are read one after the other. -/
theorem pieces_run {m : List Char} : ∀ g stop, repeated word m = some (g, stop) → g ≠ [] → ∀ cs, skip lex cs = m →
    repeated (paddedBy word (inlineWhitespace lex)) cs =
      map (g ++ ·) (repeated (paddedBy word (inlineWhitespace lex))) (skip lex stop) := by
  induction m using consumes_word.induct with
  | stop m stops =>
    intro g stop read some_
    rw [repeated_none stops] at read
    cases read
    exact absurd rfl some_
  | item m w next readW ih =>
    intro g stop read _ cs at_
    rw [repeated_some consumes_word readW, map_some] at read
    obtain ⟨g, read, rfl⟩ := read
    rw [repeated_some (consumes_padded lex consumes_word) ((paddedBy_some lex).2 ⟨next, by rw [at_]; exact readW, rfl⟩)]
    cases more : word next with
    | none =>
      rw [repeated_none more] at read
      cases read
      rfl
    | some r =>
      have dark : skip lex next = next := by
        obtain ⟨c, later, rfl, dark⟩ := word_dark more
        exact skip_dark lex (inline_dark lex dark) later
      have some_ : g ≠ [] := by
        rw [repeated_some consumes_word more, map_some] at read
        obtain ⟨g, -, rfl⟩ := read
        exact List.cons_ne_nil _ _
      rw [dark, map, ih g stop read some_ next dark]
      simp [map, Function.comp_def]

/-- Where no word of a shell begins, no piece of one does. -/
theorem word_none {cs : List Char} (stops : paddedBy shellWord (inlineWhitespace lex) cs = none) :
    paddedBy word (inlineWhitespace lex) cs = none := by
  cases read : paddedBy word (inlineWhitespace lex) cs with
  | none => rfl
  | some r =>
    obtain ⟨stop, readW, -⟩ := (paddedBy_some lex).1 read
    have shell : shellWord (skip lex cs) ≠ none := by
      rw [shellWord, Ne, map_none, atLeast, repeated_some consumes_word readW]
      simp [map, repeated]
    cases readS : shellWord (skip lex cs) with
    | none => exact absurd readS shell
    | some s =>
      rw [(paddedBy_some lex).2 ⟨_, readS, rfl⟩] at stops
      cases stops

/-- In a text that is read to its end, the quotes of a word stand apart where it is one piece. -/
theorem group_apart {cs stop : List Char} {g later : List String} (readG : repeated word (skip lex cs) = some (g, stop))
    (full : g ≠ []) (whole : repeated (paddedBy word (inlineWhitespace lex)) (skip lex stop) = some (later, [])) :
    apart .space (skip lex cs) ↔ g.length = 1 ∧ apart .space (skip lex stop) := by
  cases first : word (skip lex cs) with
  | none =>
    rw [repeated_none first] at readG
    cases readG
    exact absurd rfl full
  | some r =>
    obtain ⟨w, next⟩ := r
    rw [repeated_some consumes_word first, map_some] at readG
    obtain ⟨more_, readL, rfl⟩ := readG
    rw [word_apart first]
    cases more : word next with
    | none =>
      -- the piece stands alone, and the text ends here or goes on with whitespace
      rw [repeated_none more] at readL
      cases readL
      cases stop with
      | nil => simp [skip, apart]
      | cons c stop =>
        cases inline : lex.inline c with
        | true =>
          have white := lex.inline_whitespace c inline
          rw [apart_skip, apart_white (.inl rfl) white, apart_white (.inr (.inr rfl)) white]
          simp
        | false =>
          rw [skip_dark lex inline] at whole
          have none_ : paddedBy word (inlineWhitespace lex) (c :: stop) = none := by
            cases readN : paddedBy word (inlineWhitespace lex) (c :: stop) with
            | none => rfl
            | some r =>
              obtain ⟨_, readN, -⟩ := (paddedBy_some lex).1 readN
              rw [skip_dark lex inline, more] at readN
              cases readN
          rw [repeated_none none_] at whole
          exact absurd (congrArg Prod.snd (Option.some.inj whole)) (List.cons_ne_nil c stop)
    | some r =>
      obtain ⟨c, behind, rfl, dark⟩ := word_dark more
      rw [repeated_some consumes_word more, map_some] at readL
      obtain ⟨_, -, rfl⟩ := readL
      rw [apart_beside (by simp [Quoting.turn, dark])]
      simp

/-- **Pieces**: what is read as words are the pieces of a shell's words, and the quotes of a text
that is read to its end stand apart exactly where each word has one. -/
theorem words_groups (cs : List Char) : ∃ (groups : List (List String)) (tail : List Char),
    repeated (paddedBy word (inlineWhitespace lex)) cs = some (groups.flatten, tail) ∧
    repeated (paddedBy shellWord (inlineWhitespace lex)) cs = some (groups.map String.join, tail) ∧
    (∀ g ∈ groups, g ≠ []) ∧ (tail = [] → (apart .space cs ↔ ∀ g ∈ groups, g.length = 1)) := by
  induction cs using (consumes_padded lex consumes_shellWord).induct with
  | stop cs stops =>
    refine ⟨[], cs, repeated_none (word_none lex stops), repeated_none stops, by simp, ?_⟩
    rintro rfl
    simp [apart]
  | item cs s rest read ih =>
    obtain ⟨groups, tail, pieces, shell, some_, apart_⟩ := ih
    obtain ⟨stop, readS, rfl⟩ := (paddedBy_some lex).1 read
    obtain ⟨g, readG, rfl⟩ := map_some.1 readS
    obtain ⟨readG, many⟩ := atLeast_some.1 readG
    have full : g ≠ [] := List.length_pos_iff.1 many
    refine ⟨g :: groups, tail, ?_, ?_, by simpa using ⟨full, some_⟩, fun whole => ?_⟩
    · rw [pieces_run lex g stop readG full cs rfl, map, pieces]
      rfl
    · rw [repeated_some (consumes_padded lex consumes_shellWord) read, map, shell]
      rfl
    · rw [whole] at pieces
      rw [List.forall_mem_cons, ← apart_ whole, ← apart_skip lex cs]
      exact group_apart lex readG full pieces

end Texts

theorem groups_length {groups : List (List String)} (some_ : ∀ g ∈ groups, g ≠ []) :
    groups.length ≤ groups.flatten.length ∧
      (groups.flatten.length = groups.length → ∀ g ∈ groups, g.length = 1) := by
  induction groups with
  | nil => simp
  | cons g groups ih =>
    obtain ⟨least, exact_⟩ := ih fun g at_ => some_ g (List.mem_cons_of_mem _ at_)
    have first := List.length_pos_of_ne_nil (some_ g List.mem_cons_self)
    rw [List.flatten_cons, List.length_append, List.length_cons, List.forall_mem_cons]
    exact ⟨by omega, fun same => ⟨by omega, exact_ (by omega)⟩⟩

/-- Groups joined are their pieces exactly where each has one. -/
theorem groups_single {groups : List (List String)} (some_ : ∀ g ∈ groups, g ≠ []) :
    groups.map String.join = groups.flatten ↔ ∀ g ∈ groups, g.length = 1 := by
  refine ⟨fun same => (groups_length some_).2 ?_, fun single_ => ?_⟩
  · rw [← same, List.length_map]
  · clear some_
    induction groups with
    | nil => rfl
    | cons g groups ih =>
      obtain ⟨w, rfl⟩ := List.length_eq_one_iff.1 (single_ g List.mem_cons_self)
      rw [List.map_cons, List.flatten_cons, ih fun g at_ => single_ g (List.mem_cons_of_mem _ at_)]
      simp

/-- **The shell form**: the words that are read are those of a shell exactly where every quote
opens behind whitespace and closes before it. -/
theorem words_apart (lex : Lexicon) {rest : List Char} {argv : List String}
    (ran : Peg.parse (words lex) rest = some argv) :
    Peg.parse (shellWords lex) rest = some argv ↔ apart .space rest := by
  obtain ⟨groups, tail, pieces, shell, some_, apart_⟩ := words_groups lex rest
  obtain ⟨read, many⟩ := atLeast_some.1 (parse_some.1 ran)
  rw [pieces] at read
  cases read
  rw [apart_ rfl, ← groups_single some_, parse_some, shellWords, atLeast_some, shell]
  constructor
  · rintro ⟨same, -⟩
    simpa using same
  · intro same
    exact ⟨by rw [same], many⟩

end Wk.Dockerfile
