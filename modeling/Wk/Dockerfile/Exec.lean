/-
# Wk.Dockerfile.Exec -- the exec form

A list of strings may be printed as a JSON array in more than one way: a character that stands for
itself may be escaped or not, and whitespace may stand beside the items.

* `jsonString_iff`: what is read as a JSON string is a printing of it.
* `execArray_prints`: every printing of a list is read as that list.
* `parse_appends`: an instruction on a line of its own is one more instruction of the text.
-/
import Wk.Dockerfile.Lines

namespace Wk.Dockerfile

open Wk.Library Wk.Library.Peg
open Wk.Images (Instr)

set_option autoImplicit false

/-! ## Printings -/

/-- The characters that may be escaped, with the letter behind the backslash. -/
def supported : List (Char × Char) :=
  [('"', '"'), ('\\', '\\'), ('/', '/'), ('\n', 'n'), ('\t', 't'), ('\r', 'r')]

/-- One character between the quotes. -/
inductive PrintsChar : Char → List Char → Prop
  | plain {c : Char} (stands : c ≠ '"' ∧ c ≠ '\\') : PrintsChar c [c]
  | escaped {c letter : Char} (at_ : (c, letter) ∈ supported) : PrintsChar c ['\\', letter]

inductive PrintsChars : List Char → List Char → Prop
  | nil : PrintsChars [] []
  | cons {c : Char} {s text rest : List Char} (first : PrintsChar c text) (later : PrintsChars s rest) :
      PrintsChars (c :: s) (text ++ rest)

/-- A string between its quotes. -/
def PrintsString (s : String) (text : List Char) : Prop :=
  ∃ body, PrintsChars s.toList body ∧ text = '"' :: (body ++ ['"'])

section Arrays

variable (lex : Lexicon)

def PrintsItem (s : String) (text : List Char) : Prop :=
  ∃ left item right, (∀ c ∈ left, lex.inline c) ∧ PrintsString s item ∧ (∀ c ∈ right, lex.inline c) ∧
    text = left ++ (item ++ right)

inductive PrintsItems : List String → List Char → Prop
  | one {s : String} {text : List Char} (item : PrintsItem lex s text) : PrintsItems [s] text
  | more {s t : String} {ss : List String} {text rest : List Char} (item : PrintsItem lex s text)
      (later : PrintsItems (t :: ss) rest) : PrintsItems (s :: t :: ss) (text ++ ',' :: rest)

/-- A list as a JSON array. -/
def PrintsArray (ss : List String) (text : List Char) : Prop :=
  ∃ body, (ss = [] ∧ body = [] ∨ PrintsItems lex ss body) ∧ text = '[' :: (body ++ [']'])

end Arrays

/-! ## A printer -/

/-- A character, escaped if it may be. -/
def jsonChar (c : Char) : List Char :=
  match supported.lookup c with
  | some letter => ['\\', letter]
  | none => [c]

def jsonText (s : String) : List Char := '"' :: (s.toList.flatMap jsonChar ++ ['"'])

def jsonItems : List String → List Char
  | [] => []
  | [s] => jsonText s
  | s :: t :: ss => jsonText s ++ ',' :: jsonItems (t :: ss)

def jsonArray (ss : List String) : List Char := '[' :: (jsonItems ss ++ [']'])

theorem jsonChar_prints (c : Char) : PrintsChar c (jsonChar c) ∧ '\n' ∉ jsonChar c := by
  rw [jsonChar]
  split
  · rename_i letter found
    obtain ⟨front, back, same, -⟩ := List.lookup_eq_some_iff.1 found
    have at_ : (c, letter) ∈ supported := by rw [same]; simp
    refine ⟨.escaped at_, ?_⟩
    simp only [supported, List.mem_cons, Prod.mk.injEq, List.not_mem_nil, or_false] at at_
    rcases at_ with ⟨-, rfl⟩ | ⟨-, rfl⟩ | ⟨-, rfl⟩ | ⟨-, rfl⟩ | ⟨-, rfl⟩ | ⟨-, rfl⟩ <;> decide
  · rename_i none_
    simp only [supported, List.lookup_eq_none_iff, List.forall_mem_cons] at none_
    simp only [bne_iff_ne] at none_
    exact ⟨.plain ⟨none_.1, none_.2.1⟩, by simpa using Ne.symm none_.2.2.2.1⟩

theorem jsonText_prints (lex : Lexicon) (s : String) : PrintsItem lex s (jsonText s) ∧ '\n' ∉ jsonText s := by
  have chars : ∀ cs : List Char, PrintsChars cs (cs.flatMap jsonChar) ∧ '\n' ∉ cs.flatMap jsonChar := by
    intro cs
    induction cs with
    | nil => exact ⟨.nil, by simp⟩
    | cons c cs ih =>
      rw [List.flatMap_cons]
      refine ⟨.cons (jsonChar_prints c).1 ih.1, fun at_ => ?_⟩
      exact (List.mem_append.1 at_).elim (jsonChar_prints c).2 ih.2
  refine ⟨⟨[], _, [], by simp, ⟨_, (chars s.toList).1, rfl⟩, by simp, by simp [jsonText]⟩, fun at_ => ?_⟩
  simp only [jsonText, List.mem_cons, List.mem_append, List.not_mem_nil, or_false] at at_
  rcases at_ with same | at_ | same
  · exact absurd same (by decide)
  · exact (chars s.toList).2 at_
  · exact absurd same (by decide)

/-- **Every list has a printing**, on one line. -/
theorem jsonArray_prints (lex : Lexicon) (ss : List String) :
    PrintsArray lex ss (jsonArray ss) ∧ '\n' ∉ jsonArray ss := by
  have items : ∀ s ss, PrintsItems lex (s :: ss) (jsonItems (s :: ss)) ∧ '\n' ∉ jsonItems (s :: ss) := by
    intro s ss
    induction ss generalizing s with
    | nil => exact ⟨.one (jsonText_prints lex s).1, (jsonText_prints lex s).2⟩
    | cons t ss ih =>
      refine ⟨.more (jsonText_prints lex s).1 (ih t).1, fun at_ => ?_⟩
      rcases List.mem_append.1 at_ with at_ | at_
      · exact (jsonText_prints lex s).2 at_
      · exact (ih t).2 ((List.mem_cons.1 at_).resolve_left (by decide))
  have inner : '\n' ∉ jsonItems ss → '\n' ∉ jsonArray ss := fun one at_ => by
    simp only [jsonArray, List.mem_cons, List.mem_append, List.not_mem_nil, or_false] at at_
    rcases at_ with same | at_ | same
    · exact absurd same (by decide)
    · exact one at_
    · exact absurd same (by decide)
  cases ss with
  | nil => exact ⟨⟨[], .inl ⟨rfl, rfl⟩, rfl⟩, by decide⟩
  | cons s ss => exact ⟨⟨_, .inr (items s ss).1, rfl⟩, inner (items s ss).2⟩

/-! ## Strings -/

/-- One character between the quotes, as it is read. -/
def item : Parser Char Char := choice [escape, normal]

theorem item_prints {c : Char} {text : List Char} (prints : PrintsChar c text) (rest : List Char) :
    item (text ++ rest) = some (c, rest) := by
  cases prints with
  | plain stands =>
    have no : escape (c :: rest) = none := by simp [escape, ignoreThen, map, andThen, stands.2]
    show item (c :: rest) = _
    rw [item, choice, no, choice, normal, filter_cons, if_pos (by simp [stands])]
  | escaped at_ =>
    simp only [supported, List.mem_cons, Prod.mk.injEq, List.not_mem_nil, or_false] at at_
    rcases at_ with ⟨rfl, rfl⟩ | ⟨rfl, rfl⟩ | ⟨rfl, rfl⟩ | ⟨rfl, rfl⟩ | ⟨rfl, rfl⟩ | ⟨rfl, rfl⟩ <;> rfl

theorem item_quote (rest : List Char) : item ('"' :: rest) = none := rfl

theorem escape_some {cs rest : List Char} {c : Char} (ran : escape cs = some (c, rest)) :
    ∃ letter, (c, letter) ∈ supported ∧ cs = '\\' :: letter :: rest := by
  obtain ⟨_, mid, back, read⟩ := ignoreThen_some.1 ran
  obtain ⟨-, rfl⟩ := just_some back
  obtain ⟨p, at_, read⟩ := choice_some read
  simp only [List.mem_cons, List.not_mem_nil, or_false] at at_
  rcases at_ with rfl | rfl | rfl | rfl | rfl | rfl
  · obtain ⟨rfl, rfl⟩ := just_some read
    exact ⟨'"', by simp [supported], rfl⟩
  · obtain ⟨rfl, rfl⟩ := just_some read
    exact ⟨'\\', by simp [supported], rfl⟩
  · obtain ⟨rfl, rfl⟩ := just_some read
    exact ⟨'/', by simp [supported], rfl⟩
  · obtain ⟨_, letter, rfl⟩ := map_some.1 read
    exact ⟨'n', by simp [supported], by rw [(just_some letter).2]⟩
  · obtain ⟨_, letter, rfl⟩ := map_some.1 read
    exact ⟨'t', by simp [supported], by rw [(just_some letter).2]⟩
  · obtain ⟨_, letter, rfl⟩ := map_some.1 read
    exact ⟨'r', by simp [supported], by rw [(just_some letter).2]⟩

/-- What is read between the quotes is a printing of one character. -/
theorem item_some {cs rest : List Char} {c : Char} (read : item cs = some (c, rest)) :
    ∃ text, PrintsChar c text ∧ cs = text ++ rest := by
  obtain ⟨p, at_, read⟩ := choice_some read
  simp only [List.mem_cons, List.not_mem_nil, or_false] at at_
  rcases at_ with rfl | rfl
  · obtain ⟨letter, known, rfl⟩ := escape_some read
    exact ⟨['\\', letter], .escaped known, rfl⟩
  · obtain ⟨stands, rfl⟩ := filter_some read
    exact ⟨[c], .plain (by simpa using stands), rfl⟩

theorem consumes_item : Consumes item := fun cs c rest read => by
  obtain ⟨text, prints, rfl⟩ := item_some read
  exact ⟨text, by cases prints <;> simp, rfl⟩

theorem items_prints {s body : List Char} (prints : PrintsChars s body) (rest : List Char) :
    repeated item (body ++ '"' :: rest) = some (s, '"' :: rest) := by
  induction prints with
  | nil => exact repeated_none (item_quote rest)
  | cons first later ih =>
    rw [List.append_assoc, repeated_some consumes_item (item_prints first _), map, ih]
    rfl

theorem items_some (cs : List Char) : ∀ s rest, repeated item cs = some (s, rest) →
    ∃ body, PrintsChars s body ∧ cs = body ++ rest := by
  induction cs using consumes_item.induct with
  | stop cs stops =>
    intro s rest read
    rw [repeated_none stops] at read
    cases read
    exact ⟨[], .nil, rfl⟩
  | item cs c mid readC ih =>
    intro s rest read
    rw [repeated_some consumes_item readC, map_some] at read
    obtain ⟨s, read, rfl⟩ := read
    obtain ⟨text, prints, rfl⟩ := item_some readC
    obtain ⟨body, later, rfl⟩ := ih s rest read
    exact ⟨text ++ body, .cons prints later, by rw [List.append_assoc]⟩

/-- **JSON strings**: what is read as a string is a printing of it, and every printing is read. -/
theorem jsonString_iff {s : String} {cs rest : List Char} :
    jsonString cs = some (s, rest) ↔ ∃ text, PrintsString s text ∧ cs = text ++ rest := by
  constructor
  · intro ran
    obtain ⟨_, start, _, stop, open_, body, close⟩ := delimitedBy_some.1 ran
    obtain ⟨-, rfl⟩ := just_some open_
    obtain ⟨-, rfl⟩ := just_some close
    obtain ⟨chars, read, rfl⟩ := map_some.1 body
    obtain ⟨text, prints, rfl⟩ := items_some start chars _ read
    exact ⟨_, ⟨text, by rwa [String.toList_ofList], rfl⟩, by simp⟩
  · rintro ⟨_, ⟨body, prints, rfl⟩, rfl⟩
    refine delimitedBy_some.2 ⟨'"', body ++ '"' :: rest, '"', '"' :: rest, ?_, map_some.2 ⟨s.toList, ?_, ?_⟩, ?_⟩
    · simp
    · exact items_prints prints rest
    · exact String.ofList_toList
    · simp

theorem consumes_jsonString : Consumes jsonString := fun cs s rest read => by
  obtain ⟨_, ⟨body, -, rfl⟩, rfl⟩ := jsonString_iff.1 read
  exact ⟨_, by simp, rfl⟩

/-! ## Arrays -/

section Arrays

variable (lex : Lexicon)

/-- What is left behind inline whitespace. -/
def skip (cs : List Char) : List Char := cs.dropWhile lex.inline

theorem inlineWhitespace_eq (cs : List Char) : inlineWhitespace lex cs = some (cs.takeWhile lex.inline, skip lex cs) :=
  repeated_filter lex.inline cs

theorem leaves_inlineWhitespace : Leaves (inlineWhitespace lex) := leaves_repeated (consumes_filter _)

theorem paddedBy_some {α : Type} {p : Parser Char α} {cs rest : List Char} {a : α} :
    paddedBy p (inlineWhitespace lex) cs = some (a, rest) ↔
      ∃ stop, p (skip lex cs) = some (a, stop) ∧ skip lex stop = rest := by
  rw [paddedBy, delimitedBy_some]
  simp only [inlineWhitespace_eq, Option.some.injEq, Prod.mk.injEq]
  constructor
  · rintro ⟨_, _, _, stop, ⟨rfl, rfl⟩, read, rfl, rfl⟩
    exact ⟨stop, read, rfl⟩
  · rintro ⟨stop, read, rfl⟩
    exact ⟨_, _, _, stop, ⟨rfl, rfl⟩, read, rfl, rfl⟩

theorem skip_append {w : List Char} (white : ∀ c ∈ w, lex.inline c) (cs : List Char) :
    skip lex (w ++ cs) = skip lex cs := List.dropWhile_append_of_pos white

theorem skip_dark {c : Char} (dark : lex.inline c = false) (cs : List Char) : skip lex (c :: cs) = c :: cs :=
  List.dropWhile_cons_of_neg (by simp [dark])

/-- No whitespace is one of the marks of an array. -/
theorem inline_dark {c : Char} (dark : isWhitespace c = false) : lex.inline c = false := by
  cases white : lex.inline c with
  | false => rfl
  | true => rw [lex.inline_whitespace c white] at dark; cases dark

theorem paddedBy_item {s : String} {text : List Char} (prints : PrintsItem lex s text) {c : Char}
    (dark : lex.inline c = false) (rest : List Char) :
    paddedBy jsonString (inlineWhitespace lex) (text ++ c :: rest) = some (s, c :: rest) := by
  obtain ⟨left, quoted, right, whiteL, string, whiteR, rfl⟩ := prints
  refine (paddedBy_some lex).2 ⟨right ++ c :: rest, ?_, ?_⟩
  · rw [List.append_assoc, List.append_assoc, skip_append lex whiteL]
    refine jsonString_iff.2 ⟨quoted, string, ?_⟩
    obtain ⟨body, -, rfl⟩ := string
    exact skip_dark lex (inline_dark lex rfl) _
  · rw [skip_append lex whiteR, skip_dark lex dark]

theorem separatedBy_prints {ss : List String} {text : List Char} (prints : PrintsItems lex ss text) (rest : List Char) :
    separatedBy (paddedBy jsonString (inlineWhitespace lex)) (just ',') (text ++ ']' :: rest) = some (ss, ']' :: rest) := by
  have close : lex.inline ']' = false := inline_dark lex rfl
  have comma : lex.inline ',' = false := inline_dark lex rfl
  have reads : Consumes (ignoreThen (just ',') (paddedBy jsonString (inlineWhitespace lex))) :=
    ((consumes_just ',').andThen
      (consumes_jsonString.delimitedBy (leaves_inlineWhitespace lex) (leaves_inlineWhitespace lex)).leaves).map _
  -- the items behind a comma, by induction on how many there are
  have later : ∀ {ss : List String} {text : List Char}, PrintsItems lex ss text →
      repeated (ignoreThen (just ',') (paddedBy jsonString (inlineWhitespace lex))) (',' :: (text ++ ']' :: rest)) =
        some (ss, ']' :: rest) := by
    have stops : repeated (ignoreThen (just ',') (paddedBy jsonString (inlineWhitespace lex))) (']' :: rest) =
        some ([], ']' :: rest) := repeated_none rfl
    intro ss text prints
    induction prints with
    | one item =>
      rw [repeated_some reads (ignoreThen_some.2 ⟨',', _, rfl, paddedBy_item lex item close rest⟩), map, stops]
      rfl
    | more item more ih =>
      rw [List.append_assoc, repeated_some reads (ignoreThen_some.2 ⟨',', _, rfl, paddedBy_item lex item comma _⟩), map,
        List.append_eq, ih]
      rfl
  cases prints with
  | one item =>
    rw [separatedBy, paddedBy_item lex item close]
    simp only
    rw [map, repeated_none rfl]
    rfl
  | more item more =>
    rw [List.append_assoc, separatedBy, List.cons_append, paddedBy_item lex item comma]
    simp only
    rw [map, later more]
    rfl

/-- **Arrays**: every printing of a list is read as that list. -/
theorem execArray_prints {ss : List String} {text : List Char} (prints : PrintsArray lex ss text) :
    Peg.parse (execArray lex) text = some ss := by
  obtain ⟨body, items, rfl⟩ := prints
  have read : separatedBy (paddedBy jsonString (inlineWhitespace lex)) (just ',') (body ++ [']']) = some (ss, [']']) := by
    rcases items with ⟨rfl, rfl⟩ | items
    · have none_ : paddedBy jsonString (inlineWhitespace lex) [']'] = none := by
        cases read : paddedBy jsonString (inlineWhitespace lex) [']'] with
        | none => rfl
        | some r =>
          obtain ⟨stop, read, -⟩ := (paddedBy_some lex).1 read
          rw [skip_dark lex (inline_dark lex rfl)] at read
          cases read
      rw [List.nil_append, separatedBy, none_]
    · exact separatedBy_prints lex items []
  refine parse_some.2 ((paddedBy_some lex).2 ⟨[], ?_, rfl⟩)
  rw [skip_dark lex (inline_dark lex rfl)]
  exact delimitedBy_some.2 ⟨'[', _, ']', [']'], rfl, read, rfl⟩

end Arrays

/-! ## A line of its own -/

/-- A text goes on behind its last line. -/
def goesOn : Bool → List (List Char) → Bool
  | pending, [] => pending
  | pending, raw :: raws => goesOn (if isComment raw then pending else continues raw) raws

theorem joined_append {p : Option (List Char)} {raws : List (List Char)} (closed : goesOn p.isSome raws = false)
    (more : List (List Char)) : joined p (raws ++ more) = joined p raws ++ joined none more := by
  induction raws generalizing p with
  | nil =>
    cases p with
    | none => rfl
    | some acc => cases closed
  | cons raw raws ih =>
    rw [goesOn] at closed
    rw [List.cons_append]
    cases comment : isComment raw with
    | true =>
      rw [if_pos comment] at closed
      rw [joined_skip (.inl comment), joined_skip (.inl comment), ih closed]
    | false =>
      rw [if_neg (by simp [comment])] at closed
      by_cases skip : p = none ∧ isBlank raw
      · rw [joined_skip (.inr skip), joined_skip (.inr skip), skip.1]
        rw [blank_continues skip.2] at closed
        exact ih closed
      · cases goes : continues raw with
        | true =>
          rw [goes] at closed
          rw [joined_on comment goes, joined_on comment goes]
          exact ih (p := some _) closed
        | false =>
          rw [goes] at closed
          have dark : p = none → isBlank raw = false := by simpa using skip
          rw [joined_end comment goes dark, joined_end comment goes dark, ih (p := none) closed, List.append_assoc]

theorem linesFrom_last {raw line : List Char} (one : '\n' ∉ raw) :
    linesFrom raw line = if raw.reverse ++ line = [] then [] else [(raw.reverse ++ line).reverse] := by
  induction raw generalizing line with
  | nil => rfl
  | cons c raw ih =>
    simp only [List.mem_cons, not_or] at one
    rw [linesFrom, if_neg (Ne.symm one.1), ih one.2]
    simp

section Lines

variable (lex : Lexicon)

theorem told_append {ks : List (List Char × List Char)} {seenFrom : Bool} {is : List Instr}
    (said : told lex seenFrom ks = some is) (more : List (List Char × List Char)) :
    told lex seenFrom (ks ++ more) = (told lex (seenFrom || !is.isEmpty) more).map (is ++ ·) := by
  induction ks generalizing seenFrom is with
  | nil =>
    cases said
    simp
  | cons k ks ih =>
    obtain ⟨kwRaw, args⟩ := k
    rw [told] at said
    rw [List.cons_append, told]
    split at said
    · rename_i instr ran
      split at said
      · rename_i seen
        obtain ⟨later, rest, rfl⟩ := Option.map_eq_some_iff.1 said
        simp only [seen, if_true, ih rest, Bool.true_or, Option.map_map]
        simp [Function.comp_def]
      · cases said
    · cases said

/-- **An instruction on a line of its own**, behind a text that does not go on, is one more
instruction. -/
theorem parse_appends {front line : List Char} {d : Dockerfile} {instr : Instr}
    (parsed : parse lex (String.ofList (front ++ ['\n'])) = .ok d) (from_ : d.instructions ≠ [])
    (closed : goesOn false (lines (String.ofList (front ++ ['\n']))) = false)
    (one : '\n' ∉ line) (comment : isComment line = false) (ends : continues line = false) (full : text line ≠ [])
    (ran : instruction lex (keywordRest (text line)).1 (keywordRest (text line)).2 = .ok instr) :
    parse lex (String.ofList (front ++ '\n' :: line)) = .ok ⟨d.instructions ++ [instr]⟩ := by
  have some_ : line ≠ [] := by
    rintro rfl
    exact full rfl
  have split : lines (String.ofList (front ++ '\n' :: line)) = lines (String.ofList (front ++ ['\n'])) ++ [line] := by
    simp only [lines, String.toList_ofList]
    rw [linesFrom_append, linesFrom_last one, if_neg (by simpa using some_)]
    simp
  have dark : isBlank line = false := by
    cases blank : isBlank line with
    | false => rfl
    | true => exact absurd (blank_text blank) full
  have last : joined none [line] = [text line] := by
    have whole : hollow (some (onto none (text line))) = false := by
      rw [hollow_onto]
      simp [full]
    rw [joined_end comment ends fun _ => dark]
    have kept : trimmed (text line) ≠ [] := fun none_ => by simp [hollow, onto, none_] at whole
    simp [shut, onto, joined, kept]
  have empty : d.instructions.isEmpty = false := by simpa using from_
  rw [parse_ok, split, joined_append (p := none) closed, last, List.map_append,
    told_append lex ((parse_ok lex).1 parsed), empty]
  simp [told, ran]

end Lines

/-! ## Instructions in exec form -/

/-- The keywords whose arguments may be in exec form. -/
def argvKeywords : List (String × (List String → Instr)) :=
  [("ENTRYPOINT", .entrypoint), ("CMD", .cmd), ("RUN", .run)]

theorem upper_dark {c : Char} (white : isWhitespace c) : c.toUpper = c := by
  have code : c.toNat < 97 ∨ 122 < c.toNat := by
    simp only [isWhitespace, Bool.or_eq_true, Bool.and_eq_true, decide_eq_true_eq] at white
    omega
  rw [Char.toUpper]
  split
  · rename_i small
    have low : 97 ≤ c.toNat ∧ c.toNat ≤ 122 := ⟨UInt32.le_iff_toNat_le.1 small.1, UInt32.le_iff_toNat_le.1 small.2⟩
    omega
  · rfl

theorem instruction_argv (lex : Lexicon) {kw : String} {make : List String → Instr} (at_ : (kw, make) ∈ argvKeywords)
    {kwRaw : List Char} (spelled : kwRaw.map Char.toUpper = kw.toList) (rest : List Char) :
    instruction lex kwRaw rest = make <$> argv lex kw rest := by
  have whole : String.ofList (kwRaw.map Char.toUpper) = kw := by rw [spelled, String.ofList_toList]
  simp only [argvKeywords, List.mem_cons, Prod.mk.injEq, List.not_mem_nil, or_false] at at_
  rcases at_ with ⟨rfl, rfl⟩ | ⟨rfl, rfl⟩ | ⟨rfl, rfl⟩ <;> simp [instruction, whole]

theorem trimStart_dark {cs : List Char} (dark : ∀ c ∈ cs.head?, isWhitespace c = false) : trimStart cs = cs := by
  cases cs with
  | nil => rfl
  | cons c cs => exact List.dropWhile_cons_of_neg (by simp [dark c rfl])

theorem trimEnd_dark {cs : List Char} (dark : ∀ c ∈ cs.getLast?, isWhitespace c = false) : trimEnd cs = cs := by
  have same : trimStart cs.reverse = cs.reverse := trimStart_dark (by rwa [List.head?_reverse])
  rw [trimStart] at same
  rw [trimEnd, same, List.reverse_reverse]

/-- The keyword of a line, however it is spelled, has no whitespace and starts no comment. -/
theorem spelled_dark {kw : String} {make : List String → Instr} (at_ : (kw, make) ∈ argvKeywords)
    {kwRaw : List Char} (spelled : kwRaw.map Char.toUpper = kw.toList) :
    (∀ c ∈ kwRaw, isWhitespace c = false) ∧ '#' ∉ kwRaw ∧ kwRaw ≠ [] := by
  have letters : (∀ c ∈ kw.toList, 65 ≤ c.toNat ∧ c.toNat ≤ 90) ∧ kw.toList ≠ [] := by
    simp only [argvKeywords, List.mem_cons, Prod.mk.injEq, List.not_mem_nil, or_false] at at_
    rcases at_ with ⟨rfl, -⟩ | ⟨rfl, -⟩ | ⟨rfl, -⟩ <;> simp
  have letter : ∀ c ∈ kwRaw, 65 ≤ c.toUpper.toNat ∧ c.toUpper.toNat ≤ 90 := fun c at_ =>
    letters.1 _ (by rw [← spelled]; exact List.mem_map_of_mem at_)
  refine ⟨fun c at_ => ?_, fun hash => absurd (letter _ hash) (by decide), ?_⟩
  · cases white : isWhitespace c with
    | false => rfl
    | true =>
      have code := letter c at_
      rw [upper_dark white] at code
      simp only [isWhitespace, Bool.or_eq_true, Bool.and_eq_true, decide_eq_true_eq] at white
      omega
  · rintro rfl
    exact letters.2 spelled.symm

/-- **The exec form**: a printing of any list, behind one of the keywords, is an instruction with
that list. -/
theorem parse_exec (lex : Lexicon) {front : List Char} {d : Dockerfile}
    (parsed : parse lex (String.ofList (front ++ ['\n'])) = .ok d) (from_ : d.instructions ≠ [])
    (closed : goesOn false (lines (String.ofList (front ++ ['\n']))) = false)
    {kw : String} {make : List String → Instr} (at_ : (kw, make) ∈ argvKeywords)
    {kwRaw : List Char} (spelled : kwRaw.map Char.toUpper = kw.toList)
    {ss : List String} {cs : List Char} (prints : PrintsArray lex ss cs) (one : '\n' ∉ cs) :
    parse lex (String.ofList (front ++ '\n' :: (kwRaw ++ ' ' :: cs))) = .ok ⟨d.instructions ++ [make ss]⟩ := by
  obtain ⟨dark, hash, some_⟩ := spelled_dark at_ spelled
  have read := execArray_prints lex prints
  obtain ⟨body, -, rfl⟩ := prints
  obtain ⟨k, kwRest, rfl⟩ := List.exists_cons_of_ne_nil some_
  have bracket : isWhitespace ']' = false := rfl
  have last : (k :: kwRest ++ ' ' :: '[' :: (body ++ [']'])).getLast? = some ']' := by
    rw [List.getLast?_append, show ' ' :: '[' :: (body ++ [']']) = (' ' :: '[' :: body) ++ [']'] from rfl, List.getLast?_concat]
    rfl
  have ends : trimEnd (k :: kwRest ++ ' ' :: '[' :: (body ++ [']'])) = k :: kwRest ++ ' ' :: '[' :: (body ++ [']']) :=
    trimEnd_dark fun c at_ => by rw [last] at at_; cases at_; exact bracket
  have begins : trimStart (k :: kwRest ++ ' ' :: '[' :: (body ++ [']'])) = k :: kwRest ++ ' ' :: '[' :: (body ++ [']']) :=
    trimStart_dark fun c at_ => by cases at_; exact dark k List.mem_cons_self
  have alone : stripSuffix '\\' (k :: kwRest ++ ' ' :: '[' :: (body ++ [']'])) = none := by
    rw [stripSuffix, last]
    rfl
  have whole : text (k :: kwRest ++ ' ' :: '[' :: (body ++ [']'])) = k :: kwRest ++ ' ' :: '[' :: (body ++ [']']) := by
    rw [text, ends, alone, Option.getD_none, trimmed, begins, ends]
  have args : trimmed ('[' :: (body ++ [']'])) = '[' :: (body ++ [']']) := by
    rw [trimmed, trimStart_dark fun c at_ => by cases at_; rfl, trimEnd_dark fun c at_ => ?_]
    rw [show '[' :: (body ++ [']']) = ('[' :: body) ++ [']'] from rfl, List.getLast?_concat] at at_
    cases at_
    exact bracket
  have split : keywordRest (k :: kwRest ++ ' ' :: '[' :: (body ++ [']'])) = (k :: kwRest, '[' :: (body ++ [']'])) := by
    have skip : ∀ c ∈ k :: kwRest, (!isWhitespace c) = true := fun c at_ => by rw [dark c at_]; rfl
    have space : (!isWhitespace ' ') = false := rfl
    rw [keywordRest, splitOnceWhitespace, List.dropWhile_append_of_pos skip, List.takeWhile_append_of_pos skip,
      List.dropWhile_cons_of_neg (by simp [space]), List.takeWhile_cons_of_neg (by simp [space])]
    simp [args]
  refine parse_appends lex parsed from_ closed ?_ ?_ ?_ ?_ ?_
  · have newline : isWhitespace '\n' = true := rfl
    intro at_
    rcases List.mem_append.1 at_ with at_ | at_
    · rw [dark _ at_] at newline
      cases newline
    · exact one ((List.mem_cons.1 at_).resolve_left (by decide))
  · rw [isComment, ends, begins]
    have other : k ≠ '#' := fun same => hash (by rw [same]; exact List.mem_cons_self)
    simp [other]
  · rw [continues, ends, alone]
    rfl
  · rw [whole]
    simp
  · rw [whole, split, instruction_argv lex at_ spelled, argv, read]
    rfl

end Wk.Dockerfile
