/-
# Wk.Dockerfile.Pairs -- pairs of a key and a value, and the arguments of a parsed text

A line of pairs that the grammar does not read is an error behind `LABEL`.  Behind `ENV` it is
taken for the older form, and its key is all that stands before the first whitespace.

* `kvPairs_paired`: a line that is read is the texts of its pairs, one for each entry.
* `instruction_reads`: which lines say what their arguments are for.
* `arguments_read`: the same of the lines of a text, with lists in exec form.

Poles: `arguments_glued` (a quote inside a word).
-/
import Wk.Dockerfile.Words

namespace Wk.Dockerfile

open Wk.Library Wk.Library.Peg
open Wk.Images (Instr)

set_option autoImplicit false

/-! ## Texts of pairs -/

/-- A value as it stands behind its equals sign. -/
inductive ValueText : String → List Char → Prop
  | double {s : String} {text : List Char} (string : PrintsString s text) : ValueText s text
  | single {s : String} (none_ : '\'' ∉ s.toList) : ValueText s ('\'' :: (s.toList ++ ['\'']))
  | bare {s : String} (dark : ∀ c ∈ s.toList, isWhitespace c = false) : ValueText s s.toList

/-- A pair as it stands on a line. -/
def PairText (entry : String × String) (text : List Char) : Prop :=
  entry.1 ≠ "" ∧ ∃ v, ValueText entry.2 v ∧ text = entry.1.toList ++ '=' :: v

/-- A line of pairs, one for each entry, and whitespace.  Between a quoted value and the next pair
there need not be any: the grammar does not ask for it. -/
inductive Paired : List (String × String) → List Char → Prop
  | nil {w : List Char} (white : ∀ c ∈ w, isWhitespace c) : Paired [] w
  | cons {entry : String × String} {entries : List (String × String)} {w text rest : List Char}
      (white : ∀ c ∈ w, isWhitespace c) (first : PairText entry text) (later : Paired entries rest) :
      Paired (entry :: entries) (w ++ (text ++ rest))

theorem Paired.pad {entries : List (String × String)} {rest : List Char} (paired : Paired entries rest) {w : List Char}
    (white : ∀ c ∈ w, isWhitespace c) : Paired entries (w ++ rest) := by
  cases paired with
  | nil white' => exact .nil fun c at_ => (List.mem_append.1 at_).elim (white c) (white' c)
  | cons white' first later =>
    rw [← List.append_assoc]
    exact .cons (fun c at_ => (List.mem_append.1 at_).elim (white c) (white' c)) first later

/-- No key has an equals sign, and every pair of the line is one entry. -/
def OneEach (entries : List (String × String)) (rest : List Char) : Prop :=
  (∀ entry ∈ entries, '=' ∉ entry.1.toList) ∧ Paired entries rest

/-- The first word of a line has an equals sign. -/
def KeyValue (rest : List Char) : Prop := '=' ∈ rest.takeWhile fun c => !isWhitespace c

/-! ## What is read as pairs -/

theorem value_some {cs rest : List Char} {v : String} (ran : value cs = some (v, rest)) :
    ∃ text, ValueText v text ∧ cs = text ++ rest := by
  obtain ⟨p, at_, read⟩ := choice_some ran
  simp only [List.mem_cons, List.not_mem_nil, or_false] at at_
  rcases at_ with rfl | rfl | rfl
  · obtain ⟨text, string, rfl⟩ := jsonString_iff.1 read
    exact ⟨text, .double string, rfl⟩
  · obtain ⟨rfl, none_⟩ := single_some read
    exact ⟨_, .single none_, by simp⟩
  · obtain ⟨chars, run, rfl⟩ := map_some.1 read
    rw [repeated_filter] at run
    simp only [Option.some.injEq, Prod.mk.injEq] at run
    obtain ⟨rfl, rfl⟩ := run
    refine ⟨_, .bare fun c at_ => ?_, ?_⟩
    · rw [String.toList_ofList] at at_
      simpa using List.mem_takeWhile_imp at_
    · rw [String.toList_ofList, List.takeWhile_append_dropWhile]

section Pairs

variable (lex : Lexicon)

theorem equals_key : isKeyChar lex '=' = false := by
  have ascii : lex.alphanumeric '=' = false := lex.alphanumeric_ascii '=' (by decide)
  simp [isKeyChar, ascii]

theorem pair_some {cs rest : List Char} {entry : String × String} (ran : pair lex cs = some (entry, rest)) :
    '=' ∉ entry.1.toList ∧ ∃ text, PairText entry text ∧ cs = text ++ rest := by
  obtain ⟨stop, named, behind⟩ := andThen_some.1 ran
  obtain ⟨_, mid, readK, equals⟩ := thenIgnore_some.1 named
  obtain ⟨-, rfl⟩ := just_some equals
  obtain ⟨chars, readK, same⟩ := map_some.1 readK
  obtain ⟨readK, many⟩ := atLeast_some.1 readK
  rw [repeated_filter] at readK
  simp only [Option.some.injEq, Prod.mk.injEq] at readK
  obtain ⟨taken, left⟩ := readK
  obtain ⟨text, value_, rfl⟩ := value_some behind
  have key_ : entry.1.toList = chars := by rw [← same, String.toList_ofList]
  refine ⟨fun at_ => ?_, chars ++ '=' :: text, ⟨fun empty => ?_, text, value_, by rw [key_]⟩, ?_⟩
  · rw [key_, ← taken] at at_
    have letter := List.mem_takeWhile_imp at_
    rw [equals_key] at letter
    cases letter
  · rw [empty] at key_
    rw [← key_] at many
    cases many
  · rw [← List.takeWhile_append_dropWhile (p := isKeyChar lex) (l := cs), taken, left]
    simp

theorem consumes_pair : Consumes (pair lex) := fun cs entry rest read => by
  obtain ⟨-, text, ⟨-, v, -, rfl⟩, rfl⟩ := pair_some lex read
  exact ⟨_, by simp, rfl⟩

theorem pairs_paired (cs : List Char) : ∀ entries, repeated (paddedBy (pair lex) (inlineWhitespace lex)) cs = some (entries, []) →
    OneEach entries cs := by
  have reads : Consumes (paddedBy (pair lex) (inlineWhitespace lex)) :=
    (consumes_pair lex).delimitedBy (leaves_inlineWhitespace lex) (leaves_inlineWhitespace lex)
  have white : ∀ cs : List Char, ∀ c ∈ cs.takeWhile lex.inline, isWhitespace c := fun cs c at_ =>
    lex.inline_whitespace c (List.mem_takeWhile_imp at_)
  induction cs using reads.induct with
  | stop cs stops =>
    intro entries read
    rw [repeated_none stops] at read
    cases read
    exact ⟨by simp, .nil (by simp)⟩
  | item cs entry rest readP ih =>
    intro entries read
    rw [repeated_some reads readP, map_some] at read
    obtain ⟨entries, read, rfl⟩ := read
    obtain ⟨free, paired⟩ := ih entries read
    obtain ⟨stop, readQ, rfl⟩ := (paddedBy_some lex).1 readP
    obtain ⟨own, text, first, same⟩ := pair_some lex readQ
    refine ⟨List.forall_mem_cons.2 ⟨own, free⟩, ?_⟩
    have halves : ∀ cs : List Char, cs.takeWhile lex.inline ++ skip lex cs = cs := fun cs =>
      List.takeWhile_append_dropWhile
    have front : cs = cs.takeWhile lex.inline ++ (text ++ (stop.takeWhile lex.inline ++ skip lex stop)) := by
      rw [halves, ← same, halves]
    rw [front]
    exact .cons (white cs) first (paired.pad (white stop))

/-- **Pairs**: a line that is read as pairs is their texts, one for each entry, and no key has an
equals sign. -/
theorem kvPairs_paired {rest : List Char} {entries : List (String × String)}
    (ran : Peg.parse (kvPairs lex) rest = some entries) : OneEach entries rest :=
  pairs_paired lex rest entries (atLeast_some.1 (parse_some.1 ran)).1

/-- The older form of a line whose first word has an equals sign names it in the key. -/
theorem legacy_named {rest k v : List Char} (split : splitOnceWhitespace rest = some (k, v)) (pairs : KeyValue rest) :
    '=' ∈ k := by
  rw [splitOnceWhitespace] at split
  split at split
  · cases split
  · cases split
    exact pairs

end Pairs

/-! ## The arguments of an instruction -/

section Arguments

variable (lex : Lexicon)

/-- What the arguments of a line are for: in shell form, the words of a shell; as pairs, an entry
for each. -/
def Reads (rest : List Char) : Instr → Prop
  | .entrypoint argv | .cmd argv | .run argv =>
    Peg.parse (execArray lex) rest = none → Peg.parse (shellWords lex) rest = some argv
  | .env pairs => KeyValue rest → OneEach pairs rest
  | .label pairs => OneEach pairs rest
  | _ => True

/-- Quotes stand apart in the shell form, and a line that begins as a pair is read as pairs. -/
def Plain (kwRaw rest : List Char) : Prop :=
  let kw := String.ofList (kwRaw.map Char.toUpper)
  (kw ∈ argvKeywords.map (·.1) → Peg.parse (execArray lex) rest = none → apart .space rest) ∧
    (kw = "ENV" → KeyValue rest → (Peg.parse (kvPairs lex) rest).isSome)

/-- An instruction whose arguments are neither words nor pairs. -/
def Other : Instr → Prop
  | .from_ .. | .copy .. | .add .. | .workdir _ | .ignored _ => True
  | _ => False

theorem Other.reads {instr : Instr} (other : Other instr) (rest : List Char) : Reads lex rest instr := by
  cases instr <;> trivial

theorem fromInstr_other {rest : List Char} {instr : Instr} (ran : fromInstr rest = .ok instr) : Other instr := by
  rw [fromInstr] at ran
  split at ran
  · cases ran
  · cases ran
    trivial
  · split at ran
    · cases ran
      trivial
    · cases ran
  · cases ran

theorem copyInstr_other {kw : String} {rest : List Char} {instr : Instr} (ran : copyInstr lex kw rest = .ok instr) :
    Other instr := by
  rw [copyInstr] at ran
  split at ran
  · cases ran
  · rename_i flags w _
    by_cases add : kw = "ADD"
    · subst add
      rcases flag : copyFlags "ADD" flags none with e | _ | stage
      · simp [flag, bind, Except.bind] at ran
      · simp only [flag, bind, Except.bind, pure, Except.pure] at ran
        cases ran
        trivial
      · simp [flag, bind, Except.bind, throw, throwThe, MonadExceptOf.throw] at ran
    · cases flag : copyFlags kw flags none with
      | error e => simp [flag, bind, Except.bind] at ran
      | ok from_ =>
        simp only [flag, add, bind, Except.bind, pure, Except.pure, if_false] at ran
        cases ran
        trivial

theorem argv_words {kw : String} {rest : List Char} {words_ : List String} (ran : argv lex kw rest = .ok words_)
    (shell : Peg.parse (execArray lex) rest = none) : Peg.parse (words lex) rest = some words_ := by
  rw [argv, shell] at ran
  simp only at ran
  split at ran
  · rename_i read
    cases ran
    exact read
  · cases ran

/-- An instruction in shell form is read as a shell reads it exactly where its quotes stand apart. -/
theorem shell_reads {kw : String} {rest : List Char} {make : List String → Instr} {instr : Instr}
    (form : ∀ words_, Reads lex rest (make words_) ↔
      (Peg.parse (execArray lex) rest = none → Peg.parse (shellWords lex) rest = some words_))
    (ran : make <$> argv lex kw rest = .ok instr) :
    Reads lex rest instr ↔ (Peg.parse (execArray lex) rest = none → apart .space rest) := by
  cases read : argv lex kw rest with
  | error e =>
    rw [read] at ran
    cases ran
  | ok words_ =>
    rw [read] at ran
    cases ran
    rw [form]
    exact forall_congr' fun shell => words_apart lex (argv_words lex read shell)

theorem env_reads {rest : List Char} {instr : Instr} (ran : envInstr lex rest = .ok instr) :
    Reads lex rest instr ↔ (KeyValue rest → (Peg.parse (kvPairs lex) rest).isSome) := by
  rw [envInstr] at ran
  split at ran
  · rename_i pairs read
    cases ran
    exact iff_of_true (fun _ => kvPairs_paired lex read) fun _ => by rw [read]; rfl
  · rename_i no
    split at ran
    · rename_i k v split
      cases ran
      refine forall_congr' fun pairs => iff_of_false (fun each => ?_) (by rw [no]; exact Bool.false_ne_true)
      refine each.1 _ List.mem_cons_self ?_
      rw [String.toList_ofList]
      exact legacy_named split pairs
    · cases ran

/-- **One line**: its arguments are what they are for exactly where quotes stand apart in its shell
form, and it is read as pairs if it begins as one. -/
theorem instruction_reads {kwRaw rest : List Char} {instr : Instr} (ran : instruction lex kwRaw rest = .ok instr) :
    Reads lex rest instr ↔ Plain lex kwRaw rest := by
  rw [instruction] at ran
  rw [Plain]
  generalize String.ofList (kwRaw.map Char.toUpper) = kw at ran
  simp only [argvKeywords, List.map_cons, List.map_nil, List.mem_cons, List.not_mem_nil, or_false] at ran ⊢
  split at ran
  · rename_i same
    exact iff_of_true ((fromInstr_other ran).reads lex rest) (by simp [same])
  split at ran
  · rename_i same
    refine iff_of_true ((copyInstr_other lex ran).reads lex rest) ?_
    rcases same with rfl | rfl <;> simp
  split at ran
  · rename_i same
    simpa [same] using shell_reads lex (fun _ => Iff.rfl) ran
  split at ran
  · rename_i same
    simpa [same] using shell_reads lex (fun _ => Iff.rfl) ran
  split at ran
  · rename_i same
    simpa [same] using env_reads lex ran
  split at ran
  · rename_i same
    cases ran
    exact iff_of_true trivial (by simp [same])
  split at ran
  · rename_i same
    rw [labelInstr] at ran
    split at ran
    · rename_i pairs read
      cases ran
      exact iff_of_true (kvPairs_paired lex read) (by simp [same])
    · cases ran
  split at ran
  · rename_i same
    simpa [same] using shell_reads lex (fun _ => Iff.rfl) ran
  split at ran
  · cases ran
    refine iff_of_true trivial ?_
    simp_all
  · cases ran

/-- A line in exec form is its list. -/
theorem instruction_exec {kwRaw rest : List Char} {instr : Instr} (ran : instruction lex kwRaw rest = .ok instr)
    {kw : String} {make : List String → Instr} (at_ : (kw, make) ∈ argvKeywords)
    (spelled : kwRaw.map Char.toUpper = kw.toList) {ss : List String} (prints : PrintsArray lex ss rest) :
    instr = make ss := by
  rw [instruction_argv lex at_ spelled, argv, execArray_prints lex prints] at ran
  cases ran
  rfl

theorem told_forall {ks : List (List Char × List Char)} {seenFrom : Bool} {is : List Instr}
    (said : told lex seenFrom ks = some is) : List.Forall₂ (fun k instr => instruction lex k.1 k.2 = .ok instr) ks is := by
  induction ks generalizing seenFrom is with
  | nil =>
    cases said
    exact .nil
  | cons k ks ih =>
    rw [told] at said
    split at said
    · rename_i instr ran
      split at said
      · obtain ⟨later, rest, rfl⟩ := Option.map_eq_some_iff.1 said
        exact .cons ran (ih rest)
      · cases said
    · cases said

/-- **Arguments**: behind any text that does not go on, a list in exec form is read as that list,
and so it is on every line of a text that is read; and the lines of a text are read for what they
are for exactly where their quotes stand apart and no line that begins as a pair is taken for the
older form. -/
theorem arguments_read (lex : Lexicon) :
    (∀ (front : List Char) (d : Dockerfile), parse lex (String.ofList (front ++ ['\n'])) = .ok d → d.instructions ≠ [] →
      goesOn false (lines (String.ofList (front ++ ['\n']))) = false →
      ∀ kw make, (kw, make) ∈ argvKeywords → ∀ kwRaw, kwRaw.map Char.toUpper = kw.toList →
        ∀ ss cs, PrintsArray lex ss cs → '\n' ∉ cs →
          parse lex (String.ofList (front ++ '\n' :: (kwRaw ++ ' ' :: cs))) = .ok ⟨d.instructions ++ [make ss]⟩) ∧
    ∀ (source : String) (d : Dockerfile), parse lex source = .ok d →
      List.Forall₂ (fun line instr =>
        (∀ kw make, (kw, make) ∈ argvKeywords → (keywordRest line.2).1.map Char.toUpper = kw.toList →
          ∀ ss, PrintsArray lex ss (keywordRest line.2).2 → instr = make ss) ∧
        (Reads lex (keywordRest line.2).2 instr ↔ Plain lex (keywordRest line.2).1 (keywordRest line.2).2))
        (logicalLines source) d.instructions := by
  refine ⟨fun front d parsed from_ closed kw make at_ kwRaw spelled ss cs prints one =>
    parse_exec lex parsed from_ closed at_ spelled prints one, fun source d parsed => ?_⟩
  have told_ := (parse_ok lex).1 parsed
  rw [← logicalLines_joined, List.map_map] at told_
  refine (List.forall₂_map_left_iff.1 (told_forall lex told_)).imp fun _ _ ran =>
    ⟨fun _ _ at_ spelled _ prints => instruction_exec lex ran at_ spelled prints, instruction_reads lex ran⟩

end Arguments

/-- Quoted words that stand apart, and a list in exec form behind them. -/
theorem arguments_read_note :
    Reads .ascii "b \"c d\"".toList (.cmd ["b", "c d"]) ∧
      parse .ascii "FROM a\nCMD b \"c d\"\nrun [\"e\\\"f\"]" =
        .ok ⟨[.from_ "a" none, .cmd ["b", "c d"], .run ["e\"f"]]⟩ := by
  constructor
  · have lines_ := (arguments_read .ascii).2 "FROM a\nCMD b \"c d\"" ⟨[.from_ "a" none, .cmd ["b", "c d"]]⟩ rfl
    have second : logicalLines "FROM a\nCMD b \"c d\"" = [(1, "FROM a".toList), (2, "CMD b \"c d\"".toList)] := rfl
    rw [second] at lines_
    cases lines_ with
    | cons _ later =>
      cases later with
      | cons cmd _ => exact cmd.2.2 ⟨fun _ _ => rfl, fun no => nomatch no⟩
  · exact (arguments_read .ascii).1 "FROM a\nCMD b \"c d\"".toList ⟨[.from_ "a" none, .cmd ["b", "c d"]]⟩ rfl
      (List.cons_ne_nil _ _) rfl "RUN" .run (by simp [argvKeywords]) "run".toList rfl ["e\"f"] "[\"e\\\"f\"]".toList
      ⟨"\"e\\\"f\"".toList, .inr (.one ⟨[], _, [], by simp, ⟨"e\\\"f".toList,
        .cons (.plain (by decide)) (.cons (.escaped (by decide)) (.cons (.plain (by decide)) .nil)), rfl⟩, by simp, rfl⟩), rfl⟩
      (by decide)

section Poles

/-- A quote inside a word: the words are three, and a shell has two. -/
theorem arguments_glued :
    ¬∀ (source : String) (d : Dockerfile), parse .ascii source = .ok d →
      List.Forall₂ (fun line instr => Reads .ascii (keywordRest line.2).2 instr) (logicalLines source) d.instructions := by
  intro all
  have lines_ := all "FROM a\nCMD b --c=\"d e\"" ⟨[.from_ "a" none, .cmd ["b", "--c=", "d e"]]⟩ rfl
  have second : logicalLines "FROM a\nCMD b --c=\"d e\"" =
      [(1, "FROM a".toList), (2, "CMD b --c=\"d e\"".toList)] := rfl
  rw [second] at lines_
  cases lines_ with
  | cons _ later =>
    cases later with
    | cons cmd _ =>
      have shell : Peg.parse (shellWords .ascii) "b --c=\"d e\"".toList = some ["b", "--c=d e"] := rfl
      have same := cmd rfl
      rw [show (keywordRest "CMD b --c=\"d e\"".toList).2 = "b --c=\"d e\"".toList from rfl, shell] at same
      exact absurd same (by decide)

end Poles

end Wk.Dockerfile
