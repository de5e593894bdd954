/-
# Wk.Dockerfile -- the Dockerfile parser

A text is split into logical lines, and the arguments of every line are read by one of four
grammars of ordered choice and repetition.  What the parser library takes for inline whitespace
and how it words an error are not in the repository, nor are Unicode's letters and digits: they
are a `Lexicon`.

* `logicalLines`: physical lines, joined after a backslash.
* `execArray`, `words`, `kvPairs`, `copyArgs`: the grammars of arguments.
* `instruction`, `parse`: what a line says, and a whole text.
* `Dockerfile.stages`: a `FROM` and what is up to the next.
-/
import Wk.Images.Stages
import Wk.Library.Peg

namespace Wk

open Wk.Library Wk.Library.Peg
open Wk.Images (Instr Stage)

set_option autoImplicit false

/-- A parsed Dockerfile. -/
structure Dockerfile where
  instructions : List Instr
  deriving DecidableEq

namespace Dockerfile

/-! ## Text -/

def trimStart (cs : List Char) : List Char := cs.dropWhile isWhitespace

def trimEnd (cs : List Char) : List Char := (cs.reverse.dropWhile isWhitespace).reverse

/-- `str::trim`. -/
def trimmed (cs : List Char) : List Char := trimEnd (trimStart cs)

/-- `strip_suffix` of one character. -/
def stripSuffix (c : Char) (cs : List Char) : Option (List Char) :=
  if cs.getLast? = some c then some cs.dropLast else none

/-- `split_once` at whitespace. -/
def splitOnceWhitespace (cs : List Char) : Option (List Char × List Char) :=
  match cs.dropWhile fun c => !isWhitespace c with
  | [] => none
  | _ :: after => some (cs.takeWhile fun c => !isWhitespace c, after)

/-- The lines of a text; `line` is the one being read, reversed. -/
def linesFrom : List Char → List Char → List (List Char)
  | [], line => if line = [] then [] else [line.reverse]
  | c :: rest, line =>
    if c = '\n' then (if line.head? = some '\r' then line.tail else line).reverse :: linesFrom rest []
    else linesFrom rest (c :: line)

/-- `str::lines`: the end of a line is no part of it. -/
def lines (source : String) : List (List Char) := linesFrom source.toList []

/-! ## Logical lines -/

/-- The logical lines so far, and one that goes on, each with the number of its first line. -/
structure Joining where
  out : List (Nat × List Char)
  pending : Option (Nat × List Char)

namespace Joining

/-- A line that is whole is kept unless it is blank. -/
def close (out : List (Nat × List Char)) (whole : Nat × List Char) : Joining :=
  { out := if trimmed whole.2 ≠ [] then out ++ [whole] else out, pending := none }

/-- One turn of the loop, over the line of an index. -/
def next (j : Joining) (i : Nat) (raw : List Char) : Joining :=
  let line := trimEnd raw
  let comment := (trimStart line).head? = some '#'
  if j.pending = none ∧ (trimmed line = [] ∨ comment) then j
  -- a comment line is skipped even mid-continuation
  else if comment then j
  else
    let (text, continues) :=
      match stripSuffix '\\' line with
      | some head => (head, true)
      | none => (line, false)
    let pending :=
      match j.pending with
      | some (n, acc) => (n, acc ++ ' ' :: trimmed text)
      | none => (i + 1, trimmed text)
    if continues then { j with pending := some pending } else close j.out pending

def finish (j : Joining) : List (Nat × List Char) :=
  match j.pending with
  | some whole => (close j.out whole).out
  | none => j.out

end Joining

/-- Physical lines joined after a trailing backslash, without comment lines. -/
def logicalLines (source : String) : List (Nat × List Char) :=
  ((lines source).zipIdx.foldl (fun (j : Joining) line => j.next line.2 line.1) ⟨[], none⟩).finish

/-! ## Grammars of arguments -/

/-- The grammars that may fail for good. -/
inductive ArgGrammar
  | copyArgs | words | kvPairs
  deriving DecidableEq

/-- What the repository takes from outside. -/
structure Lexicon where
  /-- What `text::inline_whitespace` reads. -/
  inline : Char → Bool
  inline_whitespace : ∀ c, inline c → isWhitespace c
  /-- `char::is_alphanumeric`. -/
  alphanumeric : Char → Bool
  alphanumeric_ascii : ∀ c, c.toNat < 128 → alphanumeric c = c.isAlphanum
  /-- The first error of a grammar on a text. -/
  report : ArgGrammar → List Char → Option String

/-- Space and tab, ASCII letters and digits, and no word about errors. -/
def Lexicon.ascii : Lexicon where
  inline c := c = ' ' || c = '\t'
  inline_whitespace c at_ := by
    obtain rfl | rfl : c = ' ' ∨ c = '\t' := by simpa using at_
    · rfl
    · rfl
  alphanumeric := Char.isAlphanum
  alphanumeric_ascii _ _ := rfl
  report _ _ := none

section Grammars

variable (lex : Lexicon)

def inlineWhitespace : Parser Char (List Char) := repeated (filter lex.inline)

/-- A backslash and one of the six letters it may stand before. -/
def escape : Parser Char Char :=
  ignoreThen (just '\\') (choice [just '"', just '\\', just '/', map (fun _ => '\n') (just 'n'),
    map (fun _ => '\t') (just 't'), map (fun _ => '\r') (just 'r')])

def normal : Parser Char Char := filter fun c => c ≠ '"' && c ≠ '\\'

/-- A JSON-style double-quoted string with the usual escapes. -/
def jsonString : Parser Char String :=
  delimitedBy (map String.ofList (repeated (choice [escape, normal]))) (just '"') (just '"')

/-- The exec form: `["arg", "arg", ...]`. -/
def execArray : Parser Char (List String) :=
  paddedBy (delimitedBy (separatedBy (paddedBy jsonString (inlineWhitespace lex)) (just ',')) (just '[') (just ']'))
    (inlineWhitespace lex)

def single : Parser Char String :=
  delimitedBy (map String.ofList (repeated (filter fun c => c ≠ '\''))) (just '\'') (just '\'')

/-- A run of what is neither whitespace nor a quote. -/
def bare : Parser Char String :=
  map String.ofList (atLeast 1 (filter fun c => !isWhitespace c && c ≠ '"' && c ≠ '\''))

/-- One shell-form word. -/
def word : Parser Char String := choice [jsonString, single, bare]

/-- Shell-form words (at least one). -/
def words : Parser Char (List String) := atLeast 1 (paddedBy word (inlineWhitespace lex))

def isKeyChar (c : Char) : Bool := lex.alphanumeric c || c = '_' || c = '.' || c = '-'

def key : Parser Char String := map String.ofList (atLeast 1 (filter (isKeyChar lex)))

/-- The value of a pair: quoted, or a run of non-whitespace, which may be empty. -/
def value : Parser Char String :=
  choice [jsonString, single, map String.ofList (repeated (filter fun c => !isWhitespace c))]

def pair : Parser Char (String × String) := andThen (thenIgnore (key lex) (just '=')) value

/-- `KEY=value` pairs, as used by ENV and LABEL. -/
def kvPairs : Parser Char (List (String × String)) := atLeast 1 (paddedBy (pair lex) (inlineWhitespace lex))

def flag : Parser Char (String × Option String) :=
  andThen (ignoreThen (justAll ['-', '-'])
      (map String.ofList (atLeast 1 (filter fun c => !isWhitespace c && c ≠ '='))))
    (orNot (ignoreThen (just '=') word))

/-- COPY/ADD arguments: `--flag[=v]`* then source... dest. -/
def copyArgs : Parser Char (List (String × Option String) × List String) :=
  andThen (repeated (paddedBy flag (inlineWhitespace lex))) (atLeast 2 (paddedBy word (inlineWhitespace lex)))

/-- Render a grammar's error against its instruction. -/
def argErr (kw : String) (grammar : ArgGrammar) (rest : List Char) : String :=
  s!"{kw}: " ++ (lex.report grammar rest).getD "invalid arguments"

end Grammars

/-! ## Instructions -/

/-- `eq_ignore_ascii_case`. -/
def eqIgnoreAsciiCase (a b : String) : Bool := a.toList.map Char.toUpper = b.toList.map Char.toUpper

def fromInstr (rest : List Char) : Except String Instr :=
  match splitWhitespace (String.ofList rest) with
  | [] => .error "FROM needs an image"
  | [image] => .ok (.from_ image none)
  | [image, kw, name] =>
    if eqIgnoreAsciiCase kw "AS" then .ok (.from_ image (some name))
    else .error "FROM takes an image and an optional `AS <name>`"
  | _ => .error "FROM takes an image and an optional `AS <name>`"

/-- The stage that the flags of a copy name last. -/
def copyFlags (kw : String) : List (String × Option String) → Option String → Except String (Option String)
  | [], from_ => .ok from_
  | (name, value) :: flags, from_ =>
    if name = "chown" ∨ name = "chmod" ∨ name = "link" then copyFlags kw flags from_
    else if name = "from" then
      match value.filter fun v => v ≠ "" with
      | some v => copyFlags kw flags (some v)
      | none => .error s!"{kw} --from needs a stage name or index"
    else .error s!"{kw} --{name} is not supported"

section Instructions

variable (lex : Lexicon)

def copyInstr (kw : String) (rest : List Char) : Except String Instr :=
  match Peg.parse (copyArgs lex) rest with
  | none => .error (argErr lex kw .copyArgs rest)
  | some (flags, w) => do
    let from_ ← copyFlags kw flags none
    -- `copyArgs_two`: there is a last one
    let dest := w.getLast?.getD ""
    if kw = "ADD" then
      if from_.isSome then throw "ADD --from is not supported (use COPY)"
      return .add w.dropLast dest
    else
      return .copy w.dropLast dest from_

/-- The exec form if it is one, and else the shell form. -/
def argv (kw : String) (rest : List Char) : Except String (List String) :=
  match Peg.parse (execArray lex) rest with
  | some argv => .ok argv
  | none =>
    match Peg.parse (words lex) rest with
    | some argv => .ok argv
    | none => .error (argErr lex kw .words rest)

def envInstr (rest : List Char) : Except String Instr :=
  match Peg.parse (kvPairs lex) rest with
  | some pairs => .ok (.env pairs)
  | none =>
    -- legacy `ENV KEY value with spaces`
    match splitOnceWhitespace rest with
    | some (k, v) => .ok (.env [(String.ofList k, String.ofList (trimmed v))])
    | none => .error "ENV needs a key and a value"

def labelInstr (kw : String) (rest : List Char) : Except String Instr :=
  match Peg.parse (kvPairs lex) rest with
  | some pairs => .ok (.label pairs)
  | none => .error (argErr lex kw .kvPairs rest)

/-- The keyword of a logical line as it is written, and the rest. -/
def keywordRest (line : List Char) : List Char × List Char :=
  match splitOnceWhitespace line with
  | some (k, r) => (k, trimmed r)
  | none => (line, [])

/-- What is parsed and not honored. -/
def ignoredKeywords : List String :=
  ["EXPOSE", "USER", "VOLUME", "STOPSIGNAL", "HEALTHCHECK", "SHELL", "MAINTAINER", "ONBUILD", "ARG"]

/-- What a keyword and the rest of its line say. -/
def instruction (kwRaw rest : List Char) : Except String Instr :=
  let kw := String.ofList (kwRaw.map Char.toUpper)
  if kw = "FROM" then fromInstr rest
  else if kw = "COPY" ∨ kw = "ADD" then copyInstr lex kw rest
  else if kw = "ENTRYPOINT" then Instr.entrypoint <$> argv lex kw rest
  else if kw = "CMD" then Instr.cmd <$> argv lex kw rest
  else if kw = "ENV" then envInstr lex rest
  else if kw = "WORKDIR" then .ok (.workdir (String.ofList rest))
  else if kw = "LABEL" then labelInstr lex kw rest
  else if kw = "RUN" then Instr.run <$> argv lex kw rest
  else if kw ∈ ignoredKeywords then .ok (.ignored kw)
  else .error s!"unknown instruction {kw}"

/-- An error with the number of its line. -/
def atLine {α : Type} (n : Nat) : Except String α → Except String α
  | .ok a => .ok a
  | .error e => .error (s!"Dockerfile line {n}: " ++ e)

/-- The instructions of logical lines; everything belongs to a stage. -/
def parseLines : Bool → List (Nat × List Char) → Except String (List Instr)
  | _, [] => .ok []
  | seenFrom, (n, line) :: rest => do
    let (kwRaw, args) := keywordRest line
    let instr ← atLine n (instruction lex kwRaw args)
    let seenFrom := seenFrom || instr.isFrom
    if !seenFrom then
      throw (s!"Dockerfile line {n}: " ++ String.ofList kwRaw ++ " before the first FROM")
    return instr :: (← parseLines seenFrom rest)

/-- Parse Dockerfile source.  Errors carry the number of their line. -/
def parse (source : String) : Except String Dockerfile :=
  (parseLines lex false (logicalLines source)).map Dockerfile.mk

end Instructions

/-! ## Stages -/

/-- The indices at which stages start. -/
def starts (instructions : List Instr) : List Nat :=
  (instructions.zipIdx.filter fun entry => entry.1.isFrom).map (·.2)

/-- The stage between two indices; `none` where no `FROM` starts it. -/
def stageAt (instructions : List Instr) (start : Nat) (next : Option Nat) : Option Stage :=
  let stop := next.getD instructions.length
  match instructions[start]? with
  | some (.from_ image alias_) => some ⟨image, alias_, (instructions.drop (start + 1)).take (stop - (start + 1))⟩
  | _ => none

/-- The stages, in order; `none` is a panic. -/
def stages (d : Dockerfile) : Option (List Stage) :=
  (starts d.instructions).zipIdx.mapM fun entry =>
    stageAt d.instructions entry.1 (starts d.instructions)[entry.2 + 1]?

end Dockerfile

end Wk
