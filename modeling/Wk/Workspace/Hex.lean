/-
# Wk.Workspace.Hex -- the hex codec of tokens, by byte offsets

`hex_bytes` slices its text by byte offsets and gives every slice to the number parser.  A slice
that ends inside a character panics, and the number parser takes a plus sign before a digit.

* `hexBytes_bytesHex`: what was encoded is decoded again.
* `hexBytes_reads`: the decoder does what it is for exactly where no slice ends inside a character
  after pairs it takes, and it takes no pair with a plus sign.
* `hexBytes_eq`, `secretBytes_eq`: the decoders of the document model are these, a panic as `none`.

Poles: `hexBytes_wide` (a panic), `hexBytes_signed` (a byte from `+a`).
-/
import Wk.Library.Slices
import Wk.Workspace

namespace Wk.Hex

open Wk.Library

set_option autoImplicit false

/-! ## The decoder -/

/-- The value of a run of digits, if a byte can hold it. -/
def value (digits : List Char) : Option UInt8 :=
  (digits.foldlM (fun n c => (hexValue c).bind fun d =>
    if 16 * n + d < 256 then some (16 * n + d) else none) 0).map UInt8.ofNat

/-- `u8::from_str_radix(_, 16)`: digits, after a plus sign or none. -/
def fromStrRadix16 : List Char → Option UInt8
  | [] | ['+'] | ['-'] => none
  | '+' :: digits => value digits
  | digits => value digits

/-- The bytes of the slices at some offsets, up to the first that is no byte; the outer `none` is
a panic. -/
def collect (s : List Char) : List Nat → Option (Option Bytes)
  | [] => some (some [])
  | i :: offsets => do
    match fromStrRadix16 (← textSlice s i (i + 2)) with
    | some b => return (← collect s offsets).map (b :: ·)
    | none => return none

/-- Decode hex back to bytes, if well-formed; the outer `none` is a panic. -/
def hexBytes (s : String) : Option (Option Bytes) :=
  if s.utf8ByteSize % 2 ≠ 0 then some none
  else collect s.toList (List.range' 0 (s.utf8ByteSize / 2) 2)

/-- Decode a persisted uplink secret: a slice that ends inside a character is no byte. -/
def secretBytes (s : String) : Option Bytes :=
  if s.utf8ByteSize ≠ 64 then none
  else (List.range 32).mapM fun i => (textSlice s.toList (2 * i) (2 * i + 2)).bind fromStrRadix16

/-! ## Digits -/

def isHexDigit (c : Char) : Bool := (hexValue c).isSome

theorem hexValue_lt {c : Char} {d : Nat} (read : hexValue c = some d) : d < 16 := by
  simp only [hexValue, Char.le_def, UInt32.le_iff_toNat_le] at read
  split at read
  · rename_i bounds
    cases read
    have top : c.toNat ≤ '9'.toNat := bounds.2
    have : '9'.toNat = 57 ∧ '0'.toNat = 48 := by decide
    omega
  · split at read
    · rename_i bounds
      cases read
      have top : c.toNat ≤ 'f'.toNat := bounds.2
      have : 'f'.toNat = 102 ∧ 'a'.toNat = 97 := by decide
      omega
    · split at read
      · rename_i bounds
        cases read
        have top : c.toNat ≤ 'F'.toNat := bounds.2
        have : 'F'.toNat = 70 ∧ 'A'.toNat = 65 := by decide
        omega
      · cases read

/-- A digit is one byte. -/
theorem hexValue_narrow {c : Char} {d : Nat} (read : hexValue c = some d) : c.utf8Size = 1 := by
  rw [Char.utf8Size_eq_one_iff, UInt32.le_iff_toNat_le]
  simp only [hexValue, Char.le_def, UInt32.le_iff_toNat_le] at read
  have tops : '9'.val.toNat = 57 ∧ 'f'.val.toNat = 102 ∧ 'F'.val.toNat = 70 := by decide
  show c.val.toNat ≤ 127
  split at read
  · omega
  · split at read
    · omega
    · split at read
      · omega
      · cases read

theorem hexValue_wide {c : Char} (wide : c.utf8Size ≠ 1) : hexValue c = none := by
  cases read : hexValue c with
  | none => rfl
  | some d => exact absurd (hexValue_narrow read) wide

/-- A pair of characters is read as the document model reads it. -/
theorem fromStrRadix16_pair (hi lo : Char) : fromStrRadix16 [hi, lo] = hexByte hi lo := by
  by_cases plus : hi = '+'
  · subst plus
    show value [lo] = hexByte '+' lo
    cases read : hexValue lo with
    | none => simp [value, hexByte, read]
    | some l =>
      have small := hexValue_lt read
      simp [value, hexByte, read, show l < 256 by omega]
  · have whole : fromStrRadix16 [hi, lo] = value [hi, lo] := by
      unfold fromStrRadix16
      split <;> simp_all
    rw [whole, hexByte, if_neg plus]
    cases readHi : hexValue hi with
    | none => simp [value, readHi]
    | some h =>
      have smallHi := hexValue_lt readHi
      cases readLo : hexValue lo with
      | none => simp [value, readHi, readLo, show h < 256 by omega]
      | some l =>
        have smallLo := hexValue_lt readLo
        simp [value, readHi, readLo, show h < 256 by omega, show 16 * h + l < 256 by omega]

/-- No number is one character of two bytes. -/
theorem fromStrRadix16_wide {c : Char} (wide : c.utf8Size = 2) : fromStrRadix16 [c] = none := by
  have no : hexValue c = none := hexValue_wide (by omega)
  unfold fromStrRadix16
  split <;> simp_all [value]

theorem hexByte_narrow {hi lo : Char} {b : UInt8} (read : hexByte hi lo = some b) :
    hi.utf8Size = 1 ∧ lo.utf8Size = 1 := by
  simp only [hexByte] at read
  split at read
  · rename_i plus
    obtain ⟨l, readLo, -⟩ := Option.map_eq_some_iff.1 read
    exact ⟨by rw [plus]; decide, hexValue_narrow readLo⟩
  · obtain ⟨h, readHi, read⟩ := Option.bind_eq_some_iff.1 read
    obtain ⟨l, readLo, -⟩ := Option.map_eq_some_iff.1 read
    exact ⟨hexValue_narrow readHi, hexValue_narrow readLo⟩

theorem hexByte_isSome (hi lo : Char) :
    (hexByte hi lo).isSome = ((hi = '+' || isHexDigit hi) && isHexDigit lo) := by
  by_cases plus : hi = '+'
  · simp [hexByte, plus, isHexDigit]
  · cases readHi : hexValue hi <;> simp [hexByte, plus, isHexDigit, readHi]

/-! ## The pairs of a text -/

/-- What the decoder does with a text of an even number of bytes, a pair of bytes at a time. -/
def walk : List Char → Option (Option Bytes)
  | [] => some (some [])
  | [c] => if c.utf8Size = 2 then some none else none
  | c :: d :: rest =>
    if c.utf8Size = 2 then some none
    else if c.utf8Size = 1 ∧ d.utf8Size = 1 then
      match hexByte c d with
      | some b => (walk rest).map fun read => read.map (b :: ·)
      | none => some none
    else none

/-- The first slice of a text, by its first character. -/
theorem cut_two (c : Char) (rest : List Char) :
    (c.utf8Size = 2 ∧ cut (c :: rest) 2 = some ([c], rest)) ∨
    (∃ d tail, rest = d :: tail ∧ c.utf8Size = 1 ∧ d.utf8Size = 1 ∧ cut (c :: rest) 2 = some ([c, d], tail)) ∨
    (cut (c :: rest) 2 = none ∧ c.utf8Size ≠ 2 ∧ ∀ d tail, rest = d :: tail → ¬(c.utf8Size = 1 ∧ d.utf8Size = 1)) := by
  have pos := c.utf8Size_pos
  by_cases two : c.utf8Size = 2
  · refine .inl ⟨two, cut_some.2 ⟨rfl, ?_⟩⟩
    simp [two]
  by_cases one : c.utf8Size = 1
  · cases rest with
    | nil =>
      refine .inr (.inr ⟨?_, two, fun d tail same => nomatch same⟩)
      rw [cut_cons (by omega), one]
      rfl
    | cons d tail =>
      have posD := d.utf8Size_pos
      by_cases oneD : d.utf8Size = 1
      · refine .inr (.inl ⟨d, tail, rfl, one, oneD, cut_some.2 ⟨rfl, ?_⟩⟩)
        simp [one, oneD]
      · refine .inr (.inr ⟨?_, two, ?_⟩)
        · rw [cut_cons (by omega), one, cut_inside (by omega) (by omega)]
          rfl
        · rintro _ _ ⟨⟩ ⟨-, narrow⟩
          exact oneD narrow
  · exact .inr (.inr ⟨cut_inside (by omega) (by omega), two, fun _ _ _ both => one both.1⟩)

/-- The slices behind what was already decoded are the pairs of the rest. -/
theorem collect_walk (n : Nat) (done rest : List Char) (size : byteLen rest = 2 * n) :
    collect (done ++ rest) (List.range' (byteLen done) n 2) = walk rest := by
  induction n generalizing done rest with
  | zero =>
    cases rest with
    | nil => rfl
    | cons c rest =>
      have pos := c.utf8Size_pos
      rw [byteLen_cons] at size
      omega
  | succ n ih =>
    cases rest with
    | nil => simp at size
    | cons c rest =>
      rw [List.range'_succ, collect, textSlice_append]
      rcases cut_two c rest with ⟨two, at_⟩ | ⟨d, tail, rfl, one, oneD, at_⟩ | ⟨at_, two, one⟩
      · have walked : walk (c :: rest) = some none := by
          cases rest <;> simp [walk, two]
        rw [at_, walked]
        simp [fromStrRadix16_wide two]
      · have size : byteLen tail = 2 * n := by
          rw [byteLen_cons, byteLen_cons, one, oneD] at size
          omega
        have next : byteLen done + 2 = byteLen (done ++ [c, d]) := by simp [one, oneD]
        have same : done ++ c :: d :: tail = done ++ [c, d] ++ tail := by simp
        rw [at_, next, same, ih _ _ size]
        simp only [walk, Option.map_some, Option.bind_eq_bind, Option.bind_some, fromStrRadix16_pair,
          one, oneD, and_self, if_true, show ¬(1 = 2) by decide, if_false]
        cases hexByte c d <;> cases walk tail <;> rfl
      · have walked : walk (c :: rest) = none := by
          cases rest with
          | nil => simp [walk, two]
          | cons d tail => simp [walk, two, one d tail rfl]
        rw [at_, walked]
        rfl

theorem hexBytes_walk {s : String} (even : s.utf8ByteSize % 2 = 0) : hexBytes s = walk s.toList := by
  rw [hexBytes, if_neg (by omega)]
  exact collect_walk (s.utf8ByteSize / 2) [] s.toList (by rw [byteLen_toList]; omega)

/-! ## Round trip -/

theorem hexByte_hexDigit (b : UInt8) : hexByte (hexDigit (b.toNat / 16)) (hexDigit (b.toNat % 16)) = some b := by
  have all : ∀ n < 256, hexByte (hexDigit (n / 16)) (hexDigit (n % 16)) = some (UInt8.ofNat n) := by decide +kernel
  simpa using all b.toNat b.toNat_lt

theorem walk_digits (bytes : Bytes) :
    walk (bytes.flatMap fun b => [hexDigit (b.toNat / 16), hexDigit (b.toNat % 16)]) = some (some bytes) := by
  induction bytes with
  | nil => rfl
  | cons b bytes ih =>
    obtain ⟨hi, lo⟩ := hexByte_narrow (hexByte_hexDigit b)
    simp [walk, hi, lo, hexByte_hexDigit, ih]

theorem byteLen_digits (bytes : Bytes) :
    byteLen (bytes.flatMap fun b => [hexDigit (b.toNat / 16), hexDigit (b.toNat % 16)]) = 2 * bytes.length := by
  induction bytes with
  | nil => rfl
  | cons b bytes ih =>
    obtain ⟨hi, lo⟩ := hexByte_narrow (hexByte_hexDigit b)
    simp only [List.flatMap_cons, byteLen_append, ih, List.length_cons, byteLen_cons, byteLen_nil, hi, lo]
    omega

/-- **Round trip of tokens**: what was encoded is decoded again. -/
theorem hexBytes_bytesHex (bytes : Bytes) : hexBytes (bytesHex bytes) = some (some bytes) := by
  rw [hexBytes_walk (by rw [bytesHex, byteLen_ofList, byteLen_digits]; omega), bytesHex, String.toList_ofList,
    walk_digits]

/-! ## What is taken -/

/-- Pairs that the number parser takes: two digits, or a plus sign and a digit. -/
def taken : List Char → Bool
  | [] => true
  | [_] => false
  | hi :: lo :: rest => (hi = '+' || isHexDigit hi) && isHexDigit lo && taken rest

/-- After pairs that are taken a slice ends inside a character. -/
def Straddles (s : List Char) : Prop :=
  ∃ front rest, s = front ++ rest ∧ taken front ∧ rest ≠ [] ∧ cut rest 2 = none

/-- All pairs are taken, and one has a plus sign. -/
def Signed (s : List Char) : Prop := taken s ∧ '+' ∈ s

theorem taken_cons {hi lo : Char} {rest : List Char} :
    taken (hi :: lo :: rest) ↔ (hexByte hi lo).isSome ∧ taken rest := by
  simp [taken, hexByte_isSome]

theorem walk_isSome_some (s : List Char) : (∃ bytes, walk s = some (some bytes)) ↔ taken s := by
  fun_induction walk s with
  | case1 => simp [taken]
  | case2 c two => simp [taken]
  | case3 c two => simp [taken]
  | case4 c d rest two =>
    have no : hexByte c d = none := by
      cases read : hexByte c d with
      | none => rfl
      | some b => exact absurd (hexByte_narrow read).1 (by omega)
    simp [taken_cons, no]
  | case5 c d rest two narrow b read ih =>
    rw [taken_cons, read, ← ih]
    cases walk rest with
    | none => simp
    | some r => cases r <;> simp
  | case6 c d rest two narrow read => simp [taken_cons, read]
  | case7 c d rest two wide =>
    have no : hexByte c d = none := by
      cases read : hexByte c d with
      | none => rfl
      | some b => exact absurd (hexByte_narrow read) wide
    simp [taken_cons, no]

theorem straddles_taken {hi lo : Char} {rest : List Char} {b : UInt8} (read : hexByte hi lo = some b) :
    Straddles (hi :: lo :: rest) ↔ Straddles rest := by
  have pair : (hexByte hi lo).isSome := by rw [read]; rfl
  obtain ⟨one, oneLo⟩ := hexByte_narrow read
  constructor
  · rintro ⟨front, last, same, ok, more, inside⟩
    match front, same, ok with
    | [], same, _ =>
      have cuts : cut (hi :: lo :: rest) 2 = some ([hi, lo], rest) := cut_some.2 ⟨rfl, by simp [one, oneLo]⟩
      rw [same, List.nil_append, inside] at cuts
      cases cuts
    | _ :: _ :: front, same, ok =>
      cases same
      exact ⟨front, last, rfl, (taken_cons.1 ok).2, more, inside⟩
  · rintro ⟨front, last, rfl, ok, more, inside⟩
    exact ⟨hi :: lo :: front, last, rfl, taken_cons.2 ⟨pair, ok⟩, more, inside⟩

/-- A text whose first slice is no byte fails at that slice or not at all. -/
theorem straddles_first {s : List Char} (some_ : s ≠ []) (not : ∀ hi lo rest, s = hi :: lo :: rest → hexByte hi lo = none) :
    Straddles s ↔ cut s 2 = none := by
  constructor
  · rintro ⟨front, last, rfl, ok, more, inside⟩
    match front, ok with
    | [], _ => exact inside
    | hi :: lo :: front, ok =>
      rw [taken_cons, not hi lo _ rfl] at ok
      cases ok.1
  · exact fun inside => ⟨[], s, rfl, rfl, some_, inside⟩

/-- The decoder panics exactly where a slice ends inside a character behind pairs it takes. -/
theorem walk_none (s : List Char) : walk s = none ↔ Straddles s := by
  fun_induction walk s with
  | case1 =>
    refine ⟨(fun no => nomatch no), ?_⟩
    rintro ⟨front, rest, same, -, more, -⟩
    exact absurd (List.append_eq_nil_iff.1 same.symm).2 more
  | case2 c two =>
    rw [straddles_first (by simp) (by simp), cut_cons (by omega), two]
    simp
  | case3 c two =>
    rw [straddles_first (by simp) (by simp)]
    rcases cut_two c [] with ⟨yes, -⟩ | ⟨_, _, no, -⟩ | ⟨inside, -⟩
    · exact absurd yes two
    · cases no
    · simp [inside]
  | case4 c d rest two =>
    have no : hexByte c d = none := by
      cases read : hexByte c d with
      | none => rfl
      | some b => exact absurd (hexByte_narrow read).1 (by omega)
    rw [straddles_first (by simp) (by rintro _ _ _ ⟨⟩; exact no), cut_cons (by omega), two]
    simp
  | case5 c d rest two narrow b read ih =>
    rw [straddles_taken read, ← ih, Option.map_eq_none_iff]
  | case6 c d rest two narrow read =>
    rw [straddles_first (by simp) (by rintro _ _ _ ⟨⟩; exact read)]
    rcases cut_two c (d :: rest) with ⟨yes, -⟩ | ⟨_, _, -, -, -, at_⟩ | ⟨-, -, one⟩
    · exact absurd yes two
    · simp [at_]
    · exact absurd narrow (one d rest rfl)
  | case7 c d rest two wide =>
    have no : hexByte c d = none := by
      cases read : hexByte c d with
      | none => rfl
      | some b => exact absurd (hexByte_narrow read) wide
    rw [straddles_first (by simp) (by rintro _ _ _ ⟨⟩; exact no)]
    rcases cut_two c (d :: rest) with ⟨yes, -⟩ | ⟨_, _, same, one, oneD, -⟩ | ⟨inside, -⟩
    · exact absurd yes two
    · cases same
      exact absurd ⟨one, oneD⟩ wide
    · simp [inside]

/-! ## The decoders of the document model -/

theorem hexPairs_isSome (s : List Char) : (hexPairs s).isSome ↔ taken s := by
  fun_induction hexPairs s with
  | case1 => simp [taken]
  | case2 c => simp [taken]
  | case3 hi lo rest ih =>
    rw [taken_cons, ← ih]
    cases hexByte hi lo <;> simp

theorem walk_hexPairs (s : List Char) : (walk s).getD none = hexPairs s := by
  fun_induction walk s with
  | case1 => rfl
  | case2 c two => rfl
  | case3 c two => rfl
  | case4 c d rest two =>
    cases read : hexByte c d with
    | none => simp [hexPairs, read]
    | some b => exact absurd (hexByte_narrow read).1 (by omega)
  | case5 c d rest two narrow b read ih =>
    rw [hexPairs, read, Option.bind_some, ← ih]
    cases walk rest <;> rfl
  | case6 c d rest two narrow read => simp [hexPairs, read]
  | case7 c d rest two wide =>
    cases read : hexByte c d with
    | none => simp [hexPairs, read]
    | some b => exact absurd (hexByte_narrow read) wide

theorem taken_even {s : List Char} (ok : taken s) : byteLen s % 2 = 0 := by
  fun_induction taken s with
  | case1 => rfl
  | case2 c => cases ok
  | case3 hi lo rest ih =>
    have pair := taken_cons.1 ok
    obtain ⟨b, read⟩ := Option.isSome_iff_exists.1 pair.1
    obtain ⟨one, oneLo⟩ := hexByte_narrow read
    have even := ih pair.2
    rw [byteLen_cons, byteLen_cons, one, oneLo]
    omega

/-- The document model's decoder is this one, a panic as `none`. -/
theorem hexBytes_eq (s : String) : Wk.hexBytes s = (hexBytes s).getD none := by
  by_cases even : s.utf8ByteSize % 2 = 0
  · rw [hexBytes_walk even, walk_hexPairs, Wk.hexBytes]
  · rw [hexBytes, if_pos even, Wk.hexBytes]
    cases read : hexPairs s.toList with
    | none => rfl
    | some bytes =>
      have ok := (hexPairs_isSome s.toList).1 (by rw [read]; rfl)
      exact absurd (by rw [← byteLen_toList]; exact taken_even ok) even

/-- Slices that fail where they would panic are the pairs of the rest. -/
theorem collect_getD (s : List Char) (offsets : List Nat) :
    (collect s offsets).getD none = offsets.mapM fun i => (textSlice s i (i + 2)).bind fromStrRadix16 := by
  induction offsets with
  | nil => rfl
  | cons i offsets ih =>
    rw [collect, List.mapM_cons, ← ih]
    cases textSlice s i (i + 2) with
    | none => rfl
    | some pair =>
      simp only [Option.bind_eq_bind, Option.bind_some]
      cases fromStrRadix16 pair with
      | none => rfl
      | some b =>
        cases collect s offsets with
        | none => rfl
        | some read => cases read <;> rfl

/-- The document model's decoder of uplink secrets is this one. -/
theorem secretBytes_eq (s : String) : Wk.secretBytes s = secretBytes s := by
  rw [Wk.secretBytes, secretBytes]
  by_cases size : s.utf8ByteSize = 64
  · have offsets : List.range' 0 32 2 = (List.range 32).map (2 * ·) := by decide
    have slices := collect_getD s.toList (List.range' 0 32 2)
    have pairs := collect_walk 32 [] s.toList (by rw [byteLen_toList, size])
    rw [List.nil_append, byteLen_nil] at pairs
    rw [pairs, walk_hexPairs, offsets, List.mapM_map] at slices
    rw [if_neg (by omega), if_neg (by omega), slices]
    rfl
  · rw [if_pos size, if_pos size]

/-! ## What the decoder is for -/

/-- The decoder answers, and with bytes exactly for digits two by two. -/
def Reads (s : String) : Prop :=
  ∃ answer, hexBytes s = some answer ∧
    (answer.isSome ↔ s.utf8ByteSize % 2 = 0 ∧ ∀ c ∈ s.toList, isHexDigit c)

theorem taken_digits {s : List Char} (even : byteLen s % 2 = 0) (digits : ∀ c ∈ s, isHexDigit c) : taken s := by
  fun_induction taken s with
  | case1 => rfl
  | case2 c =>
    obtain ⟨d, read⟩ := Option.isSome_iff_exists.1 (digits c (by simp))
    rw [byteLen_cons, hexValue_narrow read] at even
    simp at even
  | case3 hi lo rest ih =>
    obtain ⟨d, read⟩ := Option.isSome_iff_exists.1 (digits hi (by simp))
    obtain ⟨e, readLo⟩ := Option.isSome_iff_exists.1 (digits lo (by simp))
    rw [byteLen_cons, byteLen_cons, hexValue_narrow read, hexValue_narrow readLo] at even
    simp [digits hi (by simp), digits lo (by simp), ih (by omega) fun c at_ => digits c (by simp [at_])]

theorem digits_taken {s : List Char} (ok : taken s) (unsigned : '+' ∉ s) : ∀ c ∈ s, isHexDigit c := by
  fun_induction taken s with
  | case1 => simp
  | case2 c => cases ok
  | case3 hi lo rest ih =>
    have plus : hi ≠ '+' := fun same => unsigned (by simp [same])
    simp only [Bool.and_eq_true, plus, decide_false, Bool.false_or] at ok
    have later := ih ok.2 fun at_ => unsigned (by simp [at_])
    simpa using ⟨ok.1.1, ok.1.2, later⟩

/-- **Tokens by byte offsets**: every token that was written is read again, and the decoder does
what it is for exactly where no slice ends inside a character behind pairs it takes, and it takes
no pair with a plus sign. -/
theorem hexBytes_reads (bytes : List UInt8) (s : String) :
    hexBytes (bytesHex bytes) = some (some bytes) ∧
    (Reads s ↔ (s.utf8ByteSize % 2 = 0 → ¬Straddles s.toList ∧ ¬Signed s.toList)) := by
  refine ⟨hexBytes_bytesHex bytes, ?_⟩
  by_cases even : s.utf8ByteSize % 2 = 0
  · have size : byteLen s.toList % 2 = 0 := by rw [byteLen_toList]; exact even
    rw [Reads, hexBytes_walk even]
    simp only [even, true_and, true_imp_iff]
    constructor
    · rintro ⟨answer, ran, exact_⟩
      refine ⟨fun straddles => ?_, fun ⟨ok, plus⟩ => ?_⟩
      · rw [(walk_none _).2 straddles] at ran
        cases ran
      · obtain ⟨bytes, read⟩ := (walk_isSome_some _).2 ok
        rw [read] at ran
        cases ran
        exact absurd (exact_.1 rfl _ plus) (by decide)
    · rintro ⟨whole, unsigned⟩
      cases ran : walk s.toList with
      | none => exact absurd ((walk_none _).1 ran) whole
      | some answer =>
        refine ⟨answer, rfl, fun read => ?_, fun digits => ?_⟩
        · obtain ⟨bytes, rfl⟩ := Option.isSome_iff_exists.1 read
          have ok := (walk_isSome_some _).1 ⟨bytes, ran⟩
          exact digits_taken ok fun plus => unsigned ⟨ok, plus⟩
        · obtain ⟨bytes, read⟩ := (walk_isSome_some _).2 (taken_digits size digits)
          rw [read] at ran
          cases ran
          rfl
  · refine iff_of_true ⟨none, if_pos even, ?_⟩ fun no => absurd no even
    simp [even]

section Poles

/-- The second byte of a text may be the first of a character. -/
theorem hexBytes_wide : ¬((∀ bytes, hexBytes (bytesHex bytes) = some (some bytes)) ∧ ∀ s, Reads s) := by
  rintro ⟨-, reads⟩
  obtain ⟨answer, ran, -⟩ := reads "aéb"
  have panic : hexBytes "aéb" = none := by decide
  rw [panic] at ran
  cases ran

/-- A plus sign is no digit, and the parser takes it. -/
theorem hexBytes_signed : hexBytes "+a" = some (some [10]) := by decide

end Poles

end Wk.Hex
