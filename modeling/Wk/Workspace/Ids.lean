/-
# Wk.Workspace.Ids -- which texts are node ids

An id is written with 26 digits, the most significant one first, so texts sort as the ids
do (`toText_lt_iff`).  Reading takes small letters too, and three letters for the digits
they look like.  It also takes every character outside ASCII whose low byte is the code of
a capital digit: the decoder cuts a character down to a byte before it looks it up.

* `text_form`: what is written is read back, texts sort as ids, and a text is accepted
  exactly when it is well formed, unless characters outside ASCII pass for digits.

Poles: `cut_to_a_byte` (`Ł` is read as `A`).
-/
import Wk.Workspace.Text

namespace Wk.NodeId

open Wk.Library

set_option autoImplicit false

/-! ## The grammar -/

/-- The value of a Crockford base32 digit in either case; `O` stands for 0, `I` and `L`
for 1. -/
def digit (c : Char) : Option Nat :=
  if c ∈ ['O', 'o'] then some 0
  else if c ∈ ['I', 'i', 'L', 'l'] then some 1
  else crockford.findIdx? fun d => d = c ∨ d.toLower = c

/-- The digit a character outside ASCII passes for: its low byte is the code of a capital
one. -/
def mistaken (c : Char) : Option Nat :=
  if 128 ≤ c.toNat then
    if c.toNat % 256 = 'O'.toNat then some 0
    else if c.toNat % 256 ∈ ['I'.toNat, 'L'.toNat] then some 1
    else crockford.findIdx? fun d => d.toNat = c.toNat % 256
  else none

/-- The number the digits `vs` write. -/
def value (vs : List Nat) : Nat := vs.foldl (fun n v => n * 32 + v) 0

/-- Trimmed, the text is 26 characters, each of which `read` takes for a digit, and the
number they write is below 2^128. -/
structure Reads (read : Char → Option Nat) (s : String) : Prop where
  length : (trim s).length = 26
  digits : ∀ c ∈ (trim s).toList, (read c).isSome
  small : value ((trim s).toList.filterMap read) < 2 ^ 128

/-- The text of an id. -/
def WellFormed (s : String) : Prop := Reads digit s

/-- What the decoder takes a character for. -/
def taken (c : Char) : Option Nat := (digit c).or (mistaken c)

/-! ## One digit -/

theorem digit_ascii {c : Char} (outside : 128 ≤ c.toNat) : digit c = none := by
  have inside : ∀ d : Char, d.toNat < 128 → d ≠ c := by
    rintro d small rfl
    omega
  have letters : ∀ d ∈ ['O', 'o', 'I', 'i', 'L', 'l'], d.toNat < 128 := by simp
  have alphabet : (crockford.all fun d => d.toNat < 128 && d.toLower.toNat < 128) = true := by decide
  simp only [List.all_eq_true, Bool.and_eq_true, decide_eq_true_eq] at alphabet
  have notO : c ∉ ['O', 'o'] := fun member =>
    inside c (letters c (List.mem_append_left ['I', 'i', 'L', 'l'] member)) rfl
  have notI : c ∉ ['I', 'i', 'L', 'l'] := fun member =>
    inside c (letters c (List.mem_append_right ['O', 'o'] member)) rfl
  rw [digit, if_neg notO, if_neg notI, List.findIdx?_eq_none_iff]
  intro d member
  simp only [decide_eq_false_iff_not, not_or]
  exact ⟨inside d (alphabet d member).1, inside d.toLower (alphabet d member).2⟩

/-- In ASCII the decoder takes the digits and nothing else. -/
theorem crockfordValue_ascii {c : Char} (small : c.toNat < 128) : crockfordValue c = digit c := by
  have all : ∀ n < 128, crockfordValue (Char.ofNat n) = digit (Char.ofNat n) := by decide +kernel
  have same := all c.toNat small
  rwa [Char.ofNat_toNat] at same

theorem crockfordValue_outside {c : Char} (outside : 128 ≤ c.toNat) : crockfordValue c = mistaken c := by
  have notSmall : ¬ ('a' ≤ c ∧ c ≤ 'z') := by
    rintro ⟨_, below⟩
    have bound : c.toNat ≤ 'z'.toNat := below
    have z : 'z'.toNat = 122 := rfl
    omega
  have bytes : ∀ b < 256,
      (crockford.findIdx? fun d => d.toNat =
        if b = 'O'.toNat then '0'.toNat else if b = 'I'.toNat ∨ b = 'L'.toNat then '1'.toNat else b) =
      if b = 'O'.toNat then some 0 else if b ∈ ['I'.toNat, 'L'.toNat] then some 1
        else crockford.findIdx? fun d => d.toNat = b := by
    decide +kernel
  simp only [crockfordValue, if_neg notSmall, mistaken, if_pos outside]
  exact bytes _ (Nat.mod_lt _ (by decide))

theorem crockfordValue_eq (c : Char) : crockfordValue c = taken c := by
  by_cases small : c.toNat < 128
  · rw [crockfordValue_ascii small, taken, mistaken, if_neg (by omega), Option.or_none]
  · rw [crockfordValue_outside (by omega), taken, digit_ascii (by omega), Option.none_or]

/-! ## The whole text -/

theorem le_foldl : ∀ (vs : List Nat) (n : Nat), n ≤ vs.foldl (fun n v => n * 32 + v) n
  | [], _ => le_rfl
  | v :: vs, n => (show n ≤ n * 32 + v by omega).trans (le_foldl vs _)

/-- Reading from `n` on gives a number if every character is a digit and the number fits. -/
theorem foldlM_pushDigit : ∀ {cs : List Char} {n : Nat}, n < 2 ^ 128 →
    ((cs.foldlM pushDigit n).isSome ↔
      (∀ c ∈ cs, (crockfordValue c).isSome) ∧
        (cs.filterMap crockfordValue).foldl (fun n v => n * 32 + v) n < 2 ^ 128)
  | [], n, small => by simpa using small
  | c :: cs, n, small => by
    rw [List.foldlM_cons, pushDigit]
    cases here : crockfordValue c with
    | none => simp [here]
    | some v =>
      rw [Option.bind_some, List.filterMap_cons_some here, List.foldl_cons]
      by_cases fits : n * 32 + v < 2 ^ 128
      · rw [if_pos fits]
        refine (foldlM_pushDigit fits).trans (and_congr_left fun _ => ?_)
        simp [here]
      · rw [if_neg fits]
        have large : ¬ (cs.filterMap crockfordValue).foldl (fun n v => n * 32 + v) (n * 32 + v) < 2 ^ 128 :=
          fun below => fits ((le_foldl _ _).trans_lt below)
        refine iff_of_false (by simp) fun both => large both.2

theorem ofText_isSome_iff {s : String} : (ofText s).isSome ↔ Reads taken s := by
  have same : crockfordValue = taken := funext crockfordValue_eq
  unfold ofText
  by_cases length : (trim s).length = 26
  · simp only [length, ne_eq, not_true_eq_false, if_false]
    rw [foldlM_pushDigit (by decide), same]
    exact ⟨fun ⟨digits, small⟩ => ⟨length, digits, small⟩, fun reads => ⟨reads.digits, reads.small⟩⟩
  · simp only [length, ne_eq, not_false_eq_true, if_true, Option.isSome_none, Bool.false_eq_true, false_iff]
    exact fun reads => length reads.length

/-- Where every character is in ASCII the decoder accepts what is well formed. -/
theorem reads_ascii {s : String} (ascii : ∀ c ∈ (trim s).toList, c.toNat < 128) : Reads taken s ↔ WellFormed s := by
  have same : ∀ c ∈ (trim s).toList, taken c = digit c := fun c member => by
    rw [← crockfordValue_eq, crockfordValue_ascii (ascii c member)]
  have values : (trim s).toList.filterMap taken = (trim s).toList.filterMap digit :=
    List.filterMap_congr same
  constructor
  · intro reads
    exact ⟨reads.length, fun c member => same c member ▸ reads.digits c member, values ▸ reads.small⟩
  · intro reads
    exact ⟨reads.length, fun c member => (same c member).symm ▸ reads.digits c member, values.symm ▸ reads.small⟩

/-! ## Order -/

theorem crockford_lt : ∀ v < 32, ∀ w < v, crockford.getD w '0' < crockford.getD v '0' := by decide

theorem append_lt {xs ys : List Char} {x y : Char} (length : xs.length = ys.length) (less : xs < ys) :
    xs ++ [x] < ys ++ [y] := by
  induction xs generalizing ys with
  | nil =>
    cases ys with
    | nil => exact absurd less (List.not_lt_nil _)
    | cons b ys => simp at length
  | cons a xs ih =>
    cases ys with
    | nil => simp at length
    | cons b ys =>
      rw [List.cons_append, List.cons_append, List.cons_lt_cons_iff]
      rcases List.cons_lt_cons_iff.1 less with first | ⟨same, rest⟩
      · exact .inl first
      · exact .inr ⟨same, ih (by simpa using length) rest⟩

/-- Of two numbers the greater is written with the greater digits. -/
theorem digits_lt : ∀ (k : Nat) {n m : Nat}, m < 32 ^ k → n < m → (digits k n).reverse < (digits k m).reverse
  | 0, n, m, small, less => by simp at small; omega
  | k + 1, n, m, small, less => by
    have length : (digits k (n / 32)).reverse.length = (digits k (m / 32)).reverse.length := by
      simp only [List.length_reverse, length_digits]
    rw [digits, digits, List.reverse_cons, List.reverse_cons]
    by_cases high : n / 32 < m / 32
    · have bound : m / 32 < 32 ^ k := Nat.div_lt_of_lt_mul (by rwa [pow_succ'] at small)
      exact append_lt length (digits_lt k bound high)
    · have same : n / 32 = m / 32 := by omega
      rw [same]
      refine List.append_left_lt (List.cons_lt_cons_iff.2 (.inl ?_))
      exact crockford_lt _ (Nat.mod_lt _ (by decide)) _ (by omega)

theorem toText_lt {id id' : NodeId} (small : id' < 2 ^ 128) (less : id < id') : id.toText < id'.toText := by
  have bound : id' < 32 ^ 26 := small.trans (by norm_num)
  rw [String.lt_iff_toList_lt, toText, toText, String.toList_ofList, String.toList_ofList]
  exact digits_lt 26 bound less

/-- Texts sort as ids. -/
theorem toText_lt_iff {id id' : NodeId} (small : id < 2 ^ 128) (small' : id' < 2 ^ 128) :
    id.toText < id'.toText ↔ id < id' := by
  refine ⟨fun less => ?_, toText_lt small'⟩
  by_contra notLess
  rcases Nat.lt_or_eq_of_le (Nat.le_of_not_lt notLess) with more | same
  · exact lt_asymm less (toText_lt small more)
  · exact lt_irrefl _ (same ▸ less)

/-- Only characters outside ASCII can pass for digits. -/
theorem accepts_iff (s : String) : ((ofText s).isSome ↔ WellFormed s) ↔
    (∀ c ∈ (trim s).toList, c.toNat < 128) ∨ ¬ Reads taken s := by
  rw [ofText_isSome_iff]
  by_cases ascii : ∀ c ∈ (trim s).toList, c.toNat < 128
  · exact iff_of_true (reads_ascii ascii) (.inl ascii)
  · have notFormed : ¬ WellFormed s := by
      intro formed
      refine ascii fun c member => ?_
      by_contra outside
      have none : digit c = none := digit_ascii (by omega)
      have some := formed.digits c member
      rw [none] at some
      cases some
    constructor
    · exact fun same => .inr fun reads => notFormed (same.1 reads)
    · exact fun cond => iff_of_false (cond.resolve_left ascii) notFormed

/-- What is written is read back, texts sort as ids, and a text is accepted if it is well
formed and only then, exactly when no character outside ASCII passes for a digit in it. -/
theorem text_form (s : String) :
    ((∀ id < 2 ^ 128, ofText (toText id) = some id) ∧
      (∀ id < 2 ^ 128, ∀ id' < 2 ^ 128, toText id < toText id' ↔ id < id') ∧
      ((ofText s).isSome ↔ WellFormed s)) ↔
        (∀ c ∈ (trim s).toList, c.toNat < 128) ∨ ¬ Reads taken s := by
  rw [← accepts_iff]
  constructor
  · rintro ⟨-, -, accepts⟩
    exact accepts
  · intro accepts
    exact ⟨fun id small => ofText_toText small, fun id small id' small' => toText_lt_iff small small', accepts⟩

/-- The last character is `Ł`, U+0141, whose low byte is the code of `A`. -/
theorem cut_to_a_byte : ¬ ∀ s, (ofText s).isSome ↔ WellFormed s := by
  intro all
  have accepted : (ofText "0000000000000000000000000Ł").isSome := by decide +kernel
  have letter := ((all _).1 accepted).digits 'Ł' (by decide +kernel)
  exact absurd letter (by decide +kernel)

end Wk.NodeId
