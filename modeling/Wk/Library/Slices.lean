/-
# Wk.Library.Slices -- pieces of a text by byte offsets

A text is a list of characters, each of one to four bytes.  An offset inside a character is no
place to cut a text at.

* `cut_some`: a text is cut exactly where the characters before the cut have that many bytes.
* `textSlice_append`: what was passed over plays no part in a slice.
-/
import Mathlib

namespace Wk.Library

set_option autoImplicit false

/-- The bytes of a text. -/
def byteLen (cs : List Char) : Nat := (cs.map Char.utf8Size).sum

@[simp] theorem byteLen_nil : byteLen [] = 0 := rfl

@[simp] theorem byteLen_cons (c : Char) (cs : List Char) : byteLen (c :: cs) = c.utf8Size + byteLen cs := rfl

@[simp] theorem byteLen_append (xs ys : List Char) : byteLen (xs ++ ys) = byteLen xs + byteLen ys := by
  simp [byteLen]

theorem byteLen_ofList (cs : List Char) : (String.ofList cs).utf8ByteSize = byteLen cs := by
  induction cs with
  | nil => rfl
  | cons c cs ih =>
    rw [byteLen_cons, ← ih]
    simp

theorem byteLen_toList (s : String) : byteLen s.toList = s.utf8ByteSize := by
  rw [← byteLen_ofList, String.ofList_toList]

/-- The text before a byte offset and the text after it. -/
def cut : List Char → Nat → Option (List Char × List Char)
  | cs, 0 => some ([], cs)
  | [], _ + 1 => none
  | c :: cs, n + 1 =>
    if c.utf8Size ≤ n + 1 then (cut cs (n + 1 - c.utf8Size)).map fun parts => (c :: parts.1, parts.2)
    else none

@[simp] theorem cut_zero (cs : List Char) : cut cs 0 = some ([], cs) := by
  cases cs <;> rfl

theorem cut_cons {c : Char} {cs : List Char} {n : Nat} (fits : c.utf8Size ≤ n) :
    cut (c :: cs) n = (cut cs (n - c.utf8Size)).map fun parts => (c :: parts.1, parts.2) := by
  cases n with
  | zero => exact absurd fits (Nat.not_le.2 c.utf8Size_pos)
  | succ n => exact if_pos fits

theorem cut_inside {c : Char} {cs : List Char} {n : Nat} (some_ : 0 < n) (short : n < c.utf8Size) :
    cut (c :: cs) n = none := by
  cases n with
  | zero => exact absurd some_ (Nat.lt_irrefl 0)
  | succ n => exact if_neg (Nat.not_le.2 short)

theorem cut_append (xs ys : List Char) : cut (xs ++ ys) (byteLen xs) = some (xs, ys) := by
  induction xs with
  | nil => exact cut_zero ys
  | cons c xs ih =>
    rw [List.cons_append, cut_cons (by simp), byteLen_cons, Nat.add_sub_cancel_left, ih]
    rfl

theorem cut_some {cs l r : List Char} {n : Nat} : cut cs n = some (l, r) ↔ cs = l ++ r ∧ byteLen l = n := by
  refine ⟨fun ran => ?_, ?_⟩
  · induction cs generalizing n l with
    | nil =>
      cases n with
      | zero => cases ran; exact ⟨rfl, rfl⟩
      | succ n => cases ran
    | cons c cs ih =>
      rcases Nat.eq_zero_or_pos n with rfl | pos
      · rw [cut_zero] at ran
        cases ran
        exact ⟨rfl, rfl⟩
      · by_cases fits : c.utf8Size ≤ n
        · rw [cut_cons fits, Option.map_eq_some_iff] at ran
          obtain ⟨⟨l', r'⟩, ran, same⟩ := ran
          cases same
          obtain ⟨rfl, size⟩ := ih ran
          refine ⟨rfl, ?_⟩
          show c.utf8Size + byteLen l' = n
          omega
        · rw [cut_inside pos (Nat.not_le.1 fits)] at ran
          cases ran
  · rintro ⟨rfl, rfl⟩
    exact cut_append l r

/-- The text between two byte offsets. -/
def textSlice (cs : List Char) (i j : Nat) : Option (List Char) :=
  (cut cs i).bind fun parts => (cut parts.2 (j - i)).map (·.1)

theorem textSlice_append (xs ys : List Char) (n : Nat) :
    textSlice (xs ++ ys) (byteLen xs) (byteLen xs + n) = (cut ys n).map (·.1) := by
  rw [textSlice, cut_append, Option.bind_some, Nat.add_sub_cancel_left]

end Wk.Library
