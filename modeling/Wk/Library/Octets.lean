/-
# Wk.Library.Octets -- fields of a packet

A packet is a list of octets, its fields sit at offsets, and a number of sixteen bits has its
high octet first.  What is read past the end is nothing.

* `u16At_be16`: a number is read where it was written.
* `prefix_append_iff`: a list that starts what comes of putting `w` before it is `w` over
  and over.
-/
import Mathlib

namespace Wk.Library

set_option autoImplicit false

/-- A number of sixteen bits, high octet first. -/
def be16 (n : Nat) : List UInt8 := [UInt8.ofNat (n / 256), UInt8.ofNat n]

/-- The number at offset `i`. -/
def u16At (b : List UInt8) (i : Nat) : Option Nat :=
  match b[i]?, b[i + 1]? with
  | some hi, some lo => some (256 * hi.toNat + lo.toNat)
  | _, _ => none

/-- The octets from `i` up to `j`, nothing if they are not there. -/
def slice (b : List UInt8) (i j : Nat) : Option (List UInt8) :=
  if i ≤ j ∧ j ≤ b.length then some ((b.take j).drop i) else none

@[simp] theorem length_be16 (n : Nat) : (be16 n).length = 2 := rfl

/-- A number is read where it was written. -/
@[simp] theorem u16At_be16 {n : Nat} (small : n < 65536) (before after : List UInt8) :
    u16At (before ++ (be16 n ++ after)) before.length = some n := by
  have hi : (UInt8.ofNat (n / 256)).toNat = n / 256 := by simp; omega
  have lo : (UInt8.ofNat n).toNat = n % 256 := by simp
  have sum : 256 * (n / 256) + n % 256 = n := by omega
  simp [u16At, be16, sum, Nat.mod_eq_of_lt (show n / 256 < 256 by omega)]

/-- What is put behind a packet is past its fields. -/
theorem u16At_append {b : List UInt8} {i : Nat} (within : i + 1 < b.length) (after : List UInt8) :
    u16At (b ++ after) i = u16At b i := by
  have first : i < b.length := by omega
  simp [u16At, List.getElem?_append_left, first, within]

theorem u16At_isSome {b : List UInt8} {i : Nat} (within : i + 1 < b.length) : (u16At b i).isSome = true := by
  have first : i < b.length := by omega
  simp [u16At, first, within]

theorem slice_eq {b : List UInt8} {i j : Nat} (order : i ≤ j) (within : j ≤ b.length) :
    slice b i j = some ((b.take j).drop i) := if_pos ⟨order, within⟩

/-- The middle of three parts. -/
theorem slice_middle (before middle after : List UInt8) :
    slice (before ++ (middle ++ after)) before.length (before.length + middle.length) = some middle := by
  rw [slice_eq (by omega) (by simp), List.take_append]
  simp

/-! ## Repetition -/

/-- A list that starts what comes of putting `w` before it is `w` over and over. -/
theorem prefix_append_iff {α : Type} {w l : List α} (some' : w ≠ []) :
    l <+: w ++ l ↔ ∀ i < l.length, l[i]? = w[i % w.length]? := by
  have pos : 0 < w.length := List.length_pos_of_ne_nil some'
  have shape : l <+: w ++ l ↔ ∀ i < l.length, l[i]? = (w ++ l)[i]? := by
    rw [List.prefix_iff_getElem?]
    exact forall₂_congr fun i within => by rw [List.getElem?_eq_getElem within, eq_comm]
  have near : ∀ i, i < w.length → (w ++ l)[i]? = w[i % w.length]? := fun i small => by
    rw [List.getElem?_append_left small, Nat.mod_eq_of_lt small]
  have far : ∀ i, w.length ≤ i → (w ++ l)[i]? = l[i - w.length]? := fun i large =>
    List.getElem?_append_right large
  rw [shape]
  constructor
  · intro starts i
    induction i using Nat.strong_induction_on with
    | h i ih =>
      intro within
      rw [starts i within]
      rcases Nat.lt_or_ge i w.length with small | large
      · exact near i small
      · rw [far i large, ih (i - w.length) (by omega) (by omega), ← Nat.mod_eq_sub_mod large]
  · intro repeats i within
    rcases Nat.lt_or_ge i w.length with small | large
    · rw [repeats i within, near i small]
    · rw [repeats i within, far i large, repeats (i - w.length) (by omega), ← Nat.mod_eq_sub_mod large]

end Wk.Library
