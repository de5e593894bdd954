/-
# Wk.Workspace.Text -- the words and ids of a `.wk` file

What single values are written as: node ids in base32, connection kinds as words, sources
by their scheme.

* `NodeId.ofText_toText`: an id's text is read back.
* `Source.parse_toKdl`: so is a source, unless it is a path that looks like another scheme.
-/
import Wk.Workspace

namespace Wk

open Wk.Library

set_option autoImplicit false

/-! ## Trimming -/

theorem trim_of_all {s : String} (dark : ∀ c ∈ s.toList, isWhitespace c = false) : trim s = s := by
  have kept : ∀ {cs : List Char}, (∀ c ∈ cs, isWhitespace c = false) → cs.dropWhile isWhitespace = cs :=
    fun {cs} dark => List.dropWhile_eq_self_iff.2 fun bound => by
      rw [dark _ (List.getElem_mem bound)]
      exact Bool.false_ne_true
  rw [trim, kept dark, kept fun c member => dark c (List.mem_reverse.1 member), List.reverse_reverse,
    String.ofList_toList]

/-! ## Node ids -/

namespace NodeId

/-- Decode one Crockford base32 digit: case-insensitive, `O` is 0, `I` and `L` are 1. -/
def crockfordValue (c : Char) : Option Nat :=
  -- `as u8` keeps the low byte of the character
  let upper := (if 'a' ≤ c ∧ c ≤ 'z' then c.toNat - 32 else c.toNat) % 256
  let up :=
    if upper = 'O'.toNat then '0'.toNat
    else if upper = 'I'.toNat ∨ upper = 'L'.toNat then '1'.toNat else upper
  crockford.findIdx? fun d => d.toNat = up

/-- Add a digit, in 128 bits. -/
def pushDigit (n : Nat) (c : Char) : Option Nat :=
  (crockfordValue c).bind fun v => if n * 32 + v < 2 ^ 128 then some (n * 32 + v) else none

/-- `NodeId::from_str`. -/
def ofText (s : String) : Option NodeId :=
  let s := trim s
  if s.length ≠ 26 then none else s.toList.foldlM pushDigit 0

theorem crockfordValue_digit : ∀ v < 32, crockfordValue (crockford.getD v '0') = some v := by decide

theorem crockford_dark : ∀ v < 32, isWhitespace (crockford.getD v '0') = false := by decide

theorem length_digits : ∀ k n : Nat, (digits k n).length = k
  | 0, _ => rfl
  | k + 1, n => congrArg Nat.succ (length_digits k (n / 32))

theorem digits_dark : ∀ (k n : Nat), ∀ c ∈ digits k n, isWhitespace c = false
  | 0, _ => nofun
  | k + 1, n => by
    intro c member
    rcases List.mem_cons.1 member with rfl | member
    · exact crockford_dark _ (Nat.mod_lt _ (by decide))
    · exact digits_dark k (n / 32) c member

/-- Reading `k` digits back. -/
theorem foldlM_digits : ∀ (k : Nat) {n : Nat}, n < 2 ^ 128 →
    (digits k n).reverse.foldlM pushDigit 0 = some (n % 32 ^ k)
  | 0, n, _ => by rw [pow_zero, Nat.mod_one]; rfl
  | k + 1, n, small => by
    have high := foldlM_digits k (Nat.lt_of_le_of_lt (Nat.div_le_self n 32) small)
    have whole : n / 32 % 32 ^ k * 32 + n % 32 = n % 32 ^ (k + 1) := by
      rw [pow_succ', Nat.mod_mul, Nat.add_comm, Nat.mul_comm]
    have bound : n % 32 ^ (k + 1) < 2 ^ 128 := Nat.lt_of_le_of_lt (Nat.mod_le ..) small
    rw [digits, List.reverse_cons, List.foldlM_append, high]
    change pushDigit (n / 32 % 32 ^ k) (crockford.getD (n % 32) '0') >>= some = _
    rw [pushDigit, crockfordValue_digit _ (Nat.mod_lt _ (by decide)), Option.bind_some, whole, if_pos bound]
    rfl

/-- An id's text is read back. -/
theorem ofText_toText {id : NodeId} (small : id < 2 ^ 128) : ofText id.toText = some id := by
  have dark : ∀ c ∈ (toText id).toList, isWhitespace c = false := by
    intro c member
    rw [toText, String.toList_ofList, List.mem_reverse] at member
    exact digits_dark 26 id c member
  have length : (toText id).length = 26 := by
    rw [toText, String.length_ofList, List.length_reverse, length_digits]
  rw [ofText, trim_of_all dark, if_neg (not_not.2 length), toText, String.toList_ofList,
    foldlM_digits 26 small, Nat.mod_eq_of_lt (small.trans (by norm_num))]

end NodeId

/-! ## Connection kinds -/

namespace PortKind

def all : List PortKind := [bind, midi, serve, net, capture, clipboard, api]

/-- Read the word back, or `none` if it names no connection kind. -/
def parse (s : String) : Option PortKind := all.find? fun k => k.asStr = s

/-- Every kind's word, for an error message. -/
def words : String := ", ".intercalate (all.map asStr)

@[simp] theorem parse_asStr (k : PortKind) : parse k.asStr = some k := by
  cases k <;> rfl

end PortKind

/-! ## Sources -/

namespace Source

/-- The string form stored in the file. -/
def toKdl : Source → String
  | .path p => p
  | .oci reference => "oci://" ++ reference
  | .dockerfile p => "docker://" ++ p
  | .image reference => "image://" ++ reference

/-- `oci://` is a registry artifact, `docker://` a Dockerfile to build, `image://` a local
image, anything else a plain wasm path. -/
def parse (s : String) : Source :=
  match stripLead "oci://" s with
  | some reference => .oci (String.ofList reference)
  | none =>
    match stripLead "docker://" s with
    | some p => .dockerfile (String.ofList p)
    | none =>
      match stripLead "image://" s with
      | some reference => .image (String.ofList reference)
      | none => .path s

/-- A path that does not begin like another kind of source. -/
def Plain : Source → Prop
  | .path p => ∀ scheme ∈ ["oci://", "docker://", "image://"], ¬ scheme.toList <+: p.toList
  | _ => True

theorem stripLead_append (lead s : String) : stripLead lead (lead ++ s) = some s.toList := by
  have led : lead.toList.isPrefixOf (lead ++ s).toList = true := by
    rw [String.toList_append]
    exact List.isPrefixOf_iff_prefix.2 (List.prefix_append ..)
  rw [stripLead, if_pos led, String.toList_append, ← String.length_toList, List.drop_left]

theorem stripLead_eq_none {lead s : String} : stripLead lead s = none ↔ ¬ lead.toList <+: s.toList := by
  rw [stripLead, ite_eq_right_iff, ← List.isPrefixOf_iff_prefix]
  simp

/-- A source is read back, unless it is a path that looks like another scheme. -/
theorem parse_toKdl {source : Source} (plain : source.Plain) : parse source.toKdl = source := by
  cases source with
  | path p =>
    have none_of : ∀ scheme ∈ ["oci://", "docker://", "image://"], stripLead scheme p = none :=
      fun scheme member => stripLead_eq_none.2 (plain scheme member)
    simp only [toKdl, parse, none_of "oci://" (by simp), none_of "docker://" (by simp),
      none_of "image://" (by simp)]
  | oci reference => simp only [toKdl, parse, stripLead_append, String.ofList_toList]
  | dockerfile p =>
    have oci : stripLead "oci://" ("docker://" ++ p) = none := stripLead_eq_none.2 (by simp [String.toList_append])
    simp only [toKdl, parse, oci, stripLead_append, String.ofList_toList]
  | image reference =>
    have oci : stripLead "oci://" ("image://" ++ reference) = none :=
      stripLead_eq_none.2 (by simp [String.toList_append])
    have docker : stripLead "docker://" ("image://" ++ reference) = none :=
      stripLead_eq_none.2 (by simp [String.toList_append])
    simp only [toKdl, parse, oci, docker, stripLead_append, String.ofList_toList]

end Source

end Wk
