/-
# Wk.Library.Leases -- numbers given out in rotation

Holders have a number each, of one kind or another.  A number is either given out by a counter
that goes round a range, or named by who takes it; one holder may share another's.  A ledger
records beside the holders where each one's number is from.

* `Rotation.turn`: the `n`th number given out.
* `Clear`: no holder has the next number from an earlier round.
* `Kept.record`: an event whose number is clear keeps the ledger right.
* `Ledgered.kept`, `Kept.apart`: over a run of such events the holders of a number that was given
  out all have it from that one turn.
-/
import Wk.Library.Run

namespace Wk.Library

set_option autoImplicit false

/-! ## The counter -/

/-- A counter that goes round the `size` numbers from `lo`, and starts `first` of them on. -/
structure Rotation where
  lo : Nat
  size : Nat
  first : Nat := 0
  inhabited : 0 < size := by decide

namespace Rotation

variable (r : Rotation)

/-- The `n`th number given out. -/
def turn (n : Nat) : Nat := r.lo + (n + r.first) % r.size

/-- The number after `v`. -/
def next (v : Nat) : Nat := if v = r.lo + r.size - 1 then r.lo else v + 1

theorem turn_mem (n : Nat) : r.lo ≤ r.turn n ∧ r.turn n < r.lo + r.size :=
  ⟨Nat.le_add_right .., Nat.add_lt_add_left (Nat.mod_lt _ r.inhabited) _⟩

/-- A number comes round again after `size` turns, and not before. -/
theorem turn_eq_iff {m n : Nat} : r.turn m = r.turn n ↔ m % r.size = n % r.size := by
  rw [turn, turn, Nat.add_right_inj]
  exact ⟨Nat.ModEq.add_right_cancel' r.first, Nat.ModEq.add_right r.first⟩

theorem next_turn (n : Nat) : r.next (r.turn n) = r.turn (n + 1) := by
  have bound := Nat.mod_lt (n + r.first) r.inhabited
  have step : (n + 1 + r.first) % r.size = ((n + r.first) % r.size + 1) % r.size := by
    rw [Nat.mod_add_mod, Nat.add_right_comm]
  rw [next, turn, turn, step]
  rcases Nat.lt_or_ge ((n + r.first) % r.size + 1) r.size with inner | last
  · rw [Nat.mod_eq_of_lt inner, if_neg (by omega), Nat.add_assoc]
  · have wraps : (n + r.first) % r.size + 1 = r.size := by omega
    rw [wraps, Nat.mod_self, if_pos (by omega), Nat.add_zero]

end Rotation

/-! ## The ledger -/

/-- Where a number is from: the `n`th one given out, or who took it has named it. -/
inductive Origin where
  | given (n : Nat)
  | named (v : Nat)
  deriving DecidableEq, Repr

def Origin.value (r : Rotation) : Origin → Nat
  | given n => r.turn n
  | named v => v

/-- Where an event has the number from that its holders take: the next one given out, one
that is named, or the one that holder `h` has. -/
inductive Source (K H : Type) where
  | idle
  | gives (k : K)
  | names (k : K) (v : Nat)
  | shares (k : K) (h : H)

/-- How many numbers were given out, and where each holder's is from. -/
structure Ledger (H : Type) where
  count : Nat := 0
  origin : H → Origin := fun _ => .named 0

section Ledger

variable {K H : Type} (r : Rotation) (held held' : H → Option (K × Nat)) (l : Ledger H)

/-- What is taken of a source. -/
def Takes : Source K H → K × Nat → Prop
  | .idle, _ => False
  | .gives k, kv => kv = (k, r.turn l.count)
  | .names k v, kv => kv = (k, v)
  | .shares k h, kv => kv.1 = k ∧ held h = some kv

/-- A number is free of what was given out: the next one is held neither from an earlier round
nor by name, and a named one is not held as it was given out. -/
def Clear : Source K H → Prop
  | .gives k => ∀ h v, held h = some (k, v) →
      match l.origin h with
      | .given m => m % r.size ≠ l.count % r.size
      | .named v => v ≠ r.turn l.count
  | .names k v => ∀ h w m, held h = some (k, w) → l.origin h = .given m → r.turn m ≠ v
  | _ => True

/-- How many numbers were given out after an event. -/
def Ledger.counted : Source K H → Nat
  | .gives _ => l.count + 1
  | _ => l.count

/-- The ledger after an event: who has another number than before has it from the source. -/
def Ledger.record [DecidableEq K] (s : Source K H) : Ledger H where
  count := l.counted s
  origin h :=
    if held' h = held h then l.origin h
    else
      match s with
      | .idle => l.origin h
      | .gives _ => .given l.count
      | .names _ v => .named v
      | .shares _ h => l.origin h

/-- The ledger tells what each holder has, and who has a number that was given out, has it from
one turn with every other holder of it. -/
structure Kept : Prop where
  value : ∀ h kv, held h = some kv → (l.origin h).value r = kv.2
  apart : ∀ h h' kv n, held h = some kv → held h' = some kv → l.origin h = .given n → l.origin h' = .given n

variable {r held held' l}

theorem Kept.start (nobody : ∀ h, held h = none) : Kept r held l where
  value h kv has := by rw [nobody] at has; cases has
  apart h _ kv _ has := by rw [nobody] at has; cases has

/-- The next number, while it is clear, is nobody's. -/
theorem Kept.free (kept : Kept r held l) {k : K} (clear : Clear r held l (.gives k)) (h : H) :
    held h ≠ some (k, r.turn l.count) := by
  intro has
  have clear := clear h _ has
  have value := kept.value h _ has
  cases origin : l.origin h with
  | given m =>
    rw [origin] at clear value
    exact clear (r.turn_eq_iff.1 value)
  | named v =>
    rw [origin] at clear value
    exact clear value

/-- An event whose holders take no number but a clear one keeps the ledger right. -/
theorem Kept.record [DecidableEq K] (kept : Kept r held l) {s : Source K H}
    (took : ∀ h kv, held' h = some kv → held h = some kv ∨ Takes r held l s kv) (clear : Clear r held l s) :
    Kept r held' (l.record held held' s) := by
  -- Who takes a number, has it as the source says.
  have new : ∀ h kv, held' h = some kv → held' h ≠ held h → Takes r held l s kv := fun h kv has differs =>
    (took h kv has).resolve_left fun was => differs (has.trans was.symm)
  constructor
  · intro h kv has
    simp only [Ledger.record]
    split
    · next same => exact kept.value h kv (same ▸ has)
    · next differs =>
        have takes := new h kv has differs
        cases s with
        | idle => cases takes
        | gives k => rw [show kv = _ from takes]; rfl
        | names k v => rw [show kv = _ from takes]; rfl
        | shares k h₀ => exact kept.value h₀ kv takes.2
  · intro h h' kv n has has' origin
    simp only [Ledger.record] at origin ⊢
    split at origin
    · next same =>
        have was : held h = some kv := same ▸ has
        split
        · next same' => exact kept.apart h h' kv n was (same' ▸ has') origin
        · next differs' =>
            have takes := new h' kv has' differs'
            cases s with
            | idle => cases takes
            | gives k => exact absurd (was.trans (congrArg some takes)) (kept.free clear h)
            | names k v =>
              have value := kept.value h kv was
              rw [origin, show kv = _ from takes] at value
              exact absurd value (clear h v n (was.trans (congrArg some takes)) origin)
            | shares k h₀ => exact kept.apart h h₀ kv n was takes.2 origin
    · next differs =>
        have takes := new h kv has differs
        split
        · next same' =>
            have was : held h' = some kv := same' ▸ has'
            cases s with
            | idle => cases takes
            | gives k => exact absurd (was.trans (congrArg some takes)) (kept.free clear h')
            | names k v => cases origin
            | shares k h₀ => exact kept.apart h₀ h' kv n takes.2 was origin
        · cases s with
          | idle => cases takes
          | gives k => exact origin
          | names k v => exact origin
          | shares k h₀ => exact origin

/-! ## Runs -/

/-- A system with the ledger of its numbers. -/
structure Ledgered (α H : Type) where
  state : α
  ledger : Ledger H := {}

variable {α E : Type} [DecidableEq K] (next : α → E → α) (holds : α → H → Option (K × Nat)) (source : α → E → Source K H)

def Ledgered.step (x : Ledgered α H) (e : E) : Ledgered α H where
  state := next x.state e
  ledger := x.ledger.record (holds x.state) (holds (next x.state e)) (source x.state e)

/-- A run in which numbers are taken from the sources only, and are clear when they are taken,
keeps its ledger right. -/
theorem Ledgered.kept {I : Ledgered α H → Prop} {P : Ledgered α H → E → Prop}
    (turn : ∀ x e, I x → P x e → I (x.step next holds source e) ∧ ∀ h kv, holds (next x.state e) h = some kv →
      holds x.state h = some kv ∨ Takes r (holds x.state) x.ledger (source x.state e) kv)
    {es : List E} {x : Ledgered α H}
    (run : Along (Ledgered.step next holds source)
      (fun x e => P x e ∧ Clear r (holds x.state) x.ledger (source x.state e)) x es)
    (start : I x) (kept : Kept r (holds x.state) x.ledger) :
    Kept r (holds (es.foldl (Ledgered.step next holds source) x).state)
      (es.foldl (Ledgered.step next holds source) x).ledger :=
  (run.keeps (fun x e met both =>
    have turned := turn x e both.1 met.1
    ⟨turned.1, both.2.record turned.2 met.2⟩) (Q := fun x => I x ∧ Kept r (holds x.state) x.ledger) ⟨start, kept⟩).2

end Ledger

end Wk.Library
