/-
# Wk.Vfs.ShortWrites -- output streams over a provider that takes less than it is given

A provider answers a write with the number of bytes it wrote.  Neither kind of stream
tells the guest: both report the whole chunk as accepted, the 0.2 stream moves on by what
was written (`pour_stream`) and the 0.3 stream by what it was given (`pour_consumer`).

* `losesNothing_iff`: the two streams lose nothing and agree exactly when the provider
  writes every chunk whole.

Poles: `tail_dropped` (the second byte of a chunk is accepted and never written).
-/
import Wk.Vfs.Session

namespace Wk.Vfs

open Wk.Library Wk.Provider

set_option autoImplicit false

/-- A chunk for a provider's file, and how many of its bytes the provider says it wrote. -/
structure Exchange (r : RemoteDesc) (handle : Nat) where
  chunk : Bytes
  count : Nat
  fits : count ≤ chunk.length
  env : Env
  live : r.live env = true
  answered : ∀ offset, env.reply r.conn (.write handle offset chunk) = .ok (.written count)

variable {r : RemoteDesc} {handle : Nat}

/-- The bytes the provider said it wrote. -/
def written (xs : List (Exchange r handle)) : Bytes := xs.flatMap fun x => x.chunk.take x.count

/-- The requests that send the chunks, each starting where the last one moved on to. -/
def laid (moved : Exchange r handle → Nat) (start : Nat) : List (Exchange r handle) → List (NodeId × FsOp)
  | [] => []
  | x :: xs => (r.conn, .write handle start x.chunk) :: laid moved (start + moved x) xs

namespace Machine

/-- Write the chunks to a stream, in order; the bytes it reported as accepted. -/
def pour (write : Nat → Bytes → Op) (stream : Nat) (m : Machine) : List (Exchange r handle) → Machine × Bytes
  | [] => (m, [])
  | x :: xs =>
    let (m, answer) := m.step x.env (write stream x.chunk)
    let (m, accepted) := m.pour write stream xs
    (m, (if answer = .ok then x.chunk else []) ++ accepted)

/-- The requests forwarded since `m`, oldest first. -/
def forwarded (m m' : Machine) : List (NodeId × FsOp) :=
  (m'.sent.take (m'.sent.length - m.sent.length)).reverse

/-- What is accepted is what was written, the writes lie one after the other, and both
streams send the same. -/
structure LosesNothing (m : Machine) (stream start : Nat) (xs : List (Exchange r handle)) : Prop where
  accepted : (m.pour .streamWrite stream xs).2 = written xs
  accepted3 : (m.pour .consumerWrite stream xs).2 = written xs
  contiguous : m.forwarded (m.pour .streamWrite stream xs).1 = laid Exchange.count start xs
  contiguous3 : m.forwarded (m.pour .consumerWrite stream xs).1 = laid Exchange.count start xs
  same : m.forwarded (m.pour .streamWrite stream xs).1 = m.forwarded (m.pour .consumerWrite stream xs).1

/-- `write` sends a chunk where the stream stands, reports it as accepted and moves on. -/
def Sends (write : Nat → Bytes → Op) (moved : Exchange r handle → Nat) (stream : Nat) : Prop :=
  ∀ {m : Machine} {start} (x : Exchange r handle), m.streams.lookup stream = some ⟨.remote r handle, start⟩ →
    m.step x.env (write stream x.chunk) =
      ({ m.send r.conn (.write handle start x.chunk) with
          streams := m.streams.insert stream ⟨.remote r handle, start + moved x⟩ }, .ok)

theorem writeRemote_answered (m : Machine) (x : Exchange r handle) (start : Nat) :
    m.writeDst x.env (.remote r handle) start x.chunk =
      (m.send r.conn (.write handle start x.chunk), .ok x.count) := by
  simp only [writeDst, x.live, Bool.not_true, Bool.false_eq_true, if_false, writeRemote, x.answered start]

/-- A 0.2 stream moves on by what the provider wrote. -/
theorem sends_stream (stream : Nat) :
    Sends .streamWrite (Exchange.count : Exchange r handle → Nat) stream := by
  intro m start x opened
  simp only [step, streamWrite, opened, writeRemote_answered]
  rfl

/-- A 0.3 stream moves on by what it was given. -/
theorem sends_consumer (stream : Nat) :
    Sends .consumerWrite (fun x : Exchange r handle => x.chunk.length) stream := by
  intro m start x opened
  simp only [step, consumerWrite, opened, writeRemote_answered]
  rfl

theorem pour_eq {write : Nat → Bytes → Op} {moved : Exchange r handle → Nat} {stream : Nat}
    (sends : Sends write moved stream) :
    ∀ (xs : List (Exchange r handle)) (m : Machine) {start : Nat},
      m.streams.lookup stream = some ⟨.remote r handle, start⟩ →
        (m.pour write stream xs).2 = xs.flatMap Exchange.chunk ∧
          (m.pour write stream xs).1.sent = (laid moved start xs).reverse ++ m.sent
  | [], _, _, _ => ⟨rfl, rfl⟩
  | x :: xs, m, start, opened => by
    have first := sends x opened
    have further : (m.step x.env (write stream x.chunk)).1.streams.lookup stream =
        some ⟨.remote r handle, start + moved x⟩ := by
      rw [first]
      exact AList.lookup_insert _
    obtain ⟨accepted, sent⟩ := pour_eq sends xs _ further
    simp only [pour]
    refine ⟨?_, ?_⟩
    · rw [accepted, first, if_pos rfl, List.flatMap_cons]
    · rw [sent, first, laid, List.reverse_cons, List.append_assoc]
      rfl

/-- What a stream reports and forwards. -/
theorem pour_forwarded {write : Nat → Bytes → Op} {moved : Exchange r handle → Nat} {stream start : Nat}
    (sends : Sends write moved stream) (xs : List (Exchange r handle)) {m : Machine}
    (opened : m.streams.lookup stream = some ⟨.remote r handle, start⟩) :
    (m.pour write stream xs).2 = xs.flatMap Exchange.chunk ∧
      m.forwarded (m.pour write stream xs).1 = laid moved start xs := by
  obtain ⟨accepted, sent⟩ := pour_eq sends xs m opened
  refine ⟨accepted, ?_⟩
  rw [forwarded, sent, List.length_append, Nat.add_sub_cancel, List.take_left, List.reverse_reverse]

end Machine

/-! ## Short answers -/

theorem laid_congr {moved moved' : Exchange r handle → Nat} :
    ∀ {xs : List (Exchange r handle)} (start : Nat), (∀ x ∈ xs, moved x = moved' x) →
      laid moved start xs = laid moved' start xs
  | [], _, _ => rfl
  | x :: xs, start, same => by
    rw [laid, laid, same x List.mem_cons_self]
    exact congrArg _ (laid_congr _ fun y member => same y (List.mem_cons_of_mem x member))

theorem length_written_le : ∀ xs : List (Exchange r handle),
    (written xs).length ≤ (xs.flatMap Exchange.chunk).length
  | [] => le_rfl
  | x :: xs => by
    have rest := length_written_le xs
    simp only [written, List.flatMap_cons, List.length_append, List.length_take] at rest ⊢
    omega

/-- All that was given is written only if no answer is short. -/
theorem written_eq_iff : ∀ {xs : List (Exchange r handle)},
    xs.flatMap Exchange.chunk = written xs ↔ ∀ x ∈ xs, x.count = x.chunk.length
  | [] => by simp [written]
  | x :: xs => by
    have rest := length_written_le xs
    have tail : xs.flatMap Exchange.chunk = written xs ↔ _ := written_eq_iff
    simp only [written, List.flatMap_cons, List.forall_mem_cons] at rest tail ⊢
    constructor
    · intro same
      have whole : x.count = x.chunk.length := by
        have lengths := congrArg List.length same
        have fits := x.fits
        simp only [List.length_append, List.length_take] at lengths
        omega
      rw [whole, List.take_length, List.append_cancel_left_eq] at same
      exact ⟨whole, tail.1 same⟩
    · rintro ⟨whole, others⟩
      rw [whole, List.take_length, tail.2 others]

/-- **Nothing is lost exactly when no answer is short.** -/
theorem losesNothing_iff {m : Machine} {stream start : Nat}
    (opened : m.streams.lookup stream = some ⟨.remote r handle, start⟩) (xs : List (Exchange r handle)) :
    m.LosesNothing stream start xs ↔ ∀ x ∈ xs, x.count = x.chunk.length := by
  obtain ⟨accepted, sent⟩ := Machine.pour_forwarded (Machine.sends_stream stream) xs opened
  obtain ⟨accepted3, sent3⟩ := Machine.pour_forwarded (Machine.sends_consumer stream) xs opened
  constructor
  · intro nothing
    exact written_eq_iff.1 (accepted.symm.trans nothing.accepted)
  · intro whole
    have all := written_eq_iff.2 whole
    have placed : laid (fun x => x.chunk.length) start xs = laid Exchange.count start xs :=
      laid_congr start fun x member => (whole x member).symm
    exact {
      accepted := accepted.trans all
      accepted3 := accepted3.trans all
      contiguous := sent
      contiguous3 := sent3.trans placed
      same := sent.trans (sent3.trans placed).symm }

/-- A stream over an open file of provider 1. -/
def tailDesc : RemoteDesc := ⟨1, 0, "f", some 0, .file, false⟩

/-- The provider takes the first `count` bytes of the chunk. -/
def taking (chunk : Bytes) (count : Nat) (fits : count ≤ chunk.length) : Exchange tailDesc 0 where
  chunk := chunk
  count := count
  fits := fits
  env := { Env.quiet with reply := fun _ _ => .ok (.written count) }
  live := rfl
  answered _ := rfl

/-- A machine whose stream 0 is open at the start of the file. -/
def pouring : Machine :=
  { Machine.boot Fs.new .empty with streams := (∅ : Table Nat OutputStream).insert 0 ⟨.remote tailDesc 0, 0⟩ }

theorem losesNothing_pouring :
    pouring.LosesNothing 0 0 [taking [1, 2] 2 (by decide), taking [3] 1 (by decide)] ↔
      ∀ x ∈ [taking [1, 2] 2 (by decide), taking [3] 1 (by decide)], x.count = x.chunk.length :=
  losesNothing_iff (by decide) _

/-- The provider takes one byte of two: the other is accepted and never written. -/
theorem tail_dropped : ¬ ∀ {r : RemoteDesc} {handle : Nat} (m : Machine) (stream start : Nat)
    (xs : List (Exchange r handle)),
      m.streams.lookup stream = some ⟨.remote r handle, start⟩ → m.LosesNothing stream start xs := by
  intro all
  have lost := (all pouring 0 0 [taking [1, 2] 1 (by decide)] (by decide)).accepted
  exact absurd lost (by decide)

end Wk.Vfs
