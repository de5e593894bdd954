/-
# Wk.Vfs.Appends -- two streams that append to one file

An append stream fixes its offset at the end of the file when it is opened, in either
interface, and moves on by what it writes: it is an appender.  So two of them, of one
guest or of two that share a volume, keep what both append only while they are not both
in use.

* `appends_kept_iff`: the file ends as it began with the chunks of both streams in some
  order exactly when not both write anything once both are open.

Poles: `append_overwritten` (the second stream writes over the first one's byte).
-/
import Wk.Vfs.Fleet
import Wk.Library.Appenders

namespace Wk.Vfs

open Wk.Library Wk.Provider

set_option autoImplicit false

/-- Within the file, a write is a write in place. -/
theorem overwrite_inside {data : Bytes} {offset : Nat} (inside : offset ≤ data.length) (bytes : Bytes) :
    overwrite data offset bytes = putAt data offset bytes := by
  unfold overwrite resize putAt
  dsimp only
  rw [List.take_of_length_le (le_max_left _ _)]
  by_cases short : offset + bytes.length ≤ data.length
  · rw [max_eq_left short, Nat.sub_self, List.replicate_zero, List.append_nil]
  · have past : data.length ≤ offset + bytes.length := Nat.le_of_not_le short
    rw [max_eq_right past, List.take_append_of_le_length inside, List.drop_eq_nil_of_le past,
      List.drop_eq_nil_of_le (by simp; omega)]

/-- The destination of a stream onto a store. -/
def Store.dst : Store → WriteDst
  | .node id => .node id
  | .cell i => .shared i
  | .file path => .host path

namespace Machine

variable {m m' : Machine} {env : Env} {s : Store}

/-! ## What a write leaves -/

theorem Writes.stays (writes : m.Writes m') {id : Nat} (there : id ∈ m.fs.nodes) : id ∈ m'.fs.nodes := by
  obtain ⟨-, -, fs | ⟨id', bytes, holds, fs⟩⟩ := writes
  · rwa [fs]
  · rw [fs, Fs.setBytes, AList.mem_insert]
    exact .inr there

theorem Writes.store (writes : m.Writes m') (id : Nat) : m'.store id = m.store id := by
  obtain ⟨-, -, fs | ⟨id', bytes, holds, fs⟩⟩ := writes
  · exact store_congr (by rw [fs])
  · by_cases same : id = id'
    · subst same
      rw [store_node_iff.2 ⟨rfl, holds⟩]
      exact store_node_iff.2 ⟨rfl, .inl ⟨bytes, by rw [fs, Fs.setBytes, AList.lookup_insert]⟩⟩
    · exact store_congr (by rw [fs, Fs.setBytes, AList.lookup_insert_ne same])

theorem Writes.writable (writes : m.Writes m') (fd : Nat) : m'.writable fd = m.writable fd := by
  have readonly : m'.fs.readonly = m.fs.readonly := by
    obtain ⟨-, -, fs | ⟨id', bytes, holds, fs⟩⟩ := writes <;> rw [fs]
    rfl
  unfold Machine.writable
  rw [writes.1, readonly]
  simp only [writes.store]

/-- A store a descriptor may write to is there. -/
theorem writable_some {fd : Nat} (writable : m.writable fd = some s) :
    ∃ id, m.fds.lookup fd = some (.node id) ∧ id ∉ m.fs.readonly ∧ m.store id = some s := by
  unfold Machine.writable at writable
  split at writable
  · next id place =>
      split at writable
      · cases writable
      · next unguarded => exact ⟨id, place, unguarded, writable⟩
  · cases writable

theorem dstStore_dst {id : Nat} (here : m.store id = some s) : m.dstStore s.dst = some s := by
  cases s with
  | node i =>
    obtain ⟨rfl, holds⟩ := store_node_iff.1 here
    exact dstStore_node holds
  | cell cell => rfl
  | file path => rfl

/-- The bytes of a store a descriptor may write to, once they are written. -/
theorem Wrote.stored {deed : Option Deed} {id : Nat} (wrote : m.Wrote deed m') (writes : m.Writes m')
    (here : m.store id = some s) : m'.stored s = amended deed s (m.stored s) := by
  refine wrote.bytes ?_
  cases s with
  | node i =>
    obtain ⟨rfl, holds⟩ := store_node_iff.1 here
    exact ⟨here, writes.stays holds.mem⟩
  | cell cell => trivial
  | file path => trivial

theorem copyUp_streams (id : Nat) : (m.copyUp id).streams = m.streams := by
  unfold copyUp
  split <;> rfl

/-! ## One stream -/

/-- Opening appends at the end and changes no bytes. -/
theorem append_opens {fd : Nat} (writable : m.writable fd = some s) (inside : ∀ path, s ≠ .file path)
    (statFailed : FsError → ErrorCode) :
    ∃ m', m.appendFrom env fd statFailed = m'.pushStream s.dst (m.stored s).length ∧
      m'.streams = m.streams ∧ m'.next = m.next ∧ m.Wrote none m' ∧ m.Writes m' := by
  obtain ⟨id, place, unguarded, here⟩ := writable_some writable
  cases s with
  | node i =>
    obtain ⟨rfl, holds⟩ := store_node_iff.1 here
    refine ⟨m.copyUp i, ?_, copyUp_streams i, copyUp_next i, copyUp_wrote i, copyUp_writes i⟩
    have length : (m.copyUp i).appendLength i = (m.stored (.node i)).length := by
      rw [appendLength, copyUp_file holds]
    have kind : m.fs.nodeKind i = .file ∨ m.fs.nodeKind i = .ro := by
      obtain ⟨bytes, found⟩ | ⟨layer, found⟩ := holds
      · exact .inl (by rw [Fs.nodeKind, found])
      · exact .inr (by rw [Fs.nodeKind, found])
    unfold appendFrom
    rw [place]
    dsimp only
    rw [if_neg unguarded, length]
    rcases kind with kind | kind <;> rw [kind] <;> rfl
  | cell cell =>
    have kind : m.fs.nodeKind id = .shared cell := by
      unfold Machine.store at here
      cases kind : m.fs.nodeKind id <;> rw [kind] at here <;> cases here
      rfl
    refine ⟨m, ?_, rfl, rfl, .same rfl rfl, writes_same rfl rfl le_rfl⟩
    unfold appendFrom
    rw [place]
    dsimp only
    rw [if_neg unguarded, kind]
    rfl
  | file path => exact absurd rfl (inside path)

/-- A write that is taken is within the size cap. -/
theorem writeDst_taken {offset count : Nat} {bytes : Bytes} (there : m.dstStore s.dst = some s)
    (inside : ∀ path, s ≠ .file path) (took : m.writeDst env s.dst offset bytes = (m', .ok count)) :
    count = bytes.length ∧ s.takes env (offset + bytes.length) = true ∧ m'.streams = m.streams ∧
      m'.next = m.next := by
  cases s with
  | node id =>
    by_cases holds : m.fs.HoldsBytes id
    · unfold writeDst Store.dst writeNode at took
      dsimp only at took
      rw [copyUp_file holds] at took
      dsimp only [writeAt] at took
      by_cases large : maxFileSize < offset + bytes.length
      · rw [if_pos large] at took
        cases took
      · rw [if_neg large] at took
        cases took
        exact ⟨rfl, by simpa [Store.takes] using large, copyUp_streams id, copyUp_next id⟩
    · rw [Store.dst, dstStore_else holds] at there
      cases there
  | cell cell =>
    unfold writeDst Store.dst writeShared writeAt at took
    dsimp only at took
    by_cases large : maxFileSize < offset + bytes.length
    · rw [if_pos large] at took
      cases took
    · rw [if_neg large] at took
      cases took
      exact ⟨rfl, by simpa [Store.takes] using large, rfl, rfl⟩
  | file path => exact absurd rfl (inside path)

/-- A write that succeeds overwrites at the stream's offset and moves the stream on, in
either interface. -/
theorem stream_writes {op : Op} {handle offset id : Nat} {bytes : Bytes}
    (asked : op = .streamWrite handle bytes ∨ op = .consumerWrite handle bytes)
    (opened : m.streams.lookup handle = some ⟨s.dst, offset⟩) (here : m.store id = some s)
    (inside : ∀ path, s ≠ .file path) (answered : (m.step env op).2 = .ok) :
    (m.step env op).1.streams = m.streams.insert handle ⟨s.dst, offset + bytes.length⟩ ∧
      (m.step env op).1.next = m.next ∧ m.Writes (m.step env op).1 ∧
      (m.step env op).1.stored s = overwrite (m.stored s) offset bytes := by
  have there := dstStore_dst here
  have bytes_ : ∀ {m'}, m.Wrote (m.streamed env handle bytes) m' → m.Writes m' →
      s.takes env (offset + bytes.length) = true → m'.stored s = overwrite (m.stored s) offset bytes := by
    intro m' wrote writes takes
    rw [streamed, opened, Option.bind_some, there, lands_taken _ takes] at wrote
    rw [wrote.stored writes here, amended_self rfl]
  rcases asked with rfl | rfl
  · have wrote : m.Wrote _ (m.streamWrite env handle bytes).1 := streamWrite_wrote handle bytes
    have writes : m.Writes (m.streamWrite env handle bytes).1 := streamWrite_writes handle bytes
    simp only [step] at answered ⊢
    unfold streamWrite at answered wrote writes ⊢
    rw [opened] at answered wrote writes ⊢
    dsimp only at answered wrote writes ⊢
    cases took : m.writeDst env s.dst offset bytes with
    | mk m' result =>
      rw [took] at answered wrote writes
      cases result with
      | error e => cases answered
      | ok count =>
        obtain ⟨rfl, takes, streams, next⟩ := writeDst_taken there inside took
        exact ⟨congrArg (AList.insert handle _) streams, next, writes, bytes_ wrote writes takes⟩
  · have wrote : m.Wrote _ (m.consumerWrite env handle bytes).1 := consumerWrite_wrote handle bytes
    have writes : m.Writes (m.consumerWrite env handle bytes).1 := consumerWrite_writes handle bytes
    simp only [step] at answered ⊢
    unfold consumerWrite at answered wrote writes ⊢
    rw [opened] at answered wrote writes ⊢
    dsimp only at answered wrote writes ⊢
    cases took : m.writeDst env s.dst offset bytes with
    | mk m' result =>
      rw [took] at answered wrote writes
      cases result with
      | error e => cases answered
      | ok count =>
        obtain ⟨-, takes, streams, next⟩ := writeDst_taken there inside took
        exact ⟨congrArg (AList.insert handle _) streams, next, writes, bytes_ wrote writes takes⟩

end Machine

/-! ## Two streams -/

/-- An open descriptor of a guest, and the interface it appends by. -/
structure Appender where
  guest : Nat
  fd : Nat
  /-- The 0.3 interface. -/
  third : Bool

namespace Appender

def opening (w : Appender) (env : Env) : Act :=
  ⟨w.guest, if w.third then .appendViaStream3 w.fd else .appendViaStream w.fd, env⟩

def writing (w : Appender) (handle : Nat) (chunk : Bytes) (env : Env) : Act :=
  ⟨w.guest, if w.third then .consumerWrite handle chunk else .streamWrite handle chunk, env⟩

end Appender

/-- The answer to a guest's operation. -/
def Fleet.answer (f : Fleet) (a : Act) : Answer := ((f.machine a.guest).step a.env a.op).2

/-- A fleet and the handles of the two streams, once they are open. -/
structure Streams where
  fleet : Fleet
  handle : Bool → Option Nat

namespace Streams

/-- Open a stream or write to it; only what succeeds counts. -/
def step (ws : Bool → Appender) (st : Streams) : Appending UInt8 × Env → Option Streams
  | (.opens w, env) =>
    match st.handle w, st.fleet.answer ((ws w).opening env) with
    | none, .stream h => some ⟨st.fleet.act ((ws w).opening env), Function.update st.handle w (some h)⟩
    | _, _ => none
  | (.writes w chunk, env) =>
    match st.handle w with
    | none => none
    | some h =>
      if st.fleet.answer ((ws w).writing h chunk env) = .ok then
        some ⟨st.fleet.act ((ws w).writing h chunk env), st.handle⟩
      else none

def run (ws : Bool → Appender) (st : Streams) (moves : List (Appending UInt8 × Env)) : Option Streams :=
  moves.foldlM (step ws) st

end Streams

namespace Fleet

/-- Both descriptors may write to the store `s`, which is a file of one guest or a
volume. -/
structure OnFile (f : Fleet) (ws : Bool → Appender) (s : Store) : Prop where
  writable : ∀ w, (f.machine (ws w).guest).writable (ws w).fd = some s
  inside : ∀ path, s ≠ .file path
  own : ∀ id, s = .node id → (ws true).guest = (ws false).guest

end Fleet

namespace Fleet

variable {f : Fleet} {ws : Bool → Appender} {s : Store} {x : Act} {w : Bool}

theorem OnFile.same {id : Nat} (onFile : f.OnFile ws s) (node : s = .node id) (v w : Bool) :
    (ws v).guest = (ws w).guest := by
  have own := onFile.own id node
  cases v <;> cases w <;> first | rfl | exact own | exact own.symm

/-- Writing keeps the descriptors where they are. -/
theorem OnFile.act (onFile : f.OnFile ws s)
    (writes : (f.machine x.guest).Writes ((f.machine x.guest).step x.env x.op).1) : (f.act x).OnFile ws s where
  writable v := by
    rw [← onFile.writable v]
    by_cases here : (ws v).guest = x.guest
    · rw [here, act_self]
      exact writes.writable _
    · simp only [machine, act_other here]
      rfl
  inside := onFile.inside
  own := onFile.own

/-- Every guest that has the file sees what the last one left. -/
theorem OnFile.stored_act (onFile : f.OnFile ws s) (who : x.guest = (ws w).guest) (v : Bool) :
    ((f.act x).machine (ws v).guest).stored s = ((f.machine x.guest).step x.env x.op).1.stored s := by
  by_cases here : (ws v).guest = x.guest
  · rw [here, act_self]
  · cases s with
    | node id => exact absurd ((onFile.same rfl v w).trans who.symm) here
    | cell cell => rfl
    | file path => rfl

end Fleet

namespace Streams

open Fleet

variable {ws : Bool → Appender} {s : Store} {st st' : Streams} {a : Appended UInt8} {w : Bool} {env : Env}

/-- The bytes of the file. -/
def file (ws : Bool → Appender) (s : Store) (st : Streams) : Bytes := (st.fleet.machine (ws true).guest).stored s

/-- The streams are where the appenders are. -/
structure Tracks (ws : Bool → Appender) (s : Store) (st : Streams) (a : Appended UInt8) : Prop where
  onFile : st.fleet.OnFile ws s
  file : ∀ w, (st.fleet.machine (ws w).guest).stored s = a.file
  closed : ∀ {w}, st.handle w = none → a.offset w = none
  opened : ∀ {w h}, st.handle w = some h → h < (st.fleet.machine (ws w).guest).next ∧
    ∃ o, a.offset w = some o ∧ o ≤ a.file.length ∧
      (st.fleet.machine (ws w).guest).streams.lookup h = some ⟨s.dst, o⟩
  apart : ∀ {h}, st.handle true = some h → st.handle false = some h → (ws true).guest ≠ (ws false).guest

/-- One stream has moved on; the other is where it was. -/
theorem Tracks.act (tracks : Tracks ws s st a) {x : Act} {h o : Nat} {data : Bytes} {after : Machine}
    (who : x.guest = (ws w).guest) (after_ : after = ((st.fleet.machine x.guest).step x.env x.op).1)
    (writes : (st.fleet.machine x.guest).Writes after) (stored : after.stored s = data)
    (grown : a.file.length ≤ data.length) (reach : o ≤ data.length)
    (streams : after.streams = (st.fleet.machine x.guest).streams.insert h ⟨s.dst, o⟩)
    (next : (st.fleet.machine x.guest).next ≤ after.next) (below : h < after.next)
    (fresh : ∀ v, v ≠ w → st.handle v = some h → (ws v).guest ≠ (ws w).guest) :
    Tracks ws s ⟨st.fleet.act x, Function.update st.handle w (some h)⟩ (a.leave data w o) := by
  have self : (st.fleet.act x).machine (ws w).guest = after := by rw [← who, act_self, after_]
  refine ⟨tracks.onFile.act (after_ ▸ writes), ?_, ?_, ?_, ?_⟩
  · intro v
    rw [tracks.onFile.stored_act who v, ← after_, stored]
    rfl
  · intro v shut
    dsimp only at shut
    by_cases same : v = w
    · rw [same, Function.update_self] at shut
      cases shut
    · rw [Function.update_of_ne same] at shut
      rw [Appended.leave_offset_other same]
      exact tracks.closed shut
  · intro v h' there
    dsimp only at there ⊢
    by_cases same : v = w
    · rw [same, Function.update_self] at there
      cases there
      rw [same]
      refine ⟨by rw [self]; exact below, o, Appended.leave_offset_self data o, reach, ?_⟩
      rw [self, streams, AList.lookup_insert]
    · rw [Function.update_of_ne same] at there
      obtain ⟨small, o', offset, inside, opened⟩ := tracks.opened there
      by_cases guest : (ws v).guest = (ws w).guest
      · have other : h' ≠ h := by
          rintro rfl
          exact fresh v same there guest
        rw [guest, self]
        rw [guest, ← who] at small opened
        refine ⟨small.trans_le next, o', ?_, inside.trans grown, ?_⟩
        · rw [Appended.leave_offset_other same, offset]
        · rw [streams, AList.lookup_insert_ne other, opened]
      · have kept : (st.fleet.act x).guests (ws v).guest = st.fleet.guests (ws v).guest :=
          act_other fun here => guest (here.trans who)
        refine ⟨?_, o', ?_, inside.trans grown, ?_⟩
        · simp only [machine, kept]
          exact small
        · rw [Appended.leave_offset_other same, offset]
        · simp only [machine, kept]
          exact opened
  · intro h' one two
    dsimp only at one two
    cases w with
    | true =>
      rw [Function.update_self] at one
      rw [Function.update_of_ne (by simp)] at two
      cases one
      exact (fresh false (by simp) two).symm
    | false =>
      rw [Function.update_self] at two
      rw [Function.update_of_ne (by simp)] at one
      cases two
      exact fresh true (by simp) one

theorem Tracks.opens (tracks : Tracks ws s st a) (opened : st.step ws (.opens w, env) = some st') :
    ∃ a', a.step (.opens w) = some a' ∧ Tracks ws s st' a' := by
  have shape : ∃ statFailed, (st.fleet.machine (ws w).guest).step env ((ws w).opening env).op =
      (st.fleet.machine (ws w).guest).appendFrom env (ws w).fd statFailed := by
    unfold Appender.opening
    cases (ws w).third with
    | true => exact ⟨_, rfl⟩
    | false => exact ⟨_, rfl⟩
  obtain ⟨statFailed, shape⟩ := shape
  have here := tracks.onFile.writable w
  obtain ⟨m', pushed, streams, next, wrote, writes⟩ := Machine.append_opens here tracks.onFile.inside statFailed
  have result := shape.trans pushed
  unfold step at opened
  dsimp only at opened
  split at opened
  · next _ _ h shut answered =>
      cases opened
      have handle : h = m'.next := by
        rw [Fleet.answer] at answered
        have same := (congrArg Prod.snd result).symm.trans answered
        exact (Answer.stream.inj same).symm
      have closed := tracks.closed shut
      refine ⟨a.leave a.file w a.file.length, by simp only [Appended.step, closed], ?_⟩
      obtain ⟨id, -, -, store⟩ := Machine.writable_some here
      have left : (st.fleet.machine (ws w).guest).Wrote none
          (m'.pushStream s.dst ((st.fleet.machine (ws w).guest).stored s).length).1 := wrote.congr rfl rfl
      refine tracks.act rfl (congrArg Prod.fst result).symm (writes.pushStream _ _) ?_ le_rfl le_rfl ?_ ?_ ?_ ?_
      · rw [left.stored (writes.pushStream _ _) store, amended_none, tracks.file w]
      · rw [handle, ← tracks.file w]
        exact congrArg (AList.insert m'.next _) streams
      · exact next.ge.trans (Nat.le_succ _)
      · rw [handle]
        exact Nat.lt_succ_self _
      · intro v _ there guest
        have small := (tracks.opened there).1
        rw [guest, handle, next] at small
        exact absurd small (lt_irrefl _)
  · cases opened

theorem Tracks.writes {chunk : Bytes} (tracks : Tracks ws s st a) (wrote : st.step ws (.writes w chunk, env) = some st') :
    ∃ a', a.step (.writes w chunk) = some a' ∧ Tracks ws s st' a' := by
  unfold step at wrote
  dsimp only at wrote
  split at wrote
  · cases wrote
  · next h there =>
      split at wrote
      · next answered =>
          cases wrote
          obtain ⟨small, o, offset, reach, opened⟩ := tracks.opened there
          refine ⟨a.leave (putAt a.file o chunk) w (o + chunk.length), by simp only [Appended.step, offset], ?_⟩
          obtain ⟨id, -, -, store⟩ := Machine.writable_some (tracks.onFile.writable w)
          have asked : ((ws w).writing h chunk env).op = .streamWrite h chunk ∨
              ((ws w).writing h chunk env).op = .consumerWrite h chunk := by
            unfold Appender.writing
            cases (ws w).third with
            | true => exact .inr rfl
            | false => exact .inl rfl
          obtain ⟨streams, next, writes, stored⟩ :=
            Machine.stream_writes asked opened store tracks.onFile.inside answered
          have size : (putAt a.file o chunk).length = max a.file.length (o + chunk.length) := length_putAt reach
          have same : Function.update st.handle w (some h) = st.handle := by
            rw [Function.update_eq_self_iff, there]
          rw [← same]
          refine tracks.act rfl rfl writes ?_ ?_ ?_ streams next.ge (small.trans_le next.ge) ?_
          · refine stored.trans ?_
            rw [tracks.file w, overwrite_inside reach]
          · rw [size]
            exact le_max_left _ _
          · rw [size]
            exact le_max_right _ _
          · intro v other there' guest
            have clash : (ws true).guest ≠ (ws false).guest := by
              cases v <;> cases w <;> first | exact absurd rfl other | exact tracks.apart ‹_› ‹_›
            cases v <;> cases w <;> first | exact other rfl | exact clash guest | exact clash guest.symm
      · cases wrote

/-- A run of the two streams is a run of two appenders. -/
theorem Tracks.run : ∀ {moves : List (Appending UInt8 × Env)} {st : Streams} {a : Appended UInt8},
    Tracks ws s st a → st.run ws moves = some st' →
      ∃ a', a.run (moves.map Prod.fst) = some a' ∧ Tracks ws s st' a'
  | [], st, a, tracks, ran => by
    cases ran
    exact ⟨a, rfl, tracks⟩
  | (move, env) :: moves, st, a, tracks, ran => by
    rw [Streams.run, List.foldlM_cons] at ran
    cases turn : st.step ws (move, env) with
    | none =>
      rw [turn] at ran
      cases ran
    | some st₁ =>
      rw [turn] at ran
      have first : ∃ a₁, a.step move = some a₁ ∧ Tracks ws s st₁ a₁ := by
        cases move with
        | opens w => exact tracks.opens turn
        | writes w chunk => exact tracks.writes turn
      obtain ⟨a₁, stepped, tracks₁⟩ := first
      obtain ⟨a', rest, tracks'⟩ := tracks₁.run ran
      refine ⟨a', ?_, tracks'⟩
      rw [List.map_cons, Appended.run, List.foldlM_cons, stepped]
      exact rest

/-- **Two append streams keep what both append exactly while they are not both in use.** -/
theorem appends_kept_iff {f : Fleet} {moves : List (Appending UInt8 × Env)} (onFile : f.OnFile ws s)
    (ran : run ws ⟨f, fun _ => none⟩ moves = some st') :
    (∃ zs, (∀ w, Appending.of w zs = Appending.of w (Appending.written (moves.map Prod.fst))) ∧
        st'.file ws s = file ws s ⟨f, fun _ => none⟩ ++ Appending.flat zs) ↔
      ¬ ∀ w, (Appending.of w (Appending.late (fun _ => false) (moves.map Prod.fst))).flatten ≠ [] := by
  have start : Tracks ws s ⟨f, fun _ => none⟩ (Appended.start (file ws s ⟨f, fun _ => none⟩)) := by
    refine ⟨onFile, fun w => ?_, fun {_} _ => rfl, fun {_ _} there => (by cases there),
      fun {_} there => (by cases there)⟩
    cases w with
    | true => rfl
    | false =>
      cases s with
      | node id => exact congrArg (fun g => (f.machine g).stored (.node id)) (onFile.own id rfl).symm
      | cell cell => rfl
      | file path => rfl
  obtain ⟨a', ran', tracks⟩ := start.run ran
  rw [file, tracks.file true]
  exact Appended.kept_iff ran'

section Poles

/-- Two guests have volume 0 mounted and open; one appends by each interface. -/
def sharedVolume : Fleet :=
  (start (fun _ => [.mount "log" (.volume 0) true]) .empty).run [
    ⟨0, .getDirectories, .quiet⟩, ⟨1, .getDirectories, .quiet⟩,
    ⟨0, .openAt 0 true "log" {}, .quiet⟩, ⟨1, .openAt 0 true "log" {}, .quiet⟩]

def eachOwn : Bool → Appender := fun third => ⟨if third then 1 else 0, 1, third⟩

theorem sharedVolume_onFile : sharedVolume.OnFile eachOwn (.cell 0) where
  writable := by decide
  inside := by simp
  own := by simp

/-- The second stream is opened once the first has written. -/
theorem appends_kept_iff_turns :
    ∃ st', run eachOwn ⟨sharedVolume, fun _ => none⟩ [(.opens false, .quiet), (.writes false [1], .quiet),
        (.opens true, .quiet), (.writes true [2], .quiet)] = some st' ∧
      ∃ zs, (∀ w, Appending.of w zs = if w then [[2]] else [[1]]) ∧ st'.file eachOwn (.cell 0) = [] ++ Appending.flat zs := by
  obtain ⟨st', ran⟩ := Option.isSome_iff_exists.1 (show (run eachOwn ⟨sharedVolume, fun _ => none⟩
    [(.opens false, .quiet), (.writes false [1], .quiet), (.opens true, .quiet), (.writes true [2], .quiet)]).isSome
    from by decide)
  obtain ⟨zs, chunks, kept⟩ := (appends_kept_iff sharedVolume_onFile ran).2 (by decide)
  refine ⟨st', ran, zs, fun w => (chunks w).trans ?_, kept⟩
  cases w <;> decide

/-- Both streams are open at the end of an empty volume, and each writes one byte: the
second over the first. -/
theorem append_overwritten : ¬ ∀ (f : Fleet) (ws : Bool → Appender) (s : Store)
    (moves : List (Appending UInt8 × Env)) (st' : Streams), f.OnFile ws s →
      run ws ⟨f, fun _ => none⟩ moves = some st' →
        ∃ zs, (∀ w, Appending.of w zs = Appending.of w (Appending.written (moves.map Prod.fst))) ∧
          st'.file ws s = file ws s ⟨f, fun _ => none⟩ ++ Appending.flat zs := by
  intro all
  let moves : List (Appending UInt8 × Env) :=
    [(.opens false, .quiet), (.opens true, .quiet), (.writes false [1], .quiet), (.writes true [2], .quiet)]
  have left : (run eachOwn ⟨sharedVolume, fun _ => none⟩ moves).map (file eachOwn (.cell 0)) = some [2] := by decide
  obtain ⟨st', ran, bytes⟩ := Option.map_eq_some_iff.1 left
  obtain ⟨zs, chunks, kept⟩ := all sharedVolume eachOwn (.cell 0) moves st' sharedVolume_onFile ran
  have before : file eachOwn (.cell 0) ⟨sharedVolume, fun _ => none⟩ = [] := by decide
  have size := congrArg List.length kept
  rw [bytes, before, List.nil_append, Appending.length_flat, chunks, chunks] at size
  exact absurd size (by decide)

end Poles

end Streams

end Wk.Vfs
