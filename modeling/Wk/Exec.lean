/-
# Wk.Exec -- programs started from inside a node

A node's guest may run programs out of its own filesystem, and they may run programs in
turn.  What a program may do rests on its execution context: how deep it is, and a permit.
The node's permit is a flag it shares with the server, which writes it every tick; the
permit of a program started from the node is a flag of its own.

One call is one step, taken when it reads its permit: nothing after that reads it again.
A program started by `run` keeps its caller waiting until it has exited.  What children
read and write is left out, and so are the errors of `wait`.
-/
import Wk.Protocol
import Wk.Library.Run

namespace Wk.Exec

open Wk.Library

set_option autoImplicit false

/-- How deeply `run` may nest. -/
def MAX_DEPTH : Nat := 8

/-- `b"\0asm"`. -/
def magic : Bytes := [0x00, 0x61, 0x73, 0x6D]

/-- An `ExecPermit`, known by its place among the flags. -/
abbrev ExecPermit := Nat

structure ExecCtx where
  /-- Nesting depth of the caller: 0 for a node's own guest. -/
  depth : Nat
  permit : ExecPermit
  deriving DecidableEq, Repr

/-- A running program, known by its place in the order of starting. -/
abbrev ProgramId := Nat

/-- The node's own guest. -/
def guest : ProgramId := 0

inductive Status where
  | running
  /-- Inside `run`, until the child has exited. -/
  | waiting (child : ProgramId)
  | exited
  deriving DecidableEq, Repr

structure Program where
  exec : Option ExecCtx
  argv : List String
  status : Status := .running
  deriving DecidableEq, Repr

/-- Why the host could not start a program that was read. -/
inductive Fault where
  | component (e : String)
  | link (e : String)
  | thread (e : String)
  deriving DecidableEq, Repr

def Fault.text (name : String) : Fault → String
  | .component e => s!"{name}: not a runnable component: {e}"
  | .link e => s!"link program: {e}"
  | .thread e => s!"spawn child thread: {e}"

/-- What a call asks for and what it meets. -/
structure Call where
  path : String
  argv : List String := []
  /-- `fs.read_file(path)` on the caller's filesystem. -/
  file : Option Bytes
  /-- Whether every pipe end among its stdio is one the caller holds. -/
  pipes : Bool := true
  fault : Option Fault := none
  deriving DecidableEq, Repr

/-- An empty `argv` falls back to the path. -/
def Call.arguments (call : Call) : List String := if call.argv = [] then [call.path] else call.argv

inductive Outcome where
  | refused (e : String)
  /-- A handle the caller does not hold ends the caller. -/
  | trapped
  | started (child : ProgramId)
  deriving DecidableEq, Repr

/-- The programs started from one node, its guest the first, and their permits, the node's
the first. -/
structure Processes where
  permits : List Bool
  programs : List Program
  deriving DecidableEq, Repr

namespace Processes

/-- A node whose guest has just been started. -/
def node (allowed : Bool) : Processes where
  permits := [allowed]
  programs := [{ exec := some { depth := 0, permit := 0 }, argv := [] }]

/-- `permit.load`. -/
def load (s : Processes) (permit : ExecPermit) : Bool := s.permits[permit]?.getD false

/-- A program that can make a call now. -/
def running (s : Processes) (p : ProgramId) : Option Program :=
  s.programs[p]?.filter (·.status = .running)

/-- `program_bytes`. -/
def programBytes (s : Processes) (exec : Option ExecCtx) (call : Call) : Except String (ExecCtx × Bytes) :=
  match exec with
  | none => .error "wk:exec is not available in this context"
  | some ctx =>
    if !s.load ctx.permit then .error "this node's capability token does not grant exec"
    else if MAX_DEPTH ≤ ctx.depth then .error s!"too many nested wk:exec calls (limit {MAX_DEPTH})"
    else
      match call.file with
      | none => .error s!"{call.path}: no such file"
      | some wasm =>
        if wasm = [] then .error s!"{call.path}: empty file"
        else if !magic.isPrefixOf wasm then .error s!"{call.path}: not a wasm program"
        else .ok (ctx, wasm)

/-- A child among the programs, with a permit of its own, which is on. -/
def start (s : Processes) (argv : List String) (depth : Nat) : Processes where
  permits := s.permits ++ [true]
  programs := s.programs ++ [{ exec := some { depth, permit := s.permits.length }, argv }]

/-- `spawn_program`. -/
def spawnProgram (s : Processes) (argv : List String) (fault : Option Fault) (depth : Nat) :
    Except String (ProgramId × Processes) :=
  match fault with
  | some e => .error (e.text (argv.headD ""))
  | none => .ok (s.programs.length, s.start argv depth)

/-- The status of one program. -/
def setStatus (s : Processes) (p : ProgramId) (status : Status) : Processes :=
  { s with programs := s.programs.modify p fun program => { program with status } }

/-- `spawn`. -/
def spawn (s : Processes) (p : ProgramId) (exec : Option ExecCtx) (call : Call) : Outcome × Processes :=
  match s.programBytes exec call with
  | .error e => (.refused e, s)
  | .ok (ctx, _) =>
    if !call.pipes then (.trapped, s.setStatus p .exited)
    else
      match s.spawnProgram call.arguments call.fault (ctx.depth + 1) with
      | .error e => (.refused e, s)
      | .ok (child, s) => (.started child, s)

/-- `run`: the same checks, written out a second time, and no pipes. -/
def run (s : Processes) (p : ProgramId) (exec : Option ExecCtx) (call : Call) : Outcome × Processes :=
  match exec with
  | none => (.refused "wk:exec is not available in this context", s)
  | some ctx =>
    if !s.load ctx.permit then
      (.refused "this node's capability token does not grant exec", s)
    else if MAX_DEPTH ≤ ctx.depth then
      (.refused s!"too many nested wk:exec calls (limit {MAX_DEPTH})", s)
    else
      match call.file with
      | none => (.refused s!"{call.path}: no such file", s)
      | some wasm =>
        if wasm = [] then (.refused s!"{call.path}: empty file", s)
        else if !magic.isPrefixOf wasm then (.refused s!"{call.path}: not a wasm program", s)
        else
          match s.spawnProgram call.arguments call.fault (ctx.depth + 1) with
          | .error e => (.refused e, s)
          | .ok (child, s) => (.started child, s.setStatus p (.waiting child))

/-- A program ends; whoever ran it goes on. -/
def exit (s : Processes) (p : ProgramId) : Processes :=
  { s with
    programs := (s.setStatus p .exited).programs.map fun program =>
      if program.status = .waiting p then { program with status := .running } else program }

end Processes

/-- What happens, in any order. -/
inductive Event where
  /-- `sync_exec`: the server writes its token decision to the node's permit. -/
  | refresh (allowed : Bool)
  | spawn (p : ProgramId) (call : Call)
  | run (p : ProgramId) (call : Call)
  | exit (p : ProgramId)
  deriving DecidableEq, Repr

namespace Processes

def step (s : Processes) : Event → Processes
  | .refresh allowed => { s with permits := s.permits.set 0 allowed }
  | .spawn p call => ((s.running p).map fun program => (s.spawn p program.exec call).2).getD s
  | .run p call => ((s.running p).map fun program => (s.run p program.exec call).2).getD s
  | .exit p => ((s.running p).map fun _ => s.exit p).getD s

/-! ## What one step can do -/

/-- The execution contexts of the programs. -/
def contexts (s : Processes) : List (Option ExecCtx) := s.programs.map (·.exec)

@[simp] theorem contexts_setStatus (s : Processes) (p : ProgramId) (status : Status) :
    (s.setStatus p status).contexts = s.contexts := by
  refine List.ext_getElem? fun i => ?_
  simp only [contexts, setStatus, List.getElem?_map, List.getElem?_modify]
  cases s.programs[i]? <;> split <;> rfl

@[simp] theorem permits_setStatus (s : Processes) (p : ProgramId) (status : Status) :
    (s.setStatus p status).permits = s.permits := rfl

@[simp] theorem contexts_exit (s : Processes) (p : ProgramId) : (s.exit p).contexts = s.contexts := by
  rw [← contexts_setStatus s p .exited]
  simp only [contexts, exit, List.map_map]
  refine List.map_congr_left fun program _ => ?_
  simp only [Function.comp_apply]
  split <;> rfl

@[simp] theorem contexts_start (s : Processes) (argv : List String) (depth : Nat) :
    (s.start argv depth).contexts = s.contexts ++ [some { depth, permit := s.permits.length }] := by
  simp [contexts, start]

end Processes

/-- The call's program can be read and the host can start it. -/
def Call.runnable (call : Call) : Bool := call.file.any magic.isPrefixOf && call.fault.isNone

/-- Which program asks for a child that nothing but its own context can deny it. -/
def Event.asks : Event → Option ProgramId
  | .spawn p call => if call.runnable && call.pipes then some p else none
  | .run p call => if call.runnable then some p else none
  | .refresh _ | .exit _ => none

namespace Processes

variable (s : Processes)

/-- The checks pass for a program that is there, at a permit that is on, above the limit. -/
theorem programBytes_ok_iff {exec : Option ExecCtx} {call : Call} {ctx : ExecCtx} {wasm : Bytes} :
    s.programBytes exec call = .ok (ctx, wasm) ↔
      exec = some ctx ∧ s.load ctx.permit = true ∧ ctx.depth < MAX_DEPTH ∧
        call.file = some wasm ∧ magic.isPrefixOf wasm = true := by
  fun_cases programBytes s exec call <;> grind [magic]

/-- `run` makes the checks of `spawn`, with the same refusals. -/
theorem run_checks (p : ProgramId) (exec : Option ExecCtx) (call : Call) :
    s.run p exec call =
      match s.programBytes exec call with
      | .error e => (.refused e, s)
      | .ok (ctx, _) =>
        match s.spawnProgram call.arguments call.fault (ctx.depth + 1) with
        | .error e => (.refused e, s)
        | .ok (child, s) => (.started child, s.setStatus p (.waiting child)) := by
  fun_cases programBytes s exec call <;> simp [run, *]

/-- The context lets the program be started: its permit is on and it is above the limit. -/
def Allows (ctx : ExecCtx) : Prop := s.load ctx.permit = true ∧ ctx.depth < MAX_DEPTH

/-- A step that starts a program: who asked for it, and with what context. -/
def Begins (e : Event) (p : ProgramId) (ctx : ExecCtx) : Prop :=
  e.asks = some p ∧ (∃ program, s.running p = some program ∧ program.exec = some ctx) ∧ s.Allows ctx

/-- The checks pass, or the context or the file stands in the way. -/
theorem programBytes_cases (exec : Option ExecCtx) (call : Call) :
    (∃ ctx wasm, s.programBytes exec call = .ok (ctx, wasm) ∧ exec = some ctx ∧ s.Allows ctx ∧
      call.file.any magic.isPrefixOf = true) ∨
    ∃ e, s.programBytes exec call = .error e ∧
      ∀ ctx, exec = some ctx → s.Allows ctx → call.file.any magic.isPrefixOf = false := by
  cases checks : s.programBytes exec call with
  | error e =>
    refine .inr ⟨e, rfl, fun ctx held allows => ?_⟩
    by_contra runs
    obtain ⟨wasm, found, program⟩ := (Option.any_eq_true _ _).1 (Bool.not_eq_false _ ▸ runs)
    rw [s.programBytes_ok_iff.2 ⟨held, allows.1, allows.2, found, program⟩] at checks
    cases checks
  | ok passed =>
    obtain ⟨ctx, wasm⟩ := passed
    obtain ⟨held, on, shallow, found, program⟩ := s.programBytes_ok_iff.1 checks
    exact .inl ⟨ctx, wasm, rfl, held, ⟨on, shallow⟩, by simp [found, program]⟩

/-- What a call that has passed the checks goes on to do. -/
theorem spawnProgram_cases (argv : List String) (fault : Option Fault) (depth : Nat) :
    (fault.isNone = true ∧ s.spawnProgram argv fault depth = .ok (s.programs.length, s.start argv depth)) ∨
    fault.isNone = false ∧ ∃ e, s.spawnProgram argv fault depth = .error e := by
  cases fault with
  | none => exact .inl ⟨rfl, rfl⟩
  | some e => exact .inr ⟨rfl, _, rfl⟩

/-- `spawn` starts one program, or leaves permits and contexts alone. -/
theorem spawn_cases (p : ProgramId) (exec : Option ExecCtx) (call : Call) :
    (∃ ctx, exec = some ctx ∧ s.Allows ctx ∧ (call.runnable && call.pipes) = true ∧
      (s.spawn p exec call).2 = s.start call.arguments (ctx.depth + 1)) ∨
    ((∀ ctx, exec = some ctx → s.Allows ctx → (call.runnable && call.pipes) = false) ∧
      (s.spawn p exec call).2.contexts = s.contexts ∧ (s.spawn p exec call).2.permits = s.permits) := by
  unfold spawn Call.runnable
  rcases s.programBytes_cases exec call with ⟨ctx, wasm, checks, held, allows, file⟩ | ⟨e, checks, never⟩
  · cases pipes : call.pipes with
    | false => exact .inr ⟨fun _ _ _ => Bool.and_false _, by simp [checks], by simp [checks]⟩
    | true =>
      rcases s.spawnProgram_cases call.arguments call.fault (ctx.depth + 1)
        with ⟨sane, begun⟩ | ⟨faulty, e, failed⟩
      · exact .inl ⟨ctx, held, allows, by simp [file, sane], by simp [checks, begun]⟩
      · exact .inr ⟨fun _ _ _ => by simp [faulty], by simp [checks, failed], by simp [checks, failed]⟩
  · exact .inr ⟨fun ctx held allows => by simp [never ctx held allows], by simp [checks], by simp [checks]⟩

/-- `run` starts one program, or changes nothing. -/
theorem run_cases (p : ProgramId) (exec : Option ExecCtx) (call : Call) :
    (∃ ctx, exec = some ctx ∧ s.Allows ctx ∧ call.runnable = true ∧
      (s.run p exec call).2 =
        (s.start call.arguments (ctx.depth + 1)).setStatus p (.waiting s.programs.length)) ∨
    ((∀ ctx, exec = some ctx → s.Allows ctx → call.runnable = false) ∧ (s.run p exec call).2 = s) := by
  rw [run_checks]
  unfold Call.runnable
  rcases s.programBytes_cases exec call with ⟨ctx, wasm, checks, held, allows, file⟩ | ⟨e, checks, never⟩
  · rcases s.spawnProgram_cases call.arguments call.fault (ctx.depth + 1)
      with ⟨sane, begun⟩ | ⟨faulty, e, failed⟩
    · exact .inl ⟨ctx, held, allows, by simp [file, sane], by simp [checks, begun]⟩
    · exact .inr ⟨fun _ _ _ => by simp [faulty], by simp [checks, failed]⟩
  · exact .inr ⟨fun ctx held allows => by simp [never ctx held allows], by simp [checks]⟩

theorem not_begins {e : Event} {p : ProgramId} {startable : Bool}
    (asks : e.asks = if startable then some p else none)
    (denied : ∀ program, s.running p = some program → ∀ ctx, program.exec = some ctx → s.Allows ctx →
      startable = false) (q : ProgramId) (ctx : ExecCtx) : ¬ s.Begins e q ctx := by
  rintro ⟨asked, ⟨program, caller, held⟩, allows⟩
  rw [asks] at asked
  split at asked
  · next startable =>
      cases asked
      exact Bool.false_ne_true ((denied program caller ctx held allows).symm.trans startable)
  · cases asked

/-- Everything a step can do to the permits and the contexts: start the one program that was
asked for, or write the node's permit, or neither. -/
theorem step_cases (e : Event) :
    (∃ p ctx, s.Begins e p ctx ∧
      (s.step e).contexts = s.contexts ++ [some { depth := ctx.depth + 1, permit := s.permits.length }] ∧
      (s.step e).permits = s.permits ++ [true]) ∨
    ((∀ p ctx, ¬ s.Begins e p ctx) ∧ (s.step e).contexts = s.contexts ∧
      ((s.step e).permits = s.permits ∨ ∃ allowed, (s.step e).permits = s.permits.set 0 allowed)) := by
  cases e with
  | refresh allowed => exact .inr ⟨fun _ _ begins => (by cases begins.1), rfl, .inr ⟨allowed, rfl⟩⟩
  | spawn p call =>
    cases caller : s.running p with
    | none =>
      have still : s.step (.spawn p call) = s := by simp [step, caller]
      rw [still]
      exact .inr ⟨s.not_begins rfl (fun program running => by cases caller.symm.trans running), rfl, .inl rfl⟩
    | some program =>
      have stepped : s.step (.spawn p call) = (s.spawn p program.exec call).2 := by simp [step, caller]
      rw [stepped]
      rcases s.spawn_cases p program.exec call with ⟨ctx, held, allows, asked, begun⟩ | ⟨never, contexts, permits⟩
      · rw [begun]
        exact .inl ⟨p, ctx, ⟨by simp [Event.asks, asked], ⟨program, caller, held⟩, allows⟩, by simp, rfl⟩
      · refine .inr ⟨s.not_begins rfl fun program' running => ?_, contexts, .inl permits⟩
        cases caller.symm.trans running
        exact never
  | run p call =>
    cases caller : s.running p with
    | none =>
      have still : s.step (.run p call) = s := by simp [step, caller]
      rw [still]
      exact .inr ⟨s.not_begins rfl (fun program running => by cases caller.symm.trans running), rfl, .inl rfl⟩
    | some program =>
      have stepped : s.step (.run p call) = (s.run p program.exec call).2 := by simp [step, caller]
      rw [stepped]
      rcases s.run_cases p program.exec call with ⟨ctx, held, allows, asked, begun⟩ | ⟨never, unchanged⟩
      · rw [begun]
        exact .inl ⟨p, ctx, ⟨by simp [Event.asks, asked], ⟨program, caller, held⟩, allows⟩, by simp, rfl⟩
      · rw [unchanged]
        refine .inr ⟨s.not_begins rfl fun program' running => ?_, rfl, .inl rfl⟩
        cases caller.symm.trans running
        exact never
  | exit p =>
    refine .inr ⟨fun _ _ begins => (by cases begins.1), ?_⟩
    simp only [step]
    cases s.running p with
    | none => exact ⟨rfl, .inl rfl⟩
    | some program => exact ⟨s.contexts_exit p, .inl rfl⟩

/-! ## Depth and revocation -/

/-- A context as the program at `p` has it: only the node's guest holds the node's permit,
every other program has one of its own, which is on, and none is too deep. -/
structure Placed (p : ProgramId) (ctx : ExecCtx) : Prop where
  shallow : ctx.depth ≤ MAX_DEPTH
  shared : p = guest ↔ ctx.permit = 0
  own : p ≠ guest → s.load ctx.permit = true

structure Sound : Prop where
  permits : 0 < s.permits.length
  programs : 0 < s.contexts.length
  placed : ∀ p ctx, s.contexts[p]? = some (some ctx) → s.Placed p ctx

theorem sound_node (allowed : Bool) : (node allowed).Sound where
  permits := Nat.one_pos
  programs := Nat.one_pos
  placed p ctx there := by
    cases p with
    | zero =>
      cases there
      exact ⟨by decide, by decide, fun other => absurd rfl other⟩
    | succ p => cases there

variable {s}

theorem context_of_running {p : ProgramId} {program : Program} (running : s.running p = some program) :
    s.contexts[p]? = some program.exec := by
  obtain ⟨there, -⟩ := Option.filter_eq_some_iff.1 running
  rw [contexts, List.getElem?_map, there]
  rfl

theorem Sound.step (sound : s.Sound) (e : Event) : (s.step e).Sound := by
  rcases s.step_cases e with ⟨p, ctx, ⟨-, -, allows⟩, contexts, permits⟩ | ⟨-, contexts, permits⟩
  · refine ⟨by simp [permits], by simp [contexts], fun q held there => ?_⟩
    rw [contexts, List.getElem?_append] at there
    split at there
    · have placed := sound.placed q held there
      refine ⟨placed.shallow, placed.shared, fun other => ?_⟩
      have on := placed.own other
      simp only [load, permits] at on ⊢
      grind
    · -- the new program: its permit is the new flag
      obtain ⟨rfl, rfl⟩ : q = s.contexts.length ∧ held = { depth := ctx.depth + 1, permit := s.permits.length } := by
        grind
      exact ⟨allows.2, iff_of_false (Nat.ne_of_gt sound.programs) (Nat.ne_of_gt sound.permits),
        fun _ => by simp [load, permits]⟩
  · have same : (s.step e).permits.length = s.permits.length ∧ ∀ q, q ≠ 0 → (s.step e).load q = s.load q := by
      rcases permits with permits | ⟨allowed, permits⟩
      · exact ⟨by rw [permits], fun q _ => by rw [load, permits, load]⟩
      · exact ⟨by simp [permits], fun q other => by simp [load, permits, List.getElem?_set_ne other.symm]⟩
    refine ⟨same.1 ▸ sound.permits, contexts ▸ sound.programs, fun q held there => ?_⟩
    have placed := sound.placed q held (contexts ▸ there)
    exact ⟨placed.shallow, placed.shared, fun other =>
      (same.2 _ fun shared => other (placed.shared.2 shared)).trans (placed.own other)⟩

/-- Once the node's permit is off, the step starts no program. -/
def Revoked (s : Processes) (e : Event) : Prop :=
  s.load 0 = false → (s.step e).programs.length = s.programs.length

/-- Once the node's permit is off, no descendant of its guest asks for a program that is
there and can be started, but at the deepest level. -/
def Confined (s : Processes) (e : Event) : Prop :=
  s.load 0 = false → ∀ p program ctx, e.asks = some p → s.running p = some program →
    program.exec = some ctx → ctx.depth < MAX_DEPTH → p = guest

theorem Sound.revoked_iff (sound : s.Sound) (e : Event) : s.Revoked e ↔ s.Confined e := by
  have counted : ∀ t : Processes, t.programs.length = t.contexts.length := fun t => by simp [contexts]
  unfold Revoked Confined
  rw [counted, counted]
  refine forall_congr' fun off => ?_
  rcases s.step_cases e with ⟨p, ctx, ⟨asks, ⟨program, running, held⟩, on, above⟩, contexts, -⟩ |
    ⟨never, contexts, -⟩
  · -- a program is started: the node's own guest could not have, its permit being off
    refine iff_of_false (by simp [contexts]) fun confined => ?_
    have placed := sound.placed p ctx (held ▸ context_of_running running)
    rw [placed.shared.1 (confined p program ctx asks running held above), off] at on
    cases on
  · refine iff_of_true (by rw [contexts]) fun p program ctx asks running held above => ?_
    by_contra other
    have placed := sound.placed p ctx (held ▸ context_of_running running)
    exact never p ctx ⟨asks, ⟨program, running, held⟩, placed.own other, above⟩

/-- **Depth is bounded; revocation reaches the node's own guest and no further.**  Whatever
programs the guest and its descendants start, and whenever the server writes the node's
permit, no program is deeper than the limit, and nothing is started while the permit is off
exactly when no descendant asks for a program it could be given. -/
theorem revocation_reaches_iff (allowed : Bool) (events : List Event) :
    (∀ program ∈ (events.foldl step (node allowed)).programs, ∀ ctx, program.exec = some ctx →
      ctx.depth ≤ MAX_DEPTH) ∧
    (Along step Revoked (node allowed) events ↔ Along step Confined (node allowed) events) := by
  constructor
  · intro program member ctx held
    have sound := List.foldlRecOn (motive := Sound) events step (sound_node allowed)
      fun _ sound e _ => sound.step e
    obtain ⟨p, there⟩ := List.mem_iff_getElem?.1 member
    refine (sound.placed p ctx ?_).shallow
    rw [contexts, List.getElem?_map, there, ← held]
    rfl
  · exact along_congr (fun _ e sound => Sound.step sound e) (fun _ e sound => sound.revoked_iff e)
      (sound_node allowed)

/-- A script the guest runs starts another program after the node's permit has been turned
off: its own permit is still on.  Of the programs' bytes only a component's header is given. -/
def orphan : List Event :=
  let script : Call := { path := "/bin/sh.wasm", file := some (magic ++ [0x0D, 0x00, 0x01, 0x00]) }
  [.run guest script, .refresh false, .spawn 1 script]

theorem orphan_starts : ¬ Along step Revoked (node true) orphan := by
  rintro ⟨-, -, revoked, -⟩
  exact absurd (revoked (by decide)) (by decide)

end Processes
end Wk.Exec
