/-
# Wk.Dockerfile.Stages -- the stages of a parsed text

The stages are cut out of the instructions by the indices of their `FROM`s.

* `stages_eq`: no index is past the end and no stage starts at anything else; what is cut out is
  what a build runs.
* `stages_whole`: every instruction after the first `FROM` is in one stage, in order.
-/
import Wk.Dockerfile

namespace Wk.Dockerfile

open Wk.Images (Instr Stage)

set_option autoImplicit false

/-! ## Stages by recursion -/

theorem starts_cons (instr : Instr) (rest : List Instr) :
    starts (instr :: rest) = (if instr.isFrom then [0] else []) ++ (starts rest).map (· + 1) := by
  have later : ((rest.zipIdx 1).filter fun entry => entry.1.isFrom).map (·.2) = (starts rest).map (· + 1) := by
    rw [starts, List.zipIdx_succ, List.filter_map, List.map_map, List.map_map]
    rfl
  rw [starts, List.zipIdx_cons, List.filter_cons]
  split <;> simp [later]

/-- The first start is behind what no stage starts with. -/
theorem starts_head (rest : List Instr) :
    (starts rest).head?.getD rest.length = (rest.takeWhile fun instr => !instr.isFrom).length := by
  induction rest with
  | nil => rfl
  | cons instr rest ih =>
    rw [starts_cons]
    cases from_ : instr.isFrom with
    | true => simp [from_]
    | false =>
      simp only [Bool.false_eq_true, if_false, List.nil_append, List.head?_map, List.length_cons, Bool.not_false,
        List.takeWhile_cons_of_pos, from_, ← ih]
      cases (starts rest).head? <;> rfl

/-- A stage of later instructions, its indices one lower. -/
theorem stageAt_succ (instr : Instr) (rest : List Instr) (start : Nat) (next : Option Nat) :
    stageAt (instr :: rest) (start + 1) (next.map (· + 1)) = stageAt rest start next := by
  rw [stageAt, stageAt, List.getElem?_cons_succ]
  cases next <;> simp

/-- Each start with the next. -/
def spans : List Nat → List (Nat × Option Nat)
  | [] => []
  | start :: later => (start, later.head?) :: spans later

theorem spans_map (ss : List Nat) : spans (ss.map (· + 1)) = (spans ss).map fun span => (span.1 + 1, span.2.map (· + 1)) := by
  induction ss with
  | nil => rfl
  | cons s ss ih => simp [spans, ih]

theorem zipIdx_spans (ss : List Nat) : ss.zipIdx.map (fun entry => (entry.1, ss[entry.2 + 1]?)) = spans ss := by
  suffices ∀ (done ss : List Nat), (ss.zipIdx done.length).map (fun entry => (entry.1, (done ++ ss)[entry.2 + 1]?)) = spans ss from
    this [] ss
  intro done ss
  induction ss generalizing done with
  | nil => rfl
  | cons s ss ih =>
    have rest := ih (done ++ [s])
    rw [List.length_append, List.length_singleton, List.append_assoc, List.singleton_append] at rest
    rw [List.zipIdx_cons, List.map_cons, rest, spans]
    simp [List.getElem?_append_right, List.head?_eq_getElem?]

theorem stages_spans (d : Dockerfile) :
    d.stages = (spans (starts d.instructions)).mapM fun span => stageAt d.instructions span.1 span.2 := by
  rw [stages, ← zipIdx_spans, List.mapM_map]
  rfl

/-- **The stages of a build**: every index is that of a `FROM`, and the stages cut out are those a
build runs. -/
theorem stages_eq (d : Dockerfile) : d.stages = some (Images.stages d.instructions) := by
  rw [stages_spans]
  generalize d.instructions = is
  induction is with
  | nil => rfl
  | cons instr rest ih =>
    have later : ((spans (starts rest)).map fun span => (span.1 + 1, span.2.map (· + 1))).mapM
        (fun span => stageAt (instr :: rest) span.1 span.2) = some (Images.stages rest) := by
      rw [← ih, List.mapM_map]
      congr 1
      funext span
      exact stageAt_succ instr rest span.1 span.2
    rw [starts_cons]
    cases from_ : instr.isFrom with
    | true =>
      cases instr with
      | from_ image alias_ =>
        have first : stageAt (.from_ image alias_ :: rest) 0 ((starts rest).head?.map (· + 1)) =
            some ⟨image, alias_, rest.takeWhile fun instr => !instr.isFrom⟩ := by
          have cutOff : rest.take (rest.takeWhile fun instr => !instr.isFrom).length =
              rest.takeWhile fun instr => !instr.isFrom := (List.prefix_iff_eq_take.1 (List.takeWhile_prefix _)).symm
          rw [← cutOff, ← starts_head]
          cases (starts rest).head? <;> simp [stageAt]
        simp only [if_true, List.singleton_append, spans, List.head?_map, List.mapM_cons, spans_map]
        rw [first, later]
        rfl
      | _ => cases from_
    | false =>
      simp only [Bool.false_eq_true, if_false, List.nil_append, spans_map]
      rw [later]
      cases instr with
      | from_ image alias_ => cases from_
      | _ => rfl

/-! ## The partition -/

/-- The instructions of a stage, with its `FROM`. -/
def ofStage (stage : Stage) : List Instr := .from_ stage.image stage.alias_ :: stage.instructions

/-- The image and alias of a `FROM`. -/
def fromParts : Instr → Option (String × Option String)
  | .from_ image alias_ => some (image, alias_)
  | _ => none

theorem stages_takeWhile (is : List Instr) :
    (Images.stages is).flatMap ofStage = is.dropWhile fun instr => !instr.isFrom := by
  induction is with
  | nil => rfl
  | cons instr rest ih =>
    cases instr with
    | from_ image alias_ =>
      have parts := List.takeWhile_append_dropWhile (p := fun instr : Instr => !instr.isFrom) (l := rest)
      simp only [Images.stages, List.flatMap_cons, ofStage, ih, List.cons_append, parts]
      rfl
    | _ => exact ih

/-- **Stages**: the instructions after the first `FROM` are those of the stages, in order; a stage
has no other `FROM` than its own; and there is one stage for each, with its image and alias. -/
theorem stages_whole (d : Dockerfile) :
    ∃ stages, d.stages = some stages ∧
      stages.flatMap ofStage = d.instructions.dropWhile (fun instr => !instr.isFrom) ∧
      (∀ stage ∈ stages, ∀ instr ∈ stage.instructions, instr.isFrom = false) ∧
      stages.map (fun stage => (stage.image, stage.alias_)) = d.instructions.filterMap fromParts := by
  refine ⟨_, stages_eq d, stages_takeWhile d.instructions, ?_, ?_⟩
  · generalize d.instructions = is
    induction is with
    | nil => simp [Images.stages]
    | cons instr rest ih =>
      cases instr with
      | from_ image alias_ =>
        rintro stage at_ instr inside
        rcases List.mem_cons.1 at_ with rfl | at_
        · simpa using List.mem_takeWhile_imp inside
        · exact ih stage at_ instr inside
      | _ => exact ih
  · generalize d.instructions = is
    induction is with
    | nil => rfl
    | cons instr rest ih =>
      cases instr with
      | from_ image alias_ => simp [Images.stages, fromParts, ih]
      | _ => exact ih

end Wk.Dockerfile
