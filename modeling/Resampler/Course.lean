import Resampler.Block
import Resampler.Fault
import Resampler.Phase

/-!
Contract: how far a render call has come.

Owns:
- the slots filled so far, each with the number of times the voice turned back
  on the way to it;
- the two events of a render call: a slot is filled, and the voice turns back
  by one loop;
- the effort that is left, which bounds every render call.

Does not own: which of the two events comes next, or the value of a slot.
-/

namespace Resampler

/-- A filled slot. `turns` counts how often the voice turned back since the
slot before it. -/
structure Slot where
  turns : Nat
  sample : Float32
deriving DecidableEq

/-- A render call under way: the slots in order of time, the turns since the
last of them, the located position, and whether the voice has ever turned. -/
structure Course where
  slots : Array Slot
  turns : Nat
  position : Phase
  looped : Bool
deriving DecidableEq

namespace Course

def begin (position : Phase) (looped : Bool) : Course := ⟨#[], 0, position, looped⟩

def left (course : Course) : Nat := blockSize - course.slots.size

def samples (course : Course) : List Float32 := course.slots.toList.map Slot.sample

def totalTurns (course : Course) : Nat :=
  course.slots.foldr (fun slot turns => slot.turns + turns) course.turns

def emit (course : Course) (step : Phase) (sample : Float32) : Course :=
  { course with
    slots := course.slots.push ⟨course.turns, sample⟩
    turns := 0
    position := course.position + step }

def turn (course : Course) (length : Nat) : Course :=
  { course with
    turns := course.turns + 1
    position := course.position - .ofIndex length
    looped := true }

/-- A measure of what is left to do: slots first, then the first turn, then the
position. -/
def effort (course : Course) : Nat :=
  (2 * course.left + if course.looped then 0 else 1) * UInt64.size + course.position.toNat

/-- Whether a course has less left to do than an earlier one: it filled a slot,
or it turned for the first time, or it stands at an earlier position. -/
def progressed (course earlier : Course) : Bool :=
  course.left < earlier.left ||
    course.left == earlier.left &&
      (course.looped && !earlier.looped ||
        course.looped == earlier.looped && course.position < earlier.position)

theorem progressed_iff {course earlier : Course} :
    course.progressed earlier = true ↔ course.effort < earlier.effort := by
  have : course.position.toNat < UInt64.size := course.position.bits.toNat_lt
  have : earlier.position.toNat < UInt64.size := earlier.position.bits.toNat_lt
  simp only [progressed, effort, Bool.or_eq_true, Bool.and_eq_true, decide_eq_true_eq, beq_iff_eq,
    Phase.lt_iff_toNat_lt, UInt64.size] at *
  cases course.looped <;> cases earlier.looped <;> simp <;> omega

@[simp] theorem length_samples (course : Course) : course.samples.length = course.slots.size := by
  simp [samples]

@[simp] theorem samples_begin (position : Phase) (looped : Bool) :
    (begin position looped).samples = [] := rfl

@[simp] theorem samples_emit (course : Course) (step : Phase) (sample : Float32) :
    (course.emit step sample).samples = course.samples ++ [sample] := by
  simp [samples, emit]

@[simp] theorem samples_turn (course : Course) (length : Nat) :
    (course.turn length).samples = course.samples := rfl

@[simp] theorem totalTurns_emit (course : Course) (step : Phase) (sample : Float32) :
    (course.emit step sample).totalTurns = course.totalTurns := by
  simp [totalTurns, emit]

@[simp] theorem totalTurns_turn (course : Course) (length : Nat) :
    (course.turn length).totalTurns = course.totalTurns + 1 := by
  have more : ∀ (slots : List Slot) (turns : Nat),
      slots.foldr (fun slot turns => slot.turns + turns) (turns + 1) =
        slots.foldr (fun slot turns => slot.turns + turns) turns + 1 := by
    intro slots turns
    induction slots with
    | nil => rfl
    | cons slot slots inductionHypothesis =>
        rw [List.foldr_cons, List.foldr_cons, inductionHypothesis, Nat.add_assoc]
  simp only [totalTurns, turn, ← Array.foldr_toList, more]

@[simp] theorem size_emit (course : Course) (step : Phase) (sample : Float32) :
    (course.emit step sample).slots.size = course.slots.size + 1 := by
  simp [emit]

theorem left_emit (course : Course) (step : Phase) (sample : Float32) :
    (course.emit step sample).left = course.left - 1 := by
  simp [left, emit]
  omega

@[simp] theorem position_emit (course : Course) (step : Phase) (sample : Float32) :
    (course.emit step sample).position = course.position + step := rfl

@[simp] theorem looped_emit (course : Course) (step : Phase) (sample : Float32) :
    (course.emit step sample).looped = course.looped := rfl

@[simp] theorem position_turn (course : Course) (length : Nat) :
    (course.turn length).position = course.position - .ofIndex length := rfl

@[simp] theorem looped_turn (course : Course) (length : Nat) :
    (course.turn length).looped = true := rfl

@[simp] theorem left_turn (course : Course) (length : Nat) :
    (course.turn length).left = course.left := rfl

end Course

end Resampler
