import Resampler.Scene
import Resampler.Voice

/-!
Contract: render calls on a voice.

Owns:
- the course of a voice through one block, for each kernel;
- the block, the count of slots written, and the voice after the call;
- the two entry points: the voice's own method, and silence.

Does not own: what happens between calls.
-/

namespace Resampler

/-- What a render call leaves: the number of slots it wrote, fewer than a
block only when a voice that does not loop came to its end, the block, and the
voice. -/
structure Rendering where
  count : Nat
  block : Block
  voice : Voice

namespace Kernel

/-- The course of a voice through one block, its position located as the
kernel locates it. -/
def course (kernel : Kernel) (read : Reader) (voice : Voice) (looping : Bool) :
    Checked Course := do
  let scene ← Scene.prepare kernel read voice.bounds looping voice.step
  let head ← scene.readHead voice.looped
  scene.laps head (.begin (voice.position + kernel.shift) voice.looped)

def render (kernel : Kernel) (read : Reader) (voice : Voice) (looping : Bool)
    (block : Block) : Checked Rendering := do
  let course ← kernel.course read voice looping
  return {
    count := course.slots.size
    block := block.overwrite course.samples
    voice := { voice with position := course.position - kernel.shift, looped := course.looped } }

/-- A render call ends well when it has a course, and leaves what the course says. -/
theorem render_eq_ok_iff {kernel : Kernel} {read : Reader} {voice : Voice} {looping : Bool}
    {block : Block} {rendering : Rendering} :
    kernel.render read voice looping block = .ok rendering ↔
      ∃ course, kernel.course read voice looping = .ok course ∧
        rendering = ⟨course.slots.size, block.overwrite course.samples,
          { voice with position := course.position - kernel.shift, looped := course.looped }⟩ := by
  simp only [render, Checked.bind_eq_ok_iff, Checked.pure_eq_ok_iff]
  exact exists_congr fun _ => and_congr_right fun _ => eq_comm

end Kernel

namespace Voice

def interpolate (voice : Voice) (data : SampleData) (looping : Bool) (block : Block) :
    Checked Rendering :=
  voice.method.kernel.render data.read voice looping block

/-- Writes zeros, and moves the voice on as the nearest sample would. -/
def silence (voice : Voice) (data : SampleData) (looping : Bool) (block : Block) :
    Checked Rendering :=
  Kernel.silence.render data.read voice looping block

end Voice

end Resampler
