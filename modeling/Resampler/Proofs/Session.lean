import Resampler.Render

/-!
Contract: what is done to a voice from its making on.

Owns:
- the two kinds of action: a setting is adjusted, or a block is rendered;
- a session, which performs actions in order and stops at the first fault;
- calls, each of which sets a speed and renders one block at it.

Does not own: which sessions end without a fault.
-/

namespace Resampler

inductive Adjustment where
  | speed (speed : Float32)
  | method (method : Method)
  | settings (settings : Settings)
  | restart

/-- Something done to a voice: it is adjusted, or it renders into a block, by
its method when it is audible and as silence otherwise. -/
inductive Action where
  | adjust (adjustment : Adjustment)
  | render (audible looping : Bool) (block : Block)

/-- What a session leaves: a rendering for each block, in order, and the voice. -/
structure Performance where
  renderings : List Rendering
  voice : Voice

namespace Voice

def adjust (voice : Voice) : Adjustment → Voice
  | .speed speed => voice.setSpeed speed
  | .method method => voice.setMethod method
  | .settings settings => voice.configure settings
  | .restart => voice.restart

@[simp] theorem bounds_adjust (voice : Voice) (adjustment : Adjustment) :
    (voice.adjust adjustment).bounds = voice.bounds := by
  -- Said of any position: the start of the region is too large a number to compute with.
  have moved : ∀ position : Phase,
      ({ voice with position, looped := false } : Voice).bounds = voice.bounds := fun _ => rfl
  cases adjustment with
  | restart => exact moved _
  | _ => rfl

def render (voice : Voice) (data : SampleData) (audible looping : Bool) (block : Block) :
    Checked Rendering :=
  if audible then voice.interpolate data looping block else voice.silence data looping block

def kernel (voice : Voice) (audible : Bool) : Kernel :=
  if audible then voice.method.kernel else .silence

/-- Silence needs no more of a region than any method does. -/
theorem span_kernel_le (voice : Voice) (audible : Bool) :
    (voice.kernel audible).span ≤ voice.method.span := by
  cases audible with
  | true => exact Nat.le_refl _
  | false => exact Nat.zero_le _

theorem render_eq_kernel (data : SampleData) (voice : Voice) (audible looping : Bool)
    (block : Block) :
    voice.render data audible looping block =
      (voice.kernel audible).render data.read voice looping block := by
  cases audible <;> rfl

/-- A render call moves a voice, and may leave it turned, but changes nothing else. -/
theorem voice_eq_of_render {data : SampleData} {voice : Voice} {audible looping : Bool}
    {block : Block} {rendering : Rendering}
    (rendered : voice.render data audible looping block = .ok rendering) :
    rendering.voice =
      { voice with position := rendering.voice.position, looped := rendering.voice.looped } := by
  rw [render_eq_kernel] at rendered
  obtain ⟨course, _, rfl⟩ := Kernel.render_eq_ok_iff.1 rendered
  rfl

def perform (data : SampleData) (voice : Voice) : List Action → Checked Performance
  | [] => return ⟨[], voice⟩
  | .adjust adjustment :: actions => (voice.adjust adjustment).perform data actions
  | .render audible looping block :: actions => do
      let rendering ← voice.render data audible looping block
      let rest ← rendering.voice.perform data actions
      return ⟨rendering :: rest.renderings, rest.voice⟩

theorem perform_render_eq_ok_iff {data : SampleData} {voice : Voice} {audible looping : Bool}
    {block : Block} {actions : List Action} {performance : Performance} :
    voice.perform data (.render audible looping block :: actions) = .ok performance ↔
      ∃ rendering rest, voice.render data audible looping block = .ok rendering ∧
        rendering.voice.perform data actions = .ok rest ∧
        performance = ⟨rendering :: rest.renderings, rest.voice⟩ := by
  simp only [perform, Checked.bind_eq_ok_iff, Checked.pure_eq_ok_iff]
  constructor
  · rintro ⟨rendering, rendered, rest, performed, rfl⟩
    exact ⟨rendering, rest, rendered, performed, rfl⟩
  · rintro ⟨rendering, rest, rendered, performed, rfl⟩
    exact ⟨rendering, rendered, rest, performed, rfl⟩

/-- Whether the voice begins an audible block of a session in a given state,
before the session faults. -/
def Meets (data : SampleData) (State : Voice → Prop) (voice : Voice) : List Action → Prop
  | [] => False
  | .adjust adjustment :: actions => (voice.adjust adjustment).Meets data State actions
  | .render audible looping block :: actions =>
      audible = true ∧ State voice ∨
        ∃ rendering, voice.render data audible looping block = .ok rendering ∧
          rendering.voice.Meets data State actions

end Voice

namespace Action

def methods : Action → List Method
  | adjust (.method method) => [method]
  | adjust (.settings settings) => [settings.method]
  | _ => []

def speeds : Action → List Float32
  | adjust (.speed speed) => [speed]
  | adjust (.settings settings) => [settings.speed]
  | _ => []

end Action

structure Call where
  speed : Float32
  audible : Bool
  block : Block

namespace Call

def step (call : Call) : Nat := (Phase.ofSpeed call.speed).toNat

def actions (looping : Bool) (call : Call) : List Action :=
  [.adjust (.speed call.speed), .render call.audible looping call.block]

/-- A list of calls ends well when the first of them does and the others do
after it. -/
theorem perform_calls {data : SampleData} {voice : Voice} {looping : Bool} {call : Call}
    {calls : List Call} {rendering : Rendering} {rest : Performance}
    (rendered : (voice.setSpeed call.speed).render data call.audible looping call.block =
      .ok rendering)
    (performed : rendering.voice.perform data (calls.flatMap (actions looping)) = .ok rest) :
    voice.perform data ((call :: calls).flatMap (actions looping)) =
      .ok ⟨rendering :: rest.renderings, rest.voice⟩ := by
  rw [List.flatMap_cons, actions]
  exact Voice.perform_render_eq_ok_iff.2 ⟨rendering, rest, rendered, performed, rfl⟩

/-- Renderings that answer calls one by one, each from the unwrapped position to
which the slots filled before it have brought the voice. -/
inductive Answered (answer : Nat → Call → Rendering → Prop) : Nat → List Call → List Rendering → Prop
  where
  | nil {position : Nat} : Answered answer position [] []
  | cons {position : Nat} {call : Call} {calls : List Call} {rendering : Rendering}
      {renderings : List Rendering} (first : answer position call rendering)
      (rest : Answered answer (position + rendering.count * call.step) calls renderings) :
      Answered answer position (call :: calls) (rendering :: renderings)

theorem Answered.length_eq {answer : Nat → Call → Rendering → Prop} {position : Nat}
    {calls : List Call} {renderings : List Rendering}
    (answered : Answered answer position calls renderings) :
    renderings.length = calls.length := by
  induction answered with
  | nil => rfl
  | cons _ _ inductionHypothesis => simp [inductionHypothesis]

end Call

end Resampler
