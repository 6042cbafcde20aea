import Resampler.Proofs.Scene.Companion
import Resampler.Proofs.Session

/-!
Contract: what a voice plays does not decide how it moves.

Owns:
- two computations that come to the same fault or to related results, and never end
  alike, which is a fault of its own;
- two render calls that differ in the samples they read alone: they fault alike,
  and fill as many slots and leave the same voice otherwise;
- the same for sessions, action by action, each into blocks of its own;
- the same for the state in which a session meets its audible blocks.

Nothing is asked of the voice or its bounds. Of the data only the number of samples
counts, not the samples, nor how many bits they have.

Does not own: the samples in the slots.
-/

namespace Resampler

namespace Checked

/-- The same fault, or related results. A call that never ends has the fault `stalled`, which no
other call has, so it is like another only when that one never ends either. -/
def Alike {α β : Type} (Related : α → β → Prop) : Checked α → Checked β → Prop
  | .ok first, .ok second => Related first second
  | .error first, .error second => first = second
  | _, _ => False

/-- Computations are alike when the first leads the second and no fault is excused. -/
theorem alike_iff_leads {α β : Type} {Related : α → β → Prop} {first : Checked α}
    {second : Checked β} : Alike Related first second ↔ Leads (fun _ => False) Related first second := by
  cases first <;> cases second <;> simp [Alike, Leads]

end Checked

open Checked

def Reader.Alike (read other : Reader) : Prop :=
  ∀ index, Checked.Alike (fun _ _ => True) (read index) (other index)

theorem SampleData.read_alike {data other : SampleData} (size : data.size = other.size) :
    data.read.Alike other.read := by
  intro index
  have stored := data.integer?_isSome_iff index
  have otherStored := other.integer?_isSome_iff index
  simp only [read]
  cases found : data.integer? index with
  | none =>
      have missing : other.integer? index = none := by
        rw [← Option.not_isSome_iff_eq_none, otherStored, ← size, ← stored, found]
        exact Bool.false_ne_true
      rw [missing]
      rfl
  | some _ =>
      have present : (other.integer? index).isSome := by
        rw [otherStored, ← size, ← stored, found]
        rfl
      obtain ⟨_, found⟩ := Option.isSome_iff_exists.1 present
      rw [found]
      trivial

structure Course.Alike (course other : Course) : Prop where
  slots : course.slots.size = other.slots.size
  position : course.position = other.position
  looped : course.looped = other.looped

theorem Course.Matches.alike {Same : Float32 → Float32 → Prop} {course other : Course}
    (courses : course.Matches Same other) : course.Alike other :=
  ⟨courses.size, courses.position, courses.looped⟩

structure Rendering.Alike (rendering companion : Rendering) : Prop where
  count : rendering.count = companion.count
  voice : rendering.voice = companion.voice

structure Performance.Alike (performance companion : Performance) : Prop where
  renderings : performance.renderings.Forall₂ Rendering.Alike companion.renderings
  voice : performance.voice = companion.voice

/-- A render call that reads other samples fills as many slots, and leaves the
same voice. -/
theorem Kernel.render_alike {kernel : Kernel} {read other : Reader} (alike : read.Alike other)
    (voice : Voice) (looping : Bool) (block counterpart : Block) :
    Alike Rendering.Alike (kernel.render read voice looping block)
      (kernel.render other voice looping counterpart) := by
  have leads : read.Leads (fun _ => False) (fun _ _ => True) other :=
    fun index => alike_iff_leads.1 (alike index)
  have courses := @Reader.Leads.course _ _ read other kernel leads (fun _ _ _ _ => trivial) voice
    looping
  rw [alike_iff_leads]
  apply courses.bind
  intro course companion matched
  have courses := matched.alike
  exact ⟨courses.slots, by rw [courses.position, courses.looped]⟩

/-- Actions that do the same to a voice, each into a block of its own. -/
inductive Action.Parallel : Action → Action → Prop where
  | adjust (adjustment : Adjustment) : Parallel (.adjust adjustment) (.adjust adjustment)
  | render (audible looping : Bool) (block counterpart : Block) :
      Parallel (.render audible looping block) (.render audible looping counterpart)

namespace Voice

variable {data other : SampleData} {actions others : List Action}

theorem render_alike (size : data.size = other.size) (voice : Voice) (audible looping : Bool)
    (block counterpart : Block) :
    Alike Rendering.Alike (voice.render data audible looping block)
      (voice.render other audible looping counterpart) := by
  rw [render_eq_kernel, render_eq_kernel]
  exact Kernel.render_alike (SampleData.read_alike size) voice looping block counterpart

/-- Sessions of the same actions on data of one size come to the same fault, or end alike. -/
theorem perform_parallel (size : data.size = other.size)
    (parallel : actions.Forall₂ Action.Parallel others) (voice : Voice) :
    Alike Performance.Alike (voice.perform data actions) (voice.perform other others) := by
  induction parallel generalizing voice with
  | nil => exact ⟨.nil, rfl⟩
  | cons same _ inductionHypothesis =>
      cases same with
      | adjust adjustment => exact inductionHypothesis (voice.adjust adjustment)
      | render audible looping block counterpart =>
          have first := render_alike size voice audible looping block counterpart
          rw [alike_iff_leads] at first ⊢
          apply first.bind
          intro rendering companion alike
          have rest := inductionHypothesis rendering.voice
          rw [alike_iff_leads, alike.voice] at rest
          rw [alike.voice]
          apply rest.bind
          intro later companionLater alikeLater
          exact ⟨.cons alike alikeLater.renderings, alikeLater.voice⟩

/-- What a voice plays never shows in how it moves: after each of their actions, two
sessions on data of one size have come to the same fault, or have written as many slots
in each block, and left the same voice. Where the fault is `stalled`, neither has been
abandoned: both are in a call that never ends. -/
theorem perform_take_alike (size : data.size = other.size)
    (parallel : actions.Forall₂ Action.Parallel others) (voice : Voice) (reached : Nat) :
    Alike Performance.Alike (voice.perform data (actions.take reached))
      (voice.perform other (others.take reached)) :=
  perform_parallel size (List.forall₂_take reached parallel) voice

/-- Silence over half a sample, then a block heard at rest, into blocks that hold a value. -/
def dive (value : Float32) : List Action :=
  [.render false true (.filled value), .adjust (.speed 0), .render true false (.filled value)]

/-- A voice in a loop of the first of three samples: silence takes it to half a sample below
zero, where the cubic finds no word, neither on words nor on words with low bytes. -/
theorem perform_take_alike_dive :
    Alike Performance.Alike
      ((Voice.mk ⟨0⟩ 0.0078125 true ⟨0, 2, 0, 1⟩ .fourthOrder).perform (.ofWords #[7, -7, 7])
        ((dive 0).take 3))
      ((Voice.mk ⟨0⟩ 0.0078125 true ⟨0, 2, 0, 1⟩ .fourthOrder).perform
        ⟨#[0, 0, -1], some #[255, 0, 1], by rintro _ ⟨⟩; rfl⟩ ((dive 1).take 3)) := by
  have parallel : (dive 0).Forall₂ Action.Parallel (dive 1) :=
    .cons (.render false true _ _) (.cons (.adjust _) (.cons (.render true false _ _) .nil))
  exact @perform_take_alike (.ofWords #[7, -7, 7]) ⟨#[0, 0, -1], some #[255, 0, 1], by rintro _ ⟨⟩; rfl⟩
    (dive 0) (dive 1) rfl parallel (.mk ⟨0⟩ 0.0078125 true ⟨0, 2, 0, 1⟩ .fourthOrder) 3

/-- Nor do the low bytes show: a voice moves on the words alone as it does on all of the data. -/
theorem perform_coarse_alike (data : SampleData) (parallel : actions.Forall₂ Action.Parallel others)
    (voice : Voice) :
    Alike Performance.Alike (voice.perform data actions) (voice.perform data.coarse others) :=
  perform_parallel data.size_coarse.symm parallel voice

/-- In which states a session begins its audible blocks depends on no more of
the data than its size. -/
theorem meets_iff_of_size {State : Voice → Prop} {voice : Voice} {actions : List Action}
    (size : data.size = other.size) :
    voice.Meets data State actions ↔ voice.Meets other State actions := by
  induction actions generalizing voice with
  | nil => exact Iff.rfl
  | cons action actions inductionHypothesis =>
      cases action with
      | adjust adjustment => exact inductionHypothesis
      | render audible looping block =>
          have alike := voice.render_alike size audible looping block block
          apply or_congr Iff.rfl
          cases first : voice.render data audible looping block with
          | error fault =>
              cases second : voice.render other audible looping block with
              | error _ => simp
              | ok _ =>
                  rw [first, second] at alike
                  exact alike.elim
          | ok rendering =>
              cases second : voice.render other audible looping block with
              | error _ =>
                  rw [first, second] at alike
                  exact alike.elim
              | ok companion =>
                  rw [first, second] at alike
                  simp only [Except.ok.injEq, exists_eq_left', alike.voice]
                  exact inductionHypothesis

end Voice

end Resampler
