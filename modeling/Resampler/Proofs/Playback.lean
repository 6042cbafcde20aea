import Resampler.Proofs.Scene.Simulation
import Resampler.Render

/-!
Contract: what a render call leaves behind when it plays a reference.

Owns:
- the samples of a reference in the written slots, the old samples in the
  others, and a voice that differs in position and loop history only;
- a render call as the laps of its scene, once the head and the tail are read;
- the render call of a voice whose position is related to the reference.

Does not own: sequences of render calls.
-/

namespace Resampler

/-- The reference from an unwrapped position on, `step` units a slot, in as
many slots as were counted. -/
structure Rendering.Plays (rendering : Rendering) (voice : Voice) (block : Block)
    (reference : Nat → Float32) (unwrapped step : Nat) : Prop where
  inBlock : rendering.count ≤ blockSize
  written : ∀ slot (isSlot : slot < blockSize), slot < rendering.count →
    rendering.block[slot] = reference (unwrapped + slot * step)
  kept : ∀ slot (isSlot : slot < blockSize), rendering.count ≤ slot →
    rendering.block[slot] = block[slot]
  voice_eq : rendering.voice =
    { voice with position := rendering.voice.position, looped := rendering.voice.looped }

namespace Kernel

section Laps

variable {kernel : Kernel} {read : Reader} {sample : Nat → Float32} {voice : Voice}
  {looping : Bool} {finish : Course}
  (ordered : looping = true → 0 < voice.bounds.loopEnd.toNat)
  (tail : ∀ distance < kernel.after,
    read.Gives sample (voice.bounds.standInAfter looping distance))
  (head : (Scene.staging kernel read sample voice.bounds looping voice.step).readHead
    voice.looped = .ok (Scene.headOf kernel sample voice.bounds voice.looped))

include ordered tail head

/-- The course of a voice is the laps of its scene, once the tail and the head of the
scene can be read. -/
theorem course_eq_laps :
    kernel.course read voice looping =
      (Scene.staging kernel read sample voice.bounds looping voice.step).laps
        (Scene.headOf kernel sample voice.bounds voice.looped)
          (.begin (voice.position + kernel.shift) voice.looped) := by
  have prepared := @Scene.prepare_eq _ _ _ _ _ voice.step ordered tail
  simp only [course, prepared, bind, Except.bind, head]

theorem render_eq_laps (block : Block) :
    kernel.render read voice looping block = do
      let finish ← (Scene.staging kernel read sample voice.bounds looping voice.step).laps
        (Scene.headOf kernel sample voice.bounds voice.looped)
          (.begin (voice.position + kernel.shift) voice.looped)
      return {
        count := finish.slots.size
        block := block.overwrite finish.samples
        voice := { voice with
          position := finish.position - kernel.shift
          looped := finish.looped } } := by
  rw [render, course_eq_laps ordered tail head]

theorem render_eq
    (ran : (Scene.staging kernel read sample voice.bounds looping voice.step).laps
      (Scene.headOf kernel sample voice.bounds voice.looped)
        (.begin (voice.position + kernel.shift) voice.looped) = .ok finish)
    (block : Block) :
    kernel.render read voice looping block = .ok {
      count := finish.slots.size
      block := block.overwrite finish.samples
      voice := { voice with
        position := finish.position - kernel.shift
        looped := finish.looped } } := by
  rw [render_eq_laps ordered tail head, ran]
  rfl

end Laps

/-- A render call that starts in relation to an unwrapped position plays the
reference, and ends in relation to the position that far on. -/
theorem render_plays {kernel : Kernel} {read : Reader} {sample : Nat → Float32} {voice : Voice}
    {looping : Bool} {Related : Phase → Bool → Nat → Prop} {reference : Nat → Float32}
    {unwrapped : Nat}
    (ordered : looping = true → voice.bounds.loopStart.toNat < voice.bounds.loopEnd.toNat)
    (simulates : (Scene.staging kernel read sample voice.bounds looping voice.step).Simulates
      sample Related reference)
    (related : Related (voice.position + kernel.shift) voice.looped unwrapped) (block : Block) :
    ∃ rendering, kernel.render read voice looping block = .ok rendering ∧
      rendering.Plays voice block reference unwrapped voice.step.toNat ∧
      Related (rendering.voice.position + kernel.shift) rendering.voice.looped
        (unwrapped + rendering.count * voice.step.toNat) ∧
      (∀ slot < rendering.count, ∃ position looped,
        Related position looped (unwrapped + slot * voice.step.toNat) ∧
          position.index ≤ voice.bounds.final looping) ∧
      (rendering.count = blockSize ∨ looping = false ∧
        voice.bounds.final looping < (rendering.voice.position + kernel.shift).index) ∧
      (0 < rendering.count → ∃ position : Phase, position.index ≤ voice.bounds.final looping ∧
        (rendering.voice.position + kernel.shift).toNat ≤ (position + voice.step).toNat) := by
  have staged :=
    Scene.staged_staging kernel read sample voice.bounds looping voice.step
  have regular := simulates.regular related
  obtain ⟨finish, ran, echoes, ending⟩ := Scene.laps_echo staged simulates ordered related
  have size := echoes.length_samples
  have rendered : kernel.render read voice looping block = .ok {
      count := finish.slots.size
      block := block.overwrite finish.samples
      voice := { voice with position := finish.position - kernel.shift, looped := finish.looped } } :=
    render_eq (fun looping => Nat.zero_lt_of_lt (ordered looping))
      (fun distance near => regular.tail near) regular.readHead ran block
  have back : finish.position - kernel.shift + kernel.shift = finish.position :=
    Phase.sub_add_cancel_right ..
  refine ⟨_, rendered, ⟨echoes.inBlock, ?_, ?_, rfl⟩, ?_, echoes.within, ?_, ?_⟩
  · intro slot isSlot written
    have written : slot < finish.samples.length := size ▸ written
    rw [Block.getElem_overwrite_of_lt _ _ isSlot written]
    simp only [echoes.samples, List.getElem_map, List.getElem_range]
    rfl
  · intro slot isSlot unwritten
    have unwritten : finish.samples.length ≤ slot := size ▸ unwritten
    exact Block.getElem_overwrite_of_le _ _ isSlot unwritten
  · rw [back]
    exact echoes.related
  · rw [back]
    exact ending
  · rw [back]
    exact echoes.reach

end Kernel

end Resampler
