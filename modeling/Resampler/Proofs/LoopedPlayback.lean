import Resampler.Proofs.Acceptance
import Resampler.Proofs.Playback
import Resampler.Proofs.Reference
import Resampler.Proofs.Session

/-!
Contract: a voice that loops plays a waveform that never ends.

Owns:
- the relation of a position to an unwrapped one, some whole loops further on;
- one render call of a voice that loops, for any kernel;
- sessions of calls that loop: their blocks, end to end, are a reference at the
  unwrapped positions of their slots.

A turn may be done late, in the call after the one that came past the end of
the loop. The relation does not tell the two apart.

Does not own: voices that do not loop, or sessions that change the kernel.
-/

namespace Resampler

/-- Bounds that a kernel can play round and round, from the region into the
loop, with a reader for all samples before the end of the loop. -/
structure Bounds.Loopable (bounds : Bounds) (kernel : Kernel) (read : Reader)
    (sample : Nat → Float32) : Prop where
  entered : bounds.start.toNat + kernel.span < bounds.loopEnd.toNat
  long : bounds.loopStart.toNat + kernel.span < bounds.loopEnd.toNat
  given : ∀ index < bounds.loopEnd.toNat, read.Gives sample index

/-- A located position below a limit is some loops behind an unwrapped one, and
as the voice knows, none before it first turned. -/
def Bounds.Tracks (bounds : Bounds) (limit : Nat) (position : Phase) (looped : Bool)
    (unwrapped : Nat) : Prop :=
  ∃ laps, unwrapped = position.toNat + laps * bounds.loopSpan * 2 ^ 32 ∧
    (looped = true ↔ 0 < laps) ∧ bounds.entry looped ≤ position.index ∧ position.toNat < limit

namespace Bounds

variable {bounds : Bounds} {kernel : Kernel} {read : Reader} {sample : Nat → Float32}
  {limit unwrapped : Nat} {position step : Phase} {looped : Bool}

/-- Silence can loop wherever another kernel can. -/
theorem Loopable.mono {other : Kernel}
    (loopable : bounds.Loopable kernel read sample) (shorter : other.span ≤ kernel.span) :
    bounds.Loopable other read sample := by
  have entered := loopable.entered
  have long := loopable.long
  exact ⟨by omega, by omega, loopable.given⟩

theorem Loopable.regular (loopable : bounds.Loopable kernel read sample) :
    (Scene.staging kernel read sample bounds true step).Regular sample looped := by
  have entered := loopable.entered
  have long := loopable.long
  have taps := kernel.taps_le_span
  refine ⟨?_, ?_, ?_⟩
  · simp only [Scene.staging, entry, final, if_true]
    split <;> omega
  · intro _
    simp only [Scene.staging]
    omega
  · intro virtual above below
    simp only [Scene.staging, final, if_true] at above below
    apply loopable.given
    simp only [Scene.staging, behind, final, standInBefore, standInAfter, if_true]
    split
    · split <;> omega
    · split <;> omega

theorem Tracks.advance {extent : Nat}
    (paced : step.toNat = 0 ∨ extent * 2 ^ 32 + step.toNat ≤ limit) (limited : limit ≤ 2 ^ 64)
    (tracks : bounds.Tracks limit position looped unwrapped) (located : position.index < extent) :
    bounds.Tracks limit (position + step) looped (unwrapped + step.toNat) ∧
      position.index ≤ (position + step).index := by
  obtain ⟨laps, same, history, entered, below⟩ := tracks
  have inside := Phase.index_lt_iff.1 located
  have fits : position.toNat + step.toNat < 2 ^ 64 := by omega
  have sum := Phase.toNat_add_of_lt fits
  have forward := Phase.index_le_index_add fits
  exact ⟨⟨laps, by omega, history, by omega, by omega⟩, forward⟩

theorem Tracks.turn (ordered : bounds.loopStart.toNat < bounds.loopEnd.toNat)
    (tracks : bounds.Tracks limit position looped unwrapped)
    (past : bounds.loopEnd.toNat ≤ position.index) :
    bounds.Tracks limit (position - .ofIndex bounds.loopSpan) true unwrapped := by
  obtain ⟨laps, same, _, _, below⟩ := tracks
  have length : bounds.loopSpan = bounds.loopEnd.toNat - bounds.loopStart.toNat := rfl
  have covered := Phase.le_index_iff.1 past
  have difference : (position - .ofIndex bounds.loopSpan).toNat =
      position.toNat - bounds.loopSpan * 2 ^ 32 := by
    apply Phase.toNat_sub_ofIndex
    exact Nat.le_trans (Nat.mul_le_mul_right _ (by omega)) covered
  refine ⟨laps + 1, ?_, by simp, ?_, by omega⟩
  · rw [Nat.succ_mul]
    omega
  · simp only [entry, if_true]
    apply Phase.le_index_iff.2
    rw [difference]
    apply Nat.le_sub_of_add_le
    rw [← Nat.add_mul, length, Nat.add_sub_of_le (by omega)]
    exact covered

/-- A scene that loops plays the unrolled loop. -/
theorem Loopable.simulates (loopable : bounds.Loopable kernel read sample)
    (word : limit ≤ 2 ^ 64) (limited : 2 ≤ kernel.after → limit + kernel.after * 2 ^ 32 ≤ 2 ^ 64)
    (paced : step.toNat = 0 ∨ bounds.loopEnd.toNat * 2 ^ 32 + step.toNat ≤ limit) :
    (Scene.staging kernel read sample bounds true step).Simulates sample (bounds.Tracks limit)
      (kernel.heard fun virtual => sample (bounds.unrolled virtual)) where
  regular := fun _ => loopable.regular
  started := fun ⟨_, _, _, entered, _⟩ => entered
  fits := by
    rintro position looped unwrapped ⟨_, _, _, _, below⟩ many
    have limited := limited many
    show position.index + kernel.after < 2 ^ 32
    unfold Phase.index
    omega
  sounds := by
    rintro position looped unwrapped ⟨laps, rfl, history, entered, _⟩ located
    apply Scene.played_eq_heard
    intro virtual member
    obtain ⟨above, below⟩ := Kernel.mem_window member
    simp only [Scene.staging] at above below located ⊢
    have same := behind_eq_unrolled loopable.entered loopable.long history kernel.taps_le_span
      (show (bounds.entry looped : Int) - kernel.before ≤ virtual by omega)
      (show virtual ≤ bounds.final true + kernel.after by omega)
    rw [same]
    push_cast
    rfl
  steps := by
    intro position looped unwrapped tracks located
    have long := loopable.long
    simp only [Scene.staging, final, if_true] at located ⊢
    exact tracks.advance paced word (by omega)
  turns := by
    intro position looped unwrapped _ tracks past
    have long := loopable.long
    simp only [Scene.staging, final, if_true] at past ⊢
    exact tracks.turn (by omega) (by omega)

def loopReference (bounds : Bounds) (kernel : Kernel) (sample : Nat → Float32)
    (position : Nat) : Float32 :=
  kernel.heard (fun virtual => sample (bounds.unrolled virtual)) (position + kernel.shift.toNat)

/-- Once all taps lie in the region and the loop or after them, whole loops more
are not heard. -/
theorem loopReference_add_laps {unwrapped : Nat} (laps : Nat)
    (begun : bounds.start.toNat + kernel.before ≤ (unwrapped + kernel.shift.toNat) / 2 ^ 32)
    (entered : bounds.loopStart.toNat + kernel.before ≤ (unwrapped + kernel.shift.toNat) / 2 ^ 32) :
    bounds.loopReference kernel sample (unwrapped + laps * bounds.loopSpan * 2 ^ 32) =
      bounds.loopReference kernel sample unwrapped := by
  have located : unwrapped + laps * bounds.loopSpan * 2 ^ 32 + kernel.shift.toNat =
      unwrapped + kernel.shift.toNat + laps * bounds.loopSpan * 2 ^ 32 := by omega
  have index : (unwrapped + kernel.shift.toNat + laps * bounds.loopSpan * 2 ^ 32) / 2 ^ 32 =
      (unwrapped + kernel.shift.toNat) / 2 ^ 32 + laps * bounds.loopSpan :=
    Nat.add_mul_div_right _ _ (by decide)
  rw [loopReference, loopReference, located, Kernel.heard, Kernel.heard, Phase.row_ofNat_add, index,
    Kernel.window_add, List.map_map]
  congr 1
  apply List.map_congr_left
  intro virtual member
  have above := (Kernel.mem_window member).1
  simp only [Function.comp_def]
  push_cast
  rw [unrolled_add_laps laps (by omega) (by omega)]

end Bounds

/-- One render call of a looping voice: a full block of the reference, after
which the voice is still on its track. -/
theorem Kernel.render_looping {kernel : Kernel} {read : Reader} {sample : Nat → Float32}
    {voice : Voice} {limit unwrapped : Nat}
    (loopable : voice.bounds.Loopable kernel read sample)
    (word : limit ≤ 2 ^ 64) (limited : 2 ≤ kernel.after → limit + kernel.after * 2 ^ 32 ≤ 2 ^ 64)
    (paced : voice.step.toNat = 0 ∨
      voice.bounds.loopEnd.toNat * 2 ^ 32 + voice.step.toNat ≤ limit)
    (tracks : voice.bounds.Tracks limit (voice.position + kernel.shift) voice.looped
      (unwrapped + kernel.shift.toNat)) (block : Block) :
    ∃ rendering, kernel.render read voice true block = .ok rendering ∧
      rendering.count = blockSize ∧
      rendering.block.toList = (List.range blockSize).map (fun slot =>
        voice.bounds.loopReference kernel sample (unwrapped + slot * voice.step.toNat)) ∧
      rendering.voice =
        { voice with position := rendering.voice.position, looped := rendering.voice.looped } ∧
      voice.bounds.Tracks limit (rendering.voice.position + kernel.shift) rendering.voice.looped
        (unwrapped + blockSize * voice.step.toNat + kernel.shift.toNat) ∧
      (rendering.voice.position + kernel.shift).toNat <
        voice.bounds.loopEnd.toNat * 2 ^ 32 + voice.step.toNat := by
  have long := loopable.long
  obtain ⟨rendering, rendered, plays, after, _, ending, reach⟩ :=
    Kernel.render_plays (fun _ => by omega) (loopable.simulates word limited paced) tracks block
  have full : rendering.count = blockSize := by
    rcases ending with full | ⟨notLooping, _⟩
    · exact full
    · exact absurd notLooping (by decide)
  refine ⟨rendering, rendered, full, ?_, plays.voice_eq, ?_, ?_⟩
  · apply List.ext_getElem
    · simp
    · intro slot inList _
      have isSlot : slot < blockSize := by simpa using inList
      rw [Vector.getElem_toList, plays.written slot isSlot (full ▸ isSlot), List.getElem_map,
        List.getElem_range, Bounds.loopReference]
      congr 1
      omega
  · rw [full] at after
    have same : unwrapped + blockSize * voice.step.toNat + kernel.shift.toNat =
        unwrapped + kernel.shift.toNat + blockSize * voice.step.toNat := by omega
    rw [same]
    exact after
  · obtain ⟨position, located, reach⟩ := reach (full ▸ by decide)
    have located : position.index < voice.bounds.loopEnd.toNat := by
      simp only [Bounds.final, if_true] at located
      omega
    have inLoop := Phase.index_lt_iff.1 located
    have sum := Nat.mod_le (position.toNat + voice.step.toNat) (2 ^ 64)
    rw [← Phase.toNat_add] at sum
    omega

/-- The answer to a call that loops: a full block of a reference. -/
def Call.Filled (reference : Nat → Float32) (unwrapped : Nat) (call : Call)
    (rendering : Rendering) : Prop :=
  rendering.count = blockSize ∧
    rendering.block.toList = (List.range blockSize).map fun slot =>
      reference (unwrapped + slot * call.step)

/-- Answers to calls that loop are, end to end, the reference at the unwrapped
positions of all slots. -/
theorem Call.flatMap_of_filled {reference : Nat → Float32} {unwrapped : Nat} {calls : List Call}
    {renderings : List Rendering}
    (answered : Answered (Filled reference) unwrapped calls renderings) :
    (∀ rendering ∈ renderings, rendering.count = blockSize) ∧
      renderings.flatMap (fun rendering => rendering.block.toList) =
        (slotPositions unwrapped (calls.flatMap fun call =>
          List.replicate blockSize call.step)).map reference := by
  induction answered with
  | nil => exact ⟨by simp, rfl⟩
  | cons first rest inductionHypothesis =>
      obtain ⟨full, samples⟩ := first
      obtain ⟨fullRest, samplesRest⟩ := inductionHypothesis
      refine ⟨?_, ?_⟩
      · intro rendering member
        rcases List.mem_cons.1 member with rfl | inRest
        · exact full
        · exact fullRest rendering inRest
      · rw [full] at samplesRest
        rw [List.flatMap_cons, List.flatMap_cons, samples, samplesRest, slotPositions_append,
          slotPositions_replicate, List.sum_replicate_nat, List.map_append, List.map_map]
        rfl

namespace Voice

variable {data : SampleData} {limit unwrapped : Nat} {calls : List Call} {voice : Voice}

/-- A looping voice on its track answers all calls, and stays on its track. -/
theorem perform_looping
    (loopable : voice.bounds.Loopable voice.method.kernel data.read data.sample)
    (limited : limit + voice.method.kernel.after * 2 ^ 32 ≤ 2 ^ 64)
    (audible : ∀ call ∈ calls, call.audible = true)
    (paced : ∀ call ∈ calls, call.step = 0 ∨
      voice.bounds.loopEnd.toNat * 2 ^ 32 + call.step ≤ limit)
    (tracks : voice.bounds.Tracks limit (voice.position + voice.method.kernel.shift) voice.looped
      (unwrapped + voice.method.kernel.shift.toNat)) :
    ∃ performance, voice.perform data (calls.flatMap (Call.actions true)) = .ok performance ∧
      Call.Answered (Call.Filled (voice.bounds.loopReference voice.method.kernel data.sample))
        unwrapped calls performance.renderings ∧
      voice.bounds.Tracks limit (performance.voice.position + voice.method.kernel.shift)
        performance.voice.looped
        (unwrapped + (calls.map fun call => blockSize * call.step).sum +
          voice.method.kernel.shift.toNat) := by
  induction calls generalizing voice unwrapped with
  | nil => exact ⟨⟨[], voice⟩, rfl, .nil, by simpa using tracks⟩
  | cons call calls inductionHypothesis =>
      let sped := voice.setSpeed call.speed
      obtain ⟨rendering, rendered, full, samples, same, after, _⟩ :=
        @Kernel.render_looping _ _ _ sped limit unwrapped loopable (by omega) (fun _ => limited)
          (paced call (by simp)) tracks call.block
      have bounds : rendering.voice.bounds = voice.bounds := by
        rw [same]
        rfl
      have method : rendering.voice.method = voice.method := by
        rw [same]
        rfl
      have answered : sped.render data call.audible true call.block = .ok rendering := by
        rw [Voice.render, audible call (by simp), if_pos rfl]
        exact rendered
      change voice.bounds.Tracks limit (rendering.voice.position + voice.method.kernel.shift)
        rendering.voice.looped
        (unwrapped + blockSize * call.step + voice.method.kernel.shift.toNat) at after
      rw [← bounds, ← method] at loopable after
      rw [← method] at limited
      rw [← bounds] at paced
      obtain ⟨rest, performed, answers, ended⟩ :=
        inductionHypothesis loopable limited (fun other member => audible other (by simp [member]))
          (fun other member => paced other (by simp [member])) after
      rw [bounds, method] at answers ended
      rw [← full] at answers
      refine ⟨_, Call.perform_calls answered performed, .cons ⟨full, samples⟩ answers, ?_⟩
      simpa only [List.map_cons, List.sum_cons, Nat.add_assoc] using ended

/-- A voice whose bounds were accepted can be played round and round. -/
theorem loopable_of_validate (accepted : voice.validate data true = .ok (.ok ()))
    (entered : voice.bounds.start.toNat + voice.method.span < voice.bounds.loopEnd.toNat) :
    voice.bounds.Loopable voice.method.kernel data.read data.sample := by
  have fits := (Bounds.validate_eq_ok_iff.1 accepted).2 rfl
  refine ⟨entered, fits.long, ?_⟩
  intro index below
  have inside := fits.inside
  have inWord := voice.bounds.loopEnd.toNat_lt
  apply SampleData.gives
  · show index < 2 ^ 32
    omega
  · omega

/-- A voice that was accepted, has not turned yet, and is located in its region
or after it, answers any sequence of calls that loop with full blocks. End to
end they are the reference at the unwrapped positions of their slots. -/
theorem perform_looping_eq_reference
    (accepted : voice.validate data true = .ok (.ok ()))
    (entered : voice.bounds.start.toNat + voice.method.span < voice.bounds.loopEnd.toNat)
    (fresh : voice.looped = false)
    (started : voice.bounds.start.toNat ≤ (voice.position + voice.method.kernel.shift).index)
    (early : voice.position.toNat + 4 * 2 ^ 32 ≤ 2 ^ 64)
    (audible : ∀ call ∈ calls, call.audible = true)
    (paced : ∀ call ∈ calls,
      (voice.bounds.loopEnd.toNat + 4) * 2 ^ 32 + call.step ≤ 2 ^ 64) :
    ∃ performance, voice.perform data (calls.flatMap (Call.actions true)) = .ok performance ∧
      performance.renderings.length = calls.length ∧
      (∀ rendering ∈ performance.renderings, rendering.count = blockSize) ∧
      performance.renderings.flatMap (fun rendering => rendering.block.toList) =
        (slotPositions voice.position.toNat (calls.flatMap fun call =>
          List.replicate blockSize call.step)).map
            (voice.bounds.loopReference voice.method.kernel data.sample) := by
  have few : voice.method.kernel.after ≤ 3 := by cases voice.method <;> decide
  have moved : voice.method.kernel.shift.toNat ≤ 2 ^ 31 := by cases voice.method <;> decide
  have located : (voice.position + voice.method.kernel.shift).toNat =
      voice.position.toNat + voice.method.kernel.shift.toNat := by
    apply Phase.toNat_add_of_lt
    omega
  have tracks : voice.bounds.Tracks (2 ^ 64 - 3 * 2 ^ 32)
      (voice.position + voice.method.kernel.shift) voice.looped
      (voice.position.toNat + voice.method.kernel.shift.toNat) := by
    refine ⟨0, by omega, by simp [fresh], ?_, by omega⟩
    rw [fresh]
    exact started
  obtain ⟨performance, performed, answers, _⟩ :=
    perform_looping (loopable_of_validate accepted entered) (by omega) audible (by
      intro call member
      have := paced call member
      omega) tracks
  obtain ⟨full, samples⟩ := Call.flatMap_of_filled answers
  exact ⟨performance, performed, answers.length_eq, full, samples⟩

/-- Four samples, a loop of the last three, and two blocks at speeds one and a
half and a half. -/
theorem perform_looping_eq_reference_linear :
    ∃ performance,
      (make ⟨0, 3, 1, 4⟩ ⟨.linear, 1⟩).perform (.ofWords #[0, 100, -100, 50])
        ([⟨1.5, true, .filled 0⟩, ⟨0.5, true, .filled 0⟩].flatMap (Call.actions true)) =
          .ok performance ∧
      performance.renderings.length = 2 ∧
      (∀ rendering ∈ performance.renderings, rendering.count = blockSize) ∧
      performance.renderings.flatMap (fun rendering => rendering.block.toList) =
        (slotPositions 0 ([⟨1.5, true, .filled 0⟩, ⟨0.5, true, .filled 0⟩].flatMap fun call : Call =>
          List.replicate blockSize call.step)).map
            (Bounds.loopReference ⟨0, 3, 1, 4⟩ .linear
              (SampleData.ofWords #[0, 100, -100, 50]).sample) :=
  perform_looping_eq_reference rfl (by decide) rfl (by decide) (by decide) (by decide) (by decide)

end Voice

end Resampler
