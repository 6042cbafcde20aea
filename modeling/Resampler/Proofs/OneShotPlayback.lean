import Mathlib.Data.List.Forall2
import Resampler.Proofs.Acceptance
import Resampler.Proofs.PlayOut
import Resampler.Proofs.Session

/-!
Contract: a voice that does not loop plays its region once and then stays
where it is.

Owns:
- the reference of such a voice, whose taps are held at the ends of the region;
- one render call, for any kernel, before and after the last sample;
- sessions of calls that do not loop, and of calls after the voice has ended.

Does not own: voices that have turned back before they stopped looping.
-/

namespace Resampler

namespace Bounds

variable {bounds : Bounds} {kernel : Kernel} {read : Reader} {sample : Nat → Float32}
  {step : Phase}

structure Playable (bounds : Bounds) (kernel : Kernel) (read : Reader)
    (sample : Nat → Float32) : Prop where
  long : bounds.start.toNat + kernel.span ≤ bounds.last.toNat
  given : ∀ index ≤ bounds.last.toNat, read.Gives sample index

def onceReference (bounds : Bounds) (kernel : Kernel) (sample : Nat → Float32)
    (position : Nat) : Float32 :=
  kernel.heard (fun virtual => sample (bounds.clamped virtual)) (position + kernel.shift.toNat)

theorem Playable.regular (playable : bounds.Playable kernel read sample) :
    (Scene.staging kernel read sample bounds false step).Regular sample false := by
  have long := playable.long
  refine ⟨long, by simp, ?_⟩
  intro virtual _ _
  show read.Gives sample (bounds.behind false false virtual)
  rw [behind_eq_clamped (by omega)]
  apply playable.given
  unfold clamped
  omega

end Bounds

/-- The answer to a call that does not loop: the reference in the slots that
are located in the region, and a voice moved on by as many steps. -/
structure Bounds.AnswersOnce (bounds : Bounds) (method : Method) (sample : Nat → Float32)
    (position : Nat) (call : Call) (rendering : Rendering) : Prop where
  count : rendering.count = bounds.leading method.kernel position call.step
  written : ∀ slot (isSlot : slot < blockSize), slot < rendering.count →
    rendering.block[slot] = bounds.onceReference method.kernel sample (position + slot * call.step)
  kept : ∀ slot (isSlot : slot < blockSize), rendering.count ≤ slot →
    rendering.block[slot] = call.block[slot]
  voice_eq : rendering.voice = ⟨rendering.voice.position, call.speed, false, bounds, method⟩
  moved : rendering.voice.position.toNat = position + rendering.count * call.step

namespace Voice

variable {data : SampleData} {limit : Nat} {call : Call} {calls : List Call} {voice : Voice}

/-- A voice that has not turned back, below a limit that no step from within
the region crosses. -/
structure Advancing (voice : Voice) (limit : Nat) : Prop where
  room : limit + voice.method.kernel.after * 2 ^ 32 ≤ 2 ^ 64
  fresh : voice.looped = false
  entered : voice.bounds.start.toNat ≤ (voice.position + voice.method.kernel.shift).index
  below : voice.position.toNat + voice.method.kernel.shift.toNat < limit

def Ended (voice : Voice) : Prop :=
  voice.bounds.last.toNat < (voice.position + voice.method.kernel.shift).index

theorem render_once
    (playable : voice.bounds.Playable voice.method.kernel data.read data.sample)
    (advancing : voice.Advancing limit)
    (paced : ¬ voice.Ended → (voice.bounds.last.toNat + 1) * 2 ^ 32 + call.step ≤ limit)
    (audible : call.audible = true) :
    ∃ rendering, (voice.setSpeed call.speed).render data call.audible false call.block =
        .ok rendering ∧
      voice.bounds.AnswersOnce voice.method data.sample voice.position.toNat call rendering ∧
      rendering.voice.Advancing limit ∧
      (rendering.count < blockSize → rendering.voice.Ended) ∧
      (voice.Ended → rendering.count = 0) := by
  let sped := voice.setSpeed call.speed
  have regular : (Scene.staging voice.method.kernel data.read data.sample voice.bounds false
      sped.step).Regular data.sample voice.looped := advancing.fresh ▸ playable.regular
  have entry : voice.bounds.entry voice.looped = voice.bounds.start.toNat := by
    rw [advancing.fresh]
    rfl
  obtain ⟨rendering, rendered, plays, entered, below, stopped, silent⟩ :=
    @Kernel.render_out voice.method.kernel _ _ sped limit regular advancing.room
      (entry ▸ advancing.entered) advancing.below (fun inRegion => paced (Nat.not_lt.2 inRegion))
      call.block
  have voice_eq : rendering.voice =
      ⟨rendering.voice.position, call.speed, false, voice.bounds, voice.method⟩ := by
    rw [← advancing.fresh]
    exact plays.voice_eq
  have bounds : rendering.voice.bounds = voice.bounds := by rw [voice_eq]
  have method : rendering.voice.method = voice.method := by rw [voice_eq]
  have long := playable.long
  have held : (fun virtual => data.sample (voice.bounds.behind false voice.looped virtual)) =
      fun virtual => data.sample (voice.bounds.clamped virtual) := by
    funext virtual
    rw [advancing.fresh, Bounds.behind_eq_clamped (by omega)]
  refine ⟨rendering, ?_, ⟨plays.count, ?_, plays.kept, voice_eq, plays.moved⟩, ?_, ?_, silent⟩
  · rw [Voice.render, audible, if_pos rfl]
    exact rendered
  · intro slot isSlot counted
    rw [Bounds.onceReference, ← held]
    exact plays.written slot isSlot counted
  · refine ⟨?_, ?_, ?_, ?_⟩
    · rw [method]
      exact advancing.room
    · rw [voice_eq]
    · rw [bounds, method, ← entry]
      exact entered
    · rw [method]
      exact below
  · intro short
    rw [Ended, bounds, method]
    exact stopped short

/-- A voice that advances answers all calls, and advances on. -/
theorem perform_once
    (playable : voice.bounds.Playable voice.method.kernel data.read data.sample)
    (advancing : voice.Advancing limit)
    (paced : ∀ call ∈ calls,
      ¬ voice.Ended → (voice.bounds.last.toNat + 1) * 2 ^ 32 + call.step ≤ limit)
    (audible : ∀ call ∈ calls, call.audible = true) :
    ∃ performance, voice.perform data (calls.flatMap (Call.actions false)) = .ok performance ∧
      Call.Answered (voice.bounds.AnswersOnce voice.method data.sample) voice.position.toNat calls
        performance.renderings ∧
      performance.voice.bounds = voice.bounds ∧ performance.voice.method = voice.method ∧
      performance.voice.Advancing limit ∧
      (voice.Ended ∨ (∃ short ∈ performance.renderings, short.count < blockSize) →
        performance.voice.Ended) := by
  induction calls generalizing voice with
  | nil =>
      refine ⟨⟨[], voice⟩, rfl, .nil, rfl, rfl, advancing, ?_⟩
      simp
  | cons call calls inductionHypothesis =>
      obtain ⟨rendering, rendered, answers, after, stopped, silent⟩ :=
        render_once playable advancing (paced call (by simp)) (audible call (by simp))
      have bounds : rendering.voice.bounds = voice.bounds := by rw [answers.voice_eq]
      have method : rendering.voice.method = voice.method := by rw [answers.voice_eq]
      have lasting : voice.Ended → rendering.voice.Ended := fun ended =>
        stopped (silent ended ▸ by decide)
      rw [← bounds, ← method] at playable
      rw [← bounds] at paced
      obtain ⟨rest, performed, answersRest, boundsRest, methodRest, afterRest, stoppedRest⟩ :=
        inductionHypothesis playable after
          (fun other member running => paced other (by simp [member]) (running ∘ lasting))
          (fun other member => audible other (by simp [member]))
      rw [bounds] at answersRest boundsRest
      rw [method] at answersRest methodRest
      rw [answers.moved] at answersRest
      refine ⟨_, Call.perform_calls rendered performed, .cons answers answersRest, boundsRest,
        methodRest, afterRest, ?_⟩
      rintro (ended | ⟨short, member, fewer⟩)
      · exact stoppedRest (.inl (lasting ended))
      · rcases List.mem_cons.1 member with rfl | inRest
        · exact stoppedRest (.inl (stopped fewer))
        · exact stoppedRest (.inr ⟨short, inRest, fewer⟩)

/-- The answer to a call that comes too late: nothing is written, and the voice
stays where it is. -/
structure AnswersNothing (voice : Voice) (call : Call) (rendering : Rendering) : Prop where
  count : rendering.count = 0
  kept : rendering.block = call.block
  voice_eq : rendering.voice = voice.setSpeed call.speed

/-- A voice that has ended stays where it is, at any speed. -/
theorem perform_ended
    (playable : voice.bounds.Playable voice.method.kernel data.read data.sample)
    (advancing : voice.Advancing limit) (ended : voice.Ended)
    (audible : ∀ call ∈ calls, call.audible = true) :
    ∃ performance, voice.perform data (calls.flatMap (Call.actions false)) = .ok performance ∧
      calls.Forall₂ voice.AnswersNothing performance.renderings := by
  induction calls generalizing voice with
  | nil => exact ⟨⟨[], voice⟩, rfl, .nil⟩
  | cons call calls inductionHypothesis =>
      obtain ⟨rendering, rendered, answers, after, stopped, silent⟩ :=
        render_once playable advancing (fun running => absurd ended running)
          (audible call (by simp))
      have none := silent ended
      have still : rendering.voice = voice.setSpeed call.speed := by
        have moved := answers.moved
        rw [none, Nat.zero_mul, Nat.add_zero] at moved
        rw [answers.voice_eq, Phase.ext_toNat moved, ← advancing.fresh]
        rfl
      have kept : rendering.block = call.block := by
        apply Vector.ext
        intro slot isSlot
        exact answers.kept slot isSlot (none ▸ Nat.zero_le slot)
      rw [still] at after
      obtain ⟨rest, performed, answersRest⟩ :=
        @inductionHypothesis (voice.setSpeed call.speed) playable after ended
          (fun other member => audible other (by simp [member]))
      rw [← still] at performed
      refine ⟨_, Call.perform_calls rendered performed, .cons ⟨none, kept, still⟩ ?_⟩
      exact answersRest.imp fun _ _ nothing => ⟨nothing.count, nothing.kept, nothing.voice_eq⟩

theorem playable_of_validate (accepted : voice.validate data false = .ok (.ok ())) :
    voice.bounds.Playable voice.method.kernel data.read data.sample := by
  have fits := (Bounds.validate_eq_ok_iff.1 accepted).1
  refine ⟨fits.long, ?_⟩
  intro index inRegion
  have inside := fits.inside
  have inWord := voice.bounds.last.toNat_lt
  apply SampleData.gives
  · show index < 2 ^ 32
    omega
  · omega

/-- A voice that was accepted, has not turned back, and is located in its region
or after it, answers any sequence of calls that do not loop with the reference,
in as many slots as are located in the region. After the first call with fewer
slots than a block, calls at any speed find it where it is. -/
theorem perform_once_eq_reference
    (accepted : voice.validate data false = .ok (.ok ())) (fresh : voice.looped = false)
    (started : voice.bounds.start.toNat ≤ (voice.position + voice.method.kernel.shift).index)
    (early : voice.position.toNat + 4 * 2 ^ 32 ≤ 2 ^ 64)
    (audible : ∀ call ∈ calls, call.audible = true)
    (paced : ∀ call ∈ calls, (voice.bounds.last.toNat + 5) * 2 ^ 32 + call.step ≤ 2 ^ 64) :
    ∃ performance, voice.perform data (calls.flatMap (Call.actions false)) = .ok performance ∧
      Call.Answered (voice.bounds.AnswersOnce voice.method data.sample) voice.position.toNat calls
        performance.renderings ∧
      ((∃ short ∈ performance.renderings, short.count < blockSize) →
        ∀ later : List Call, (∀ call ∈ later, call.audible = true) →
          ∃ rest, performance.voice.perform data (later.flatMap (Call.actions false)) = .ok rest ∧
            later.Forall₂ performance.voice.AnswersNothing rest.renderings) := by
  have few : voice.method.kernel.after ≤ 3 := by cases voice.method <;> decide
  have moved : voice.method.kernel.shift.toNat ≤ 2 ^ 31 := by cases voice.method <;> decide
  have playable := playable_of_validate accepted
  have advancing : voice.Advancing (2 ^ 64 - 3 * 2 ^ 32) := ⟨by omega, fresh, started, by omega⟩
  obtain ⟨performance, performed, answers, bounds, method, after, stopped⟩ :=
    perform_once playable advancing (by
      intro call member _
      have := paced call member
      apply Nat.le_of_lt_succ
      omega) audible
  refine ⟨performance, performed, answers, ?_⟩
  intro short later laterAudible
  rw [← bounds, ← method] at playable
  exact perform_ended playable after (stopped (.inr short)) laterAudible

/-- Three samples at speed one: the first block holds them all, at any row of
the cubic, and the second comes too late. -/
theorem perform_once_eq_reference_fourthOrder :
    ∃ performance,
      (make ⟨0, 2, 0, 0⟩ ⟨.fourthOrder, 1⟩).perform (.ofWords #[7, -7, 7])
        ([⟨1, true, .filled 0⟩, ⟨1, true, .filled 0⟩].flatMap (Call.actions false)) =
          .ok performance ∧
      Call.Answered (Bounds.AnswersOnce ⟨0, 2, 0, 0⟩ .fourthOrder
          (SampleData.ofWords #[7, -7, 7]).sample) 0
        [⟨1, true, .filled 0⟩, ⟨1, true, .filled 0⟩] performance.renderings ∧
      ((∃ short ∈ performance.renderings, short.count < blockSize) →
        ∀ later : List Call, (∀ call ∈ later, call.audible = true) →
          ∃ rest, performance.voice.perform (.ofWords #[7, -7, 7])
              (later.flatMap (Call.actions false)) = .ok rest ∧
            later.Forall₂ performance.voice.AnswersNothing rest.renderings) :=
  perform_once_eq_reference rfl rfl (by decide) (by decide) (by decide) (by decide)

end Voice

end Resampler
