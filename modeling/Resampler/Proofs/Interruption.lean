import Resampler.Proofs.Seam

/-!
Contract: sessions of looping blocks, some of them silent, against the same
sessions with every block heard.

Owns:
- the comparison of the two: the blocks heard in both are the same;
- the proof that it comes out well for all data of a size exactly when no audible
  block begins at a voice astray, and so always for the methods that round.

Does not own: sessions that change the method.
-/

namespace Resampler

namespace Call

def sounded (call : Call) : Call := { call with audible := true }

/-- As many slots in each block, and the same samples in those of audible calls. -/
inductive Echoed : List Call → List Rendering → List Rendering → Prop
  where
  | nil : Echoed [] [] []
  | cons {call : Call} {calls : List Call} {first second : Rendering}
      {firsts seconds : List Rendering} (count : first.count = second.count)
      (heard : call.audible = true → first.block = second.block)
      (rest : Echoed calls firsts seconds) :
      Echoed (call :: calls) (first :: firsts) (second :: seconds)

end Call

/-- The answer to a call that loops and may be silent: a full block, and if it is
heard, of the reference. -/
def Bounds.AnswersHeard (bounds : Bounds) (kernel : Kernel) (sample : Nat → Float32)
    (unwrapped : Nat) (call : Call) (rendering : Rendering) : Prop :=
  rendering.count = blockSize ∧ (call.audible = true →
    rendering.block.toList = (List.range blockSize).map fun slot =>
      bounds.loopReference kernel sample (unwrapped + slot * call.step))

/-- Renderings echo those of a session that is heard throughout exactly when they
answer the calls that are heard. -/
theorem Bounds.echoed_iff_answered {bounds : Bounds} {kernel : Kernel} {sample : Nat → Float32}
    {unwrapped : Nat} {calls : List Call} {firsts seconds : List Rendering}
    (whole : Call.Answered (Call.Filled (bounds.loopReference kernel sample)) unwrapped
      (calls.map Call.sounded) seconds) :
    Call.Echoed calls firsts seconds ↔
      Call.Answered (bounds.AnswersHeard kernel sample) unwrapped calls firsts := by
  induction calls generalizing unwrapped firsts seconds with
  | nil =>
      cases whole with
      | nil =>
          constructor
          · intro echoed
            cases echoed
            exact .nil
          · intro answered
            cases answered
            exact .nil
  | cons call calls inductionHypothesis =>
      cases whole with
      | @cons _ _ _ second seconds answer rest =>
          obtain ⟨full, samples⟩ := answer
          constructor
          · intro echoed
            cases echoed with
            | cons count heard echoes =>
                refine .cons ⟨count.trans full, ?_⟩ ?_
                · intro audible
                  rw [heard audible]
                  exact samples
                · rw [count]
                  exact (inductionHypothesis rest).1 echoes
          · intro answered
            cases answered with
            | cons answer answers =>
                obtain ⟨count, heard⟩ := answer
                refine .cons (count.trans full.symm) ?_ ?_
                · intro audible
                  exact Vector.toList_inj.1 ((heard audible).trans samples.symm)
                · apply (inductionHypothesis rest).2
                  rw [full, ← count]
                  exact answers

namespace Voice

variable {data : SampleData} {voice : Voice} {unwrapped : Nat} {calls : List Call}

theorem Follows.setSpeed (follows : voice.Follows unwrapped) (speed : Float32) :
    (voice.setSpeed speed).Follows unwrapped :=
  ⟨follows.begun, follows.tracks⟩

/-- A voice that follows answers all calls that are heard, as long as it does not
begin one astray. -/
theorem Follows.perform
    (loopable : voice.bounds.Loopable voice.method.kernel data.read data.sample)
    (paced : ∀ call ∈ calls, voice.bounds.loopEnd.toNat * 2 ^ 32 + call.step < 2 ^ 63)
    (follows : voice.Follows unwrapped)
    (clear : ¬ voice.Meets data Astray (calls.flatMap (Call.actions true))) :
    ∃ performance, voice.perform data (calls.flatMap (Call.actions true)) = .ok performance ∧
      Call.Answered (voice.bounds.AnswersHeard voice.method.kernel data.sample) unwrapped calls
        performance.renderings := by
  induction calls generalizing voice unwrapped with
  | nil => exact ⟨⟨[], voice⟩, rfl, .nil⟩
  | cons call calls inductionHypothesis =>
      obtain ⟨rendering, rendered, full, samples, same, next⟩ :=
        @Follows.render data (voice.setSpeed call.speed) unwrapped loopable (paced call (by simp))
          (follows.setSpeed call.speed) call.audible
          (fun audible astray => clear (.inl ⟨audible, astray⟩)) call.block
      have bounds : rendering.voice.bounds = voice.bounds := by
        rw [same]
        rfl
      have method : rendering.voice.method = voice.method := by
        rw [same]
        rfl
      rw [← bounds, ← method] at loopable
      rw [← bounds] at paced
      obtain ⟨rest, performed, answers⟩ :=
        inductionHypothesis loopable (fun other member => paced other (by simp [member])) next
          (fun meets => clear (.inr ⟨rendering, rendered, meets⟩))
      rw [bounds, method] at answers
      refine ⟨_, Call.perform_calls rendered performed, .cons ⟨full, samples⟩ ?_⟩
      rw [full]
      exact answers

/-- On the probe of its bounds, a voice that begins an audible call astray does
not answer it. -/
theorem Follows.not_answered_of_meets {size : Nat} {performance : Performance}
    (loopable : voice.bounds.Loopable voice.method.kernel (voice.bounds.probe size).read
      (voice.bounds.probe size).sample) (inside : voice.bounds.loopEnd.toNat ≤ size)
    (paced : ∀ call ∈ calls, voice.bounds.loopEnd.toNat * 2 ^ 32 + call.step < 2 ^ 63)
    (follows : voice.Follows unwrapped)
    (meets : voice.Meets (voice.bounds.probe size) Astray (calls.flatMap (Call.actions true)))
    (performed : voice.perform (voice.bounds.probe size) (calls.flatMap (Call.actions true)) =
      .ok performance) :
    ¬ Call.Answered (voice.bounds.AnswersHeard voice.method.kernel
      (voice.bounds.probe size).sample) unwrapped calls performance.renderings := by
  induction calls generalizing voice unwrapped performance with
  | nil => exact meets.elim
  | cons call calls inductionHypothesis =>
      have follows := follows.setSpeed call.speed
      have pace := paced call (by simp)
      obtain ⟨rendering, rest, rendered, performs, rfl⟩ := perform_render_eq_ok_iff.1 performed
      intro answered
      cases answered with
      | cons answer answers =>
          obtain ⟨full, heard⟩ := answer
          by_cases astray : call.audible = true ∧ (voice.setSpeed call.speed).Astray
          · obtain ⟨audible, astray⟩ := astray
            have opening := @Follows.opening_ne_of_astray (voice.setSpeed call.speed) unwrapped size
              call.block rendering loopable inside pace follows astray (audible ▸ rendered)
            apply opening
            rw [heard audible, List.head?_map, List.head?_range, if_neg (by decide),
              Option.map_some, Nat.zero_mul, Nat.add_zero]
            rfl
          · obtain ⟨_, renders, _, _, same, next⟩ :=
              @Follows.render (voice.bounds.probe size) (voice.setSpeed call.speed) unwrapped loopable
                pace follows call.audible (fun audible other => astray ⟨audible, other⟩) call.block
            obtain rfl := Except.ok.inj (rendered.symm.trans renders)
            have meets : rendering.voice.Meets (voice.bounds.probe size) Astray
                (calls.flatMap (Call.actions true)) := by
              rcases meets with first | ⟨_, renders, meets⟩
              · exact absurd first astray
              · obtain rfl := Except.ok.inj (rendered.symm.trans renders)
                exact meets
            have bounds : rendering.voice.bounds = voice.bounds := by
              rw [same]
              rfl
            have method : rendering.voice.method = voice.method := by
              rw [same]
              rfl
            rw [full, ← bounds, ← method] at answers
            rw [← bounds] at meets performs paced inside
            rw [← bounds, ← method] at loopable
            exact inductionHypothesis loopable inside
              (fun other member => paced other (by simp [member])) next meets performs answers

/-- Whether two sessions of a voice, in one of which every block is heard, hold
the same blocks where the other is heard. -/
def Resumes (data : SampleData) (voice : Voice) (calls : List Call) : Prop :=
  ∃ whole interrupted,
    voice.perform data ((calls.map Call.sounded).flatMap (Call.actions true)) = .ok whole ∧
      voice.perform data (calls.flatMap (Call.actions true)) = .ok interrupted ∧
        Call.Echoed calls interrupted.renderings whole.renderings

/-- Interrupted or not, a voice on its track resumes when it answers the calls that
are heard. -/
theorem resumes_iff_answered
    (loopable : voice.bounds.Loopable voice.method.kernel data.read data.sample)
    (paced : ∀ call ∈ calls, voice.bounds.loopEnd.toNat * 2 ^ 32 + call.step < 2 ^ 63)
    (tracks : voice.bounds.Tracks (2 ^ 63 + 2 ^ 31) (voice.position + voice.method.kernel.shift)
      voice.looped (unwrapped + voice.method.kernel.shift.toNat)) :
    voice.Resumes data calls ↔
      ∃ interrupted, voice.perform data (calls.flatMap (Call.actions true)) = .ok interrupted ∧
        Call.Answered (voice.bounds.AnswersHeard voice.method.kernel data.sample) unwrapped calls
          interrupted.renderings := by
  have limited : 2 ^ 63 + 2 ^ 31 + voice.method.kernel.after * 2 ^ 32 ≤ 2 ^ 64 := by
    cases voice.method <;> decide
  have audible : ∀ call ∈ calls.map Call.sounded, call.audible = true := by
    intro call member
    obtain ⟨_, _, rfl⟩ := List.mem_map.1 member
    rfl
  have slow : ∀ call ∈ calls.map Call.sounded, call.step = 0 ∨
      voice.bounds.loopEnd.toNat * 2 ^ 32 + call.step ≤ 2 ^ 63 + 2 ^ 31 := by
    intro call member
    obtain ⟨original, listed, rfl⟩ := List.mem_map.1 member
    exact .inr (Nat.le_trans (Nat.le_of_lt (paced original listed)) (by decide))
  obtain ⟨whole, performed, answers, _⟩ := perform_looping loopable limited audible slow tracks
  constructor
  · rintro ⟨other, interrupted, performs, interrupts, echoed⟩
    obtain rfl := Except.ok.inj (performed.symm.trans performs)
    exact ⟨interrupted, interrupts, (Bounds.echoed_iff_answered answers).1 echoed⟩
  · rintro ⟨interrupted, interrupts, answered⟩
    exact ⟨whole, interrupted, performed, interrupts, (Bounds.echoed_iff_answered answers).2 answered⟩

structure Fresh (voice : Voice) : Prop where
  looped : voice.looped = false
  position : voice.position.toNat = voice.bounds.start.toNat * 2 ^ 32

theorem fresh_make (bounds : Bounds) (settings : Settings) : (make bounds settings).Fresh where
  looped := rfl
  position := by
    have inWord := bounds.start.toNat_lt
    have located := Phase.toNat_ofIndex bounds.start.toNat
    rw [Nat.mod_eq_of_lt (by omega)] at located
    exact located

/-- Such a voice is on its track, as any kernel locates it. -/
theorem Fresh.tracks (fresh : voice.Fresh) (low : voice.bounds.start.toNat < 2 ^ 31)
    (kernel : Kernel) :
    voice.bounds.Tracks (2 ^ 63 + 2 ^ 31) (voice.position + kernel.shift) voice.looped
      (voice.bounds.start.toNat * 2 ^ 32 + kernel.shift.toNat) := by
  obtain ⟨history, located⟩ := fresh
  have moved := kernel.toNat_shift_le
  have sum : (voice.position + kernel.shift).toNat =
      voice.position.toNat + kernel.shift.toNat := by
    apply Phase.toNat_add_of_lt
    omega
  refine ⟨0, by omega, by simp [history], ?_, by omega⟩
  rw [history]
  apply Phase.le_index_iff.2
  show voice.bounds.start.toNat * 2 ^ 32 ≤ _
  omega

theorem Fresh.follows (fresh : voice.Fresh) (low : voice.bounds.start.toNat < 2 ^ 31) :
    voice.Follows (voice.bounds.start.toNat * 2 ^ 32) := by
  have tracks := fresh.tracks low .silence
  have shift : Kernel.silence.shift = .half := rfl
  rw [shift, Phase.toNat_half] at tracks
  refine ⟨Nat.le_refl _, 0, ?_, .inl rfl⟩
  rw [Nat.zero_mul, Nat.zero_mul, Nat.add_zero]
  exact tracks

theorem Resumes.nil : voice.Resumes data [] := ⟨⟨[], voice⟩, ⟨[], voice⟩, rfl, rfl, .nil⟩

/-- A fresh voice resumes as long as it does not begin an audible call astray. -/
theorem Fresh.resumes (fresh : voice.Fresh)
    (accepted : voice.validate data true = .ok (.ok ()))
    (entered : voice.bounds.start.toNat + voice.method.span < voice.bounds.loopEnd.toNat)
    (paced : ∀ call ∈ calls, voice.bounds.loopEnd.toNat * 2 ^ 32 + call.step < 2 ^ 63)
    (clear : ¬ voice.Meets data Astray (calls.flatMap (Call.actions true))) :
    voice.Resumes data calls := by
  cases calls with
  | nil => exact .nil
  | cons call others =>
      have low : voice.bounds.start.toNat < 2 ^ 31 := by
        have pace := paced call (by simp)
        omega
      have loopable := loopable_of_validate accepted entered
      rw [resumes_iff_answered loopable paced (fresh.tracks low voice.method.kernel)]
      exact (fresh.follows low).perform loopable paced clear

/-- On the probe of its bounds a fresh voice does not resume when it begins an
audible call astray. -/
theorem Fresh.not_resumes_probe (fresh : voice.Fresh) {size : Nat}
    (accepted : voice.validate (voice.bounds.probe size) true = .ok (.ok ()))
    (entered : voice.bounds.start.toNat + voice.method.span < voice.bounds.loopEnd.toNat)
    (paced : ∀ call ∈ calls, voice.bounds.loopEnd.toNat * 2 ^ 32 + call.step < 2 ^ 63)
    (meets : voice.Meets (voice.bounds.probe size) Astray (calls.flatMap (Call.actions true))) :
    ¬ voice.Resumes (voice.bounds.probe size) calls := by
  cases calls with
  | nil => exact meets.elim
  | cons call others =>
      have low : voice.bounds.start.toNat < 2 ^ 31 := by
        have pace := paced call (by simp)
        omega
      have loopable := loopable_of_validate accepted entered
      have inside : voice.bounds.loopEnd.toNat ≤ size := by
        have fits := ((Bounds.validate_eq_ok_iff.1 accepted).2 rfl).inside
        rw [Bounds.size_probe] at fits
        exact fits
      rw [resumes_iff_answered loopable paced (fresh.tracks low voice.method.kernel)]
      rintro ⟨interrupted, performed, answered⟩
      exact (fresh.follows low).not_answered_of_meets loopable inside paced meets performed answered

/-- A voice that rounds positions is never astray. -/
theorem not_meets_astray (rounds : voice.method.kernel.shift = .half) :
    ¬ voice.Meets data Astray (calls.flatMap (Call.actions true)) := by
  induction calls generalizing voice with
  | nil => exact id
  | cons call calls inductionHypothesis =>
      rintro (⟨_, truncates, _⟩ | ⟨rendering, rendered, meets⟩)
      · exact absurd (rounds.symm.trans truncates) (by decide)
      · have same := voice_eq_of_render rendered
        have method : rendering.voice.method = voice.method := by
          rw [same]
          rfl
        rw [← method] at rounds
        exact inductionHypothesis rounds meets

/-- A voice that rounds positions always resumes. -/
theorem make_resumes_of_rounds {bounds : Bounds} {settings : Settings}
    (rounds : settings.method.kernel.shift = .half)
    (accepted : bounds.validate data.size true settings.method = .ok (.ok ()))
    (entered : bounds.start.toNat + settings.method.span < bounds.loopEnd.toNat)
    (paced : ∀ call ∈ calls, bounds.loopEnd.toNat * 2 ^ 32 + call.step < 2 ^ 63) :
    (make bounds settings).Resumes data calls :=
  (fresh_make bounds settings).resumes accepted entered paced (not_meets_astray rounds)

/-- Silent blocks leave no trace in those that are heard after them, whatever the
data of a size, exactly when no audible block begins at a voice astray. -/
theorem make_resumes_iff {bounds : Bounds} {settings : Settings}
    (accepted : bounds.validate data.size true settings.method = .ok (.ok ()))
    (entered : bounds.start.toNat + settings.method.span < bounds.loopEnd.toNat)
    (paced : ∀ call ∈ calls, bounds.loopEnd.toNat * 2 ^ 32 + call.step < 2 ^ 63) :
    (∀ other : SampleData, other.size = data.size → (make bounds settings).Resumes other calls) ↔
      ¬ (make bounds settings).Meets data Astray (calls.flatMap (Call.actions true)) := by
  have fresh := fresh_make bounds settings
  constructor
  · intro resumes meets
    have size : (bounds.probe data.size).size = data.size := Bounds.size_probe ..
    rw [meets_iff_of_size size.symm] at meets
    exact fresh.not_resumes_probe (by rw [Voice.validate, Bounds.size_probe]; exact accepted) entered
      paced meets (resumes _ size)
  · intro clear other size
    rw [meets_iff_of_size size.symm] at clear
    exact fresh.resumes (by rw [Voice.validate, size]; exact accepted) entered paced clear

/-- A block of silence over four and a half samples, and a block heard at rest. -/
def interruption : List Call := [⟨0.0703125, false, .filled 0⟩, ⟨0, true, .filled 0⟩]

theorem make_resumes_iff_interruption :
    (∀ other : SampleData, other.size = 8 →
      (make ⟨1, 7, 2, 6⟩ ⟨.linear, 1⟩).Resumes other interruption) ↔
      ¬ (make ⟨1, 7, 2, 6⟩ ⟨.linear, 1⟩).Meets (.ofWords #[0, 0, 0, 0, 0, 0, 0, 0]) Astray
        (interruption.flatMap (Call.actions true)) :=
  @make_resumes_iff (.ofWords #[0, 0, 0, 0, 0, 0, 0, 0]) _ _ _ (by decide) (by decide) (by decide)

/-- That voice does not resume on its probe: it comes from the end of the loop to
stand half a sample before it, and goes on into the loop from there. -/
theorem not_make_resumes_interruption :
    ¬ (make ⟨1, 7, 2, 6⟩ ⟨.linear, 1⟩).Resumes (Bounds.probe ⟨1, 7, 2, 6⟩ 8) interruption := by
  let data : SampleData := Bounds.probe ⟨1, 7, 2, 6⟩ 8
  let voice : Voice := (make ⟨1, 7, 2, 6⟩ ⟨.linear, 1⟩).setSpeed 0.0703125
  have ran : (Scene.staging .silence data.read data.sample voice.bounds true voice.step).laps
      (Scene.headOf .silence data.sample voice.bounds voice.looped)
      (.begin (voice.position + .half) voice.looped) =
        .ok ⟨.replicate 64 ⟨0, 0⟩, 1, ⟨0x200000000⟩, true⟩ := by
    rw [Scene.laps]
    decide +kernel
  have silenced := @Kernel.render_eq .silence _ _ voice true _ (fun _ => by decide)
    (fun _ near => absurd near (Nat.not_lt_zero _)) rfl ran (.filled 0)
  exact (fresh_make _ _).not_resumes_probe (by decide) (by decide) (by decide)
    (.inr ⟨_, silenced, .inl ⟨rfl, by decide⟩⟩)

end Voice

end Resampler
