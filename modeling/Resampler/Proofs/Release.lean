import Resampler.Proofs.Acceptance
import Resampler.Proofs.PlayOut

/-!
Contract: a voice that has turned back and is let go plays on out of its loop.

Owns:
- the samples of such a voice: before the loop those at its end, from which the
  voice has come, and after the region its last sample;
- the laps of a loop that lies in the region up to its end;
- one render call of a voice let go in its loop, or after it, for any method.

Does not own: voices that have not turned back, or a loop that begins in the
region and ends after it.
-/

namespace Resampler

namespace Bounds

variable {bounds : Bounds} {kernel : Kernel} {read : Reader} {sample : Nat → Float32}
  {step : Phase}

/-- The stored sample behind a virtual index of a voice let go: as many samples
before the end of the loop as the index is before its start, and the last sample
of the region after it. -/
def released (bounds : Bounds) (virtual : Int) : Nat :=
  if virtual < bounds.loopStart.toNat then
    (bounds.loopEnd.toNat - (bounds.loopStart.toNat - virtual)).toNat
  else if bounds.last.toNat < virtual then
    bounds.last.toNat
  else
    virtual.toNat

theorem behind_eq_released (bounds : Bounds) (virtual : Int) :
    bounds.behind false true virtual = bounds.released virtual := by
  simp only [behind, released, entry, final, standInBefore, standInAfter, Bool.false_eq_true,
    if_true, if_false]
  split
  · omega
  · rfl

/-- A loop that lies in the region up to its end leaves room for the lap of a
voice let go, and all its taps are stored. -/
theorem regular_of_fits {size : Nat} (region : bounds.RegionFits size kernel.span)
    (loop : bounds.LoopFits size kernel.span)
    (enclosed : bounds.loopEnd.toNat ≤ bounds.last.toNat + 1)
    (given : ∀ index < size, index < Index.bound → read.Gives sample index) :
    (Scene.staging kernel read sample bounds false step).Regular sample true := by
  have inside := region.inside
  have long := loop.long
  have taps := kernel.taps_le_span
  have lastInWord := bounds.last.toNat_lt
  refine ⟨?_, ?_, ?_⟩
  · show bounds.loopStart.toNat + kernel.span ≤ bounds.last.toNat
    omega
  · intro _
    show kernel.before ≤ bounds.loopEnd.toNat
    omega
  · intro virtual _ _
    have stored : bounds.released virtual ≤ bounds.last.toNat := by
      unfold released
      split
      · omega
      · split <;> omega
    show read.Gives sample (bounds.behind false true virtual)
    rw [behind_eq_released]
    apply given
    · omega
    · show _ < 2 ^ 32
      omega

end Bounds

namespace Voice

variable {data : SampleData} {voice : Voice}

/-- A voice that has turned back in an accepted loop of its region, and is located
in the loop or after it, plays on when it no longer loops: in as many slots as are
located in the region, each tap before the loop taken from its end, and each after
the region from its last sample. It ends as many steps on, and else as it was. -/
theorem interpolate_released
    (accepted : voice.validate data true = .ok (.ok ()))
    (enclosed : voice.bounds.loopEnd.toNat ≤ voice.bounds.last.toNat + 1)
    (turned : voice.looped = true)
    (entered : voice.bounds.loopStart.toNat ≤ (voice.position + voice.method.kernel.shift).index)
    (early : voice.position.toNat + 4 * 2 ^ 32 ≤ 2 ^ 64)
    (paced : (voice.bounds.last.toNat + 5) * 2 ^ 32 + voice.step.toNat ≤ 2 ^ 64) (block : Block) :
    ∃ rendering, voice.interpolate data false block = .ok rendering ∧
      rendering.PlaysOut voice.method.kernel voice
        (fun virtual => data.sample (voice.bounds.released virtual)) block := by
  have few := voice.method.kernel.after_le
  have moved := voice.method.kernel.toNat_shift_le
  obtain ⟨region, loop⟩ := Bounds.validate_eq_ok_iff.1 accepted
  have regular : (Scene.staging voice.method.kernel data.read data.sample voice.bounds false
      voice.step).Regular data.sample voice.looped := by
    rw [turned]
    exact Bounds.regular_of_fits region (loop rfl) enclosed fun index inside inWord =>
      SampleData.gives inWord inside
  have entry : voice.bounds.entry voice.looped = voice.bounds.loopStart.toNat := by
    rw [turned]
    rfl
  obtain ⟨rendering, rendered, plays, _⟩ :=
    @Kernel.render_out _ _ _ _ (2 ^ 64 - 3 * 2 ^ 32) regular (by omega) (entry ▸ entered) (by omega)
      (by omega) block
  have stored : (fun virtual => data.sample (voice.bounds.behind false voice.looped virtual)) =
      fun virtual => data.sample (voice.bounds.released virtual) := by
    funext virtual
    rw [turned, Bounds.behind_eq_released]
  exact ⟨rendering, rendered, stored ▸ plays⟩

/-- Let go on the first sample of a loop of seven, with the sinc: three taps come from the
end of the loop, and ten slots are left to the end of the region. -/
theorem interpolate_released_seventhOrder :
    ∃ rendering,
      (Voice.mk ⟨0x200000000⟩ 1 true ⟨0, 11, 2, 9⟩ .seventhOrder).interpolate
          (.ofWords #[1, 2, 3, 4, 5, 6, 7, 8, 9, 10, 11, 12]) false (.filled 0) = .ok rendering ∧
      rendering.PlaysOut .seventhOrder (.mk ⟨0x200000000⟩ 1 true ⟨0, 11, 2, 9⟩ .seventhOrder)
        (fun virtual => (SampleData.ofWords #[1, 2, 3, 4, 5, 6, 7, 8, 9, 10, 11, 12]).sample
          (Bounds.released ⟨0, 11, 2, 9⟩ virtual)) (.filled 0) :=
  interpolate_released rfl (by decide) rfl (by decide) (by decide) (by decide) _

end Voice

end Resampler
