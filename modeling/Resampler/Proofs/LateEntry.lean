import Resampler.Proofs.Confinement
import Resampler.Proofs.Overreach

/-!
Contract: a voice whose region begins late in its loop reads past the end of it.

Owns:
- sessions of a looping voice that is heard throughout, from a reader that gives the
  samples before some index;
- the same for a new voice with accepted bounds, as long as its region begins before
  the end of the loop;
- bounds that were accepted for a method, and a session that reads past their loop.

The check of bounds measures the room before the end of the loop from the lesser of the
two starts. When the region begins inside the loop, that is the room of the loop over
again.

Does not own: silence, or voices that do not loop.
-/

namespace Resampler

namespace Voice

variable {data : SampleData} {bounds : Bounds} {settings : Settings} {calls : List Call}

/-- A looping voice that is heard throughout answers its calls exactly when none of
their slots reaches to a sample that is withheld. -/
theorem performBy_seam {voice : Voice} {read : Reader} {sample : Nat → Float32}
    {stop unwrapped : Nat}
    (seamed : voice.bounds.Seamed voice.method.kernel read sample stop)
    (audible : ∀ call ∈ calls, call.audible = true)
    (strides : ∀ call ∈ calls, voice.bounds.Strides voice.method.kernel call.step)
    (onSeam : voice.bounds.OnSeam voice.method.kernel
      (voice.position + voice.method.kernel.shift) voice.looped
        (unwrapped + voice.method.kernel.shift.toNat)) :
    (voice.performBy read (calls.flatMap (Call.actions true))).Yields
      (∀ position ∈ slotPositions unwrapped
          (calls.flatMap fun call => List.replicate blockSize call.step),
        ¬ voice.bounds.Overreaches voice.method.kernel stop
          (position + voice.method.kernel.shift.toNat))
      fun performance =>
        Call.Answered (Call.Filled (voice.bounds.seamReference voice.method.kernel sample))
          unwrapped calls performance.renderings := by
  induction calls generalizing voice unwrapped with
  | nil => exact ⟨nofun, .nil⟩
  | cons call calls inductionHypothesis =>
      have first := @Kernel.render_seam _ _ _ (voice.setSpeed call.speed) _ _ seamed
        (strides call (by simp)) onSeam call.block
      rw [List.flatMap_cons, List.flatMap_cons, slotPositions_append, slotPositions_replicate,
        List.sum_replicate_nat]
      simp only [List.forall_mem_append, List.forall_mem_map, List.mem_range]
      have kernel : (voice.setSpeed call.speed).kernel call.audible = voice.method.kernel := by
        rw [audible call (by simp)]
        rfl
      simp only [Call.actions, List.cons_append, List.nil_append, performBy, renderBy, adjust,
        kernel]
      refine first.bind fun {rendering} answer => ?_
      obtain ⟨full, samples, same, after⟩ := answer
      have bounds : rendering.voice.bounds = voice.bounds := by
        rw [same]
        rfl
      have method : rendering.voice.method = voice.method := by
        rw [same]
        rfl
      have rest := @inductionHypothesis rendering.voice (unwrapped + blockSize * call.step)
      rw [bounds, method] at rest
      refine (rest seamed (fun other member => audible other (by simp [member]))
        (fun other member => strides other (by simp [member])) after).map fun answers => ?_
      exact .cons ⟨full, samples⟩ (full ▸ answers)

/-- Accepted bounds give the samples before any index from the end of the loop to the
end of the data they were accepted for. -/
theorem seamed_of_validate {method : Method} {stop : Nat}
    (accepted : bounds.validate data.size true method = .ok (.ok ()))
    (entered : bounds.start < bounds.loopEnd) (covered : bounds.loopEnd.toNat ≤ stop)
    (stored : stop ≤ bounds.extent) :
    bounds.Seamed method.kernel (data.read.only 0 (stop - 1)) data.sample stop := by
  obtain ⟨region, loop⟩ := Bounds.validate_eq_ok_iff.1 accepted
  have loop := loop rfl
  have long := region.long
  have lastInside := region.inside
  have endInside := loop.inside
  have lastInWord := bounds.last.toNat_lt
  have endInWord := bounds.loopEnd.toNat_lt
  have entered := UInt32.lt_iff_toNat_lt.1 entered
  unfold Bounds.extent at stored
  refine ⟨entered, loop.long, ?_, covered, ?_, ?_⟩
  · show bounds.start.toNat + method.span < 2 ^ 32
    omega
  · intro index before
    refine (SampleData.gives ?_ ?_).only (Nat.zero_le _) (by omega)
    · show index < 2 ^ 32
      omega
    · omega
  · rintro index beyond ⟨value, found⟩
    rw [Reader.only, if_neg (by omega)] at found
    cases found

/-- A voice that is made begins on its seam. -/
theorem onSeam_make {method : Method} (room : bounds.start.toNat + method.span < 2 ^ 32) :
    bounds.OnSeam method.kernel (.ofIndex bounds.start.toNat + method.kernel.shift) false
      (bounds.start.toNat * 2 ^ 32 + method.kernel.shift.toNat) := by
  have few : method.kernel.after ≤ method.span := method.kernel.after_le_span
  have moved := method.kernel.toNat_shift_le
  have located := Phase.toNat_ofIndex_add bounds.start.toNat_lt
    (Nat.lt_of_le_of_lt moved (by decide))
  refine ⟨⟨0, by omega, by simp, Phase.le_index_iff.2 ?_, ?_⟩, nofun⟩
  · rw [located]
    exact Nat.le_add_right _ _
  · rw [located]
    unfold Bounds.horizon
    omega

/-- A new voice with accepted bounds, from the samples before an index alone. -/
theorem make_performBy_seam {stop : Nat}
    (accepted : bounds.validate data.size true settings.method = .ok (.ok ()))
    (entered : bounds.start < bounds.loopEnd)
    (audible : ∀ call ∈ calls, call.audible = true)
    (paced : ∀ call ∈ calls, bounds.loopEnd.toNat * 2 ^ 32 + call.step < 2 ^ 63)
    (covered : bounds.loopEnd.toNat ≤ stop) (stored : stop ≤ bounds.extent) :
    ((make bounds settings).performBy (data.read.only 0 (stop - 1))
        (calls.flatMap (Call.actions true))).Yields
      (∀ position ∈ slotPositions (bounds.start.toNat * 2 ^ 32)
          (calls.flatMap fun call => List.replicate blockSize call.step),
        ¬ bounds.Overreaches settings.method.kernel stop
          (position + settings.method.kernel.shift.toNat))
      fun performance =>
        Call.Answered (Call.Filled (bounds.seamReference settings.method.kernel data.sample))
          (bounds.start.toNat * 2 ^ 32) calls performance.renderings := by
  have region := (Bounds.validate_eq_ok_iff.1 accepted).1.long
  have lastInWord := bounds.last.toNat_lt
  have few := settings.method.kernel.after_le
  refine @performBy_seam _ (make bounds settings) _ _ _ _
    (seamed_of_validate accepted entered covered stored) audible (fun call member => ?_)
    (onSeam_make (Nat.lt_of_le_of_lt region lastInWord))
  have paced := paced call member
  show (bounds.loopEnd.toNat + 2) * 2 ^ 32 + call.step ≤
    2 ^ 64 - settings.method.kernel.after * 2 ^ 32
  omega

/-- A region that begins a span before the end of the loop is all that the check would
have to ask for besides: then the samples before the end of the loop are enough, and the
blocks hold what a voice should play. -/
theorem make_performBy_of_room
    (accepted : bounds.validate data.size true settings.method = .ok (.ok ()))
    (room : bounds.start.toNat + settings.method.span < bounds.loopEnd.toNat)
    (audible : ∀ call ∈ calls, call.audible = true)
    (paced : ∀ call ∈ calls, bounds.loopEnd.toNat * 2 ^ 32 + call.step < 2 ^ 63) :
    ∃ performance, (make bounds settings).performBy (data.read.only 0 (bounds.loopEnd.toNat - 1))
        (calls.flatMap (Call.actions true)) = .ok performance ∧
      Call.Answered (Call.Filled (bounds.loopReference settings.method.kernel data.sample))
        (bounds.start.toNat * 2 ^ 32) calls performance.renderings := by
  have entered := Nat.lt_of_le_of_lt (Nat.le_add_right _ _) room
  have short : ∀ position, ¬ bounds.Overreaches settings.method.kernel bounds.loopEnd.toNat
      (position + settings.method.kernel.shift.toNat) :=
    fun _ overreaches => Nat.not_le.2 room overreaches.stop_le
  have same : bounds.seamReference settings.method.kernel data.sample =
      bounds.loopReference settings.method.kernel data.sample :=
    funext fun position => Bounds.seamReference_eq_loopReference (short position)
  rw [← same]
  exact (make_performBy_seam accepted (UInt32.lt_iff_toNat_lt.2 entered) audible paced
    (Nat.le_refl _) (Nat.le_max_right _ _)).exists_of fun position _ => short position

/-- Bounds that were accepted for a method, with a region that begins before the end of
the loop, are played by a new voice without a fault, whichever speeds take it round and
round. Its blocks are, end to end, the samples heard at the unwrapped positions of their
slots. The session ends in the same way without the samples from the end of the loop on
exactly when no slot reaches that far. -/
theorem make_perform_seam_iff
    (accepted : bounds.validate data.size true settings.method = .ok (.ok ()))
    (entered : bounds.start < bounds.loopEnd)
    (audible : ∀ call ∈ calls, call.audible = true)
    (paced : ∀ call ∈ calls, bounds.loopEnd.toNat * 2 ^ 32 + call.step < 2 ^ 63) :
    ∃ performance, (make bounds settings).perform data (calls.flatMap (Call.actions true)) =
        .ok performance ∧
      performance.renderings.length = calls.length ∧
      (∀ rendering ∈ performance.renderings, rendering.count = blockSize) ∧
      performance.renderings.flatMap (fun rendering => rendering.block.toList) =
        (slotPositions (bounds.start.toNat * 2 ^ 32) (calls.flatMap fun call =>
          List.replicate blockSize call.step)).map
            (bounds.seamReference settings.method.kernel data.sample) ∧
      ((make bounds settings).performBy (data.read.only 0 (bounds.loopEnd.toNat - 1))
          (calls.flatMap (Call.actions true)) = .ok performance ↔
        ∀ position ∈ slotPositions (bounds.start.toNat * 2 ^ 32) (calls.flatMap fun call =>
            List.replicate blockSize call.step),
          ¬ bounds.Overreaches settings.method.kernel bounds.loopEnd.toNat
            (position + settings.method.kernel.shift.toNat)) := by
  have region := (Bounds.validate_eq_ok_iff.1 accepted).1.long
  have reads : ∀ high, data.read.Extends (data.read.only 0 high) :=
    fun _ => Reader.extends_only fun _ _ _ => rfl
  have whole := make_performBy_seam accepted entered audible paced (Nat.le_max_right _ _)
    (Nat.le_refl bounds.extent)
  -- No slot reaches past both the region and the loop: the head has room in the region.
  obtain ⟨performance, performed, answers⟩ := whole.exists_of fun position _ overreaches => by
    have within : bounds.last.toNat + 1 ≤ bounds.extent := Nat.le_max_left _ _
    have further := Nat.le_trans within overreaches.stop_le
    exact absurd region (Nat.not_le.2 further)
  obtain ⟨full, samples⟩ := Call.flatMap_of_filled answers
  have performed := performBy_of_extends (reads _) performed
  have loop := make_performBy_seam accepted entered audible paced (Nat.le_refl _)
    (Nat.le_max_right (bounds.last.toNat + 1) bounds.loopEnd.toNat)
  refine ⟨performance, (perform_eq_performBy ..).trans performed, answers.length_eq, full, samples,
    loop.of_ok, fun short => ?_⟩
  obtain ⟨other, ended, _⟩ := loop.exists_of short
  have same := performed.symm.trans (performBy_of_extends (reads _) ended)
  rw [ended, ← Except.ok.inj same]

/-- The last sample of a loop of silent samples, with loud ones after it, played at half
speed. -/
theorem make_perform_seam_iff_last :
    ∃ performance,
      (make ⟨5, 9, 2, 6⟩ ⟨.fourthOrder, 0.5⟩).perform
          (.ofWords #[0, 0, 0, 0, 0, 0, 1000, 1000, 1000, 1000])
          ([⟨0.5, true, .filled 0⟩].flatMap (Call.actions true)) = .ok performance ∧
      performance.renderings.length = 1 ∧
      (∀ rendering ∈ performance.renderings, rendering.count = blockSize) ∧
      performance.renderings.flatMap (fun rendering => rendering.block.toList) =
        (slotPositions (5 * 2 ^ 32) ([⟨0.5, true, .filled 0⟩].flatMap fun call : Call =>
          List.replicate blockSize call.step)).map
            (Bounds.seamReference ⟨5, 9, 2, 6⟩ .fourthOrder
              (SampleData.ofWords #[0, 0, 0, 0, 0, 0, 1000, 1000, 1000, 1000]).sample) ∧
      ((make ⟨5, 9, 2, 6⟩ ⟨.fourthOrder, 0.5⟩).performBy
          ((SampleData.ofWords #[0, 0, 0, 0, 0, 0, 1000, 1000, 1000, 1000]).read.only 0 5)
          ([⟨0.5, true, .filled 0⟩].flatMap (Call.actions true)) = .ok performance ↔
        ∀ position ∈ slotPositions (5 * 2 ^ 32) ([⟨0.5, true, .filled 0⟩].flatMap fun call : Call =>
            List.replicate blockSize call.step),
          ¬ Bounds.Overreaches ⟨5, 9, 2, 6⟩ .fourthOrder 6
            (position + Kernel.fourthOrder.shift.toNat)) :=
  @make_perform_seam_iff (.ofWords #[0, 0, 0, 0, 0, 0, 1000, 1000, 1000, 1000]) ⟨5, 9, 2, 6⟩
    ⟨.fourthOrder, 0.5⟩ [⟨0.5, true, .filled 0⟩] rfl (by decide) (by decide) (by decide)

/-- Its first slot reaches the second sample after the loop: the bounds are accepted, but
the session cannot do without what is stored there. -/
theorem not_make_performBy_last :
    Bounds.validate ⟨5, 9, 2, 6⟩ 10 true .fourthOrder = .ok (.ok ()) ∧
      ¬ ∃ performance,
        (make ⟨5, 9, 2, 6⟩ ⟨.fourthOrder, 0.5⟩).performBy
          ((SampleData.ofWords #[0, 0, 0, 0, 0, 0, 1000, 1000, 1000, 1000]).read.only 0 5)
          ([⟨0.5, true, .filled 0⟩].flatMap (Call.actions true)) = .ok performance := by
  refine ⟨rfl, ?_⟩
  rintro ⟨performance, performed⟩
  have loop := @make_performBy_seam (.ofWords #[0, 0, 0, 0, 0, 0, 1000, 1000, 1000, 1000])
    ⟨5, 9, 2, 6⟩ ⟨.fourthOrder, 0.5⟩ [⟨0.5, true, .filled 0⟩] 6 rfl (by decide) (by decide)
    (by decide) (by decide) (by decide)
  exact loop.of_ok performed (5 * 2 ^ 32) (.head _) (by decide)

end Voice

end Resampler
