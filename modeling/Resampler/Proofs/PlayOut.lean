import Resampler.Proofs.Playback
import Resampler.Proofs.Reference

/-!
Contract: a voice that does not loop plays on to the last sample of its region.

Owns:
- the lap of such a voice, from the start of the region or, when it has turned
  back before, from the start of the loop;
- the number of slots of a block that are located in the lap;
- one render call, for any kernel and any history: which slots it fills, with
  the samples behind which indices, and where it leaves the voice.

Does not own: the stored samples that stand in for those outside the lap.
-/

namespace Resampler

namespace Bounds

variable {bounds : Bounds} {kernel : Kernel} {read : Reader} {sample : Nat → Float32}
  {limit unwrapped : Nat} {position step : Phase} {history looped : Bool}

/-- A located position below a limit, in the lap of a history or after it. Up to
the last sample the step keeps it below the limit. -/
structure Advances (bounds : Bounds) (limit : Nat) (step : Phase) (history : Bool)
    (position : Phase) (looped : Bool) (unwrapped : Nat) : Prop where
  same : position.toNat = unwrapped
  kept : looped = history
  entered : bounds.entry history ≤ position.index
  below : position.toNat < limit
  paced : position.index ≤ bounds.last.toNat →
    (bounds.last.toNat + 1) * 2 ^ 32 + step.toNat ≤ limit

/-- The number of leading slots of a block, `step` units apart, that are
located no later than the last sample. -/
def leading (bounds : Bounds) (kernel : Kernel) (position step : Nat) : Nat :=
  ((List.range blockSize).takeWhile fun slot =>
    (position + slot * step + kernel.shift.toNat) / 2 ^ 32 ≤ bounds.last.toNat).length

theorem leading_eq {position step count : Nat} (inBlock : count ≤ blockSize)
    (inside : ∀ slot < count,
      (position + slot * step + kernel.shift.toNat) / 2 ^ 32 ≤ bounds.last.toNat)
    (ending : count = blockSize ∨
      bounds.last.toNat < (position + count * step + kernel.shift.toNat) / 2 ^ 32) :
    bounds.leading kernel position step = count := by
  obtain ⟨rest, split⟩ := Nat.exists_eq_add_of_le inBlock
  rw [leading, split, List.range_add, List.takeWhile_append_of_pos, List.length_append,
    List.length_range]
  · cases rest with
    | zero => rfl
    | succ rest =>
        have outside := ending.resolve_left (by omega)
        rw [List.range_succ_eq_map, List.map_cons, List.takeWhile_cons_of_neg (by simpa using outside)]
        rfl
  · intro slot member
    exact decide_eq_true (inside slot (List.mem_range.1 member))

/-- A position that advances in the lap advances by a step. -/
theorem Advances.advance (limited : limit ≤ 2 ^ 64)
    (advances : bounds.Advances limit step history position looped unwrapped)
    (located : position.index ≤ bounds.last.toNat) :
    bounds.Advances limit step history (position + step) looped (unwrapped + step.toNat) ∧
      position.index ≤ (position + step).index := by
  obtain ⟨same, kept, entered, _, paced⟩ := advances
  have paced := paced located
  have inLap : position.toNat < (bounds.last.toNat + 1) * 2 ^ 32 :=
    Phase.index_lt_iff.1 (Nat.lt_succ_of_le located)
  have fits : position.toNat + step.toNat < 2 ^ 64 := by omega
  have sum := Phase.toNat_add_of_lt fits
  have forward := Phase.index_le_index_add fits
  exact ⟨⟨by omega, kept, by omega, by omega, fun _ => paced⟩, forward⟩

/-- A regular lap that does not loop is heard as it stands, from one end to the other. -/
theorem simulates_of_regular
    (regular : (Scene.staging kernel read sample bounds false step).Regular sample history)
    (limited : limit + kernel.after * 2 ^ 32 ≤ 2 ^ 64) :
    (Scene.staging kernel read sample bounds false step).Simulates sample
      (bounds.Advances limit step history)
      (kernel.heard fun virtual => sample (bounds.behind false history virtual)) where
  regular := fun advances => advances.kept ▸ regular
  started := fun advances => advances.kept ▸ advances.entered
  fits := by
    intro position looped unwrapped advances _
    have below := advances.below
    show position.index + kernel.after < 2 ^ 32
    unfold Phase.index
    omega
  sounds := by
    intro position looped unwrapped advances _
    obtain rfl := advances.same
    rw [advances.kept]
    apply @Scene.played_eq_heard _ _ _ _ 0
    intro virtual _
    rw [Int.natCast_zero, Int.add_zero]
    rfl
  steps := fun advances located => advances.advance (by omega) located
  turns := by
    intro position looped unwrapped looping
    exact absurd looping Bool.false_ne_true

end Bounds

/-- What a render call that does not loop leaves: samples in the leading slots
of the block, with `stored` behind each virtual index, the old samples in the
others, and a voice that is moved on by as many steps and is else the same. -/
structure Rendering.PlaysOut (rendering : Rendering) (kernel : Kernel) (voice : Voice)
    (stored : Int → Float32) (block : Block) : Prop where
  count : rendering.count =
    voice.bounds.leading kernel voice.position.toNat voice.step.toNat
  written : ∀ slot (isSlot : slot < blockSize), slot < rendering.count →
    rendering.block[slot] = kernel.heard stored
      (voice.position.toNat + slot * voice.step.toNat + kernel.shift.toNat)
  kept : ∀ slot (isSlot : slot < blockSize), rendering.count ≤ slot →
    rendering.block[slot] = block[slot]
  voice_eq : rendering.voice = { voice with position := rendering.voice.position }
  moved : rendering.voice.position.toNat =
    voice.position.toNat + rendering.count * voice.step.toNat

namespace Kernel

variable {kernel : Kernel} {read : Reader} {sample : Nat → Float32} {voice : Voice} {limit : Nat}

/-- A voice below a limit, in a regular lap or after it, plays on in the lap and
stays below the limit. Short of a block it ends after the lap, and from there it
fills no slot. -/
theorem render_out
    (regular : (Scene.staging kernel read sample voice.bounds false voice.step).Regular sample
      voice.looped)
    (room : limit + kernel.after * 2 ^ 32 ≤ 2 ^ 64)
    (entered : voice.bounds.entry voice.looped ≤ (voice.position + kernel.shift).index)
    (below : voice.position.toNat + kernel.shift.toNat < limit)
    (paced : (voice.position + kernel.shift).index ≤ voice.bounds.last.toNat →
      (voice.bounds.last.toNat + 1) * 2 ^ 32 + voice.step.toNat ≤ limit)
    (block : Block) :
    ∃ rendering, kernel.render read voice false block = .ok rendering ∧
      rendering.PlaysOut kernel voice
        (fun virtual => sample (voice.bounds.behind false voice.looped virtual)) block ∧
      voice.bounds.entry voice.looped ≤ (rendering.voice.position + kernel.shift).index ∧
      rendering.voice.position.toNat + kernel.shift.toNat < limit ∧
      (rendering.count < blockSize →
        voice.bounds.last.toNat < (rendering.voice.position + kernel.shift).index) ∧
      (voice.bounds.last.toNat < (voice.position + kernel.shift).index → rendering.count = 0) := by
  have located : (voice.position + kernel.shift).toNat =
      voice.position.toNat + kernel.shift.toNat := by
    apply Phase.toNat_add_of_lt
    omega
  have advances : voice.bounds.Advances limit voice.step voice.looped
      (voice.position + kernel.shift) voice.looped
      (voice.position.toNat + kernel.shift.toNat) :=
    ⟨located, rfl, entered, located ▸ below, paced⟩
  obtain ⟨rendering, rendered, plays, after, within, ending, _⟩ :=
    Kernel.render_plays (fun looping => absurd looping (by decide))
      (Bounds.simulates_of_regular regular room) advances block
  have inside : ∀ slot < rendering.count,
      (voice.position.toNat + slot * voice.step.toNat + kernel.shift.toNat) / 2 ^ 32 ≤
        voice.bounds.last.toNat := by
    intro slot counted
    obtain ⟨position, looped, related, inLap⟩ := within slot counted
    have same : position.toNat = voice.position.toNat + kernel.shift.toNat +
      slot * voice.step.toNat := related.same
    rw [Nat.add_right_comm, ← same]
    exact inLap
  have same := after.same
  have moved : rendering.voice.position.toNat =
      voice.position.toNat + rendering.count * voice.step.toNat :=
    Phase.toNat_eq_of_toNat_add_eq (same.trans (Nat.add_right_comm ..))
  have voice_eq : rendering.voice = { voice with position := rendering.voice.position } := by
    have voice_eq := plays.voice_eq
    rwa [after.kept] at voice_eq
  have belowAfter := after.below
  refine ⟨rendering, rendered, ⟨?_, ?_, plays.kept, voice_eq, moved⟩, after.entered, ?_, ?_, ?_⟩
  · symm
    apply Bounds.leading_eq plays.inBlock inside
    rcases ending with full | ⟨_, past⟩
    · exact .inl full
    · right
      rw [Nat.add_right_comm, ← same]
      exact past
  · intro slot isSlot counted
    rw [plays.written slot isSlot counted, Nat.add_right_comm]
  · omega
  · intro short
    exact (ending.resolve_left (Nat.ne_of_lt short)).2
  · intro ended
    by_contra some
    have first := inside 0 (Nat.pos_of_ne_zero some)
    rw [Phase.index, located] at ended
    omega

end Kernel

end Resampler
