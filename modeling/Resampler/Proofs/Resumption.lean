import Resampler.Proofs.Handover
import Resampler.Proofs.Independence
import Resampler.Proofs.LoopedPlayback

/-!
Contract: a voice that loops goes on after silence as if it had been heard.

Owns:
- the relation of a voice to the unwrapped position of one that is always heard;
- the state in which a kernel that truncates positions loses that position: early,
  unless a word is a whole number of loops;
- one render call, heard or not, from any other state.

Does not own: what is heard from that state, or whole sessions.
-/

namespace Resampler

/-- Half a sample before the first index of all, a straight line is a word behind
its loop, which does no harm when loops fill the word. -/
def Voice.Lucky (voice : Voice) : Prop :=
  voice.method = .linear ∧ voice.bounds.loopStart.toNat = 0 ∧ voice.bounds.loopSpan ∣ 2 ^ 32

instance (voice : Voice) : Decidable voice.Lucky :=
  inferInstanceAs (Decidable (_ ∧ _))

/-- An early voice whose method truncates positions and finds the wrong samples. -/
def Voice.Astray (voice : Voice) : Prop :=
  voice.method.kernel.shift = .zero ∧ voice.Early ∧ ¬ voice.Lucky

instance (voice : Voice) : Decidable voice.Astray :=
  inferInstanceAs (Decidable (_ ∧ _))

namespace Bounds

variable {bounds : Bounds} {position : Phase} {looped : Bool} {unwrapped limit : Nat}

theorem Tracks.below (tracks : bounds.Tracks limit position looped unwrapped) {other : Nat}
    (below : position.toNat < other) : bounds.Tracks other position looped unwrapped := by
  obtain ⟨laps, same, history, entered, _⟩ := tracks
  exact ⟨laps, same, history, entered, below⟩

theorem Tracks.add_half (tracks : bounds.Tracks (2 ^ 63) position looped unwrapped) :
    bounds.Tracks (2 ^ 63 + 2 ^ 31) (position + .half) looped (unwrapped + 2 ^ 31) := by
  obtain ⟨laps, same, history, entered, below⟩ := tracks
  have sum : (position + .half).toNat = position.toNat + 2 ^ 31 := by
    apply Phase.toNat_add_of_lt
    exact Nat.lt_of_lt_of_le (Nat.add_lt_add_right below _) (by decide)
  have entered := Phase.le_index_iff.1 entered
  refine ⟨laps, by omega, history, Phase.le_index_iff.2 ?_, by omega⟩
  rw [sum]
  exact Nat.le_trans entered (Nat.le_add_right _ _)

/-- A voice that is not early is on its track by its truncated position as well. -/
theorem Tracks.of_add_half
    (tracks : bounds.Tracks (2 ^ 63 + 2 ^ 31) (position + .half) looped (unwrapped + 2 ^ 31))
    (begun : bounds.start.toNat * 2 ^ 32 ≤ unwrapped)
    (late : looped = true → (position.index + 1) % 2 ^ 32 ≠ bounds.loopStart.toNat) :
    bounds.Tracks (2 ^ 63) position looped unwrapped := by
  obtain ⟨laps, same, history, entered, below⟩ := tracks
  have inWord := position.toNat_lt
  have rounded := position.toNat_add_half
  have entered := Phase.le_index_iff.1 entered
  cases looped with
  | false =>
      obtain rfl : laps = 0 := by
        by_contra some
        exact Bool.false_ne_true (history.2 (Nat.pos_of_ne_zero some))
      have exact : position.toNat = unwrapped := by omega
      refine ⟨0, by omega, history, Phase.le_index_iff.2 ?_, by omega⟩
      rw [exact]
      exact begun
  | true =>
      have late := late rfl
      simp only [entry, if_true] at entered
      have located : bounds.loopStart.toNat ≤ position.index := by
        unfold Phase.index at late ⊢
        omega
      have inLoop := Phase.le_index_iff.1 located
      have sum : (position + .half).toNat = position.toNat + 2 ^ 31 := by
        unfold Phase.index at late
        omega
      exact ⟨laps, by omega, history, located, by omega⟩

/-- Where loops fill the word, an early voice before the first index is on a
track that is a word further on. -/
theorem Tracks.of_add_half_of_early
    (tracks : bounds.Tracks (2 ^ 63 + 2 ^ 31) (position + .half) true (unwrapped + 2 ^ 31))
    (early : (position.index + 1) % 2 ^ 32 = 0) (first : bounds.loopStart.toNat = 0) :
    bounds.Tracks (2 ^ 64) position true (unwrapped + 2 ^ 64) ∧
      bounds.loopSpan * 2 ^ 32 ≤ unwrapped + 2 ^ 31 := by
  obtain ⟨laps, same, history, entered, below⟩ := tracks
  have inWord := position.toNat_lt
  have rounded := position.toNat_add_half
  have some := history.1 rfl
  have once : 1 * bounds.loopSpan ≤ laps * bounds.loopSpan := Nat.mul_le_mul_right _ some
  unfold Phase.index at early
  refine ⟨⟨laps, by omega, history, ?_, inWord⟩, ?_⟩
  · simp only [entry, first, if_true]
    exact Nat.zero_le _
  · rw [same]
    apply Nat.le_add_left_of_le
    exact Nat.mul_le_mul_right _ (by omega)

end Bounds

/-- One render call of a looping voice on its track, after which any kernel
finds it there by its nearest sample. -/
theorem Kernel.render_looping_handover {kernel : Kernel} {read : Reader} {sample : Nat → Float32}
    {voice : Voice} {limit unwrapped : Nat} (loopable : voice.bounds.Loopable kernel read sample)
    (wide : 2 ^ 63 ≤ limit) (word : limit ≤ 2 ^ 64)
    (limited : 2 ≤ kernel.after → limit + kernel.after * 2 ^ 32 ≤ 2 ^ 64)
    (paced : voice.bounds.loopEnd.toNat * 2 ^ 32 + voice.step.toNat < 2 ^ 63)
    (tracks : voice.bounds.Tracks limit (voice.position + kernel.shift) voice.looped
      (unwrapped + kernel.shift.toNat)) (block : Block) :
    ∃ rendering, kernel.render read voice true block = .ok rendering ∧
      rendering.count = blockSize ∧
      rendering.block.toList = (List.range blockSize).map (fun slot =>
        voice.bounds.loopReference kernel sample (unwrapped + slot * voice.step.toNat)) ∧
      rendering.voice =
        { voice with position := rendering.voice.position, looped := rendering.voice.looped } ∧
      voice.bounds.Tracks (2 ^ 63 + 2 ^ 31) (rendering.voice.position + .half)
        rendering.voice.looped (unwrapped + blockSize * voice.step.toNat + 2 ^ 31) := by
  obtain ⟨rendering, rendered, full, samples, same, after, below⟩ :=
    Kernel.render_looping loopable word limited
      (.inr (Nat.le_trans (Nat.le_of_lt paced) wide)) tracks block
  refine ⟨rendering, rendered, full, samples, same, ?_⟩
  have below := Nat.lt_trans below paced
  rcases kernel.shift_eq with shift | ⟨shift, _⟩
  · rw [shift] at below
    rw [shift, Phase.toNat_half] at after
    exact after.below (Nat.lt_of_lt_of_le below (by decide))
  · rw [shift, Phase.add_zero] at below
    rw [shift, Phase.add_zero, Phase.toNat_zero, Nat.add_zero] at after
    exact (after.below below).add_half

namespace Voice

variable {data : SampleData} {voice : Voice} {unwrapped : Nat}

/-- A voice that may have been silent, against the unwrapped position of one that
was always heard. It may have come some words ahead where that does no harm. -/
structure Follows (voice : Voice) (unwrapped : Nat) : Prop where
  begun : voice.bounds.start.toNat * 2 ^ 32 ≤ unwrapped
  tracks : ∃ ahead, voice.bounds.Tracks (2 ^ 63 + 2 ^ 31) (voice.position + .half) voice.looped
      (unwrapped + ahead * voice.bounds.loopSpan * 2 ^ 32 + 2 ^ 31) ∧
    (ahead = 0 ∨ voice.Lucky ∧ voice.bounds.loopSpan * 2 ^ 32 ≤ unwrapped + 2 ^ 31)

/-- Samples of a lucky voice are those of the unwrapped position, some laps ahead. -/
theorem Lucky.loopReference_eq (lucky : voice.Lucky)
    (loopable : voice.bounds.Loopable voice.method.kernel data.read data.sample)
    (turned : voice.bounds.loopSpan * 2 ^ 32 ≤ unwrapped + 2 ^ 31) (ahead offset : Nat) :
    voice.bounds.loopReference voice.method.kernel data.sample
        (unwrapped + ahead * voice.bounds.loopSpan * 2 ^ 32 + offset) =
      voice.bounds.loopReference voice.method.kernel data.sample (unwrapped + offset) := by
  obtain ⟨linear, first, _⟩ := lucky
  have entered := loopable.entered
  have long := loopable.long
  have length : voice.bounds.loopSpan =
      voice.bounds.loopEnd.toNat - voice.bounds.loopStart.toNat := rfl
  have before : voice.method.kernel.before = 0 := by rw [linear]; rfl
  have located : voice.bounds.loopSpan - 1 ≤
      (unwrapped + offset + voice.method.kernel.shift.toNat) / 2 ^ 32 := by omega
  rw [Nat.add_right_comm]
  apply Bounds.loopReference_add_laps
  · omega
  · omega

/-- A lucky voice that stands early is on its track by its truncated position as well, by
as many loops further on as fill the word. -/
theorem Lucky.tracks_of_early (lucky : voice.Lucky) (early : voice.Early)
    (tracks : voice.bounds.Tracks (2 ^ 63 + 2 ^ 31) (voice.position + .half) voice.looped
      (unwrapped + 2 ^ 31)) :
    (∃ loops, voice.bounds.Tracks (2 ^ 64) voice.position voice.looped
      (unwrapped + loops * voice.bounds.loopSpan * 2 ^ 32)) ∧
      voice.bounds.loopSpan * 2 ^ 32 ≤ unwrapped + 2 ^ 31 := by
  obtain ⟨_, first, loops, fills⟩ := lucky
  obtain ⟨turned, early⟩ := early
  rw [first] at early
  rw [turned] at tracks ⊢
  obtain ⟨tracks, further⟩ := tracks.of_add_half_of_early early first
  have word : (2 : Nat) ^ 64 = loops * voice.bounds.loopSpan * 2 ^ 32 :=
    calc (2 : Nat) ^ 64
      _ = 2 ^ 32 * 2 ^ 32 := by decide
      _ = voice.bounds.loopSpan * loops * 2 ^ 32 := congrArg (· * 2 ^ 32) fills
      _ = loops * voice.bounds.loopSpan * 2 ^ 32 := by rw [Nat.mul_comm loops]
  refine ⟨⟨loops, ?_⟩, further⟩
  rw [← word]
  exact tracks

/-- A voice that is not astray is on its track as its method locates it. -/
theorem Follows.tracks_method (follows : voice.Follows unwrapped) (clear : ¬ voice.Astray) :
    ∃ limit ahead, 2 ^ 63 ≤ limit ∧ limit ≤ 2 ^ 64 ∧
      (2 ≤ voice.method.kernel.after →
        limit + voice.method.kernel.after * 2 ^ 32 ≤ 2 ^ 64) ∧
      voice.bounds.Tracks limit (voice.position + voice.method.kernel.shift) voice.looped
        (unwrapped + ahead * voice.bounds.loopSpan * 2 ^ 32 + voice.method.kernel.shift.toNat) ∧
      (ahead = 0 ∨ voice.Lucky ∧ voice.bounds.loopSpan * 2 ^ 32 ≤ unwrapped + 2 ^ 31) := by
  obtain ⟨begun, ahead, tracks, luck⟩ := follows
  have limited : 2 ^ 63 + 2 ^ 31 + voice.method.kernel.after * 2 ^ 32 ≤ 2 ^ 64 := by
    cases voice.method <;> decide
  rcases voice.method.kernel.shift_eq with shift | ⟨shift, _⟩
  · rw [shift, Phase.toNat_half]
    exact ⟨2 ^ 63 + 2 ^ 31, ahead, by decide, by decide, fun _ => limited, tracks, luck⟩
  have truncated : ∀ {limit unwrapped : Nat},
      voice.bounds.Tracks limit voice.position voice.looped unwrapped →
        voice.bounds.Tracks limit (voice.position + voice.method.kernel.shift) voice.looped
          (unwrapped + voice.method.kernel.shift.toNat) := by
    intro limit unwrapped tracks
    rwa [shift, Phase.add_zero, Phase.toNat_zero, Nat.add_zero]
  by_cases early : voice.Early
  · have lucky : voice.Lucky := by
      by_contra unlucky
      exact clear ⟨shift, early, unlucky⟩
    obtain ⟨⟨loops, further⟩, once⟩ := lucky.tracks_of_early early tracks
    have turned : voice.bounds.loopSpan * 2 ^ 32 ≤ unwrapped + 2 ^ 31 := by
      rcases luck with rfl | ⟨_, turned⟩
      · rwa [Nat.zero_mul, Nat.zero_mul, Nat.add_zero] at once
      · exact turned
    refine ⟨2 ^ 64, ahead + loops, by decide, Nat.le_refl _, ?_, truncated ?_,
      .inr ⟨lucky, turned⟩⟩
    · rw [lucky.1]
      exact fun many => absurd many (by decide)
    · rw [Nat.add_mul, Nat.add_mul, ← Nat.add_assoc]
      exact further
  · have late : voice.looped = true →
        (voice.position.index + 1) % 2 ^ 32 ≠ voice.bounds.loopStart.toNat :=
      fun turned same => early ⟨turned, same⟩
    have begun : voice.bounds.start.toNat * 2 ^ 32 ≤
        unwrapped + ahead * voice.bounds.loopSpan * 2 ^ 32 :=
      Nat.le_trans begun (Nat.le_add_right _ _)
    have limited : 2 ^ 63 + voice.method.kernel.after * 2 ^ 32 ≤ 2 ^ 64 := by
      cases voice.method <;> decide
    exact ⟨2 ^ 63, ahead, Nat.le_refl _, by decide, fun _ => limited,
      truncated (tracks.of_add_half begun late), luck⟩

/-- It follows on when it has moved as the unwrapped position has. -/
private theorem Follows.of_moved {after : Voice} {ahead moved : Nat}
    (begun : voice.bounds.start.toNat * 2 ^ 32 ≤ unwrapped)
    (same : after = { voice with position := after.position, looped := after.looped })
    (tracks : voice.bounds.Tracks (2 ^ 63 + 2 ^ 31) (after.position + .half) after.looped
      (unwrapped + ahead * voice.bounds.loopSpan * 2 ^ 32 + moved + 2 ^ 31))
    (luck : ahead = 0 ∨ voice.Lucky ∧ voice.bounds.loopSpan * 2 ^ 32 ≤ unwrapped + 2 ^ 31) :
    after.Follows (unwrapped + moved) := by
  rw [same]
  refine ⟨Nat.le_trans begun (Nat.le_add_right _ _), ahead, ?_, ?_⟩
  · rw [Nat.add_right_comm unwrapped]
    exact tracks
  · exact luck.imp id fun ⟨lucky, turned⟩ =>
      ⟨lucky, Nat.le_trans turned (Nat.add_le_add_right (Nat.le_add_right _ _) _)⟩

/-- One call of a voice that follows: if it is heard, its block is that of the
unwrapped position. -/
theorem Follows.render
    (loopable : voice.bounds.Loopable voice.method.kernel data.read data.sample)
    (paced : voice.bounds.loopEnd.toNat * 2 ^ 32 + voice.step.toNat < 2 ^ 63)
    (follows : voice.Follows unwrapped) {audible : Bool} (clear : audible = true → ¬ voice.Astray)
    (block : Block) :
    ∃ rendering, voice.render data audible true block = .ok rendering ∧
      rendering.count = blockSize ∧
      (audible = true → rendering.block.toList = (List.range blockSize).map fun slot =>
        voice.bounds.loopReference voice.method.kernel data.sample
          (unwrapped + slot * voice.step.toNat)) ∧
      rendering.voice =
        { voice with position := rendering.voice.position, looped := rendering.voice.looped } ∧
      rendering.voice.Follows (unwrapped + blockSize * voice.step.toNat) := by
  cases audible with
  | false =>
      obtain ⟨ahead, tracks, luck⟩ := follows.tracks
      have silence : voice.bounds.Loopable .silence data.read data.sample :=
        loopable.mono (Nat.zero_le _)
      rw [← Phase.toNat_half] at tracks
      obtain ⟨rendering, rendered, full, _, same, after⟩ :=
        Kernel.render_looping_handover silence (by decide) (by decide)
          (fun many => absurd many (by decide)) paced tracks block
      exact ⟨rendering, rendered, full, fun heard => absurd heard Bool.false_ne_true, same,
        .of_moved follows.begun same after luck⟩
  | true =>
      obtain ⟨limit, ahead, wide, word, limited, tracks, luck⟩ :=
        follows.tracks_method (clear rfl)
      obtain ⟨rendering, rendered, full, samples, same, after⟩ :=
        Kernel.render_looping_handover loopable wide word limited paced tracks block
      refine ⟨rendering, rendered, full, fun _ => ?_, same,
        .of_moved follows.begun same after luck⟩
      rw [samples]
      apply List.map_congr_left
      intro slot _
      rcases luck with rfl | ⟨lucky, turned⟩
      · rw [Nat.zero_mul, Nat.zero_mul, Nat.add_zero]
      · exact lucky.loopReference_eq loopable turned ahead _

end Voice

end Resampler
