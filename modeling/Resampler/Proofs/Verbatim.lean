import Resampler.Proofs.Duration
import Resampler.Proofs.Forward
import Resampler.Proofs.Numeric.Neutral
import Resampler.Proofs.Seam

/-!
Contract: positions exactly on a sample, and the samples heard there.

Owns:
- the rows that are selected there, and the sample that each method makes of
  its taps;
- whole-number speeds, which lead from one such position to another;
- one call that does not loop at such a position and speed, whose slots hold the
  stored samples just when the method is not the windowed sinc.

The row of the windowed sinc that is selected there is the one next to the row
whose centre lies on the sample.

Does not own: positions between samples.
-/

namespace Resampler

open Reading

/-! ## Rows -/

namespace Weights

private theorem linear_zero : linear 0 = [1, 0] := by
  decide +kernel

private theorem cubic_zero : cubic 0 = [-0, 1, 0, -0] := by
  decide +kernel

/-- With the row of half a sample, a single one is not heard as one, be it between zeros or held at
an end of the region. -/
private theorem weigh_sinc_ne : ∀ taps ∈
    ([[0, 0, 0, 1, 0, 0, 0], [1, 1, 1, 1, 0, 0, 0], [0, 0, 0, 1, 1, 1, 1]] : List (List Int)),
      weigh (sincRow 128) (taps.map .ofInt) ≠ .ofInt 1 := by
  decide +kernel

end Weights

namespace Kernel

variable {stored : Int → Float32}

private theorem row_ofNat_whole (index : Nat) : (Phase.ofNat (index * 2 ^ 32)).row = 0 := by
  have row := Phase.row_ofNat_add 0 index
  rwa [Nat.zero_add] at row

/-- The weights of the taps, a row for each fraction. Without a tap or with one there are none. -/
def table? : Kernel → Option Weights.Table
  | silence | nearest => none
  | linear => some Weights.linearTable
  | fourthOrder => some Weights.cubicTable
  | seventhOrder => some Weights.sincTable

def unitRow (kernel : Kernel) : List Float32 :=
  (List.range kernel.width).map fun tap => if tap = kernel.before then 1 else 0

def Picks (kernel : Kernel) (row : Fin Phase.rowCount) : Prop :=
  ∀ table ∈ kernel.table?, table.get row == kernel.unitRow

theorem picks_iff {kernel : Kernel} {row : Fin Phase.rowCount} {table : Weights.Table}
    (found : kernel.table? = some table) :
    kernel.Picks row ↔ table.get row == kernel.unitRow := by
  simp [Picks, found]

/-- On a sample, a method other than the windowed sinc makes that sample of its taps. -/
theorem heard_whole {method : Method} (other : method ≠ .seventhOrder)
    (plain : ∀ virtual, Plain (stored virtual)) (index : Nat) :
    method.kernel.heard stored (index * 2 ^ 32 + method.kernel.shift.toNat) = stored index := by
  have zero : IsZero 0 := ⟨.positive, rfl⟩
  have below : IsZero (-0) := ⟨.negative, rfl⟩
  have located : index * 2 ^ 32 / 2 ^ 32 = index := Nat.mul_div_cancel _ (by decide)
  cases method with
  | nearest =>
      have shift : Method.nearest.kernel.shift.toNat = 2 ^ 31 := Phase.toNat_half
      have rounded : (2 ^ 31 + index * 2 ^ 32) / 2 ^ 32 = index := by omega
      rw [shift, Nat.add_comm, heard, rounded, Method.kernel, window_nearest]
      rfl
  | linear =>
      have shift : Method.linear.kernel.shift.toNat = 0 := Phase.toNat_zero
      rw [shift, Nat.add_zero, heard, row_ofNat_whole, located, Method.kernel, window_linear, output,
        Weights.linearTable_get, Weights.linear_zero]
      exact weigh_one_cons (plain _) (by simp [zero]) (by simp [plain])
  | fourthOrder =>
      have shift : Method.fourthOrder.kernel.shift.toNat = 0 := Phase.toNat_zero
      rw [shift, Nat.add_zero, heard, row_ofNat_whole, located, Method.kernel, window_fourthOrder,
        output, Weights.cubicTable_get, Weights.cubic_zero]
      exact weigh_zero_one_cons below (plain _) (plain _) (by simp [zero, below])
        (by simp [plain])
  | seventhOrder => exact absurd rfl other

/-- The windowed sinc weighs its taps there with the row of half a sample. -/
theorem heard_seventhOrder (index : Nat) :
    seventhOrder.heard stored (index * 2 ^ 32 + seventhOrder.shift.toNat) =
      Weights.weigh (Weights.sincRow 128) ((seventhOrder.window index).map stored) := by
  have shift : seventhOrder.shift.toNat = 2 ^ 31 := Phase.toNat_half
  have rounded : (2 ^ 31 + index * 2 ^ 32) / 2 ^ 32 = index := by omega
  have half : (Phase.ofNat (2 ^ 31)).row = 128 := by decide
  rw [shift, Nat.add_comm, heard, Phase.row_ofNat_add, half, rounded, output,
    Weights.sincTable_get]

end Kernel

/-- The row that is selected on a sample picks it, unless it is one of the windowed sinc. -/
theorem Method.picks_row_shift_iff {method : Method} :
    method.kernel.Picks method.kernel.shift.row ↔ method ≠ .seventhOrder := by
  cases method with
  | nearest => simp [kernel, Kernel.Picks, Kernel.table?]
  | linear =>
      rw [Kernel.picks_iff rfl, Weights.linearTable_get]
      exact iff_of_true (by decide +kernel) (by decide)
  | fourthOrder =>
      rw [Kernel.picks_iff rfl, Weights.cubicTable_get]
      exact iff_of_true (by decide +kernel) (by decide)
  | seventhOrder =>
      rw [Kernel.picks_iff rfl, Weights.sincTable_get]
      exact iff_of_false (by decide +kernel) (by decide)

/-! ## A single one -/

def SampleData.mark (size index : Nat) : SampleData :=
  .ofWords (Array.ofFn fun other : Fin size => if other.val = index then 1 else 0)

@[simp] theorem SampleData.size_mark (size index : Nat) : (mark size index).size = size := by
  simp [mark, SampleData.size, ofWords]

theorem SampleData.sample_mark {size index other : Nat} (inside : other < size) :
    (mark size index).sample other = .ofInt (if other = index then 1 else 0) := by
  simp only [sample, mark, integer?_ofWords, Array.getElem?_ofFn, dif_pos inside, Option.map_some,
    Option.getD_some]
  split <;> rfl

theorem Bounds.clamped_le {bounds : Bounds} (ordered : bounds.start.toNat ≤ bounds.last.toNat)
    (virtual : Int) : bounds.clamped virtual ≤ bounds.last.toNat := by
  unfold clamped
  omega

theorem Bounds.clamped_of_mem {bounds : Bounds} {index : Nat} (started : bounds.start.toNat ≤ index)
    (inRegion : index ≤ bounds.last.toNat) : bounds.clamped index = index := by
  unfold clamped
  omega

/-- The taps around a single one, where the region goes on, begins, or ends. -/
private theorem Kernel.exists_taps_mark {bounds : Bounds} {size index : Nat}
    (long : bounds.start.toNat < bounds.last.toNat) (inside : bounds.last.toNat < size)
    (started : bounds.start.toNat ≤ index) (inRegion : index ≤ bounds.last.toNat) :
    ∃ taps ∈ ([[0, 0, 0, 1, 0, 0, 0], [1, 1, 1, 1, 0, 0, 0], [0, 0, 0, 1, 1, 1, 1]] :
        List (List Int)),
      (seventhOrder.window index).map (fun virtual =>
        (SampleData.mark size index).sample (bounds.clamped virtual)) = taps.map .ofInt := by
  have marks : ∀ virtual, (SampleData.mark size index).sample (bounds.clamped virtual) =
      .ofInt (if bounds.clamped virtual = index then 1 else 0) := fun virtual =>
    SampleData.sample_mark ((bounds.clamped_le long.le virtual).trans_lt inside)
  have early : ∀ virtual : Int, virtual < index →
      (bounds.clamped virtual = index ↔ index = bounds.start.toNat) := by
    intro virtual before
    unfold Bounds.clamped
    omega
  have late : ∀ virtual : Int, index < virtual →
      (bounds.clamped virtual = index ↔ index = bounds.last.toNat) := by
    intro virtual beyond
    unfold Bounds.clamped
    omega
  have here := Bounds.clamped_of_mem started inRegion
  rw [window_seventhOrder]
  simp only [List.map_cons, List.map_nil, marks, here, if_true,
    early (index - 3) (by omega), early (index - 2) (by omega), early (index - 1) (by omega),
    late (index + 1) (by omega), late (index + 2) (by omega), late (index + 3) (by omega)]
  by_cases first : index = bounds.start.toNat
  · have notLast : index ≠ bounds.last.toNat := by omega
    rw [if_pos first, if_neg notLast]
    exact ⟨[1, 1, 1, 1, 0, 0, 0], by simp, rfl⟩
  by_cases final : index = bounds.last.toNat
  · rw [if_neg first, if_pos final]
    exact ⟨[0, 0, 0, 1, 1, 1, 1], by simp, rfl⟩
  · rw [if_neg first, if_neg final]
    exact ⟨[0, 0, 0, 1, 0, 0, 0], by simp, rfl⟩

/-- The windowed sinc makes something else of a single one, wherever in the region it is. -/
theorem Kernel.heard_mark_ne {bounds : Bounds} {size index : Nat}
    (long : bounds.start.toNat < bounds.last.toNat) (inside : bounds.last.toNat < size)
    (started : bounds.start.toNat ≤ index) (inRegion : index ≤ bounds.last.toNat) :
    seventhOrder.heard (fun virtual => (SampleData.mark size index).sample (bounds.clamped virtual))
        (index * 2 ^ 32 + seventhOrder.shift.toNat) ≠ (SampleData.mark size index).sample index := by
  obtain ⟨taps, member, same⟩ := exists_taps_mark long inside started inRegion
  rw [heard_seventhOrder, same, SampleData.sample_mark (inRegion.trans_lt inside), if_pos rfl]
  exact Weights.weigh_sinc_ne taps member

/-! ## Calls -/

/-- At a whole-number speed a step is one of whole samples, or one of 2 ^ 31 samples at least. -/
theorem Phase.ofSpeed_whole {speed : Float32} {number : Int}
    (whole : ofSingle speed = .number number) :
    (∃ samples, (ofSpeed speed).toNat = samples * 2 ^ 32) ∨ 2 ^ 63 ≤ (ofSpeed speed).toNat := by
  have units : ⌊(number * 2 ^ 32 : ℚ)⌋₊ = number.toNat * 2 ^ 32 := by
    have scaled : (number * 2 ^ 32 : ℚ) = ((number * 2 ^ 32 : Int) : ℚ) := by
      push_cast
      rfl
    rw [scaled, ← Int.floor_toNat, Int.floor_intCast]
    omega
  rw [ofSpeed_of_number whole, units]
  rcases Nat.lt_or_ge (number.toNat * 2 ^ 32) (2 ^ 63) with small | large
  · exact .inl ⟨number.toNat, toNat_ofUnits_of_lt small⟩
  · right
    have many : 2 ^ 31 ≤ min number.toNat (2 ^ 32 - 1) := by omega
    rw [toNat_ofUnits_of_le large, Nat.mul_div_cancel _ (by decide)]
    exact (Nat.mul_le_mul_right (2 ^ 32) many).trans (Nat.le_add_right _ _)

/-- A whole number of samples does not change the row. -/
theorem Phase.row_add_of_whole {position distance : Phase} (whole : position.fraction = 0) :
    (position + distance).row = distance.row := by
  have begun := position.toNat_eq_index_add_fraction
  rw [whole, Nat.add_zero] at begun
  have same : position + distance = .ofNat (distance.toNat + position.index * 2 ^ 32) := by
    apply ext_toNat
    rw [toNat_add, toNat_ofNat, begun, Nat.add_comm]
  rw [same, row_ofNat_add, ofNat_toNat]

def Rendering.Picks (rendering : Rendering) (voice : Voice) : Prop :=
  ∀ slot < rendering.count, voice.method.kernel.Picks
    (voice.position.after voice.step slot + voice.method.kernel.shift).row

def Rendering.Verbatim (rendering : Rendering) (voice : Voice) (data : SampleData) : Prop :=
  ∀ slot (isSlot : slot < blockSize), slot < rendering.count →
    rendering.block[slot] = data.sample (voice.position.after voice.step slot).index

/-- A call whose slots all lie on samples of the region: each holds what the method makes of it. -/
structure Rendering.OnSamples (rendering : Rendering) (voice : Voice) (sample : Nat → Float32) :
    Prop where
  some : 0 < rendering.count
  inBlock : rendering.count ≤ blockSize
  whole : ∀ slot < rendering.count, (voice.position.after voice.step slot).fraction = 0
  started : ∀ slot < rendering.count,
    voice.bounds.start.toNat ≤ (voice.position.after voice.step slot).index
  inRegion : ∀ slot < rendering.count,
    (voice.position.after voice.step slot).index ≤ voice.bounds.last.toNat
  written : ∀ slot (isSlot : slot < blockSize), slot < rendering.count →
    rendering.block[slot] = voice.bounds.onceReference voice.method.kernel sample
      ((voice.position.after voice.step slot).index * 2 ^ 32)

namespace Rendering.OnSamples

variable {rendering : Rendering} {voice : Voice} {data : SampleData}

theorem picks_iff {sample : Nat → Float32} (onSamples : rendering.OnSamples voice sample) :
    rendering.Picks voice ↔ voice.method ≠ .seventhOrder := by
  rw [← Method.picks_row_shift_iff]
  constructor
  · intro picks
    rw [← Phase.row_add_of_whole (onSamples.whole 0 onSamples.some)]
    exact picks 0 onSamples.some
  · intro picks slot counted
    rwa [Phase.row_add_of_whole (onSamples.whole slot counted)]

theorem verbatim (onSamples : rendering.OnSamples voice data.sample)
    (other : voice.method ≠ .seventhOrder) : rendering.Verbatim voice data := by
  intro slot isSlot counted
  rw [onSamples.written slot isSlot counted, Bounds.onceReference,
    Kernel.heard_whole other (fun virtual => data.plain_sample _),
    Bounds.clamped_of_mem (onSamples.started slot counted) (onSamples.inRegion slot counted)]

/-- The windowed sinc does not play a single one in the first slot. -/
theorem not_verbatim {size : Nat} (seventh : voice.method = .seventhOrder)
    (fits : voice.bounds.RegionFits size voice.method.span)
    (onSamples : rendering.OnSamples voice (SampleData.mark size voice.position.index).sample) :
    ¬ rendering.Verbatim voice (.mark size voice.position.index) := by
  intro verbatim
  have long : voice.bounds.start.toNat + voice.method.span ≤ voice.bounds.last.toNat := fits.long
  have span : voice.method.span = 5 := by rw [seventh]; rfl
  have written := onSamples.written 0 (by decide) onSamples.some
  rw [verbatim 0 (by decide) onSamples.some, seventh, Phase.after, Bounds.onceReference] at written
  exact Kernel.heard_mark_ne (by omega) fits.inside (onSamples.started 0 onSamples.some)
    (onSamples.inRegion 0 onSamples.some) written.symm

end Rendering.OnSamples

namespace Voice

variable {voice : Voice} {data : SampleData}

/-- A voice that has not turned back, on a sample of its region, with a step from there to another
sample or out of the region. -/
structure OnSample (voice : Voice) : Prop where
  fresh : voice.looped = false
  whole : voice.position.fraction = 0
  started : voice.bounds.start.toNat ≤ voice.position.index
  inRegion : voice.position.index ≤ voice.bounds.last.toNat
  speed : ∃ number : Int, ofSingle voice.speed = .number number
  paced : (voice.bounds.last.toNat + 5) * 2 ^ 32 + voice.step.toNat ≤ 2 ^ 64

theorem OnSample.toNat_position (onSample : voice.OnSample) :
    voice.position.toNat = voice.position.index * 2 ^ 32 := by
  rw [voice.position.toNat_eq_index_add_fraction, onSample.whole, Nat.add_zero]

/-- A slot in the region lies on a sample of it. -/
theorem OnSample.exists_index (onSample : voice.OnSample) {slot : Nat}
    (located : (voice.position.toNat + slot * voice.step.toNat + voice.method.kernel.shift.toNat) /
      2 ^ 32 ≤ voice.bounds.last.toNat) :
    ∃ index, voice.bounds.start.toNat ≤ index ∧ index ≤ voice.bounds.last.toNat ∧
      voice.position.toNat + slot * voice.step.toNat = index * 2 ^ 32 := by
  have begun := onSample.toNat_position
  obtain ⟨_, _, started, inRegion, ⟨number, speed⟩, paced⟩ := onSample
  have moved := voice.method.kernel.toNat_shift_le
  rcases Phase.ofSpeed_whole speed with ⟨samples, step⟩ | far
  · have step : voice.step.toNat = samples * 2 ^ 32 := step
    have lies : voice.position.toNat + slot * voice.step.toNat =
        (voice.position.index + slot * samples) * 2 ^ 32 := by
      rw [begun, step, Nat.add_mul, Nat.mul_assoc]
    refine ⟨voice.position.index + slot * samples, started.trans (Nat.le_add_right _ _), ?_, lies⟩
    rw [lies] at located
    omega
  · have far : 2 ^ 63 ≤ voice.step.toNat := far
    -- Such a step leads out of the region, which has less than 2 ^ 31 samples.
    have first : slot = 0 := by
      by_contra later
      have further := Nat.le_mul_of_pos_left voice.step.toNat (Nat.pos_of_ne_zero later)
      omega
    refine ⟨voice.position.index, started, inRegion, ?_⟩
    rw [first, Nat.zero_mul, Nat.add_zero, begun]

/-- The position of such a slot. -/
theorem OnSample.after (onSample : voice.OnSample) {slot : Nat}
    (located : (voice.position.toNat + slot * voice.step.toNat + voice.method.kernel.shift.toNat) /
      2 ^ 32 ≤ voice.bounds.last.toNat) :
    (voice.position.after voice.step slot).fraction = 0 ∧
      voice.bounds.start.toNat ≤ (voice.position.after voice.step slot).index ∧
      (voice.position.after voice.step slot).index ≤ voice.bounds.last.toNat ∧
      voice.position.toNat + slot * voice.step.toNat =
        (voice.position.after voice.step slot).index * 2 ^ 32 := by
  obtain ⟨index, begins, ends, lies⟩ := onSample.exists_index located
  have paced := onSample.paced
  have stands := (voice.position.after voice.step slot).toNat_eq_index_add_fraction
  have inSample := (voice.position.after voice.step slot).fraction_lt
  rw [Phase.toNat_after, lies, Nat.mod_eq_of_lt (by omega)] at stands
  have here : (voice.position.after voice.step slot).index = index := by omega
  exact ⟨by omega, here ▸ begins, here ▸ ends, here ▸ lies⟩

theorem OnSample.toNat_located (onSample : voice.OnSample) :
    (voice.position + voice.method.kernel.shift).toNat =
      voice.position.index * 2 ^ 32 + voice.method.kernel.shift.toNat := by
  have moved := voice.method.kernel.toNat_shift_le
  have begun := onSample.toNat_position
  have inRegion := onSample.inRegion
  have paced := onSample.paced
  rw [Phase.toNat_add_of_lt (by omega), begun]

theorem OnSample.advancing (onSample : voice.OnSample) :
    voice.Advancing (2 ^ 64 - 3 * 2 ^ 32) := by
  have moved := voice.method.kernel.toNat_shift_le
  have few := voice.method.kernel.after_le
  have begun := onSample.toNat_position
  have inRegion := onSample.inRegion
  have paced := onSample.paced
  refine ⟨by omega, onSample.fresh, ?_, by omega⟩
  rw [Phase.le_index_iff, onSample.toNat_located]
  exact (Nat.mul_le_mul_right _ onSample.started).trans (Nat.le_add_right _ _)

theorem OnSample.not_ended (onSample : voice.OnSample) : ¬ voice.Ended := by
  have moved := voice.method.kernel.toNat_shift_le
  have inRegion := onSample.inRegion
  rw [Ended, Nat.not_lt, ← Nat.lt_succ_iff, Phase.index_lt_iff, onSample.toNat_located]
  omega

theorem OnSample.interpolate (onSample : voice.OnSample)
    (accepted : voice.validate data false = .ok (.ok ())) (block : Block) :
    ∃ rendering, voice.interpolate data false block = .ok rendering ∧
      rendering.OnSamples voice data.sample := by
  have paced : (voice.bounds.last.toNat + 1) * 2 ^ 32 + voice.step.toNat ≤ 2 ^ 64 - 3 * 2 ^ 32 := by
    have paced := onSample.paced
    apply Nat.le_of_lt_succ
    omega
  obtain ⟨rendering, rendered, answers, _, _, _⟩ :=
    @render_once data _ ⟨voice.speed, true, block⟩ voice (playable_of_validate accepted)
      onSample.advancing (fun _ => paced) rfl
  have count : rendering.count = voice.bounds.leading voice.method.kernel voice.position.toNat
    voice.step.toNat := answers.count
  obtain ⟨inBlock, inside, _⟩ := Bounds.leading_spec voice.bounds voice.method.kernel
    voice.position.toNat voice.step.toNat
  rw [← count] at inBlock inside
  refine ⟨rendering, rendered, count_pos onSample.not_ended rendered, inBlock,
    fun slot counted => (onSample.after (inside slot counted)).1,
    fun slot counted => (onSample.after (inside slot counted)).2.1,
    fun slot counted => (onSample.after (inside slot counted)).2.2.1, ?_⟩
  intro slot isSlot counted
  obtain ⟨_, _, _, lies⟩ := onSample.after (inside slot counted)
  rw [← lies]
  exact answers.written slot isSlot counted

/-- Wherever such a voice is, a waveform that is one there and zero elsewhere is played otherwise by the
windowed sinc. -/
theorem interpolate_mark {size : Nat}
    (accepted : voice.bounds.validate size false voice.method = .ok (.ok ()))
    (onSample : voice.OnSample) (seventh : voice.method = .seventhOrder) (block : Block) :
    ∃ rendering, voice.interpolate (.mark size voice.position.index) false block = .ok rendering ∧
      ¬ rendering.Verbatim voice (.mark size voice.position.index) := by
  have fits := (Bounds.validate_eq_ok_iff.1 accepted).1
  have accepted : voice.validate (.mark size voice.position.index) false = .ok (.ok ()) := by
    rwa [validate, SampleData.size_mark]
  obtain ⟨rendering, rendered, onSamples⟩ := onSample.interpolate accepted block
  exact ⟨rendering, rendered, onSamples.not_verbatim seventh fits⟩

/-- From a sample of its region on, a voice selects rows with a one for the sample of each slot and
zeros for the others, and plays the samples as they are stored, just when its method is not the
windowed sinc. -/
theorem interpolate_verbatim_iff {size : Nat}
    (accepted : voice.bounds.validate size false voice.method = .ok (.ok ()))
    (onSample : voice.OnSample) :
    (∀ data : SampleData, data.size = size → ∀ block,
      ∃ rendering, voice.interpolate data false block = .ok rendering ∧
        (rendering.Picks voice ↔ voice.method ≠ .seventhOrder)) ∧
    ((∀ data : SampleData, data.size = size → ∀ block,
        ∃ rendering, voice.interpolate data false block = .ok rendering ∧
          rendering.Verbatim voice data) ↔
      voice.method ≠ .seventhOrder) := by
  refine ⟨?_, ?_, ?_⟩
  · rintro data rfl block
    obtain ⟨rendering, rendered, onSamples⟩ := onSample.interpolate accepted block
    exact ⟨rendering, rendered, onSamples.picks_iff⟩
  · intro verbatim seventh
    obtain ⟨rendering, rendered, alike⟩ :=
      verbatim (.mark size voice.position.index) (SampleData.size_mark _ _) (.filled 0)
    obtain ⟨other, again, differs⟩ := interpolate_mark accepted onSample seventh (.filled 0)
    obtain rfl : other = rendering := Except.ok.inj (again.symm.trans rendered)
    exact differs alike
  · rintro other data rfl block
    obtain ⟨rendering, rendered, onSamples⟩ := onSample.interpolate accepted block
    exact ⟨rendering, rendered, onSamples.verbatim other⟩

private theorem ofSingle_one : ofSingle 1 = .number (1 : Int) := by
  have unpacked : (1 : Float32).toModel.unpack =
      .finite .positive (2 ^ 23) (-23) (by decide) := rfl
  rw [ofSingle_of_unpack unpacked]
  norm_num

private theorem onSample_make_one {last : UInt32} {method : Method}
    (paced : (last.toNat + 6) * 2 ^ 32 ≤ 2 ^ 64) : (make ⟨0, last, 0, 0⟩ ⟨method, 1⟩).OnSample := by
  have step : (Phase.ofSpeed 1).toNat = 2 ^ 32 := by decide +kernel
  have whole : (Phase.ofIndex 0).fraction = 0 := by decide
  have first : (Phase.ofIndex 0).index = 0 := by decide
  refine ⟨rfl, whole, Nat.zero_le _, first ▸ Nat.zero_le _, ⟨1, ofSingle_one⟩, ?_⟩
  show (last.toNat + 5) * 2 ^ 32 + (Phase.ofSpeed 1).toNat ≤ 2 ^ 64
  rw [step, ← Nat.succ_mul]
  exact paced

/-- Three samples at speed one, from the first on. -/
theorem interpolate_verbatim_iff_fourthOrder :
    ∃ rendering,
      (make ⟨0, 2, 0, 0⟩ ⟨.fourthOrder, 1⟩).interpolate (.ofWords #[7, -7, 7]) false (.filled 0) =
        .ok rendering ∧
      rendering.Verbatim (make ⟨0, 2, 0, 0⟩ ⟨.fourthOrder, 1⟩) (.ofWords #[7, -7, 7]) :=
  (@interpolate_verbatim_iff (make ⟨0, 2, 0, 0⟩ ⟨.fourthOrder, 1⟩) 3 rfl
    (onSample_make_one (by decide))).2.2 (by decide) (.ofWords #[7, -7, 7]) rfl (.filled 0)

/-- Six samples, the first of them a one: the windowed sinc does not play it. -/
theorem not_interpolate_verbatim_seventhOrder :
    ¬∀ (voice : Voice) (data : SampleData),
      voice.validate data false = .ok (.ok ()) → voice.OnSample → ∀ block,
        ∃ rendering, voice.interpolate data false block = .ok rendering ∧
          rendering.Verbatim voice data := by
  intro verbatim
  have onSample := @onSample_make_one 5 .seventhOrder (by decide)
  obtain ⟨rendering, rendered, alike⟩ := verbatim _ (.mark 6 0) rfl onSample (.filled 0)
  obtain ⟨other, again, differs⟩ := @interpolate_mark _ 6 rfl onSample rfl (.filled 0)
  obtain rfl : other = rendering := Except.ok.inj (again.symm.trans rendered)
  exact differs alike

end Voice

end Resampler
