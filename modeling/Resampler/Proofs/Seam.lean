import Resampler.Proofs.Resumption
import Resampler.Proofs.Weights

/-!
Contract: a voice that begins a block astray can be heard to do so.

Owns:
- the samples that ought to be heard from a voice that stands early, and those
  that are;
- a waveform that tells the two apart.

Does not own: whole sessions.
-/

namespace Resampler

/-- A waveform that is zero but for the first and the last sample of the loop. -/
def Bounds.probe (bounds : Bounds) (size : Nat) : SampleData :=
  .ofWords (Array.ofFn fun index : Fin size =>
    if index.val = bounds.loopStart.toNat ∨ index.val + 1 = bounds.loopEnd.toNat then 1 else 0)

@[simp] theorem Bounds.size_probe (bounds : Bounds) (size : Nat) :
    (bounds.probe size).size = size := by
  simp [probe, SampleData.size, SampleData.ofWords]

theorem Bounds.sample_probe {bounds : Bounds} {size index : Nat} (inside : index < size) :
    (bounds.probe size).sample index = .ofInt
      (if index = bounds.loopStart.toNat ∨ index + 1 = bounds.loopEnd.toNat then 1 else 0) := by
  simp only [SampleData.sample, probe, SampleData.integer?_ofWords, Array.getElem?_ofFn,
    dif_pos inside, Option.map_some, Option.getD_some]
  split <;> rfl

theorem Bounds.Loopable.stocked {bounds : Bounds} {kernel : Kernel} {read : Reader}
    {sample : Nat → Float32} (loopable : bounds.Loopable kernel read sample) :
    bounds.Stocked kernel read sample true bounds.loopEnd.toNat where
  loop := loopable.long
  inside := Nat.le_refl _
  entered := loopable.entered
  ends := by
    have long := loopable.long
    simp only [final, if_true]
    omega
  given := loopable.given

theorem Bounds.unrolled_of_lt {bounds : Bounds} {virtual : Int} {index : Nat}
    (same : virtual = index) (inside : bounds.start.toNat ≤ index ∧ index < bounds.loopEnd.toNat) :
    bounds.unrolled virtual = index := by
  rw [unrolled, if_neg (by omega), if_pos (by omega), same, Int.toNat_natCast]

theorem Bounds.unrolled_of_ge {bounds : Bounds} {virtual : Int} {offset : Nat}
    (same : virtual = bounds.loopEnd.toNat + offset)
    (ordered : bounds.start.toNat < bounds.loopEnd.toNat)
    (inLoop : bounds.loopStart.toNat + offset < bounds.loopEnd.toNat) :
    bounds.unrolled virtual = bounds.loopStart.toNat + offset := by
  have length : bounds.loopSpan = bounds.loopEnd.toNat - bounds.loopStart.toNat := rfl
  exact unrolled_of_laps offset 1 ordered (by omega) Nat.one_pos (by omega)

/-- Before its first sample, a lap has no other zone than the one in which all
taps are read. -/
theorem Kernel.body_of_before_entry {kernel : Kernel} {first last index : Nat} {zone : Zone}
    (long : first + kernel.span ≤ last) (before : index < first) (near : kernel.Near zone)
    (within : zone.Holds first last index) (reached : kernel.Reached 0 first last index zone) :
    zone = .room kernel.after := by
  have taps := kernel.taps_le_span
  cases zone with
  | head past =>
      have within : index = first + past := within
      omega
  | room ahead =>
      have near : ahead ≤ kernel.after := near
      have far := reached.2
      congr 1
      omega

/-- The first slot of a call that does not begin with a turn is filled from the
zone in which the call begins. -/
theorem Kernel.opening_of_rests {kernel : Kernel} {read : Reader} {sample : Nat → Float32}
    {voice : Voice} {extent : Nat} {first : Float32}
    (stocked : voice.bounds.Stocked kernel read sample true extent)
    (paced : extent * 2 ^ 32 + voice.step.toNat < 2 ^ 63)
    (rests : voice.bounds.Rests voice.position voice.looped)
    (clear : kernel = .fourthOrder → voice.Early → 2 ≤ voice.bounds.loopStart.toNat)
    (stays : ¬ (Scene.staging kernel read sample voice.bounds true voice.step).mustTurn
      (.begin (voice.position + kernel.shift) voice.looped) = true)
    (opens : ∀ {zone}, kernel.Near zone →
      (Scene.staging kernel read sample voice.bounds true voice.step).Within
        (.begin (voice.position + kernel.shift) voice.looped) zone →
      (Scene.staging kernel read sample voice.bounds true voice.step).Reached (fun _ => 0)
        (.begin (voice.position + kernel.shift) voice.looped) zone →
      kernel.output (voice.position + kernel.shift).row
        (((Scene.staging kernel read sample voice.bounds true voice.step).readsIn voice.looped
          (voice.position + kernel.shift).index zone).map sample) = first)
    {block : Block} {rendering : Rendering}
    (rendered : kernel.render read voice true block = .ok rendering) :
    rendering.block.toList.head? = some first := by
  have staged := Scene.staged_staging kernel read sample voice.bounds true voice.step
  have holds := @Kernel.begin_steers kernel read sample voice true rests clear
  have sustains := (@Scene.sustains_of_stocked _ _ _
    (.begin (voice.position + kernel.shift) voice.looped) staged stocked paced).opening rfl opens
  obtain ⟨finish, renders, ⟨_, opened⟩, filled⟩ :=
    Kernel.render_sustained stocked sustains (by
      rintro course ⟨steers, opened⟩ mustTurn
      refine ⟨steers.turn staged stocked mustTurn, .inr ?_⟩
      rcases opened with rfl | opened
      · exact absurd mustTurn stays
      · exact opened) ⟨holds, .inl rfl⟩ block
  obtain rfl := Except.ok.inj (renders.symm.trans rendered)
  have some := filled rfl
  rcases opened with rfl | opened
  · exact absurd some (Nat.lt_irrefl 0)
  · exact Block.head?_toList_overwrite opened

namespace Voice

variable {data : SampleData} {voice : Voice} {unwrapped : Nat}

/-- An early voice is a number of loops behind the last sample of the loop, in
the latter half of a sample. -/
theorem Follows.of_early (follows : voice.Follows unwrapped) (early : voice.Early)
    (unlucky : ¬ voice.Lucky)
    (ordered : voice.bounds.loopStart.toNat < voice.bounds.loopEnd.toNat) :
    2 ^ 31 ≤ voice.position.fraction ∧
      ∃ laps, unwrapped = (voice.bounds.loopEnd.toNat - 1) * 2 ^ 32 + voice.position.fraction +
        laps * voice.bounds.loopSpan * 2 ^ 32 := by
  obtain ⟨_, ahead, ⟨laps, same, history, entered, below⟩, luck⟩ := follows
  obtain ⟨turned, early⟩ := early
  obtain rfl : ahead = 0 := luck.resolve_right fun lucky => unlucky lucky.1
  obtain ⟨more, rfl⟩ := Nat.exists_eq_add_one.2 (history.1 turned)
  have inWord := voice.position.toNat_lt
  have rounded := voice.position.toNat_add_half
  have length : voice.bounds.loopSpan =
      voice.bounds.loopEnd.toNat - voice.bounds.loopStart.toNat := rfl
  have entered := Phase.le_index_iff.1 entered
  simp only [Bounds.entry, turned, if_true] at entered
  rw [Nat.add_mul] at same
  unfold Phase.index at early
  unfold Phase.fraction
  refine ⟨?_, more, ?_⟩
  · omega
  · omega

/-- What ought to be heard from an early voice: the taps around the last sample
of the loop. -/
theorem Follows.loopReference_of_early {kernel : Kernel} {read : Reader} {sample : Nat → Float32}
    (loopable : voice.bounds.Loopable kernel read sample) (truncates : kernel.shift = .zero)
    (follows : voice.Follows unwrapped) (early : voice.Early) (unlucky : ¬ voice.Lucky) :
    voice.bounds.loopReference kernel sample unwrapped =
      kernel.output voice.position.row ((kernel.window (voice.bounds.loopEnd.toNat - 1)).map
        fun virtual => sample (voice.bounds.unrolled virtual)) := by
  have entered := loopable.entered
  have long := loopable.long
  have close : kernel.before ≤ kernel.span := by
    rcases kernel.shift_eq with rounds | ⟨_, rfl | rfl⟩
    · rw [truncates] at rounds
      exact absurd rounds (by decide)
    · decide
    · decide
  obtain ⟨_, laps, rfl⟩ := follows.of_early early unlucky (by omega)
  have inSample := voice.position.fraction_lt
  have index : ((voice.bounds.loopEnd.toNat - 1) * 2 ^ 32 + voice.position.fraction) / 2 ^ 32 =
      voice.bounds.loopEnd.toNat - 1 := by omega
  have row : (Phase.ofNat ((voice.bounds.loopEnd.toNat - 1) * 2 ^ 32 +
      voice.position.fraction)).row = voice.position.row := by
    rw [Nat.add_comm, Phase.row_ofNat_add, ← Phase.row_ofNat_add _ voice.position.index,
      Nat.add_comm, ← Phase.toNat_eq_index_add_fraction, Phase.ofNat_toNat]
  rw [Bounds.loopReference_add_laps, Bounds.loopReference, truncates, Phase.toNat_zero,
    Nat.add_zero, Kernel.heard, row, index]
  · rw [truncates, Phase.toNat_zero, Nat.add_zero, index]
    omega
  · rw [truncates, Phase.toNat_zero, Nat.add_zero, index]
    omega

/-- What is heard from an early voice, unless its taps begin before the first
sample: those before the loop. -/
theorem opening_of_early {kernel : Kernel} {read : Reader} {sample : Nat → Float32}
    {extent : Nat} (truncates : kernel.shift = .zero)
    (stocked : voice.bounds.Stocked kernel read sample true extent)
    (paced : extent * 2 ^ 32 + voice.step.toNat < 2 ^ 63)
    (rests : voice.bounds.Rests voice.position voice.looped) (early : voice.Early)
    (behind : kernel.before < voice.bounds.loopStart.toNat) {block : Block} {rendering : Rendering}
    (rendered : kernel.render read voice true block = .ok rendering) :
    rendering.block.toList.head? = some (kernel.output voice.position.row
      ((List.range kernel.width).map fun tap =>
        sample (voice.bounds.loopStart.toNat - 1 - kernel.before + tap))) := by
  have loop := stocked.loop
  have inWord := voice.position.index_lt
  have startInWord := voice.bounds.loopStart.toNat_lt
  have clear : kernel = .fourthOrder → voice.Early → 2 ≤ voice.bounds.loopStart.toNat := by
    rintro rfl _
    exact behind
  have start : voice.position + kernel.shift = voice.position := by rw [truncates, Phase.add_zero]
  obtain ⟨turned, before⟩ := early
  have located : voice.position.index = voice.bounds.loopStart.toNat - 1 := by omega
  apply Kernel.opening_of_rests stocked paced rests clear _ _ rendered
  · simp only [Scene.mustTurn, Scene.staging, Course.begin, start, located, Bounds.final, if_true,
      Bool.true_and, decide_eq_true_eq]
    omega
  · intro zone near within reached
    simp only [Scene.Within, Scene.Reached, Scene.staging, Course.begin, start, turned,
      Bounds.entry, Bounds.final, if_true, located] at within reached
    obtain rfl := Kernel.body_of_before_entry (by omega) (by omega) near within reached
    simp only [Scene.readsIn, Scene.staging, start, located, Nat.sub_self,
      Nat.sub_zero, List.range_zero, List.map_nil, List.append_nil, List.map_map,
      Function.comp_def]

/-- A line that begins a word behind its loop is that of the samples it finds
there by counting on through the word. -/
theorem opening_of_first {read : Reader} {sample : Nat → Float32}
    (loopable : voice.bounds.Loopable .linear read sample)
    (paced : voice.bounds.loopEnd.toNat * 2 ^ 32 + voice.step.toNat < 2 ^ 63)
    (early : voice.Early) (first : voice.bounds.loopStart.toNat = 0) {block : Block}
    {rendering : Rendering} (rendered : Kernel.linear.render read voice true block = .ok rendering) :
    rendering.block.toList.head? = some (Kernel.linear.output voice.position.row
      [sample (voice.position.index % voice.bounds.loopSpan),
        sample ((voice.position.index + 1) % voice.bounds.loopSpan)]) := by
  obtain ⟨turned, early⟩ := early
  have inWord := voice.position.index_lt
  have entered := loopable.entered
  have length : voice.bounds.loopSpan =
      voice.bounds.loopEnd.toNat - voice.bounds.loopStart.toNat := rfl
  have shift : Kernel.linear.shift = .zero := rfl
  have tracks : voice.bounds.Tracks (2 ^ 64) (voice.position + Kernel.linear.shift) voice.looped
      (voice.position.toNat + voice.bounds.loopSpan * 2 ^ 32 + Kernel.linear.shift.toNat) := by
    rw [shift, Phase.add_zero, Phase.toNat_zero, Nat.add_zero]
    refine ⟨1, by rw [Nat.one_mul], by simp [turned], ?_, voice.position.toNat_lt⟩
    simp only [Bounds.entry, turned, first, if_true]
    exact Nat.zero_le _
  obtain ⟨_, renders, _, samples, _⟩ :=
    Kernel.render_looping loopable (Nat.le_refl _) (fun many => absurd many (by decide))
      (.inr (by omega)) tracks block
  obtain rfl := Except.ok.inj (renders.symm.trans rendered)
  have index : (voice.position.toNat + voice.bounds.loopSpan * 2 ^ 32) / 2 ^ 32 =
      voice.position.index + voice.bounds.loopSpan :=
    Nat.add_mul_div_right _ _ (by decide)
  have unrolled : ∀ tap : Nat,
      voice.bounds.unrolled ((voice.position.index + voice.bounds.loopSpan : Nat) + (tap : Int)) =
        (voice.position.index + tap) % voice.bounds.loopSpan := by
    intro tap
    rw [Bounds.unrolled_eq_emod (by omega) (by omega), first, Int.natCast_zero, Int.sub_zero,
      Int.natCast_add, Int.add_right_comm, Int.add_emod_right, Nat.zero_add]
    rfl
  have here := unrolled 0
  have next := unrolled 1
  rw [Int.natCast_zero, Int.add_zero, Nat.add_zero] at here
  rw [Int.natCast_one] at next
  rw [samples, List.head?_map, List.head?_range, if_neg (by decide), Option.map_some, Nat.zero_mul,
    Nat.add_zero, Bounds.loopReference, shift, Phase.toNat_zero, Nat.add_zero, Kernel.heard,
    Phase.row_ofNat_add, Phase.ofNat_toNat, index, Kernel.window_linear, List.map_cons,
    List.map_cons, List.map_nil, here, next]

/-! ## The probe -/

variable {size : Nat} {block : Block} {rendering : Rendering}

/-- From an early voice, a line through two ones ought to be heard. -/
theorem Follows.loopReference_probe_linear
    (loopable : voice.bounds.Loopable .linear (voice.bounds.probe size).read
      (voice.bounds.probe size).sample) (inside : voice.bounds.loopEnd.toNat ≤ size)
    (follows : voice.Follows unwrapped) (early : voice.Early) (unlucky : ¬ voice.Lucky) :
    voice.bounds.loopReference .linear (voice.bounds.probe size).sample unwrapped =
      Kernel.linear.output voice.position.row ([1, 1].map .ofInt) := by
  have entered := loopable.entered
  have long := loopable.long
  have last : voice.bounds.unrolled (voice.bounds.loopEnd.toNat - 1 : Nat) =
      voice.bounds.loopEnd.toNat - 1 := Bounds.unrolled_of_lt (by omega) (by omega)
  have next : voice.bounds.unrolled ((voice.bounds.loopEnd.toNat - 1 : Nat) + 1) =
      voice.bounds.loopStart.toNat + 0 := Bounds.unrolled_of_ge (by omega) (by omega) (by omega)
  rw [follows.loopReference_of_early loopable rfl early unlucky, Kernel.window_linear]
  simp only [List.map_cons, List.map_nil, last, next]
  rw [Bounds.sample_probe (by omega), Bounds.sample_probe (by omega), if_pos (by omega),
    if_pos (by omega)]

/-- From an early voice, a cubic through a zero, two ones, and a zero ought to be
heard. -/
theorem Follows.loopReference_probe_fourthOrder
    (loopable : voice.bounds.Loopable .fourthOrder (voice.bounds.probe size).read
      (voice.bounds.probe size).sample) (inside : voice.bounds.loopEnd.toNat ≤ size)
    (follows : voice.Follows unwrapped) (early : voice.Early) (unlucky : ¬ voice.Lucky) :
    voice.bounds.loopReference .fourthOrder (voice.bounds.probe size).sample unwrapped =
      Kernel.fourthOrder.output voice.position.row ([0, 1, 1, 0].map .ofInt) := by
  have entered := loopable.entered
  have long := loopable.long
  have span : Kernel.fourthOrder.span = 2 := rfl
  have before : voice.bounds.unrolled ((voice.bounds.loopEnd.toNat - 1 : Nat) - 1) =
      voice.bounds.loopEnd.toNat - 2 := Bounds.unrolled_of_lt (by omega) (by omega)
  have last : voice.bounds.unrolled (voice.bounds.loopEnd.toNat - 1 : Nat) =
      voice.bounds.loopEnd.toNat - 1 := Bounds.unrolled_of_lt (by omega) (by omega)
  have next : voice.bounds.unrolled ((voice.bounds.loopEnd.toNat - 1 : Nat) + 1) =
      voice.bounds.loopStart.toNat + 0 := Bounds.unrolled_of_ge (by omega) (by omega) (by omega)
  have second : voice.bounds.unrolled ((voice.bounds.loopEnd.toNat - 1 : Nat) + 2) =
      voice.bounds.loopStart.toNat + 1 := Bounds.unrolled_of_ge (by omega) (by omega) (by omega)
  rw [follows.loopReference_of_early loopable rfl early unlucky, Kernel.window_fourthOrder]
  simp only [List.map_cons, List.map_nil, before, last, next, second]
  rw [Bounds.sample_probe (by omega), Bounds.sample_probe (by omega),
    Bounds.sample_probe (by omega), Bounds.sample_probe (by omega), if_neg (by omega),
    if_pos (by omega), if_pos (by omega), if_neg (by omega)]

/-- An early voice whose loop begins with the first sample and does not fill the word with
others is not on the last sample of a loop. -/
private theorem Early.mod_succ (early : voice.Early) (first : voice.bounds.loopStart.toNat = 0)
    (some : 0 < voice.bounds.loopSpan) (unfilled : ¬ voice.bounds.loopSpan ∣ 2 ^ 32) :
    (voice.position.index + 1) % voice.bounds.loopSpan =
      voice.position.index % voice.bounds.loopSpan + 1 := by
  have word : voice.position.index + 1 = 2 ^ 32 := by
    have inWord := voice.position.index_lt
    have early := early.2
    omega
  have inLoop : voice.position.index % voice.bounds.loopSpan < voice.bounds.loopSpan :=
    Nat.mod_lt _ some
  have around := Nat.mod_add_mod voice.position.index voice.bounds.loopSpan 1
  have apart : voice.position.index % voice.bounds.loopSpan + 1 ≠ voice.bounds.loopSpan := by
    intro whole
    rw [whole, Nat.mod_self, word] at around
    exact unfilled (Nat.dvd_of_mod_eq_zero around.symm)
  rw [← around]
  exact Nat.mod_eq_of_lt (by omega)

private theorem opening_probe_linear_of_first
    (loopable : voice.bounds.Loopable .linear (voice.bounds.probe size).read
      (voice.bounds.probe size).sample) (inside : voice.bounds.loopEnd.toNat ≤ size)
    (paced : voice.bounds.loopEnd.toNat * 2 ^ 32 + voice.step.toNat < 2 ^ 63)
    (early : voice.Early) (first : voice.bounds.loopStart.toNat = 0)
    (unfilled : ¬ voice.bounds.loopSpan ∣ 2 ^ 32)
    (rendered : Kernel.linear.render (voice.bounds.probe size).read voice true block =
      .ok rendering) :
    ∃ taps ∈ ([[0, 0], [1, 0], [0, 1]] : List (List Int)), rendering.block.toList.head? =
      some (Kernel.linear.output voice.position.row (taps.map .ofInt)) := by
  have long := loopable.long
  have length : voice.bounds.loopSpan = voice.bounds.loopEnd.toNat - 0 :=
    congrArg (voice.bounds.loopEnd.toNat - ·) first
  have next := early.mod_succ first (by omega) unfilled
  have inLoop : (voice.position.index + 1) % voice.bounds.loopSpan < voice.bounds.loopSpan :=
    Nat.mod_lt _ (by omega)
  rw [opening_of_first loopable paced early first rendered, next,
    Bounds.sample_probe (by omega), Bounds.sample_probe (by omega)]
  rw [next] at inLoop
  generalize voice.position.index % voice.bounds.loopSpan = index at inLoop ⊢
  by_cases opens : index = 0
  · have notTwo : voice.bounds.loopSpan ≠ 2 := by
      intro two
      rw [two] at unfilled
      exact unfilled (by decide)
    refine ⟨[1, 0], by simp, ?_⟩
    rw [if_pos (by omega), if_neg (by omega)]
    rfl
  · by_cases ends : index + 2 = voice.bounds.loopEnd.toNat
    · refine ⟨[0, 1], by simp, ?_⟩
      rw [if_neg (by omega), if_pos (by omega)]
      rfl
    · refine ⟨[0, 0], by simp, ?_⟩
      rw [if_neg (by omega), if_neg (by omega)]
      rfl

/-- What a line from a voice astray goes through holds a zero. -/
theorem opening_probe_linear
    (loopable : voice.bounds.Loopable .linear (voice.bounds.probe size).read
      (voice.bounds.probe size).sample) (inside : voice.bounds.loopEnd.toNat ≤ size)
    (paced : voice.bounds.loopEnd.toNat * 2 ^ 32 + voice.step.toNat < 2 ^ 63)
    (rests : voice.bounds.Rests voice.position voice.looped) (early : voice.Early)
    (unfilled : voice.bounds.loopStart.toNat = 0 → ¬ voice.bounds.loopSpan ∣ 2 ^ 32)
    (rendered : Kernel.linear.render (voice.bounds.probe size).read voice true block =
      .ok rendering) :
    ∃ taps ∈ ([[0, 0], [1, 0], [0, 1]] : List (List Int)), rendering.block.toList.head? =
      some (Kernel.linear.output voice.position.row (taps.map .ofInt)) := by
  have long := loopable.long
  by_cases first : voice.bounds.loopStart.toNat = 0
  · exact opening_probe_linear_of_first loopable inside paced early first (unfilled first) rendered
  · refine ⟨[0, 1], by simp, ?_⟩
    rw [opening_of_early rfl loopable.stocked paced rests early (Nat.pos_of_ne_zero first) rendered]
    simp only [Kernel.width, Kernel.before, List.range_succ, List.range_zero, List.nil_append,
      List.cons_append, List.map_cons, List.map_nil]
    rw [Bounds.sample_probe (by omega), Bounds.sample_probe (by omega), if_neg (by omega),
      if_pos (by omega)]

/-- A cubic from a voice astray faults, or goes through a single one. -/
theorem opening_probe_fourthOrder
    (loopable : voice.bounds.Loopable .fourthOrder (voice.bounds.probe size).read
      (voice.bounds.probe size).sample) (inside : voice.bounds.loopEnd.toNat ≤ size)
    (paced : voice.bounds.loopEnd.toNat * 2 ^ 32 + voice.step.toNat < 2 ^ 63)
    (rests : voice.bounds.Rests voice.position voice.looped) (early : voice.Early)
    (rendered : Kernel.fourthOrder.render (voice.bounds.probe size).read voice true block =
      .ok rendering) :
    rendering.block.toList.head? =
      some (Kernel.fourthOrder.output voice.position.row ([0, 0, 1, 0].map .ofInt)) := by
  have long := loopable.long
  have span : Kernel.fourthOrder.span = 2 := rfl
  have far : 2 ≤ voice.bounds.final true := by
    simp only [Bounds.final, if_true]
    omega
  have second : 2 ≤ voice.bounds.loopStart.toNat := by
    by_contra first
    exact Kernel.not_render_of_stranded loopable.stocked far early (by omega) block
      ⟨rendering, rendered⟩
  rw [opening_of_early rfl loopable.stocked paced rests early second rendered]
  simp only [Kernel.width, Kernel.before, List.range_succ, List.range_zero, List.nil_append,
    List.cons_append, List.map_cons, List.map_nil]
  rw [Bounds.sample_probe (by omega), Bounds.sample_probe (by omega),
    Bounds.sample_probe (by omega), Bounds.sample_probe (by omega), if_neg (by omega),
    if_neg (by omega), if_pos (by omega), if_neg (by omega)]

/-- A voice that has turned rests where it follows. -/
theorem Follows.rests (follows : voice.Follows unwrapped) (turned : voice.looped = true) :
    voice.bounds.Rests voice.position voice.looped := by
  obtain ⟨_, _, ⟨_, _, _, entered, below⟩, _⟩ := follows
  have entered := Phase.le_index_iff.1 entered
  simp only [Bounds.entry, turned, if_true] at entered
  refine ⟨?_, fun _ => entered, below⟩
  intro fresh
  exact absurd (fresh.symm.trans turned) Bool.false_ne_true

/-- The first sample of an audible block from a voice astray is not the one that
ought to be heard. -/
theorem Follows.opening_ne_of_astray
    (loopable : voice.bounds.Loopable voice.method.kernel (voice.bounds.probe size).read
      (voice.bounds.probe size).sample) (inside : voice.bounds.loopEnd.toNat ≤ size)
    (paced : voice.bounds.loopEnd.toNat * 2 ^ 32 + voice.step.toNat < 2 ^ 63)
    (follows : voice.Follows unwrapped) (astray : voice.Astray)
    (rendered : voice.render (voice.bounds.probe size) true true block = .ok rendering) :
    rendering.block.toList.head? ≠ some
      (voice.bounds.loopReference voice.method.kernel (voice.bounds.probe size).sample
        unwrapped) := by
  obtain ⟨truncates, early, unlucky⟩ := astray
  have rests := follows.rests early.1
  have long := loopable.long
  have late : 128 ≤ voice.position.row.val := by
    have half := (follows.of_early early unlucky (by omega)).1
    exact (Nat.le_div_iff_mul_le (by decide)).2 half
  rw [Voice.render, if_pos rfl, interpolate] at rendered
  cases method : voice.method with
  | nearest =>
      rw [method] at truncates
      exact absurd truncates (by decide)
  | linear =>
      have unfilled : voice.bounds.loopStart.toNat = 0 → ¬ voice.bounds.loopSpan ∣ 2 ^ 32 :=
        fun first fills => unlucky ⟨method, first, fills⟩
      rw [method] at loopable rendered
      obtain ⟨taps, other, opening⟩ :=
        opening_probe_linear loopable inside paced rests early unfilled rendered
      rw [opening, Method.kernel, follows.loopReference_probe_linear loopable inside early unlucky]
      exact fun same => Kernel.output_linear_ne late other (Option.some.inj same)
  | fourthOrder =>
      rw [method] at loopable rendered
      rw [opening_probe_fourthOrder loopable inside paced rests early rendered, Method.kernel,
        follows.loopReference_probe_fourthOrder loopable inside early unlucky]
      exact fun same => Kernel.output_fourthOrder_ne late (Option.some.inj same)
  | seventhOrder =>
      rw [method] at truncates
      exact absurd truncates (by decide)

end Voice

end Resampler
