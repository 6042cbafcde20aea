import Resampler.Proofs.Scene.Simulation

/-!
Contract: what a voice ought to be heard to play, told without zones or turns.

Owns:
- the sample heard at an unwrapped position, from the table row of its fraction
  and the stored samples behind a window of virtual indices;
- two ways to find the stored sample behind a virtual index: round and round a
  loop, or held at the ends of the region;
- the unwrapped positions of slots, one step after the other;
- the agreement of these samples with those heard in a lap.

Does not own: the voice that plays them.
-/

namespace Resampler

def SampleData.sample (data : SampleData) (index : Nat) : Float32 :=
  ((data.integer? index).map Float32.ofInt).getD 0

theorem SampleData.gives {data : SampleData} {index : Nat} (inBound : index < Index.bound)
    (inside : index < data.size) : data.read.Gives data.sample index := by
  have stored := (data.integer?_isSome_iff index).2 inside
  obtain ⟨integer, found⟩ := Option.isSome_iff_exists.1 stored
  refine ⟨inBound, ?_⟩
  simp [SampleData.read, SampleData.sample, found]

/-- The sample heard at a located position, counted in units and not bounded by
a word: the row is that of its fraction, and `stored` is the sample behind each
virtual index. -/
def Kernel.heard (kernel : Kernel) (stored : Int → Float32) (located : Nat) : Float32 :=
  kernel.output (Phase.ofNat located).row ((kernel.window (located / 2 ^ 32)).map stored)

def slotPositions : Nat → List Nat → List Nat
  | _, [] => []
  | position, step :: steps => position :: slotPositions (position + step) steps

theorem slotPositions_append (position : Nat) (first second : List Nat) :
    slotPositions position (first ++ second) =
      slotPositions position first ++ slotPositions (position + first.sum) second := by
  induction first generalizing position with
  | nil => rfl
  | cons step steps inductionHypothesis =>
      simp only [List.cons_append, slotPositions, inductionHypothesis, List.sum_cons, Nat.add_assoc]

theorem slotPositions_replicate (position step count : Nat) :
    slotPositions position (List.replicate count step) =
      (List.range count).map fun slot => position + slot * step := by
  induction count generalizing position with
  | zero => rfl
  | succ count inductionHypothesis =>
      rw [List.replicate_succ, slotPositions, inductionHypothesis, List.range_succ_eq_map,
        List.map_cons, List.map_map]
      congr 1
      · simp
      · apply List.map_congr_left
        intro slot _
        simp only [Function.comp_def, Nat.succ_mul]
        omega

namespace Bounds

/-- The stored sample behind a virtual index of a voice that loops: the first
sample of the region before it, and from the end of the loop on the samples of
the loop over and over. -/
def unrolled (bounds : Bounds) (virtual : Int) : Nat :=
  if virtual < bounds.start.toNat then
    bounds.start.toNat
  else if virtual < bounds.loopEnd.toNat then
    virtual.toNat
  else
    bounds.loopStart.toNat +
      ((virtual - bounds.loopStart.toNat) % (bounds.loopSpan : Int)).toNat

/-- The stored sample behind a virtual index of a voice that does not loop: the
ends of the region are held. -/
def clamped (bounds : Bounds) (virtual : Int) : Nat :=
  (max (bounds.start.toNat : Int) (min virtual bounds.last.toNat)).toNat

theorem behind_eq_clamped {bounds : Bounds} (ordered : bounds.start.toNat ≤ bounds.last.toNat)
    (virtual : Int) : bounds.behind false false virtual = bounds.clamped virtual := by
  simp only [behind, clamped, entry, final, standInBefore, standInAfter, Bool.false_eq_true,
    if_false]
  split
  · omega
  · split <;> omega

/-- From the start of the region and the loop on, indices count modulo the loop. -/
theorem unrolled_eq_emod {bounds : Bounds} {virtual : Int}
    (begun : (bounds.start.toNat : Int) ≤ virtual)
    (entered : (bounds.loopStart.toNat : Int) ≤ virtual) :
    bounds.unrolled virtual = bounds.loopStart.toNat +
      ((virtual - bounds.loopStart.toNat) % (bounds.loopSpan : Int)).toNat := by
  have length : bounds.loopSpan = bounds.loopEnd.toNat - bounds.loopStart.toNat := rfl
  rw [unrolled, if_neg (by omega)]
  by_cases inLoop : virtual < bounds.loopEnd.toNat
  · rw [if_pos inLoop, Int.emod_eq_of_lt (by omega) (by omega)]
    omega
  · rw [if_neg inLoop]

/-- There, whole loops more change nothing. -/
theorem unrolled_add_laps {bounds : Bounds} {virtual : Int} (laps : Nat)
    (begun : (bounds.start.toNat : Int) ≤ virtual)
    (entered : (bounds.loopStart.toNat : Int) ≤ virtual) :
    bounds.unrolled (virtual + laps * bounds.loopSpan) = bounds.unrolled virtual := by
  have further : 0 ≤ (laps : Int) * bounds.loopSpan := Int.mul_nonneg (by omega) (by omega)
  have rest : virtual + laps * bounds.loopSpan - bounds.loopStart.toNat =
      virtual - bounds.loopStart.toNat + laps * bounds.loopSpan := by omega
  rw [unrolled_eq_emod (by omega) (by omega), unrolled_eq_emod begun entered, rest,
    Int.add_mul_emod_self_right]

theorem unrolled_of_laps {bounds : Bounds} (offset laps : Nat) {virtual : Int}
    (ordered : bounds.start.toNat < bounds.loopEnd.toNat)
    (inLoop : offset < bounds.loopSpan) (again : 0 < laps)
    (same : virtual = bounds.loopStart.toNat + offset + laps * bounds.loopSpan) :
    bounds.unrolled virtual = bounds.loopStart.toNat + offset := by
  have once : 1 * bounds.loopSpan ≤ laps * bounds.loopSpan := Nat.mul_le_mul_right _ again
  have length : bounds.loopSpan = bounds.loopEnd.toNat - bounds.loopStart.toNat := rfl
  have further : (bounds.loopSpan : Int) ≤ laps * bounds.loopSpan := by
    rw [Nat.one_mul] at once
    exact_mod_cast once
  have rest : virtual - bounds.loopStart.toNat = offset + laps * bounds.loopSpan := by omega
  rw [unrolled_eq_emod (by omega) (by omega), rest, Int.add_mul_emod_self_right,
    Int.emod_eq_of_lt (by omega) (by omega)]
  omega

/-- Past the end of the loop the start of the loop stands in, as another turn has it. -/
private theorem behind_eq_unrolled_of_past {bounds : Bounds} {looped : Bool}
    {span after : Nat} (laps : Nat) (ordered : bounds.start.toNat < bounds.loopEnd.toNat)
    (long : bounds.loopStart.toNat + span < bounds.loopEnd.toNat) (few : after ≤ span + 1)
    {virtual : Int} (past : (bounds.final true : Int) < virtual)
    (below : virtual ≤ bounds.final true + after) :
    bounds.behind true looped virtual = bounds.unrolled (virtual + laps * bounds.loopSpan) := by
  have length : bounds.loopSpan = bounds.loopEnd.toNat - bounds.loopStart.toNat := rfl
  have notEarly : ¬ virtual < bounds.entry looped := by
    simp only [entry, final, if_true] at past ⊢
    split <;> omega
  rw [behind, if_neg notEarly, if_pos past]
  simp only [final, standInAfter, if_true] at *
  rw [unrolled_of_laps (virtual - bounds.loopEnd.toNat).toNat (laps + 1) ordered (by omega)
    (Nat.succ_pos _) (by push_cast; rw [Int.add_mul]; omega)]
  omega

/-- Before the first turn the first sample of the region stands in, and the rest is there. -/
private theorem behind_eq_unrolled_of_fresh {bounds : Bounds} {virtual : Int}
    (inLap : virtual ≤ bounds.final true) (ordered : bounds.start.toNat < bounds.loopEnd.toNat) :
    bounds.behind true false virtual = bounds.unrolled virtual := by
  rw [behind, if_neg (Int.not_lt.2 inLap)]
  simp only [entry, final, standInBefore, Bool.false_eq_true, if_false, if_true] at *
  by_cases early : virtual < bounds.start.toNat
  · rw [if_pos early, unrolled, if_pos early]
  · rw [if_neg early, unrolled, if_neg early, if_pos (by omega)]

/-- After turns, what stands in before the loop is its end, as the lap before has it. -/
private theorem behind_eq_unrolled_of_turned {bounds : Bounds} {span before laps : Nat}
    (ordered : bounds.start.toNat < bounds.loopEnd.toNat)
    (long : bounds.loopStart.toNat + span < bounds.loopEnd.toNat)
    (some : 0 < laps) (few : before ≤ span + 1) {virtual : Int}
    (above : (bounds.loopStart.toNat : Int) - before ≤ virtual)
    (inLap : virtual ≤ bounds.final true)
    (begun : (bounds.start.toNat : Int) ≤ virtual + laps * bounds.loopSpan) :
    bounds.behind true true virtual = bounds.unrolled (virtual + laps * bounds.loopSpan) := by
  have length : bounds.loopSpan = bounds.loopEnd.toNat - bounds.loopStart.toNat := rfl
  rw [behind, if_neg (Int.not_lt.2 inLap)]
  simp only [entry, final, standInBefore, if_true] at *
  by_cases early : virtual < bounds.loopStart.toNat
  · rw [if_pos early]
    obtain rfl | again : laps = 1 ∨ 0 < laps - 1 := by omega
    · rw [unrolled, if_neg (by omega), if_pos (by omega)]
      omega
    · have turned : laps = laps - 1 + 1 := by omega
      rw [unrolled_of_laps (virtual - bounds.loopStart.toNat + bounds.loopSpan).toNat (laps - 1)
        ordered (by omega) again (by rw [turned]; push_cast; rw [Int.add_mul]; omega)]
      omega
  · rw [if_neg early, unrolled_of_laps (virtual - bounds.loopStart.toNat).toNat laps ordered
      (by omega) some (by omega)]
    omega

/-- What stands behind a virtual index of a lap is what stands behind it, as
many loops further on as the voice has turned back, where that is not before the
region. -/
theorem behind_eq_unrolled_of_begun {bounds : Bounds} {looped : Bool} {span before after laps : Nat}
    (ordered : bounds.start.toNat < bounds.loopEnd.toNat)
    (long : bounds.loopStart.toNat + span < bounds.loopEnd.toNat)
    (history : looped = true ↔ 0 < laps) (few : before ≤ span + 1 ∧ after ≤ span + 1)
    {virtual : Int} (above : (bounds.entry looped : Int) - before ≤ virtual)
    (below : virtual ≤ bounds.final true + after)
    (begun : looped = true → (bounds.start.toNat : Int) ≤ virtual + laps * bounds.loopSpan) :
    bounds.behind true looped virtual = bounds.unrolled (virtual + laps * bounds.loopSpan) := by
  rcases Int.lt_or_le (bounds.final true) virtual with past | inLap
  · exact behind_eq_unrolled_of_past laps ordered long few.2 past below
  · cases looped with
    | false =>
        obtain rfl : laps = 0 := by
          by_contra some
          exact Bool.false_ne_true (history.2 (Nat.pos_of_ne_zero some))
        simpa using behind_eq_unrolled_of_fresh inLap ordered
    | true =>
        exact behind_eq_unrolled_of_turned ordered long (history.1 rfl) few.1 above inLap
          (begun rfl)

/-- In a region that begins a span before the end of the loop, that is never before
it. -/
theorem behind_eq_unrolled {bounds : Bounds} {looped : Bool} {span before after laps : Nat}
    (entered : bounds.start.toNat + span < bounds.loopEnd.toNat)
    (long : bounds.loopStart.toNat + span < bounds.loopEnd.toNat)
    (history : looped = true ↔ 0 < laps) (few : before ≤ span + 1 ∧ after ≤ span + 1)
    {virtual : Int} (above : (bounds.entry looped : Int) - before ≤ virtual)
    (below : virtual ≤ bounds.final true + after) :
    bounds.behind true looped virtual = bounds.unrolled (virtual + laps * bounds.loopSpan) := by
  have length : bounds.loopSpan = bounds.loopEnd.toNat - bounds.loopStart.toNat := rfl
  apply behind_eq_unrolled_of_begun (by omega) long history few above below
  rintro rfl
  have once : 1 * bounds.loopSpan ≤ laps * bounds.loopSpan :=
    Nat.mul_le_mul_right _ (history.1 rfl)
  simp only [entry, if_true] at above
  rw [← Int.natCast_mul]
  omega

end Bounds

/-- The row of a position does not change by whole samples. -/
theorem Phase.row_ofNat_add (units shift : Nat) :
    (ofNat (units + shift * 2 ^ 32)).row = (ofNat units).row := by
  apply Fin.ext
  simp only [Phase.row, Phase.fraction, toNat_ofNat]
  omega

/-- A lap is heard as the reference is, a number of whole samples further on. -/
theorem Scene.played_eq_heard {scene : Scene} {sample : Nat → Float32} {looped : Bool}
    {position : Phase} {shift : Nat} {stored : Int → Float32}
    (agree : ∀ virtual ∈ scene.kernel.window position.index,
      sample (scene.bounds.behind scene.looping looped virtual) = stored (virtual + shift)) :
    scene.played sample looped position =
      scene.kernel.heard stored (position.toNat + shift * 2 ^ 32) := by
  have index : (position.toNat + shift * 2 ^ 32) / 2 ^ 32 = position.index + shift :=
    Nat.add_mul_div_right _ _ (by decide)
  rw [played, Kernel.heard, Phase.row_ofNat_add, Phase.ofNat_toNat, index, Kernel.window_add,
    List.map_map]
  congr 1
  apply List.map_congr_left
  intro virtual member
  exact agree virtual member

end Resampler
