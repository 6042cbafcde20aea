import Resampler.Proofs.Units
import Resampler.Scene

/-!
Contract: which stored samples a render call asks for.

Owns:
- the first and the last index of a lap, and the stored samples that stand in
  for those before and after it;
- the stored samples behind the taps of a zone, as a list of indices;
- the proof that a scene, its head, and its taps hold exactly the samples at
  those indices, whenever the reader gives them.

Does not own: the positions at which a zone is entered, or that the indices lie
inside the data.
-/

namespace Resampler

namespace Bounds

/-- The first index of a lap: the loop's once the voice has turned back, until
then the region's. -/
def entry (bounds : Bounds) (looped : Bool) : Nat :=
  if looped then bounds.loopStart.toNat else bounds.start.toNat

/-- The last index of a lap. -/
def final (bounds : Bounds) (looping : Bool) : Nat :=
  if looping then bounds.loopEnd.toNat - 1 else bounds.last.toNat

/-- The stored sample that stands in for one before the entry, `distance`
samples beyond the nearest. -/
def standInBefore (bounds : Bounds) (looped : Bool) (distance : Nat) : Nat :=
  if looped then bounds.loopEnd.toNat - (distance + 1) else bounds.start.toNat

def standInAfter (bounds : Bounds) (looping : Bool) (distance : Nat) : Nat :=
  if looping then bounds.loopStart.toNat + distance else bounds.last.toNat

end Bounds

def Reader.Gives (read : Reader) (sample : Nat → Float32) (index : Nat) : Prop :=
  index < Index.bound ∧ read index = .ok (sample index)

/-- A run of samples is what the reader gives one after the other. -/
theorem readRun_eq {read : Reader} {sample : Nat → Float32} {first count : Nat}
    (given : ∀ distance < count, read.Gives sample (first + distance)) :
    readRun read first count =
      .ok ((List.range count).map fun distance => sample (first + distance)) := by
  apply Checked.mapM_eq_ok
  intro distance member
  obtain ⟨inBound, reads⟩ := given distance (List.mem_range.1 member)
  rw [Index.plus_of_lt inBound]
  exact reads

/-- A run that was read is what the reader gives at each of its indices. -/
theorem map_of_readRun {read : Reader} {first count : Nat} {samples : List Float32}
    (ran : readRun read first count = .ok samples) :
    (List.range count).map (fun distance => read (first + distance)) = samples.map .ok := by
  rw [← Checked.mapM_eq_ok_iff.1 ran]
  apply List.map_congr_left
  intro distance member
  obtain ⟨sample, found⟩ := Checked.exists_of_mapM ran member
  obtain ⟨index, sum, _⟩ := Checked.bind_eq_ok_iff.1 found
  rw [sum, (Index.plus_eq_ok_iff.1 sum).1]
  rfl

theorem exists_of_readRun {read : Reader} {first count : Nat} {samples : List Float32}
    (ran : readRun read first count = .ok samples) {distance : Nat} (near : distance < count) :
    ∃ sample, read (first + distance) = .ok sample := by
  have found : read (first + distance) ∈ samples.map .ok :=
    map_of_readRun ran ▸ List.mem_map_of_mem (List.mem_range.2 near)
  obtain ⟨sample, _, same⟩ := List.mem_map.1 found
  exact ⟨sample, same.symm⟩

namespace Scene

def standInsAfter (kernel : Kernel) (sample : Nat → Float32) (bounds : Bounds)
    (looping : Bool) : List Float32 :=
  (List.range kernel.after).map fun distance => sample (bounds.standInAfter looping distance)

def headOf (kernel : Kernel) (sample : Nat → Float32) (bounds : Bounds) (looped : Bool) : Head :=
  ⟨bounds.entry looped,
    (List.range kernel.before).map fun distance => sample (bounds.standInBefore looped distance)⟩

structure Staged (scene : Scene) (sample : Nat → Float32) : Prop where
  last : scene.last = scene.bounds.final scene.looping
  tail : scene.tail = standInsAfter scene.kernel sample scene.bounds scene.looping

def staging (kernel : Kernel) (read : Reader) (sample : Nat → Float32) (bounds : Bounds)
    (looping : Bool) (step : Phase) : Scene :=
  ⟨kernel, read, bounds, looping, step, bounds.final looping,
    standInsAfter kernel sample bounds looping⟩

theorem staged_staging (kernel : Kernel) (read : Reader) (sample : Nat → Float32)
    (bounds : Bounds) (looping : Bool) (step : Phase) :
    (staging kernel read sample bounds looping step).Staged sample :=
  ⟨rfl, rfl⟩

theorem readTail_eq {kernel : Kernel} {read : Reader} {sample : Nat → Float32}
    {bounds : Bounds} {looping : Bool}
    (given : ∀ distance < kernel.after, read.Gives sample (bounds.standInAfter looping distance)) :
    readTail kernel read bounds looping = .ok (standInsAfter kernel sample bounds looping) := by
  apply Checked.mapM_eq_ok
  intro distance member
  obtain ⟨inBound, reads⟩ := given distance (List.mem_range.1 member)
  cases looping with
  | true =>
      simp only [Bounds.standInAfter, if_true] at inBound reads ⊢
      rw [Index.plus_of_lt inBound]
      exact reads
  | false => exact reads

/-- A scene can be prepared when its tail can be read. -/
theorem prepare_eq {kernel : Kernel} {read : Reader} {sample : Nat → Float32}
    {bounds : Bounds} {looping : Bool} {step : Phase}
    (ordered : looping = true → 0 < bounds.loopEnd.toNat)
    (given : ∀ distance < kernel.after, read.Gives sample (bounds.standInAfter looping distance)) :
    prepare kernel read bounds looping step =
      .ok (staging kernel read sample bounds looping step) := by
  have lastIndex : bounds.lastIndex looping = .ok (bounds.final looping) := by
    cases looping with
    | true =>
        have : 1 ≤ bounds.loopEnd.toNat := ordered rfl
        simp [Bounds.lastIndex, Bounds.final, Index.minus_of_le this]
    | false => rfl
  rw [prepare, lastIndex, readTail_eq given]
  rfl

/-- A scene that was prepared is that of its call, up to the last index of its bounds. -/
theorem exists_of_prepare {kernel : Kernel} {read : Reader} {bounds : Bounds} {looping : Bool}
    {step : Phase} {scene : Scene}
    (prepared : prepare kernel read bounds looping step = .ok scene) :
    ∃ tail, scene = ⟨kernel, read, bounds, looping, step, bounds.final looping, tail⟩ := by
  simp only [prepare, Checked.bind_eq_ok_iff, Checked.pure_eq_ok_iff] at prepared
  obtain ⟨last, lastIndex, tail, _, rfl⟩ := prepared
  have final : last = bounds.final looping := by
    cases looping with
    | true =>
        have final : bounds.loopEnd.toNat = last + 1 := Index.minus_eq_ok_iff.1 lastIndex
        exact (Nat.sub_eq_of_eq_add final).symm
    | false => exact (Except.ok.inj lastIndex).symm
  exact ⟨tail, by rw [final]⟩

/-- Its stand-ins were read, and the last index of a loop is an index. -/
theorem readTail_of_prepare {kernel : Kernel} {read : Reader} {bounds : Bounds} {looping : Bool}
    {step : Phase} {scene : Scene}
    (prepared : prepare kernel read bounds looping step = .ok scene) :
    readTail kernel read bounds looping = .ok scene.tail ∧
      (looping = true → 0 < bounds.loopEnd.toNat) := by
  simp only [prepare, Checked.bind_eq_ok_iff, Checked.pure_eq_ok_iff] at prepared
  obtain ⟨last, lastIndex, tail, tailRead, rfl⟩ := prepared
  refine ⟨tailRead, ?_⟩
  rintro rfl
  have final : bounds.loopEnd.toNat = last + 1 := Index.minus_eq_ok_iff.1 lastIndex
  exact final ▸ Nat.succ_pos last

variable {scene : Scene} {sample : Nat → Float32} {looped : Bool}

theorem readHead_eq
    (ordered : looped = true → scene.kernel.before ≤ scene.bounds.loopEnd.toNat)
    (given : ∀ distance < scene.kernel.before,
      scene.read.Gives sample (scene.bounds.standInBefore looped distance)) :
    scene.readHead looped = .ok (headOf scene.kernel sample scene.bounds looped) := by
  have standIns : ((List.range scene.kernel.before).mapM fun distance => do
      if looped then scene.read (← Index.minus scene.bounds.loopEnd.toNat (distance + 1))
      else scene.read scene.bounds.start.toNat) =
      .ok ((List.range scene.kernel.before).map fun distance =>
        sample (scene.bounds.standInBefore looped distance)) := by
    apply Checked.mapM_eq_ok
    intro distance member
    have near := List.mem_range.1 member
    obtain ⟨_, reads⟩ := given distance near
    cases looped with
    | true =>
        have := ordered rfl
        simp only [if_true]
        rw [Index.minus_of_le (by omega : distance + 1 ≤ scene.bounds.loopEnd.toNat)]
        exact reads
    | false => exact reads
  rw [readHead, standIns]
  rfl

/-- A head that was read begins where the lap does. -/
theorem first_of_readHead {head : Head} (headRead : scene.readHead looped = .ok head) :
    head.first = scene.bounds.entry looped := by
  simp only [readHead, Checked.bind_eq_ok_iff, Checked.pure_eq_ok_iff] at headRead
  obtain ⟨_, _, rfl⟩ := headRead
  rfl

def readsIn (scene : Scene) (looped : Bool) (index : Nat) : Zone → List Nat
  | .head past =>
      ((List.range (scene.kernel.before - past)).map (scene.bounds.standInBefore looped)).reverse ++
        (List.range (scene.kernel.width - (scene.kernel.before - past))).map (index - past + ·)
  | .room ahead =>
      (List.range (scene.kernel.width - (scene.kernel.after - ahead))).map
          (index - scene.kernel.before + ·) ++
        (List.range (scene.kernel.after - ahead)).map (scene.bounds.standInAfter scene.looping)

private theorem take_map_range {α : Type} (value : Nat → α) {missing count : Nat}
    (enough : missing ≤ count) :
    ((List.range count).map value).take missing = (List.range missing).map value := by
  rw [← List.map_take, List.take_range, Nat.min_eq_left enough]

theorem taps_head_eq {index past : Nat} (back : past ≤ index)
    (given : ∀ stored ∈ scene.readsIn looped index (.head past),
      scene.read.Gives sample stored) :
    scene.taps (headOf scene.kernel sample scene.bounds looped) (.head past) index =
      .ok ((scene.readsIn looped index (.head past)).map sample) := by
  have run := readRun_eq fun distance near => given (index - past + distance)
    (List.mem_append_right _ (List.mem_map.2 ⟨distance, List.mem_range.2 near, rfl⟩))
  simp only [taps, Index.minus_of_le back, bind, Except.bind, run, pure, Except.pure, readsIn,
    headOf, take_map_range _ (Nat.sub_le scene.kernel.before past)]
  simp [Function.comp_def]

theorem taps_room_eq (staged : scene.Staged sample) {index ahead : Nat} {head : Head}
    (back : scene.kernel.before ≤ index)
    (given : ∀ stored ∈ scene.readsIn looped index (.room ahead),
      scene.read.Gives sample stored) :
    scene.taps head (.room ahead) index =
      .ok ((scene.readsIn looped index (.room ahead)).map sample) := by
  have run := readRun_eq fun distance near => given (index - scene.kernel.before + distance)
    (List.mem_append_left _ (List.mem_map.2 ⟨distance, List.mem_range.2 near, rfl⟩))
  simp only [taps, Index.minus_of_le back, bind, Except.bind, run, pure, Except.pure, readsIn,
    staged.tail, standInsAfter, take_map_range _ (Nat.sub_le scene.kernel.after ahead)]
  simp [Function.comp_def]

end Scene

end Resampler
