import Resampler.Proofs.Scene.Laps
import Resampler.Proofs.Scene.Simulation

/-!
Contract: a render call asks for stored samples only, wherever in its reach it
begins.

Owns:
- the stored samples that a lap may ask for;
- bounds that hold the taps of every zone of a kernel, in whichever order the
  region and the loop lie;
- the invariant of a course that may begin before its head, as other kernels
  may have left it, or turn for long before it fills a slot;
- the proof that the invariant is sustained within a lap and survives a turn.

Does not own: which positions a voice is left at between calls.
-/

namespace Resampler

/-- Bounds whose loop is long enough for a kernel, in samples that hold the loop,
the end of the lap, and a span from the start of the region on. -/
structure Bounds.Stocked (bounds : Bounds) (kernel : Kernel) (read : Reader)
    (sample : Nat → Float32) (looping : Bool) (extent : Nat) : Prop where
  loop : bounds.loopStart.toNat + kernel.span < bounds.loopEnd.toNat
  inside : bounds.loopEnd.toNat ≤ extent
  entered : bounds.start.toNat + kernel.span < extent
  ends : bounds.final looping < extent
  given : ∀ index < extent, read.Gives sample index

namespace Bounds.Stocked

variable {bounds : Bounds} {kernel : Kernel} {read : Reader} {sample : Nat → Float32}
  {looping : Bool} {extent : Nat}

theorem ordered (stocked : bounds.Stocked kernel read sample looping extent) :
    bounds.loopStart.toNat < bounds.loopEnd.toNat :=
  Nat.lt_of_le_of_lt (Nat.le_add_right _ _) stocked.loop

theorem entry_add_span_lt (stocked : bounds.Stocked kernel read sample looping extent)
    (looped : Bool) : bounds.entry looped + kernel.span < extent := by
  cases looped with
  | false => exact stocked.entered
  | true => exact Nat.lt_of_lt_of_le stocked.loop stocked.inside

theorem gives_before (stocked : bounds.Stocked kernel read sample looping extent) (looped : Bool)
    (distance : Nat) : read.Gives sample (bounds.standInBefore looped distance) := by
  have loop := stocked.loop
  have inside := stocked.inside
  have entered := stocked.entered
  apply stocked.given
  unfold standInBefore
  split <;> omega

theorem gives_after (stocked : bounds.Stocked kernel read sample looping extent) {distance : Nat}
    (near : distance < kernel.after) :
    read.Gives sample (bounds.standInAfter looping distance) := by
  have loop := stocked.loop
  have inside := stocked.inside
  have taps := kernel.taps_le_span
  apply stocked.given
  cases looping with
  | true =>
      show bounds.loopStart.toNat + distance < extent
      omega
  | false => exact stocked.ends

theorem entry_add_before_lt (stocked : bounds.Stocked kernel read sample looping extent)
    (looped : Bool) (many : 2 ≤ kernel.after) :
    bounds.entry looped + kernel.before < Index.bound := by
  have opens := stocked.entry_add_span_lt looped
  have short := Kernel.before_le_span many
  exact (stocked.given (bounds.entry looped + kernel.before) (by omega)).1

/-- A zone of a lap answers by where an index lies that leaves room for all sums. -/
theorem admits (stocked : bounds.Stocked kernel read sample looping extent) (looped : Bool)
    {zone : Zone} (near : kernel.Near zone) (last : Nat) {index : Nat} (fits : index + 4 < 2 ^ 32) :
    zone.admits (bounds.entry looped) last index =
      .ok (decide (zone.Holds (bounds.entry looped) last index)) := by
  have few := kernel.after_le
  apply Zone.admits_eq
  · rintro past rfl
    have spanned := Kernel.before_add_after_le (show past < kernel.before from near)
    have opens := stocked.entry_add_span_lt looped
    exact (stocked.given (bounds.entry looped + past) (by omega)).1
  · rintro ahead rfl _
    have near : ahead ≤ kernel.after := near
    show _ < 2 ^ 32
    omega

end Bounds.Stocked

namespace Scene

variable {scene : Scene} {sample : Nat → Float32} {extent : Nat} {origin : Course}

/-- The stored samples that a lap may ask for, when its taps begin at `low`. -/
inductive Asks (scene : Scene) (low : Nat) (looped : Bool) : Nat → Prop where
  | before {distance : Nat} (near : distance < scene.kernel.before) :
      Asks scene low looped (scene.bounds.standInBefore looped distance)
  | after {distance : Nat} (near : distance < scene.kernel.after) :
      Asks scene low looped (scene.bounds.standInAfter scene.looping distance)
  | opening {distance : Nat} (near : distance ≤ scene.kernel.span) :
      Asks scene low looped (scene.bounds.entry looped + distance)
  | body {stored : Nat} (started : low ≤ stored) (inside : stored ≤ scene.last) :
      Asks scene low looped stored

/-- The taps of a zone ask for stand-ins, for samples close to the entry of the
lap, also where it is too close to the end, and else for samples up to the last. -/
theorem asks_of_mem_readsIn {low index : Nat} {looped : Bool} {zone : Zone}
    (near : scene.kernel.Near zone)
    (within : zone.Holds (scene.bounds.entry looped) scene.last index)
    (reached : scene.kernel.Reached low (scene.bounds.entry looped) scene.last index zone) :
    ∀ stored ∈ scene.readsIn looped index zone, scene.Asks low looped stored := by
  intro stored member
  by_cases silent : scene.kernel = .silence
  · cases zone <;> simp [readsIn, silent, Kernel.width, Kernel.before, Kernel.after] at member
  have width := Kernel.width_eq_of_ne_silence silent
  cases zone with
  | head past =>
      have near : past < scene.kernel.before := near
      have within : index = scene.bounds.entry looped + past := within
      have spanned := Kernel.before_add_after_le near
      simp only [readsIn, List.mem_append, List.mem_reverse, List.mem_map, List.mem_range] at member
      rcases member with ⟨distance, missing, rfl⟩ | ⟨distance, close, rfl⟩
      · exact .before (by omega)
      · rw [within, Nat.add_sub_cancel_right]
        exact .opening (by omega)
  | room ahead =>
      have near : ahead ≤ scene.kernel.after := near
      have within : index + ahead ≤ scene.last := within
      have started := reached.1
      simp only [readsIn, List.mem_append, List.mem_map, List.mem_range] at member
      rcases member with ⟨distance, _, rfl⟩ | ⟨distance, missing, rfl⟩
      · exact .body (by omega) (by omega)
      · exact .after (by omega)

/-- In a zone an index is close to the entry of the lap, or not after the last. -/
theorem index_le_of_within {course : Course} {zone : Zone} (near : scene.kernel.Near zone)
    (within : scene.Within course zone) :
    course.position.index ≤ scene.bounds.entry course.looped + scene.kernel.span ∨
      course.position.index ≤ scene.last := by
  cases zone with
  | head past =>
      have within : course.position.index = scene.bounds.entry course.looped + past := within
      have spanned := Kernel.before_add_after_le near
      omega
  | room ahead =>
      have within : course.position.index + ahead ≤ scene.last := within
      omega

/-- The samples behind the taps of a zone are stored, also where the head of a
lap is too close to its end. -/
theorem gives_of_stocked (staged : scene.Staged sample)
    (stocked : scene.bounds.Stocked scene.kernel scene.read sample scene.looping extent)
    {looped : Bool} {index : Nat} {zone : Zone} (near : scene.kernel.Near zone)
    (within : zone.Holds (scene.bounds.entry looped) scene.last index)
    (reached : scene.kernel.Reached 0 (scene.bounds.entry looped) scene.last index zone) :
    ∀ stored ∈ scene.readsIn looped index zone, scene.read.Gives sample stored := by
  intro stored member
  cases asks_of_mem_readsIn near within reached stored member with
  | before _ => exact stocked.gives_before looped _
  | after near => exact stocked.gives_after near
  | opening near =>
      have inside := stocked.entry_add_span_lt looped
      apply stocked.given
      omega
  | body _ inside =>
      rw [staged.last] at inside
      exact stocked.given stored (Nat.lt_of_le_of_lt inside stocked.ends)

/-- The samples before the head of a lap are stored. -/
theorem readHead_of_stocked
    (stocked : scene.bounds.Stocked scene.kernel scene.read sample scene.looping extent)
    (looped : Bool) :
    scene.readHead looped = .ok (headOf scene.kernel sample scene.bounds looped) := by
  have loop := stocked.loop
  have taps := scene.kernel.taps_le_span
  exact readHead_eq (fun _ => by omega) fun distance _ => stocked.gives_before looped distance

/-- In a zone an index is before the end of the samples. -/
theorem lt_extent_of_within (staged : scene.Staged sample)
    (stocked : scene.bounds.Stocked scene.kernel scene.read sample scene.looping extent)
    {course : Course} {zone : Zone} (near : scene.kernel.Near zone) (within : scene.Within course zone) :
    course.position.index < extent := by
  have last := staged.last
  have ends := stocked.ends
  have entered := stocked.entry_add_span_lt course.looped
  rcases index_le_of_within near within with close | inside
  · exact Nat.lt_of_le_of_lt close entered
  · omega

/-- How a course goes on that began at an origin. Once turned, it may lie as
much before the loop as kernels differ in how they locate a position. Before
its first slot it may lie far behind the loop, unless the kernel has sums of
indices to form; if it does not loop, it has not moved until then. -/
structure Steers (scene : Scene) (origin course : Course) : Prop where
  placed : scene.bounds.entry course.looped ≤ course.position.index ∨
    scene.kernel.before ≤ course.position.index
  fresh : course.looped = false →
    scene.bounds.start.toNat * 2 ^ 32 + scene.kernel.shift.toNat ≤ course.position.toNat
  turned : course.looped = true →
    scene.bounds.loopStart.toNat * 2 ^ 32 + scene.kernel.shift.toNat ≤
      course.position.toNat + 2 ^ 31
  fits : 2 ≤ scene.kernel.after → course.position.toNat < 2 ^ 63 + 2 ^ 31
  moved : 0 < course.slots.size → course.position.toNat < 2 ^ 63
  idle : course.slots.size = 0 → scene.looping = false →
    course.position = origin.position ∧ course.looped = origin.looped

theorem sustains_of_stocked (staged : scene.Staged sample)
    (stocked : scene.bounds.Stocked scene.kernel scene.read sample scene.looping extent)
    (paced : extent * 2 ^ 32 + scene.step.toNat < 2 ^ 63) :
    scene.Sustains sample (fun _ => 0) (scene.Steers origin) where
  ordered := fun _ => Nat.zero_le _
  headRead := fun {course} _ => readHead_of_stocked stocked course.looped
  placed := by
    intro course steers
    rw [Nat.zero_add]
    exact steers.placed
  fits := by
    intro course steers many
    have near := steers.fits many
    have few := scene.kernel.after_le
    refine ⟨stocked.entry_add_before_lt course.looped many, ?_⟩
    show _ < 2 ^ 32
    unfold Phase.index
    omega
  given := fun _ near within reached => gives_of_stocked staged stocked near within reached
  fills := by
    intro course zone steers some near within _
    have inside := lt_extent_of_within staged stocked near within
    have below := Phase.index_lt_iff.1 inside
    have fits : course.position.toNat + scene.step.toNat < 2 ^ 64 := by omega
    have sum := Phase.toNat_add_of_lt fits
    have forward := Phase.index_le_index_add fits
    have next : (course.position + scene.step).toNat < 2 ^ 63 := by omega
    refine ⟨⟨?_, ?_, ?_, ?_, fun _ => next, ?_⟩, forward⟩
    · exact steers.placed.imp (Nat.le_trans · forward) (Nat.le_trans · forward)
    · intro fresh
      have := steers.fresh fresh
      show _ ≤ (course.position + scene.step).toNat
      omega
    · intro turned
      have := steers.turned turned
      show _ ≤ (course.position + scene.step).toNat + 2 ^ 31
      omega
    · intro _
      exact Nat.lt_of_lt_of_le next (by decide)
    · intro empty
      simp [filled, Course.emit] at empty

theorem Steers.turn (staged : scene.Staged sample)
    (stocked : scene.bounds.Stocked scene.kernel scene.read sample scene.looping extent)
    {course : Course} (steers : scene.Steers origin course)
    (mustTurn : scene.mustTurn course = true) :
    scene.Steers origin (course.turn scene.bounds.loopSpan) := by
  have position := toNat_position_turn staged.last mustTurn
  have entered := loopStart_le_position_turn staged.last stocked.ordered mustTurn
  have earlier : (course.turn scene.bounds.loopSpan).position.toNat ≤ course.position.toNat := by
    rw [position]
    exact Nat.sub_le ..
  have moved := scene.kernel.toNat_shift_le
  simp only [Scene.mustTurn, Bool.and_eq_true] at mustTurn
  refine ⟨.inl (Phase.le_index_iff.2 entered), ?_, ?_, ?_, ?_, ?_⟩
  · intro fresh
    exact absurd fresh.symm Bool.false_ne_true
  · exact fun _ => Nat.add_le_add entered moved
  · intro many
    exact Nat.lt_of_le_of_lt earlier (steers.fits many)
  · intro some
    exact Nat.lt_of_le_of_lt earlier (steers.moved some)
  · intro _ notLooping
    exact absurd (notLooping.symm.trans mustTurn.1) Bool.false_ne_true

end Scene

end Resampler
