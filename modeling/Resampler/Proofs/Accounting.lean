import Mathlib.Data.Int.ModEq
import Resampler.Proofs.Scene.Laps
import Resampler.Render

/-!
Contract: what a render call leaves, counted up from the slots it filled and the
turns it made.

Owns:
- the position of a course that began anywhere, as a word, from its slots and turns;
- the state of a voice after any call that is not abandoned.

Nothing is asked of the bounds, the position, or the speed of the voice. Positions
wrap, and the half sample that some kernels move them by cancels as a word.

Does not own: which calls are abandoned, or the samples in the slots.
-/

namespace Resampler

/-- As a word, a position is moved back by whole samples wherever it stands. -/
theorem Phase.toNat_sub_ofIndex_emod (phase : Phase) (length : Nat) :
    ((phase - ofIndex length).toNat : Int) = (phase.toNat - length * 2 ^ 32) % 2 ^ 64 := by
  have inWord := phase.toNat_lt
  rw [toNat_sub, toNat_ofIndex]
  omega

namespace Scene

variable {scene : Scene} {head : Head} {origin start finish : Course}

/-- How far a course has come since its origin: a step for each slot, and back by
a loop for each turn. It has turned if it ever did, or if its origin had. -/
structure Accounted (scene : Scene) (origin course : Course) : Prop where
  inBlock : course.slots.size ≤ blockSize
  position : (course.position.toNat : Int) =
    (origin.position.toNat + course.slots.size * scene.step.toNat -
      course.totalTurns * (scene.bounds.loopEnd.toNat - scene.bounds.loopStart.toNat) * 2 ^ 32) %
        2 ^ 64
  forward : scene.looping = false → course.totalTurns = 0
  history : course.looped = (origin.looped || decide (0 < course.totalTurns))

theorem accounted_begin (position : Phase) (looped : Bool) :
    scene.Accounted (.begin position looped) (.begin position looped) where
  inBlock := Nat.zero_le _
  position := by
    have inWord := position.toNat_lt
    have none : (Course.begin position looped).totalTurns = 0 := rfl
    have empty : (Course.begin position looped).slots.size = 0 := rfl
    have stays : (Course.begin position looped).position = position := rfl
    simp only [none, empty, stays, Int.natCast_zero, Int.zero_mul, Int.add_zero, Int.sub_zero]
    omega
  forward := fun _ => rfl
  history := (Bool.or_false looped).symm

theorem Accounted.emit {course : Course} (accounted : scene.Accounted origin course)
    (some : 0 < course.left) (sample : Float32) :
    scene.Accounted origin (course.emit scene.step sample) := by
  have size := course.size_emit scene.step sample
  have position := accounted.position
  refine ⟨?_, ?_, ?_, ?_⟩
  · have left : 0 < blockSize - course.slots.size := some
    omega
  · rw [size, Int.natCast_add, Int.natCast_one, Int.add_mul, Int.one_mul, Course.totalTurns_emit,
      Course.position_emit, Phase.toNat_add]
    omega
  · rw [Course.totalTurns_emit]
    exact accounted.forward
  · rw [Course.totalTurns_emit]
    exact accounted.history

theorem Accounted.turn {course : Course} {length : Nat} (accounted : scene.Accounted origin course)
    (mustTurn : scene.mustTurn course = true) (loopLength : scene.bounds.loopLength = .ok length) :
    scene.Accounted origin (course.turn length) := by
  have long : (scene.bounds.loopEnd.toNat : Int) - scene.bounds.loopStart.toNat = length := by
    have := Index.minus_eq_ok_iff.1 loopLength
    omega
  have position := accounted.position
  refine ⟨accounted.inBlock, ?_, ?_, ?_⟩
  · have slots : (course.turn length).slots = course.slots := rfl
    rw [long] at position ⊢
    rw [slots, Course.totalTurns_turn, Int.natCast_add, Int.natCast_one, Int.add_mul, Int.one_mul,
      Course.position_turn, Phase.toNat_sub_ofIndex_emod]
    omega
  · intro notLooping
    simp [Scene.mustTurn, notLooping] at mustTurn
  · simp

end Scene

/-- The account of a render call with a number of turns: the slots it wrote and
those it left alone, and where the voice stands after it. -/
structure Rendering.Accounts (rendering : Rendering) (voice : Voice) (looping : Bool)
    (block : Block) (turns : Nat) : Prop where
  inBlock : rendering.count ≤ blockSize
  full : looping = true → rendering.count = blockSize
  kept : ∀ slot (isSlot : slot < blockSize), rendering.count ≤ slot →
    rendering.block[slot] = block[slot]
  position : (rendering.voice.position.toNat : Int) =
    (voice.position.toNat + rendering.count * voice.step.toNat -
      turns * (voice.bounds.loopEnd.toNat - voice.bounds.loopStart.toNat) * 2 ^ 32) % 2 ^ 64
  forward : looping = false → turns = 0
  history : rendering.voice.looped = (voice.looped || decide (0 < turns))
  voice_eq : rendering.voice =
    { voice with position := rendering.voice.position, looped := rendering.voice.looped }

namespace Kernel

variable {kernel : Kernel} {read : Reader} {voice : Voice} {looping : Bool} {block : Block}
  {rendering : Rendering} {course : Course}

/-- A call that is not abandoned has a course, which the account is of. -/
theorem course_accounted (ran : kernel.course read voice looping = .ok course) :
    ∃ scene : Scene, scene.bounds = voice.bounds ∧ scene.looping = looping ∧
      scene.step = voice.step ∧
      scene.Accounted (.begin (voice.position + kernel.shift) voice.looped) course ∧
      (looping = true → course.slots.size = blockSize) := by
  simp only [Kernel.course, Checked.bind_eq_ok_iff] at ran
  obtain ⟨scene, prepared, head, _, ran⟩ := ran
  obtain ⟨_, rfl⟩ := Scene.exists_of_prepare prepared
  have accounted := Scene.laps_invariant _ (fun _ sample holds some => holds.emit some sample)
    (fun _ _ holds mustTurn length => holds.turn mustTurn length) ran
    (Scene.accounted_begin (voice.position + kernel.shift) voice.looped)
  refine ⟨_, rfl, rfl, rfl, accounted, ?_⟩
  intro loops
  rcases Scene.laps_ending ran with full | ⟨notLooping, _⟩
  · have inBlock := accounted.inBlock
    have full : blockSize - course.slots.size = 0 := full
    omega
  · exact absurd (notLooping.symm.trans loops) Bool.false_ne_true

/-- Whatever the voice, a render call that is not abandoned moves it on by a step
for each slot and back by a loop for each turn, as a word. So its fraction
is that of the slots alone, however often it turned, and it turns in calls that loop only
and never forgets that it did. -/
theorem render_accounts (rendered : kernel.render read voice looping block = .ok rendering) :
    ∃ course, kernel.course read voice looping = .ok course ∧
      rendering.Accounts voice looping block course.totalTurns ∧
      rendering.voice.position.fraction =
        (voice.position.toNat + rendering.count * voice.step.toNat) % 2 ^ 32 ∧
      (voice.looped = true → rendering.voice.looped = true) ∧
      (looping = false → rendering.voice.looped = voice.looped) := by
  obtain ⟨course, ran, rfl⟩ := render_eq_ok_iff.1 rendered
  obtain ⟨scene, bounds, loops, step, accounted, full⟩ := course_accounted ran
  have size : course.samples.length = course.slots.size := by simp [Course.samples]
  have origin : (Course.begin (voice.position + kernel.shift) voice.looped).position =
      voice.position + kernel.shift := rfl
  have inBlock := accounted.inBlock
  have located := accounted.position
  have forward := accounted.forward
  have history := accounted.history
  rw [origin, step, bounds] at located
  rw [loops] at forward
  -- The half sample taken off at the end is the one put on at the beginning.
  have position : ((course.position - kernel.shift).toNat : Int) =
      (voice.position.toNat + course.slots.size * voice.step.toNat -
        course.totalTurns * (voice.bounds.loopEnd.toNat - voice.bounds.loopStart.toNat) * 2 ^ 32) %
          2 ^ 64 := by
    rw [Phase.toNat_add] at located
    rw [Phase.toNat_sub]
    have := kernel.shift.toNat_lt
    omega
  refine ⟨course, ran, ⟨inBlock, full, ?_, position, forward, history, rfl⟩, ?_, ?_, ?_⟩
  · intro slot isSlot unwritten
    exact Block.getElem_overwrite_of_le _ _ isSlot (size ▸ unwritten)
  · show (course.position - kernel.shift).toNat % 2 ^ 32 =
      (voice.position.toNat + course.slots.size * voice.step.toNat) % 2 ^ 32
    omega
  · intro turned
    show course.looped = true
    rw [history]
    simp [Course.begin, turned]
  · intro notLooping
    show course.looped = voice.looped
    rw [history, forward notLooping]
    exact Bool.or_false _

/-- A region that ends before it starts, and a voice that comes past a loop of the
first sample in its last slot: it turns back to half a sample below zero, as a word. -/
theorem render_accounts_below_zero :
    ∃ rendering, nearest.render (SampleData.ofWords #[7]).read
        ⟨⟨0⟩, 0.0078125, false, ⟨5, 0, 0, 1⟩, .nearest⟩ true (.filled 0) = .ok rendering ∧
      ∃ course, nearest.course (SampleData.ofWords #[7]).read
          ⟨⟨0⟩, 0.0078125, false, ⟨5, 0, 0, 1⟩, .nearest⟩ true = .ok course ∧
        rendering.Accounts ⟨⟨0⟩, 0.0078125, false, ⟨5, 0, 0, 1⟩, .nearest⟩ true (.filled 0)
          course.totalTurns ∧
        rendering.voice.position.fraction =
          (0 + rendering.count * (Phase.ofSpeed 0.0078125).toNat) % 2 ^ 32 ∧
        (false = true → rendering.voice.looped = true) ∧
        (true = false → rendering.voice.looped = false) := by
  let voice : Voice := ⟨⟨0⟩, 0.0078125, false, ⟨5, 0, 0, 1⟩, .nearest⟩
  let scene : Scene :=
    ⟨.nearest, (SampleData.ofWords #[7]).read, voice.bounds, true, voice.step, 0, []⟩
  have ran : scene.laps ⟨5, []⟩ (.begin (voice.position + .half) false) =
      .ok ⟨.replicate 64 ⟨0, 7⟩, 1, ⟨0⟩, true⟩ := by
    rw [Scene.laps]
    decide +kernel
  have course : nearest.course (SampleData.ofWords #[7]).read voice true =
      .ok ⟨.replicate 64 ⟨0, 7⟩, 1, ⟨0⟩, true⟩ := ran
  obtain ⟨rendering, rendered⟩ : ∃ rendering,
      nearest.render (SampleData.ofWords #[7]).read voice true (.filled 0) = .ok rendering := by
    exact ⟨_, render_eq_ok_iff.2 ⟨_, course, rfl⟩⟩
  exact ⟨rendering, rendered, render_accounts rendered⟩

end Kernel

end Resampler
