import Resampler.Proofs.Handover
import Resampler.Proofs.OneShotPlayback
import Resampler.Proofs.Reference

/-!
Contract: a voice past the end of its region that no longer loops.

Owns:
- the lap of a voice that no zone holds, and what follows from a lap that fills nothing;
- the one place past the end where a voice is not silent: the head of a loop that lies
  there, for a voice that has turned back and a kernel with taps before the located sample;
- one render call of such a voice, silent or not, for any accepted bounds and any speed.

The zones at the head of a lap ask for their own index alone, and never for the last. A
voice that is let go at the head of its loop is heard there once more, wherever the region
ends.

Does not own: voices located in their region.
-/

namespace Resampler

theorem Kernel.head_mem_approach {kernel : Kernel} {past : Nat} (near : past < kernel.before) :
    .head past ∈ kernel.approach := by
  cases kernel <;> simp only [before, approach] at * <;> simp <;> omega

namespace Scene

variable {scene : Scene} {sample : Nat → Float32} {extent origin : Nat} {head : Head}
  {start finish : Course}

/-- A call that does not loop has left the voice where it was only if no zone holds it. -/
theorem outside_of_laps (once : scene.looping = false) (some : 0 < start.left)
    (ran : scene.laps head start = .ok finish) (none : finish.left = start.left) :
    ∀ zone ∈ scene.kernel.zones,
      zone.admits head.first scene.last start.position.index = .ok false := by
  have stays : ∀ course, scene.mustTurn course = false := by
    intro course
    rw [mustTurn, once, Bool.false_and]
  rw [laps_eq_lap] at ran
  obtain ⟨next, first, ran⟩ := Checked.bind_eq_ok_iff.1 ran
  cases lapped_of_lap first with
  | filled _ full =>
      cases Checked.pure_eq_ok_iff.1 ran
      omega
  | turnedLast _ _ _ mustTurn => exact absurd mustTurn (by simp [stays])
  | turned _ _ _ mustTurn => exact absurd mustTurn (by simp [stays])
  | @stayed approached _ approaches _ lands =>
      cases Checked.pure_eq_ok_iff.1 ran
      obtain rfl : approached = start := by
        refine (eq_or_left_lt_of_crossAll approaches).resolve_right fun fewer => ?_
        rcases eq_or_left_lt_of_crossAll lands with rfl | fewerStill <;> omega
      obtain rfl := (eq_or_left_lt_of_crossAll lands).resolve_right (by omega)
      intro zone member
      rcases List.mem_append.1 member with early | late
      · exact (crossAll_eq_self_iff some).1 approaches zone early
      · exact (crossAll_eq_self_iff some).1 lands zone late

theorem laps_of_outside (once : scene.looping = false) (some : 0 < start.left)
    (outside : ∀ zone ∈ scene.kernel.zones,
      zone.admits head.first scene.last start.position.index = .ok false) :
    scene.laps head start = .ok start := by
  rw [laps_eq_lap, lap_of_outside some outside, mustTurn, once, Bool.false_and]
  rfl

/-- A course past the last sample, at the head of the loop or after it: its slots were
filled at the head, with the samples of the loop as they go on. -/
structure Trails (scene : Scene) (sample : Nat → Float32) (origin : Nat) (course : Course) : Prop
    extends course.Fills fun slot =>
      scene.kernel.heard (fun virtual => sample (scene.bounds.onward true virtual))
        (origin + slot * scene.step.toNat) where
  turned : course.looped = true
  located : course.position.toNat = origin + course.slots.size * scene.step.toNat
  atHead : ∀ slot < course.slots.size,
    (origin + slot * scene.step.toNat) / 2 ^ 32 <
      scene.bounds.loopStart.toNat + scene.kernel.before
  entered : scene.bounds.loopStart.toNat ≤ course.position.index
  past : scene.last < course.position.index
  below : course.position.index + 4 < 2 ^ 32

theorem Trails.emit {course : Course} (trails : scene.Trails sample origin course)
    (some : 0 < course.left)
    (early : course.position.index < scene.bounds.loopStart.toNat + scene.kernel.before)
    (word : (scene.bounds.loopStart.toNat + scene.kernel.before + 4) * 2 ^ 32 +
      scene.step.toNat ≤ 2 ^ 64) :
    scene.Trails sample origin
        (course.emit scene.step
          (scene.kernel.heard (fun virtual => sample (scene.bounds.onward true virtual))
            course.position.toNat)) ∧
      course.position.index ≤ (course.position + scene.step).index := by
  have atHead := Phase.index_lt_iff.1 early
  have fits : course.position.toNat + scene.step.toNat < 2 ^ 64 := by omega
  have sum := Phase.toNat_add_of_lt fits
  have forward := Phase.index_le_index_add fits
  refine ⟨⟨trails.toFills.emit some (by rw [trails.located]), trails.turned, ?_, ?_,
    Nat.le_trans trails.entered forward, Nat.lt_of_lt_of_le trails.past forward, ?_⟩, forward⟩
  · rw [Course.size_emit, Course.position_emit, sum, trails.located, Nat.succ_mul, Nat.add_assoc]
  · intro slot isSlot
    rw [Course.size_emit] at isSlot
    by_cases earlier : slot < course.slots.size
    · exact trails.atHead slot earlier
    · obtain rfl : slot = course.slots.size := by omega
      rw [← trails.located]
      exact early
  · show (course.position + scene.step).index + 4 < 2 ^ 32
    unfold Phase.index
    omega

/-- No room is left in the region of such a course. -/
theorem Trails.outside {course : Course} (trails : scene.Trails sample origin course)
    (ahead : Nat) : ¬ course.position.index + ahead ≤ scene.last := by
  have past := trails.past
  omega

theorem Trails.filled_head {course : Course} (trails : scene.Trails sample origin course)
    {inside : Nat} (near : inside < scene.kernel.before)
    (within : course.position.index = scene.bounds.entry course.looped + inside) :
    scene.filled sample course (.head inside) =
      course.emit scene.step
        (scene.kernel.heard (fun virtual => sample (scene.bounds.onward true virtual))
          course.position.toNat) := by
  rw [filled, readsIn_head_eq_onward near within, trails.turned, List.map_map, Kernel.heard,
    Phase.ofNat_toNat]
  rfl

theorem sustains_trailing (staged : scene.Staged sample)
    (stocked : scene.bounds.Stocked scene.kernel scene.read sample scene.looping extent)
    (paced : (scene.bounds.loopEnd.toNat + 4) * 2 ^ 32 + scene.step.toNat ≤ 2 ^ 64) :
    scene.Sustains sample scene.bounds.entry (scene.Trails sample origin) where
  ordered := fun _ => Nat.le_refl _
  headRead := fun {course} _ => readHead_of_stocked stocked course.looped
  placed := by
    intro course trails
    rw [trails.turned]
    exact .inl trails.entered
  fits := by
    intro course trails many
    have below := trails.below
    have few := scene.kernel.after_le
    refine ⟨stocked.entry_add_before_lt course.looped many, ?_⟩
    show _ < 2 ^ 32
    omega
  given := by
    intro course zone trails near within reached
    cases zone with
    | head inside =>
        exact gives_of_stocked staged stocked near within (.inl (Nat.le_of_eq within.symm))
    | room ahead => exact absurd within (trails.outside ahead)
  fills := by
    intro course zone trails some near within _
    have loop := stocked.loop
    have taps := scene.kernel.taps_le_span
    have short : scene.bounds.loopStart.toNat + scene.kernel.before ≤
        scene.bounds.loopEnd.toNat := by omega
    have word : (scene.bounds.loopStart.toNat + scene.kernel.before + 4) * 2 ^ 32 +
        scene.step.toNat ≤ 2 ^ 64 :=
      Nat.le_trans (Nat.add_le_add_right
        (Nat.mul_le_mul_right _ (Nat.add_le_add_right short 4)) _) paced
    cases zone with
    | head inside =>
        have near : inside < scene.kernel.before := near
        have within : course.position.index = scene.bounds.entry course.looped + inside := within
        have early : course.position.index <
            scene.bounds.loopStart.toNat + scene.kernel.before := by
          rw [trails.turned] at within
          show _ < scene.bounds.entry true + scene.kernel.before
          omega
        rw [trails.filled_head near within]
        exact trails.emit some early word
    | room ahead => exact absurd within (trails.outside ahead)

/-- A call that does not loop ends past the head, unless it fills the block there. -/
theorem laps_trail (once : scene.looping = false) (staged : scene.Staged sample)
    (sustains : scene.Sustains sample scene.bounds.entry (scene.Trails sample origin))
    {start : Course} (trails : scene.Trails sample origin start) :
    ∃ finish, scene.laps (headOf scene.kernel sample scene.bounds start.looped) start =
        .ok finish ∧ scene.Trails sample origin finish ∧
      (finish.left = 0 ∨
        scene.bounds.loopStart.toNat + scene.kernel.before ≤ finish.position.index) := by
  rw [laps]
  refine (lap_ends (sustains.carries staged) trails ?_ ?_).total staged sustains
  · exact fun trails full => .finished ⟨trails, .inl full⟩
  · intro landed _ trails passed
    rw [mustTurn, once, Bool.false_and, if_neg Bool.false_ne_true]
    rw [trails.turned] at passed
    exact .finished ⟨trails, .inr passed⟩

end Scene

/-- Past the end of a region that is long enough, the zones that hold an index are those at
the head of a loop that lies there. -/
theorem Bounds.exists_holds_iff {bounds : Bounds} {kernel : Kernel} {looped : Bool} {index : Nat}
    (long : bounds.start.toNat + kernel.span ≤ bounds.last.toNat)
    (past : bounds.last.toNat < index) :
    (∃ zone ∈ kernel.zones, zone.Holds (bounds.entry looped) bounds.last.toNat index) ↔
      looped = true ∧ bounds.loopStart.toNat ≤ index ∧
        index < bounds.loopStart.toNat + kernel.before := by
  constructor
  · rintro ⟨zone, member, holds⟩
    have near := Kernel.near_of_mem_zones member
    cases zone with
    | head inside =>
        have near : inside < kernel.before := near
        have holds : index = bounds.entry looped + inside := holds
        have spanned := Kernel.before_add_after_le near
        cases looped with
        | false =>
            have holds : index = bounds.start.toNat + inside := holds
            omega
        | true =>
            have holds : index = bounds.loopStart.toNat + inside := holds
            exact ⟨rfl, by omega, by omega⟩
    | room ahead =>
        have holds : index + ahead ≤ bounds.last.toNat := holds
        omega
  · rintro ⟨rfl, entered, early⟩
    obtain ⟨inside, located⟩ := Nat.exists_eq_add_of_le entered
    have member : Zone.head inside ∈ kernel.approach := Kernel.head_mem_approach (by omega)
    exact ⟨.head inside, List.mem_append_left _ member, located⟩

/-- What a call leaves of a voice that is heard at the head of its loop only: samples in
the slots located there, with `stored` behind each virtual index, the old samples in the
others, and a voice that is moved on by as many steps. -/
structure Rendering.Trails (rendering : Rendering) (kernel : Kernel) (voice : Voice)
    (stored : Int → Float32) (block : Block) : Prop where
  some : 0 < rendering.count
  atHead : ∀ slot < rendering.count,
    ((voice.position + kernel.shift).toNat + slot * voice.step.toNat) / 2 ^ 32 <
      voice.bounds.loopStart.toNat + kernel.before
  ending : rendering.count = blockSize ∨
    voice.bounds.loopStart.toNat + kernel.before ≤ (rendering.voice.position + kernel.shift).index
  written : ∀ slot (isSlot : slot < blockSize), slot < rendering.count →
    rendering.block[slot] =
      kernel.heard stored ((voice.position + kernel.shift).toNat + slot * voice.step.toNat)
  kept : ∀ slot (isSlot : slot < blockSize), rendering.count ≤ slot →
    rendering.block[slot] = block[slot]
  voice_eq : rendering.voice = { voice with position := rendering.voice.position }
  moved : (rendering.voice.position + kernel.shift).toNat =
    (voice.position + kernel.shift).toNat + rendering.count * voice.step.toNat

namespace Voice

variable {data : SampleData} {voice : Voice}

/-- Whether a voice that has turned back is located at the head of its loop, where a tap
before the located sample is taken from the end of the loop. -/
def Lingers (voice : Voice) : Prop :=
  voice.looped = true ∧
    voice.bounds.loopStart.toNat ≤ (voice.position + voice.method.kernel.shift).index ∧
      (voice.position + voice.method.kernel.shift).index <
        voice.bounds.loopStart.toNat + voice.method.kernel.before

instance (voice : Voice) : Decidable voice.Lingers :=
  inferInstanceAs (Decidable (_ ∧ _ ∧ _))

instance (voice : Voice) : Decidable voice.Ended :=
  inferInstanceAs (Decidable (_ < _))

/-- The course of a voice with accepted bounds that does not loop is the laps of its scene. -/
private theorem course_once_eq_laps (accepted : voice.validate data true = .ok (.ok ())) :
    voice.method.kernel.course data.read voice false =
      (Scene.staging voice.method.kernel data.read data.sample voice.bounds false voice.step).laps
        (Scene.headOf voice.method.kernel data.sample voice.bounds voice.looped)
          (.begin (voice.position + voice.method.kernel.shift) voice.looped) := by
  have stocked := stocked_of_validate accepted (Nat.le_refl _) false
  exact Kernel.course_eq_laps nofun (fun distance near => stocked.gives_after near)
    (Scene.readHead_of_stocked stocked voice.looped)

/-- Past its end a voice stays where it is and writes nothing, unless it lingers. -/
theorem interpolate_eq_rest_iff (accepted : voice.validate data true = .ok (.ok ()))
    (ended : voice.Ended)
    (fits : (voice.position + voice.method.kernel.shift).index + 4 < 2 ^ 32) (block : Block) :
    voice.interpolate data false block = .ok ⟨0, block, voice⟩ ↔ ¬ voice.Lingers := by
  have some : 0 < (Course.begin (voice.position + voice.method.kernel.shift) voice.looped).left :=
    show 0 < blockSize by decide
  have long := (Bounds.validate_eq_ok_iff.1 accepted).1.long
  have stocked := stocked_of_validate accepted (Nat.le_refl _) false
  have lingers : voice.Lingers ↔ ∃ zone ∈ voice.method.kernel.zones,
      zone.Holds (voice.bounds.entry voice.looped) voice.bounds.last.toNat
        (voice.position + voice.method.kernel.shift).index :=
    (Bounds.exists_holds_iff long ended).symm
  have admits : ∀ zone ∈ voice.method.kernel.zones, _ := fun zone member =>
    stocked.admits voice.looped (Kernel.near_of_mem_zones member) voice.bounds.last.toNat fits
  rw [interpolate, Kernel.render_eq_ok_iff, course_once_eq_laps accepted, lingers]
  constructor
  · rintro ⟨finish, ran, rests⟩ ⟨zone, member, holds⟩
    have none : 0 = finish.slots.size := congrArg Rendering.count rests
    have left : finish.left = blockSize := by rw [Course.left, ← none, Nat.sub_zero]
    have outside := Scene.outside_of_laps rfl some ran left zone member
    have admitted := (admits zone member).symm.trans outside
    rw [decide_eq_true holds] at admitted
    cases admitted
  · intro clear
    have outside : ∀ zone ∈ voice.method.kernel.zones,
        zone.admits (voice.bounds.entry voice.looped) voice.bounds.last.toNat
          (voice.position + voice.method.kernel.shift).index = .ok false := by
      intro zone member
      rw [admits zone member, decide_eq_false]
      exact fun holds => clear ⟨zone, member, holds⟩
    refine ⟨_, Scene.laps_of_outside rfl some outside, ?_⟩
    rw [Course.samples_begin, Block.overwrite_nil]
    simp only [Course.begin, Phase.add_sub_cancel_right]
    rfl

/-- A voice that lingers is heard in the slots that are located at the head of its loop. -/
theorem interpolate_trails (accepted : voice.validate data true = .ok (.ok ()))
    (ended : voice.Ended)
    (fits : (voice.position + voice.method.kernel.shift).index + 4 < 2 ^ 32)
    (lingers : voice.Lingers)
    (paced : (voice.bounds.loopEnd.toNat + 4) * 2 ^ 32 + voice.step.toNat ≤ 2 ^ 64)
    (block : Block) :
    ∃ rendering, voice.interpolate data false block = .ok rendering ∧
      rendering.Trails voice.method.kernel voice
        (fun virtual => data.sample (voice.bounds.onward true virtual)) block := by
  obtain ⟨turned, entered, early⟩ := lingers
  have staged := Scene.staged_staging voice.method.kernel data.read data.sample voice.bounds false
    voice.step
  have begins : (Scene.staging voice.method.kernel data.read data.sample voice.bounds false
      voice.step).Trails data.sample (voice.position + voice.method.kernel.shift).toNat
        (.begin (voice.position + voice.method.kernel.shift) voice.looped) :=
    ⟨.begin .., turned, by simp [Course.begin], by simp [Course.begin], entered, ended, fits⟩
  obtain ⟨finish, ran, trails, ending⟩ := Scene.laps_trail rfl staged
    (Scene.sustains_trailing staged (stocked_of_validate accepted (Nat.le_refl _) false) paced)
    begins
  have back : finish.position - voice.method.kernel.shift + voice.method.kernel.shift =
      finish.position := Phase.sub_add_cancel_right ..
  have length := trails.length_samples
  refine ⟨_, Kernel.render_eq_ok_iff.2
    ⟨finish, (course_once_eq_laps accepted).trans ran, rfl⟩, ?_⟩
  constructor
  case some =>
    by_contra none
    have none : finish.slots.size = 0 := Nat.eq_zero_of_not_pos none
    have located := trails.located
    rw [none, Nat.zero_mul, Nat.add_zero] at located
    rcases ending with full | late
    · have full : blockSize - finish.slots.size = 0 := full
      rw [none] at full
      exact absurd full (by decide)
    · rw [Phase.ext_toNat located] at late
      exact Nat.not_lt.2 late early
  case atHead => exact trails.atHead
  case ending =>
    rw [back]
    exact ending.imp_left trails.size_eq
  case written =>
    intro slot isSlot written
    have written : slot < finish.samples.length := length ▸ written
    rw [Block.getElem_overwrite_of_lt _ _ isSlot written]
    simp only [trails.samples, List.getElem_map, List.getElem_range]
    rfl
  case kept =>
    intro slot isSlot unwritten
    exact Block.getElem_overwrite_of_le _ _ isSlot (length ▸ unwritten)
  case voice_eq => rw [trails.turned, turned]
  case moved =>
    rw [back]
    exact trails.located

/-- A voice with accepted bounds that is located past the end of its region, wherever its
loop lies, is silent in a call that does not loop and stays as it is, at any speed, unless
it has turned back and is located at the head of its loop, for a method that takes taps before the
located sample. Such a voice is heard until it has left the head or filled the block, with
the samples of the loop as they go on past the region. -/
theorem interpolate_ended (accepted : voice.validate data true = .ok (.ok ()))
    (ended : voice.Ended)
    (fits : (voice.position + voice.method.kernel.shift).index + 4 < 2 ^ 32) (block : Block) :
    (voice.interpolate data false block = .ok ⟨0, block, voice⟩ ↔ ¬ voice.Lingers) ∧
    (voice.Lingers → (voice.bounds.loopEnd.toNat + 4) * 2 ^ 32 + voice.step.toNat ≤ 2 ^ 64 →
      ∃ rendering, voice.interpolate data false block = .ok rendering ∧
        rendering.Trails voice.method.kernel voice
          (fun virtual => data.sample (voice.bounds.onward true virtual)) block) :=
  ⟨interpolate_eq_rest_iff accepted ended fits block,
    fun lingers paced => interpolate_trails accepted ended fits lingers paced block⟩

/-- Let go on the third sample of a loop that follows the region, with the sinc. -/
theorem interpolate_ended_seventhOrder :
    ∃ rendering,
      (Voice.mk ⟨0x780000000⟩ 0.25 true ⟨0, 5, 6, 12⟩ .seventhOrder).interpolate
          (.ofWords #[0, 0, 0, 0, 0, 0, 6, 7, 8, 9, 10, 11]) false (.filled 0) = .ok rendering ∧
      rendering.Trails .seventhOrder (.mk ⟨0x780000000⟩ 0.25 true ⟨0, 5, 6, 12⟩ .seventhOrder)
        (fun virtual => (SampleData.ofWords #[0, 0, 0, 0, 0, 0, 6, 7, 8, 9, 10, 11]).sample
          (Bounds.onward ⟨0, 5, 6, 12⟩ true virtual)) (.filled 0) :=
  (interpolate_ended rfl (by decide) (by decide) (.filled 0)).2 (by decide) (by decide)

/-- A voice of the cubic that is let go on the first sample of such a loop is past its end,
and not silent. -/
theorem interpolate_ne_rest_fourthOrder :
    (Voice.mk ⟨0x500000000⟩ 1 true ⟨1, 3, 5, 9⟩ .fourthOrder).validate
        (.ofWords #[0, 10, 20, 30, 40, 50, 60, 70, 80]) true = .ok (.ok ()) ∧
      (Voice.mk ⟨0x500000000⟩ 1 true ⟨1, 3, 5, 9⟩ .fourthOrder).Ended ∧
      (⟨0x500000000⟩ + Kernel.fourthOrder.shift : Phase).index + 4 < 2 ^ 32 ∧
      (Voice.mk ⟨0x500000000⟩ 1 true ⟨1, 3, 5, 9⟩ .fourthOrder).interpolate
          (.ofWords #[0, 10, 20, 30, 40, 50, 60, 70, 80]) false (.filled 0) ≠
        .ok ⟨0, .filled 0, .mk ⟨0x500000000⟩ 1 true ⟨1, 3, 5, 9⟩ .fourthOrder⟩ :=
  ⟨rfl, by decide, by decide, fun silent =>
    (interpolate_eq_rest_iff rfl (by decide) (by decide) _).1 silent (by decide)⟩

end Voice

end Resampler
