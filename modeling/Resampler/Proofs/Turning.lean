import Resampler.Proofs.Accounting
import Resampler.Proofs.LoopedPlayback

/-!
Contract: when a voice that loops turns back.

Owns:
- the positions of the slots of a block, each a step after the one before, and
  back by a loop when that step came past its end;
- the proof that a render call turns once after each such step, as soon as the
  step is shorter than the loop;
- the one turn that is left to the next call: that after the last slot of a
  block, when no tap of the slot was past the end of the loop.

A kernel leaves its approach without a turn once the block is full. From its
landing it always turns first.

Does not own: the samples in the slots, or steps as long as the loop.
-/

namespace Resampler

namespace Bounds

def turnedBack (bounds : Bounds) (units : Nat) : Nat :=
  if bounds.loopEnd.toNat * 2 ^ 32 ≤ units then units - bounds.loopSpan * 2 ^ 32 else units

/-- The located positions, in units, of the slots of a block that begins at a
position. -/
def slotUnits (bounds : Bounds) (units step : Nat) : Nat → Nat
  | 0 => units
  | slot + 1 => bounds.turnedBack (bounds.slotUnits units step slot + step)

def Crosses (bounds : Bounds) (units step slot : Nat) : Prop :=
  bounds.loopEnd.toNat * 2 ^ 32 ≤ bounds.slotUnits units step slot + step

instance (bounds : Bounds) (units step slot : Nat) : Decidable (bounds.Crosses units step slot) :=
  inferInstanceAs (Decidable (_ ≤ _))

def turnsBefore (bounds : Bounds) (units step : Nat) : Nat → Nat
  | 0 => 0
  | slot + 1 => if bounds.Crosses units step slot then 1 else 0

variable {bounds : Bounds} {units step slot : Nat}

theorem slotUnits_succ_of_crosses (crosses : bounds.Crosses units step slot) :
    bounds.slotUnits units step (slot + 1) =
      bounds.slotUnits units step slot + step - bounds.loopSpan * 2 ^ 32 :=
  if_pos crosses

theorem slotUnits_succ_of_not_crosses (stays : ¬ bounds.Crosses units step slot) :
    bounds.slotUnits units step (slot + 1) = bounds.slotUnits units step slot + step :=
  if_neg stays

/-- No slot is past the end of the loop, when a step is shorter than the loop. -/
theorem slotUnits_lt (inside : units < bounds.loopEnd.toNat * 2 ^ 32)
    (short : step < bounds.loopSpan * 2 ^ 32) (slot : Nat) :
    bounds.slotUnits units step slot < bounds.loopEnd.toNat * 2 ^ 32 := by
  induction slot with
  | zero => exact inside
  | succ slot inductionHypothesis =>
      by_cases crosses : bounds.Crosses units step slot
      · rw [slotUnits_succ_of_crosses crosses]
        unfold Crosses at crosses
        omega
      · rw [slotUnits_succ_of_not_crosses crosses]
        exact Nat.lt_of_not_le crosses

end Bounds

namespace Kernel

/-- A kernel leaves the turn after a slot to the next call, when the slot is the
last of its block: no tap of it is past the end of the loop, but the step after
it comes there. -/
def Defers (kernel : Kernel) (bounds : Bounds) (units step slot : Nat) : Prop :=
  0 < kernel.after ∧
    bounds.slotUnits units step slot / 2 ^ 32 + kernel.after < bounds.loopEnd.toNat ∧
    bounds.Crosses units step slot

instance (kernel : Kernel) (bounds : Bounds) (units step slot : Nat) :
    Decidable (kernel.Defers bounds units step slot) :=
  inferInstanceAs (Decidable (_ ∧ _))

/-- A turn is left over by steps alone that leap over the taps after a sample. -/
theorem not_defers_of_short {kernel : Kernel} {bounds : Bounds} {units step slot : Nat}
    (short : step ≤ kernel.after * 2 ^ 32) : ¬ kernel.Defers bounds units step slot := by
  rintro ⟨_, early, crosses⟩
  unfold Bounds.Crosses at crosses
  omega

/-- The zones of an approach are heads, and the room for all taps. -/
theorem mem_approach {kernel : Kernel} {zone : Zone} (member : zone ∈ kernel.approach) :
    0 < kernel.after ∧ ((∃ past < kernel.before, zone = .head past) ∨ zone = .room kernel.after) := by
  have all : ∀ zone ∈ kernel.approach,
      0 < kernel.after ∧ ((∃ past < kernel.before, zone = .head past) ∨ zone = .room kernel.after) := by
    cases kernel <;> decide
  exact all zone member

theorem approach_eq {kernel : Kernel} (some : 0 < kernel.after) :
    ∃ zones, kernel.approach = zones ++ [.room kernel.after] := by
  cases kernel with
  | silence | nearest => exact absurd some (by decide)
  | linear => exact ⟨[], rfl⟩
  | fourthOrder => exact ⟨[.head 0], rfl⟩
  | seventhOrder => exact ⟨[.head 0, .head 1, .head 2], rfl⟩

theorem mem_landing {kernel : Kernel} {zone : Zone} (member : zone ∈ kernel.landing) :
    ∃ ahead, zone = .room ahead := by
  obtain ⟨ahead, _, rfl⟩ : ∃ ahead < 3, zone = .room ahead := by
    have all : ∀ zone ∈ kernel.landing, ∃ ahead < 3, zone = .room ahead := by
      cases kernel <;> decide
    exact all zone member
  exact ⟨ahead, rfl⟩

end Kernel

namespace Scene

variable {scene : Scene} {units : Nat} {history : Bool} {head : Head}
  {course start finish : Course}

/-- A scene of a loop that is longer than a step, and of laps that are long
enough for the kernel, with a position before the end of the loop. -/
structure Circles (scene : Scene) (units : Nat) : Prop where
  looping : scene.looping = true
  last : scene.last + 1 = scene.bounds.loopEnd.toNat
  apart : ∀ looped, scene.bounds.entry looped + scene.kernel.span ≤ scene.last
  inside : units < scene.bounds.loopEnd.toNat * 2 ^ 32
  short : scene.step.toNat < scene.bounds.loopSpan * 2 ^ 32
  fits : scene.bounds.loopEnd.toNat * 2 ^ 32 + scene.step.toNat < 2 ^ 64

def Records (scene : Scene) (units : Nat) (course : Course) : Prop :=
  course.slots.toList.map Slot.turns =
    (List.range course.slots.size).map (scene.bounds.turnsBefore units scene.step.toNat)

/-- A course that has made each turn: it stands where its next slot belongs, and
has turned if it ever had or some slot was followed by a turn. -/
structure OnTime (scene : Scene) (units : Nat) (history : Bool) (course : Course) : Prop where
  records : scene.Records units course
  turns : course.turns = scene.bounds.turnsBefore units scene.step.toNat course.slots.size
  position : course.position.toNat =
    scene.bounds.slotUnits units scene.step.toNat course.slots.size
  looped : course.looped = true ↔ history = true ∨
    ∃ slot < course.slots.size, scene.bounds.Crosses units scene.step.toNat slot

structure Due (scene : Scene) (units : Nat) (history : Bool) (slot : Nat) (course : Course) :
    Prop where
  size : course.slots.size = slot + 1
  records : scene.Records units course
  turns : course.turns = 0
  position : course.position.toNat =
    scene.bounds.slotUnits units scene.step.toNat slot + scene.step.toNat
  looped : course.looped = true ↔ history = true ∨
    ∃ earlier < slot, scene.bounds.Crosses units scene.step.toNat earlier
  crosses : scene.bounds.Crosses units scene.step.toNat slot

def Arrived (scene : Scene) (units : Nat) (history : Bool) (slot : Nat) (course : Course) : Prop :=
  course.slots.size = slot + 1 ∧
    if scene.bounds.Crosses units scene.step.toNat slot then scene.Due units history slot course
    else scene.OnTime units history course

/-- A course of which it is known whether it has to turn. -/
def Traced (scene : Scene) (units : Nat) (history : Bool) (course : Course) : Prop :=
  scene.OnTime units history course ∨ ∃ slot, scene.Due units history slot course

/-- A course at the end of a call, with every turn made that its kernel does not leave
to the next call. -/
def Concluded (scene : Scene) (units : Nat) (history : Bool) (course : Course) : Prop :=
  ∃ slot, course.slots.size = slot + 1 ∧
    if scene.kernel.Defers scene.bounds units scene.step.toNat slot then
      scene.Due units history slot course
    else scene.OnTime units history course

theorem Arrived.traced {slot : Nat} (arrived : scene.Arrived units history slot course) :
    scene.Traced units history course := by
  obtain ⟨_, arrived⟩ := arrived
  split at arrived
  · exact .inr ⟨slot, arrived⟩
  · exact .inl arrived

theorem onTime_begin (position : Phase) :
    scene.OnTime position.toNat history (.begin position history) where
  records := rfl
  turns := rfl
  position := rfl
  looped := by simp [Course.begin]

theorem OnTime.index_le (circles : scene.Circles units) (onTime : scene.OnTime units history course) :
    course.position.index ≤ scene.last := by
  have inside := Bounds.slotUnits_lt circles.inside circles.short course.slots.size
  rw [← onTime.position] at inside
  have below := Phase.index_lt_iff.2 inside
  have last := circles.last
  omega

theorem Due.lt_index (circles : scene.Circles units) {slot : Nat}
    (due : scene.Due units history slot course) : scene.last < course.position.index := by
  have crosses := due.crosses
  unfold Bounds.Crosses at crosses
  rw [← due.position] at crosses
  have beyond := Phase.le_index_iff.2 crosses
  have last := circles.last
  omega

theorem OnTime.position_emit (circles : scene.Circles units)
    (onTime : scene.OnTime units history course) :
    (course.position + scene.step).toNat =
      scene.bounds.slotUnits units scene.step.toNat course.slots.size + scene.step.toNat := by
  have inside := Bounds.slotUnits_lt circles.inside circles.short course.slots.size
  have fits := circles.fits
  have position := onTime.position
  rw [Phase.toNat_add_of_lt (by omega), position]

/-- After a slot, a course is on time or due. -/
theorem OnTime.emit (circles : scene.Circles units) (onTime : scene.OnTime units history course)
    (sample : Float32) :
    scene.Arrived units history course.slots.size (course.emit scene.step sample) := by
  have size := course.size_emit scene.step sample
  have records : scene.Records units (course.emit scene.step sample) := by
    have before := onTime.records
    unfold Records at before ⊢
    rw [size, List.range_succ, List.map_append, ← before, List.map_singleton, ← onTime.turns]
    simp [Course.emit]
  have position := onTime.position_emit circles
  have looped := onTime.looped
  refine ⟨size, ?_⟩
  split
  · rename_i crosses
    exact ⟨size, records, rfl, position, looped, crosses⟩
  · rename_i stays
    refine ⟨records, ?_, ?_, ?_⟩
    · rw [size]
      exact (if_neg stays).symm
    · rw [size, Bounds.slotUnits_succ_of_not_crosses stays]
      exact position
    · rw [size, Course.looped_emit, looped]
      constructor
      · rintro (before | ⟨slot, earlier, crosses⟩)
        · exact .inl before
        · exact .inr ⟨slot, Nat.lt_succ_of_lt earlier, crosses⟩
      · rintro (before | ⟨slot, earlier, crosses⟩)
        · exact .inl before
        · rcases Nat.lt_succ_iff_lt_or_eq.1 earlier with earlier | rfl
          · exact .inr ⟨slot, earlier, crosses⟩
          · exact absurd crosses stays

/-- A course that has to turn is due. -/
theorem Traced.mustTurn_iff (circles : scene.Circles units)
    (traced : scene.Traced units history course) :
    scene.mustTurn course = true ↔ ∃ slot, scene.Due units history slot course := by
  rw [mustTurn, circles.looping, Bool.true_and, decide_eq_true_iff]
  constructor
  · intro beyond
    exact traced.resolve_left fun onTime => Nat.not_le.2 beyond (onTime.index_le circles)
  · rintro ⟨slot, due⟩
    exact due.lt_index circles

/-- A turn makes up for the step that came past the end of the loop. -/
theorem Due.turn {slot : Nat} (due : scene.Due units history slot course) :
    scene.OnTime units history (course.turn scene.bounds.loopSpan) := by
  have crosses := due.crosses
  have position := due.position
  have size : (course.turn scene.bounds.loopSpan).slots.size = slot + 1 := due.size
  have shorter : scene.bounds.loopSpan ≤ scene.bounds.loopEnd.toNat := Nat.sub_le ..
  refine ⟨due.records, ?_, ?_, ?_⟩
  · rw [size]
    show course.turns + 1 = if scene.bounds.Crosses units scene.step.toNat slot then 1 else 0
    rw [if_pos crosses, due.turns]
  · rw [size, Bounds.slotUnits_succ_of_crosses crosses, Course.position_turn, ← position]
    apply Phase.toNat_sub_ofIndex
    unfold Bounds.Crosses at crosses
    rw [position]
    exact Nat.le_trans (Nat.mul_le_mul_right _ shorter) crosses
  · rw [size]
    exact ⟨fun _ => .inr ⟨slot, Nat.lt_succ_self slot, crosses⟩, fun _ => rfl⟩

/-- Zones are crossed from slot to slot, each at its own position, until a step
comes past the end of the loop. Past it, nothing is filled. -/
theorem eq_or_arrived_of_crossAll (Place : Nat → Prop) (circles : scene.Circles units)
    {zones : List Zone}
    (places : ∀ zone ∈ zones, ∀ index, start.position.index ≤ index →
      zone.Holds head.first scene.last index → index ≤ scene.last ∧ Place index)
    (run : scene.crossAll head zones start = .ok finish)
    (begins : scene.Traced units history start) :
    finish = start ∨ ∃ slot, scene.Arrived units history slot finish ∧
      Place (scene.bounds.slotUnits units scene.step.toNat slot / 2 ^ 32) := by
  have crossed := crossAll_invariant (fun course => start.position.index ≤ course.position.index ∧
    (course = start ∨ ∃ slot, scene.Arrived units history slot course ∧
      Place (scene.bounds.slotUnits units scene.step.toNat slot / 2 ^ 32))) (by
    rintro zone member course _ ⟨later, holds⟩ _ admits _
    have within : zone.Holds head.first scene.last course.position.index :=
      of_decide_eq_true (Zone.eq_holds_of_admits admits).symm
    obtain ⟨inside, place⟩ := places zone member _ later within
    have traced : scene.Traced units history course := by
      rcases holds with rfl | ⟨slot, arrived, _⟩
      · exact begins
      · exact arrived.traced
    have onTime : scene.OnTime units history course := by
      apply traced.resolve_right
      rintro ⟨slot, due⟩
      exact Nat.not_lt.2 inside (due.lt_index circles)
    refine ⟨?_, .inr ⟨course.slots.size, onTime.emit circles _, ?_⟩⟩
    · apply Nat.le_trans later
      rw [Course.position_emit]
      apply Nat.div_le_div_right
      rw [onTime.position_emit circles, onTime.position]
      exact Nat.le_add_right _ _
    · rw [← onTime.position]
      exact place) run ⟨Nat.le_refl _, .inl rfl⟩
  exact crossed.2

theorem traced_of_eq_or_arrived {Place : Nat → Prop} (begins : scene.Traced units history start)
    (ends : finish = start ∨ ∃ slot, scene.Arrived units history slot finish ∧ Place slot) :
    scene.Traced units history finish := by
  rcases ends with rfl | ⟨slot, arrived, _⟩
  · exact begins
  · exact arrived.traced

/-- The positions of an approach have all their taps before the end of the loop. -/
theorem le_of_mem_approach (circles : scene.Circles units) {looped : Bool} {zone : Zone}
    (member : zone ∈ scene.kernel.approach) {index : Nat}
    (within : zone.Holds (scene.bounds.entry looped) scene.last index) :
    0 < scene.kernel.after ∧ index + scene.kernel.after ≤ scene.last := by
  obtain ⟨some, ⟨past, near, rfl⟩ | rfl⟩ := Kernel.mem_approach member
  · have within : index = scene.bounds.entry looped + past := within
    have spanned := Kernel.before_add_after_le near
    have apart := circles.apart looped
    exact ⟨some, by omega⟩
  · exact ⟨some, within⟩

/-- An approach that leaves slots to fill has come so far that a tap is past the
end of the loop. -/
theorem lt_of_approach (run : scene.crossAll head scene.kernel.approach start = .ok finish)
    (left : finish.left ≠ 0) :
    scene.kernel.after = 0 ∨ scene.last < finish.position.index + scene.kernel.after := by
  rcases Nat.eq_zero_or_pos scene.kernel.after with none | some
  · exact .inl none
  · right
    obtain ⟨zones, approach⟩ := Kernel.approach_eq some
    rw [approach] at run
    simp only [crossAll, List.foldlM_append, List.foldlM_cons, List.foldlM_nil,
      Checked.bind_eq_ok_iff, Checked.pure_eq_ok_iff] at run
    obtain ⟨between, _, _, crossed, rfl⟩ := run
    have outside := Zone.eq_holds_of_admits ((left_eq_zero_or_of_cross crossed).resolve_left left)
    exact Nat.lt_of_not_le (of_decide_eq_false outside.symm)

/-- The last slot of an approach, if it fills any, has all its taps before the end of
the loop. -/
theorem eq_or_arrived_of_approach (circles : scene.Circles units)
    (first : head.first = scene.bounds.entry start.looped)
    (begins : scene.OnTime units history start)
    (approaches : scene.crossAll head scene.kernel.approach start = .ok finish) :
    finish = start ∨ ∃ slot, scene.Arrived units history slot finish ∧ 0 < scene.kernel.after ∧
      scene.bounds.slotUnits units scene.step.toNat slot / 2 ^ 32 + scene.kernel.after ≤
        scene.last := by
  apply eq_or_arrived_of_crossAll
    (fun index => 0 < scene.kernel.after ∧ index + scene.kernel.after ≤ scene.last) circles _
    approaches (.inl begins)
  intro zone member index _ within
  rw [first] at within
  have close := le_of_mem_approach circles member within
  exact ⟨Nat.le_of_add_right_le close.2, close⟩

/-- The last slot of a landing, if it fills any, has a tap past the end of the loop,
when the landing begins at such a position. -/
theorem eq_or_arrived_of_landing (circles : scene.Circles units)
    (begins : scene.Traced units history start)
    (far : scene.kernel.after = 0 ∨ scene.last < start.position.index + scene.kernel.after)
    (lands : scene.crossAll head scene.kernel.landing start = .ok finish) :
    finish = start ∨ ∃ slot, scene.Arrived units history slot finish ∧
      (scene.kernel.after = 0 ∨ scene.last <
        scene.bounds.slotUnits units scene.step.toNat slot / 2 ^ 32 + scene.kernel.after) := by
  apply eq_or_arrived_of_crossAll
    (fun index => scene.kernel.after = 0 ∨ scene.last < index + scene.kernel.after) circles _
    lands begins
  intro zone member index later within
  obtain ⟨ahead, rfl⟩ := Kernel.mem_landing member
  exact ⟨Nat.le_of_add_right_le within, by omega⟩

section Lap

variable {loopHead : Head} {turned approached landed : Course}

/-- At the end of a lap it is known whether the course has to turn. When the landing
has filled the block, its last slot does not leave the turn to the next call. -/
theorem traced_of_lands (circles : scene.Circles units)
    (first : head.first = scene.bounds.entry start.looped)
    (begins : scene.OnTime units history start)
    (approaches : scene.crossAll head scene.kernel.approach start = .ok approached)
    (some : 0 < approached.left)
    (lands : scene.crossAll head scene.kernel.landing approached = .ok landed) :
    scene.Traced units history landed ∧
      (landed.left = 0 → ∃ slot, landed.slots.size = slot + 1 ∧
        ¬ scene.kernel.Defers scene.bounds units scene.step.toNat slot) := by
  have last := circles.last
  have left := Nat.ne_of_gt some
  have approachedTraced := traced_of_eq_or_arrived (.inl begins)
    (eq_or_arrived_of_approach circles first begins approaches)
  have landing :=
    eq_or_arrived_of_landing circles approachedTraced (lt_of_approach approaches left) lands
  refine ⟨traced_of_eq_or_arrived approachedTraced landing, fun full => ?_⟩
  rcases landing with rfl | ⟨slot, ⟨size, _⟩, late⟩
  · exact absurd full left
  · refine ⟨slot, size, ?_⟩
    rintro ⟨taps, early, _⟩
    omega

/-- A lap before another leaves the course with its turn made. -/
theorem onTime_of_lap_again (circles : scene.Circles units)
    (first : head.first = scene.bounds.entry start.looped)
    (begins : scene.OnTime units history start)
    (ran : scene.lap head start = .ok (.again loopHead turned)) :
    loopHead.first = scene.bounds.entry turned.looped ∧ 0 < turned.left ∧
      scene.OnTime units history turned := by
  cases lapped_of_lap ran with
  | turned approaches some lands mustTurn loopLength headRead undone =>
      obtain rfl := Bounds.eq_loopSpan_of_loopLength loopLength
      obtain ⟨traced, _⟩ := traced_of_lands circles first begins approaches some lands
      obtain ⟨slot, due⟩ := (traced.mustTurn_iff circles).1 mustTurn
      exact ⟨first_of_readHead headRead, undone, due.turn⟩

/-- The last lap leaves a turn to the next call when its kernel defers it. -/
theorem concluded_of_lap_ended (circles : scene.Circles units)
    (first : head.first = scene.bounds.entry start.looped) (some : 0 < start.left)
    (begins : scene.OnTime units history start)
    (ran : scene.lap head start = .ok (.ended finish)) : scene.Concluded units history finish := by
  cases lapped_of_lap ran with
  | filled approaches full =>
      rcases eq_or_arrived_of_approach circles first begins approaches with
        rfl | ⟨slot, ⟨size, arrived⟩, taps, early⟩
      · omega
      · have last := circles.last
        have defers : scene.kernel.Defers scene.bounds units scene.step.toNat slot ↔
            scene.bounds.Crosses units scene.step.toNat slot :=
          ⟨fun defers => defers.2.2, fun crosses => ⟨taps, by omega, crosses⟩⟩
        exact ⟨slot, size, by simpa only [defers] using arrived⟩
  | stayed approaches some lands stays =>
      obtain ⟨traced, full⟩ := traced_of_lands circles first begins approaches some lands
      have onTime : scene.OnTime units history finish := by
        refine traced.resolve_right fun due => ?_
        exact Bool.false_ne_true (stays.symm.trans ((traced.mustTurn_iff circles).2 due))
      have done := (left_eq_zero_or_lt_of_landing lands).resolve_right
        (Nat.not_lt.2 (onTime.index_le circles))
      obtain ⟨slot, size, defers⟩ := full done
      exact ⟨slot, size, by rwa [if_neg defers]⟩
  | turnedLast approaches some lands mustTurn loopLength done =>
      obtain rfl := Bounds.eq_loopSpan_of_loopLength loopLength
      obtain ⟨traced, full⟩ := traced_of_lands circles first begins approaches some lands
      obtain ⟨_, due⟩ := (traced.mustTurn_iff circles).1 mustTurn
      obtain ⟨slot, size, defers⟩ := full done
      exact ⟨slot, size, by rw [if_neg defers]; exact due.turn⟩

end Lap

/-- A call that is not abandoned turns after each slot that needs it, save after
the last when its kernel defers. -/
theorem concluded_of_laps (circles : scene.Circles units)
    (run : scene.laps head start = .ok finish)
    (first : head.first = scene.bounds.entry start.looped) (some : 0 < start.left)
    (begins : scene.OnTime units history start) : scene.Concluded units history finish := by
  refine laps_induction (motive := fun head start finish =>
    head.first = scene.bounds.entry start.looped → 0 < start.left →
      scene.OnTime units history start → scene.Concluded units history finish)
    ?_ ?_ run first some begins
  · intro _ _ _ ran first some begins
    exact concluded_of_lap_ended circles first some begins ran
  · intro _ _ _ _ _ ran later first _ begins
    obtain ⟨loopFirst, undone, onTime⟩ := onTime_of_lap_again circles first begins ran
    exact later loopFirst undone onTime

end Scene

/-- The course of a looping call that is not abandoned, when a step is shorter
than the loop: a turn after each slot that needs it, in its place, save for one
that is deferred. -/
theorem Kernel.course_turns {kernel : Kernel} {read : Reader} {voice : Voice} {course : Course}
    {units step : Nat} (located : units = (voice.position + kernel.shift).toNat)
    (steps : step = voice.step.toNat)
    (apart : ∀ looped, voice.bounds.entry looped + kernel.span < voice.bounds.loopEnd.toNat)
    (inside : units < voice.bounds.loopEnd.toNat * 2 ^ 32)
    (short : step < voice.bounds.loopSpan * 2 ^ 32)
    (fits : voice.bounds.loopEnd.toNat * 2 ^ 32 + step < 2 ^ 64)
    (ran : kernel.course read voice true = .ok course) :
    course.slots.toList.map Slot.turns =
        (List.range blockSize).map (voice.bounds.turnsBefore units step) ∧
      if kernel.Defers voice.bounds units step (blockSize - 1) then
        course.position.toNat = voice.bounds.slotUnits units step (blockSize - 1) + step ∧
          (course.looped = true ↔ voice.looped = true ∨
            ∃ slot < blockSize - 1, voice.bounds.Crosses units step slot)
      else
        course.position.toNat = voice.bounds.slotUnits units step blockSize ∧
          (course.looped = true ↔ voice.looped = true ∨
            ∃ slot < blockSize, voice.bounds.Crosses units step slot) := by
  subst located steps
  obtain ⟨_, _, _, _, _, full⟩ := course_accounted ran
  have full := full rfl
  simp only [Kernel.course, Checked.bind_eq_ok_iff] at ran
  obtain ⟨scene, prepared, head, headRead, ran⟩ := ran
  obtain ⟨tail, rfl⟩ := Scene.exists_of_prepare prepared
  have final : voice.bounds.final true + 1 = voice.bounds.loopEnd.toNat :=
    Nat.sub_add_cancel (Nat.succ_le_of_lt (Nat.zero_lt_of_lt (apart true)))
  have circles : Scene.Circles
      ⟨kernel, read, voice.bounds, true, voice.step, voice.bounds.final true, tail⟩
      (voice.position + kernel.shift).toNat :=
    ⟨rfl, final, fun looped => by
      have apart := apart looped
      show voice.bounds.entry looped + kernel.span ≤ voice.bounds.final true
      omega, inside, short, fits⟩
  obtain ⟨slot, size, ends⟩ := Scene.concluded_of_laps circles ran
    (Scene.first_of_readHead headRead) (show 0 < blockSize by decide) (Scene.onTime_begin _)
  obtain rfl : slot = blockSize - 1 := by omega
  split at ends
  · rename_i defers
    have records := ends.records
    rw [Scene.Records, full] at records
    exact ⟨records, by rw [if_pos defers]; exact ⟨ends.position, ends.looped⟩⟩
  · rename_i completes
    have records := ends.records
    have position := ends.position
    have looped := ends.looped
    rw [full] at position looped
    rw [Scene.Records, full] at records
    exact ⟨records, by rw [if_neg completes]; exact ⟨position, looped⟩⟩

namespace Voice

def slotUnits (voice : Voice) (audible : Bool) (slot : Nat) : Nat :=
  voice.bounds.slotUnits (voice.position + (voice.kernel audible).shift).toNat voice.step.toNat slot

def Crosses (voice : Voice) (audible : Bool) (slot : Nat) : Prop :=
  voice.bounds.Crosses (voice.position + (voice.kernel audible).shift).toNat voice.step.toNat slot

def turnsBefore (voice : Voice) (audible : Bool) (slot : Nat) : Nat :=
  voice.bounds.turnsBefore (voice.position + (voice.kernel audible).shift).toNat voice.step.toNat
    slot

def Defers (voice : Voice) (audible : Bool) : Prop :=
  (voice.kernel audible).Defers voice.bounds
    (voice.position + (voice.kernel audible).shift).toNat voice.step.toNat (blockSize - 1)

end Voice

/-- A looping call is done with its turns: the voice is before the end of the loop
again, and has turned if it had before or some slot of the block was followed by
a position past the end. -/
def Rendering.Completes (rendering : Rendering) (voice : Voice) (audible : Bool) : Prop :=
  (rendering.voice.position + (voice.kernel audible).shift).index < voice.bounds.loopEnd.toNat ∧
    (rendering.voice.looped = true ↔ voice.looped = true ∨
      ∃ slot < blockSize, voice.Crosses audible slot)

/-- A looping call has left its last turn to the next: the voice is past the end of
the loop, and has turned if it had before or some earlier slot was followed by a
position past the end. -/
def Rendering.LeavesTurn (rendering : Rendering) (voice : Voice) (audible : Bool) : Prop :=
  (rendering.voice.position + (voice.kernel audible).shift).toNat =
      voice.slotUnits audible (blockSize - 1) + voice.step.toNat ∧
    voice.bounds.loopEnd.toNat ≤ (rendering.voice.position + (voice.kernel audible).shift).index ∧
    (rendering.voice.looped = true ↔ voice.looped = true ∨
      ∃ slot < blockSize - 1, voice.Crosses audible slot)

theorem Rendering.LeavesTurn.not_completes {rendering : Rendering} {voice : Voice} {audible : Bool}
    (leaves : rendering.LeavesTurn voice audible) : ¬ rendering.Completes voice audible :=
  fun completes => Nat.not_lt.2 leaves.2.1 completes.1

namespace Voice

variable {data : SampleData} {voice : Voice} {audible : Bool}

instance (slot : Nat) : Decidable (voice.Crosses audible slot) :=
  inferInstanceAs (Decidable (Bounds.Crosses ..))

instance : Decidable (voice.Defers audible) :=
  inferInstanceAs (Decidable (Kernel.Defers ..))

/-- A looping call of an accepted voice that is located before the end of its loop
has a course. -/
theorem exists_course (accepted : voice.validate data true = .ok (.ok ()))
    (entered : voice.bounds.start.toNat + voice.method.span < voice.bounds.loopEnd.toNat)
    (started : voice.bounds.entry voice.looped ≤
      (voice.position + (voice.kernel audible).shift).index)
    (inside : (voice.position + (voice.kernel audible).shift).index < voice.bounds.loopEnd.toNat)
    (paced : voice.bounds.loopEnd.toNat * 2 ^ 32 + voice.step.toNat < 2 ^ 63) :
    ∃ course, (voice.kernel audible).course data.read voice true = .ok course := by
  have loopable := (loopable_of_validate accepted entered).mono (voice.span_kernel_le audible)
  have few := (voice.kernel audible).after_le
  have below := Phase.index_lt_iff.1 inside
  obtain ⟨unwrapped, tracks⟩ : ∃ unwrapped, voice.bounds.Tracks (2 ^ 63)
      (voice.position + (voice.kernel audible).shift) voice.looped unwrapped :=
    ⟨_, voice.looped.toNat, rfl, by cases voice.looped <;> simp, started, by omega⟩
  have long := loopable.long
  obtain ⟨rendering, rendered, _⟩ := Kernel.render_plays (fun _ => by omega)
    (loopable.simulates (by decide) (by omega) (.inr (Nat.le_of_lt paced))) tracks (.filled 0)
  obtain ⟨course, ran, _⟩ := Kernel.render_eq_ok_iff.1 rendered
  exact ⟨course, ran⟩

/-- A looping call turns on the way to each slot that needs it, and leaves at most
the turn after the last of them to the next call. -/
theorem render_turns (accepted : voice.validate data true = .ok (.ok ()))
    (entered : voice.bounds.start.toNat + voice.method.span < voice.bounds.loopEnd.toNat)
    (started : voice.bounds.entry voice.looped ≤
      (voice.position + (voice.kernel audible).shift).index)
    (inside : (voice.position + (voice.kernel audible).shift).index < voice.bounds.loopEnd.toNat)
    (short : voice.step.toNat < voice.bounds.loopSpan * 2 ^ 32)
    (paced : voice.bounds.loopEnd.toNat * 2 ^ 32 + voice.step.toNat < 2 ^ 63) (block : Block) :
    ∃ rendering course, voice.render data audible true block = .ok rendering ∧
      (voice.kernel audible).course data.read voice true = .ok course ∧
      course.slots.toList.map Slot.turns =
        (List.range blockSize).map (voice.turnsBefore audible) ∧
      (voice.Defers audible → rendering.LeavesTurn voice audible) ∧
      (¬ voice.Defers audible → rendering.Completes voice audible) := by
  obtain ⟨course, ran⟩ := exists_course accepted entered started inside paced
  have loop := (Bounds.validate_eq_ok_iff.1 accepted).2 rfl
  have below := Phase.index_lt_iff.1 inside
  obtain ⟨record, turns⟩ := Kernel.course_turns rfl rfl (by
    intro looped
    have long := loop.long
    have shorter := voice.span_kernel_le audible
    unfold Bounds.entry
    split <;> omega) below short (by omega) ran
  have back : course.position - (voice.kernel audible).shift + (voice.kernel audible).shift =
      course.position := Phase.sub_add_cancel_right ..
  refine ⟨_, course, (render_eq_kernel ..).trans (Kernel.render_eq_ok_iff.2 ⟨course, ran, rfl⟩), ran,
    record, ?_, ?_⟩
  · intro defers
    unfold Defers at defers
    rw [if_pos defers] at turns
    refine ⟨?_, ?_, turns.2⟩
    · rw [back]
      exact turns.1
    · rw [back]
      apply Phase.le_index_iff.2
      rw [turns.1]
      exact defers.2.2
  · intro completes
    unfold Defers at completes
    rw [if_neg completes] at turns
    refine ⟨?_, turns.2⟩
    rw [back]
    apply Phase.index_lt_iff.2
    rw [turns.1]
    exact Bounds.slotUnits_lt below short blockSize

/-- An accepted voice that is located in its loop or on the way to it, at a speed
below the length of the loop, is done with its turns after a looping call exactly
when its kernel does not defer the last of them. If it does, the voice stays past
the end of the loop, and does not know of it. -/
theorem render_completes_iff (accepted : voice.validate data true = .ok (.ok ()))
    (entered : voice.bounds.start.toNat + voice.method.span < voice.bounds.loopEnd.toNat)
    (started : voice.bounds.entry voice.looped ≤
      (voice.position + (voice.kernel audible).shift).index)
    (inside : (voice.position + (voice.kernel audible).shift).index < voice.bounds.loopEnd.toNat)
    (short : voice.step.toNat < voice.bounds.loopSpan * 2 ^ 32)
    (paced : voice.bounds.loopEnd.toNat * 2 ^ 32 + voice.step.toNat < 2 ^ 63) (block : Block) :
    ∃ rendering course, voice.render data audible true block = .ok rendering ∧
      (voice.kernel audible).course data.read voice true = .ok course ∧
      course.slots.toList.map Slot.turns =
        (List.range blockSize).map (voice.turnsBefore audible) ∧
      (rendering.Completes voice audible ↔ ¬ voice.Defers audible) ∧
      (voice.Defers audible → rendering.LeavesTurn voice audible) := by
  obtain ⟨rendering, course, rendered, ran, record, leaves, completes⟩ :=
    @render_turns data voice audible accepted entered started inside short paced block
  refine ⟨rendering, course, rendered, ran, record, ⟨?_, completes⟩, leaves⟩
  intro done defers
  exact (leaves defers).not_completes done

/-- Sixty-six samples, all of them the loop, which the last of sixty-four slots
comes past by more than a sample a step. -/
theorem render_completes_iff_leap :
    ∃ rendering course,
      (make ⟨0, 65, 0, 66⟩ ⟨.linear, 1.03125⟩).render (.ofWords (.replicate 66 0)) true true
        (.filled 0) = .ok rendering ∧
      Kernel.linear.course (SampleData.ofWords (.replicate 66 0)).read
        (make ⟨0, 65, 0, 66⟩ ⟨.linear, 1.03125⟩) true = .ok course ∧
      course.slots.toList.map Slot.turns = (List.range blockSize).map
        ((make ⟨0, 65, 0, 66⟩ ⟨.linear, 1.03125⟩).turnsBefore true) ∧
      (rendering.Completes (make ⟨0, 65, 0, 66⟩ ⟨.linear, 1.03125⟩) true ↔
        ¬ (make ⟨0, 65, 0, 66⟩ ⟨.linear, 1.03125⟩).Defers true) ∧
      ((make ⟨0, 65, 0, 66⟩ ⟨.linear, 1.03125⟩).Defers true →
        rendering.LeavesTurn (make ⟨0, 65, 0, 66⟩ ⟨.linear, 1.03125⟩) true) :=
  render_completes_iff (by decide) (by decide) (by decide) (by decide) (by decide) (by decide) _

/-- There the turn is left over: the voice ends past the loop, and has not turned. -/
theorem not_render_completes_leap :
    ¬ ∃ rendering,
      (make ⟨0, 65, 0, 66⟩ ⟨.linear, 1.03125⟩).render (.ofWords (.replicate 66 0)) true true
        (.filled 0) = .ok rendering ∧
      rendering.Completes (make ⟨0, 65, 0, 66⟩ ⟨.linear, 1.03125⟩) true := by
  rintro ⟨rendering, rendered, completes⟩
  have defers : (make ⟨0, 65, 0, 66⟩ ⟨.linear, 1.03125⟩).Defers true := by decide +kernel
  obtain ⟨other, _, renders, _, _, leaves, _⟩ :=
    @render_turns (.ofWords (.replicate 66 0)) (make ⟨0, 65, 0, 66⟩ ⟨.linear, 1.03125⟩) true
      (by decide) (by decide) (by decide) (by decide) (by decide) (by decide) (.filled 0)
  obtain rfl := Except.ok.inj (rendered.symm.trans renders)
  exact (leaves defers).not_completes completes

end Voice

end Resampler
