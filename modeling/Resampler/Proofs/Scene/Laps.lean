import Resampler.Proofs.Scene.Crossing
import Resampler.Scene.Invariant

/-!
Contract: a render call comes to its end without a fault.

Owns:
- the turn at the end of a loop: it takes the length of the loop off a position
  that has it behind, and leaves less to do;
- where a call ends that is not abandoned: every slot is filled, or a voice that
  does not loop is past its last sample;
- the proof that a call is abandoned only at a slot whose taps cannot be read,
  under an invariant that survives slots and turns, and never if all can;
- the proof that it is never abandoned, wherever it begins, if its zones can be
  crossed from everywhere.

Does not own: any particular invariant.
-/

namespace Resampler

namespace Bounds

/-- The number of samples in the loop, below which nothing is checked. -/
def loopSpan (bounds : Bounds) : Nat := bounds.loopEnd.toNat - bounds.loopStart.toNat

theorem loopLength_eq {bounds : Bounds}
    (ordered : bounds.loopStart.toNat < bounds.loopEnd.toNat) :
    bounds.loopLength = .ok bounds.loopSpan :=
  Index.minus_of_le (Nat.le_of_lt ordered)

theorem eq_loopSpan_of_loopLength {bounds : Bounds} {length : Nat}
    (loopLength : bounds.loopLength = .ok length) : length = bounds.loopSpan :=
  (Nat.sub_eq_of_eq_add (Index.minus_eq_ok_iff.1 loopLength)).symm

end Bounds

/-- Every landing ends with the last sample of the lap. -/
theorem Kernel.landing_eq (kernel : Kernel) : ∃ zones, kernel.landing = zones ++ [.room 0] := by
  cases kernel with
  | silence | nearest | linear => exact ⟨[], rfl⟩
  | fourthOrder => exact ⟨[.room 1], rfl⟩
  | seventhOrder => exact ⟨[.room 2, .room 1], rfl⟩

/-- Every landing begins outside the heads. -/
theorem Kernel.head?_landing (kernel : Kernel) :
    ∃ ahead, kernel.landing.head? = some (.room ahead) := by
  cases kernel <;> exact ⟨_, rfl⟩

namespace Scene

variable {scene : Scene} {sample : Nat → Float32} {low : Bool → Nat}
  {Invariant : Course → Prop} {head : Head} {start finish : Course}

/-- A zone is crossed until all slots are filled or the position has left it. -/
theorem left_eq_zero_or_of_cross {zone : Zone} (run : scene.cross head start zone = .ok finish) :
    finish.left = 0 ∨ zone.admits head.first scene.last finish.position.index = .ok false := by
  have within : ∀ {slots : Nat} {start : Course}, start.left = slots →
      scene.crossWithin head zone slots start = .ok finish →
        finish.left = 0 ∨ zone.admits head.first scene.last finish.position.index = .ok false := by
    intro slots
    induction slots with
    | zero =>
        intro start left run
        simp only [crossWithin, Checked.pure_eq_ok_iff] at run
        exact .inl (run ▸ left)
    | succ slots inductionHypothesis =>
        intro start left run
        simp only [crossWithin, Checked.bind_eq_ok_iff] at run
        obtain ⟨admitted, admits, run⟩ := run
        split at run
        · simp only [Checked.bind_eq_ok_iff] at run
          obtain ⟨taps, _, run⟩ := run
          refine inductionHypothesis ?_ run
          rw [Course.left_emit, left, Nat.add_sub_cancel]
        · rename_i outside
          simp only [Checked.pure_eq_ok_iff] at run
          subst run
          rw [Bool.not_eq_true] at outside
          exact .inr (outside ▸ admits)
  exact within rfl run

/-- After a landing all slots are filled, or the position is past the last sample. -/
theorem left_eq_zero_or_lt_of_landing
    (run : scene.crossAll head scene.kernel.landing start = .ok finish) :
    finish.left = 0 ∨ scene.last < finish.position.index := by
  obtain ⟨zones, landing⟩ := scene.kernel.landing_eq
  rw [landing] at run
  simp only [crossAll, List.foldlM_append, List.foldlM_cons, List.foldlM_nil,
    Checked.bind_eq_ok_iff, Checked.pure_eq_ok_iff] at run
  obtain ⟨between, _, _, crossed, rfl⟩ := run
  rcases left_eq_zero_or_of_cross crossed with full | outside
  · exact .inl full
  · right
    simpa [Zone.admits, pure, Except.pure] using outside

/-- A call ends in a lap with all slots filled, or for a voice that does not loop,
past the last sample. -/
theorem lap_ending (ran : scene.lap head start = .ok (.ended finish)) :
    finish.left = 0 ∨ scene.looping = false ∧ scene.last < finish.position.index := by
  cases lapped_of_lap ran with
  | filled _ full => exact .inl full
  | turnedLast _ _ _ _ _ full => exact .inl full
  | stayed _ _ lands stays =>
      rcases left_eq_zero_or_lt_of_landing lands with full | past
      · exact .inl full
      · simp only [Scene.mustTurn, past, decide_true, Bool.and_true] at stays
        exact .inr ⟨stays, past⟩

theorem laps_ending (ran : scene.laps head start = .ok finish) :
    finish.left = 0 ∨ scene.looping = false ∧ scene.last < finish.position.index :=
  laps_induction
    (motive := fun _ _ finish =>
      finish.left = 0 ∨ scene.looping = false ∧ scene.last < finish.position.index)
    lap_ending (fun _ later => later) ran

/-- Crossing zones fills slots or changes nothing. -/
theorem eq_or_left_lt_of_crossAll {zones : List Zone}
    (run : scene.crossAll head zones start = .ok finish) :
    finish = start ∨ finish.left < start.left := by
  apply crossAll_invariant (fun course => course = start ∨ course.left < start.left) _ run (.inl rfl)
  intro _ _ course _ holds some _ _
  right
  rw [Course.left_emit]
  rcases holds with rfl | fewer <;> omega

/-- They change nothing when none of them holds the position. -/
theorem crossAll_eq_self_iff {zones : List Zone} (some : 0 < start.left) :
    scene.crossAll head zones start = .ok start ↔
      ∀ zone ∈ zones, zone.admits head.first scene.last start.position.index = .ok false := by
  obtain ⟨slots, left⟩ : ∃ slots, start.left = slots + 1 := Nat.exists_eq_add_one.2 some
  induction zones with
  | nil => simp [crossAll, pure, Except.pure]
  | cons zone zones inductionHypothesis =>
      rw [crossAll, List.foldlM_cons, List.forall_mem_cons]
      constructor
      · intro run
        obtain ⟨between, crossed, rest⟩ := Checked.bind_eq_ok_iff.1 run
        have single : scene.crossAll head [zone] start = .ok between := by
          rw [crossAll, List.foldlM_cons, crossed]
          rfl
        -- A slot that one zone fills is not taken back by the others.
        obtain rfl : between = start := by
          refine (eq_or_left_lt_of_crossAll single).resolve_right fun fewer => ?_
          rcases eq_or_left_lt_of_crossAll rest with rfl | fewerStill <;> omega
        exact ⟨(left_eq_zero_or_of_cross crossed).resolve_left (by omega),
          inductionHypothesis.1 rest⟩
      · rintro ⟨outside, others⟩
        rw [cross, left, crossWithin, outside]
        exact inductionHypothesis.2 others

/-- So does a lap up to its turn. -/
theorem eq_or_left_lt_of_lap {other : Head} {approached landed : Course}
    (approaches : scene.crossAll head scene.kernel.approach start = .ok approached)
    (lands : scene.crossAll other scene.kernel.landing approached = .ok landed) :
    landed = start ∨ landed.left < start.left := by
  rcases eq_or_left_lt_of_crossAll approaches with rfl | fewer
  · exact eq_or_left_lt_of_crossAll lands
  · right
    rcases eq_or_left_lt_of_crossAll lands with rfl | fewerStill <;> omega

theorem looping_of_mustTurn {course : Course} (mustTurn : scene.mustTurn course = true) :
    scene.looping = true := by
  simp only [Scene.mustTurn, Bool.and_eq_true] at mustTurn
  exact mustTurn.1

/-- A lap in which no zone holds the position is over at once, but for the turn. -/
theorem lap_of_outside (some : 0 < start.left)
    (outside : ∀ zone ∈ scene.kernel.zones,
      zone.admits head.first scene.last start.position.index = .ok false) :
    scene.lap head start =
      if scene.mustTurn start then (do
        let turned := start.turn (← scene.bounds.loopLength)
        return .again (← scene.readHead true) turned)
      else .ok (.ended start) := by
  have approach := (crossAll_eq_self_iff some).2 fun zone member =>
    outside zone (List.mem_append_left _ member)
  have landing := (crossAll_eq_self_iff some).2 fun zone member =>
    outside zone (List.mem_append_right _ member)
  simp only [lap, approach, landing, bind, Except.bind, Course.left_turn, Nat.ne_of_gt some,
    if_false]
  rfl

/-- A course that must turn has a whole loop behind it. -/
theorem covered_of_mustTurn (last : scene.last = scene.bounds.final scene.looping)
    {course : Course} (mustTurn : scene.mustTurn course = true) :
    scene.bounds.loopEnd.toNat * 2 ^ 32 ≤ course.position.toNat := by
  simp only [Scene.mustTurn, Bool.and_eq_true, decide_eq_true_eq] at mustTurn
  obtain ⟨looping, past⟩ := mustTurn
  rw [last, looping, Bounds.final, if_pos rfl] at past
  apply Phase.le_index_iff.1
  omega

theorem toNat_position_turn (last : scene.last = scene.bounds.final scene.looping)
    {course : Course} (mustTurn : scene.mustTurn course = true) :
    (course.turn scene.bounds.loopSpan).position.toNat =
      course.position.toNat - scene.bounds.loopSpan * 2 ^ 32 := by
  have covered := covered_of_mustTurn last mustTurn
  have shorter : scene.bounds.loopSpan ≤ scene.bounds.loopEnd.toNat := Nat.sub_le ..
  have behind : scene.bounds.loopSpan * 2 ^ 32 ≤ course.position.toNat :=
    Nat.le_trans (Nat.mul_le_mul_right _ shorter) covered
  rw [Course.position_turn, Phase.toNat_sub_ofIndex behind]

/-- A turn leads into the loop, not before it. -/
theorem loopStart_le_position_turn (last : scene.last = scene.bounds.final scene.looping)
    (ordered : scene.bounds.loopStart.toNat < scene.bounds.loopEnd.toNat) {course : Course}
    (mustTurn : scene.mustTurn course = true) :
    scene.bounds.loopStart.toNat * 2 ^ 32 ≤
      (course.turn scene.bounds.loopSpan).position.toNat := by
  have covered := covered_of_mustTurn last mustTurn
  have length : scene.bounds.loopSpan =
      scene.bounds.loopEnd.toNat - scene.bounds.loopStart.toNat := rfl
  rw [toNat_position_turn last mustTurn]
  apply Nat.le_sub_of_add_le
  rw [← Nat.add_mul, length, Nat.add_sub_of_le (Nat.le_of_lt ordered)]
  exact covered

/-- After a lap and a turn there is less left to do. -/
theorem progressed_of_turn (last : scene.last = scene.bounds.final scene.looping)
    (ordered : scene.bounds.loopStart.toNat < scene.bounds.loopEnd.toNat)
    {start landed : Course} (lap : landed = start ∨ landed.left < start.left)
    (mustTurn : scene.mustTurn landed = true) :
    (landed.turn scene.bounds.loopSpan).progressed start = true := by
  rw [Course.progressed_iff]
  have position := toNat_position_turn last mustTurn
  have covered := covered_of_mustTurn last mustTurn
  have inWord := landed.position.toNat_lt
  have long : 0 < scene.bounds.loopSpan := Nat.sub_pos_of_lt ordered
  simp only [Course.effort, position, Course.left_turn, Course.looped_turn, if_true, UInt64.size]
  rcases lap with rfl | fewer
  · cases landed.looped <;> simp only [Bool.false_eq_true, if_false, if_true] <;> omega
  · split <;> omega

/-- So it is between two laps. -/
theorem progressed_of_lap_again (last : scene.last = scene.bounds.final scene.looping)
    (ordered : scene.looping = true → scene.bounds.loopStart.toNat < scene.bounds.loopEnd.toNat)
    {loopHead : Head} {turned : Course}
    (ran : scene.lap head start = .ok (.again loopHead turned)) :
    turned.progressed start = true := by
  cases lapped_of_lap ran with
  | turned approaches _ lands mustTurn loopLength =>
      obtain rfl := Bounds.eq_loopSpan_of_loopLength loopLength
      exact progressed_of_turn last (ordered (looping_of_mustTurn mustTurn))
        (eq_or_left_lt_of_lap approaches lands) mustTurn

/-- A lap is crossed up to its last sample, unless all slots are filled before. The
position is then past the heads. -/
theorem lap_ends (carries : scene.Carries sample low Invariant) (holds : Invariant start)
    {Final : Course → Prop} {next : Course → Checked Course}
    (filled : ∀ {course}, Invariant course → course.left = 0 →
      scene.Ends sample low Invariant Final (.ok course))
    (continued : ∀ {landed}, landed = start ∨ landed.left < start.left → Invariant landed →
      low landed.looped + scene.kernel.before ≤ landed.position.index →
        scene.Ends sample low Invariant Final (next landed)) :
    scene.Ends sample low Invariant Final (do
      let approached ← scene.crossAll (headOf scene.kernel sample scene.bounds start.looped)
        scene.kernel.approach start
      if approached.left = 0 then
        return approached
      else
        next (← scene.crossAll (headOf scene.kernel sample scene.bounds start.looped)
          scene.kernel.landing approached)) := by
  have follow := scene.kernel.zones_follow
  have approach := crossAll_ends carries follow
    (fun zone member => Kernel.near_of_mem_zones (List.mem_append_left _ member)) holds
    (fun zone member => .inr (Kernel.reached_of_mem_head? (carries.ordered _) (carries.placed holds)
      member))
  apply approach.bind
  rintro approached approaches ⟨onward, come⟩
  by_cases full : approached.left = 0
  · rw [if_pos full]
    exact filled onward.holds full
  · rw [if_neg full, ← onward.looped]
    obtain ⟨ahead, first⟩ := scene.kernel.head?_landing
    have reached := (come (.room ahead) first).resolve_left full
    have landing := @crossAll_ends _ _ _ _ carries scene.kernel.landing []
      ((List.append_nil _).symm ▸ follow.right_of_append)
      (fun zone member => Kernel.near_of_mem_zones (List.mem_append_right _ member)) _ onward.holds
      (fun zone member => come zone (by rwa [List.append_nil] at member))
    apply landing.bind
    rintro landed lands ⟨later, _⟩
    refine continued (eq_or_left_lt_of_lap approaches lands) later.holds ?_
    rw [later.looped]
    exact Nat.le_trans reached.1 later.forward

/-- Under an invariant that is carried within a lap and survives every turn, a
render call ends in it, or faults at a slot whose taps cannot be read. -/
theorem laps_ends (staged : scene.Staged sample)
    (carries : scene.Carries sample low Invariant)
    (ordered : scene.looping = true → scene.bounds.loopStart.toNat < scene.bounds.loopEnd.toNat)
    (turns : ∀ {course}, Invariant course → scene.mustTurn course = true →
      low course.looped + scene.kernel.before ≤ course.position.index →
        Invariant (course.turn scene.bounds.loopSpan))
    {start : Course} (holds : Invariant start) :
    scene.Ends sample low Invariant Invariant
      (scene.laps (headOf scene.kernel sample scene.bounds start.looped) start) := by
  induction effort : start.effort using Nat.strongRecOn generalizing start with
  | ind effort inductionHypothesis =>
      rw [laps]
      apply lap_ends carries holds fun filled _ => .finished filled
      intro landed lap landedHolds passed
      by_cases mustTurn : scene.mustTurn landed = true
      · have looping := looping_of_mustTurn mustTurn
        have turnedHolds := turns landedHolds mustTurn passed
        have progressed := progressed_of_turn staged.last (ordered looping) lap mustTurn
        rw [if_pos mustTurn, Bounds.loopLength_eq (ordered looping)]
        simp only [bind, Except.bind]
        rw [show scene.readHead true = _ from carries.headRead turnedHolds]
        simp only
        by_cases done : (landed.turn scene.bounds.loopSpan).left = 0
        · rw [if_pos done]
          exact .finished turnedHolds
        · rw [if_neg done, dif_pos progressed]
          exact inductionHypothesis _ (effort ▸ Course.progressed_iff.1 progressed) turnedHolds rfl
      · rw [if_neg mustTurn]
        exact .finished landedHolds

/-- All laps of a render call end without a fault under an invariant that is
sustained within a lap and survives every turn. -/
theorem laps_total (staged : scene.Staged sample)
    (sustains : scene.Sustains sample low Invariant)
    (ordered : scene.looping = true → scene.bounds.loopStart.toNat < scene.bounds.loopEnd.toNat)
    (turns : ∀ {course}, Invariant course → scene.mustTurn course = true →
      Invariant (course.turn scene.bounds.loopSpan))
    {start : Course} (holds : Invariant start) :
    ∃ finish, scene.laps (headOf scene.kernel sample scene.bounds start.looped) start =
        .ok finish ∧
      Invariant finish ∧
        (finish.left = 0 ∨ scene.looping = false ∧ scene.last < finish.position.index) := by
  have ends := laps_ends staged (sustains.carries staged) ordered
    (fun holds mustTurn _ => turns holds mustTurn) holds
  obtain ⟨finish, ran, finishHolds⟩ := ends.total staged sustains
  exact ⟨finish, ran, finishHolds, laps_ending ran⟩

/-! ## Zones that answer everywhere -/

/-- Zones that can be asked at every index, and whose taps can be read wherever they hold it. -/
def Answers (scene : Scene) (head : Head) (zones : List Zone) : Prop :=
  ∀ zone ∈ zones, ∀ index, ∃ admitted, zone.admits head.first scene.last index = .ok admitted ∧
    (admitted = true → ∃ taps, scene.taps head zone index = .ok taps)

theorem exists_crossWithin {zones : List Zone} (answers : scene.Answers head zones) {zone : Zone}
    (member : zone ∈ zones) (slots : Nat) (start : Course) :
    ∃ finish, scene.crossWithin head zone slots start = .ok finish := by
  induction slots generalizing start with
  | zero => exact ⟨start, rfl⟩
  | succ slots inductionHypothesis =>
      obtain ⟨admitted, admits, reads⟩ := answers zone member start.position.index
      rw [crossWithin, admits]
      cases admitted with
      | false => exact ⟨start, rfl⟩
      | true =>
          obtain ⟨taps, found⟩ := reads rfl
          simp only [bind, Except.bind, if_true, found]
          exact inductionHypothesis _

theorem exists_crossAll {zones : List Zone} (answers : scene.Answers head zones) (start : Course) :
    ∃ finish, scene.crossAll head zones start = .ok finish := by
  induction zones generalizing start with
  | nil => exact ⟨start, rfl⟩
  | cons zone zones inductionHypothesis =>
      obtain ⟨between, crossed⟩ := exists_crossWithin answers List.mem_cons_self start.left start
      obtain ⟨finish, rest⟩ := inductionHypothesis
        (fun other member => answers other (List.mem_cons_of_mem _ member)) between
      refine ⟨finish, ?_⟩
      rw [crossAll, List.foldlM_cons, cross, crossed]
      exact rest

theorem exists_lap
    (ordered : scene.looping = true → scene.bounds.loopStart.toNat < scene.bounds.loopEnd.toNat)
    (headRead : scene.looping = true → ∃ loopHead, scene.readHead true = .ok loopHead)
    (answers : scene.Answers head scene.kernel.zones) (start : Course) :
    ∃ next, scene.lap head start = .ok next := by
  obtain ⟨approached, approaches⟩ := exists_crossAll
    (fun zone member => answers zone (List.mem_append_left _ member)) start
  obtain ⟨landed, lands⟩ := exists_crossAll
    (fun zone member => answers zone (List.mem_append_right _ member)) approached
  rw [lap, approaches]
  simp only [bind, Except.bind]
  by_cases full : approached.left = 0
  · rw [if_pos full]
    exact ⟨_, rfl⟩
  rw [if_neg full, lands]
  simp only
  by_cases mustTurn : scene.mustTurn landed = true
  · have looping := looping_of_mustTurn mustTurn
    obtain ⟨loopHead, found⟩ := headRead looping
    rw [if_pos mustTurn, Bounds.loopLength_eq (ordered looping), found]
    exact ⟨_, rfl⟩
  · rw [if_neg mustTurn]
    exact ⟨_, rfl⟩

/-- With such zones a call is not abandoned, wherever it begins and however long its steps are. -/
theorem exists_laps (last : scene.last = scene.bounds.final scene.looping)
    (ordered : scene.looping = true → scene.bounds.loopStart.toNat < scene.bounds.loopEnd.toNat)
    (headRead : scene.looping = true → ∃ loopHead, scene.readHead true = .ok loopHead)
    (answers : ∀ head, scene.Answers head scene.kernel.zones) (head : Head) (start : Course) :
    ∃ finish, scene.laps head start = .ok finish := by
  induction effort : start.effort using Nat.strongRecOn generalizing head start with
  | ind effort inductionHypothesis =>
      obtain ⟨next, ran⟩ := exists_lap ordered headRead (answers head) start
      rw [laps_eq_lap, ran]
      cases next with
      | ended finish => exact ⟨finish, rfl⟩
      | again loopHead turned =>
          have progressed := progressed_of_lap_again last ordered ran
          simp only [bind, Except.bind, if_pos progressed]
          exact inductionHypothesis _ (effort ▸ Course.progressed_iff.1 progressed) _ _ rfl

end Scene

end Resampler
