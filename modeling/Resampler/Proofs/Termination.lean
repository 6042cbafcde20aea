import Resampler.Proofs.Accounting
import Resampler.Proofs.Playback

/-!
Contract: every render call ends.

Owns:
- computations that do not stall, and the proof that no part of a lap does;
- the number of laps that a call can take, which bounds them without any check of
  progress;
- the number of turns before a slot, which the position it is reached from bounds;
- the end of every render call, in a fault or with the slots it owes.

Does not own: which calls end in a fault.
-/

namespace Resampler

/-! ## Stalls -/

namespace Checked

/-- A computation that ends: in a value, or in a fault for which it is abandoned. -/
def Unstalled {α : Type} (run : Checked α) : Prop := run ≠ .error .stalled

variable {α β ι : Type}

theorem unstalled_ok (value : α) : Unstalled (.ok value) := nofun

theorem Unstalled.bind {run : Checked α} {next : α → Checked β} (first : run.Unstalled)
    (later : ∀ value, (next value).Unstalled) : (run >>= next).Unstalled := by
  cases run with
  | ok value => exact later value
  | error fault => exact fun stalls => first (congrArg Except.error (Except.error.inj stalls))

theorem unstalled_mapM {items : List ι} {compute : ι → Checked α}
    (each : ∀ item, (compute item).Unstalled) : (items.mapM compute).Unstalled := by
  induction items with
  | nil => exact unstalled_ok []
  | cons item items inductionHypothesis =>
      rw [List.mapM_cons]
      exact (each item).bind fun _ => inductionHypothesis.bind fun _ => unstalled_ok _

theorem unstalled_foldlM {items : List ι} {step : α → ι → Checked α}
    (each : ∀ value item, (step value item).Unstalled) (value : α) :
    (items.foldlM step value).Unstalled := by
  induction items generalizing value with
  | nil => exact unstalled_ok value
  | cons item items inductionHypothesis =>
      rw [List.foldlM_cons]
      exact (each value item).bind inductionHypothesis

end Checked

open Checked

theorem Index.unstalled_plus (index offset : Nat) : (plus index offset).Unstalled := by
  unfold plus
  split <;> nofun

theorem Index.unstalled_minus (index offset : Nat) : (minus index offset).Unstalled := by
  unfold minus
  split <;> nofun

theorem SampleData.unstalled_read (data : SampleData) (index : Nat) :
    (data.read index).Unstalled := by
  unfold read
  split <;> nofun

theorem Zone.unstalled_admits (zone : Zone) (first last index : Nat) :
    (zone.admits first last index).Unstalled := by
  match zone with
  | head past => exact (Index.unstalled_plus first past).bind fun _ => unstalled_ok _
  | room 0 => exact unstalled_ok _
  | room 1 => exact unstalled_ok _
  | room (ahead + 2) => exact (Index.unstalled_plus index (ahead + 2)).bind fun _ => unstalled_ok _

theorem unstalled_readRun {read : Reader} (reads : ∀ index, (read index).Unstalled)
    (first count : Nat) : (readRun read first count).Unstalled :=
  unstalled_mapM fun distance => (Index.unstalled_plus first distance).bind reads

namespace Scene

theorem unstalled_prepare {read : Reader} (reads : ∀ index, (read index).Unstalled)
    (kernel : Kernel) (bounds : Bounds) (looping : Bool) (step : Phase) :
    (prepare kernel read bounds looping step).Unstalled := by
  have last : (bounds.lastIndex looping).Unstalled := by
    cases looping with
    | true => exact Index.unstalled_minus bounds.loopEnd.toNat 1
    | false => exact unstalled_ok bounds.last.toNat
  have tail : (readTail kernel read bounds looping).Unstalled := by
    apply unstalled_mapM
    intro distance
    cases looping with
    | true => exact (Index.unstalled_plus bounds.loopStart.toNat distance).bind reads
    | false => exact reads bounds.last.toNat
  exact last.bind fun _ => tail.bind fun _ => unstalled_ok _

variable {scene : Scene}

section Unstalled

variable (reads : ∀ index, (scene.read index).Unstalled)

include reads

theorem unstalled_readHead (looped : Bool) : (scene.readHead looped).Unstalled := by
  refine (unstalled_mapM fun distance => ?_).bind fun _ => unstalled_ok _
  cases looped with
  | true => exact (Index.unstalled_minus scene.bounds.loopEnd.toNat (distance + 1)).bind reads
  | false => exact reads scene.bounds.start.toNat

theorem unstalled_taps (head : Head) (zone : Zone) (index : Nat) :
    (scene.taps head zone index).Unstalled := by
  cases zone with
  | head past =>
      exact (Index.unstalled_minus index past).bind fun first =>
        (unstalled_readRun reads first _).bind fun _ => unstalled_ok _
  | room ahead =>
      exact (Index.unstalled_minus index scene.kernel.before).bind fun first =>
        (unstalled_readRun reads first _).bind fun _ => unstalled_ok _

theorem unstalled_crossAll (head : Head) (zones : List Zone) (course : Course) :
    (scene.crossAll head zones course).Unstalled := by
  have within : ∀ (zone : Zone) (slots : Nat) (course : Course),
      (scene.crossWithin head zone slots course).Unstalled := by
    intro zone slots
    induction slots with
    | zero => exact fun course => unstalled_ok course
    | succ slots inductionHypothesis =>
        intro course
        rw [crossWithin]
        refine (zone.unstalled_admits head.first scene.last course.position.index).bind ?_
        intro admitted
        cases admitted with
        | true =>
            exact (unstalled_taps reads head zone course.position.index).bind fun _ =>
              inductionHypothesis _
        | false => exact unstalled_ok course
  exact unstalled_foldlM (fun course zone => within zone course.left course) course

theorem unstalled_lap (head : Head) (course : Course) : (scene.lap head course).Unstalled := by
  refine (unstalled_crossAll reads head _ course).bind fun approached => ?_
  split
  · exact unstalled_ok _
  · refine (unstalled_crossAll reads head _ approached).bind fun landed => ?_
    split
    · have length : scene.bounds.loopLength.Unstalled :=
        Index.unstalled_minus scene.bounds.loopEnd.toNat scene.bounds.loopStart.toNat
      exact length.bind fun _ => (unstalled_readHead reads true).bind fun _ => unstalled_ok _
    · exact unstalled_ok _

theorem unstalled_lapsUpTo (count : Nat) (head : Head) (course : Course) :
    (scene.lapsUpTo count head course).Unstalled := by
  induction count generalizing head course with
  | zero => exact unstalled_ok _
  | succ count inductionHypothesis =>
      refine (unstalled_lap reads head course).bind fun next => ?_
      cases next with
      | ended finish => exact unstalled_ok _
      | again loopHead turned => exact inductionHypothesis loopHead turned

end Unstalled

end Scene

/-! ## Laps -/

/-- The most laps of a render call: before each slot and after the last one, as many as
there are loops in the word, and the lap that fills the slot. -/
def Bounds.mostLaps (bounds : Bounds) (looping : Bool) : Nat :=
  if looping then (blockSize + 1) * (2 ^ 32 / bounds.loopSpan + 1) else 1

theorem Bounds.index_div_loopSpan_le (bounds : Bounds) (position : Phase) :
    position.index / bounds.loopSpan ≤ 2 ^ 32 / bounds.loopSpan :=
  Nat.div_le_div_right (Nat.le_of_lt position.index_lt)

namespace Scene

variable {scene : Scene}

/-- The most turns that are left to a course: those before each slot that is left to
fill, and those before the next. -/
def turnsLeft (scene : Scene) (course : Course) : Nat :=
  if scene.looping then
    course.left * (2 ^ 32 / scene.bounds.loopSpan + 1) +
      course.position.index / scene.bounds.loopSpan
  else 0

theorem turnsLeft_lt (scene : Scene) (course : Course) :
    scene.turnsLeft course < scene.bounds.mostLaps scene.looping := by
  unfold turnsLeft Bounds.mostLaps
  split
  · have few : course.left ≤ blockSize := Nat.sub_le ..
    have near := scene.bounds.index_div_loopSpan_le course.position
    have slots := Nat.mul_le_mul_right (2 ^ 32 / scene.bounds.loopSpan + 1) few
    rw [Nat.add_mul, Nat.one_mul]
    omega
  · exact Nat.one_pos

/-- A turn is one turn less, after a lap in which no slot was filled and all the more
after another. -/
theorem turnsLeft_turn_lt (last : scene.last = scene.bounds.final scene.looping)
    (ordered : scene.bounds.loopStart.toNat < scene.bounds.loopEnd.toNat)
    {start landed : Course} (lap : landed = start ∨ landed.left < start.left)
    (mustTurn : scene.mustTurn landed = true) :
    scene.turnsLeft (landed.turn scene.bounds.loopSpan) < scene.turnsLeft start := by
  have position := toNat_position_turn last mustTurn
  have covered := covered_of_mustTurn last mustTurn
  have long : 0 < scene.bounds.loopSpan := Nat.sub_pos_of_lt ordered
  have shorter : scene.bounds.loopSpan ≤ scene.bounds.loopEnd.toNat := Nat.sub_le ..
  have index : (landed.turn scene.bounds.loopSpan).position.index =
      landed.position.index - scene.bounds.loopSpan := by
    unfold Phase.index
    omega
  have behind : scene.bounds.loopSpan ≤ landed.position.index := by
    unfold Phase.index
    omega
  have fewer := Nat.div_eq_sub_div long behind
  simp only [turnsLeft, looping_of_mustTurn mustTurn, if_true, Course.left_turn, index]
  rcases lap with rfl | fewerSlots
  · omega
  -- A step may lead as far as the word goes, so a slot has to make up for all loops in it.
  · have near := scene.bounds.index_div_loopSpan_le landed.position
    have slots := Nat.mul_le_mul_right (2 ^ 32 / scene.bounds.loopSpan + 1)
      (Nat.succ_le_of_lt fewerSlots)
    rw [Nat.succ_mul] at slots
    apply Nat.lt_add_right
    omega

theorem turnsLeft_lt_of_lap_again (last : scene.last = scene.bounds.final scene.looping)
    (ordered : scene.looping = true → scene.bounds.loopStart.toNat < scene.bounds.loopEnd.toNat)
    {head loopHead : Head} {start turned : Course}
    (ran : scene.lap head start = .ok (.again loopHead turned)) :
    scene.turnsLeft turned < scene.turnsLeft start := by
  cases lapped_of_lap ran with
  | turned approaches _ lands mustTurn loopLength =>
      obtain rfl := Bounds.eq_loopSpan_of_loopLength loopLength
      exact turnsLeft_turn_lt last (ordered (looping_of_mustTurn mustTurn))
        (eq_or_left_lt_of_lap approaches lands) mustTurn

/-- With more laps than turns are left, the laps end as the call does, which checks for
progress in between. -/
theorem lapsUpTo_eq_laps (last : scene.last = scene.bounds.final scene.looping)
    (ordered : scene.looping = true → scene.bounds.loopStart.toNat < scene.bounds.loopEnd.toNat)
    {count : Nat} {head : Head} {start : Course} (enough : scene.turnsLeft start < count) :
    scene.lapsUpTo count head start = .ended <$> scene.laps head start := by
  induction count generalizing head start with
  | zero => exact absurd enough (Nat.not_lt_zero _)
  | succ count inductionHypothesis =>
      rw [lapsUpTo, laps_eq_lap]
      cases ran : scene.lap head start with
      | error fault => rfl
      | ok next =>
          cases next with
          | ended finish => rfl
          | again loopHead turned =>
              have fewer := turnsLeft_lt_of_lap_again last ordered ran
              simp only [bind, Except.bind, if_pos (progressed_of_lap_again last ordered ran)]
              exact inductionHypothesis (by omega)

end Scene

/-! ## Turns before a slot -/

def Bounds.arrival (bounds : Bounds) (step origin : Phase) (slots : List Slot) : Phase :=
  slots.foldl (fun position slot => position - .ofIndex (slot.turns * bounds.loopSpan) + step)
    origin

/-- A course with no more turns before a slot, or since the last one, than loops fit
before the index at which the slot before it leaves the voice. -/
structure Course.Spaced (course : Course) (bounds : Bounds) (step origin : Phase) : Prop where
  slots : ∀ {before slot later}, course.slots.toList = before ++ slot :: later →
    slot.turns ≤ (bounds.arrival step origin before).index / bounds.loopSpan
  turns : course.turns ≤
    (bounds.arrival step origin course.slots.toList).index / bounds.loopSpan
  position : (bounds.arrival step origin course.slots.toList).toNat =
    course.position.toNat + course.turns * bounds.loopSpan * 2 ^ 32

namespace Course.Spaced

variable {course : Course} {bounds : Bounds} {step origin : Phase}

theorem begin (bounds : Bounds) (step origin : Phase) (looped : Bool) :
    (Course.begin origin looped).Spaced bounds step origin where
  slots := by
    intro before slot later split
    simp [Course.begin] at split
  turns := Nat.zero_le _
  position := by simp [Course.begin, Bounds.arrival]

theorem emit (spaced : course.Spaced bounds step origin) (sample : Float32) :
    (course.emit step sample).Spaced bounds step origin := by
  have behind : course.turns * bounds.loopSpan * 2 ^ 32 ≤
      (bounds.arrival step origin course.slots.toList).toNat := by
    rw [spaced.position]
    exact Nat.le_add_left ..
  have located : bounds.arrival step origin course.slots.toList -
      .ofIndex (course.turns * bounds.loopSpan) = course.position := by
    apply Phase.ext_toNat
    rw [Phase.toNat_sub_ofIndex behind, spaced.position, Nat.add_sub_cancel]
  have reached : bounds.arrival step origin (course.emit step sample).slots.toList =
      course.position + step := by
    simp only [Course.emit, Array.toList_push, Bounds.arrival, List.foldl_append, List.foldl_cons,
      List.foldl_nil]
    rw [← located]
    rfl
  refine ⟨?_, Nat.zero_le _, ?_⟩
  · intro before slot later split
    simp only [Course.emit, Array.toList_push] at split
    rcases later.eq_nil_or_concat with rfl | ⟨between, final, rfl⟩
    · obtain ⟨rfl, same⟩ := List.append_inj' split rfl
      cases same
      exact spaced.turns
    · rw [List.concat_eq_append, ← List.cons_append, ← List.append_assoc] at split
      exact spaced.slots (List.append_inj' split rfl).1
  · rw [reached]
    simp [Course.emit]

theorem turn (spaced : course.Spaced bounds step origin) (long : 0 < bounds.loopSpan)
    (behind : bounds.loopSpan * 2 ^ 32 ≤ course.position.toNat) :
    (course.turn bounds.loopSpan).Spaced bounds step origin := by
  have turned : (course.turn bounds.loopSpan).turns * bounds.loopSpan =
      course.turns * bounds.loopSpan + bounds.loopSpan := Nat.succ_mul ..
  have position : (bounds.arrival step origin course.slots.toList).toNat =
      (course.turn bounds.loopSpan).position.toNat +
        (course.turn bounds.loopSpan).turns * bounds.loopSpan * 2 ^ 32 := by
    rw [Course.position_turn, Phase.toNat_sub_ofIndex behind, turned, spaced.position]
    omega
  refine ⟨spaced.slots, ?_, position⟩
  rw [Nat.le_div_iff_mul_le long, Phase.le_index_iff]
  exact position.symm ▸ Nat.le_add_left ..

end Course.Spaced

/-! ## Calls -/

namespace Kernel

def courseUpTo (kernel : Kernel) (read : Reader) (voice : Voice) (looping : Bool) (count : Nat) :
    Checked Lap := do
  let scene ← Scene.prepare kernel read voice.bounds looping voice.step
  let head ← scene.readHead voice.looped
  scene.lapsUpTo count head (.begin (voice.position + kernel.shift) voice.looped)

variable {kernel : Kernel} {read : Reader} {voice : Voice} {looping : Bool} {count : Nat}

theorem unstalled_courseUpTo (reads : ∀ index, (read index).Unstalled) :
    (kernel.courseUpTo read voice looping count).Unstalled := by
  have prepares := Scene.unstalled_prepare reads kernel voice.bounds looping voice.step
  rw [courseUpTo]
  cases prepared : Scene.prepare kernel read voice.bounds looping voice.step with
  | error fault =>
      rw [prepared] at prepares
      exact fun stalls => prepares (congrArg Except.error (Except.error.inj stalls))
  | ok scene =>
      obtain ⟨tail, rfl⟩ := Scene.exists_of_prepare prepared
      exact (Scene.unstalled_readHead reads voice.looped).bind fun head =>
        Scene.unstalled_lapsUpTo reads count head _

/-- With enough laps the course is that of the call. -/
theorem courseUpTo_eq_course
    (ordered : looping = true → voice.bounds.loopStart.toNat < voice.bounds.loopEnd.toNat)
    (enough : voice.bounds.mostLaps looping ≤ count) :
    kernel.courseUpTo read voice looping count = .ended <$> kernel.course read voice looping := by
  rw [courseUpTo, course]
  cases prepared : Scene.prepare kernel read voice.bounds looping voice.step with
  | error fault => rfl
  | ok scene =>
      obtain ⟨tail, rfl⟩ := Scene.exists_of_prepare prepared
      simp only [bind, Except.bind]
      cases Scene.readHead _ voice.looped with
      | error fault => rfl
      | ok head =>
          exact Scene.lapsUpTo_eq_laps rfl ordered
            (Nat.lt_of_lt_of_le (Scene.turnsLeft_lt _ _) enough)

theorem spaced_of_courseUpTo
    (ordered : looping = true → voice.bounds.loopStart.toNat < voice.bounds.loopEnd.toNat)
    {lap : Lap} (ran : kernel.courseUpTo read voice looping count = .ok lap) :
    lap.course.Spaced voice.bounds voice.step (voice.position + kernel.shift) := by
  simp only [courseUpTo, Checked.bind_eq_ok_iff] at ran
  obtain ⟨scene, prepared, head, _, ran⟩ := ran
  obtain ⟨tail, rfl⟩ := Scene.exists_of_prepare prepared
  refine Scene.lapsUpTo_invariant
    (fun course => course.Spaced voice.bounds voice.step (voice.position + kernel.shift))
    (fun _ sample spaced _ => spaced.emit sample) ?_ ran (.begin ..)
  intro course length spaced mustTurn loopLength
  have ordered := ordered (Scene.looping_of_mustTurn mustTurn)
  obtain rfl := Except.ok.inj ((Bounds.loopLength_eq ordered).symm.trans loopLength)
  have covered := Scene.covered_of_mustTurn rfl mustTurn
  have shorter : voice.bounds.loopSpan ≤ voice.bounds.loopEnd.toNat := Nat.sub_le ..
  exact spaced.turn (Nat.sub_pos_of_lt ordered)
    (Nat.le_trans (Nat.mul_le_mul_right _ shorter) covered)

/-- Every render call ends, of any kernel and voice and in whatever data, a call that
loops as long as its loop has a sample: it faults and does not stall, or it has filled
the slots it owes. The laps of the call are over after a number that the length of
the loop alone bounds, also if no lap were checked for progress. However far the call
comes, no slot has more turns before it than loops fit before the index from which it
is reached. -/
theorem render_ends (kernel : Kernel) (data : SampleData) (voice : Voice) (looping : Bool)
    (block : Block)
    (ordered : looping = true → voice.bounds.loopStart < voice.bounds.loopEnd) :
    ((∃ fault, fault ≠ .stalled ∧ kernel.render data.read voice looping block = .error fault) ∨
      ∃ rendering, kernel.render data.read voice looping block = .ok rendering ∧
        (looping = true → rendering.count = blockSize)) ∧
    (∀ count, voice.bounds.mostLaps looping ≤ count →
      kernel.courseUpTo data.read voice looping count =
        .ended <$> kernel.course data.read voice looping) ∧
    ∀ count lap, kernel.courseUpTo data.read voice looping count = .ok lap →
      lap.course.Spaced voice.bounds voice.step (voice.position + kernel.shift) := by
  have ordered : looping = true → voice.bounds.loopStart.toNat < voice.bounds.loopEnd.toNat :=
    fun loops => UInt32.lt_iff_toNat_lt.1 (ordered loops)
  refine ⟨?_, fun count enough => courseUpTo_eq_course ordered enough,
    fun count lap ran => spaced_of_courseUpTo ordered ran⟩
  cases ran : kernel.course data.read voice looping with
  | error fault =>
      refine .inl ⟨fault, ?_, by rw [render, ran]; rfl⟩
      rintro rfl
      have ends := @courseUpTo_eq_course kernel data.read _ _ _ ordered (Nat.le_refl _)
      rw [ran] at ends
      exact unstalled_courseUpTo data.unstalled_read ends
  | ok course =>
      obtain ⟨_, _, _, _, _, full⟩ := course_accounted ran
      exact .inr ⟨_, render_eq_ok_iff.2 ⟨course, ran, rfl⟩, full⟩

/-- The last position of the word, at the longest step, with a loop of one sample: each slot
comes after as many turns as the word has samples. -/
theorem render_ends_one :
    ((∃ fault, fault ≠ .stalled ∧
        linear.render (SampleData.ofWords #[5]).read
          ⟨⟨0xFFFFFFFFFFFFFFFF⟩, 1e38, true, ⟨3, 2, 0, 1⟩, .linear⟩ true (.filled 0) =
            .error fault) ∨
      ∃ rendering,
        linear.render (SampleData.ofWords #[5]).read
          ⟨⟨0xFFFFFFFFFFFFFFFF⟩, 1e38, true, ⟨3, 2, 0, 1⟩, .linear⟩ true (.filled 0) =
            .ok rendering ∧ (true = true → rendering.count = blockSize)) ∧
    (∀ count, Bounds.mostLaps ⟨3, 2, 0, 1⟩ true ≤ count →
      linear.courseUpTo (SampleData.ofWords #[5]).read
          ⟨⟨0xFFFFFFFFFFFFFFFF⟩, 1e38, true, ⟨3, 2, 0, 1⟩, .linear⟩ true count =
        .ended <$> linear.course (SampleData.ofWords #[5]).read
          ⟨⟨0xFFFFFFFFFFFFFFFF⟩, 1e38, true, ⟨3, 2, 0, 1⟩, .linear⟩ true) ∧
    ∀ count lap,
      linear.courseUpTo (SampleData.ofWords #[5]).read
          ⟨⟨0xFFFFFFFFFFFFFFFF⟩, 1e38, true, ⟨3, 2, 0, 1⟩, .linear⟩ true count = .ok lap →
        lap.course.Spaced ⟨3, 2, 0, 1⟩ (.ofSpeed 1e38)
          (⟨0xFFFFFFFFFFFFFFFF⟩ + linear.shift) :=
  render_ends .linear (.ofWords #[5])
    ⟨⟨0xFFFFFFFFFFFFFFFF⟩, 1e38, true, ⟨3, 2, 0, 1⟩, .linear⟩ true (.filled 0)
    (fun _ => by decide)

end Kernel

end Resampler
