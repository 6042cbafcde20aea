import Resampler.Proofs.LoopedPlayback

/-!
Contract: how far past the end of its loop a voice reads.

Owns:
- computations that end well exactly under a condition;
- the slots whose taps reach past the end of the loop: those in the head of a
  region that begins less than a span before it;
- the sample heard in any slot of a voice that loops, these included;
- one render call, from a reader that gives the samples before some index: it ends
  well exactly when no slot reaches that far.

The head of a region is rendered without a look at the end of the loop.

Does not own: which bounds let a voice begin there.
-/

namespace Resampler

namespace Checked

variable {α β : Type}

/-- A computation that succeeds exactly under a condition, and then in a result of a kind. -/
def Yields (run : Checked α) (condition : Prop) (Result : α → Prop) : Prop :=
  match run with
  | .ok result => condition ∧ Result result
  | .error _ => ¬ condition

variable {run : Checked α} {next : α → Checked β} {condition further : Prop}
  {Result : α → Prop} {Final : β → Prop}

theorem Yields.exists_of (yields : run.Yields condition Result) (holds : condition) :
    ∃ result, run = .ok result ∧ Result result := by
  cases run with
  | error _ => exact absurd holds yields
  | ok result => exact ⟨result, rfl, yields.2⟩

theorem Yields.of_ok (yields : run.Yields condition Result) {result : α}
    (ran : run = .ok result) : condition := by
  rw [ran] at yields
  exact yields.1

/-- The conditions of two computations, one after the other, add up. -/
theorem Yields.bind (first : run.Yields condition Result)
    (second : ∀ {result}, Result result → (next result).Yields further Final) :
    (run >>= next).Yields (condition ∧ further) Final := by
  cases run with
  | error _ => exact fun both => first both.1
  | ok result =>
      obtain ⟨holds, kind⟩ := first
      have rest := second kind
      show (next result).Yields _ _
      cases ended : next result with
      | error _ =>
          rw [ended] at rest
          exact fun both => rest both.2
      | ok final =>
          rw [ended] at rest
          exact ⟨⟨holds, rest.1⟩, rest.2⟩

theorem Yields.map (yields : run.Yields condition Result) {change : α → β}
    (kind : ∀ {result}, Result result → Final (change result)) :
    (run >>= fun result => pure (change result) : Checked β).Yields condition Final := by
  cases run with
  | error _ => exact yields
  | ok _ => exact ⟨yields.1, kind yields.2⟩

end Checked

namespace Bounds

variable {bounds : Bounds} {kernel : Kernel} {read : Reader} {sample : Nat → Float32}
  {stop unwrapped : Nat}

/-- A slot in the head of the region, the last tap of which is not before an index. -/
def Overreaches (bounds : Bounds) (kernel : Kernel) (stop located : Nat) : Prop :=
  located / 2 ^ 32 < bounds.start.toNat + kernel.before ∧ stop ≤ located / 2 ^ 32 + kernel.after

instance (kernel : Kernel) (stop located : Nat) :
    Decidable (bounds.Overreaches kernel stop located) :=
  inferInstanceAs (Decidable (_ ∧ _))

/-- The head of a region reaches a span past its start at most, so it stays before the
end of a loop that is further away. -/
theorem Overreaches.stop_le {located : Nat}
    (overreaches : bounds.Overreaches kernel stop located) :
    stop ≤ bounds.start.toNat + kernel.span := by
  obtain ⟨inHead, reaches⟩ := overreaches
  cases kernel <;> simp only [Kernel.before, Kernel.after, Kernel.span] at * <;> omega

/-- The stored sample behind a virtual index of a slot. Where the slot reaches past the end
of the loop, the data goes on instead of the loop. -/
def seam (bounds : Bounds) (kernel : Kernel) (located : Nat) (virtual : Int) : Nat :=
  if bounds.Overreaches kernel bounds.loopEnd.toNat located then
    bounds.onward false virtual
  else
    bounds.unrolled virtual

def seamHeard (bounds : Bounds) (kernel : Kernel) (sample : Nat → Float32)
    (located : Nat) : Float32 :=
  kernel.heard (fun virtual => sample (bounds.seam kernel located virtual)) located

def seamReference (bounds : Bounds) (kernel : Kernel) (sample : Nat → Float32)
    (position : Nat) : Float32 :=
  bounds.seamHeard kernel sample (position + kernel.shift.toNat)

/-- In a slot that does not reach so far, this is the sample that it should play. -/
theorem seamReference_eq_loopReference {position : Nat}
    (short : ¬ bounds.Overreaches kernel bounds.loopEnd.toNat (position + kernel.shift.toNat)) :
    bounds.seamReference kernel sample position = bounds.loopReference kernel sample position := by
  simp only [seamReference, seamHeard, loopReference, seam, if_neg short]

/-- Bounds whose region begins before the end of a loop that is long enough for a
kernel, and a reader that gives exactly the samples before an index. -/
structure Seamed (bounds : Bounds) (kernel : Kernel) (read : Reader) (sample : Nat → Float32)
    (stop : Nat) : Prop where
  entered : bounds.start.toNat < bounds.loopEnd.toNat
  long : bounds.loopStart.toNat + kernel.span < bounds.loopEnd.toNat
  room : bounds.start.toNat + kernel.span < 2 ^ 32
  covered : bounds.loopEnd.toNat ≤ stop
  given : ∀ index < stop, read.Gives sample index
  withheld : ∀ index, stop ≤ index → ¬ ∃ value, read index = .ok value

/-- What stands behind a virtual index of a lap is stored before the end of the loop. -/
theorem Seamed.behind_lt (seamed : bounds.Seamed kernel read sample stop) {looped : Bool}
    {virtual : Int} (below : virtual ≤ bounds.final true + kernel.after) :
    bounds.behind true looped virtual < bounds.loopEnd.toNat := by
  have entered := seamed.entered
  have long := seamed.long
  have taps := kernel.taps_le_span
  simp only [behind, entry, final, standInBefore, standInAfter, if_true] at below ⊢
  cases looped with
  | true =>
      simp only [if_true]
      split
      · omega
      · split <;> omega
  | false =>
      simp only [Bool.false_eq_true, if_false]
      split
      · exact entered
      · split <;> omega

theorem Seamed.gives_before (seamed : bounds.Seamed kernel read sample stop) (looped : Bool)
    (distance : Nat) : read.Gives sample (bounds.standInBefore looped distance) := by
  have entered := seamed.entered
  have covered := seamed.covered
  apply seamed.given
  unfold standInBefore
  split <;> omega

theorem Seamed.gives_after (seamed : bounds.Seamed kernel read sample stop) {distance : Nat}
    (near : distance < kernel.after) : read.Gives sample (bounds.standInAfter true distance) := by
  have long := seamed.long
  have covered := seamed.covered
  have taps := kernel.taps_le_span
  apply seamed.given
  simp only [standInAfter, if_true]
  omega

/-- The end of the loop leaves room for the taps before it. -/
theorem Seamed.before_le (seamed : bounds.Seamed kernel read sample stop) :
    kernel.before ≤ bounds.loopEnd.toNat := by
  have long := seamed.long
  have taps := kernel.taps_le_span
  omega

/-- Before this many units, all taps around a position have indices. -/
def horizon (kernel : Kernel) : Nat := 2 ^ 64 - kernel.after * 2 ^ 32

/-- Steps that lead from the loop, or the two samples after it, to a position before
the horizon. -/
def Strides (bounds : Bounds) (kernel : Kernel) (step : Nat) : Prop :=
  (bounds.loopEnd.toNat + 2) * 2 ^ 32 + step ≤ horizon kernel

/-- A located position on the track of an unwrapped one, which is past the head of
the region once the voice has turned back. -/
structure OnSeam (bounds : Bounds) (kernel : Kernel) (position : Phase) (looped : Bool)
    (located : Nat) : Prop where
  tracks : bounds.Tracks (horizon kernel) position looped located
  begun : looped = true → bounds.start.toNat + kernel.before ≤ located / 2 ^ 32

namespace OnSeam

variable {position step : Phase} {looped : Bool} {located : Nat}

/-- Before its first turn, a voice is where its unwrapped position is. -/
theorem eq_of_not_looped (onSeam : bounds.OnSeam kernel position false located) :
    located = position.toNat := by
  obtain ⟨laps, same, history, _⟩ := onSeam.tracks
  obtain rfl : laps = 0 := by
    by_contra some
    exact Bool.false_ne_true (history.2 (Nat.pos_of_ne_zero some))
  omega

theorem index_eq_of_not_looped (onSeam : bounds.OnSeam kernel position false located) :
    located / 2 ^ 32 = position.index := by
  rw [onSeam.eq_of_not_looped]
  rfl

/-- Only a voice that has not turned reaches past the end of its loop. -/
theorem not_looped_of_overreaches (onSeam : bounds.OnSeam kernel position looped located)
    (overreaches : bounds.Overreaches kernel stop located) : looped = false := by
  apply Bool.eq_false_iff.2
  intro turned
  have begun := onSeam.begun turned
  have inHead := overreaches.1
  omega

theorem advance (strides : bounds.Strides kernel step.toNat)
    (onSeam : bounds.OnSeam kernel position looped located)
    (inside : position.index < bounds.loopEnd.toNat + 2) :
    bounds.OnSeam kernel (position + step) looped (located + step.toNat) ∧
      position.index ≤ (position + step).index := by
  obtain ⟨tracks, forward⟩ :=
    onSeam.tracks.advance (.inr strides) (Nat.sub_le _ _) inside
  refine ⟨⟨tracks, fun turned => ?_⟩, forward⟩
  have begun := onSeam.begun turned
  omega

theorem turn (seamed : bounds.Seamed kernel read sample stop)
    (onSeam : bounds.OnSeam kernel position looped located)
    (past : bounds.loopEnd.toNat ≤ position.index)
    (passed : bounds.entry looped + kernel.before ≤ position.index) :
    bounds.OnSeam kernel (position - .ofIndex bounds.loopSpan) true located := by
  have long := seamed.long
  refine ⟨onSeam.tracks.turn (by omega) past, fun _ => ?_⟩
  cases looped with
  | true => exact onSeam.begun rfl
  | false =>
      rw [onSeam.eq_of_not_looped]
      exact passed

end OnSeam

end Bounds

namespace Scene

variable {scene : Scene} {sample : Nat → Float32} {stop located : Nat} {course : Course}
  {zone : Zone}

section Slot

variable (onSeam : scene.bounds.OnSeam scene.kernel course.position course.looped located)
  (near : scene.kernel.Near zone) (within : scene.Within course zone)
  (reached : scene.Reached scene.bounds.entry course zone)
include onSeam near within reached

/-- A slot that reaches past the end of the loop is rendered in the head of the region. -/
theorem head_of_overreaches (overreaches : scene.bounds.Overreaches scene.kernel stop located) :
    ∃ past, zone = .head past ∧ past < scene.kernel.before ∧
      course.position.index = scene.bounds.entry course.looped + past ∧
      located / 2 ^ 32 = course.position.index := by
  have notLooped := onSeam.not_looped_of_overreaches overreaches
  have index : located / 2 ^ 32 = course.position.index := by
    rw [notLooped] at onSeam
    exact onSeam.index_eq_of_not_looped
  cases zone with
  | head past => exact ⟨past, rfl, near, within, index⟩
  | room ahead =>
      have inHead := overreaches.1
      have started := reached.1
      simp only [notLooped, Bounds.entry, Bool.false_eq_true, if_false] at started
      omega

variable (seamed : scene.bounds.Seamed scene.kernel scene.read sample stop)
  (staged : scene.Staged sample) (loops : scene.looping = true)
include seamed staged loops

omit reached in
/-- A slot that does not is rendered before the end of the loop, and in the head of a
lap so are its last taps. -/
theorem inside_of_short
    (short : ¬ scene.bounds.Overreaches scene.kernel scene.bounds.loopEnd.toNat located) :
    course.position.index ≤ scene.bounds.final true ∧
      ∀ past, zone = .head past →
        course.position.index + scene.kernel.after ≤ scene.bounds.final true := by
  have long := seamed.long
  have last := staged.last
  rw [loops] at last
  cases zone with
  | head past =>
      have near : past < scene.kernel.before := near
      have inHead : course.position.index = scene.bounds.entry course.looped + past := within
      have spanned := Kernel.before_add_after_le near
      have apart : course.position.index + scene.kernel.after ≤ scene.bounds.final true := by
        simp only [Bounds.final, if_true]
        cases turned : course.looped with
        | true =>
            simp only [turned, Bounds.entry, if_true] at inHead
            omega
        | false =>
            rw [turned] at onSeam
            simp only [turned, Bounds.entry, Bool.false_eq_true, if_false] at inHead
            have index := onSeam.index_eq_of_not_looped
            unfold Bounds.Overreaches at short
            omega
      exact ⟨by omega, fun _ _ => apart⟩
  | room ahead =>
      have fits : course.position.index + ahead ≤ scene.last := within
      exact ⟨by omega, fun _ other => Zone.noConfusion other⟩

/-- The stored samples behind the taps of a slot. -/
theorem readsIn_eq_seam :
    scene.readsIn course.looped course.position.index zone =
      (scene.kernel.window course.position.index).map
        (if scene.bounds.Overreaches scene.kernel scene.bounds.loopEnd.toNat located then
          scene.bounds.onward false
        else
          scene.bounds.behind true course.looped) := by
  by_cases overreaches :
      scene.bounds.Overreaches scene.kernel scene.bounds.loopEnd.toNat located
  · obtain ⟨past, rfl, near, inHead, _⟩ :=
      head_of_overreaches onSeam near within reached overreaches
    rw [if_pos overreaches, readsIn_head_eq_onward near inHead,
      onSeam.not_looped_of_overreaches overreaches]
  · have inside := inside_of_short onSeam near within seamed staged loops overreaches
    rw [if_neg overreaches, ← loops]
    rw [← loops] at inside
    cases zone with
    | head past => exact readsIn_head_eq_window near within (inside.2 past rfl)
    | room ahead =>
        have fits : course.position.index + ahead ≤ scene.last := within
        obtain ⟨started, ending⟩ := reached
        rw [staged.last] at fits ending
        exact readsIn_room_eq_window near started fits ending

/-- A slot that does not reach to the first sample that is withheld asks for none. -/
theorem lt_of_mem_readsIn
    (short : ¬ scene.bounds.Overreaches scene.kernel stop located) {stored : Nat}
    (member : stored ∈ scene.readsIn course.looped course.position.index zone) : stored < stop := by
  have entered := seamed.entered
  have covered := seamed.covered
  rw [readsIn_eq_seam onSeam near within reached seamed staged loops] at member
  obtain ⟨virtual, inWindow, rfl⟩ := List.mem_map.1 member
  have below := (Kernel.mem_window inWindow).2
  by_cases overreaches :
      scene.bounds.Overreaches scene.kernel scene.bounds.loopEnd.toNat located
  · obtain ⟨_, _, _, _, index⟩ := head_of_overreaches onSeam near within reached overreaches
    have inHead := overreaches.1
    unfold Bounds.Overreaches at short
    simp only [if_pos overreaches, Bounds.onward, Bounds.entry, Bounds.standInBefore,
      Bool.false_eq_true, if_false]
    split <;> omega
  · have inside := inside_of_short onSeam near within seamed staged loops overreaches
    rw [if_neg overreaches]
    exact Nat.lt_of_lt_of_le (seamed.behind_lt (by omega)) covered

/-- The sample that is heard in a slot. -/
theorem output_eq_seam :
    scene.kernel.output course.position.row
        ((scene.readsIn course.looped course.position.index zone).map sample) =
      scene.bounds.seamHeard scene.kernel sample located := by
  rw [readsIn_eq_seam onSeam near within reached seamed staged loops, List.map_map]
  by_cases overreaches :
      scene.bounds.Overreaches scene.kernel scene.bounds.loopEnd.toNat located
  · have same : located = course.position.toNat := by
      rw [onSeam.not_looped_of_overreaches overreaches] at onSeam
      exact onSeam.eq_of_not_looped
    simp only [Bounds.seamHeard, Bounds.seam, if_pos overreaches]
    rw [same, Kernel.heard, Phase.ofNat_toNat]
    rfl
  · have inside := inside_of_short onSeam near within seamed staged loops overreaches
    obtain ⟨⟨laps, same, history, entered, _⟩, begun⟩ := onSeam
    simp only [Bounds.seamHeard, Bounds.seam, if_neg overreaches]
    rw [same]
    have agree := @Scene.played_eq_heard scene sample course.looped course.position
      (laps * scene.bounds.loopSpan) (fun virtual => sample (scene.bounds.unrolled virtual))
    rw [← agree, Scene.played, loops]
    · rfl
    · intro virtual member
      obtain ⟨above, below⟩ := Kernel.mem_window member
      rw [loops, Bounds.behind_eq_unrolled_of_begun seamed.entered seamed.long history
        scene.kernel.taps_le_span (by omega) (by omega)]
      · push_cast
        rfl
      -- A voice that has turned has left the head behind, so no tap is before the region.
      · intro turned
        have begun := begun turned
        have index : located / 2 ^ 32 =
            course.position.index + laps * scene.bounds.loopSpan := by
          rw [same]
          exact Nat.add_mul_div_right _ _ (by decide)
        rw [← Int.natCast_mul]
        omega

/-- Its taps can be read. -/
theorem taps_of_short
    (short : ¬ scene.bounds.Overreaches scene.kernel stop located) :
    scene.taps (headOf scene.kernel sample scene.bounds course.looped) zone
        course.position.index =
      .ok ((scene.readsIn course.looped course.position.index zone).map sample) :=
  taps_eq_of_given staged within reached fun _ member =>
    seamed.given _ (lt_of_mem_readsIn onSeam near within reached seamed staged loops short member)

omit staged loops in
/-- Those of any other slot cannot: the last of them is withheld. -/
theorem short_of_taps {taps : List Float32}
    (found : scene.taps (headOf scene.kernel sample scene.bounds course.looped) zone
      course.position.index = .ok taps) :
    ¬ scene.bounds.Overreaches scene.kernel stop located := by
  intro overreaches
  obtain ⟨past, rfl, near, inHead, index⟩ :=
    head_of_overreaches onSeam near within reached overreaches
  have reaches := overreaches.2
  have audible : scene.kernel ≠ .silence := by
    intro silent
    simp [silent, Kernel.before] at near
  have width := Kernel.width_eq_of_ne_silence audible
  obtain ⟨first, difference, found⟩ := Checked.bind_eq_ok_iff.1 found
  have behind := Index.minus_eq_ok_iff.1 difference
  obtain ⟨_, ran, _⟩ := Checked.bind_eq_ok_iff.1 found
  have last := exists_of_readRun ran
    (show past + scene.kernel.after < scene.kernel.width - (scene.kernel.before - past) by omega)
  exact seamed.withheld _ (by omega) last

end Slot

/-- A position in a zone is before the end of the loop, or in the head of a region that
begins on the last samples before it. -/
theorem index_lt_of_seamed (seamed : scene.bounds.Seamed scene.kernel scene.read sample stop)
    (staged : scene.Staged sample) (loops : scene.looping = true)
    (near : scene.kernel.Near zone) (within : scene.Within course zone) :
    course.position.index < scene.bounds.loopEnd.toNat + 2 := by
  have entered := seamed.entered
  have long := seamed.long
  cases zone with
  | head past =>
      have near : past < scene.kernel.before := near
      have inHead : course.position.index = scene.bounds.entry course.looped + past := within
      have spanned := Kernel.before_add_after_le near
      have few := scene.kernel.before_le
      unfold Bounds.entry at inHead
      split at inHead <;> omega
  | room ahead =>
      have fits : course.position.index + ahead ≤ scene.last := within
      rw [staged.last, loops, Bounds.final, if_pos rfl] at fits
      omega

/-- A course that has played the samples heard from an unwrapped position on, and has
not needed one that is withheld. -/
structure StopsShort (scene : Scene) (sample : Nat → Float32) (stop unwrapped : Nat)
    (course : Course) : Prop
    extends course.Fills fun slot =>
      scene.bounds.seamHeard scene.kernel sample (unwrapped + slot * scene.step.toNat) where
  onSeam : scene.bounds.OnSeam scene.kernel course.position course.looped
    (unwrapped + course.slots.size * scene.step.toNat)
  short : ∀ slot < course.slots.size,
    ¬ scene.bounds.Overreaches scene.kernel stop (unwrapped + slot * scene.step.toNat)

namespace StopsShort

variable {unwrapped : Nat}

theorem emit (seamed : scene.bounds.Seamed scene.kernel scene.read sample stop)
    (staged : scene.Staged sample) (loops : scene.looping = true)
    (strides : scene.bounds.Strides scene.kernel scene.step.toNat)
    (stopsShort : scene.StopsShort sample stop unwrapped course) (some : 0 < course.left)
    (near : scene.kernel.Near zone) (within : scene.Within course zone)
    (reached : scene.Reached scene.bounds.entry course zone) {taps : List Float32}
    (found : scene.taps (headOf scene.kernel sample scene.bounds course.looped) zone
      course.position.index = .ok taps) :
    scene.StopsShort sample stop unwrapped
        (course.emit scene.step (scene.kernel.output course.position.row taps)) ∧
      course.position.index ≤ (course.position + scene.step).index := by
  have onSeam := stopsShort.onSeam
  have short := short_of_taps onSeam near within reached seamed found
  have inside := index_lt_of_seamed seamed staged loops near within
  obtain rfl := Except.ok.inj
    ((taps_of_short onSeam near within reached seamed staged loops short).symm.trans found)
  rw [output_eq_seam onSeam near within reached seamed staged loops]
  obtain ⟨next, forward⟩ := onSeam.advance strides inside
  have size := course.size_emit scene.step
  have later : unwrapped + course.slots.size * scene.step.toNat + scene.step.toNat =
      unwrapped + (course.slots.size + 1) * scene.step.toNat := by
    rw [Nat.succ_mul, Nat.add_assoc]
  refine ⟨⟨stopsShort.toFills.emit some rfl, ?_, ?_⟩, forward⟩
  · rw [size, ← later]
    exact next
  · intro slot isSlot
    rw [size] at isSlot
    by_cases earlier : slot < course.slots.size
    · exact stopsShort.short slot earlier
    · obtain rfl : slot = course.slots.size := by omega
      exact short

theorem turn (seamed : scene.bounds.Seamed scene.kernel scene.read sample stop)
    (staged : scene.Staged sample) (stopsShort : scene.StopsShort sample stop unwrapped course)
    (mustTurn : scene.mustTurn course = true)
    (passed : scene.bounds.entry course.looped + scene.kernel.before ≤ course.position.index) :
    scene.StopsShort sample stop unwrapped (course.turn scene.bounds.loopSpan) :=
  ⟨⟨stopsShort.inBlock, stopsShort.samples⟩,
    stopsShort.onSeam.turn seamed
      (Phase.le_index_iff.2 (covered_of_mustTurn staged.last mustTurn)) passed,
    stopsShort.short⟩

end StopsShort

theorem carries_of_seamed (seamed : scene.bounds.Seamed scene.kernel scene.read sample stop)
    (staged : scene.Staged sample) (loops : scene.looping = true)
    (strides : scene.bounds.Strides scene.kernel scene.step.toNat) (unwrapped : Nat) :
    scene.Carries sample scene.bounds.entry (scene.StopsShort sample stop unwrapped) where
  ordered := fun _ => Nat.le_refl _
  headRead := fun _ => readHead_eq (fun _ => seamed.before_le) fun distance _ =>
    seamed.gives_before _ distance
  placed := by
    intro course stopsShort
    obtain ⟨_, _, _, entered, _⟩ := stopsShort.onSeam.tracks
    exact .inl entered
  fits := by
    intro course stopsShort many
    have room := seamed.room
    have long := seamed.long
    have inWord := scene.bounds.loopEnd.toNat_lt
    have spanned := Kernel.before_le_span many
    obtain ⟨_, _, _, _, below⟩ := stopsShort.onSeam.tracks
    unfold Bounds.horizon at below
    constructor
    · show _ < 2 ^ 32
      unfold Bounds.entry
      split <;> omega
    · show _ < 2 ^ 32
      unfold Phase.index
      omega
  carried := fun stopsShort some near within reached found =>
    stopsShort.emit seamed staged loops strides some near within reached found

theorem stopsShort_begin {position : Phase} {looped : Bool}
    (onSeam : scene.bounds.OnSeam scene.kernel position looped located) :
    scene.StopsShort sample stop located (.begin position looped) where
  toFills := .begin ..
  onSeam := by simpa [Course.begin] using onSeam
  short := nofun

/-- A call that has stopped short so far fills its slots, or comes to one that does not. -/
theorem laps_seam (seamed : scene.bounds.Seamed scene.kernel scene.read sample stop)
    (staged : scene.Staged sample) (loops : scene.looping = true)
    (strides : scene.bounds.Strides scene.kernel scene.step.toNat) {unwrapped : Nat}
    (begins : scene.StopsShort sample stop unwrapped course) :
    (scene.laps (headOf scene.kernel sample scene.bounds course.looped) course).Yields
      (∀ slot < blockSize,
        ¬ scene.bounds.Overreaches scene.kernel stop (unwrapped + slot * scene.step.toNat))
      fun finish => finish.slots.size = blockSize ∧
        scene.StopsShort sample stop unwrapped finish := by
  have long := seamed.long
  have ends := laps_ends staged (carries_of_seamed seamed staged loops strides unwrapped)
    (fun _ => by omega) (fun stopsShort mustTurn passed =>
      stopsShort.turn seamed staged mustTurn passed) begins
  cases ran : scene.laps (headOf scene.kernel sample scene.bounds course.looped) course with
  | ok finish =>
      rw [ran] at ends
      cases ends with
      | finished stopsShort =>
          have full : finish.slots.size = blockSize := by
            rcases laps_ending ran with full | ⟨notLooping, _⟩
            · exact stopsShort.size_eq full
            · exact absurd (notLooping.symm.trans loops) Bool.false_ne_true
          exact ⟨full ▸ stopsShort.short, full, stopsShort⟩
  | error fault =>
      rw [ran] at ends
      cases ends with
      | @faulted course zone _ stopsShort some near within reached faults =>
          intro short
          have slot : course.slots.size < blockSize := Nat.lt_of_sub_pos some
          have taps := taps_of_short stopsShort.onSeam near within reached seamed staged loops
            (short _ slot)
          exact nomatch taps.symm.trans faults

end Scene

/-- A render call of a looping voice on its seam ends well exactly when none of its
slots reaches to a sample that is withheld. -/
theorem Kernel.render_seam {kernel : Kernel} {read : Reader} {sample : Nat → Float32}
    {voice : Voice} {stop unwrapped : Nat} (seamed : voice.bounds.Seamed kernel read sample stop)
    (strides : voice.bounds.Strides kernel voice.step.toNat)
    (onSeam : voice.bounds.OnSeam kernel (voice.position + kernel.shift) voice.looped
      (unwrapped + kernel.shift.toNat)) (block : Block) :
    (kernel.render read voice true block).Yields
      (∀ slot < blockSize, ¬ voice.bounds.Overreaches kernel stop
        (unwrapped + slot * voice.step.toNat + kernel.shift.toNat))
      fun rendering => rendering.count = blockSize ∧
        rendering.block.toList = (List.range blockSize).map (fun slot =>
          voice.bounds.seamReference kernel sample (unwrapped + slot * voice.step.toNat)) ∧
        rendering.voice =
          { voice with position := rendering.voice.position, looped := rendering.voice.looped } ∧
        voice.bounds.OnSeam kernel (rendering.voice.position + kernel.shift)
          rendering.voice.looped
          (unwrapped + blockSize * voice.step.toNat + kernel.shift.toNat) := by
  have staged := Scene.staged_staging kernel read sample voice.bounds true voice.step
  have entered := seamed.entered
  have ran := Scene.laps_seam seamed staged rfl strides (Scene.stopsShort_begin onSeam)
  have rendered := render_eq_laps (fun _ => by omega) (fun _ near => seamed.gives_after near)
    (Scene.readHead_eq (fun _ => seamed.before_le) fun distance _ =>
      seamed.gives_before voice.looped distance) block
  have moved : ∀ slots, unwrapped + slots * voice.step.toNat + kernel.shift.toNat =
      unwrapped + kernel.shift.toNat + slots * voice.step.toNat :=
    fun _ => Nat.add_right_comm ..
  have back : ∀ position : Phase, position - kernel.shift + kernel.shift = position :=
    fun _ => Phase.sub_add_cancel_right ..
  simp only [moved]
  rw [rendered]
  apply ran.map
  rintro finish ⟨full, stopsShort⟩
  have size : finish.samples.length = blockSize := stopsShort.length_samples.trans full
  refine ⟨full, ?_, rfl, ?_⟩
  · rw [Block.toList_overwrite block size, stopsShort.samples, full]
    simp only [Bounds.seamReference, moved]
    rfl
  · rw [back, ← full]
    exact stopsShort.onSeam

end Resampler
