import Resampler.Proofs.Acceptance
import Resampler.Proofs.Numeric.Chord
import Resampler.Proofs.Playback

/-!
Contract: what the straight line plays of 16-bit words.

Owns:
- the positions of the slots of a call, each a step after the one before, and back
  by as many loops as it takes when that step came past the end;
- the two words that a slot lies between: that at its index, and the next or the
  one that stands in for it after the last;
- the proof that each slot of a call holds the point of its row between those
  words, and that no operation on the way to it was rounded;
- equal words, which are played as they are;
- the proof that no call is abandoned in accepted bounds.

Nothing is asked of the position or the speed. A step so long that it wraps may lead
from the last sample to one before it. Until the voice is past the last sample again,
it then hears the stand-in in place of the next sample.

Does not own: which calls are abandoned in other bounds, or words with low bytes.
-/

namespace Resampler

open Reading

/-! ## Positions -/

/-- A position, taken back by as many loops as it is past the last index. -/
def Bounds.rewound (bounds : Bounds) (looping : Bool) (position : Phase) : Phase :=
  if looping = true ∧ bounds.final looping < position.index then
    .ofNat (bounds.loopStart.toNat * 2 ^ 32 +
      (position.toNat - bounds.loopStart.toNat * 2 ^ 32) % (bounds.loopSpan * 2 ^ 32))
  else position

namespace Bounds

variable {bounds : Bounds} {looping : Bool} {position : Phase}

theorem rewound_of_le (inside : position.index ≤ bounds.final looping) :
    bounds.rewound looping position = position := by
  rw [rewound, if_neg fun past => Nat.not_lt.2 inside past.2]

theorem rewound_of_lt (past : bounds.final true < position.index) :
    bounds.rewound true position = .ofNat (bounds.loopStart.toNat * 2 ^ 32 +
      (position.toNat - bounds.loopStart.toNat * 2 ^ 32) % (bounds.loopSpan * 2 ^ 32)) := by
  rw [rewound, if_pos ⟨rfl, past⟩]

/-- One loop less is the same position. -/
theorem rewound_sub_ofIndex (entered : 0 < bounds.loopEnd.toNat)
    (ordered : bounds.loopStart.toNat ≤ bounds.loopEnd.toNat)
    (past : bounds.final true < position.index) :
    bounds.rewound true (position - .ofIndex bounds.loopSpan) = bounds.rewound true position := by
  have final : bounds.loopEnd.toNat = bounds.final true + 1 :=
    (Nat.sub_add_cancel entered).symm
  have loop : bounds.loopStart.toNat * 2 ^ 32 + bounds.loopSpan * 2 ^ 32 =
      bounds.loopEnd.toNat * 2 ^ 32 := by
    rw [← Nat.add_mul, loopSpan, Nat.add_sub_of_le ordered]
  have covered : bounds.loopStart.toNat * 2 ^ 32 + bounds.loopSpan * 2 ^ 32 ≤ position.toNat := by
    rw [loop, ← Phase.le_index_iff, final]
    exact past
  have turned : (position - .ofIndex bounds.loopSpan).toNat =
      position.toNat - bounds.loopSpan * 2 ^ 32 :=
    Phase.toNat_sub_ofIndex (Nat.le_of_add_left_le covered)
  have rest : (position.toNat - bounds.loopStart.toNat * 2 ^ 32) % (bounds.loopSpan * 2 ^ 32) =
      ((position - .ofIndex bounds.loopSpan).toNat - bounds.loopStart.toNat * 2 ^ 32) %
        (bounds.loopSpan * 2 ^ 32) := by
    rw [turned, Nat.mod_eq_sub_mod (Nat.le_sub_of_add_le' covered), Nat.sub_right_comm]
  rw [rewound_of_lt past, rest]
  by_cases again : bounds.final true < (position - .ofIndex bounds.loopSpan).index
  · exact rewound_of_lt again
  · have below : (position - .ofIndex bounds.loopSpan).toNat <
        bounds.loopStart.toNat * 2 ^ 32 + bounds.loopSpan * 2 ^ 32 := by
      rw [loop, ← Phase.index_lt_iff, final]
      exact Nat.lt_succ_of_le (Nat.le_of_not_lt again)
    have above : bounds.loopStart.toNat * 2 ^ 32 ≤
        (position - .ofIndex bounds.loopSpan).toNat := turned ▸ Nat.le_sub_of_add_le covered
    rw [rewound_of_le (Nat.le_of_not_lt again),
      Nat.mod_eq_of_lt (Nat.sub_lt_left_of_lt_add above below), Nat.add_sub_of_le above,
      Phase.ofNat_toNat]

end Bounds

namespace Voice

/-- The positions of the slots of a call whose kernel does not round: each is a step after the one
before. -/
def slotPosition (voice : Voice) (looping : Bool) : Nat → Phase
  | 0 => voice.bounds.rewound looping voice.position
  | slot + 1 => voice.bounds.rewound looping (voice.slotPosition looping slot + voice.step)

/-- A step on the way to a slot is too long for the word. -/
def WrapsBefore (voice : Voice) (looping : Bool) (slot : Nat) : Prop :=
  ∃ earlier < slot, 2 ^ 64 ≤ (voice.slotPosition looping earlier).toNat + voice.step.toNat

/-- A slot lies between the sample at its index and that at another: the next or, at the last
sample, its stand-in. -/
inductive Adjoins (voice : Voice) (looping : Bool) (slot : Nat) : Nat → Prop
  | within (before : (voice.slotPosition looping slot).index < voice.bounds.final looping) :
      voice.Adjoins looping slot ((voice.slotPosition looping slot).index + 1)
  | atEnd (last : (voice.slotPosition looping slot).index = voice.bounds.final looping) :
      voice.Adjoins looping slot (voice.bounds.standInAfter looping 0)
  | wrapped (inside : (voice.slotPosition looping slot).index ≤ voice.bounds.final looping)
      (wraps : voice.WrapsBefore looping slot) :
      voice.Adjoins looping slot (voice.bounds.standInAfter looping 0)

structure Between (voice : Voice) (looping : Bool) (words : Array Int16) (slot : Nat)
    (first second : Int16) : Prop where
  first : words[(voice.slotPosition looping slot).index]? = some first
  second : ∃ next, voice.Adjoins looping slot next ∧ words[next]? = some second

/-- A slot holds what the line makes of the sample at its index and the one it adjoins. -/
def Draws (voice : Voice) (read : Reader) (looping : Bool) (slot : Nat) (sample : Float32) : Prop :=
  ∃ first second next, read (voice.slotPosition looping slot).index = .ok first ∧
    voice.Adjoins looping slot next ∧ read next = .ok second ∧
      sample = Kernel.linear.output (voice.slotPosition looping slot).row [first, second]

/-- A course whose slots hold what the line makes of their samples, and that stands where its next
slot belongs, give or take some loops. -/
structure Drawn (voice : Voice) (read : Reader) (looping : Bool) (course : Course) : Prop where
  position : voice.bounds.rewound looping course.position =
    voice.slotPosition looping course.slots.size
  slots : ∀ {slot sample}, course.samples[slot]? = some sample → voice.Draws read looping slot sample

def lineScene (voice : Voice) (read : Reader) (looping : Bool) (endPoint : Float32) : Scene :=
  ⟨.linear, read, voice.bounds, looping, voice.step, voice.bounds.final looping, [endPoint]⟩

variable {voice : Voice} {read : Reader} {looping : Bool} {endPoint : Float32} {head : Head}
  {course start finish : Course} {taps : List Float32} {index : Nat}

/-- The stand-in after the last sample is read before anything else. -/
theorem exists_lineScene_of_prepare {scene : Scene}
    (prepared : Scene.prepare .linear read voice.bounds looping voice.step = .ok scene) :
    ∃ endPoint, read (voice.bounds.standInAfter looping 0) = .ok endPoint ∧
      scene = voice.lineScene read looping endPoint := by
  obtain ⟨tailRead, _⟩ := Scene.readTail_of_prepare prepared
  obtain ⟨tail, rfl⟩ := Scene.exists_of_prepare prepared
  obtain ⟨endPoint, others, same, found, none⟩ :=
    List.map_eq_cons_iff.1 (Checked.mapM_eq_ok_iff.1 tailRead).symm
  obtain rfl := List.map_eq_nil_iff.1 none
  obtain rfl : tail = [endPoint] := same
  refine ⟨endPoint, ?_, rfl⟩
  cases looping with
  | true =>
      obtain ⟨index, sum, found⟩ := Checked.bind_eq_ok_iff.1 found.symm
      obtain ⟨rfl, _⟩ := Index.plus_eq_ok_iff.1 sum
      exact found
  | false => exact found.symm

/-- What the taps of a room are, when they were read: a run from the index on, and the stand-in
where the run is one short. -/
private theorem exists_run_of_taps {ahead : Nat}
    (found : (voice.lineScene read looping endPoint).taps head (.room ahead) index = .ok taps) :
    ∃ samples, (List.range (2 - (1 - ahead))).map (fun distance => read (index + distance)) =
        samples.map .ok ∧
      taps = samples ++ [endPoint].take (1 - ahead) := by
  simp only [Scene.taps, Checked.bind_eq_ok_iff, Checked.pure_eq_ok_iff] at found
  obtain ⟨located, minus, samples, ran, rfl⟩ := found
  obtain rfl : index = located := Index.minus_eq_ok_iff.1 minus
  exact ⟨samples, map_of_readRun ran, rfl⟩

/-- Before the last sample, the taps are the samples at an index and the next. -/
theorem exists_taps_before
    (found : (voice.lineScene read looping endPoint).taps head (.room 1) index = .ok taps) :
    ∃ first second, read index = .ok first ∧ read (index + 1) = .ok second ∧
      taps = [first, second] := by
  obtain ⟨samples, run, rfl⟩ := exists_run_of_taps found
  obtain ⟨first, rest, rfl, firstRead, run⟩ := List.map_eq_cons_iff.1 run.symm
  obtain ⟨second, none, rfl, secondRead, run⟩ := List.map_eq_cons_iff.1 run
  obtain rfl := List.map_eq_nil_iff.1 run
  exact ⟨first, second, firstRead.symm, secondRead.symm, rfl⟩

/-- From there on, the stand-in takes the place of the next. -/
theorem exists_taps_atEnd
    (found : (voice.lineScene read looping endPoint).taps head (.room 0) index = .ok taps) :
    ∃ first, read index = .ok first ∧ taps = [first, endPoint] := by
  obtain ⟨samples, run, rfl⟩ := exists_run_of_taps found
  obtain ⟨first, none, rfl, firstRead, run⟩ := List.map_eq_cons_iff.1 run.symm
  obtain rfl := List.map_eq_nil_iff.1 run
  exact ⟨first, firstRead.symm, rfl⟩

/-! ## Courses -/

theorem drawn_begin : voice.Drawn read looping (.begin voice.position voice.looped) where
  position := rfl
  slots := by
    intro slot sample found
    simp at found

theorem Drawn.position_eq (drawn : voice.Drawn read looping course)
    (inside : course.position.index ≤ voice.bounds.final looping) :
    course.position = voice.slotPosition looping course.slots.size :=
  (Bounds.rewound_of_le inside).symm.trans drawn.position

/-- A slot is filled between the sample at its index and one that it adjoins. -/
theorem Drawn.emit (drawn : voice.Drawn read looping course)
    (inside : course.position.index ≤ voice.bounds.final looping) {first second : Float32}
    {next : Nat} (firstRead : read course.position.index = .ok first)
    (adjoins : voice.Adjoins looping course.slots.size next) (secondRead : read next = .ok second) :
    voice.Drawn read looping
      (course.emit voice.step (Kernel.linear.output course.position.row [first, second])) := by
  have here := drawn.position_eq inside
  have count := course.length_samples
  refine ⟨?_, ?_⟩
  · rw [Course.position_emit, Course.size_emit, slotPosition, here]
  · intro slot sample found
    rw [Course.samples_emit] at found
    rcases Nat.lt_or_ge slot course.samples.length with earlier | latest
    · rw [List.getElem?_append_left earlier] at found
      exact drawn.slots found
    · rw [List.getElem?_append_right latest, List.getElem?_singleton] at found
      split at found
      · obtain rfl := Option.some.inj found
        obtain rfl : slot = course.slots.size := by omega
        exact ⟨first, second, next, here ▸ firstRead, adjoins, secondRead, by rw [here]⟩
      · cases found

/-- The approach fills slots before the last sample. -/
theorem Drawn.approach (drawn : voice.Drawn read looping start)
    (run : (voice.lineScene read looping endPoint).crossAll head Kernel.linear.approach start =
      .ok finish) :
    voice.Drawn read looping finish := by
  apply Scene.crossAll_invariant _ _ run drawn
  intro zone member course taps drawn _ admits found
  obtain rfl : zone = .room 1 := List.mem_singleton.1 member
  have before : course.position.index < voice.bounds.final looping :=
    of_decide_eq_true (Except.ok.inj admits)
  obtain ⟨first, second, firstRead, secondRead, rfl⟩ := exists_taps_before found
  have here := drawn.position_eq before.le
  have adjoins : voice.Adjoins looping course.slots.size (course.position.index + 1) :=
    here ▸ .within (here ▸ before)
  exact drawn.emit before.le firstRead adjoins secondRead

def Passed (voice : Voice) (looping : Bool) (course : Course) : Prop :=
  voice.bounds.final looping ≤ course.position.index ∨
    voice.WrapsBefore looping course.slots.size

theorem Passed.adjoins (passed : voice.Passed looping course)
    (inside : course.position.index ≤ voice.bounds.final looping)
    (here : course.position = voice.slotPosition looping course.slots.size) :
    voice.Adjoins looping course.slots.size (voice.bounds.standInAfter looping 0) := by
  rcases passed with reached | wraps
  · exact .atEnd (here ▸ le_antisymm inside reached)
  · exact .wrapped (here ▸ inside) wraps

theorem Passed.emit (passed : voice.Passed looping course)
    (here : course.position = voice.slotPosition looping course.slots.size) (sample : Float32) :
    voice.Passed looping (course.emit voice.step sample) := by
  rw [Passed, Course.position_emit, Course.size_emit]
  by_cases wraps : 2 ^ 64 ≤ course.position.toNat + voice.step.toNat
  · exact .inr ⟨course.slots.size, Nat.lt_succ_self _, here ▸ wraps⟩
  · rcases passed with reached | ⟨earlier, before, wraps⟩
    · exact .inl (reached.trans (Phase.index_le_index_add (Nat.lt_of_not_le wraps)))
    · exact .inr ⟨earlier, Nat.lt_succ_of_lt before, wraps⟩

/-- A landing begins with the last sample, and stays there unless the position wraps. -/
theorem Drawn.landing (drawn : voice.Drawn read looping start)
    (endRead : read (voice.bounds.standInAfter looping 0) = .ok endPoint)
    (passed : voice.Passed looping start)
    (run : (voice.lineScene read looping endPoint).crossAll head Kernel.linear.landing start =
      .ok finish) :
    voice.Drawn read looping finish := by
  have landed := Scene.crossAll_invariant
    (fun course => voice.Drawn read looping course ∧ voice.Passed looping course) (by
      rintro zone member course taps ⟨drawn, passed⟩ _ admits found
      obtain rfl : zone = .room 0 := List.mem_singleton.1 member
      have inside : course.position.index ≤ voice.bounds.final looping :=
        of_decide_eq_true (Except.ok.inj admits)
      obtain ⟨first, firstRead, rfl⟩ := exists_taps_atEnd found
      have here := drawn.position_eq inside
      exact ⟨drawn.emit inside firstRead (passed.adjoins inside here) endRead,
        passed.emit here _⟩) run ⟨drawn, passed⟩
  exact landed.1

/-- A turn leads to the same slot. -/
theorem Drawn.turn {length : Nat} (drawn : voice.Drawn read looping course)
    (entered : looping = true → 0 < voice.bounds.loopEnd.toNat)
    (mustTurn : (voice.lineScene read looping endPoint).mustTurn course = true)
    (loopLength : voice.bounds.loopLength = .ok length) :
    voice.Drawn read looping (course.turn length) := by
  obtain rfl : looping = true := Scene.looping_of_mustTurn mustTurn
  have past : voice.bounds.final true < course.position.index := of_decide_eq_true mustTurn
  have sum := Index.minus_eq_ok_iff.1 loopLength
  obtain rfl : length = voice.bounds.loopSpan := Bounds.eq_loopSpan_of_loopLength loopLength
  have ordered : voice.bounds.loopStart.toNat ≤ voice.bounds.loopEnd.toNat :=
    sum ▸ Nat.le_add_left _ _
  refine ⟨?_, drawn.slots⟩
  rw [Course.position_turn, Bounds.rewound_sub_ofIndex (entered rfl) ordered past]
  exact drawn.position

/-- A lap fills its slots between samples, on its approach and in its landing. -/
theorem Drawn.lap {next : Lap} (drawn : voice.Drawn read looping start)
    (entered : looping = true → 0 < voice.bounds.loopEnd.toNat)
    (endRead : read (voice.bounds.standInAfter looping 0) = .ok endPoint)
    (ran : (voice.lineScene read looping endPoint).lap head start = .ok next) :
    voice.Drawn read looping next.course := by
  refine Scene.lap_keeps (voice.Drawn read looping) drawn.approach ?_
    (fun course length drawn mustTurn loopLength => drawn.turn entered mustTurn loopLength) ran
  intro approached landed approaches left lands
  have crossed : (voice.lineScene read looping endPoint).cross head start (.room 1) =
      .ok approached := by
    simpa [Scene.crossAll, Kernel.approach, lineScene] using approaches
  have outside := (Scene.left_eq_zero_or_of_cross crossed).resolve_left left.ne'
  have passed : voice.bounds.final looping ≤ approached.position.index :=
    Nat.le_of_not_lt (of_decide_eq_false (Except.ok.inj outside))
  exact (drawn.approach approaches).landing endRead (.inl passed) lands

/-- A call that is not abandoned fills its slots so. -/
theorem course_drawn (ran : Kernel.linear.course read voice looping = .ok course) :
    voice.Drawn read looping course := by
  simp only [Kernel.course, Checked.bind_eq_ok_iff] at ran
  obtain ⟨scene, prepared, head, _, ran⟩ := ran
  obtain ⟨_, entered⟩ := Scene.readTail_of_prepare prepared
  obtain ⟨endPoint, endRead, rfl⟩ := exists_lineScene_of_prepare prepared
  rw [Kernel.shift, Phase.add_zero] at ran
  exact Scene.laps_keep (voice.Drawn read looping)
    (fun ran drawn => drawn.lap entered endRead ran) ran drawn_begin

end Voice

/-! ## Accepted bounds -/

section Accepted

variable {data : SampleData} {voice : Voice} {looping : Bool}

theorem Bounds.gives_of_accepted {bounds : Bounds}
    (accepted : bounds.validate data.size looping .linear = .ok (.ok ())) {index : Nat}
    (inside : index ≤ bounds.final looping) : data.read.Gives data.sample index := by
  obtain ⟨region, loop⟩ := Bounds.validate_eq_ok_iff.1 accepted
  have lastInWord := bounds.last.toNat_lt
  have endInWord := bounds.loopEnd.toNat_lt
  cases looping with
  | true =>
      have long := (loop rfl).long
      have inData := (loop rfl).inside
      have inside : index ≤ bounds.loopEnd.toNat - 1 := inside
      exact SampleData.gives (show index < 2 ^ 32 by omega) (by omega)
  | false =>
      have inside : index ≤ bounds.last.toNat := inside
      exact SampleData.gives (show index < 2 ^ 32 by omega) (inside.trans_lt region.inside)

theorem Bounds.standInAfter_le_of_accepted {bounds : Bounds} {size : Nat}
    (accepted : bounds.validate size looping .linear = .ok (.ok ())) :
    bounds.standInAfter looping 0 ≤ bounds.final looping := by
  cases looping with
  | true =>
      have long := ((Bounds.validate_eq_ok_iff.1 accepted).2 rfl).long
      show bounds.loopStart.toNat + 0 ≤ bounds.loopEnd.toNat - 1
      omega
  | false => exact Nat.le_refl _

/-- Within accepted bounds, both zones can be crossed from everywhere. -/
theorem answers_of_accepted
    (accepted : voice.bounds.validate data.size looping .linear = .ok (.ok ())) (head : Head) :
    (Scene.staging .linear data.read data.sample voice.bounds looping voice.step).Answers head
      Kernel.linear.zones := by
  intro zone member index
  have near := Kernel.near_of_mem_zones member
  cases zone with
  | head past => exact absurd near (Nat.not_lt_zero past)
  | room ahead =>
      have near : ahead ≤ 1 := near
      refine ⟨_, Zone.admits_eq (fun _ other => nomatch other) ?_, ?_⟩
      · rintro _ ⟨⟩ several
        omega
      intro within
      have inside : index + ahead ≤ voice.bounds.final looping := of_decide_eq_true within
      refine ⟨_, @Scene.taps_room_eq _ _ false (Scene.staged_staging ..) _ _ _ (Nat.zero_le _) ?_⟩
      intro stored member
      apply Bounds.gives_of_accepted accepted
      simp only [Scene.readsIn, List.mem_append, List.mem_map, List.mem_range] at member
      rcases member with ⟨distance, close, rfl⟩ | ⟨distance, missing, rfl⟩
      · have close : distance < 2 - (1 - ahead) := close
        show index - 0 + distance ≤ _
        omega
      · have missing : distance < 1 - ahead := missing
        obtain rfl : distance = 0 := by omega
        exact Bounds.standInAfter_le_of_accepted accepted

/-- In accepted bounds a voice is rendered wherever it stands, at any speed. -/
theorem Kernel.exists_rendering (block : Block)
    (accepted : voice.bounds.validate data.size looping .linear = .ok (.ok ())) :
    ∃ rendering, linear.render data.read voice looping block = .ok rendering := by
  have ordered : looping = true → voice.bounds.loopStart.toNat < voice.bounds.loopEnd.toNat :=
    fun loops => Nat.lt_of_add_right_lt ((Bounds.validate_eq_ok_iff.1 accepted).2 loops).long
  have endGiven : ∀ distance < linear.after,
      data.read.Gives data.sample (voice.bounds.standInAfter looping distance) := by
    intro distance near
    obtain rfl : distance = 0 := Nat.lt_one_iff.1 near
    exact Bounds.gives_of_accepted accepted (Bounds.standInAfter_le_of_accepted accepted)
  obtain ⟨finish, ran⟩ := @Scene.exists_laps
    (Scene.staging .linear data.read data.sample voice.bounds looping voice.step) rfl ordered
    (fun _ => ⟨_, rfl⟩) (answers_of_accepted accepted)
    (Scene.headOf .linear data.sample voice.bounds voice.looped)
    (.begin (voice.position + linear.shift) voice.looped)
  exact ⟨_, render_eq (fun loops => Nat.zero_lt_of_lt (ordered loops)) endGiven rfl ran block⟩

end Accepted

/-! ## Words -/

theorem SampleData.exists_word_of_read {words : Array Int16} {index : Nat} {sample : Float32}
    (found : (ofWords words).read index = .ok sample) :
    ∃ word, words[index]? = some word ∧ sample = .ofInt word.toInt := by
  rw [read, integer?_ofWords] at found
  cases stored : words[index]? with
  | none =>
      rw [stored] at found
      cases found
  | some word =>
      rw [stored] at found
      exact ⟨word, rfl, (Except.ok.inj found).symm⟩

/-- A slot lies between two words, and holds the point of its row on the line between them. -/
structure Rendering.Interpolates (rendering : Rendering) (voice : Voice) (looping : Bool)
    (words : Array Int16) (slot : Nat) (isSlot : slot < blockSize) (first second : Int16) :
    Prop where
  between : voice.Between looping words slot first second
  written : rendering.block[slot] =
    Weights.weigh (Weights.linearTable.get (voice.slotPosition looping slot).row)
      [.ofInt first.toInt, .ofInt second.toInt]
  reads : ofSingle rendering.block[slot] =
    .number (Weights.chord (voice.slotPosition looping slot).row first.toInt second.toInt)
  noLess : ((min first.toInt second.toInt : Int) : ℚ) ≤
    Weights.chord (voice.slotPosition looping slot).row first.toInt second.toInt
  noMore : Weights.chord (voice.slotPosition looping slot).row first.toInt second.toInt ≤
    ((max first.toInt second.toInt : Int) : ℚ)

namespace Kernel

variable {words : Array Int16} {voice : Voice} {looping : Bool} {block : Block}
  {rendering : Rendering} {slot : Nat}

theorem exists_interpolates
    (rendered : linear.render (SampleData.ofWords words).read voice looping block = .ok rendering)
    (isSlot : slot < blockSize) (written : slot < rendering.count) :
    ∃ first second, rendering.Interpolates voice looping words slot isSlot first second := by
  obtain ⟨course, ran, rfl⟩ := render_eq_ok_iff.1 rendered
  have written : slot < course.samples.length := course.length_samples ▸ written
  obtain ⟨_, _, next, firstRead, adjoins, secondRead, drawn⟩ :=
    (Voice.course_drawn ran).slots (List.getElem?_eq_getElem written)
  obtain ⟨first, firstFound, rfl⟩ := SampleData.exists_word_of_read firstRead
  obtain ⟨second, secondFound, rfl⟩ := SampleData.exists_word_of_read secondRead
  obtain ⟨near, far, exact⟩ := Weights.exists_exact (voice.slotPosition looping slot).row
    (abs_toInt_le first) (abs_toInt_le second)
  have holds : (block.overwrite course.samples)[slot] =
      Weights.weigh (Weights.linearTable.get (voice.slotPosition looping slot).row)
        [.ofInt first.toInt, .ofInt second.toInt] :=
    (Block.getElem_overwrite_of_lt _ _ isSlot written).trans drawn
  exact ⟨first, second, ⟨firstFound, next, adjoins, secondFound⟩, holds,
    (congrArg ofSingle holds).trans exact.ofSingle_weigh, Weights.min_le_chord ..,
    Weights.chord_le_max ..⟩

/-- The straight line between words is exact. Whatever the row and the words, its weights, its
products, and their sum are numbers of 256ths that a single represents. So each slot of any call
that is not abandoned holds the point of its row between its two words, which it does not leave,
and words that are all the same are played as they are. In accepted bounds no call is abandoned. -/
theorem render_linear_exact (words : Array Int16) :
    (∀ row (first second : Int16),
      ∃ near far, Weights.Exact row first.toInt second.toInt near far) ∧
    ∀ voice looping block,
      (voice.bounds.validate words.size looping .linear = .ok (.ok ()) →
        ∃ rendering,
          linear.render (SampleData.ofWords words).read voice looping block = .ok rendering) ∧
      ∀ rendering,
        linear.render (SampleData.ofWords words).read voice looping block = .ok rendering →
          (∀ slot (isSlot : slot < blockSize), slot < rendering.count →
            ∃ first second, rendering.Interpolates voice looping words slot isSlot first second) ∧
          ∀ level, (∀ word ∈ words, word = level) →
            ∀ slot (isSlot : slot < blockSize), slot < rendering.count →
              rendering.block[slot] = .ofInt level.toInt := by
  refine ⟨fun row first second =>
    Weights.exists_exact row (abs_toInt_le first) (abs_toInt_le second), ?_⟩
  intro voice looping block
  refine ⟨fun accepted => @exists_rendering (.ofWords words) voice looping block accepted, ?_⟩
  intro rendering rendered
  refine ⟨fun slot isSlot written => exists_interpolates rendered isSlot written, ?_⟩
  intro level flat slot isSlot written
  obtain ⟨first, second, interpolates⟩ := exists_interpolates rendered isSlot written
  obtain ⟨next, _, secondFound⟩ := interpolates.between.second
  obtain rfl : first = level := flat _ (Array.mem_of_getElem? interpolates.between.first)
  obtain rfl : second = first := flat _ (Array.mem_of_getElem? secondFound)
  rw [interpolates.written, Weights.weigh_linear_self (abs_toInt_le second)]

/-- A loop of the least and the greatest word, and one of the least alone, with a seam in every
third step. -/
theorem render_linear_exact_seam :
    (∃ rendering,
      linear.render (SampleData.ofWords #[-32768, 32767]).read
        (Voice.make ⟨0, 1, 0, 2⟩ ⟨.linear, 0.75⟩) true (.filled 0) = .ok rendering ∧
      ∀ slot (isSlot : slot < blockSize), slot < rendering.count →
        ∃ first second, rendering.Interpolates (Voice.make ⟨0, 1, 0, 2⟩ ⟨.linear, 0.75⟩) true
          #[-32768, 32767] slot isSlot first second) ∧
    ∃ rendering,
      linear.render (SampleData.ofWords #[-32768, -32768]).read
        (Voice.make ⟨0, 1, 0, 2⟩ ⟨.linear, 0.75⟩) true (.filled 0) = .ok rendering ∧
      ∀ slot (isSlot : slot < blockSize), slot < rendering.count →
        rendering.block[slot] = .ofInt (-32768) := by
  have steep := (render_linear_exact #[-32768, 32767]).2
    (Voice.make ⟨0, 1, 0, 2⟩ ⟨.linear, 0.75⟩) true (.filled 0)
  have flat := (render_linear_exact #[-32768, -32768]).2
    (Voice.make ⟨0, 1, 0, 2⟩ ⟨.linear, 0.75⟩) true (.filled 0)
  obtain ⟨rendering, rendered⟩ := steep.1 (by decide)
  obtain ⟨flatRendering, flatRendered⟩ := flat.1 (by decide)
  exact ⟨⟨rendering, rendered, (steep.2 rendering rendered).1⟩, flatRendering, flatRendered,
    (flat.2 flatRendering flatRendered).2 (-32768) (by simp)⟩

end Kernel

end Resampler
