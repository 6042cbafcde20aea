import Resampler.Proofs.Acceptance
import Resampler.Proofs.Playback
import Resampler.Proofs.Reference
import Resampler.Proofs.Scene.Safety
import Resampler.Proofs.Session

/-!
Contract: sessions in which kernels take a voice over from one another.

Owns:
- the positions at which a render call of any kernel leaves a voice, and the
  one place among them where a kernel that truncates finds no head;
- the proof that the cubic kernel faults there when the loop begins at one of
  the first two samples, and that nothing else ever faults;
- sessions of any actions.

A voice that turns back by its nearest sample may come to stand half a sample
before the loop. A kernel that truncates positions does not turn there itself,
and has no zone for it.

Does not own: what is played after a takeover.
-/

namespace Resampler

/-- One past the last sample of the region and of the loop. -/
def Bounds.extent (bounds : Bounds) : Nat := max (bounds.last.toNat + 1) bounds.loopEnd.toNat

/-- A step that leaves every position in the lower half of the word. -/
def Bounds.Paces (bounds : Bounds) (step : Phase) : Prop :=
  bounds.extent * 2 ^ 32 + step.toNat < 2 ^ 63

instance (bounds : Bounds) (step : Phase) : Decidable (bounds.Paces step) :=
  inferInstanceAs (Decidable (_ < _))

/-- Where a render call leaves a voice: by its nearest sample in the region or
the loop, or after it by no more than a step. -/
structure Bounds.Rests (bounds : Bounds) (position : Phase) (looped : Bool) : Prop where
  fresh : looped = false → bounds.start.toNat * 2 ^ 32 + 2 ^ 31 ≤ (position + .half).toNat
  turned : looped = true → bounds.loopStart.toNat * 2 ^ 32 ≤ (position + .half).toNat
  near : (position + .half).toNat < 2 ^ 63 + 2 ^ 31

/-- A voice that has turned back and stands on the sample before the loop, or
as a word has it, before the first sample of all. -/
def Voice.Early (voice : Voice) : Prop :=
  voice.looped = true ∧ (voice.position.index + 1) % 2 ^ 32 = voice.bounds.loopStart.toNat

instance (voice : Voice) : Decidable voice.Early :=
  inferInstanceAs (Decidable (_ ∧ _))

/-- A voice that stands early and is to be played by the cubic, while there is
no sample to take for the tap before it. -/
def Voice.Stranded (voice : Voice) : Prop :=
  voice.method = .fourthOrder ∧ voice.Early ∧ voice.bounds.loopStart.toNat ≤ 1

instance (voice : Voice) : Decidable voice.Stranded :=
  inferInstanceAs (Decidable (_ ∧ _))

/-- Before its first turn a voice does not rest half a sample before its region. -/
theorem Bounds.Rests.started {bounds : Bounds} {position : Phase} {looped : Bool}
    (rests : bounds.Rests position looped) (fresh : looped = false) :
    bounds.start.toNat * 2 ^ 32 ≤ position.toNat := by
  have rounded := position.toNat_add_half
  have inWord := position.toNat_lt
  have rests := rests.fresh fresh
  apply Nat.le_of_lt_succ
  omega

/-- A voice that is not stranded rests on its region or loop, or on a sample that has
another before it. -/
theorem Voice.clears (voice : Voice) (rests : voice.bounds.Rests voice.position voice.looped)
    (clear : voice.Early → 2 ≤ voice.bounds.loopStart.toNat) :
    voice.position.toNat < 2 ^ 63 ∧
      (voice.bounds.entry voice.looped ≤ voice.position.index ∨ 1 ≤ voice.position.index) := by
  have near := rests.near
  have rounded := voice.position.toNat_add_half
  have inWord := voice.position.toNat_lt
  cases history : voice.looped with
  | false =>
      have started := rests.started history
      have fresh := rests.fresh history
      exact ⟨by omega, .inl (Phase.le_index_iff.2 started)⟩
  | true =>
      have turned := rests.turned history
      by_cases early : voice.Early
      -- Half a sample before the first index there is no word to form sums in.
      · have clear := clear early
        obtain ⟨_, early⟩ := early
        unfold Phase.index at early ⊢
        omega
      · have late : (voice.position.index + 1) % 2 ^ 32 ≠ voice.bounds.loopStart.toNat :=
          fun same => early ⟨history, same⟩
        simp only [Bounds.entry, if_true]
        unfold Phase.index at late ⊢
        omega

/-- A call of the cubic faults when it begins between its head and all samples
that have their taps. -/
private theorem Scene.not_laps_of_no_room {scene : Scene} {head : Head} {course finish : Course}
    (cubic : scene.kernel = .fourthOrder) (some : 0 < course.left)
    (outside : head.first ≠ course.position.index)
    (noRoom : Index.bound ≤ course.position.index + 2 ∨
      course.position.index = 0 ∧ 2 ≤ scene.last)
    (ran : scene.laps head course = .ok finish) : False := by
  rw [laps, cubic] at ran
  simp only [Kernel.approach, crossAll, List.foldlM_cons, List.foldlM_nil, cross,
    Checked.bind_eq_ok_iff] at ran
  obtain ⟨_, ⟨between, heads, _, rooms, _⟩, _⟩ := ran
  obtain ⟨slots, left⟩ : ∃ slots, course.left = slots + 1 := Nat.exists_eq_add_one.2 some
  have stays : between = course := by
    rw [left, crossWithin] at heads
    simp only [Zone.admits, Checked.bind_eq_ok_iff, Checked.pure_eq_ok_iff,
      Index.plus_eq_ok_iff] at heads
    obtain ⟨admitted, ⟨sum, ⟨rfl, _⟩, rfl⟩, heads⟩ := heads
    rw [if_neg (by simpa using outside.symm)] at heads
    exact (Checked.pure_eq_ok_iff.1 heads).symm
  rw [stays, left, crossWithin] at rooms
  simp only [Zone.admits, Checked.bind_eq_ok_iff, Checked.pure_eq_ok_iff,
    Index.plus_eq_ok_iff] at rooms
  obtain ⟨admitted, ⟨sum, ⟨rfl, fits⟩, rfl⟩, rooms⟩ := rooms
  rcases noRoom with exceeds | ⟨zero, room⟩
  · omega
  · rw [if_pos (by simpa [zero] using room)] at rooms
    simp only [taps, cubic, Kernel.before, zero, Checked.bind_eq_ok_iff,
      Index.minus_eq_ok_iff] at rooms
    obtain ⟨_, ⟨_, below, _⟩, _⟩ := rooms
    omega

namespace Kernel

variable {kernel : Kernel} {read : Reader} {sample : Nat → Float32} {voice : Voice}
  {looping : Bool} {extent : Nat}

private theorem begin_steers_of_rounds (shift : kernel.shift = .half)
    (rests : voice.bounds.Rests voice.position voice.looped) :
    (Scene.staging kernel read sample voice.bounds looping voice.step).Steers
      (.begin (voice.position + kernel.shift) voice.looped)
      (.begin (voice.position + kernel.shift) voice.looped) where
  placed := by
    left
    apply Phase.le_index_iff.2
    simp only [Scene.staging, Course.begin, shift, Bounds.entry]
    cases history : voice.looped with
    | false => exact Nat.le_trans (Nat.le_add_right _ _) (rests.fresh history)
    | true => exact rests.turned history
  fresh := by
    intro fresh
    simp only [Scene.staging, Course.begin, shift] at fresh ⊢
    exact rests.fresh fresh
  turned := by
    intro turned
    simp only [Scene.staging, Course.begin, shift] at turned ⊢
    exact Nat.add_le_add_right (rests.turned turned) _
  fits := by
    intro _
    simp only [Course.begin, shift]
    exact rests.near
  moved := by
    intro some
    simp [Course.begin] at some
  idle := fun _ _ => ⟨rfl, rfl⟩

private theorem begin_steers_of_truncates (shift : kernel.shift = .zero)
    (truncates : kernel = .linear ∨ kernel = .fourthOrder)
    (rests : voice.bounds.Rests voice.position voice.looped)
    (clear : kernel = .fourthOrder → voice.Early → 2 ≤ voice.bounds.loopStart.toNat) :
    (Scene.staging kernel read sample voice.bounds looping voice.step).Steers
      (.begin (voice.position + kernel.shift) voice.looped)
      (.begin (voice.position + kernel.shift) voice.looped) := by
  have start : voice.position + kernel.shift = voice.position := by rw [shift, Phase.add_zero]
  rw [start]
  refine ⟨?_, ?_, ?_, ?_, ?_, fun _ _ => ⟨rfl, rfl⟩⟩
  · rcases truncates with rfl | rfl
    · exact .inr (Nat.zero_le _)
    · exact (voice.clears rests (clear rfl)).2
  · intro history
    simp only [Scene.staging, Course.begin, shift, Phase.toNat_zero, Nat.add_zero] at history ⊢
    exact rests.started history
  · intro history
    simp only [Scene.staging, Course.begin, shift, Phase.toNat_zero, Nat.add_zero] at history ⊢
    have rounded := voice.position.toNat_add_half
    have below := Nat.mod_le (voice.position.toNat + 2 ^ 31) (2 ^ 64)
    rw [← rounded] at below
    exact Nat.le_trans (rests.turned history) below
  · intro many
    rcases truncates with rfl | rfl
    · have many : 2 ≤ linear.after := many
      exact absurd many (by decide)
    · exact Nat.lt_of_lt_of_le (voice.clears rests (clear rfl)).1 (by decide)
  · intro some
    simp [Course.begin] at some

/-- Every kernel can begin where a render call has left a voice, unless it is
stranded. -/
theorem begin_steers (rests : voice.bounds.Rests voice.position voice.looped)
    (clear : kernel = .fourthOrder → voice.Early → 2 ≤ voice.bounds.loopStart.toNat) :
    (Scene.staging kernel read sample voice.bounds looping voice.step).Steers
      (.begin (voice.position + kernel.shift) voice.looped)
      (.begin (voice.position + kernel.shift) voice.looped) := by
  rcases kernel.shift_eq with shift | ⟨shift, truncates⟩
  · exact begin_steers_of_rounds shift rests
  · exact begin_steers_of_truncates shift truncates rests clear

/-- A course that has filled a slot leaves a voice where any kernel can begin. -/
private theorem rests_of_steers {step : Phase} {origin course : Course}
    (steers : (Scene.staging kernel read sample voice.bounds looping step).Steers origin course)
    (some : 0 < course.slots.size) :
    voice.bounds.Rests (course.position - kernel.shift) course.looped := by
  obtain ⟨_, fresh, turned, _, moved, _⟩ := steers
  simp only [Scene.staging] at fresh turned
  have moved := moved some
  rcases kernel.shift_eq with shift | ⟨shift, _⟩
  · rw [shift] at fresh turned ⊢
    refine ⟨?_, ?_, ?_⟩
    · rw [Phase.sub_add_cancel_right]
      exact fresh
    · rw [Phase.sub_add_cancel_right]
      exact fun history => Nat.le_of_add_le_add_right (turned history)
    · rw [Phase.sub_add_cancel_right]
      exact Nat.lt_of_lt_of_le moved (by decide)
  · rw [shift] at fresh turned ⊢
    have sum : (course.position + .half).toNat = course.position.toNat + 2 ^ 31 := by
      apply Phase.toNat_add_of_lt
      exact Nat.lt_of_lt_of_le (Nat.add_lt_add_right moved _) (by decide)
    rw [Phase.toNat_zero, Nat.add_zero] at fresh turned
    refine ⟨?_, ?_, ?_⟩
    · rw [Phase.sub_zero, sum]
      exact fun history => Nat.add_le_add_right (fresh history) _
    · rw [Phase.sub_zero, sum]
      exact turned
    · rw [Phase.sub_zero, sum]
      exact Nat.add_lt_add_right moved _

/-- A render call under an invariant of its courses. -/
theorem render_sustained {Invariant : Course → Prop}
    (stocked : voice.bounds.Stocked kernel read sample looping extent)
    (sustains : (Scene.staging kernel read sample voice.bounds looping voice.step).Sustains sample
      (fun _ => 0) Invariant)
    (turns : ∀ {course}, Invariant course →
      (Scene.staging kernel read sample voice.bounds looping voice.step).mustTurn course = true →
        Invariant (course.turn voice.bounds.loopSpan))
    (holds : Invariant (.begin (voice.position + kernel.shift) voice.looped)) (block : Block) :
    ∃ finish : Course, kernel.render read voice looping block = .ok {
        count := finish.slots.size
        block := block.overwrite finish.samples
        voice := { voice with position := finish.position - kernel.shift, looped := finish.looped } } ∧
      Invariant finish ∧ (looping = true → 0 < finish.slots.size) := by
  have ordered := stocked.ordered
  have staged := Scene.staged_staging kernel read sample voice.bounds looping voice.step
  obtain ⟨finish, ran, after, ending⟩ :=
    Scene.laps_total staged sustains (fun _ => ordered) turns holds
  have rendered := render_eq (fun _ => Nat.zero_lt_of_lt ordered)
    (fun distance near => stocked.gives_after near)
    (Scene.readHead_of_stocked stocked voice.looped) ran block
  refine ⟨finish, rendered, after, ?_⟩
  intro loops
  apply Nat.pos_of_ne_zero
  intro none
  rcases ending with full | ⟨notLooping, _⟩
  · have full : blockSize - finish.slots.size = 0 := full
    rw [none] at full
    exact absurd full (by decide)
  · exact absurd (notLooping.symm.trans loops) Bool.false_ne_true

/-- Any kernel plays on from where a render call has left a voice, unless it is
stranded, and leaves it in such a place again. -/
theorem render_rests (stocked : voice.bounds.Stocked kernel read sample looping extent)
    (paced : extent * 2 ^ 32 + voice.step.toNat < 2 ^ 63)
    (rests : voice.bounds.Rests voice.position voice.looped)
    (clear : kernel = .fourthOrder → voice.Early → 2 ≤ voice.bounds.loopStart.toNat)
    (block : Block) :
    ∃ rendering, kernel.render read voice looping block = .ok rendering ∧
      rendering.voice =
        { voice with position := rendering.voice.position, looped := rendering.voice.looped } ∧
      voice.bounds.Rests rendering.voice.position rendering.voice.looped := by
  have staged := Scene.staged_staging kernel read sample voice.bounds looping voice.step
  obtain ⟨finish, rendered, after, filled⟩ :=
    render_sustained stocked (Scene.sustains_of_stocked staged stocked paced)
      (fun steers mustTurn => steers.turn staged stocked mustTurn) (begin_steers rests clear) block
  refine ⟨_, rendered, rfl, ?_⟩
  show voice.bounds.Rests (finish.position - kernel.shift) finish.looped
  by_cases some : 0 < finish.slots.size
  · exact rests_of_steers after some
  · have notLooping : looping = false := Bool.eq_false_iff.2 fun loops => some (filled loops)
    obtain ⟨same, history⟩ := after.idle (Nat.eq_zero_of_not_pos some) notLooping
    rw [same, history]
    simp only [Course.begin, Phase.add_sub_cancel_right]
    exact rests

/-- The cubic faults at once when it is stranded: there is no room to look two
samples ahead of the last word, or no sample before the first. -/
theorem not_render_of_stranded
    (stocked : voice.bounds.Stocked fourthOrder read sample looping extent)
    (far : 2 ≤ voice.bounds.final looping) (early : voice.Early)
    (first : voice.bounds.loopStart.toNat ≤ 1) (block : Block) :
    ¬ ∃ rendering, fourthOrder.render read voice looping block = .ok rendering := by
  rintro ⟨rendering, rendered⟩
  obtain ⟨turned, early⟩ := early
  have inWord := voice.position.index_lt
  have ordered := stocked.ordered
  have prepared := @Scene.prepare_eq _ _ _ _ _ voice.step (fun _ => Nat.zero_lt_of_lt ordered)
    (fun distance near => stocked.gives_after near)
  simp only [render, course, prepared, Checked.bind_eq_ok_iff, Except.ok.injEq] at rendered
  obtain ⟨_, ⟨_, rfl, head, headRead, ran⟩, _⟩ := rendered
  have first_eq : head.first = voice.bounds.loopStart.toNat := by
    rw [Scene.first_of_readHead headRead, turned]
    rfl
  have some : 0 < (Course.begin (voice.position + fourthOrder.shift) voice.looped).left :=
    show 0 < blockSize by decide
  apply Scene.not_laps_of_no_room rfl some _ _ ran
  · rw [first_eq]
    show voice.bounds.loopStart.toNat ≠ (voice.position + .zero).index
    rw [Phase.add_zero]
    omega
  · show 2 ^ 32 ≤ (voice.position + .zero).index + 2 ∨
      (voice.position + .zero).index = 0 ∧ 2 ≤ voice.bounds.final looping
    rw [Phase.add_zero]
    omega

end Kernel

namespace Voice

variable {data : SampleData} {voice : Voice}

/-- A voice as sessions leave it: its method was accepted, its step keeps it in
the lower half of the word, and a kernel left it where it is. -/
structure Ready (data : SampleData) (voice : Voice) : Prop where
  accepted : voice.validate data true = .ok (.ok ())
  paced : voice.bounds.Paces voice.step
  rests : voice.bounds.Rests voice.position voice.looped

/-- What a kernel with no more taps than an accepted method may read is stored. -/
theorem stocked_of_validate {kernel : Kernel} (accepted : voice.validate data true = .ok (.ok ()))
    (shorter : kernel.span ≤ voice.method.span) (looping : Bool) :
    voice.bounds.Stocked kernel data.read data.sample looping voice.bounds.extent := by
  obtain ⟨region, loop⟩ := Bounds.validate_eq_ok_iff.1 accepted
  have loop := loop rfl
  have regionLong := (region.mono shorter).long
  have loopLong := (loop.mono shorter).long
  refine ⟨loopLong, Nat.le_max_right _ _, ?_, ?_, ?_⟩
  · exact Nat.lt_of_lt_of_le (Nat.lt_succ_of_le regionLong) (Nat.le_max_left _ _)
  · unfold Bounds.final Bounds.extent
    split <;> omega
  intro index below
  have lastInside := region.inside
  have endInside := loop.inside
  have lastInWord := voice.bounds.last.toNat_lt
  have endInWord := voice.bounds.loopEnd.toNat_lt
  unfold Bounds.extent at below
  apply SampleData.gives
  · show index < 2 ^ 32
    omega
  · omega

/-- The start of the region is a place to begin at. -/
private theorem rests_of_start {bounds : Bounds} {step : Phase}
    (ordered : bounds.start.toNat ≤ bounds.last.toNat) (paced : bounds.Paces step) :
    bounds.Rests (.ofIndex bounds.start.toNat) false := by
  have sum : (Phase.ofIndex bounds.start.toNat + .half).toNat =
      bounds.start.toNat * 2 ^ 32 + 2 ^ 31 :=
    Phase.toNat_ofIndex_add bounds.start.toNat_lt (by decide)
  have inside : (bounds.start.toNat + 1) * 2 ^ 32 ≤ bounds.extent * 2 ^ 32 := by
    apply Nat.mul_le_mul_right
    unfold Bounds.extent
    omega
  unfold Bounds.Paces at paced
  refine ⟨fun _ => Nat.le_of_eq sum.symm, fun turned => absurd turned Bool.false_ne_true, ?_⟩
  rw [sum]
  apply Nat.lt_of_not_le
  intro beyond
  omega

theorem Ready.make {bounds : Bounds} {settings : Settings}
    (accepted : bounds.validate data.size true settings.method = .ok (.ok ()))
    (paced : bounds.Paces (.ofSpeed settings.speed)) :
    (make bounds settings).Ready data where
  accepted := accepted
  paced := paced
  rests := rests_of_start
    (Nat.le_of_add_right_le (Bounds.validate_eq_ok_iff.1 accepted).1.long) paced

theorem Ready.move (ready : voice.Ready data) {position : Phase} {looped : Bool}
    (rests : voice.bounds.Rests position looped) :
    ({ voice with position, looped } : Voice).Ready data :=
  ⟨ready.accepted, ready.paced, rests⟩

/-- A voice stays ready when what is set is accepted as well. -/
theorem Ready.adjust (ready : voice.Ready data) {adjustment : Adjustment}
    (accepted : ∀ method ∈ (Action.adjust adjustment).methods,
      voice.bounds.validate data.size true method = .ok (.ok ()))
    (paced : ∀ speed ∈ (Action.adjust adjustment).speeds, voice.bounds.Paces (.ofSpeed speed)) :
    (voice.adjust adjustment).Ready data := by
  cases adjustment with
  | speed speed => exact ⟨ready.accepted, paced speed (by simp [Action.speeds]), ready.rests⟩
  | method method => exact ⟨accepted method (by simp [Action.methods]), ready.paced, ready.rests⟩
  | settings settings =>
      exact ⟨accepted settings.method (by simp [Action.methods]),
        paced settings.speed (by simp [Action.speeds]), ready.rests⟩
  | restart =>
      have restarted : voice.adjust .restart =
          { voice with position := .ofIndex voice.bounds.start.toNat, looped := false } := rfl
      rw [restarted]
      exact ready.move (rests_of_start
        (Nat.le_of_add_right_le (Bounds.validate_eq_ok_iff.1 ready.accepted).1.long) ready.paced)

/-- A ready voice renders a block, and is ready again, unless it is to be heard
and is stranded. -/
theorem Ready.render (ready : voice.Ready data) {audible : Bool}
    (clear : audible = true → ¬ voice.Stranded) (looping : Bool) (block : Block) :
    ∃ rendering, voice.render data audible looping block = .ok rendering ∧
      rendering.voice.bounds = voice.bounds ∧ rendering.voice.Ready data := by
  have isCubic : voice.kernel audible = .fourthOrder →
      audible = true ∧ voice.method = .fourthOrder := by
    cases audible with
    | true => cases method : voice.method <;> simp [Voice.kernel, Method.kernel, method]
    | false => simp [Voice.kernel]
  obtain ⟨rendering, rendered, same, rests⟩ :=
    Kernel.render_rests (stocked_of_validate ready.accepted (voice.span_kernel_le audible) looping)
      ready.paced ready.rests (by
      intro cubic early
      obtain ⟨heard, method⟩ := isCubic cubic
      by_contra first
      exact clear heard ⟨method, early, by omega⟩) block
  refine ⟨rendering, (render_eq_kernel ..).trans rendered, ?_, ?_⟩
  · rw [same]
  · rw [same]
    exact ready.move rests

theorem Ready.not_render (ready : voice.Ready data) (stranded : voice.Stranded) {looping : Bool}
    {block : Block} : ¬ ∃ rendering, voice.render data true looping block = .ok rendering := by
  obtain ⟨method, early, first⟩ := stranded
  have stocked := @stocked_of_validate data voice .fourthOrder ready.accepted
    (by rw [method]; exact Nat.le_refl _) looping
  have far : 2 ≤ voice.bounds.final looping := by
    obtain ⟨region, loop⟩ := Bounds.validate_eq_ok_iff.1 ready.accepted
    have regionLong := region.long
    have loopLong := (loop rfl).long
    rw [method] at regionLong loopLong
    have span : Method.fourthOrder.span = 2 := rfl
    unfold Bounds.final
    split <;> omega
  rw [Voice.render, if_pos rfl, interpolate, method]
  exact Kernel.not_render_of_stranded stocked far early first block

/-- A session of a ready voice ends without a fault exactly when the voice is
never stranded at the beginning of an audible block. -/
theorem Ready.perform_isOk_iff {actions : List Action} (ready : voice.Ready data)
    (accepted : ∀ method ∈ actions.flatMap Action.methods,
      voice.bounds.validate data.size true method = .ok (.ok ()))
    (paced : ∀ speed ∈ actions.flatMap Action.speeds, voice.bounds.Paces (.ofSpeed speed)) :
    (∃ performance, voice.perform data actions = .ok performance) ↔
      ¬ voice.Meets data Stranded actions := by
  induction actions generalizing voice with
  | nil => exact ⟨fun _ => id, fun _ => ⟨_, rfl⟩⟩
  | cons action actions inductionHypothesis =>
      simp only [List.flatMap_cons, List.mem_append] at accepted paced
      cases action with
      | adjust adjustment =>
          have next := ready.adjust (fun method member => accepted method (.inl member))
            (fun speed member => paced speed (.inl member))
          rw [← voice.bounds_adjust adjustment] at accepted paced
          exact inductionHypothesis next (fun method member => accepted method (.inr member))
            (fun speed member => paced speed (.inr member))
      | render audible looping block =>
          by_cases stranded : audible = true ∧ voice.Stranded
          · obtain ⟨rfl, stranded⟩ := stranded
            constructor
            · rintro ⟨performance, performed⟩
              obtain ⟨rendering, _, rendered, _⟩ := perform_render_eq_ok_iff.1 performed
              exact absurd ⟨rendering, rendered⟩ (ready.not_render stranded)
            · intro clear
              exact absurd (.inl ⟨rfl, stranded⟩) clear
          · obtain ⟨rendering, rendered, bounds, next⟩ :=
              ready.render (fun heard other => stranded ⟨heard, other⟩) looping block
            rw [← bounds] at accepted paced
            have rest := inductionHypothesis next
              (fun method member => accepted method (.inr member))
              (fun speed member => paced speed (.inr member))
            constructor
            · rintro ⟨performance, performed⟩ (heard | ⟨other, renders, meets⟩)
              · exact stranded heard
              · obtain rfl := Except.ok.inj (rendered.symm.trans renders)
                obtain ⟨same, rests, renders, performs, _⟩ := perform_render_eq_ok_iff.1 performed
                obtain rfl := Except.ok.inj (rendered.symm.trans renders)
                exact rest.1 ⟨rests, performs⟩ meets
            · intro clear
              obtain ⟨rests, performs⟩ :=
                rest.2 fun meets => clear (.inr ⟨rendering, rendered, meets⟩)
              exact ⟨_, perform_render_eq_ok_iff.2 ⟨rendering, rests, rendered, performs, rfl⟩⟩

/-- A voice whose loop leaves two samples before it is never stranded. -/
theorem not_meets_stranded {actions : List Action} (late : 2 ≤ voice.bounds.loopStart.toNat) :
    ¬ voice.Meets data Stranded actions := by
  induction actions generalizing voice with
  | nil => exact id
  | cons action actions inductionHypothesis =>
      cases action with
      | adjust adjustment =>
          rw [← voice.bounds_adjust adjustment] at late
          exact inductionHypothesis late
      | render audible looping block =>
          rintro (⟨_, _, _, first⟩ | ⟨rendering, rendered, meets⟩)
          · omega
          · have same := voice_eq_of_render rendered
            have bounds : rendering.voice.bounds = voice.bounds := by rw [same]
            rw [← bounds] at late
            exact inductionHypothesis late meets

/-- Whatever is done to a voice, it can be rendered as long as every method it
is set to was accepted for looping, every speed is moderate, and its loop does
not begin at one of the first two samples. -/
theorem make_perform_of_late_loop {bounds : Bounds} {settings : Settings} {actions : List Action}
    (accepted : ∀ method ∈ settings.method :: actions.flatMap Action.methods,
      bounds.validate data.size true method = .ok (.ok ()))
    (paced : ∀ speed ∈ settings.speed :: actions.flatMap Action.speeds,
      bounds.Paces (.ofSpeed speed))
    (late : 2 ≤ bounds.loopStart.toNat) :
    ∃ performance, (make bounds settings).perform data actions = .ok performance :=
  ((Ready.make (accepted _ (by simp)) (paced _ (by simp))).perform_isOk_iff
    (fun method member => accepted method (by simp [member]))
    (fun speed member => paced speed (by simp [member]))).2 (not_meets_stranded late)

/-- Whatever is done to a voice, as long as every method it is set to was
accepted for looping and every speed is moderate, it can be rendered exactly
when no audible block begins at a stranded voice. -/
theorem make_perform_isOk_iff {bounds : Bounds} {settings : Settings} {actions : List Action}
    (accepted : ∀ method ∈ settings.method :: actions.flatMap Action.methods,
      bounds.validate data.size true method = .ok (.ok ()))
    (paced : ∀ speed ∈ settings.speed :: actions.flatMap Action.speeds,
      bounds.Paces (.ofSpeed speed)) :
    (∃ performance, (make bounds settings).perform data actions = .ok performance) ↔
      ¬ (make bounds settings).Meets data Stranded actions :=
  (Ready.make (accepted _ (by simp)) (paced _ (by simp))).perform_isOk_iff
    (fun method member => accepted method (by simp [member]))
    (fun speed member => paced speed (by simp [member]))

/-- A block of silence over three and a half samples, and then the voice's own
method at rest. -/
def takeover : List Action :=
  [.adjust (.speed 0.0546875), .render false true (.filled 0), .adjust (.speed 0),
    .render true true (.filled 0)]

theorem make_perform_isOk_iff_takeover :
    (∃ performance, (make ⟨2, 7, 2, 6⟩ ⟨.fourthOrder, 1⟩).perform
        (.ofWords #[0, 0, 0, 0, 0, 0, 0, 0]) takeover = .ok performance) ↔
      ¬ (make ⟨2, 7, 2, 6⟩ ⟨.fourthOrder, 1⟩).Meets
        (.ofWords #[0, 0, 0, 0, 0, 0, 0, 0]) Stranded takeover :=
  make_perform_isOk_iff (by decide) (by decide)

/-- With a loop from the second sample on, that session faults. -/
theorem not_perform_takeover :
    ¬ ∃ performance, (make ⟨1, 7, 1, 5⟩ ⟨.fourthOrder, 1⟩).perform
      (.ofWords #[0, 0, 0, 0, 0, 0, 0, 0]) takeover = .ok performance := by
  let data : SampleData := .ofWords #[0, 0, 0, 0, 0, 0, 0, 0]
  let voice : Voice := (make ⟨1, 7, 1, 5⟩ ⟨.fourthOrder, 1⟩).setSpeed 0.0546875
  have ran : (Scene.staging .silence data.read data.sample voice.bounds true voice.step).laps
      (Scene.headOf .silence data.sample voice.bounds voice.looped)
      (.begin (voice.position + .half) voice.looped) =
        .ok ⟨.replicate 64 ⟨0, 0⟩, 1, ⟨0x100000000⟩, true⟩ := by
    rw [Scene.laps]
    decide +kernel
  have silenced := @Kernel.render_eq .silence _ _ voice true _ (fun _ => by decide)
    (fun _ near => absurd near (Nat.not_lt_zero _)) rfl ran (.filled 0)
  have ready : (make ⟨1, 7, 1, 5⟩ ⟨.fourthOrder, 1⟩).Ready data :=
    Ready.make (by decide) (by decide)
  rw [ready.perform_isOk_iff (by decide) (by decide), not_not]
  exact .inr ⟨_, silenced, .inl ⟨rfl, by decide⟩⟩

end Voice

end Resampler
