import Resampler.Proofs.Handover
import Resampler.Proofs.Scene.Companion

/-!
Contract: a voice that keeps its method reads its own part of the data alone.

Owns:
- readers that fault outside a range of indices, and what carries over from a
  reader to one that gives the same samples and more;
- the range of a region and its loop, which holds whatever a lap asks for;
- sessions of a voice that is heard by the method it was made for, which end
  without a fault and depend on no sample outside that range.

What is said here needs no order between the region and the loop.

Does not own: sessions in which one kernel takes a voice over from another. A
kernel that truncates may then read the sample before the loop.
-/

namespace Resampler

/-! ## Readers -/

namespace Reader

/-- The reader that faults outside a range of indices. -/
def only (read : Reader) (low high : Nat) : Reader := fun index =>
  if low ≤ index ∧ index ≤ high then read index else .error .outsideData

def Extends (read other : Reader) : Prop :=
  ∀ {index : Nat} {sample : Float32}, other index = .ok sample → read index = .ok sample

variable {read other : Reader}

theorem Extends.leads (more : other.Extends read) :
    read.Leads (fun _ => True) Eq other := by
  intro index
  cases found : read index with
  | ok sample =>
      rw [more found]
      exact rfl
  | error _ =>
      cases other index with
      | ok _ => trivial
      | error _ => exact .inl trivial

theorem extends_only {low high : Nat}
    (agree : ∀ index, low ≤ index → index ≤ high → other index = read index) :
    other.Extends (read.only low high) := by
  intro index sample found
  by_cases inside : low ≤ index ∧ index ≤ high
  · rw [only, if_pos inside] at found
    rw [agree index inside.1 inside.2, found]
  · rw [only, if_neg inside] at found
    exact nomatch found

theorem Gives.only {sample : Nat → Float32} {low high index : Nat}
    (given : read.Gives sample index) (started : low ≤ index) (inside : index ≤ high) :
    (read.only low high).Gives sample index := by
  refine ⟨given.1, ?_⟩
  rw [Reader.only, if_pos ⟨started, inside⟩]
  exact given.2

end Reader

/-- A render call that ends well ends in the same way when more can be read. -/
theorem Kernel.render_of_extends {kernel : Kernel} {read other : Reader} {voice : Voice}
    {looping : Bool} {block : Block} {rendering : Rendering} (more : other.Extends read)
    (rendered : kernel.render read voice looping block = .ok rendering) :
    kernel.render other voice looping block = .ok rendering := by
  have respects : kernel.Respects Eq := by
    intro row taps others same
    rw [List.forall₂_eq_eq_eq] at same
    rw [same]
  rw [render_eq_ok_iff] at rendered ⊢
  obtain ⟨course, ran, rfl⟩ := rendered
  obtain ⟨companion, ranOther, courses⟩ :=
    (more.leads.course respects voice looping).ok ran
  have samples : course.samples = companion.samples := by
    have same := courses.samples
    rwa [List.forall₂_eq_eq_eq] at same
  exact ⟨companion, ranOther, by rw [courses.size, samples, courses.position, courses.looped]⟩

namespace Voice

def renderBy (read : Reader) (voice : Voice) (audible looping : Bool) (block : Block) :
    Checked Rendering :=
  (voice.kernel audible).render read voice looping block

def performBy (read : Reader) (voice : Voice) : List Action → Checked Performance
  | [] => return ⟨[], voice⟩
  | .adjust adjustment :: actions => (voice.adjust adjustment).performBy read actions
  | .render audible looping block :: actions => do
      let rendering ← voice.renderBy read audible looping block
      let rest ← rendering.voice.performBy read actions
      return ⟨rendering :: rest.renderings, rest.voice⟩

theorem perform_eq_performBy (data : SampleData) (voice : Voice) (actions : List Action) :
    voice.perform data actions = voice.performBy data.read actions := by
  induction actions generalizing voice with
  | nil => rfl
  | cons action actions inductionHypothesis =>
      cases action with
      | adjust adjustment => exact inductionHypothesis _
      | render audible looping block =>
          simp only [perform, performBy, renderBy, render_eq_kernel, inductionHypothesis]

/-- A session that ends well ends in the same way when more can be read. -/
theorem performBy_of_extends {read other : Reader} {voice : Voice} {actions : List Action}
    {performance : Performance} (more : other.Extends read)
    (performed : voice.performBy read actions = .ok performance) :
    voice.performBy other actions = .ok performance := by
  induction actions generalizing voice performance with
  | nil => exact performed
  | cons action actions inductionHypothesis =>
      cases action with
      | adjust adjustment => exact inductionHypothesis performed
      | render audible looping block =>
          simp only [performBy, Checked.bind_eq_ok_iff] at performed ⊢
          obtain ⟨rendering, rendered, rest, performs, same⟩ := performed
          exact ⟨rendering, Kernel.render_of_extends more rendered, rest,
            inductionHypothesis performs, same⟩

end Voice

/-! ## The range of a region and its loop -/

namespace Bounds

/-- The first sample of the region or, for a voice that loops, of the loop. -/
def lowest (bounds : Bounds) (loops : Bool) : Nat :=
  if loops then min bounds.start.toNat bounds.loopStart.toNat else bounds.start.toNat

def highest (bounds : Bounds) (loops : Bool) : Nat :=
  if loops then max bounds.last.toNat (bounds.loopEnd.toNat - 1) else bounds.last.toNat

/-- Bounds whose region and loop are long enough for a kernel, and a reader that
gives the samples in their range. -/
structure Encloses (bounds : Bounds) (kernel : Kernel) (read : Reader) (sample : Nat → Float32)
    (loops : Bool) : Prop where
  region : bounds.start.toNat + kernel.span ≤ bounds.last.toNat
  loop : bounds.loopStart.toNat + kernel.span < bounds.loopEnd.toNat
  given : ∀ index, bounds.lowest loops ≤ index → index ≤ bounds.highest loops →
    read.Gives sample index

namespace Encloses

variable {bounds : Bounds} {kernel : Kernel} {read : Reader} {sample : Nat → Float32}
  {loops looping looped : Bool}

theorem ordered (encloses : bounds.Encloses kernel read sample loops) :
    bounds.loopStart.toNat < bounds.loopEnd.toNat :=
  Nat.lt_of_le_of_lt (Nat.le_add_right _ _) encloses.loop

theorem lowest_le_entry (turned : looped = true → loops = true) :
    bounds.lowest loops ≤ bounds.entry looped := by
  cases looped with
  | true =>
      simp only [turned rfl, lowest, entry, if_true]
      exact Nat.min_le_right _ _
  | false =>
      simp only [lowest, entry, Bool.false_eq_true, if_false]
      split
      · exact Nat.min_le_left _ _
      · exact Nat.le_refl _

theorem final_le_highest (turns : looping = true → loops = true) :
    bounds.final looping ≤ bounds.highest loops := by
  cases looping with
  | true =>
      simp only [turns rfl, highest, final, if_true]
      exact Nat.le_max_right _ _
  | false =>
      simp only [highest, final, Bool.false_eq_true, if_false]
      split
      · exact Nat.le_max_left _ _
      · exact Nat.le_refl _

/-- From the entry of a lap on, a span lies in the range. -/
theorem gives_opening (encloses : bounds.Encloses kernel read sample loops)
    (turned : looped = true → loops = true) {distance : Nat} (near : distance ≤ kernel.span) :
    read.Gives sample (bounds.entry looped + distance) := by
  have started : bounds.lowest loops ≤ bounds.entry looped := lowest_le_entry turned
  have inside : bounds.entry looped + distance ≤ bounds.final looped := by
    cases looped with
    | true =>
        have loop := encloses.loop
        simp only [entry, final, if_true]
        omega
    | false =>
        have region := encloses.region
        simp only [entry, final, Bool.false_eq_true, if_false]
        omega
  exact encloses.given _ (Nat.le_add_right_of_le started)
    (Nat.le_trans inside (final_le_highest turned))

theorem gives_before (encloses : bounds.Encloses kernel read sample loops)
    (turned : looped = true → loops = true) {distance : Nat} (near : distance < kernel.before) :
    read.Gives sample (bounds.standInBefore looped distance) := by
  have loop := encloses.loop
  have taps := kernel.taps_le_span
  cases looped with
  | true =>
      apply encloses.given
      · simp only [turned rfl, lowest, standInBefore, if_true]
        omega
      · simp only [turned rfl, highest, standInBefore, if_true]
        omega
  | false => exact encloses.gives_opening turned (Nat.zero_le _)

theorem gives_body (encloses : bounds.Encloses kernel read sample loops)
    (turned : looped = true → loops = true) (turns : looping = true → loops = true) {index : Nat}
    (started : bounds.entry looped ≤ index) (inside : index ≤ bounds.final looping) :
    read.Gives sample index :=
  encloses.given index (Nat.le_trans (lowest_le_entry turned) started)
    (Nat.le_trans inside (final_le_highest turns))

theorem gives_after (encloses : bounds.Encloses kernel read sample loops)
    (turns : looping = true → loops = true) {distance : Nat} (near : distance < kernel.after) :
    read.Gives sample (bounds.standInAfter looping distance) := by
  have taps := kernel.taps_le_span
  cases looping with
  | true => exact @gives_opening _ _ _ _ _ true encloses turns _ (by omega)
  | false =>
      have region := encloses.region
      exact @gives_body _ _ _ _ _ false false encloses turns turns _
        (Nat.le_of_add_right_le region) (Nat.le_refl _)

end Encloses

end Bounds

namespace Scene

variable {scene : Scene} {sample : Nat → Float32} {loops : Bool}

/-- A course of a voice in its own hands: it is located in the lap or after it,
in the lower half of the word, and has turned only if it may. -/
structure Keeps (scene : Scene) (loops : Bool) (course : Course) : Prop where
  entered : scene.bounds.entry course.looped ≤ course.position.index
  turned : course.looped = true → loops = true
  near : course.position.toNat < 2 ^ 63

theorem sustains_of_encloses (staged : scene.Staged sample)
    (encloses : scene.bounds.Encloses scene.kernel scene.read sample loops)
    (turns : scene.looping = true → loops = true)
    (paced : scene.bounds.Paces scene.step) :
    scene.Sustains sample scene.bounds.entry (scene.Keeps loops) where
  ordered := fun _ => Nat.le_refl _
  headRead := by
    intro course keeps
    have loop := encloses.loop
    have taps := scene.kernel.taps_le_span
    exact readHead_eq (fun _ => by omega) fun distance near =>
      encloses.gives_before keeps.turned near
  placed := fun keeps => .inl keeps.entered
  fits := by
    intro course keeps _
    have entered := keeps.entered
    have near := keeps.near
    have below : course.position.index < 2 ^ 31 := Phase.index_lt_iff.2 near
    have fewBefore := scene.kernel.before_le
    have fewAfter := scene.kernel.after_le
    show _ < 2 ^ 32 ∧ _ < 2 ^ 32
    omega
  given := by
    intro course zone keeps near within reached stored member
    cases asks_of_mem_readsIn near within reached stored member with
    | before near => exact encloses.gives_before keeps.turned near
    | after near => exact encloses.gives_after turns near
    | opening near => exact encloses.gives_opening keeps.turned near
    | body started inside =>
        rw [staged.last] at inside
        exact encloses.gives_body keeps.turned turns started inside
  fills := by
    intro course zone keeps some near within _
    have region := encloses.region
    have loop := encloses.loop
    have inside : course.position.index < scene.bounds.extent := by
      have close := index_le_of_within near within
      rw [staged.last] at close
      unfold Bounds.entry Bounds.final at close
      unfold Bounds.extent
      split at close <;> split at close <;> omega
    have below := Phase.index_lt_iff.1 inside
    unfold Bounds.Paces at paced
    have fits : course.position.toNat + scene.step.toNat < 2 ^ 64 := by omega
    have sum := Phase.toNat_add_of_lt fits
    have forward := Phase.index_le_index_add fits
    refine ⟨⟨Nat.le_trans keeps.entered forward, keeps.turned, ?_⟩, forward⟩
    show (course.position + scene.step).toNat < 2 ^ 63
    omega

theorem Keeps.turn (staged : scene.Staged sample)
    (encloses : scene.bounds.Encloses scene.kernel scene.read sample loops)
    (turns : scene.looping = true → loops = true) {course : Course}
    (keeps : scene.Keeps loops course) (mustTurn : scene.mustTurn course = true) :
    scene.Keeps loops (course.turn scene.bounds.loopSpan) := by
  have entered := loopStart_le_position_turn staged.last encloses.ordered mustTurn
  have position := toNat_position_turn staged.last mustTurn
  simp only [Scene.mustTurn, Bool.and_eq_true] at mustTurn
  refine ⟨Phase.le_index_iff.2 entered, fun _ => turns mustTurn.1, ?_⟩
  rw [position]
  exact Nat.lt_of_le_of_lt (Nat.sub_le _ _) keeps.near

end Scene

/-! ## Sessions -/

/-- A voice that its own method can play on in sessions of a kind. -/
structure Voice.Settled (voice : Voice) (loops : Bool) : Prop where
  entered : voice.bounds.entry voice.looped ≤
    (voice.position + voice.method.kernel.shift).index
  turned : voice.looped = true → loops = true
  near : (voice.position + voice.method.kernel.shift).toNat < 2 ^ 63

/-- An action that leaves the method of a voice as it is: a speed is set, the
voice is started again, or it is heard, and round and round only if it may be. -/
def Action.Plain (loops : Bool) : Action → Prop
  | adjust (.speed _) | adjust .restart => True
  | adjust _ => False
  | render audible looping _ => audible = true ∧ (looping = true → loops = true)

namespace Voice

variable {voice : Voice} {read : Reader} {sample : Nat → Float32} {loops : Bool}

/-- The start of the region is a place to play on from. -/
theorem settled_of_start {position : Phase} {step : Phase}
    (start : position = .ofIndex voice.bounds.start.toNat)
    (ordered : voice.bounds.start.toNat ≤ voice.bounds.last.toNat)
    (paced : voice.bounds.Paces step) :
    ({ voice with position, looped := false } : Voice).Settled loops := by
  have short := voice.method.kernel.toNat_shift_le
  have located : (position + voice.method.kernel.shift).toNat =
      voice.bounds.start.toNat * 2 ^ 32 + voice.method.kernel.shift.toNat := by
    rw [start]
    exact Phase.toNat_ofIndex_add voice.bounds.start.toNat_lt (Nat.lt_of_le_of_lt short (by decide))
  have inside : (voice.bounds.start.toNat + 1) * 2 ^ 32 ≤ voice.bounds.extent * 2 ^ 32 := by
    apply Nat.mul_le_mul_right
    unfold Bounds.extent
    omega
  unfold Bounds.Paces at paced
  refine ⟨Phase.le_index_iff.2 ?_, fun turned => absurd turned Bool.false_ne_true, ?_⟩
  · show voice.bounds.start.toNat * 2 ^ 32 ≤ (position + voice.method.kernel.shift).toNat
    rw [located]
    exact Nat.le_add_right _ _
  · show (position + voice.method.kernel.shift).toNat < 2 ^ 63
    rw [located]
    apply Nat.lt_of_not_le
    intro beyond
    omega

/-- A settled voice renders a block by its method, and is settled again. -/
theorem Settled.render (settled : voice.Settled loops)
    (encloses : voice.bounds.Encloses voice.method.kernel read sample loops)
    (paced : voice.bounds.Paces voice.step) {looping : Bool} (turns : looping = true → loops = true)
    (block : Block) :
    ∃ rendering, voice.renderBy read true looping block = .ok rendering ∧
      rendering.voice =
        { voice with position := rendering.voice.position, looped := rendering.voice.looped } ∧
      rendering.voice.Settled loops := by
  have staged :=
    Scene.staged_staging voice.method.kernel read sample voice.bounds looping voice.step
  have sustains := Scene.sustains_of_encloses staged encloses turns paced
  have begins : (Scene.staging voice.method.kernel read sample voice.bounds looping
      voice.step).Keeps loops (.begin (voice.position + voice.method.kernel.shift) voice.looped) :=
    ⟨settled.entered, settled.turned, settled.near⟩
  obtain ⟨finish, ran, ends, _⟩ := Scene.laps_total staged sustains (fun _ => encloses.ordered)
    (fun keeps mustTurn => keeps.turn staged encloses turns mustTurn) begins
  have rendered := Kernel.render_eq (fun _ => Nat.zero_lt_of_lt encloses.ordered)
    (fun distance near => encloses.gives_after turns near) (sustains.headRead begins) ran block
  have back : finish.position - voice.method.kernel.shift + voice.method.kernel.shift =
      finish.position := Phase.sub_add_cancel_right ..
  refine ⟨_, rendered, rfl, ?_, ends.turned, ?_⟩
  · rw [back]
    exact ends.entered
  · rw [back]
    exact ends.near

/-- A session of plain actions ends well for a settled voice, from any reader
that gives the samples in the range of its bounds. -/
theorem Settled.performBy {actions : List Action} (settled : voice.Settled loops)
    (encloses : voice.bounds.Encloses voice.method.kernel read sample loops)
    (paced : ∀ speed ∈ voice.speed :: actions.flatMap Action.speeds,
      voice.bounds.Paces (.ofSpeed speed))
    (plain : ∀ action ∈ actions, action.Plain loops) :
    ∃ performance, voice.performBy read actions = .ok performance := by
  induction actions generalizing voice with
  | nil => exact ⟨_, rfl⟩
  | cons action actions inductionHypothesis =>
      have first := plain action (by simp)
      have rest : ∀ action ∈ actions, action.Plain loops :=
        fun action member => plain action (by simp [member])
      cases action with
      | adjust adjustment =>
          cases adjustment with
          | speed speed =>
              exact @inductionHypothesis (voice.setSpeed speed)
                ⟨settled.entered, settled.turned, settled.near⟩ encloses
                (fun other member => paced other (List.mem_cons_of_mem _ member)) rest
          | restart =>
              have restarted : voice.adjust .restart =
                  { voice with position := .ofIndex voice.bounds.start.toNat, looped := false } := rfl
              have start := @settled_of_start voice loops _ _ rfl
                (Nat.le_of_add_right_le encloses.region) (paced voice.speed (by simp))
              rw [Voice.performBy, restarted]
              exact inductionHypothesis start encloses paced rest
          | method _ => exact first.elim
          | settings _ => exact first.elim
      | render audible looping block =>
          obtain ⟨rfl, turns⟩ := first
          obtain ⟨rendering, rendered, same, next⟩ :=
            settled.render encloses (paced voice.speed (by simp)) turns block
          have nextEncloses : rendering.voice.bounds.Encloses rendering.voice.method.kernel read
              sample loops := by rw [same]; exact encloses
          have nextPaced : ∀ speed ∈ rendering.voice.speed :: actions.flatMap Action.speeds,
              rendering.voice.bounds.Paces (.ofSpeed speed) := by rw [same]; exact paced
          obtain ⟨performance, performed⟩ :=
            inductionHypothesis next nextEncloses nextPaced rest
          refine ⟨⟨rendering :: performance.renderings, performance.voice⟩, ?_⟩
          simp only [Voice.performBy, rendered, performed, bind, Except.bind]
          rfl

variable {data : SampleData} {bounds : Bounds} {settings : Settings} {actions : List Action}

/-- Accepted bounds enclose what their method asks for, also when nothing else
of the data can be read. -/
theorem encloses_of_validate {method : Method}
    (accepted : bounds.validate data.size true method = .ok (.ok ())) :
    bounds.Encloses method.kernel (data.read.only (bounds.lowest loops) (bounds.highest loops))
      data.sample loops := by
  obtain ⟨region, loop⟩ := Bounds.validate_eq_ok_iff.1 accepted
  have loop := loop rfl
  refine ⟨region.long, loop.long, ?_⟩
  intro index started inside
  have lastInside := region.inside
  have endInside := loop.inside
  have lastInWord := bounds.last.toNat_lt
  have endInWord := bounds.loopEnd.toNat_lt
  have below : index < data.size ∧ index < 2 ^ 32 := by
    have inside := inside
    unfold Bounds.highest at inside
    split at inside <;> omega
  exact (SampleData.gives below.2 below.1).only started inside

/-- A voice made with a method that was accepted for looping, and played by it
alone, never faults and reads no sample outside its region and its loop: the
session ends in the same way when every other read faults, and with any data
that has the same samples there. When it is never played round and round, that
range is the region. -/
theorem make_perform_confined
    (accepted : bounds.validate data.size true settings.method = .ok (.ok ()))
    (paced : ∀ speed ∈ settings.speed :: actions.flatMap Action.speeds,
      bounds.Paces (.ofSpeed speed))
    (plain : ∀ action ∈ actions, action.Plain loops) :
    ∃ performance, (make bounds settings).perform data actions = .ok performance ∧
      (make bounds settings).performBy
          (data.read.only (bounds.lowest loops) (bounds.highest loops)) actions =
        .ok performance ∧
      ∀ other : SampleData,
        (∀ index, bounds.lowest loops ≤ index → index ≤ bounds.highest loops →
          other.integer? index = data.integer? index) →
        (make bounds settings).perform other actions = .ok performance := by
  have ordered := (Bounds.validate_eq_ok_iff.1 accepted).1.long
  have settled : (make bounds settings).Settled loops :=
    @settled_of_start (make bounds settings) loops _ _ rfl (Nat.le_of_add_right_le ordered)
      (paced settings.speed (by simp))
  obtain ⟨performance, performed⟩ :=
    settled.performBy (encloses_of_validate accepted) paced plain
  have alike : ∀ other : SampleData,
      (∀ index, bounds.lowest loops ≤ index → index ≤ bounds.highest loops →
        other.integer? index = data.integer? index) →
      (make bounds settings).perform other actions = .ok performance := by
    intro other agree
    rw [perform_eq_performBy]
    have reads : other.read.Extends
        (data.read.only (bounds.lowest loops) (bounds.highest loops)) := by
      apply Reader.extends_only
      intro index started inside
      simp only [SampleData.read, agree index started inside]
    exact performBy_of_extends reads performed
  exact ⟨performance, alike data fun _ _ _ => rfl, performed, alike⟩

/-- Held, released, and held again: a loop before the region, and a session that
begins in the one and comes to the other. -/
def reheld : List Action :=
  [.render true true (.filled 0), .adjust (.speed 0.25), .render true false (.filled 0),
    .render true true (.filled 0), .adjust .restart, .render true false (.filled 0)]

theorem make_perform_confined_reheld :
    ∃ performance,
      (make ⟨4, 7, 1, 4⟩ ⟨.fourthOrder, 1.5⟩).perform
          (.ofWords #[9, 10, 20, 30, 40, 50, 60, 70, 9]) reheld = .ok performance ∧
      (make ⟨4, 7, 1, 4⟩ ⟨.fourthOrder, 1.5⟩).performBy
          ((SampleData.ofWords #[9, 10, 20, 30, 40, 50, 60, 70, 9]).read.only 1 7) reheld =
        .ok performance ∧
      ∀ other : SampleData,
        (∀ index, 1 ≤ index → index ≤ 7 → other.integer? index =
          (SampleData.ofWords #[9, 10, 20, 30, 40, 50, 60, 70, 9]).integer? index) →
        (make ⟨4, 7, 1, 4⟩ ⟨.fourthOrder, 1.5⟩).perform other reheld = .ok performance :=
  @make_perform_confined true _ ⟨4, 7, 1, 4⟩ ⟨.fourthOrder, 1.5⟩ reheld rfl (by decide)
    (by simp [reheld, Action.Plain])

end Voice

end Resampler
