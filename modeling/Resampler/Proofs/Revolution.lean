import Resampler.Proofs.Accounting
import Resampler.Proofs.Handover
import Resampler.Proofs.Scene.Companion

/-!
Contract: a voice in its loop is moved by whole loops and plays the same.

Owns:
- a lap that begins past the end of the loop: it fills nothing and turns back;
- a render call of a voice that is due to turn back, which is that of the voice turned
  back already, faults included;
- a voice that circulates in its loop, which every render call leaves there;
- one render call at positions a number of loops apart, for any kernel.

Does not own: voices that have never turned back, or calls that do not loop.
-/

namespace Resampler

namespace Phase

/-- Whole samples are added to a position before or after it is moved on. -/
theorem add_right_comm (phase length part : Phase) :
    phase + length + part = phase + part + length := by
  apply ext_toNat
  simp only [toNat_add]
  omega

theorem add_ofIndex_add (phase : Phase) (first second : Nat) :
    phase + .ofIndex (first + second) = phase + .ofIndex first + .ofIndex second := by
  apply ext_toNat
  simp only [toNat_add, toNat_ofIndex, Nat.add_mul]
  omega

theorem index_add_ofIndex {phase : Phase} {length : Nat} (fits : phase.index + length < 2 ^ 32) :
    (phase + .ofIndex length).index = phase.index + length := by
  unfold Phase.index at fits ⊢
  rw [toNat_add, toNat_ofIndex]
  omega

end Phase

namespace Scene

variable {scene : Scene} {sample : Nat → Float32} {extent : Nat}

/-- From past the end of the loop, with the head of the loop, the laps are those from one
loop before. -/
theorem laps_eq_laps_turn {head : Head} {start : Course} (loops : scene.looping = true)
    (last : scene.last = scene.bounds.final scene.looping)
    (headRead : scene.readHead true = .ok head) (some : 0 < start.left)
    (long : scene.bounds.loopStart.toNat + scene.kernel.span < scene.bounds.loopEnd.toNat)
    (past : scene.bounds.loopEnd.toNat ≤ start.position.index)
    (fits : start.position.index + scene.kernel.after < Index.bound) :
    scene.laps head start = scene.laps head (start.turn scene.bounds.loopSpan) := by
  have taps := scene.kernel.taps_le_span
  have ordered := Nat.lt_of_le_of_lt (Nat.le_add_right _ _) long
  have final : scene.last + 1 = scene.bounds.loopEnd.toNat := by
    rw [last, loops]
    exact Nat.sub_add_cancel (Nat.succ_le_of_lt (Nat.zero_lt_of_lt long))
  have first : head.first = scene.bounds.loopStart.toNat := first_of_readHead headRead
  have mustTurn : scene.mustTurn start = true := by
    rw [Scene.mustTurn, loops, Bool.true_and, decide_eq_true_eq]
    omega
  have outside : ∀ zone ∈ scene.kernel.zones,
      zone.admits head.first scene.last start.position.index = .ok false := by
    intro zone member
    refine Kernel.admits_eq_false member ?_ ?_ fits
    · omega
    · omega
  rw [laps_eq_lap, lap_of_outside some outside, if_pos mustTurn, Bounds.loopLength_eq ordered]
  simp only [bind, Except.bind, headRead, pure, Except.pure]
  rw [if_pos (progressed_of_turn last ordered (.inl rfl) mustTurn)]

/-- A course that goes round in its loop, or is past the end of it by no more than the word
has room for. -/
structure Circulates (scene : Scene) (course : Course) : Prop where
  turned : course.looped = true
  entered : scene.bounds.loopStart.toNat ≤ course.position.index
  below : course.position.index + 4 < 2 ^ 32

theorem sustains_circulating (loops : scene.looping = true) (staged : scene.Staged sample)
    (stocked : scene.bounds.Stocked scene.kernel scene.read sample scene.looping extent)
    (paced : (scene.bounds.loopEnd.toNat + 4) * 2 ^ 32 + scene.step.toNat ≤ 2 ^ 64) :
    scene.Sustains sample (fun _ => 0) scene.Circulates where
  ordered := fun _ => Nat.zero_le _
  headRead := fun {course} _ => readHead_of_stocked stocked course.looped
  placed := by
    intro course circulates
    rw [circulates.turned]
    exact .inl circulates.entered
  fits := by
    intro course circulates many
    have below := circulates.below
    have few := scene.kernel.after_le
    refine ⟨stocked.entry_add_before_lt course.looped many, ?_⟩
    show _ < 2 ^ 32
    omega
  given := fun _ near within reached => gives_of_stocked staged stocked near within reached
  fills := by
    intro course zone circulates some near within _
    obtain ⟨turned, entered, _⟩ := circulates
    have loop := stocked.loop
    have last := staged.last
    rw [loops, Bounds.final, if_pos rfl] at last
    have close : course.position.index < scene.bounds.loopEnd.toNat := by
      rcases index_le_of_within near within with opening | inside
      · rw [turned, Bounds.entry, if_pos rfl] at opening
        omega
      · omega
    have inLoop := Phase.index_lt_iff.1 close
    have fits : course.position.toNat + scene.step.toNat < 2 ^ 64 := by omega
    have sum := Phase.toNat_add_of_lt fits
    have forward := Phase.index_le_index_add fits
    refine ⟨⟨turned, Nat.le_trans entered forward, ?_⟩, forward⟩
    show (course.position + scene.step).index + 4 < 2 ^ 32
    unfold Phase.index
    omega

theorem Circulates.turn (last : scene.last = scene.bounds.final scene.looping)
    (ordered : scene.bounds.loopStart.toNat < scene.bounds.loopEnd.toNat) {course : Course}
    (circulates : scene.Circulates course) (mustTurn : scene.mustTurn course = true) :
    scene.Circulates (course.turn scene.bounds.loopSpan) := by
  have below := circulates.below
  have position := toNat_position_turn last mustTurn
  refine ⟨rfl, Phase.le_index_iff.2 (loopStart_le_position_turn last ordered mustTurn), ?_⟩
  unfold Phase.index at below ⊢
  omega

end Scene

namespace Kernel

variable {kernel : Kernel} {read : Reader} {voice : Voice} {further back : Phase}

-- The two positions are variables: their sum is too large a number to compute with.

private theorem course_leads_lap (turned : voice.looped = true)
    (long : voice.bounds.loopStart.toNat + kernel.span < voice.bounds.loopEnd.toNat)
    (apart : further = back + .ofIndex voice.bounds.loopSpan)
    (past : voice.bounds.loopEnd.toNat ≤ (further + kernel.shift).index)
    (fits : (further + kernel.shift).index + kernel.after < Index.bound) :
    Checked.Leads (fun _ => False) (Course.Matches Eq)
      (kernel.course read (voice.setPosition further) true)
      (kernel.course read (voice.setPosition back) true) := by
  have some : 0 < (Course.begin (further + kernel.shift) true).left := show 0 < blockSize by decide
  have matched : ((Course.begin (further + kernel.shift) true).turn voice.bounds.loopSpan).Matches
      Eq (.begin (back + kernel.shift) true) := by
    refine ⟨.nil, ?_, rfl⟩
    show further + kernel.shift - .ofIndex voice.bounds.loopSpan = back + kernel.shift
    rw [apart, Phase.add_right_comm, Phase.add_sub_cancel_right]
  simp only [course, Voice.setPosition, Voice.step, turned]
  cases prepared : Scene.prepare kernel read voice.bounds true (.ofSpeed voice.speed) with
  | error fault => exact .inr rfl
  | ok scene =>
      obtain ⟨tail, rfl⟩ := Scene.exists_of_prepare prepared
      simp only [bind, Except.bind]
      cases headRead : Scene.readHead _ true with
      | error fault => exact .inr rfl
      | ok head =>
          simp only
          rw [Scene.laps_eq_laps_turn rfl rfl headRead some long past fits]
          exact Scene.laps_leads (.refl _) rfl matched

/-- A voice that is past the end of its loop renders as it would from one loop before. -/
theorem render_add_lap (turned : voice.looped = true)
    (long : voice.bounds.loopStart.toNat + kernel.span < voice.bounds.loopEnd.toNat)
    (apart : further = back + .ofIndex voice.bounds.loopSpan)
    (past : voice.bounds.loopEnd.toNat ≤ (further + kernel.shift).index)
    (fits : (further + kernel.shift).index + kernel.after < Index.bound) (block : Block) :
    kernel.render read (voice.setPosition further) true block =
      kernel.render read (voice.setPosition back) true block := by
  apply Checked.eq_of_leads
  apply (course_leads_lap turned long apart past fits).bind
  intro finish other same
  have samples : finish.samples = other.samples := List.forall₂_eq_eq_eq ▸ same.samples
  show _ = _
  rw [same.size, samples, same.position, same.looped]
  rfl

/-- So it does any number of loops after a position in the loop. -/
private theorem render_laps_further (turned : voice.looped = true)
    (long : voice.bounds.loopStart.toNat + kernel.span < voice.bounds.loopEnd.toNat)
    (entered : voice.bounds.loopStart.toNat ≤ (back + kernel.shift).index) (laps : Nat)
    (apart : further = back + .ofIndex (laps * voice.bounds.loopSpan))
    (fits : (back + kernel.shift).index + laps * voice.bounds.loopSpan + 4 < 2 ^ 32)
    (block : Block) :
    kernel.render read (voice.setPosition further) true block =
      kernel.render read (voice.setPosition back) true block := by
  induction laps generalizing further with
  | zero =>
      have same : further = back := by
        rw [apart, Nat.zero_mul]
        exact Phase.add_zero back
      rw [same]
  | succ laps inductionHypothesis =>
      have length : voice.bounds.loopSpan =
          voice.bounds.loopEnd.toNat - voice.bounds.loopStart.toNat := rfl
      have few := kernel.after_le
      rw [Nat.succ_mul] at apart fits
      obtain ⟨between, earlier⟩ :
          ∃ between, between = back + .ofIndex (laps * voice.bounds.loopSpan) := ⟨_, rfl⟩
      have located : (further + kernel.shift).index =
          (back + kernel.shift).index + (laps * voice.bounds.loopSpan + voice.bounds.loopSpan) := by
        rw [apart, Phase.add_right_comm, Phase.index_add_ofIndex (by omega)]
      have apart : further = between + .ofIndex voice.bounds.loopSpan := by
        rw [apart, earlier, Phase.add_ofIndex_add]
      have fitsFurther : (further + kernel.shift).index + kernel.after < Index.bound := by
        show _ < 2 ^ 32
        omega
      rw [render_add_lap turned long apart (by omega) fitsFurther block]
      exact inductionHypothesis earlier (by omega)

/-- A voice that has turned back, and is located in its loop or after it, renders as it
would any number of loops further on, as long as the word has room for them: the block is
filled with the same samples, and the voice is left in the same state. So a turn
that a call leaves to the next one is done there before the first slot, and the next call
is the one that would have followed the turn. -/
theorem render_add_laps {data : SampleData} {method : Method} {voice : Voice} (laps : Nat)
    (accepted : voice.bounds.validate data.size true method = .ok (.ok ()))
    (shorter : kernel.span ≤ method.span) (turned : voice.looped = true)
    (entered : voice.bounds.loopStart.toNat ≤ (voice.position + kernel.shift).index)
    (fits : (voice.position + kernel.shift).index + laps * voice.bounds.loopSpan + 4 < 2 ^ 32)
    (paced : (voice.bounds.loopEnd.toNat + 4) * 2 ^ 32 + voice.step.toNat ≤ 2 ^ 64)
    (block : Block) :
    ∃ rendering, kernel.render data.read voice true block = .ok rendering ∧
      rendering.count = blockSize ∧
      kernel.render data.read
          (voice.setPosition (voice.position + .ofIndex (laps * voice.bounds.loopSpan))) true
          block = .ok rendering ∧
      (voice.bounds.loopEnd.toNat ≤ (rendering.voice.position + kernel.shift).index →
        ∀ speed later,
          kernel.render data.read (rendering.voice.setSpeed speed) true later =
            kernel.render data.read
              ((rendering.voice.setSpeed speed).setPosition
                (rendering.voice.position - .ofIndex voice.bounds.loopSpan)) true later) := by
  have stocked : voice.bounds.Stocked kernel data.read data.sample true voice.bounds.extent :=
    @Voice.stocked_of_validate data (voice.setMethod method) kernel accepted shorter true
  have staged := Scene.staged_staging kernel data.read data.sample voice.bounds true voice.step
  have here : (voice.position + kernel.shift).index + 4 < 2 ^ 32 := by omega
  obtain ⟨finish, rendered, circulates, _⟩ :=
    render_sustained stocked (Scene.sustains_circulating rfl staged stocked paced)
      (fun circulates mustTurn => circulates.turn rfl stocked.ordered mustTurn)
      ⟨turned, entered, here⟩ block
  obtain ⟨_, _, accounts, _⟩ := render_accounts rendered
  refine ⟨_, rendered, accounts.full rfl, ?_, ?_⟩
  · rw [← rendered]
    exact render_laps_further turned stocked.loop entered laps rfl fits block
  · intro past speed later
    have few := kernel.after_le
    have below := circulates.below
    refine @render_add_lap _ _ (Voice.mk _ speed finish.looped voice.bounds voice.method) _ _
      circulates.turned stocked.loop ?_ past ?_ later
    · exact (Phase.sub_add_cancel_right ..).symm
    · show (finish.position - kernel.shift + kernel.shift).index + kernel.after < 2 ^ 32
      rw [Phase.sub_add_cancel_right]
      omega

/-- Three loops of seven samples after a position between two of them, with the sinc. -/
theorem render_add_laps_seventhOrder :
    ∃ rendering,
      seventhOrder.render (SampleData.ofWords #[1, 2, 3, 4, 5, 6, 7, 8, 9, 10]).read
          (.mk ⟨0x380000000⟩ 1.25 true ⟨0, 9, 2, 9⟩ .seventhOrder) true (.filled 0) =
        .ok rendering ∧
      rendering.count = blockSize ∧
      seventhOrder.render (SampleData.ofWords #[1, 2, 3, 4, 5, 6, 7, 8, 9, 10]).read
          ((Voice.mk ⟨0x380000000⟩ 1.25 true ⟨0, 9, 2, 9⟩ .seventhOrder).setPosition
            (⟨0x380000000⟩ + .ofIndex (3 * Bounds.loopSpan ⟨0, 9, 2, 9⟩))) true (.filled 0) =
        .ok rendering ∧
      (9 ≤ (rendering.voice.position + seventhOrder.shift).index →
        ∀ speed later,
          seventhOrder.render (SampleData.ofWords #[1, 2, 3, 4, 5, 6, 7, 8, 9, 10]).read
              (rendering.voice.setSpeed speed) true later =
            seventhOrder.render (SampleData.ofWords #[1, 2, 3, 4, 5, 6, 7, 8, 9, 10]).read
              ((rendering.voice.setSpeed speed).setPosition
                (rendering.voice.position - .ofIndex (Bounds.loopSpan ⟨0, 9, 2, 9⟩))) true later) :=
  @render_add_laps .seventhOrder (.ofWords #[1, 2, 3, 4, 5, 6, 7, 8, 9, 10]) .seventhOrder
    (.mk ⟨0x380000000⟩ 1.25 true ⟨0, 9, 2, 9⟩ .seventhOrder) 3 rfl (by decide) rfl (by decide)
    (by decide) (by decide) (.filled 0)

end Kernel

end Resampler
