import Resampler.Proofs.Accounting
import Resampler.Proofs.OneShotPlayback
import Resampler.Proofs.Speeds

/-!
Contract: a voice that does not loop never goes back, unless a step leaves the
word.

Owns:
- the positions of the slots of a call, as words;
- what it is for a call, and for all calls of a session, to go forward;
- the steps after which a voice is sure to go forward, and those after which it
  is sure not to.

Does not own: what the slots hold.
-/

namespace Resampler

/-- A position after a number of steps, each of which may wrap. -/
def Phase.after (position step : Phase) : Nat → Phase
  | 0 => position
  | steps + 1 => position.after step steps + step

theorem Phase.toNat_after (position step : Phase) (steps : Nat) :
    (position.after step steps).toNat = (position.toNat + steps * step.toNat) % 2 ^ 64 := by
  induction steps with
  | zero =>
      have := position.toNat_lt
      rw [after, Nat.zero_mul]
      omega
  | succ steps inductionHypothesis =>
      rw [after, toNat_add, inductionHypothesis, Nat.succ_mul]
      omega

/-- A step within the word does not lead back. -/
theorem Phase.after_le_after_succ {position step : Phase} {steps : Nat}
    (fits : position.toNat + (steps + 1) * step.toNat < 2 ^ 64) :
    position.after step steps ≤ position.after step (steps + 1) := by
  have further : steps * step.toNat ≤ (steps + 1) * step.toNat :=
    Nat.mul_le_mul_right _ (Nat.le_succ _)
  rw [le_iff_toNat_le, toNat_after, toNat_after, Nat.mod_eq_of_lt (by omega),
    Nat.mod_eq_of_lt fits]
  omega

/-- No slot of a call stands before the slot before it, and the voice is not left before where it
was. -/
structure Rendering.Forward (rendering : Rendering) (voice : Voice) : Prop where
  slots : ∀ slot, slot + 1 < rendering.count →
    voice.position.after voice.step slot ≤ voice.position.after voice.step (slot + 1)
  voice : voice.position ≤ rendering.voice.position

/-- How far from the end of the word a kernel has to be located. One that compares the sum of an
index and its taps with the last index needs room for them. -/
def Kernel.headroom (kernel : Kernel) : Nat :=
  if 2 ≤ kernel.after then kernel.after * 2 ^ 32 else 0

theorem Kernel.headroom_le (kernel : Kernel) : kernel.headroom ≤ 3 * 2 ^ 32 := by
  cases kernel <;> decide

/-- A located position of a voice on its way, not wrapped. From within the region one more step
keeps it in the word, with the room that the kernel needs. -/
structure Bounds.Climbs (bounds : Bounds) (kernel : Kernel) (step position : Phase) (looped : Bool)
    (unwrapped : Nat) : Prop where
  same : position.toNat = unwrapped
  fresh : looped = false
  entered : bounds.start.toNat ≤ position.index
  room : position.toNat + kernel.headroom < 2 ^ 64
  onward : position.index ≤ bounds.last.toNat →
    position.toNat + step.toNat + kernel.headroom < 2 ^ 64

namespace Bounds

variable {bounds : Bounds} {kernel : Kernel} {read : Reader} {sample : Nat → Float32}
  {step position : Phase} {looped : Bool} {unwrapped : Nat}

/-- A step to another position in the region is one of less than 2 ^ 31 samples, and so is one from
there on. -/
theorem Climbs.advance (short : bounds.last.toNat + 1 < 2 ^ 31)
    (single : step.toNat < 2 ^ 63 → step.toNat ≤ 2 ^ 63 - 2 ^ 39)
    (climbs : bounds.Climbs kernel step position looped unwrapped)
    (located : position.index ≤ bounds.last.toNat) :
    bounds.Climbs kernel step (position + step) looped (unwrapped + step.toNat) ∧
      position.index ≤ (position + step).index := by
  have onward := climbs.onward located
  have fits : position.toNat + step.toNat < 2 ^ 64 := by omega
  have sum := Phase.toNat_add_of_lt fits
  have forward := Phase.index_le_index_add fits
  refine ⟨⟨by rw [sum, climbs.same], climbs.fresh, climbs.entered.trans forward, ?_, ?_⟩, forward⟩
  · rw [sum]
    exact onward
  · intro again
    have within := Phase.index_lt_iff.1 (Nat.lt_succ_of_le again)
    have few := kernel.headroom_le
    rw [sum] at within ⊢
    omega

/-- A regular lap that does not loop is heard as it stands. -/
theorem simulates_of_climbs (short : bounds.last.toNat + 1 < 2 ^ 31)
    (single : step.toNat < 2 ^ 63 → step.toNat ≤ 2 ^ 63 - 2 ^ 39)
    (regular : (Scene.staging kernel read sample bounds false step).Regular sample false) :
    (Scene.staging kernel read sample bounds false step).Simulates sample
      (bounds.Climbs kernel step)
      fun unwrapped => (Scene.staging kernel read sample bounds false step).played sample false
        (.ofNat unwrapped) where
  regular := fun climbs => climbs.fresh ▸ regular
  started := by
    intro position looped unwrapped climbs
    obtain rfl := climbs.fresh
    exact climbs.entered
  fits := by
    intro position looped unwrapped climbs many
    have many : 2 ≤ kernel.after := many
    have room := climbs.room
    rw [Kernel.headroom, if_pos many] at room
    show position.index + kernel.after < 2 ^ 32
    unfold Phase.index
    omega
  sounds := by
    intro position looped unwrapped climbs _
    rw [climbs.fresh, ← climbs.same, Phase.ofNat_toNat]
  steps := fun climbs located => climbs.advance short single located
  turns := by
    intro position looped unwrapped looping
    exact absurd looping Bool.false_ne_true

end Bounds

namespace Voice

variable {data : SampleData} {voice : Voice} {actions : List Action} {calls : List Call}

def GoesForward (data : SampleData) (voice : Voice) : List Action → Prop
  | [] => True
  | .adjust adjustment :: actions => (voice.adjust adjustment).GoesForward data actions
  | .render audible looping block :: actions =>
      ∃ rendering, voice.render data audible looping block = .ok rendering ∧
        rendering.Forward voice ∧ rendering.voice.GoesForward data actions

/-- A session that goes forward ends without a fault. -/
theorem GoesForward.exists_perform (forward : voice.GoesForward data actions) :
    ∃ performance, voice.perform data actions = .ok performance := by
  induction actions generalizing voice with
  | nil => exact ⟨_, rfl⟩
  | cons action actions inductionHypothesis =>
      cases action with
      | adjust adjustment => exact @inductionHypothesis (voice.adjust adjustment) forward
      | render audible looping block =>
          obtain ⟨rendering, rendered, _, rest⟩ := forward
          obtain ⟨performance, performed⟩ := inductionHypothesis rest
          exact ⟨_, perform_render_eq_ok_iff.2 ⟨rendering, performance, rendered, performed, rfl⟩⟩

/-- Whether a voice in its region is taken out of the word by one step. -/
def Wraps (voice : Voice) : Prop :=
  ¬ voice.Ended ∧ 2 ^ 64 ≤ voice.position.toNat + voice.step.toNat

/-- Whether a voice in its region is taken by one step to where it cannot be located in the word,
with the room that its kernel needs. -/
def Leaps (voice : Voice) : Prop :=
  ¬ voice.Ended ∧ 2 ^ 64 ≤ voice.position.toNat + voice.method.kernel.shift.toNat +
    voice.step.toNat + voice.method.kernel.headroom

/-! ## Leaving the word -/

/-- A call that does not loop ends with as many steps as it has slots. -/
theorem position_eq_after {audible : Bool} {block : Block} {rendering : Rendering}
    (rendered : voice.render data audible false block = .ok rendering) :
    rendering.voice.position = voice.position.after voice.step rendering.count := by
  rw [render_eq_kernel] at rendered
  obtain ⟨course, _, accounts, _⟩ := Kernel.render_accounts rendered
  have position := accounts.position
  rw [accounts.forward rfl] at position
  apply Phase.ext_toNat
  rw [Phase.toNat_after]
  omega

/-- A voice in its region fills a slot. -/
theorem count_pos {block : Block} {rendering : Rendering} (running : ¬ voice.Ended)
    (rendered : voice.render data true false block = .ok rendering) : 0 < rendering.count := by
  by_contra none
  have none : rendering.count = 0 := Nat.eq_zero_of_not_pos none
  have stays := position_eq_after rendered
  rw [none, Phase.after] at stays
  obtain ⟨course, ran, rfl⟩ := Kernel.render_eq_ok_iff.1 rendered
  have stays : course.position - voice.method.kernel.shift = voice.position := stays
  simp only [Kernel.course, Checked.bind_eq_ok_iff] at ran
  obtain ⟨scene, prepared, head, _, ran⟩ := ran
  obtain ⟨tail, rfl⟩ := Scene.exists_of_prepare prepared
  rcases Scene.laps_ending ran with full | ⟨_, past⟩
  · have full : blockSize - course.slots.size = 0 := full
    have none : course.slots.size = 0 := none
    rw [none] at full
    exact absurd full (by decide)
  · have past : voice.bounds.last.toNat < course.position.index := past
    apply running
    rwa [Ended, ← stays, Phase.sub_add_cancel_right]

theorem not_forward_of_wraps {block : Block} {rendering : Rendering} (wraps : voice.Wraps)
    (rendered : voice.render data true false block = .ok rendering) :
    ¬ rendering.Forward voice := by
  intro forward
  have some := count_pos wraps.1 rendered
  have inWord := voice.step.toNat_lt
  have back : ¬ voice.position ≤ voice.position.after voice.step 1 := by
    rw [Phase.le_iff_toNat_le, Phase.toNat_after]
    have := voice.position.toNat_lt
    have := wraps.2
    omega
  rcases Nat.eq_or_lt_of_le (Nat.succ_le_of_lt some) with once | more
  · have onward := forward.voice
    rw [position_eq_after rendered, ← once] at onward
    exact back onward
  · exact back (forward.slots 0 more)

/-- A session in which a voice leaves the word does not go forward. -/
theorem not_goesForward_of_meets
    (meets : voice.Meets data Wraps (calls.flatMap (Call.actions false))) :
    ¬ voice.GoesForward data (calls.flatMap (Call.actions false)) := by
  -- Calls before the one that wraps may go forward; from there on the session cannot.
  induction calls generalizing voice with
  | nil => exact meets.elim
  | cons call calls inductionHypothesis =>
      rintro ⟨rendering, rendered, forward, rest⟩
      rcases meets with ⟨audible, wraps⟩ | ⟨other, alike, later⟩
      · rw [audible] at rendered
        exact not_forward_of_wraps wraps rendered forward
      · obtain rfl : other = rendering := Except.ok.inj (alike.symm.trans rendered)
        exact inductionHypothesis later rest

/-! ## Staying in the word -/

/-- A voice that can play its region, has not turned back, and is located in the region or after it
with the room its kernel needs. -/
structure Onward (data : SampleData) (voice : Voice) : Prop where
  short : voice.bounds.last.toNat + 1 < 2 ^ 31
  playable : voice.bounds.Playable voice.method.kernel data.read data.sample
  fresh : voice.looped = false
  entered : voice.bounds.start.toNat * 2 ^ 32 ≤
    voice.position.toNat + voice.method.kernel.shift.toNat
  room : voice.position.toNat + voice.method.kernel.shift.toNat + voice.method.kernel.headroom <
    2 ^ 64

theorem Onward.setSpeed (onward : voice.Onward data) (speed : Float32) :
    (voice.setSpeed speed).Onward data :=
  ⟨onward.short, onward.playable, onward.fresh, onward.entered, onward.room⟩

/-- A voice that does not leap is located where its steps climb. -/
theorem Onward.climbs (onward : voice.Onward data) (stays : ¬ voice.Leaps) :
    voice.bounds.Climbs voice.method.kernel voice.step
      (voice.position + voice.method.kernel.shift) voice.looped
      (voice.position.toNat + voice.method.kernel.shift.toNat) := by
  obtain ⟨_, _, fresh, entered, room⟩ := onward
  have located : (voice.position + voice.method.kernel.shift).toNat =
      voice.position.toNat + voice.method.kernel.shift.toNat := by
    apply Phase.toNat_add_of_lt
    omega
  refine ⟨located, fresh, Phase.le_index_iff.2 (located ▸ entered), located ▸ room, ?_⟩
  intro inRegion
  by_contra leaps
  rw [located] at leaps
  exact stays ⟨Nat.not_lt.2 inRegion, Nat.not_lt.1 leaps⟩

/-- A call goes forward when no step leaves the word. -/
theorem Onward.render (onward : voice.Onward data) (stays : ¬ voice.Leaps) (block : Block) :
    ∃ rendering, voice.render data true false block = .ok rendering ∧ rendering.Forward voice ∧
      rendering.voice.Onward data := by
  obtain ⟨rendering, rendered, plays, after, within, _⟩ :=
    Kernel.render_plays (fun looping => absurd looping (by decide))
      (Bounds.simulates_of_climbs onward.short Phase.toNat_ofSpeed_le_of_lt
        onward.playable.regular) (onward.climbs stays) block
  have turned : rendering.voice.looped = voice.looped := by rw [after.fresh, onward.fresh]
  have voice_eq : rendering.voice = { voice with position := rendering.voice.position } := by
    have voice_eq := plays.voice_eq
    rwa [turned] at voice_eq
  have room := after.room
  rw [after.same] at room
  have moved : rendering.voice.position.toNat =
      voice.position.toNat + rendering.count * voice.step.toNat :=
    Phase.toNat_eq_of_toNat_add_eq (after.same.trans (Nat.add_right_comm ..))
  refine ⟨rendering, rendered, ⟨?_, ?_⟩, ?_⟩
  · intro slot counted
    obtain ⟨next, _, located, _⟩ := within (slot + 1) counted
    have same := located.same
    have inWord := next.toNat_lt
    apply Phase.after_le_after_succ
    omega
  · rw [Phase.le_iff_toNat_le, moved]
    exact Nat.le_add_right _ _
  · rw [voice_eq]
    refine ⟨onward.short, onward.playable, onward.fresh, ?_, ?_⟩
    · show voice.bounds.start.toNat * 2 ^ 32 ≤
        rendering.voice.position.toNat + voice.method.kernel.shift.toNat
      have entered := onward.entered
      omega
    · show rendering.voice.position.toNat + voice.method.kernel.shift.toNat +
        voice.method.kernel.headroom < 2 ^ 64
      omega

/-- A session goes forward as long as no block begins with a step out of the word. -/
theorem Onward.goesForward (onward : voice.Onward data)
    (audible : ∀ call ∈ calls, call.audible = true)
    (stays : ¬ voice.Meets data Leaps (calls.flatMap (Call.actions false))) :
    voice.GoesForward data (calls.flatMap (Call.actions false)) := by
  induction calls generalizing voice with
  | nil => trivial
  | cons call calls inductionHypothesis =>
      have heard := audible call List.mem_cons_self
      obtain ⟨rendering, rendered, forward, after⟩ :=
        (onward.setSpeed call.speed).render (fun leaps => stays (.inl ⟨heard, leaps⟩)) call.block
      rw [← heard] at rendered
      exact ⟨rendering, rendered, forward, inductionHypothesis after
        (fun other member => audible other (List.mem_cons_of_mem _ member))
        (fun later => stays (.inr ⟨rendering, rendered, later⟩))⟩

/-- Steps of less than 2 ^ 31 samples do not leave the word. -/
theorem Onward.not_leaps (onward : voice.Onward data) (slow : voice.step.toNat < 2 ^ 63) :
    ¬ voice.Leaps := by
  rintro ⟨running, leaps⟩
  have less : voice.step.toNat ≤ 2 ^ 63 - 2 ^ 39 := Phase.toNat_ofSpeed_le_of_lt slow
  have few := voice.method.kernel.headroom_le
  have short := onward.short
  have room := onward.room
  apply running
  rw [Ended, ← Nat.succ_le_iff, Phase.le_index_iff, Phase.toNat_add_of_lt (by omega)]
  omega

theorem Onward.not_meets (onward : voice.Onward data)
    (audible : ∀ call ∈ calls, call.audible = true) (slow : ∀ call ∈ calls, call.step < 2 ^ 63) :
    ¬ voice.Meets data Leaps (calls.flatMap (Call.actions false)) := by
  induction calls generalizing voice with
  | nil => exact id
  | cons call calls inductionHypothesis =>
      have sped := onward.setSpeed call.speed
      have stays := sped.not_leaps (slow call List.mem_cons_self)
      rintro (⟨_, leaps⟩ | ⟨other, rendered, later⟩)
      · exact stays leaps
      · obtain ⟨rendering, alike, _, after⟩ := sped.render stays call.block
        rw [← audible call List.mem_cons_self] at alike
        obtain rfl : other = rendering := Except.ok.inj (rendered.symm.trans alike)
        exact inductionHypothesis after
          (fun other member => audible other (List.mem_cons_of_mem _ member))
          (fun other member => slow other (List.mem_cons_of_mem _ member)) later

theorem onward_make {bounds : Bounds} {settings : Settings}
    (accepted : (make bounds settings).validate data false = .ok (.ok ()))
    (short : data.size < 2 ^ 31) : (make bounds settings).Onward data := by
  have fits := (Bounds.validate_eq_ok_iff.1 accepted).1
  have inside : bounds.last.toNat < data.size := fits.inside
  have long : bounds.start.toNat + settings.method.span ≤ bounds.last.toNat := fits.long
  have few := settings.method.kernel.headroom_le
  have moved := settings.method.kernel.toNat_shift_le
  have located : (make bounds settings).position.toNat = bounds.start.toNat * 2 ^ 32 := by
    rw [make, Phase.toNat_ofIndex]
    omega
  refine ⟨?_, playable_of_validate accepted, rfl, ?_, ?_⟩
  · show bounds.last.toNat + 1 < 2 ^ 31
    omega
  · rw [located]
    exact Nat.le_add_right _ _
  · rw [located]
    show bounds.start.toNat * 2 ^ 32 + settings.method.kernel.shift.toNat +
      settings.method.kernel.headroom < 2 ^ 64
    omega

/-- Every session of a new voice that does not loop goes forward at speeds that are not 2 ^ 31 or
more, be they negative or no numbers. At greater ones it goes forward as long as no block begins
in the region with a step to the end of the word, and does not once a block begins there with a step
beyond it. -/
theorem make_goesForward {bounds : Bounds} {settings : Settings}
    (accepted : (make bounds settings).validate data false = .ok (.ok ()))
    (short : data.size < 2 ^ 31) (audible : ∀ call ∈ calls, call.audible = true) :
    ((∀ call ∈ calls, ¬(2147483648 : Float32) ≤ call.speed) →
      (make bounds settings).GoesForward data (calls.flatMap (Call.actions false))) ∧
    (¬ (make bounds settings).Meets data Leaps (calls.flatMap (Call.actions false)) →
      (make bounds settings).GoesForward data (calls.flatMap (Call.actions false))) ∧
    ((make bounds settings).Meets data Wraps (calls.flatMap (Call.actions false)) →
      ¬ (make bounds settings).GoesForward data (calls.flatMap (Call.actions false))) := by
  have onward := onward_make accepted short
  refine ⟨fun slow => ?_, onward.goesForward audible, not_goesForward_of_meets⟩
  exact onward.goesForward audible (onward.not_meets audible fun call member =>
    Phase.toNat_ofSpeed_lt_of_not_le (slow call member))

/-- Speeds above and below zero, and one that is no number. -/
theorem make_goesForward_linear :
    (make ⟨0, 2, 0, 0⟩ ⟨.linear, 1⟩).GoesForward (.ofWords #[7, -7, 7])
      ([⟨0.015625, true, .filled 0⟩, ⟨-1, true, .filled 0⟩, ⟨0 / 0, true, .filled 0⟩].flatMap
        (Call.actions false)) :=
  (make_goesForward rfl (by decide) (by decide)).1 (by decide)

/-- At speed 2 ^ 32 the step is the last of the word, and takes a voice back by a unit for each
slot. -/
theorem not_make_goesForward_longest :
    ¬∀ (data : SampleData) (bounds : Bounds) (settings : Settings) (calls : List Call),
      (make bounds settings).validate data false = .ok (.ok ()) → data.size < 2 ^ 31 →
        (∀ call ∈ calls, call.audible = true) →
          (make bounds settings).GoesForward data (calls.flatMap (Call.actions false)) := by
  intro forward
  have goes := forward (.ofWords #[0, 0, 0, 0, 0, 0, 0, 0]) ⟨1, 7, 1, 5⟩ ⟨.linear, 1⟩
    [⟨4294967296, true, .filled 0⟩] rfl (by decide) (by decide)
  have running : ¬ ((make ⟨1, 7, 1, 5⟩ ⟨.linear, 1⟩).setSpeed 4294967296).Ended :=
    show ¬ _ < _ by decide
  refine not_goesForward_of_meets ?_ goes
  exact Or.inl ⟨rfl, running, by decide⟩

end Voice

end Resampler
