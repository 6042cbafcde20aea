import Resampler.Proofs.Scene.Laps
import Resampler.Proofs.Scene.Window

/-!
Contract: a render call plays back a reference that knows nothing of zones,
stand-ins, or turns.

Owns:
- courses whose slots hold a reference, one slot after the other;
- scenes whose head and end are far enough apart, where the taps in every zone
  are the stored samples behind one window of virtual indices;
- the relation of a course to an unwrapped position, slot by slot;
- the theorem that a whole render call keeps the relation and fills its slots
  with the samples of the reference.

Does not own: a particular reference, or how positions are related to it.
-/

namespace Resampler

structure Course.Fills (course : Course) (reference : Nat → Float32) : Prop where
  inBlock : course.slots.size ≤ blockSize
  samples : course.samples = (List.range course.slots.size).map reference

namespace Course.Fills

variable {course : Course} {reference : Nat → Float32}

theorem begin (position : Phase) (looped : Bool) : (begin position looped).Fills reference :=
  ⟨Nat.zero_le _, rfl⟩

theorem emit (fills : course.Fills reference) (some : 0 < course.left) {step : Phase}
    {sample : Float32} (next : sample = reference course.slots.size) :
    (course.emit step sample).Fills reference := by
  constructor
  · have left : 0 < blockSize - course.slots.size := some
    rw [size_emit]
    omega
  · rw [size_emit, samples_emit, fills.samples, next, List.range_succ, List.map_append]
    rfl

theorem size_eq (fills : course.Fills reference) (full : course.left = 0) :
    course.slots.size = blockSize := by
  have full : blockSize - course.slots.size = 0 := full
  have inBlock := fills.inBlock
  omega

theorem length_samples (fills : course.Fills reference) :
    course.samples.length = course.slots.size := by
  rw [fills.samples, List.length_map, List.length_range]

end Course.Fills

theorem Bounds.final_lt (bounds : Bounds) (looping : Bool) :
    bounds.final looping < Index.bound := by
  have := bounds.loopEnd.toNat_lt
  have := bounds.last.toNat_lt
  show _ < 2 ^ 32
  unfold final
  split <;> omega

namespace Scene

variable {scene : Scene} {sample : Nat → Float32} {looped : Bool}
  {Related : Phase → Bool → Nat → Prop} {reference : Nat → Float32}

/-- A lap that is long enough for the kernel, and whose taps can all be read. -/
structure Regular (scene : Scene) (sample : Nat → Float32) (looped : Bool) : Prop where
  apart : scene.bounds.entry looped + scene.kernel.span ≤ scene.bounds.final scene.looping
  borrow : looped = true → scene.kernel.before ≤ scene.bounds.loopEnd.toNat
  given : ∀ virtual : Int, (scene.bounds.entry looped : Int) - scene.kernel.before ≤ virtual →
    virtual ≤ scene.bounds.final scene.looping + scene.kernel.after →
      scene.read.Gives sample (scene.bounds.behind scene.looping looped virtual)

def played (scene : Scene) (sample : Nat → Float32) (looped : Bool) (position : Phase) : Float32 :=
  scene.kernel.output position.row
    ((scene.kernel.window position.index).map fun virtual =>
      sample (scene.bounds.behind scene.looping looped virtual))

theorem Regular.readHead (regular : scene.Regular sample looped) :
    scene.readHead looped = .ok (headOf scene.kernel sample scene.bounds looped) := by
  apply readHead_eq regular.borrow
  intro distance near
  have apart := regular.apart
  have given := regular.given (scene.bounds.entry looped - 1 - distance) (by omega) (by omega)
  rw [Bounds.behind, if_pos (by omega)] at given
  have same : (scene.bounds.entry looped - 1 -
      ((scene.bounds.entry looped : Int) - 1 - distance)).toNat = distance := by omega
  rwa [same] at given

theorem Regular.tail (regular : scene.Regular sample looped) {distance : Nat}
    (near : distance < scene.kernel.after) :
    scene.read.Gives sample (scene.bounds.standInAfter scene.looping distance) := by
  have apart := regular.apart
  have given := regular.given (scene.bounds.final scene.looping + 1 + distance)
    (by omega) (by omega)
  rw [Bounds.behind, if_neg (by omega), if_pos (by omega)] at given
  have same : ((scene.bounds.final scene.looping : Int) + 1 + distance -
      scene.bounds.final scene.looping - 1).toNat = distance := by omega
  rwa [same] at given

/-- Within a regular lap, the taps of any zone are those of the window. -/
theorem Regular.readsIn_eq_window (staged : scene.Staged sample) {course : Course}
    (regular : scene.Regular sample course.looped) {zone : Zone} (near : scene.kernel.Near zone)
    (within : scene.Within course zone)
    (reached : scene.Reached scene.bounds.entry course zone) :
    course.position.index ≤ scene.last ∧
      scene.readsIn course.looped course.position.index zone =
        (scene.kernel.window course.position.index).map
          (scene.bounds.behind scene.looping course.looped) := by
  have apart := regular.apart
  have last := staged.last
  cases zone with
  | head past =>
      have near : past < scene.kernel.before := near
      have located : course.position.index = scene.bounds.entry course.looped + past := within
      have spanned := Kernel.before_add_after_le near
      exact ⟨by omega, readsIn_head_eq_window near located (by omega)⟩
  | room ahead =>
      have near : ahead ≤ scene.kernel.after := near
      have room : course.position.index + ahead ≤ scene.last := within
      obtain ⟨started, ending⟩ := reached
      rw [last] at room ending
      exact ⟨by omega, readsIn_room_eq_window near started room ending⟩

/-- A relation between located positions, the loop history, and unwrapped
positions under which a scene plays what the reference says. -/
structure Simulates (scene : Scene) (sample : Nat → Float32)
    (Related : Phase → Bool → Nat → Prop) (reference : Nat → Float32) : Prop where
  regular : ∀ {position looped unwrapped}, Related position looped unwrapped →
    scene.Regular sample looped
  started : ∀ {position looped unwrapped}, Related position looped unwrapped →
    scene.bounds.entry looped ≤ position.index
  fits : ∀ {position looped unwrapped}, Related position looped unwrapped →
    2 ≤ scene.kernel.after → position.index + scene.kernel.after < Index.bound
  sounds : ∀ {position looped unwrapped}, Related position looped unwrapped →
    position.index ≤ scene.last → scene.played sample looped position = reference unwrapped
  steps : ∀ {position looped unwrapped}, Related position looped unwrapped →
    position.index ≤ scene.last →
      Related (position + scene.step) looped (unwrapped + scene.step.toNat) ∧
        position.index ≤ (position + scene.step).index
  turns : ∀ {position looped unwrapped}, scene.looping = true →
    Related position looped unwrapped → scene.last < position.index →
      Related (position - .ofIndex scene.bounds.loopSpan) true unwrapped

structure Echoes (scene : Scene) (Related : Phase → Bool → Nat → Prop)
    (reference : Nat → Float32) (unwrapped : Nat) (course : Course) : Prop
    extends course.Fills fun slot => reference (unwrapped + slot * scene.step.toNat) where
  related : Related course.position course.looped
    (unwrapped + course.slots.size * scene.step.toNat)
  within : ∀ slot < course.slots.size, ∃ position looped,
    Related position looped (unwrapped + slot * scene.step.toNat) ∧ position.index ≤ scene.last
  reach : 0 < course.slots.size → ∃ position : Phase, position.index ≤ scene.last ∧
    course.position.toNat ≤ (position + scene.step).toNat

theorem echoes_begin {position : Phase} {unwrapped : Nat}
    (related : Related position looped unwrapped) :
    scene.Echoes Related reference unwrapped (.begin position looped) where
  toFills := .begin ..
  related := by simpa [Course.begin] using related
  within := by
    intro slot isSlot
    simp [Course.begin] at isSlot
  reach := by
    intro some
    simp [Course.begin] at some

theorem Echoes.emit (simulates : scene.Simulates sample Related reference) {unwrapped : Nat}
    {course : Course} (echoes : scene.Echoes Related reference unwrapped course)
    (some : 0 < course.left) (located : course.position.index ≤ scene.last) :
    scene.Echoes Related reference unwrapped
      (course.emit scene.step (scene.played sample course.looped course.position)) := by
  have size := course.size_emit scene.step (scene.played sample course.looped course.position)
  have next : unwrapped + course.slots.size * scene.step.toNat + scene.step.toNat =
      unwrapped + (course.slots.size + 1) * scene.step.toNat := by
    rw [Nat.succ_mul, Nat.add_assoc]
  refine ⟨echoes.toFills.emit some (simulates.sounds echoes.related located), ?_, ?_,
    fun _ => ⟨course.position, located, Nat.le_refl _⟩⟩
  · rw [size, ← next]
    exact (simulates.steps echoes.related located).1
  · intro slot isSlot
    rw [size] at isSlot
    by_cases earlier : slot < course.slots.size
    · exact echoes.within slot earlier
    · obtain rfl : slot = course.slots.size := by omega
      exact ⟨_, _, echoes.related, located⟩

theorem sustains_of_simulates (staged : scene.Staged sample)
    (simulates : scene.Simulates sample Related reference) (unwrapped : Nat) :
    scene.Sustains sample scene.bounds.entry (scene.Echoes Related reference unwrapped) where
  ordered := fun _ => Nat.le_refl _
  headRead := fun echoes => (simulates.regular echoes.related).readHead
  placed := fun echoes => .inl (simulates.started echoes.related)
  fits := by
    intro course echoes many
    have apart := (simulates.regular echoes.related).apart
    have short := Kernel.before_le_span many
    have inWord := scene.bounds.final_lt scene.looping
    exact ⟨by omega, simulates.fits echoes.related many⟩
  given := by
    intro course zone echoes near within reached stored member
    have regular := simulates.regular echoes.related
    have started := simulates.started echoes.related
    obtain ⟨located, reads⟩ := regular.readsIn_eq_window staged near within reached
    rw [reads] at member
    rw [staged.last] at located
    obtain ⟨virtual, inWindow, rfl⟩ := List.mem_map.1 member
    obtain ⟨above, below⟩ := Kernel.mem_window inWindow
    exact regular.given virtual (by omega) (by omega)
  fills := by
    intro course zone echoes some near within reached
    have regular := simulates.regular echoes.related
    obtain ⟨located, reads⟩ := regular.readsIn_eq_window staged near within reached
    have filled : scene.filled sample course zone =
        course.emit scene.step (scene.played sample course.looped course.position) := by
      rw [Scene.filled, reads, List.map_map]
      rfl
    rw [filled]
    exact ⟨echoes.emit simulates some located, (simulates.steps echoes.related located).2⟩

/-- A render call ends, has played the reference, and stands where the
reference stands. -/
theorem laps_echo (staged : scene.Staged sample)
    (simulates : scene.Simulates sample Related reference)
    (ordered : scene.looping = true → scene.bounds.loopStart.toNat < scene.bounds.loopEnd.toNat)
    {position : Phase} {unwrapped : Nat} (related : Related position looped unwrapped) :
    ∃ finish, scene.laps (headOf scene.kernel sample scene.bounds looped) (.begin position looped) =
        .ok finish ∧
      scene.Echoes Related reference unwrapped finish ∧
        (finish.slots.size = blockSize ∨
          scene.looping = false ∧ scene.last < finish.position.index) := by
  obtain ⟨finish, ran, echoes, ending⟩ :=
    laps_total staged (sustains_of_simulates staged simulates unwrapped) ordered (by
      intro course echoes mustTurn
      have back := toNat_position_turn staged.last mustTurn
      simp only [Scene.mustTurn, Bool.and_eq_true, decide_eq_true_eq] at mustTurn
      refine ⟨⟨echoes.inBlock, echoes.samples⟩,
        simulates.turns mustTurn.1 echoes.related mustTurn.2, echoes.within, ?_⟩
      intro some
      obtain ⟨position, located, reach⟩ := echoes.reach some
      exact ⟨position, located, back ▸ Nat.le_trans (Nat.sub_le _ _) reach⟩)
      (echoes_begin related)
  exact ⟨finish, ran, echoes, ending.imp_left echoes.size_eq⟩

end Scene

end Resampler
