import Resampler.Scene.Lap

/-!
Contract: what can be said of a course after a render call.

Owns:
- the principle of proof for courses: what holds at the start, and survives
  every filled slot and every turn, holds at the end of a call that is not
  abandoned.

The principle is stated for one zone, for several, for a lap, for a number of laps,
and for all laps. Within a zone it may use that the zone admits the position of the
slot, and the taps that were read for it. Within a lap it may tell the approach from
the landing.

Does not own: the invariants themselves, or that a call is not abandoned.
-/

namespace Resampler.Scene

variable {scene : Scene} {head : Head} {start finish : Course}

theorem crossWithin_invariant (Invariant : Course → Prop) {zone : Zone}
    (emits : ∀ course taps, Invariant course → 0 < course.left →
      zone.admits head.first scene.last course.position.index = .ok true →
        scene.taps head zone course.position.index = .ok taps →
          Invariant (course.emit scene.step (scene.kernel.output course.position.row taps)))
    {slots : Nat} (room : slots ≤ start.left)
    (run : scene.crossWithin head zone slots start = .ok finish)
    (holds : Invariant start) : Invariant finish := by
  induction slots generalizing start with
  | zero =>
      simp only [crossWithin, Checked.pure_eq_ok_iff] at run
      exact run ▸ holds
  | succ slots inductionHypothesis =>
      simp only [crossWithin, Checked.bind_eq_ok_iff] at run
      obtain ⟨admitted, admits, run⟩ := run
      split at run
      · rename_i inside
        simp only [Checked.bind_eq_ok_iff] at run
        obtain ⟨taps, found, run⟩ := run
        have roomAfter : slots ≤ (start.emit scene.step
            (scene.kernel.output start.position.row taps)).left := by
          rw [Course.left_emit]
          omega
        exact inductionHypothesis roomAfter run
          (emits _ _ holds (by omega) (inside ▸ admits) found)
      · simp only [Checked.pure_eq_ok_iff] at run
        exact run ▸ holds

theorem crossAll_invariant (Invariant : Course → Prop) {zones : List Zone}
    (emits : ∀ zone ∈ zones, ∀ course taps, Invariant course → 0 < course.left →
      zone.admits head.first scene.last course.position.index = .ok true →
        scene.taps head zone course.position.index = .ok taps →
          Invariant (course.emit scene.step (scene.kernel.output course.position.row taps)))
    (run : scene.crossAll head zones start = .ok finish)
    (holds : Invariant start) : Invariant finish := by
  induction zones generalizing start with
  | nil =>
      simp only [crossAll, List.foldlM_nil, Checked.pure_eq_ok_iff] at run
      exact run ▸ holds
  | cons zone zones inductionHypothesis =>
      simp only [crossAll, List.foldlM_cons, Checked.bind_eq_ok_iff] at run
      obtain ⟨between, crossed, run⟩ := run
      exact inductionHypothesis (fun other member => emits other (by simp [member])) run
        (crossWithin_invariant Invariant (emits zone (by simp)) (Nat.le_refl _) crossed holds)

/-- A lap keeps what its approach, its landing, and its turn keep. -/
theorem lap_keeps (Invariant : Course → Prop)
    (approaches : ∀ {approached}, scene.crossAll head scene.kernel.approach start = .ok approached →
      Invariant approached)
    (lands : ∀ {approached landed},
      scene.crossAll head scene.kernel.approach start = .ok approached → 0 < approached.left →
        scene.crossAll head scene.kernel.landing approached = .ok landed → Invariant landed)
    (turns : ∀ course length, Invariant course → scene.mustTurn course = true →
      scene.bounds.loopLength = .ok length → Invariant (course.turn length))
    {next : Lap} (run : scene.lap head start = .ok next) : Invariant next.course := by
  cases lapped_of_lap run with
  | filled approach => exact approaches approach
  | stayed approach some landing => exact lands approach some landing
  | turnedLast approach some landing mustTurn loopLength =>
      exact turns _ _ (lands approach some landing) mustTurn loopLength
  | turned approach some landing mustTurn loopLength =>
      exact turns _ _ (lands approach some landing) mustTurn loopLength

/-- All laps keep what each of them keeps. -/
theorem laps_keep (Invariant : Course → Prop)
    (keeps : ∀ {head start next}, scene.lap head start = .ok next → Invariant start →
      Invariant next.course)
    (run : scene.laps head start = .ok finish) (holds : Invariant start) : Invariant finish := by
  refine laps_induction (motive := fun _ start finish => Invariant start → Invariant finish)
    ?_ ?_ run holds
  · intro _ _ _ ran holds
    exact keeps ran holds
  · intro _ _ _ _ _ ran later holds
    exact later (keeps ran holds)

section Laps

variable (Invariant : Course → Prop)
  (emits : ∀ course sample, Invariant course → 0 < course.left →
    Invariant (course.emit scene.step sample))
  (turns : ∀ course length, Invariant course → scene.mustTurn course = true →
    scene.bounds.loopLength = .ok length → Invariant (course.turn length))

include emits turns

theorem lap_invariant {next : Lap} (run : scene.lap head start = .ok next)
    (holds : Invariant start) : Invariant next.course := by
  have crosses : ∀ {zones : List Zone} {start finish : Course},
      scene.crossAll head zones start = .ok finish → Invariant start → Invariant finish :=
    fun run holds => crossAll_invariant Invariant
      (fun _ _ course _ holds some _ _ => emits course _ holds some) run holds
  exact lap_keeps Invariant (fun approach => crosses approach holds)
    (fun approach _ landing => crosses landing (crosses approach holds)) turns run

theorem lapsUpTo_invariant {count : Nat} {next : Lap}
    (run : scene.lapsUpTo count head start = .ok next) (holds : Invariant start) :
    Invariant next.course := by
  induction count generalizing head start with
  | zero =>
      cases Checked.pure_eq_ok_iff.1 run
      exact holds
  | succ count inductionHypothesis =>
      obtain ⟨first, ran, run⟩ := Checked.bind_eq_ok_iff.1 run
      have firstHolds := lap_invariant Invariant emits turns ran holds
      cases first with
      | ended finish =>
          cases Checked.pure_eq_ok_iff.1 run
          exact firstHolds
      | again loopHead turned => exact inductionHypothesis run firstHolds

theorem laps_invariant (run : scene.laps head start = .ok finish) (holds : Invariant start) :
    Invariant finish :=
  laps_keep Invariant (fun ran holds => lap_invariant Invariant emits turns ran holds) run holds

end Laps

end Resampler.Scene
