import Resampler.Scene

/-!
Contract: a render call, one lap after the other.

Owns:
- one lap, from its head to the end of the call or to the turn, and the ways it
  can take;
- all laps of a call as one lap and those after it, and induction over them;
- the laps of a call up to a given number, none of which is asked for progress.

Does not own: how many laps a call takes.
-/

namespace Resampler

/-- What follows a lap: the end of the call, or another lap from the head of the
loop. -/
inductive Lap where
  | ended (course : Course)
  | again (head : Head) (course : Course)

def Lap.course : Lap → Course
  | ended course => course
  | again _ course => course

namespace Scene

def lap (scene : Scene) (head : Head) (course : Course) : Checked Lap := do
  let approached ← scene.crossAll head scene.kernel.approach course
  if approached.left = 0 then
    return .ended approached
  else
    let landed ← scene.crossAll head scene.kernel.landing approached
    if scene.mustTurn landed then
      let turned := landed.turn (← scene.bounds.loopLength)
      let head ← scene.readHead true
      return if turned.left = 0 then .ended turned else .again head turned
    else
      return .ended landed

/-- As many laps as are given, unless the call ends before. -/
def lapsUpTo (scene : Scene) : Nat → Head → Course → Checked Lap
  | 0, head, course => return .again head course
  | count + 1, head, course => do
      match ← scene.lap head course with
      | .ended finish => return .ended finish
      | .again head turned => scene.lapsUpTo count head turned

variable {scene : Scene} {head loopHead : Head} {start finish turned : Course}

/-- All laps are one lap and those after it, which are begun only after progress. -/
theorem laps_eq_lap (scene : Scene) (head : Head) (start : Course) :
    scene.laps head start = (do
      match ← scene.lap head start with
      | .ended finish => return finish
      | .again head turned =>
          if turned.progressed start then scene.laps head turned else throw .stalled) := by
  rw [laps, lap]
  cases scene.crossAll head scene.kernel.approach start with
  | error fault => rfl
  | ok approached =>
      simp only [bind, Except.bind]
      by_cases full : approached.left = 0
      · rw [if_pos full, if_pos full]
        rfl
      · rw [if_neg full, if_neg full]
        cases scene.crossAll head scene.kernel.landing approached with
        | error fault => rfl
        | ok landed =>
            simp only
            by_cases mustTurn : scene.mustTurn landed = true
            · rw [if_pos mustTurn, if_pos mustTurn]
              cases scene.bounds.loopLength with
              | error fault => rfl
              | ok length =>
                  cases scene.readHead true with
                  | error fault => rfl
                  | ok loopHead =>
                      by_cases done : (landed.turn length).left = 0
                      · simp only [if_pos done]
                        rfl
                      · simp only [if_neg done]
                        rfl
            · rw [if_neg mustTurn, if_neg mustTurn]
              rfl

/-- What a lap can come to, and by which way. -/
inductive Lapped (scene : Scene) (head : Head) (start : Course) : Lap → Prop where
  | filled {approached : Course}
      (approaches : scene.crossAll head scene.kernel.approach start = .ok approached)
      (full : approached.left = 0) : Lapped scene head start (.ended approached)
  | stayed {approached landed : Course}
      (approaches : scene.crossAll head scene.kernel.approach start = .ok approached)
      (some : 0 < approached.left)
      (lands : scene.crossAll head scene.kernel.landing approached = .ok landed)
      (stays : scene.mustTurn landed = false) : Lapped scene head start (.ended landed)
  | turnedLast {approached landed : Course} {length : Nat}
      (approaches : scene.crossAll head scene.kernel.approach start = .ok approached)
      (some : 0 < approached.left)
      (lands : scene.crossAll head scene.kernel.landing approached = .ok landed)
      (mustTurn : scene.mustTurn landed = true)
      (loopLength : scene.bounds.loopLength = .ok length)
      (full : (landed.turn length).left = 0) :
      Lapped scene head start (.ended (landed.turn length))
  | turned {approached landed : Course} {length : Nat} {loopHead : Head}
      (approaches : scene.crossAll head scene.kernel.approach start = .ok approached)
      (some : 0 < approached.left)
      (lands : scene.crossAll head scene.kernel.landing approached = .ok landed)
      (mustTurn : scene.mustTurn landed = true)
      (loopLength : scene.bounds.loopLength = .ok length)
      (headRead : scene.readHead true = .ok loopHead)
      (undone : 0 < (landed.turn length).left) :
      Lapped scene head start (.again loopHead (landed.turn length))

theorem lapped_of_lap {next : Lap} (ran : scene.lap head start = .ok next) :
    scene.Lapped head start next := by
  obtain ⟨approached, approaches, ran⟩ := Checked.bind_eq_ok_iff.1 ran
  split at ran
  · rename_i full
    cases Checked.pure_eq_ok_iff.1 ran
    exact .filled approaches full
  · rename_i unfilled
    have some := Nat.pos_of_ne_zero unfilled
    obtain ⟨landed, lands, ran⟩ := Checked.bind_eq_ok_iff.1 ran
    split at ran
    · rename_i mustTurn
      simp only [Checked.bind_eq_ok_iff, Checked.pure_eq_ok_iff] at ran
      obtain ⟨length, loopLength, loopHead, headRead, ran⟩ := ran
      split at ran
      · rename_i full
        cases ran
        exact .turnedLast approaches some lands mustTurn loopLength full
      · rename_i undone
        cases ran
        exact .turned approaches some lands mustTurn loopLength headRead
          (Nat.pos_of_ne_zero undone)
    · rename_i stays
      cases Checked.pure_eq_ok_iff.1 ran
      exact .stayed approaches some lands (Bool.not_eq_true _ ▸ stays)

/-- What is true of the last lap, and of a lap before others as soon as it is true of
those, is true of all laps of a call that is not abandoned. -/
theorem laps_induction {motive : Head → Course → Course → Prop}
    (ended : ∀ {head start finish}, scene.lap head start = .ok (.ended finish) →
      motive head start finish)
    (again : ∀ {head start loopHead turned finish},
      scene.lap head start = .ok (.again loopHead turned) → motive loopHead turned finish →
        motive head start finish)
    (ran : scene.laps head start = .ok finish) : motive head start finish := by
  induction effort : start.effort using Nat.strongRecOn generalizing head start with
  | ind effort inductionHypothesis =>
      rw [laps_eq_lap] at ran
      obtain ⟨next, first, ran⟩ := Checked.bind_eq_ok_iff.1 ran
      cases next with
      | ended _ =>
          cases Checked.pure_eq_ok_iff.1 ran
          exact ended first
      | again loopHead turned =>
          simp only at ran
          split at ran
          · rename_i progress
            exact again first
              (inductionHypothesis _ (effort ▸ Course.progressed_iff.1 progress) ran rfl)
          · nomatch ran

end Scene

end Resampler
