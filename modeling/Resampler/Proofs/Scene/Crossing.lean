import Mathlib.Data.List.Chain
import Resampler.Proofs.Scene.Reads

/-!
Contract: a lap is crossed zone by zone without a fault.

Owns:
- when a located index lies in a zone, and when it has come far enough for the
  zone to be the next one;
- the order of the zones: an index that leaves one has reached the next;
- what an invariant of courses must promise on one lap, whether or not all taps
  can be read;
- the crossing of zones under such an invariant: it ends, or faults at a slot
  whose taps cannot be read.

Does not own: turns, or any particular invariant.
-/

namespace Resampler

namespace Zone

/-- Whether a located index lies in the zone, sums of indices aside. -/
def Holds (zone : Zone) (first last index : Nat) : Prop :=
  match zone with
  | head past => index = first + past
  | room ahead => index + ahead ≤ last

instance (zone : Zone) (first last index : Nat) : Decidable (zone.Holds first last index) := by
  unfold Holds
  cases zone <;> infer_instance

theorem admits_eq {zone : Zone} {first last index : Nat}
    (headFits : ∀ past, zone = head past → first + past < Index.bound)
    (roomFits : ∀ ahead, zone = room ahead → 2 ≤ ahead → index + ahead < Index.bound) :
    zone.admits first last index = .ok (decide (zone.Holds first last index)) := by
  match zone with
  | head past =>
      simp only [admits, Index.plus_of_lt (headFits past rfl)]
      rfl
  | room 0 => rfl
  | room 1 => rfl
  | room (ahead + 2) =>
      simp only [admits, Index.plus_of_lt (roomFits (ahead + 2) rfl (by omega))]
      rfl

/-- A zone that answers at all answers by where the index lies. -/
theorem eq_holds_of_admits {zone : Zone} {first last index : Nat} {admitted : Bool}
    (admits : zone.admits first last index = .ok admitted) :
    admitted = decide (zone.Holds first last index) := by
  match zone with
  | head past =>
      simp only [Zone.admits, Checked.bind_eq_ok_iff, Checked.pure_eq_ok_iff,
        Index.plus_eq_ok_iff] at admits
      obtain ⟨sum, ⟨rfl, _⟩, rfl⟩ := admits
      rfl
  | room 0 => exact (Except.ok.inj admits).symm
  | room 1 => exact (Except.ok.inj admits).symm
  | room (ahead + 2) =>
      simp only [Zone.admits, Checked.bind_eq_ok_iff, Checked.pure_eq_ok_iff,
        Index.plus_eq_ok_iff] at admits
      obtain ⟨sum, ⟨rfl, _⟩, rfl⟩ := admits
      rfl

end Zone

namespace Kernel

def zones (kernel : Kernel) : List Zone := kernel.approach ++ kernel.landing

/-- A located index is far enough for a zone of a lap from `first` to `last`.
Outside the heads it needs its taps before it, which begin at `low`. -/
def Reached (kernel : Kernel) (low first last index : Nat) : Zone → Prop
  | .head past => first + past ≤ index ∨ low + kernel.before ≤ index
  | .room ahead => low + kernel.before ≤ index ∧ (ahead < kernel.after → last ≤ index + ahead)

inductive Follows (kernel : Kernel) : Zone → Zone → Prop where
  | head {past : Nat} (near : past + 1 < kernel.before) :
      Follows kernel (.head past) (.head (past + 1))
  | body {past : Nat} (near : past + 1 = kernel.before) :
      Follows kernel (.head past) (.room kernel.after)
  | room {ahead : Nat} (near : ahead < kernel.after) :
      Follows kernel (.room (ahead + 1)) (.room ahead)

theorem zones_follow (kernel : Kernel) : kernel.zones.IsChain kernel.Follows := by
  cases kernel with
  | silence => exact .singleton _
  | nearest => exact .singleton _
  | linear => exact .cons_cons (.room (by decide)) (.singleton _)
  | fourthOrder =>
      exact .cons_cons (.body rfl) (.cons_cons (.room (by decide))
        (.cons_cons (.room (by decide)) (.singleton _)))
  | seventhOrder =>
      exact .cons_cons (.head (by decide)) (.cons_cons (.head (by decide))
        (.cons_cons (.body rfl) (.cons_cons (.room (by decide))
          (.cons_cons (.room (by decide)) (.cons_cons (.room (by decide)) (.singleton _))))))

def Near (kernel : Kernel) : Zone → Prop
  | .head past => past < kernel.before
  | .room ahead => ahead ≤ kernel.after

instance (kernel : Kernel) (zone : Zone) : Decidable (kernel.Near zone) := by
  unfold Near
  cases zone <;> infer_instance

theorem near_of_mem_zones {kernel : Kernel} {zone : Zone} (member : zone ∈ kernel.zones) :
    kernel.Near zone := by
  have all : ∀ zone ∈ kernel.zones, kernel.Near zone := by
    cases kernel <;> decide
  exact all zone member

theorem Reached.mono {kernel : Kernel} {low first last index later : Nat} {zone : Zone}
    (reached : kernel.Reached low first last index zone) (forward : index ≤ later) :
    kernel.Reached low first last later zone := by
  cases zone <;> simp only [Reached] at * <;> omega

/-- An index that leaves a zone has reached the next. -/
theorem reached_of_follows {kernel : Kernel} {low first last index : Nat} {zone next : Zone}
    (ordered : low ≤ first) (follows : kernel.Follows zone next)
    (reached : kernel.Reached low first last index zone)
    (outside : ¬ zone.Holds first last index) : kernel.Reached low first last index next := by
  cases follows <;> simp only [Reached, Zone.Holds] at * <;> omega

/-- No zone of a lap holds an index past the heads and the last sample. -/
theorem admits_eq_false {kernel : Kernel} {first last index : Nat} {zone : Zone}
    (member : zone ∈ kernel.zones) (passed : first + kernel.before ≤ index) (past : last < index)
    (fits : index + kernel.after < Index.bound) : zone.admits first last index = .ok false := by
  have near := near_of_mem_zones member
  have outside : ¬ zone.Holds first last index := by
    cases zone <;> simp only [Near, Zone.Holds] at * <;> omega
  rw [Zone.admits_eq, decide_eq_false outside]
  · rintro inside rfl
    have near : inside < kernel.before := near
    omega
  · rintro ahead rfl _
    have near : ahead ≤ kernel.after := near
    omega

/-- An index in a lap has reached its first zone. -/
theorem reached_of_mem_head? {kernel : Kernel} {low first last index : Nat} {zone : Zone}
    (ordered : low ≤ first) (placed : first ≤ index ∨ low + kernel.before ≤ index)
    (member : zone ∈ kernel.zones.head?) : kernel.Reached low first last index zone := by
  cases kernel <;> simp [zones, approach, landing] at member <;> subst member <;>
    simp only [Reached, before, after] at * <;> omega

end Kernel

namespace Scene

variable {scene : Scene} {sample : Nat → Float32} {low : Bool → Nat}
  {Invariant : Course → Prop}

/-- Where a course stands with regard to a zone. -/
def Reached (scene : Scene) (low : Bool → Nat) (course : Course) (zone : Zone) : Prop :=
  scene.kernel.Reached (low course.looped) (scene.bounds.entry course.looped) scene.last
    course.position.index zone

def Within (scene : Scene) (course : Course) (zone : Zone) : Prop :=
  zone.Holds (scene.bounds.entry course.looped) scene.last course.position.index

instance (course : Course) (zone : Zone) : Decidable (scene.Within course zone) := by
  unfold Within
  infer_instance

def filled (scene : Scene) (sample : Nat → Float32) (course : Course) (zone : Zone) : Course :=
  course.emit scene.step
    (scene.kernel.output course.position.row
      ((scene.readsIn course.looped course.position.index zone).map sample))

/-- What an invariant promises of every course on a lap: its head is the one
that was read, it has come far enough for the lap, and sums of indices fit. -/
structure Orients (scene : Scene) (sample : Nat → Float32) (low : Bool → Nat)
    (Invariant : Course → Prop) : Prop where
  ordered : ∀ looped, low looped ≤ scene.bounds.entry looped
  headRead : ∀ {course}, Invariant course →
    scene.readHead course.looped =
      .ok (headOf scene.kernel sample scene.bounds course.looped)
  placed : ∀ {course}, Invariant course →
    scene.bounds.entry course.looped ≤ course.position.index ∨
      low course.looped + scene.kernel.before ≤ course.position.index
  fits : ∀ {course}, Invariant course → 2 ≤ scene.kernel.after →
    scene.bounds.entry course.looped + scene.kernel.before < Index.bound ∧
      course.position.index + scene.kernel.after < Index.bound

/-- What an invariant promises when taps may be missing: where those of a slot
can be read, it holds again after it, at a position that is no earlier. -/
structure Carries (scene : Scene) (sample : Nat → Float32) (low : Bool → Nat)
    (Invariant : Course → Prop) : Prop extends scene.Orients sample low Invariant where
  carried : ∀ {course zone taps}, Invariant course → 0 < course.left → scene.kernel.Near zone →
    scene.Within course zone → scene.Reached low course zone →
      scene.taps (headOf scene.kernel sample scene.bounds course.looped) zone
          course.position.index = .ok taps →
        Invariant (course.emit scene.step (scene.kernel.output course.position.row taps)) ∧
          course.position.index ≤ (course.position + scene.step).index

/-- What an invariant promises when no taps are missing: in each zone they can
be read, after which it holds again at a position that is no earlier. -/
structure Sustains (scene : Scene) (sample : Nat → Float32) (low : Bool → Nat)
    (Invariant : Course → Prop) : Prop extends scene.Orients sample low Invariant where
  given : ∀ {course zone}, Invariant course → scene.kernel.Near zone → scene.Within course zone →
    scene.Reached low course zone →
      ∀ stored ∈ scene.readsIn course.looped course.position.index zone,
        scene.read.Gives sample stored
  fills : ∀ {course zone}, Invariant course → 0 < course.left → scene.kernel.Near zone →
    scene.Within course zone → scene.Reached low course zone →
      Invariant (scene.filled sample course zone) ∧
        course.position.index ≤ (course.position + scene.step).index

/-- Under an invariant, the first slot of a call is the one filled at its origin. -/
theorem Sustains.opening {origin : Course} {first : Float32}
    (sustains : scene.Sustains sample low Invariant) (empty : origin.samples = [])
    (opens : ∀ {zone}, scene.kernel.Near zone → scene.Within origin zone →
      scene.Reached low origin zone →
        scene.kernel.output origin.position.row
          ((scene.readsIn origin.looped origin.position.index zone).map sample) = first) :
    scene.Sustains sample low fun course =>
      Invariant course ∧ (course = origin ∨ course.samples.head? = some first) where
  ordered := sustains.ordered
  headRead := fun holds => sustains.headRead holds.1
  placed := fun holds => sustains.placed holds.1
  fits := fun holds => sustains.fits holds.1
  given := fun holds => sustains.given holds.1
  fills := by
    intro course zone ⟨holds, opened⟩ some near within reached
    obtain ⟨filledHolds, forward⟩ := sustains.fills holds some near within reached
    refine ⟨⟨filledHolds, .inr ?_⟩, forward⟩
    rw [filled, Course.samples_emit]
    rcases opened with rfl | opened
    · rw [empty, opens near within reached]
      rfl
    · rw [List.head?_append, opened]
      rfl

theorem Orients.admits (orients : scene.Orients sample low Invariant) {course : Course}
    (holds : Invariant course) {zone : Zone} (near : scene.kernel.Near zone) :
    zone.admits (scene.bounds.entry course.looped) scene.last course.position.index =
      .ok (decide (scene.Within course zone)) := by
  have fits := orients.fits holds
  have few : scene.kernel.after < 2 → scene.kernel.before = 0 := by
    cases scene.kernel <;> simp [Kernel.after, Kernel.before]
  have inBound := course.position.index_lt
  apply Zone.admits_eq
  · rintro past rfl
    have near : past < scene.kernel.before := near
    by_cases many : 2 ≤ scene.kernel.after
    · have := fits many
      omega
    · have := few (by omega)
      omega
  · rintro ahead rfl several
    have near : ahead ≤ scene.kernel.after := near
    have := fits (by omega)
    omega

/-- The taps of a zone that has been reached are the samples it reads, when they are given. -/
theorem taps_eq_of_given (staged : scene.Staged sample) {course : Course} {zone : Zone}
    (within : scene.Within course zone) (reached : scene.Reached low course zone)
    (given : ∀ stored ∈ scene.readsIn course.looped course.position.index zone,
      scene.read.Gives sample stored) :
    scene.taps (headOf scene.kernel sample scene.bounds course.looped) zone
        course.position.index =
      .ok ((scene.readsIn course.looped course.position.index zone).map sample) := by
  cases zone with
  | head past =>
      have located : course.position.index = scene.bounds.entry course.looped + past := within
      exact taps_head_eq (by omega) given
  | room ahead =>
      have back : low course.looped + scene.kernel.before ≤ course.position.index := reached.1
      exact taps_room_eq staged (by omega) given

theorem Sustains.taps (staged : scene.Staged sample)
    (sustains : scene.Sustains sample low Invariant) {course : Course}
    (holds : Invariant course) {zone : Zone} (near : scene.kernel.Near zone)
    (within : scene.Within course zone) (reached : scene.Reached low course zone) :
    scene.taps (headOf scene.kernel sample scene.bounds course.looped) zone
        course.position.index =
      .ok ((scene.readsIn course.looped course.position.index zone).map sample) :=
  taps_eq_of_given staged within reached (sustains.given holds near within reached)

theorem Sustains.carries (staged : scene.Staged sample)
    (sustains : scene.Sustains sample low Invariant) : scene.Carries sample low Invariant where
  toOrients := sustains.toOrients
  carried := by
    intro course zone taps holds some near within reached found
    obtain rfl := Except.ok.inj ((sustains.taps staged holds near within reached).symm.trans found)
    exact sustains.fills holds some near within reached

/-! ## Crossings -/

/-- A run under an invariant ends in a course of a kind, or faults at a slot
whose taps cannot be read. -/
inductive Ends (scene : Scene) (sample : Nat → Float32) (low : Bool → Nat)
    (Invariant Final : Course → Prop) : Checked Course → Prop where
  | finished {finish : Course} (final : Final finish) :
      Ends scene sample low Invariant Final (.ok finish)
  | faulted {course : Course} {zone : Zone} {fault : Fault} (holds : Invariant course)
      (some : 0 < course.left) (near : scene.kernel.Near zone) (within : scene.Within course zone)
      (reached : scene.Reached low course zone)
      (faults : scene.taps (headOf scene.kernel sample scene.bounds course.looped) zone
        course.position.index = .error fault) :
      Ends scene sample low Invariant Final (.error fault)

/-- What was read before a fault counts for nothing, and after an end for all. -/
theorem Ends.bind {Final Next : Course → Prop} {run : Checked Course}
    {next : Course → Checked Course} (ends : scene.Ends sample low Invariant Final run)
    (continued : ∀ {course}, run = .ok course → Final course →
      scene.Ends sample low Invariant Next (next course)) :
    scene.Ends sample low Invariant Next (run >>= next) := by
  cases ends with
  | finished final => exact continued rfl final
  | faulted holds some near within reached faults =>
      exact .faulted holds some near within reached faults

theorem Ends.mono {Final Weaker : Course → Prop} {run : Checked Course}
    (ends : scene.Ends sample low Invariant Final run)
    (weaker : ∀ {course}, Final course → Weaker course) :
    scene.Ends sample low Invariant Weaker run := by
  cases ends with
  | finished final => exact .finished (weaker final)
  | faulted holds some near within reached faults =>
      exact .faulted holds some near within reached faults

/-- A run whose slots can all be read ends. -/
theorem Ends.total (staged : scene.Staged sample)
    (sustains : scene.Sustains sample low Invariant) {Final : Course → Prop}
    {run : Checked Course} (ends : scene.Ends sample low Invariant Final run) :
    ∃ finish, run = .ok finish ∧ Final finish := by
  cases ends with
  | finished final => exact ⟨_, rfl, final⟩
  | faulted holds some near within reached faults =>
      exact nomatch (sustains.taps staged holds near within reached).symm.trans faults

structure Onward (Invariant : Course → Prop) (start finish : Course) : Prop where
  holds : Invariant finish
  looped : finish.looped = start.looped
  forward : start.position.index ≤ finish.position.index

/-- A zone is crossed until all slots are filled or the position has left it. -/
theorem crossWithin_ends (carries : scene.Carries sample low Invariant) {zone : Zone}
    (near : scene.kernel.Near zone) (slots : Nat) {start : Course} (room : slots ≤ start.left)
    (holds : Invariant start) (reached : 0 < slots → scene.Reached low start zone) :
    scene.Ends sample low Invariant (fun finish => Onward Invariant start finish ∧
        (finish.left + slots = start.left ∨
          ¬ scene.Within finish zone ∧ scene.Reached low finish zone))
      (scene.crossWithin (headOf scene.kernel sample scene.bounds start.looped) zone slots
        start) := by
  induction slots generalizing start with
  | zero => exact .finished ⟨⟨holds, rfl, Nat.le_refl _⟩, .inl rfl⟩
  | succ slots inductionHypothesis =>
      have reached := reached (Nat.succ_pos slots)
      have head : (headOf scene.kernel sample scene.bounds start.looped).first =
          scene.bounds.entry start.looped := rfl
      rw [crossWithin, head, carries.admits holds near]
      simp only [bind, Except.bind]
      by_cases within : scene.Within start zone
      · rw [if_pos (decide_eq_true within)]
        cases found : scene.taps (headOf scene.kernel sample scene.bounds start.looped) zone
            start.position.index with
        | error fault => exact .faulted holds (by omega) near within reached found
        | ok taps =>
            obtain ⟨carried, forward⟩ :=
              carries.carried holds (by omega) near within reached found
            have left : (start.emit scene.step (scene.kernel.output start.position.row taps)).left =
                start.left - 1 := Course.left_emit ..
            have rest := @inductionHypothesis
              (start.emit scene.step (scene.kernel.output start.position.row taps)) (by omega)
              carried (fun _ => reached.mono forward)
            refine rest.mono ?_
            rintro finish ⟨onward, ending⟩
            refine ⟨⟨onward.holds, onward.looped, Nat.le_trans forward onward.forward⟩, ?_⟩
            rcases ending with full | outside
            · left
              omega
            · exact .inr outside
      · rw [if_neg (by simpa using within)]
        exact .finished ⟨⟨holds, rfl, Nat.le_refl _⟩, .inr ⟨within, reached⟩⟩

/-- Zones that follow one another are crossed until all slots are filled or the
position has reached the zone that comes after them. -/
theorem crossAll_ends (carries : scene.Carries sample low Invariant) {zones rest : List Zone}
    (follow : (zones ++ rest).IsChain scene.kernel.Follows)
    (near : ∀ zone ∈ zones, scene.kernel.Near zone) {start : Course} (holds : Invariant start)
    (reached : ∀ zone ∈ (zones ++ rest).head?, start.left = 0 ∨ scene.Reached low start zone) :
    scene.Ends sample low Invariant (fun finish => Onward Invariant start finish ∧
        ∀ zone ∈ rest.head?, finish.left = 0 ∨ scene.Reached low finish zone)
      (scene.crossAll (headOf scene.kernel sample scene.bounds start.looped) zones start) := by
  induction zones generalizing start with
  | nil => exact .finished ⟨⟨holds, rfl, Nat.le_refl _⟩, reached⟩
  | cons zone zones inductionHypothesis =>
      have crossed := crossWithin_ends carries (near zone (by simp)) start.left (Nat.le_refl _)
        holds (fun some => (reached zone (by simp)).resolve_left (by omega))
      rw [crossAll, List.foldlM_cons]
      apply crossed.bind
      rintro between _ ⟨onward, ending⟩
      have reachedNext : ∀ next ∈ (zones ++ rest).head?, between.left = 0 ∨
          scene.Reached low between next := by
        intro next member
        rcases ending with full | ⟨outside, come⟩
        · left
          omega
        · right
          have follows : scene.kernel.Follows zone next := by
            rw [List.cons_append, List.isChain_cons] at follow
            exact follow.1 next member
          exact Kernel.reached_of_follows (carries.ordered _) follows come outside
      have crossedRest := inductionHypothesis follow.tail
        (fun other member => near other (by simp [member])) onward.holds reachedNext
      rw [← onward.looped]
      refine crossedRest.mono ?_
      rintro finish ⟨later, come⟩
      exact ⟨⟨later.holds, later.looped.trans onward.looped,
        Nat.le_trans onward.forward later.forward⟩, come⟩

end Scene

end Resampler
