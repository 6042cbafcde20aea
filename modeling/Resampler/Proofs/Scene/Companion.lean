import Mathlib.Data.List.Forall2
import Resampler.Render
import Resampler.Scene.Lap

/-!
Contract: two render calls that go the same way, slot by slot.

Owns:
- two computations of which the second ends as the first does, unless the first
  ends in a fault that is excused, and the rules for their sequences and loops;
- two scenes of the same laps, whose heads and taps give related samples;
- the courses of two such scenes: equally far, with related samples in their slots;
- scenes that differ in their readers alone.

Does not own: which scenes are companions, or what their samples have in common.
-/

namespace Resampler

namespace Checked

/-- The second computation ends as the first does: in a related result, or in the
same fault, `stalled` if it never ends. Where the fault of the first is excused, the second
ends as it will. -/
def Leads {α β : Type} (Excused : Fault → Prop) (Related : α → β → Prop) :
    Checked α → Checked β → Prop
  | .ok first, .ok second => Related first second
  | .ok _, .error _ => False
  | .error fault, .ok _ => Excused fault
  | .error fault, .error other => Excused fault ∨ fault = other

variable {α β γ δ ι : Type} {Excused : Fault → Prop} {Related : α → β → Prop}
  {Next : γ → δ → Prop} {first : Checked α} {second : Checked β}

theorem Leads.ok {value : α} (leads : Leads Excused Related first second)
    (succeeds : first = .ok value) : ∃ other, second = .ok other ∧ Related value other := by
  subst succeeds
  cases second with
  | error _ => exact leads.elim
  | ok other => exact ⟨other, rfl, leads⟩

theorem Leads.mono {Weaker : α → β → Prop} (leads : Leads Excused Related first second)
    (weaker : ∀ {value other}, Related value other → Weaker value other) :
    Leads Excused Weaker first second := by
  cases first with
  | ok _ =>
      cases second with
      | ok _ => exact weaker leads
      | error _ => exact leads
  | error _ =>
      cases second with
      | ok _ => exact leads
      | error _ => exact leads

theorem Leads.bind {next : α → Checked γ} {after : β → Checked δ}
    (leads : Leads Excused Related first second)
    (continued : ∀ {value other}, Related value other →
      Leads Excused Next (next value) (after other)) :
    Leads Excused Next (first >>= next) (second >>= after) := by
  cases first with
  | ok value =>
      cases second with
      | ok other => exact continued leads
      | error _ => exact leads.elim
  | error fault =>
      cases second with
      | error _ => exact leads
      | ok other =>
          show Leads Excused Next (.error fault) (after other)
          cases after other with
          | ok _ => exact leads
          | error _ => exact .inl leads

theorem Leads.refl {Related : α → α → Prop} (reflexive : ∀ value, Related value value)
    (first : Checked α) : Leads Excused Related first first := by
  cases first with
  | ok value => exact reflexive value
  | error fault => exact .inr rfl

/-- Where faults count, and results follow from one another, one computation is the
other's image. -/
theorem eq_map_of_leads {image : α → β}
    (leads : Leads (fun _ => False) (fun value result => result = image value) first second) :
    second = first.map image := by
  cases first with
  | ok value =>
      cases second with
      | ok _ => exact congrArg Except.ok leads
      | error _ => exact leads.elim
  | error _ =>
      cases second with
      | ok _ => exact leads.elim
      | error _ => exact congrArg Except.error (leads.resolve_left id).symm

/-- Where they are the same, so are the computations. -/
theorem eq_of_leads {first second : Checked α} (leads : Leads (fun _ => False) Eq first second) :
    first = second := by
  have image := @eq_map_of_leads _ _ _ _ id (leads.mono Eq.symm)
  rw [image]
  cases first <;> rfl

theorem Leads.mapM {items : List ι} {compute : ι → Checked α} {other : ι → Checked β}
    (each : ∀ item ∈ items, Leads Excused Related (compute item) (other item)) :
    Leads Excused (List.Forall₂ Related) (items.mapM compute) (items.mapM other) := by
  induction items with
  | nil => exact .nil
  | cons item items inductionHypothesis =>
      rw [List.mapM_cons, List.mapM_cons]
      apply (each item (by simp)).bind
      intro _ _ related
      apply (inductionHypothesis fun item member => each item (by simp [member])).bind
      intro _ _ rest
      exact .cons related rest

theorem Leads.foldlM {items : List ι} {step : α → ι → Checked α} {other : β → ι → Checked β}
    (each : ∀ item ∈ items, ∀ {value result}, Related value result →
      Leads Excused Related (step value item) (other result item)) {value : α} {result : β}
    (related : Related value result) :
    Leads Excused Related (items.foldlM step value) (items.foldlM other result) := by
  induction items generalizing value result with
  | nil => exact related
  | cons item items inductionHypothesis =>
      rw [List.foldlM_cons, List.foldlM_cons]
      apply (each item (by simp) related).bind
      intro _ _ related
      exact inductionHypothesis (fun item member => each item (by simp [member])) related

end Checked

open Checked

variable {Excused : Fault → Prop} {Heads : Head → Head → Prop} {Same : Float32 → Float32 → Prop}

structure Course.Matches (Same : Float32 → Float32 → Prop) (course other : Course) : Prop where
  samples : List.Forall₂ Same course.samples other.samples
  position : course.position = other.position
  looped : course.looped = other.looped

namespace Course.Matches

variable {course other : Course}

theorem size (courses : course.Matches Same other) : course.slots.size = other.slots.size := by
  have same := courses.samples.length_eq
  simpa [Course.samples] using same

theorem left (courses : course.Matches Same other) : course.left = other.left := by
  rw [Course.left, courses.size, Course.left]

theorem emit (courses : course.Matches Same other) (step : Phase) {sample counterpart : Float32}
    (same : Same sample counterpart) :
    (course.emit step sample).Matches Same (other.emit step counterpart) := by
  refine ⟨?_, ?_, courses.looped⟩
  · rw [Course.samples_emit, Course.samples_emit]
    exact List.rel_append courses.samples (.cons same .nil)
  · rw [Course.position_emit, Course.position_emit, courses.position]

theorem turn (courses : course.Matches Same other) (length : Nat) :
    (course.turn length).Matches Same (other.turn length) := by
  refine ⟨courses.samples, ?_, rfl⟩
  rw [Course.position_turn, Course.position_turn, courses.position]

theorem progressed {start companion : Course} (courses : course.Matches Same other)
    (starts : start.Matches Same companion) :
    course.progressed start = other.progressed companion := by
  simp only [Course.progressed, courses.left, courses.position, courses.looped, starts.left,
    starts.position, starts.looped]

end Course.Matches

/-- Laps that are followed by the same: the end of the call, or a lap from related heads. -/
inductive Lap.Matches (Heads : Head → Head → Prop) (Same : Float32 → Float32 → Prop) :
    Lap → Lap → Prop where
  | ended {course other : Course} (courses : course.Matches Same other) :
      Matches Heads Same (.ended course) (.ended other)
  | again {head counterpart : Head} {course other : Course} (heads : Heads head counterpart)
      (courses : course.Matches Same other) :
      Matches Heads Same (.again head course) (.again counterpart other)

namespace Scene

/-- Scenes that differ in what they read alone: the laps are those of one region, and
from heads that are related, taps give related samples. -/
structure Companions (Excused : Fault → Prop) (Heads : Head → Head → Prop)
    (Same : Float32 → Float32 → Prop) (scene other : Scene) : Prop where
  approach : scene.kernel.approach = other.kernel.approach
  landing : scene.kernel.landing = other.kernel.landing
  bounds : scene.bounds = other.bounds
  looping : scene.looping = other.looping
  step : scene.step = other.step
  last : scene.last = other.last
  first : ∀ {head counterpart}, Heads head counterpart → head.first = counterpart.first
  heads : ∀ looped, Leads Excused Heads (scene.readHead looped) (other.readHead looped)
  sounds : ∀ {head counterpart}, Heads head counterpart → ∀ zone index row,
    Leads Excused (fun taps others =>
        Same (scene.kernel.output row taps) (other.kernel.output row others))
      (scene.taps head zone index) (other.taps counterpart zone index)

/-- A scene is its own companion. -/
theorem Companions.refl (scene : Scene) : Companions Excused Eq Eq scene scene where
  approach := rfl
  landing := rfl
  bounds := rfl
  looping := rfl
  step := rfl
  last := rfl
  first := fun heads => heads ▸ rfl
  heads := fun looped => .refl Eq.refl (scene.readHead looped)
  sounds := by
    rintro head _ rfl zone index row
    exact (Leads.refl Eq.refl (scene.taps head zone index)).mono fun same => same ▸ rfl

variable {scene other : Scene} {head counterpart : Head} {course companion : Course}

theorem crossWithin_leads (companions : Companions Excused Heads Same scene other)
    (heads : Heads head counterpart) (zone : Zone) (slots : Nat)
    (courses : course.Matches Same companion) :
    Leads Excused (Course.Matches Same) (scene.crossWithin head zone slots course)
      (other.crossWithin counterpart zone slots companion) := by
  induction slots generalizing course companion with
  | zero => exact courses
  | succ slots inductionHypothesis =>
      rw [crossWithin, crossWithin, ← companions.first heads, ← companions.last,
        ← courses.position]
      apply (Leads.refl Eq.refl (zone.admits head.first scene.last course.position.index)).bind
      rintro admitted _ rfl
      cases admitted with
      | true =>
          apply (companions.sounds heads zone course.position.index course.position.row).bind
          intro taps others same
          rw [← companions.step]
          exact inductionHypothesis (courses.emit scene.step same)
      | false => exact courses

theorem crossAll_leads (companions : Companions Excused Heads Same scene other)
    (heads : Heads head counterpart) (zones : List Zone)
    (courses : course.Matches Same companion) :
    Leads Excused (Course.Matches Same) (scene.crossAll head zones course)
      (other.crossAll counterpart zones companion) := by
  apply Leads.foldlM _ courses
  intro zone _ course companion courses
  rw [cross, cross, ← courses.left]
  exact crossWithin_leads companions heads zone course.left courses

theorem lap_leads (companions : Companions Excused Heads Same scene other)
    (heads : Heads head counterpart) (courses : course.Matches Same companion) :
    Leads Excused (Lap.Matches Heads Same) (scene.lap head course)
      (other.lap counterpart companion) := by
  rw [lap, lap, ← companions.approach, ← companions.landing, ← companions.bounds]
  apply (crossAll_leads companions heads scene.kernel.approach courses).bind
  intro approached _ approaches
  rw [← approaches.left]
  by_cases full : approached.left = 0
  · rw [if_pos full, if_pos full]
    exact .ended approaches
  · rw [if_neg full, if_neg full]
    apply (crossAll_leads companions heads scene.kernel.landing approaches).bind
    intro landed second lands
    have same : other.mustTurn second = scene.mustTurn landed := by
      rw [mustTurn, mustTurn, lands.position, companions.looping, companions.last]
    rw [same]
    by_cases mustTurn : scene.mustTurn landed = true
    · rw [if_pos mustTurn, if_pos mustTurn]
      apply (Leads.refl Eq.refl scene.bounds.loopLength).bind
      rintro length _ rfl
      apply (companions.heads true).bind
      intro loopHead _ loopHeads
      have turned := lands.turn length
      simp only [← turned.left]
      by_cases done : (landed.turn length).left = 0
      · rw [if_pos done, if_pos done]
        exact .ended turned
      · rw [if_neg done, if_neg done]
        exact .again loopHeads turned
    · rw [if_neg mustTurn, if_neg mustTurn]
      exact .ended lands

theorem laps_leads (companions : Companions Excused Heads Same scene other)
    (heads : Heads head counterpart) (courses : course.Matches Same companion) :
    Leads Excused (Course.Matches Same) (scene.laps head course)
      (other.laps counterpart companion) := by
  induction effort : course.effort using Nat.strongRecOn
    generalizing head counterpart course companion with
  | ind effort inductionHypothesis =>
      rw [laps_eq_lap, laps_eq_lap]
      apply (lap_leads companions heads courses).bind
      intro next _ follows
      cases follows with
      | ended finishes => exact finishes
      | again loopHeads turned =>
          simp only [← turned.progressed courses]
          split
          · rename_i progress
            exact inductionHypothesis _ (effort ▸ Course.progressed_iff.1 progress) loopHeads
              turned rfl
          · exact .inr rfl

end Scene

/-- Render calls whose scenes are companions have courses that match, when they
begin at one position with one history. -/
theorem Kernel.course_leads {kernel other : Kernel} {read counterpart : Reader}
    {voice second : Voice} {looping : Bool} (shift : kernel.shift = other.shift)
    (position : voice.position = second.position) (looped : voice.looped = second.looped)
    (scenes : Leads Excused (Scene.Companions Excused Heads Same)
      (Scene.prepare kernel read voice.bounds looping voice.step)
      (Scene.prepare other counterpart second.bounds looping second.step)) :
    Leads Excused (Course.Matches Same) (kernel.course read voice looping)
      (other.course counterpart second looping) := by
  apply scenes.bind
  intro scene _ companions
  rw [← shift, ← position, ← looped]
  apply (companions.heads voice.looped).bind
  intro head _ heads
  exact Scene.laps_leads companions heads ⟨.nil, rfl, rfl⟩

/-! ## Readers -/

def Scene.reading (scene : Scene) (read : Reader) (tail : List Float32) : Scene :=
  { scene with read, tail }

/-- Two readers of which the second gives related samples, save where a fault of the
first is excused. -/
def Reader.Leads (Excused : Fault → Prop) (Same : Float32 → Float32 → Prop)
    (read other : Reader) : Prop :=
  ∀ index, Checked.Leads Excused Same (read index) (other index)

def Kernel.Respects (kernel : Kernel) (Same : Float32 → Float32 → Prop) : Prop :=
  ∀ row {taps others}, List.Forall₂ Same taps others →
    Same (kernel.output row taps) (kernel.output row others)

def Head.Matches (Same : Float32 → Float32 → Prop) (head other : Head) : Prop :=
  head.first = other.first ∧ List.Forall₂ Same head.standIns other.standIns

namespace Reader.Leads

variable {read other : Reader}

theorem plus (leads : read.Leads Excused Same other) (index distance : Nat) :
    Checked.Leads Excused Same (Index.plus index distance >>= read)
      (Index.plus index distance >>= other) := by
  apply (Checked.Leads.refl Eq.refl (Index.plus index distance)).bind
  rintro index _ rfl
  exact leads index

theorem readRun (leads : read.Leads Excused Same other) (first count : Nat) :
    Checked.Leads Excused (List.Forall₂ Same) (readRun read first count)
      (readRun other first count) :=
  Checked.Leads.mapM fun distance _ => leads.plus first distance

theorem readTail (leads : read.Leads Excused Same other) (kernel : Kernel) (bounds : Bounds)
    (looping : Bool) :
    Checked.Leads Excused (List.Forall₂ Same) (Scene.readTail kernel read bounds looping)
      (Scene.readTail kernel other bounds looping) := by
  apply Checked.Leads.mapM
  intro distance _
  cases looping with
  | true => exact leads.plus bounds.loopStart.toNat distance
  | false => exact leads bounds.last.toNat

variable {scene : Scene} {tail : List Float32} {head counterpart : Head}

theorem readHead (leads : scene.read.Leads Excused Same other) (looped : Bool) :
    Checked.Leads Excused (Head.Matches Same) (scene.readHead looped)
      ((scene.reading other tail).readHead looped) := by
  have standIns : ∀ distance ∈ List.range scene.kernel.before,
      Checked.Leads Excused Same
        (if looped then Index.minus scene.bounds.loopEnd.toNat (distance + 1) >>= scene.read
          else scene.read scene.bounds.start.toNat)
        (if looped then Index.minus scene.bounds.loopEnd.toNat (distance + 1) >>= other
          else other scene.bounds.start.toNat) := by
    intro distance _
    cases looped with
    | true =>
        apply (Checked.Leads.refl Eq.refl
          (Index.minus scene.bounds.loopEnd.toNat (distance + 1))).bind
        rintro index _ rfl
        exact leads index
    | false => exact leads scene.bounds.start.toNat
  apply (Checked.Leads.mapM standIns).bind
  intro _ _ matched
  exact ⟨rfl, matched⟩

theorem taps (leads : scene.read.Leads Excused Same other)
    (tails : List.Forall₂ Same scene.tail tail) (heads : head.Matches Same counterpart)
    (zone : Zone) (index : Nat) :
    Checked.Leads Excused (List.Forall₂ Same) (scene.taps head zone index)
      ((scene.reading other tail).taps counterpart zone index) := by
  cases zone with
  | head past =>
      apply (Checked.Leads.refl Eq.refl (Index.minus index past)).bind
      rintro first _ rfl
      apply (leads.readRun first _).bind
      intro _ _ samples
      exact List.rel_append (List.rel_reverse (List.forall₂_take _ heads.2)) samples
  | room ahead =>
      apply (Checked.Leads.refl Eq.refl (Index.minus index scene.kernel.before)).bind
      rintro first _ rfl
      apply (leads.readRun first _).bind
      intro _ _ samples
      exact List.rel_append samples (List.forall₂_take _ tails)

/-- A scene and the same with other samples are companions, for a kernel that respects
what the samples have in common. -/
theorem companions (leads : scene.read.Leads Excused Same other)
    (tails : List.Forall₂ Same scene.tail tail) (respects : scene.kernel.Respects Same) :
    Scene.Companions Excused (Head.Matches Same) Same scene (scene.reading other tail) where
  approach := rfl
  landing := rfl
  bounds := rfl
  looping := rfl
  step := rfl
  last := rfl
  first := And.left
  heads := leads.readHead
  sounds := fun heads zone index row => (leads.taps tails heads zone index).mono (respects row)

/-- Courses of one voice through other samples match. -/
theorem course {kernel : Kernel} (leads : read.Leads Excused Same other)
    (respects : kernel.Respects Same) (voice : Voice) (looping : Bool) :
    Checked.Leads Excused (Course.Matches Same) (kernel.course read voice looping)
      (kernel.course other voice looping) := by
  have scenes : Checked.Leads Excused (Scene.Companions Excused (Head.Matches Same) Same)
      (Scene.prepare kernel read voice.bounds looping voice.step)
      (Scene.prepare kernel other voice.bounds looping voice.step) := by
    apply (Checked.Leads.refl Eq.refl (voice.bounds.lastIndex looping)).bind
    rintro last _ rfl
    apply (leads.readTail kernel voice.bounds looping).bind
    intro tail counterpart tails
    exact @companions _ _ other ⟨kernel, read, voice.bounds, looping, voice.step, last, tail⟩
      counterpart leads tails respects
  exact Kernel.course_leads rfl rfl rfl scenes

end Reader.Leads

end Resampler
