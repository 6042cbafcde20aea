import Resampler.Proofs.Scene.Companion
import Resampler.Proofs.Session

/-!
Contract: silence goes where the nearest sample would be heard.

Owns:
- silent scenes as companions of those that play the nearest sample, and of one
  another, whatever there is to read;
- one silent call against one that is heard: the same count, position, and
  history, and zeros in the slots that are counted;
- sessions in which every call is silent against sessions in which every call is heard.

Nothing is asked of the voice: silence keeps step also where a position wraps, or
where the bounds were never accepted.

Does not own: sessions in which heard and silent calls alternate.
-/

namespace Resampler

open Checked

variable {read other : Reader} {head : Head} {looping : Bool}

/-- A second computation that cannot fail follows any first one whose faults do not
count. -/
theorem Checked.leads_ok {α β : Type} {Related : α → β → Prop} {first : Checked α} {result : β}
    (related : ∀ value, Related value result) :
    Leads (fun _ => True) Related first (.ok result) := by
  cases first with
  | ok value => exact related value
  | error _ => exact trivial

/-- How far before the located sample the taps of a zone begin, for a kernel with none
before it. -/
def Zone.lead : Zone → Nat
  | .head past => past
  | .room _ => 0

namespace Scene

/-- A scene of a kernel with no taps on either side of the located sample. -/
def bare (kernel : Kernel) (read : Reader) (bounds : Bounds) (looping : Bool) (step : Phase)
    (last : Nat) : Scene :=
  ⟨kernel, read, bounds, looping, step, last, []⟩

variable {bounds : Bounds} {step : Phase} {last : Nat}

theorem taps_silence (zone : Zone) (index : Nat) :
    (bare .silence read bounds looping step last).taps head zone index =
      Index.minus index zone.lead >>= fun _ => .ok [] := by
  cases zone with
  | head past =>
      simp only [taps, bare, readRun, Kernel.width, Kernel.before, Nat.zero_sub, List.range_zero]
      rfl
  | room ahead =>
      simp only [taps, bare, readRun, Kernel.width, Kernel.before, Kernel.after, Nat.zero_sub,
        List.range_zero]
      rfl

theorem taps_nearest (zone : Zone) (index : Nat) :
    (bare .nearest read bounds looping step last).taps head zone index =
      Index.minus index zone.lead >>= fun first => readRun read first 1 := by
  cases zone with
  | head past => simp [taps, bare, Zone.lead, Kernel.width, Kernel.before]
  | room ahead => simp [taps, bare, Zone.lead, Kernel.width, Kernel.before, Kernel.after]

/-- Silence finds its way wherever the nearest sample is found. -/
theorem companions_of_nearest :
    Companions (fun _ => True) Eq (fun _ sample => sample = 0)
      (bare .nearest read bounds looping step last)
      (bare .silence other bounds looping step last) where
  approach := rfl
  landing := rfl
  bounds := rfl
  looping := rfl
  step := rfl
  last := rfl
  first := congrArg Head.first
  heads := fun _ => rfl
  sounds := by
    rintro head _ rfl zone index row
    rw [taps_nearest, taps_silence]
    apply (Leads.refl Eq.refl (Index.minus index zone.lead)).bind
    rintro first _ rfl
    exact leads_ok fun _ => rfl

/-- Silence finds its way whatever there is to read. -/
theorem companions_of_silence :
    Companions (fun _ => False) Eq Eq (bare .silence read bounds looping step last)
      (bare .silence other bounds looping step last) where
  approach := rfl
  landing := rfl
  bounds := rfl
  looping := rfl
  step := rfl
  last := rfl
  first := congrArg Head.first
  heads := fun _ => Leads.refl Eq.refl _
  sounds := by
    rintro head _ rfl zone index row
    rw [taps_silence, taps_silence]
    apply (Leads.refl Eq.refl _).mono
    rintro taps _ rfl
    rfl

/-- A kernel with no taps on either side has no tail to read. -/
theorem prepare_bare {kernel : Kernel} (none : kernel.after = 0) :
    prepare kernel read bounds looping step =
      bounds.lastIndex looping >>= fun last => .ok (bare kernel read bounds looping step last) := by
  simp only [prepare, readTail, none, List.range_zero, List.mapM_nil]
  rfl

end Scene

/-- A silent rendering beside one that is heard, each into a block of its own: they
came equally far, and the silent one holds zeros in its slots. -/
structure Rendering.Mutes (silent heard : Rendering) (block : Block) : Prop where
  count : silent.count = heard.count
  position : silent.voice.position = heard.voice.position
  looped : silent.voice.looped = heard.voice.looped
  zeros : ∀ slot (isSlot : slot < blockSize), slot < silent.count → silent.block[slot] = 0
  kept : ∀ slot (isSlot : slot < blockSize), silent.count ≤ slot →
    silent.block[slot] = block[slot]

def Rendering.setMethod (rendering : Rendering) (method : Method) : Rendering :=
  { rendering with voice := rendering.voice.setMethod method }

def Performance.setMethod (performance : Performance) (method : Method) : Performance :=
  ⟨performance.renderings.map (·.setMethod method), performance.voice.setMethod method⟩

namespace Voice

variable {data : SampleData} {counterpart : SampleData} {voice : Voice} {block : Block}

/-- A call that plays the nearest sample, and the same call made silent. -/
theorem silence_mutes (method : Method) {heard : Rendering}
    (rendered : (voice.setMethod .nearest).render data true looping block = .ok heard)
    (counterpart : SampleData) (other : Block) :
    ∃ silent, (voice.setMethod method).render counterpart false looping other = .ok silent ∧
      silent.Mutes heard other ∧
      ∃ next : Voice, heard.voice = next.setMethod .nearest ∧
        silent.voice = next.setMethod method := by
  change Kernel.nearest.render data.read (voice.setMethod .nearest) looping block = _ at rendered
  obtain ⟨course, ran, rfl⟩ := Kernel.render_eq_ok_iff.1 rendered
  have scenes : Leads (fun _ => True)
      (Scene.Companions (fun _ => True) Eq fun _ sample => sample = 0)
      (Scene.prepare .nearest data.read voice.bounds looping voice.step)
      (Scene.prepare .silence counterpart.read voice.bounds looping voice.step) := by
    rw [Scene.prepare_bare rfl, Scene.prepare_bare rfl]
    apply (Leads.refl Eq.refl (voice.bounds.lastIndex looping)).bind
    rintro last _ rfl
    exact Scene.companions_of_nearest
  have courses := @Kernel.course_leads _ _ _ .nearest .silence _ _ (voice.setMethod .nearest)
    (voice.setMethod method) looping rfl rfl rfl scenes
  obtain ⟨second, follows, matched⟩ := courses.ok ran
  have size : second.samples.length = second.slots.size := by simp [Course.samples]
  let next : Voice := { voice with position := course.position - .half, looped := course.looped }
  let silent : Rendering := ⟨second.slots.size, other.overwrite second.samples,
    { voice.setMethod method with
      position := second.position - .half, looped := second.looped }⟩
  have position : silent.voice.position = course.position - .half :=
    congrArg (· - Phase.half) matched.position.symm
  have looped : silent.voice.looped = course.looped := matched.looped.symm
  refine ⟨silent, Kernel.render_eq_ok_iff.2 ⟨second, follows, rfl⟩,
    ⟨matched.size.symm, position, looped, ?_, ?_⟩, next, rfl, ?_⟩
  · intro slot isSlot written
    have written : slot < second.samples.length := size ▸ written
    rw [Block.getElem_overwrite_of_lt _ _ isSlot written]
    exact matched.samples.get (matched.samples.length_eq ▸ written) written
  · intro slot isSlot unwritten
    exact Block.getElem_overwrite_of_le _ _ isSlot (size ▸ unwritten)
  · show ({ voice.setMethod method with
      position := second.position - .half, looped := second.looped } : Voice) = _
    rw [← matched.position, ← matched.looped]
    rfl

/-- A silent call of a voice with another method, on other data. -/
theorem silence_setMethod (voice : Voice) (method : Method) (data counterpart : SampleData)
    (looping : Bool) (block : Block) :
    (voice.setMethod method).render counterpart false looping block =
      (voice.render data false looping block).map (·.setMethod method) := by
  apply eq_map_of_leads
  have scenes : Leads (fun _ => False) (Scene.Companions (fun _ => False) Eq Eq)
      (Scene.prepare .silence data.read voice.bounds looping voice.step)
      (Scene.prepare .silence counterpart.read voice.bounds looping voice.step) := by
    rw [Scene.prepare_bare rfl, Scene.prepare_bare rfl]
    apply (Leads.refl Eq.refl (voice.bounds.lastIndex looping)).bind
    rintro last _ rfl
    exact Scene.companions_of_silence
  have courses := @Kernel.course_leads _ _ _ .silence .silence _ _ voice
    (voice.setMethod method) looping rfl rfl rfl scenes
  apply courses.bind
  intro course second matched
  have samples := List.forall₂_eq_eq_eq ▸ matched.samples
  show Rendering.mk second.slots.size (block.overwrite second.samples)
      { voice.setMethod method with
        position := second.position - .half, looped := second.looped } = _
  rw [← matched.size, ← matched.position, ← matched.looped, ← samples]
  rfl

end Voice

/-- An action of a session that is heard, and its counterpart in one that is silent: the
same change of speed, or a block rendered alike into whatever block. -/
inductive Action.Hushed : Action → Action → Prop where
  | speed (speed : Float32) : Hushed (.adjust (.speed speed)) (.adjust (.speed speed))
  | render (looping : Bool) (block counterpart : Block) :
      Hushed (.render true looping block) (.render false looping counterpart)

/-- Renderings of a silent session, each of which mutes its counterpart. -/
inductive Action.Muted : List Action → List Rendering → List Rendering → Prop where
  | nil : Muted [] [] []
  | adjust {adjustment : Adjustment} {actions : List Action} {heard silent : List Rendering}
      (rest : Muted actions heard silent) : Muted (.adjust adjustment :: actions) heard silent
  | render {looping : Bool} {block : Block} {actions : List Action} {first second : Rendering}
      {heard silent : List Rendering} (mutes : second.Mutes first block)
      (rest : Muted actions heard silent) :
      Muted (.render false looping block :: actions) (first :: heard) (second :: silent)

namespace Voice

variable {data counterpart : SampleData} {voice : Voice} {actions hushed : List Action}

/-- As far as the nearest sample is heard, silence keeps step with it. -/
theorem perform_muted (method : Method) (counterpart : SampleData) {performance : Performance}
    (lockstep : actions.Forall₂ Action.Hushed hushed)
    (performed : (voice.setMethod .nearest).perform data actions = .ok performance) :
    ∃ silent, (voice.setMethod method).perform counterpart hushed = .ok silent ∧
      Action.Muted hushed performance.renderings silent.renderings := by
  induction lockstep generalizing voice performance with
  | nil =>
      obtain rfl := Except.ok.inj performed
      exact ⟨_, rfl, .nil⟩
  | cons same rest inductionHypothesis =>
      cases same with
      | speed speed =>
          obtain ⟨silent, performs, muted⟩ := @inductionHypothesis (voice.setSpeed speed) _ performed
          exact ⟨silent, performs, .adjust muted⟩
      | render looping block other =>
          obtain ⟨heard, later, rendered, performs, rfl⟩ := perform_render_eq_ok_iff.1 performed
          obtain ⟨silent, renders, mutes, next, voice_eq, silent_eq⟩ :=
            silence_mutes method rendered counterpart other
          rw [voice_eq] at performs
          obtain ⟨quiet, hushes, muted⟩ := inductionHypothesis performs
          rw [← silent_eq] at hushes
          exact ⟨_, perform_render_eq_ok_iff.2 ⟨silent, quiet, renders, hushes, rfl⟩,
            .render mutes muted⟩

/-- A silent session of a voice with another method, on other data. -/
theorem perform_setMethod (method : Method) (data counterpart : SampleData)
    (lockstep : actions.Forall₂ Action.Hushed hushed) :
    (voice.setMethod method).perform counterpart hushed =
      (voice.perform data hushed).map (·.setMethod method) := by
  induction lockstep generalizing voice with
  | nil => rfl
  | cons same rest inductionHypothesis =>
      cases same with
      | speed speed => exact @inductionHypothesis (voice.setSpeed speed)
      | render looping block other =>
          rw [perform, perform, voice.silence_setMethod method data]
          cases voice.render data false looping other with
          | error _ => rfl
          | ok rendering =>
              show ((rendering.voice.setMethod method).perform counterpart _ >>= _) =
                Except.map _ (rendering.voice.perform data _ >>= _)
              rw [inductionHypothesis]
              cases rendering.voice.perform data _ with
              | error _ => rfl
              | ok _ => rfl

/-- Silence keeps step with the nearest sample through any session, whatever else there
is to read and whatever the method: as long as calls that are heard end, silent ones end
equally far, with zeros. And a silent session is the same for all data and all methods. -/
theorem perform_hushed (lockstep : actions.Forall₂ Action.Hushed hushed) (method : Method)
    (counterpart : SampleData) :
    (∀ performance, (voice.setMethod .nearest).perform data actions = .ok performance →
      ∃ silent, (voice.setMethod method).perform counterpart hushed = .ok silent ∧
        Action.Muted hushed performance.renderings silent.renderings) ∧
      ∀ (another : Method) (elsewhere : SampleData),
        (voice.setMethod another).perform elsewhere hushed =
          ((voice.setMethod method).perform counterpart hushed).map (·.setMethod another) := by
  constructor
  · intro performance performed
    exact perform_muted method counterpart lockstep performed
  · intro another elsewhere
    exact @perform_setMethod (voice.setMethod method) _ _ another counterpart elsewhere lockstep

/-- A voice whose region ends before it starts comes past a loop of the first sample, turns
back to half a sample below zero, and stops looping there. Silence does so on no data. -/
theorem perform_hushed_below_zero :
    ∃ performance silent,
      ((Voice.mk ⟨0⟩ 1 false ⟨5, 0, 0, 1⟩ .seventhOrder).setMethod .nearest).perform
        (.ofWords #[7]) [.adjust (.speed 0.0078125), .render true true (.filled 0),
          .adjust (.speed 0), .render true false (.filled 0)] = .ok performance ∧
      ((Voice.mk ⟨0⟩ 1 false ⟨5, 0, 0, 1⟩ .seventhOrder).setMethod .seventhOrder).perform
        (.ofWords #[]) [.adjust (.speed 0.0078125), .render false true (.filled 1),
          .adjust (.speed 0), .render false false (.filled 2)] = .ok silent ∧
      Action.Muted [.adjust (.speed 0.0078125), .render false true (.filled 1),
          .adjust (.speed 0), .render false false (.filled 2)]
        performance.renderings silent.renderings := by
  let data : SampleData := .ofWords #[7]
  let voice : Voice := ⟨⟨0⟩, 1, false, ⟨5, 0, 0, 1⟩, .seventhOrder⟩
  let turned : Voice := ⟨⟨0⟩ - .half, 0, true, ⟨5, 0, 0, 1⟩, .nearest⟩
  have ran : (Scene.bare .nearest data.read voice.bounds true (.ofSpeed 0.0078125) 0).laps
      ⟨5, []⟩ (.begin (voice.position + .half) false) =
        .ok ⟨.replicate 64 ⟨0, 7⟩, 1, ⟨0⟩, true⟩ := by
    rw [Scene.laps]
    decide +kernel
  have stays : (Scene.bare .nearest data.read voice.bounds false (.ofSpeed 0) 0).laps
      ⟨0, []⟩ (.begin (turned.position + .half) true) =
        .ok ⟨.replicate 64 ⟨0, 7⟩, 0, ⟨0⟩, true⟩ := by
    rw [Scene.laps]
    decide +kernel
  obtain ⟨first, rendered, next⟩ : ∃ rendering,
      ((voice.setMethod .nearest).setSpeed 0.0078125).render data true true (.filled 0) =
        .ok rendering ∧ rendering.voice.setSpeed 0 = turned := by
    have course : Kernel.nearest.course data.read
        ((voice.setMethod .nearest).setSpeed 0.0078125) true = _ := ran
    change ∃ rendering, (Kernel.nearest.course _ _ _ >>= _) = _ ∧ _
    rw [course]
    exact ⟨_, rfl, rfl⟩
  obtain ⟨second, renders⟩ : ∃ rendering,
      turned.render data true false (.filled 0) = .ok rendering := by
    have course : Kernel.nearest.course data.read turned false = _ := stays
    change ∃ rendering, (Kernel.nearest.course _ _ _ >>= _) = _
    rw [course]
    exact ⟨_, rfl⟩
  have performed : (voice.setMethod .nearest).perform data
      [.adjust (.speed 0.0078125), .render true true (.filled 0), .adjust (.speed 0),
        .render true false (.filled 0)] = .ok ⟨[first, second], second.voice⟩ := by
    apply perform_render_eq_ok_iff.2 ⟨first, ⟨[second], second.voice⟩, rendered, ?_, rfl⟩
    show (first.voice.setSpeed 0).perform data _ = _
    rw [next]
    exact perform_render_eq_ok_iff.2 ⟨second, ⟨[], second.voice⟩, renders, rfl, rfl⟩
  have lockstep : List.Forall₂ Action.Hushed
      [.adjust (.speed 0.0078125), .render true true (.filled 0), .adjust (.speed 0),
        .render true false (.filled 0)]
      [.adjust (.speed 0.0078125), .render false true (.filled 1), .adjust (.speed 0),
        .render false false (.filled 2)] :=
    .cons (.speed _) (.cons (.render _ _ _) (.cons (.speed _) (.cons (.render _ _ _) .nil)))
  obtain ⟨silent, hushes, muted⟩ :=
    (perform_hushed lockstep .seventhOrder (.ofWords #[])).1 _ performed
  exact ⟨_, silent, performed, hushes, muted⟩

end Voice

end Resampler
