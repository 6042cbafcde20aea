import Resampler.Proofs.OneShotPlayback
import Resampler.Proofs.Speeds

/-!
Contract: a voice that does not loop lasts no longer at a greater speed.

Owns:
- the leading slots of a block, told by what is inside and what is after;
- two runs of one voice at two speeds, block by block: the faster one is never
  ahead in slots.

Does not own: what the slots hold.
-/

namespace Resampler

def Performance.filled (performance : Performance) : Nat :=
  (performance.renderings.map Rendering.count).sum

namespace Bounds

variable {bounds : Bounds} {kernel : Kernel} {sample : Nat → Float32}

private theorem exists_leading (bounds : Bounds) (kernel : Kernel) (position step most : Nat) :
    ∃ count ≤ most,
      (∀ slot < count,
        (position + slot * step + kernel.shift.toNat) / 2 ^ 32 ≤ bounds.last.toNat) ∧
      (count = most ∨
        bounds.last.toNat < (position + count * step + kernel.shift.toNat) / 2 ^ 32) := by
  induction most with
  | zero => exact ⟨0, Nat.le_refl _, fun _ none => absurd none (Nat.not_lt_zero _), .inl rfl⟩
  | succ most inductionHypothesis =>
      obtain ⟨count, fewer, inside, rfl | past⟩ := inductionHypothesis
      · rcases Nat.lt_or_ge bounds.last.toNat
          ((position + count * step + kernel.shift.toNat) / 2 ^ 32) with past | located
        · exact ⟨count, Nat.le_succ _, inside, .inr past⟩
        · refine ⟨count + 1, Nat.le_refl _, fun slot counted => ?_, .inl rfl⟩
          rcases Nat.lt_succ_iff_lt_or_eq.1 counted with earlier | rfl
          · exact inside slot earlier
          · exact located
      · exact ⟨count, by omega, inside, .inr past⟩

/-- The leading slots are located no later than the last sample, and short of a block the next one
would not be. -/
theorem leading_spec (bounds : Bounds) (kernel : Kernel) (position step : Nat) :
    bounds.leading kernel position step ≤ blockSize ∧
      (∀ slot < bounds.leading kernel position step,
        (position + slot * step + kernel.shift.toNat) / 2 ^ 32 ≤ bounds.last.toNat) ∧
      (bounds.leading kernel position step = blockSize ∨ bounds.last.toNat <
        (position + bounds.leading kernel position step * step + kernel.shift.toNat) / 2 ^ 32) := by
  obtain ⟨count, inBlock, inside, ending⟩ := exists_leading bounds kernel position step blockSize
  rw [leading_eq inBlock inside ending]
  exact ⟨inBlock, inside, ending⟩

/-- One block of two runs that began at one position. When the faster run has not filled more slots
before the block, it has not after it: where the slower one falls short of the block, the faster
one is past the last sample at the same number of slots. -/
theorem add_leading_le {origin slow fast ahead behind : Nat} (paced : slow ≤ fast)
    (ordered : behind ≤ ahead) :
    behind + bounds.leading kernel (origin + behind * fast) fast ≤
      ahead + bounds.leading kernel (origin + ahead * slow) slow := by
  obtain ⟨_, _, slowEnding⟩ := bounds.leading_spec kernel (origin + ahead * slow) slow
  obtain ⟨fastInBlock, fastInside, _⟩ := bounds.leading_spec kernel (origin + behind * fast) fast
  generalize bounds.leading kernel (origin + ahead * slow) slow = filled at slowEnding ⊢
  generalize bounds.leading kernel (origin + behind * fast) fast = others at fastInBlock fastInside ⊢
  rcases slowEnding with rfl | past
  · omega
  by_contra more
  have located := fastInside (ahead + filled - behind) (by omega)
  have further : (ahead + filled) * slow ≤ (ahead + filled) * fast := Nat.mul_le_mul_left _ paced
  have fastSlots : origin + behind * fast + (ahead + filled - behind) * fast =
      origin + (ahead + filled) * fast := by
    rw [Nat.add_assoc, ← Nat.add_mul]
    congr 2
    omega
  have slowSlots : origin + ahead * slow + filled * slow = origin + (ahead + filled) * slow := by
    rw [Nat.add_assoc, ← Nat.add_mul]
  rw [fastSlots] at located
  rw [slowSlots] at past
  exact absurd (past.trans_le ((Nat.div_le_div_right (by omega)).trans located)) (Nat.lt_irrefl _)

/-- The count of a call that does not loop, heard or not: its leading slots. -/
def Fills (bounds : Bounds) (method : Method) (position : Nat) (call : Call)
    (rendering : Rendering) : Prop :=
  rendering.count =
    bounds.leading (if call.audible then method.kernel else .silence) position call.step

/-- Block by block, the faster of two runs is never ahead in slots. -/
theorem sum_counts_le {method : Method}
    {origin slow fast ahead behind slowPosition fastPosition : Nat}
    {slowCalls fastCalls : List Call} {slowRenderings fastRenderings : List Rendering}
    (paced : slow ≤ fast)
    (slowAnswered : Call.Answered (bounds.Fills method) slowPosition slowCalls slowRenderings)
    (fastAnswered : Call.Answered (bounds.Fills method) fastPosition fastCalls fastRenderings)
    (alike : slowCalls.Forall₂ (fun slow fast => slow.audible = fast.audible) fastCalls)
    (slowSteps : ∀ call ∈ slowCalls, call.step = slow)
    (fastSteps : ∀ call ∈ fastCalls, call.step = fast)
    (slowAt : slowPosition = origin + ahead * slow)
    (fastAt : fastPosition = origin + behind * fast) (ordered : behind ≤ ahead) :
    behind + (fastRenderings.map Rendering.count).sum ≤
      ahead + (slowRenderings.map Rendering.count).sum := by
  -- The two runs are taken apart block by block; what carries over is that the slots filled so far
  -- are no more in the faster one.
  induction alike generalizing slowPosition fastPosition slowRenderings fastRenderings ahead
    behind with
  | nil =>
      cases slowAnswered
      cases fastAnswered
      simpa using ordered
  | cons kind _ inductionHypothesis =>
      cases slowAnswered with
      | cons slowFirst slowRest =>
      cases fastAnswered with
      | cons fastFirst fastRest =>
          have slowStep := slowSteps _ List.mem_cons_self
          have fastStep := fastSteps _ List.mem_cons_self
          rw [Fills, slowStep, slowAt, kind] at slowFirst
          rw [Fills, fastStep, fastAt] at fastFirst
          have next := inductionHypothesis slowRest fastRest
            (fun call member => slowSteps call (List.mem_cons_of_mem _ member))
            (fun call member => fastSteps call (List.mem_cons_of_mem _ member))
            (by rw [slowStep, slowFirst, slowAt, Nat.add_assoc, ← Nat.add_mul])
            (by rw [fastStep, fastFirst, fastAt, Nat.add_assoc, ← Nat.add_mul])
            (add_leading_le paced ordered)
          rw [List.map_cons, List.map_cons, List.sum_cons, List.sum_cons, slowFirst, fastFirst]
          omega

end Bounds

namespace Voice

variable {data : SampleData} {limit : Nat} {call : Call} {calls : List Call} {voice : Voice}

/-- A voice that has not turned back, before a limit however its blocks are located: silence
rounds where a method may truncate. -/
structure Underway (voice : Voice) (limit : Nat) : Prop where
  room : limit + 3 * 2 ^ 32 ≤ 2 ^ 64
  fresh : voice.looped = false
  entered : voice.bounds.start.toNat * 2 ^ 32 ≤
    voice.position.toNat + voice.method.kernel.shift.toNat
  below : voice.position.toNat + 2 ^ 31 < limit

/-- Silence rounds, and the method of a voice rounds or truncates. -/
theorem shift_le_kernel (voice : Voice) (audible : Bool) :
    voice.method.kernel.shift.toNat ≤ (voice.kernel audible).shift.toNat := by
  cases audible with
  | true => exact Nat.le_refl _
  | false => exact voice.method.kernel.toNat_shift_le

theorem Underway.entry_le (underway : voice.Underway limit) {kernel : Kernel}
    (further : voice.method.kernel.shift.toNat ≤ kernel.shift.toNat) :
    voice.bounds.entry voice.looped ≤ (voice.position + kernel.shift).index := by
  obtain ⟨room, fresh, entered, below⟩ := underway
  have moved := kernel.toNat_shift_le
  rw [fresh, Phase.le_index_iff, Phase.toNat_add_of_lt (by omega)]
  exact entered.trans (by omega)

theorem render_underway
    (playable : voice.bounds.Playable voice.method.kernel data.read data.sample)
    (underway : voice.Underway limit)
    (paced : (voice.bounds.last.toNat + 2) * 2 ^ 32 + call.step ≤ limit) :
    ∃ rendering, (voice.setSpeed call.speed).render data call.audible false call.block =
        .ok rendering ∧
      voice.bounds.Fills voice.method voice.position.toNat call rendering ∧
      rendering.voice = ⟨rendering.voice.position, call.speed, false, voice.bounds, voice.method⟩ ∧
      rendering.voice.position.toNat = voice.position.toNat + rendering.count * call.step ∧
      rendering.voice.Underway limit := by
  let sped := voice.setSpeed call.speed
  let kernel := sped.kernel call.audible
  obtain ⟨room, fresh, entered, below⟩ := id underway
  have few : kernel.after ≤ 3 := kernel.after_le
  have moved := kernel.toNat_shift_le
  have heard : voice.bounds.Playable kernel data.read data.sample :=
    ⟨(Nat.add_le_add_left (sped.span_kernel_le call.audible) _).trans playable.long,
      playable.given⟩
  have regular : (Scene.staging kernel data.read data.sample voice.bounds false
      sped.step).Regular data.sample voice.looped := fresh ▸ heard.regular
  have below : voice.position.toNat + kernel.shift.toNat < limit - 2 ^ 31 + kernel.shift.toNat := by
    omega
  have paced : (voice.bounds.last.toNat + 1) * 2 ^ 32 + call.step ≤
      limit - 2 ^ 31 + kernel.shift.toNat := by
    apply Nat.le_of_lt_succ
    omega
  obtain ⟨rendering, rendered, plays, _, after, _, _⟩ :=
    @Kernel.render_out kernel _ _ sped (limit - 2 ^ 31 + kernel.shift.toNat) regular (by omega)
      (underway.entry_le (sped.shift_le_kernel call.audible)) below (fun _ => paced) call.block
  have voice_eq : rendering.voice =
      ⟨rendering.voice.position, call.speed, false, voice.bounds, voice.method⟩ := by
    rw [← fresh]
    exact plays.voice_eq
  refine ⟨rendering, ?_, plays.count, voice_eq, plays.moved, ?_⟩
  · rw [Voice.render_eq_kernel]
    exact rendered
  · have onward : rendering.voice.position.toNat =
        voice.position.toNat + rendering.count * call.step := plays.moved
    refine ⟨room, by rw [voice_eq], ?_, by omega⟩
    rw [voice_eq]
    exact entered.trans (Nat.add_le_add_right (onward ▸ Nat.le_add_right _ _) _)

theorem perform_underway
    (playable : voice.bounds.Playable voice.method.kernel data.read data.sample)
    (underway : voice.Underway limit)
    (paced : ∀ call ∈ calls, (voice.bounds.last.toNat + 2) * 2 ^ 32 + call.step ≤ limit) :
    ∃ performance, voice.perform data (calls.flatMap (Call.actions false)) = .ok performance ∧
      Call.Answered (voice.bounds.Fills voice.method) voice.position.toNat calls
        performance.renderings := by
  induction calls generalizing voice with
  | nil => exact ⟨⟨[], voice⟩, rfl, .nil⟩
  | cons call calls inductionHypothesis =>
      obtain ⟨rendering, rendered, fills, voice_eq, moved, after⟩ :=
        render_underway playable underway (paced call (by simp))
      have bounds : rendering.voice.bounds = voice.bounds := by rw [voice_eq]
      have method : rendering.voice.method = voice.method := by rw [voice_eq]
      rw [← bounds, ← method] at playable
      rw [← bounds] at paced
      obtain ⟨rest, performed, fillsRest⟩ :=
        inductionHypothesis playable after (fun other member => paced other (by simp [member]))
      rw [bounds, method, moved] at fillsRest
      exact ⟨_, Call.perform_calls rendered performed, .cons fills fillsRest⟩

/-- A greater speed never makes a shorter step, and no voice that does not loop lasts longer at it.
Over any number of blocks, each of them heard or passed over in silence in both runs alike, the
faster run fills no more slots than the slower one. -/
theorem perform_filled_le {slower faster : Float32} (ordered : slower ≤ faster) :
    Phase.ofSpeed slower ≤ Phase.ofSpeed faster ∧
      ∀ (data : SampleData) (voice : Voice) (slowCalls fastCalls : List Call),
        voice.validate data false = .ok (.ok ()) → voice.looped = false →
        voice.bounds.start.toNat ≤ (voice.position + voice.method.kernel.shift).index →
        voice.position.toNat + 4 * 2 ^ 32 ≤ 2 ^ 64 →
        (∀ speed ∈ [slower, faster],
          (voice.bounds.last.toNat + 5) * 2 ^ 32 + (Phase.ofSpeed speed).toNat ≤ 2 ^ 64) →
        (∀ call ∈ slowCalls, call.speed = slower) → (∀ call ∈ fastCalls, call.speed = faster) →
        slowCalls.Forall₂ (fun slow fast => slow.audible = fast.audible) fastCalls →
        ∃ slow fast,
          voice.perform data (slowCalls.flatMap (Call.actions false)) = .ok slow ∧
          voice.perform data (fastCalls.flatMap (Call.actions false)) = .ok fast ∧
          fast.filled ≤ slow.filled := by
  refine ⟨Phase.ofSpeed_le_ofSpeed ordered, ?_⟩
  intro data voice slowCalls fastCalls accepted fresh started early paced slowSpeeds fastSpeeds alike
  have moved := voice.method.kernel.toNat_shift_le
  have playable := playable_of_validate accepted
  have underway : voice.Underway (2 ^ 64 - 3 * 2 ^ 32) := by
    refine ⟨by omega, fresh, ?_, by omega⟩
    rwa [Phase.le_index_iff, Phase.toNat_add_of_lt (by omega)] at started
  have slowSteps : ∀ call ∈ slowCalls, call.step = (Phase.ofSpeed slower).toNat := by
    intro call member
    rw [Call.step, slowSpeeds call member]
  have fastSteps : ∀ call ∈ fastCalls, call.step = (Phase.ofSpeed faster).toNat := by
    intro call member
    rw [Call.step, fastSpeeds call member]
  have within : ∀ speed ∈ [slower, faster],
      (voice.bounds.last.toNat + 2) * 2 ^ 32 + (Phase.ofSpeed speed).toNat ≤
        2 ^ 64 - 3 * 2 ^ 32 := by
    intro speed member
    have := paced speed member
    apply Nat.le_of_lt_succ
    omega
  obtain ⟨slow, slowPerformed, slowAnswered⟩ := perform_underway playable underway
    fun call member => slowSteps call member ▸ within slower (by simp)
  obtain ⟨fast, fastPerformed, fastAnswered⟩ := perform_underway playable underway
    fun call member => fastSteps call member ▸ within faster (by simp)
  refine ⟨slow, fast, slowPerformed, fastPerformed, ?_⟩
  have begun : ∀ step, voice.position.toNat = voice.position.toNat + 0 * step := by
    intro step
    omega
  have total := Bounds.sum_counts_le (Phase.le_iff_toNat_le.1 (Phase.ofSpeed_le_ofSpeed ordered))
    slowAnswered fastAnswered alike slowSteps fastSteps (begun _) (begun _) (Nat.le_refl _)
  rwa [Nat.zero_add, Nat.zero_add] at total

/-- Three samples at half speed and at twice the speed, first heard and then not. -/
theorem perform_filled_le_linear :
    Phase.ofSpeed 0.5 ≤ Phase.ofSpeed 2 ∧
      ∃ slow fast,
        (make ⟨0, 2, 0, 0⟩ ⟨.linear, 1⟩).perform (.ofWords #[7, -7, 7])
          ([⟨0.5, true, .filled 0⟩, ⟨0.5, false, .filled 0⟩].flatMap (Call.actions false)) =
            .ok slow ∧
        (make ⟨0, 2, 0, 0⟩ ⟨.linear, 1⟩).perform (.ofWords #[7, -7, 7])
          ([⟨2, true, .filled 1⟩, ⟨2, false, .filled 1⟩].flatMap (Call.actions false)) =
            .ok fast ∧
        fast.filled ≤ slow.filled := by
  have ordered : (0.5 : Float32) ≤ 2 := by decide
  obtain ⟨steps, lasts⟩ := perform_filled_le ordered
  refine ⟨steps, lasts _ _ _ _ rfl rfl (by decide) (by decide) ?_ (by simp) (by simp)
    (.cons rfl (.cons rfl .nil))⟩
  intro speed member
  rcases List.mem_pair.1 member with rfl | rfl <;> decide

end Voice

end Resampler
