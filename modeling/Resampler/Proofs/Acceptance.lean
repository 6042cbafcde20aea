import Resampler.Voice

/-!
Contract: the verdict of the check of bounds.

Owns:
- what is asked of a region and of a loop, in numbers of samples and in order,
  each with the problem that is reported where it is not given;
- the verdict on such a list, which is the first problem in it;
- the proof that the check ends in that verdict and never in a fault, whatever
  the bounds and the size of the data;
- the two conditions that accepted bounds meet.

Does not own: the behaviour of a voice whose bounds were accepted.
-/

namespace Resampler

/-- Something that is asked of bounds, and the problem where it is not given. -/
structure Requirement where
  met : Bool
  problem : SetupError

namespace Requirement

/-- The verdict on requirements in order: the first that is not met is reported. -/
def verdict (requirements : List Requirement) : Except SetupError Unit :=
  match requirements.find? fun requirement => !requirement.met with
  | none => .ok ()
  | some unmet => .error unmet.problem

variable {requirements : List Requirement}

theorem verdict_cons (requirement : Requirement) (rest : List Requirement) :
    verdict (requirement :: rest) =
      if requirement.met then verdict rest else .error requirement.problem := by
  unfold verdict
  rw [List.find?_cons]
  cases requirement.met <;> rfl

theorem verdict_eq_ok_iff :
    verdict requirements = .ok () ↔ ∀ requirement ∈ requirements, requirement.met = true := by
  unfold verdict
  split
  · rename_i none
    simpa using none
  · rename_i unmet found
    have member := List.mem_of_find?_eq_some found
    have fails := List.find?_some found
    simp only [reduceCtorEq, false_iff]
    intro all
    simp [all unmet member] at fails

theorem verdict_append (first second : List Requirement) :
    verdict (first ++ second) = verdict first >>= fun _ => verdict second := by
  unfold verdict
  rw [List.find?_append]
  cases first.find? fun requirement => !requirement.met <;> rfl

end Requirement

namespace Bounds

open Requirement

variable {bounds : Bounds} {size : Nat} {looping : Bool} {method : Method}

def regionRequirements (bounds : Bounds) (size : Nat) (method : Method) : List Requirement :=
  [⟨bounds.start.toNat ≤ bounds.last.toNat,
      .startAfterLast bounds.start.toNat bounds.last.toNat⟩,
    ⟨bounds.last.toNat < size, .indexOutside bounds.last.toNat size⟩,
    ⟨bounds.start.toNat + method.span ≤ bounds.last.toNat,
      .regionTooShort method method.span (bounds.last.toNat - bounds.start.toNat)⟩]

def loopRequirements (bounds : Bounds) (size : Nat) (method : Method) : List Requirement :=
  [⟨bounds.loopStart.toNat < bounds.loopEnd.toNat,
      .emptyLoop bounds.loopStart.toNat bounds.loopEnd.toNat⟩,
    ⟨bounds.loopEnd.toNat ≤ size, .indexOutside bounds.loopEnd.toNat size⟩,
    ⟨bounds.loopStart.toNat + method.span ≤ bounds.loopEnd.toNat - 1,
      .regionTooShort method method.span (bounds.loopEnd.toNat - 1 - bounds.loopStart.toNat)⟩]

/-- What a method asks of bounds: of the region first, and of the loop for a voice
that loops. -/
def requirements (bounds : Bounds) (size : Nat) (looping : Bool) (method : Method) :
    List Requirement :=
  bounds.regionRequirements size method ++
    if looping then bounds.loopRequirements size method else []

/-- The first sample played is never closer to the end of the loop than the
start of the loop is, so that this part of the check finds nothing new. -/
private theorem entryTooShort_of_long {loopLast span : Nat}
    (inWord : loopLast < Index.bound) (long : bounds.loopStart.toNat + span ≤ loopLast) :
    bounds.entryTooShort loopLast span = .ok false := by
  have fits : min bounds.loopStart.toNat bounds.start.toNat + span < Index.bound := by omega
  have enough : ¬ loopLast < min bounds.loopStart.toNat bounds.start.toNat + span := by omega
  rw [entryTooShort, Index.plus_of_lt fits]
  simp [bind, Except.bind, pure, Except.pure, enough]

theorem validateLoop_eq_verdict (bounds : Bounds) (size : Nat) (method : Method) :
    bounds.validateLoop size method = .ok (verdict (bounds.loopRequirements size method)) := by
  have endInWord := bounds.loopEnd.toNat_lt
  simp only [validateLoop, loopRequirements, verdict_cons, UInt32.le_iff_toNat_le,
    decide_eq_true_eq]
  by_cases ordered : bounds.loopStart.toNat < bounds.loopEnd.toNat
  · rw [if_neg (Nat.not_le.2 ordered), if_pos ordered]
    by_cases inside : bounds.loopEnd.toNat ≤ size
    · rw [if_neg (Nat.not_lt.2 inside), if_pos inside,
        Index.minus_of_le (by omega : 1 ≤ bounds.loopEnd.toNat)]
      simp only [bind, Except.bind]
      rw [Index.minus_of_le (by omega : bounds.loopStart.toNat ≤ bounds.loopEnd.toNat - 1)]
      simp only
      by_cases long : bounds.loopStart.toNat + method.span ≤ bounds.loopEnd.toNat - 1
      · have inWord : bounds.loopEnd.toNat - 1 < Index.bound := by
          show _ < 2 ^ 32
          omega
        rw [if_neg (by omega), if_pos long, entryTooShort_of_long inWord long]
        rfl
      · rw [if_pos (by omega), if_neg long]
        rfl
    · rw [if_pos (Nat.lt_of_not_le inside), if_neg inside]
      rfl
  · rw [if_pos (Nat.le_of_not_lt ordered), if_neg ordered]
    rfl

/-- The check ends in the verdict on what the method asks. -/
theorem validate_eq_verdict (bounds : Bounds) (size : Nat) (looping : Bool) (method : Method) :
    bounds.validate size looping method =
      .ok (verdict (bounds.requirements size looping method)) := by
  rw [requirements, verdict_append]
  simp only [validate, regionRequirements, verdict_cons, UInt32.lt_iff_toNat_lt,
    decide_eq_true_eq]
  by_cases ordered : bounds.start.toNat ≤ bounds.last.toNat
  · rw [if_neg (Nat.not_lt.2 ordered), if_pos ordered]
    by_cases inside : bounds.last.toNat < size
    · rw [if_neg (Nat.not_le.2 inside), if_pos inside, Index.minus_of_le ordered]
      simp only [bind, Except.bind]
      by_cases long : bounds.start.toNat + method.span ≤ bounds.last.toNat
      · rw [if_neg (by omega), if_pos long]
        cases looping with
        | true => exact validateLoop_eq_verdict bounds size method
        | false => rfl
      · rw [if_pos (by omega), if_neg long]
        rfl
    · rw [if_pos (Nat.le_of_not_lt inside), if_neg inside]
      rfl
  · rw [if_pos (Nat.lt_of_not_le ordered), if_neg ordered]
    rfl

/-! ## Accepted bounds -/

structure RegionFits (bounds : Bounds) (size span : Nat) : Prop where
  long : bounds.start.toNat + span ≤ bounds.last.toNat
  inside : bounds.last.toNat < size

structure LoopFits (bounds : Bounds) (size span : Nat) : Prop where
  long : bounds.loopStart.toNat + span < bounds.loopEnd.toNat
  inside : bounds.loopEnd.toNat ≤ size

theorem RegionFits.mono {span less : Nat}
    (fits : bounds.RegionFits size span) (shorter : less ≤ span) :
    bounds.RegionFits size less :=
  ⟨by have := fits.long; omega, fits.inside⟩

theorem LoopFits.mono {span less : Nat}
    (fits : bounds.LoopFits size span) (shorter : less ≤ span) :
    bounds.LoopFits size less :=
  ⟨by have := fits.long; omega, fits.inside⟩

theorem verdict_region_eq_ok_iff :
    verdict (bounds.regionRequirements size method) = .ok () ↔
      bounds.RegionFits size method.span := by
  rw [verdict_eq_ok_iff]
  simp only [regionRequirements, List.forall_mem_cons, List.not_mem_nil, decide_eq_true_eq]
  constructor
  · rintro ⟨_, inside, long, _⟩
    exact ⟨long, inside⟩
  · intro fits
    exact ⟨Nat.le_of_add_right_le fits.long, fits.inside, fits.long, nofun⟩

theorem verdict_loop_eq_ok_iff :
    verdict (bounds.loopRequirements size method) = .ok () ↔
      bounds.LoopFits size method.span := by
  rw [verdict_eq_ok_iff]
  simp only [loopRequirements, List.forall_mem_cons, List.not_mem_nil, decide_eq_true_eq]
  constructor
  · rintro ⟨ordered, inside, long, _⟩
    exact ⟨by omega, inside⟩
  · intro fits
    have long := fits.long
    exact ⟨by omega, fits.inside, by omega, nofun⟩

/-- The check accepts exactly the bounds whose region fits and, for a voice
that loops, whose loop fits as well. -/
theorem validate_eq_ok_iff {bounds : Bounds} {size : Nat} {looping : Bool} {method : Method} :
    bounds.validate size looping method = .ok (.ok ()) ↔
      bounds.RegionFits size method.span ∧
        (looping = true → bounds.LoopFits size method.span) := by
  rw [validate_eq_verdict, Except.ok.injEq, requirements, verdict_eq_ok_iff,
    List.forall_mem_append, ← verdict_eq_ok_iff, ← verdict_eq_ok_iff, verdict_region_eq_ok_iff]
  cases looping with
  | true => simp [verdict_loop_eq_ok_iff]
  | false => simp [verdict]

/-! ## Refused bounds -/

/-- What is reported as too short is: by then it is known to begin before it ends. -/
private theorem available_lt_of_refused {ordered inside : Requirement} {first last : Nat}
    (places : ordered.met = true → first ≤ last)
    (others : ∀ {reported needed available},
      ordered.problem ≠ .regionTooShort reported needed available ∧
        inside.problem ≠ .regionTooShort reported needed available)
    {reported : Method} {needed available : Nat}
    (refused : verdict [ordered, inside, ⟨first + method.span ≤ last,
      .regionTooShort method method.span (last - first)⟩] =
        .error (.regionTooShort reported needed available)) : available < needed := by
  simp only [verdict_cons, decide_eq_true_eq] at refused
  split at refused
  · rename_i met
    have begun := places met
    split at refused
    · split at refused
      · nomatch refused
      · cases refused
        omega
    · exact absurd (Except.error.inj refused) others.2
  · exact absurd (Except.error.inj refused) others.1

/-- The check of any bounds, for data of any size, ends without a fault in the first
problem of what is asked, and accepts where there is none. A region or a loop is
reported as too short only with fewer samples than it needs. What is accepted for
a voice that loops is accepted for one that does not, and what is accepted for a
method is accepted for each that spans no more. -/
theorem validate_decides (bounds : Bounds) (size : Nat) (looping : Bool) (method : Method) :
    bounds.validate size looping method =
        .ok (verdict (bounds.requirements size looping method)) ∧
      (bounds.validate size looping method = .ok (.ok ()) ↔
        bounds.start.toNat ≤ bounds.last.toNat ∧ bounds.last.toNat < size ∧
          method.span ≤ bounds.last.toNat - bounds.start.toNat ∧
          (looping = true →
            bounds.loopStart.toNat < bounds.loopEnd.toNat ∧ bounds.loopEnd.toNat ≤ size ∧
              method.span ≤ bounds.loopEnd.toNat - 1 - bounds.loopStart.toNat)) ∧
      (∀ reported needed available,
        bounds.validate size looping method =
            .ok (.error (.regionTooShort reported needed available)) →
          available < needed) ∧
      (bounds.validate size looping method = .ok (.ok ()) →
        bounds.validate size false method = .ok (.ok ()) ∧
          ∀ other : Method, other.span ≤ method.span →
            bounds.validate size looping other = .ok (.ok ())) := by
  refine ⟨validate_eq_verdict bounds size looping method, ?_, ?_, ?_⟩
  · rw [validate_eq_ok_iff]
    constructor
    · rintro ⟨region, loop⟩
      have long := region.long
      refine ⟨by omega, region.inside, by omega, ?_⟩
      intro loops
      have long := (loop loops).long
      exact ⟨by omega, (loop loops).inside, by omega⟩
    · rintro ⟨ordered, inside, long, loop⟩
      refine ⟨⟨by omega, inside⟩, ?_⟩
      intro loops
      obtain ⟨ordered, inside, long⟩ := loop loops
      exact ⟨by omega, inside⟩
  · intro reported needed available refused
    rw [validate_eq_verdict, Except.ok.injEq, requirements, verdict_append] at refused
    cases region : verdict (bounds.regionRequirements size method) with
    | error problem =>
        rw [region] at refused
        exact available_lt_of_refused of_decide_eq_true (by simp) (region.trans refused)
    | ok _ =>
        rw [region] at refused
        cases looping with
        | true =>
            have places : bounds.loopStart.toNat < bounds.loopEnd.toNat →
                bounds.loopStart.toNat ≤ bounds.loopEnd.toNat - 1 := by omega
            exact available_lt_of_refused (places ∘ of_decide_eq_true) (by simp) refused
        | false => nomatch refused
  · intro accepted
    obtain ⟨region, loop⟩ := validate_eq_ok_iff.1 accepted
    refine ⟨validate_eq_ok_iff.2 ⟨region, nofun⟩, ?_⟩
    intro other shorter
    exact validate_eq_ok_iff.2 ⟨region.mono shorter, fun loops => (loop loops).mono shorter⟩

end Bounds

end Resampler
