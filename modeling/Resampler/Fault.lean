/-!
Contract: arithmetic on sample indices that refuses to leave 32 bits.

Owns:
- the reasons for which a render call can be abandoned, and the one for which it never
  ends;
- computations that may come to one of them, one after the other;
- checked sums and differences of indices, and the exact conditions under
  which they succeed.

Does not own: reads of sample data, play positions (whose arithmetic wraps),
or problems found when a voice is set up.
-/

namespace Resampler

/-- Why a computation on sample indices has no result. All faults but the last abandon it. -/
inductive Fault where
  /-- A sum of indices needs more than 32 bits. -/
  | indexTooLarge
  /-- A difference of indices is below zero. -/
  | indexBelowZero
  /-- A sample was asked for at an index the data does not have. -/
  | outsideData
  /-- A loop of no samples was reached from which no slot can ever be filled. This is not a call
  that is abandoned: it stands for one that never ends, but turns back over and over. -/
  | stalled
deriving DecidableEq, Repr

abbrev Checked (α : Type) := Except Fault α

namespace Checked

/-- A computation in two parts succeeds exactly when both parts do. -/
theorem bind_eq_ok_iff {α β : Type} {first : Checked α} {next : α → Checked β} {result : β} :
    first >>= next = .ok result ↔ ∃ value, first = .ok value ∧ next value = .ok result := by
  cases first with
  | error fault => simp [bind, Except.bind]
  | ok value => simp [bind, Except.bind]

@[simp] theorem pure_eq_ok_iff {α : Type} {value result : α} :
    (pure value : Checked α) = .ok result ↔ value = result := by
  simp [pure, Except.pure]

/-- A list of computations succeeds with a list of results when each of them does with its own. -/
theorem mapM_eq_ok_iff {α β : Type} {items : List α} {compute : α → Checked β} {results : List β} :
    items.mapM compute = .ok results ↔ items.map compute = results.map .ok := by
  induction items generalizing results with
  | nil => cases results <;> simp
  | cons item items inductionHypothesis =>
      simp only [List.mapM_cons, bind_eq_ok_iff, pure_eq_ok_iff, inductionHypothesis]
      cases results with
      | nil => simp
      | cons result others =>
          rw [List.map_cons, List.map_cons, List.cons.injEq]
          constructor
          · rintro ⟨found, first, values, rest, same⟩
            cases same
            exact ⟨first, rest⟩
          · rintro ⟨first, rest⟩
            exact ⟨result, first, others, rest, rfl⟩

/-- It succeeds when each of them does. -/
theorem mapM_eq_ok {α β : Type} {items : List α} {compute : α → Checked β} {value : α → β}
    (each : ∀ item ∈ items, compute item = .ok (value item)) :
    items.mapM compute = .ok (items.map value) := by
  rw [mapM_eq_ok_iff, List.map_map]
  exact List.map_congr_left each

/-- It does not succeed otherwise. -/
theorem exists_of_mapM {α β : Type} {items : List α} {compute : α → Checked β} {results : List β}
    (succeeds : items.mapM compute = .ok results) {item : α} (member : item ∈ items) :
    ∃ result, compute item = .ok result := by
  have found : compute item ∈ results.map .ok :=
    mapM_eq_ok_iff.1 succeeds ▸ List.mem_map_of_mem member
  obtain ⟨result, _, same⟩ := List.mem_map.1 found
  exact ⟨result, same.symm⟩

end Checked

namespace Index

/-- Indices are below this number, `2 ^ 32`. -/
abbrev bound : Nat := 4294967296

def plus (index offset : Nat) : Checked Nat :=
  if index + offset < bound then .ok (index + offset) else .error .indexTooLarge

def minus (index offset : Nat) : Checked Nat :=
  if offset ≤ index then .ok (index - offset) else .error .indexBelowZero

theorem plus_of_lt {index offset : Nat} (fits : index + offset < bound) :
    plus index offset = .ok (index + offset) :=
  if_pos fits

theorem plus_eq_ok_iff {index offset sum : Nat} :
    plus index offset = .ok sum ↔ sum = index + offset ∧ sum < bound := by
  unfold plus
  split <;> simp <;> omega

theorem minus_of_le {index offset : Nat} (ordered : offset ≤ index) :
    minus index offset = .ok (index - offset) :=
  if_pos ordered

theorem minus_eq_ok_iff {index offset difference : Nat} :
    minus index offset = .ok difference ↔ index = difference + offset := by
  unfold minus
  split <;> simp <;> omega

end Index

end Resampler
