import Resampler.Proofs.Scene.Reads

/-!
Contract: the taps of a kernel as one run of virtual indices.

Owns:
- the virtual indices of the taps around a located index, and those of each kernel
  that hears samples;
- the stored sample behind a virtual index of a lap, inside or outside it;
- the agreement of both with what a zone reads, as long as the head and the end
  of the lap are far enough apart, and what the head reads when they are not.

Does not own: which zone a position is rendered in.
-/

namespace Resampler

namespace Kernel

def window (kernel : Kernel) (index : Nat) : List Int :=
  (List.range kernel.width).map fun tap : Nat => (index : Int) + tap - kernel.before

theorem mem_window {kernel : Kernel} {index : Nat} {virtual : Int}
    (member : virtual ∈ kernel.window index) :
    (index : Int) - kernel.before ≤ virtual ∧ virtual ≤ index + kernel.after := by
  obtain ⟨tap, inWidth, rfl⟩ := List.mem_map.1 member
  have inWidth := List.mem_range.1 inWidth
  cases kernel <;> simp only [width, before, after] at * <;> omega

theorem window_add (kernel : Kernel) (index shift : Nat) :
    kernel.window (index + shift) = (kernel.window index).map (· + (shift : Int)) := by
  simp only [window, List.map_map]
  apply List.map_congr_left
  intro tap _
  simp only [Function.comp_def]
  omega

theorem window_nearest (index : Nat) : nearest.window index = [(index : Int)] := by
  simp [window, width, before, List.range_succ]

theorem window_linear (index : Nat) : linear.window index = [(index : Int), (index : Int) + 1] := by
  simp [window, width, before, List.range_succ]

theorem window_fourthOrder (index : Nat) :
    fourthOrder.window index =
      [(index : Int) - 1, (index : Int), (index : Int) + 1, (index : Int) + 2] := by
  simp [window, width, before, List.range_succ]
  omega

theorem window_seventhOrder (index : Nat) :
    seventhOrder.window index =
      [(index : Int) - 3, (index : Int) - 2, (index : Int) - 1, (index : Int), (index : Int) + 1,
        (index : Int) + 2, (index : Int) + 3] := by
  simp [window, width, before, List.range_succ]
  omega

end Kernel

namespace Bounds

/-- The stored sample behind a virtual index of a lap. -/
def behind (bounds : Bounds) (looping looped : Bool) (virtual : Int) : Nat :=
  if virtual < bounds.entry looped then
    bounds.standInBefore looped (bounds.entry looped - 1 - virtual).toNat
  else if bounds.final looping < virtual then
    bounds.standInAfter looping (virtual - bounds.final looping - 1).toNat
  else
    virtual.toNat

/-- The stored sample behind a virtual index of a lap that goes on past its end, as
the data does. -/
def onward (bounds : Bounds) (looped : Bool) (virtual : Int) : Nat :=
  if virtual < bounds.entry looped then
    bounds.standInBefore looped (bounds.entry looped - 1 - virtual).toNat
  else
    virtual.toNat

theorem onward_eq_behind {bounds : Bounds} {looping looped : Bool} {virtual : Int}
    (inside : virtual ≤ bounds.final looping) :
    bounds.onward looped virtual = bounds.behind looping looped virtual := by
  rw [onward, behind, if_neg (Int.not_lt.2 inside)]

end Bounds

namespace Scene

variable {scene : Scene} {looped : Bool}

/-- A zone at the head reads on past the end of its lap. -/
theorem readsIn_head_eq_onward {past index : Nat} (near : past < scene.kernel.before)
    (located : index = scene.bounds.entry looped + past) :
    scene.readsIn looped index (.head past) =
      (scene.kernel.window index).map (scene.bounds.onward looped) := by
  have audible : scene.kernel ≠ .silence := by
    intro silent
    simp [silent, Kernel.before] at near
  have width := Kernel.width_eq_of_ne_silence audible
  apply List.ext_getElem
  · simp only [readsIn, Kernel.window, List.length_append, List.length_reverse, List.length_map,
      List.length_range]
    omega
  · intro place inReads inWindow
    simp only [readsIn, List.length_append, List.length_reverse, List.length_map,
      List.length_range] at inReads
    simp only [readsIn, Kernel.window, List.getElem_append, List.length_reverse, List.length_map,
      List.length_range, List.getElem_map, List.getElem_range, List.getElem_reverse, Bounds.onward]
    by_cases missing : place < scene.kernel.before - past
    · rw [dif_pos missing, if_pos (by omega)]
      congr 1
      omega
    · rw [dif_neg missing, if_neg (by omega)]
      omega

theorem readsIn_head_eq_window {past index : Nat} (near : past < scene.kernel.before)
    (located : index = scene.bounds.entry looped + past)
    (apart : index + scene.kernel.after ≤ scene.bounds.final scene.looping) :
    scene.readsIn looped index (.head past) =
      (scene.kernel.window index).map (scene.bounds.behind scene.looping looped) := by
  rw [readsIn_head_eq_onward near located]
  apply List.map_congr_left
  intro virtual member
  have below := (Kernel.mem_window member).2
  exact Bounds.onward_eq_behind (by omega)

theorem readsIn_room_eq_window {ahead index : Nat} (near : ahead ≤ scene.kernel.after)
    (started : scene.bounds.entry looped + scene.kernel.before ≤ index)
    (room : index + ahead ≤ scene.bounds.final scene.looping)
    (ending : ahead < scene.kernel.after → scene.bounds.final scene.looping ≤ index + ahead) :
    scene.readsIn looped index (.room ahead) =
      (scene.kernel.window index).map (scene.bounds.behind scene.looping looped) := by
  by_cases silent : scene.kernel = .silence
  · simp [readsIn, Kernel.window, silent, Kernel.width, Kernel.after]
  have width := Kernel.width_eq_of_ne_silence silent
  apply List.ext_getElem
  · simp only [readsIn, Kernel.window, List.length_append, List.length_map, List.length_range]
    omega
  · intro place inReads inWindow
    simp only [readsIn, List.length_append, List.length_map, List.length_range] at inReads
    simp only [readsIn, Kernel.window, List.getElem_append, List.length_map, List.length_range,
      List.getElem_map, List.getElem_range, Bounds.behind]
    by_cases stored : place < scene.kernel.width - (scene.kernel.after - ahead)
    · rw [dif_pos stored, if_neg (by omega), if_neg (by omega)]
      omega
    · rw [dif_neg stored, if_neg (by omega), if_pos (by omega)]
      congr 1
      omega

end Scene

end Resampler
