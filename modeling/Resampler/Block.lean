/-!
Contract: the output of one render call.

Owns:
- the number of slots in a block;
- a block whose first slots are written anew.

Does not own: the samples that are written.
-/

namespace Resampler

def blockSize : Nat := 64

abbrev Block := Vector Float32 blockSize

namespace Block

def filled (value : Float32) : Block := Vector.replicate blockSize value

/-- The block with the samples in its first slots. Slots without a new sample
keep what they hold, and samples without a slot are dropped. -/
def overwrite (block : Block) (samples : List Float32) : Block :=
  let written := samples.toArray
  Vector.ofFn fun slot => written[slot.val]?.getD block[slot]

theorem getElem_overwrite_of_lt (block : Block) (samples : List Float32) {slot : Nat}
    (inBlock : slot < blockSize) (written : slot < samples.length) :
    (block.overwrite samples)[slot] = samples[slot] := by
  simp [overwrite, written]

theorem getElem_overwrite_of_le (block : Block) (samples : List Float32) {slot : Nat}
    (inBlock : slot < blockSize) (unwritten : samples.length ≤ slot) :
    (block.overwrite samples)[slot] = block[slot] := by
  simp [overwrite, unwritten]

@[simp] theorem overwrite_nil (block : Block) : block.overwrite [] = block := by
  apply Vector.ext
  intro slot inBlock
  exact getElem_overwrite_of_le block [] inBlock (Nat.zero_le slot)

/-- A block that is written throughout is the list of its samples. -/
theorem toList_overwrite (block : Block) {samples : List Float32}
    (full : samples.length = blockSize) : (block.overwrite samples).toList = samples := by
  apply List.ext_getElem
  · rw [Vector.length_toList, full]
  · intro slot inBlock inSamples
    rw [Vector.getElem_toList]
    exact getElem_overwrite_of_lt block samples (full ▸ inSamples) inSamples

theorem head?_toList_overwrite {block : Block} {samples : List Float32} {first : Float32}
    (written : samples.head? = some first) :
    (block.overwrite samples).toList.head? = some first := by
  obtain ⟨rest, rfl⟩ := List.head?_eq_some_iff.1 written
  have opening := getElem_overwrite_of_lt block (first :: rest) (show 0 < blockSize by decide)
    (Nat.succ_pos _)
  have some : 0 < (block.overwrite (first :: rest)).toList.length := by
    rw [Vector.length_toList]
    decide
  rw [List.head?_eq_getElem?, List.getElem?_eq_getElem some, Vector.getElem_toList, opening]
  rfl

end Block

end Resampler
