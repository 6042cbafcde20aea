import Resampler.Fault
import Resampler.SetupError

/-!
Contract: stored waveforms of 16 or 24 bits.

Owns:
- the words of a waveform and, for 24 bits, one low byte for each of them;
- the integer that each index stands for, and its value as a single;
- reads, which fail outside the data.

Does not own: which part of the data a voice may read.
-/

namespace Resampler

abbrev Reader := Nat → Checked Float32

/-- A waveform: 16-bit words, and for 24-bit sounds a low byte for each. -/
structure SampleData where
  words : Array Int16
  lowBytes : Option (Array UInt8)
  size_lowBytes : ∀ bytes ∈ lowBytes, bytes.size = words.size

namespace SampleData

def ofWords (words : Array Int16) : SampleData :=
  ⟨words, none, by simp⟩

/-- A waveform of 24 bits, when there is a low byte for each word. -/
def ofWordsAndLowBytes (words : Array Int16) (bytes : Array UInt8) :
    Except SetupError SampleData :=
  if sameSize : bytes.size = words.size then
    .ok ⟨words, some bytes, by simp [sameSize]⟩
  else
    .error (.lowByteCount words.size bytes.size)

def coarse (data : SampleData) : SampleData := ofWords data.words

def size (data : SampleData) : Nat := data.words.size

def isEmpty (data : SampleData) : Bool := data.words.isEmpty

def hasLowBytes (data : SampleData) : Bool := data.lowBytes.isSome

/-- The integer at an index: the word or, with a low byte, the two as one
number. -/
def integer? (data : SampleData) (index : Nat) : Option Int :=
  match data.lowBytes with
  | none => data.words[index]?.map Int16.toInt
  | some bytes => do
      let word ← data.words[index]?
      let byte ← bytes[index]?
      return word.toInt * 256 + byte.toNat

/-- The sample at an index as a single, which holds every integer of 24 bits. -/
def read (data : SampleData) : Reader := fun index =>
  match data.integer? index with
  | some integer => .ok (.ofInt integer)
  | none => .error .outsideData

theorem integer?_isSome_iff (data : SampleData) (index : Nat) :
    (data.integer? index).isSome ↔ index < data.size := by
  unfold integer? size
  split
  · simp
  · rename_i bytes withBytes
    have sameSize := data.size_lowBytes bytes (by simp [withBytes])
    by_cases inside : index < data.words.size
    · have insideBytes : index < bytes.size := by omega
      simp [inside, insideBytes]
    · simp [inside]

/-- A read succeeds exactly inside the data. -/
theorem read_isOk_iff (data : SampleData) (index : Nat) :
    (∃ sample, data.read index = .ok sample) ↔ index < data.size := by
  rw [← integer?_isSome_iff, read]
  cases data.integer? index <;> simp

@[simp] theorem size_coarse (data : SampleData) : data.coarse.size = data.size := rfl

@[simp] theorem integer?_ofWords (words : Array Int16) (index : Nat) :
    (ofWords words).integer? index = words[index]?.map Int16.toInt := rfl

end SampleData

end Resampler
