import Resampler.Proofs.Confinement

/-!
Contract: words of 16 bits, and words with low bytes, are heard as the integers
they stand for.

Owns:
- a word above its low byte as a machine joins them, by a shift and a bitwise or
  of 32 bits, and the integer that this is, below zero too;
- words split into their high parts and low bytes, which stand for the same
  integers again;
- sessions on data that stands for the same integers: they are one and the same,
  down to every bit of a block and to a fault.

Does not own: data that differs in a sample, or how an integer becomes a single.
-/

namespace Resampler

namespace SampleData

/-! ## Joining and splitting -/

/-- A word above its low byte, in 32 bits. -/
def join (word : Int16) (byte : UInt8) : Int32 :=
  word.toInt32 <<< 8 ||| byte.toUInt32.toInt32

def joined? (data : SampleData) (index : Nat) : Option Int32 := do
  let bytes ← data.lowBytes
  let word ← data.words[index]?
  let byte ← bytes[index]?
  return join word byte

/-- The part of a word above its low byte, with the sign of the word. -/
def highPart (word : Int16) : Int16 := word >>> 8

def lowByte (word : Int16) : UInt8 := (word &&& 0xff).toUInt16.toUInt8

def split (words : Array Int16) : SampleData where
  words := words.map highPart
  lowBytes := some (words.map lowByte)
  size_lowBytes := by simp

/-- The bits of a byte are clear in a shifted word, so that the two are added. -/
theorem join_eq_add (word : Int16) (byte : UInt8) :
    join word byte = word.toInt32 * 256 + byte.toUInt32.toInt32 := by
  apply Int32.toBitVec_inj.1
  have shifted : (word.toInt32 <<< 8).toBitVec = word.toInt32.toBitVec <<< 8 :=
    Int32.toBitVec_shiftLeft ..
  have times : word.toInt32.toBitVec <<< 8 = word.toInt32.toBitVec * 256#32 :=
    BitVec.shiftLeft_eq_mul_twoPow ..
  have low : byte.toUInt32.toInt32.toBitVec = byte.toBitVec.setWidth 32 := rfl
  have apart : word.toInt32.toBitVec <<< 8 &&& byte.toBitVec.setWidth 32 = 0#32 := by
    apply BitVec.eq_of_getLsbD_eq
    intro place inWord
    by_cases inByte : place < 8
    · simp [inByte]
    · have clear : byte.toBitVec.getLsbD place = false := BitVec.getLsbD_of_ge _ _ (by omega)
      simp [clear]
  rw [join, Int32.toBitVec_or, Int32.toBitVec_add, Int32.toBitVec_mul, shifted, low,
    ← BitVec.add_eq_or_of_and_eq_zero _ _ apart, times]
  rfl

theorem toInt_lowByte_word (byte : UInt8) : byte.toUInt32.toInt32.toInt = byte.toNat := by
  have small : byte.toBitVec.toNat < 256 := byte.toNat_lt
  have wide : (byte.toBitVec.setWidth 32).toNat = byte.toBitVec.toNat :=
    BitVec.toNat_setWidth_of_le (by decide)
  show (byte.toBitVec.setWidth 32).toInt = _
  rw [BitVec.toInt_eq_toNat_of_lt (by omega), wide]
  rfl

/-- Joined, a word counts 256 times, whatever its sign, and the byte once. -/
theorem toInt_join (word : Int16) (byte : UInt8) :
    (join word byte).toInt = word.toInt * 256 + byte.toNat := by
  have above := word.le_toInt
  have below := word.toInt_lt
  have small := byte.toNat_lt
  have scale : (256 : Int32).toInt = 256 := rfl
  have product : (word.toInt * 256).bmod (2 ^ 32) = word.toInt * 256 :=
    Int.bmod_eq_of_le (by omega) (by omega)
  have sum : (word.toInt * 256 + byte.toNat).bmod (2 ^ 32) = word.toInt * 256 + byte.toNat :=
    Int.bmod_eq_of_le (by omega) (by omega)
  rw [join_eq_add, Int32.toInt_add, Int32.toInt_mul, Int16.toInt_toInt32, toInt_lowByte_word, scale,
    product, sum]

/-- The integer at an index of 24-bit data is the word joined with its byte. -/
theorem integer?_eq_joined? {data : SampleData} (deep : data.hasLowBytes = true) (index : Nat) :
    data.integer? index = (data.joined? index).map Int32.toInt := by
  obtain ⟨bytes, withBytes⟩ := Option.isSome_iff_exists.1 deep
  simp only [integer?, joined?, withBytes, Option.bind_eq_bind, Option.bind_some]
  cases data.words[index]? with
  | none => rfl
  | some word =>
      cases bytes[index]? with
      | none => rfl
      | some byte => exact congrArg some (toInt_join word byte).symm

theorem toInt_highPart (word : Int16) : (highPart word).toInt = word.toInt / 256 := by
  have shifted : (highPart word).toBitVec = word.toBitVec.sshiftRight 8 := Int16.toBitVec_shiftRight ..
  show (highPart word).toBitVec.toInt = _
  rw [shifted, BitVec.toInt_sshiftRight]
  exact Int.shiftRight_eq_div_pow _ _

theorem toNat_lowByte (word : Int16) : ((lowByte word).toNat : Int) = word.toInt % 256 := by
  have low : (lowByte word).toBitVec = (word.toBitVec &&& 0xff#16).setWidth 8 := rfl
  have masked : (lowByte word).toNat = word.toBitVec.toNat % 256 := by
    show (lowByte word).toBitVec.toNat = _
    rw [low, BitVec.toNat_setWidth, BitVec.toNat_and]
    show (word.toBitVec.toNat &&& (2 ^ 8 - 1)) % 2 ^ 8 = _
    rw [Nat.and_two_pow_sub_one_eq_mod, Nat.mod_mod]
  have signed : word.toInt = (word.toBitVec.toNat : Int).bmod (2 ^ 16) := BitVec.toInt_eq_toNat_bmod _
  rw [masked, signed, Int.bmod_def]
  split <;> omega

/-- The two parts of a word are joined to the word, its sign included. -/
theorem join_highPart_lowByte (word : Int16) :
    join (highPart word) (lowByte word) = word.toInt32 := by
  apply Int32.toInt_inj.1
  rw [toInt_join, toInt_highPart, toNat_lowByte, Int16.toInt_toInt32, Int.mul_comm]
  exact Int.mul_ediv_add_emod word.toInt 256

theorem joined?_split (words : Array Int16) (index : Nat) :
    (split words).joined? index = words[index]?.map Int16.toInt32 := by
  simp only [joined?, split, Option.bind_eq_bind, Option.bind_some, Array.getElem?_map]
  cases words[index]? with
  | none => rfl
  | some word => exact congrArg some (join_highPart_lowByte word)

/-- Split words stand for the integers they stood for whole. -/
theorem integer?_split (words : Array Int16) (index : Nat) :
    (split words).integer? index = (ofWords words).integer? index := by
  rw [integer?_eq_joined? rfl, joined?_split, integer?_ofWords]
  cases words[index]? with
  | none => rfl
  | some word => exact congrArg some (Int16.toInt_toInt32 word)

/-! ## The integers of a waveform -/

def integers (data : SampleData) : List Int :=
  (List.range data.size).map fun index => (data.integer? index).getD 0

theorem getElem?_integers (data : SampleData) (index : Nat) :
    data.integers[index]? = data.integer? index := by
  have stored := data.integer?_isSome_iff index
  rw [integers, List.getElem?_map]
  by_cases inside : index < data.size
  · obtain ⟨integer, found⟩ := Option.isSome_iff_exists.1 (stored.2 inside)
    rw [List.getElem?_range inside, found]
    simp [found]
  · have missing : data.integer? index = none := by
      rwa [← Option.not_isSome_iff_eq_none, stored]
    rw [missing, List.getElem?_eq_none]
    · rfl
    · rw [List.length_range]
      exact Nat.le_of_not_lt inside

theorem integers_split (words : Array Int16) : (split words).integers = (ofWords words).integers := by
  apply List.ext_getElem?
  intro index
  rw [getElem?_integers, getElem?_integers, integer?_split]

/-- What is read is the integer, from whichever data. -/
theorem read_eq_of_integers {data other : SampleData} (same : data.integers = other.integers) :
    data.read = other.read := by
  funext index
  rw [read, read, ← getElem?_integers, ← getElem?_integers, same]

end SampleData

namespace Voice

variable {data other : SampleData}

/-- A session depends on the integers of its data alone. -/
theorem perform_eq_of_integers (same : data.integers = other.integers) (voice : Voice)
    (actions : List Action) : voice.perform data actions = voice.perform other actions := by
  rw [perform_eq_performBy, perform_eq_performBy, SampleData.read_eq_of_integers same]

/-- Words that are split in two are joined to themselves, by a shift and a bitwise or as
for all data with low bytes. Whatever is done to a voice, it ends in the same blocks,
counts and positions, or in the same fault, as on the whole words, and likewise on any two
data that stand for the same integers, whichever their bits. A session that never ends, which
has the fault `stalled`, never ends on the others either. -/
theorem perform_split (words : Array Int16) (voice : Voice) (actions : List Action) :
    (∀ index, (SampleData.split words).joined? index = words[index]?.map Int16.toInt32) ∧
      (∀ data : SampleData, data.hasLowBytes = true → ∀ index,
        data.integer? index = (data.joined? index).map Int32.toInt) ∧
      voice.perform (.split words) actions = voice.perform (.ofWords words) actions ∧
      ∀ data other : SampleData, data.integers = other.integers →
        voice.perform data actions = voice.perform other actions :=
  ⟨SampleData.joined?_split words, fun _ => SampleData.integer?_eq_joined?,
    perform_eq_of_integers (SampleData.integers_split words) voice actions,
    fun _ _ same => perform_eq_of_integers same voice actions⟩

/-- Words around zero and at the ends of their range, silent and heard; and the words -2 and
212 joined, against the word -300. -/
theorem perform_split_below_zero :
    (SampleData.split #[-300]).joined? 0 = some (-300) ∧
      (make ⟨0, 3, 1, 4⟩ ⟨.linear, 0.75⟩).perform (.split #[-1, -32768, 32767, -256])
          [.render true true (.filled 0), .adjust (.method .fourthOrder),
            .render false false (.filled 1), .render true false (.filled 2)] =
        (make ⟨0, 3, 1, 4⟩ ⟨.linear, 0.75⟩).perform (.ofWords #[-1, -32768, 32767, -256])
          [.render true true (.filled 0), .adjust (.method .fourthOrder),
            .render false false (.filled 1), .render true false (.filled 2)] ∧
      ∀ actions, (make ⟨0, 0, 0, 1⟩ ⟨.nearest, 0⟩).perform ⟨#[-2], some #[212], by simp⟩ actions =
        (make ⟨0, 0, 0, 1⟩ ⟨.nearest, 0⟩).perform (.ofWords #[-300]) actions :=
  ⟨(perform_split #[-300] (make ⟨0, 0, 0, 1⟩ ⟨.nearest, 0⟩) []).1 0,
    (perform_split _ _ _).2.2.1,
    fun actions => (perform_split #[] _ actions).2.2.2 _ _ (by decide)⟩

end Voice

end Resampler
