import WebNode.Ipc.ArgumentCoders

/-!
# What was written is read

The decoder stands where the encoder stood: its copy starts at an address that is a multiple of
eight, so both skip the same bytes before a value.
-/

namespace WebNode.Ipc

open WebNode.Lib

/-! ### Results of decoding -/

namespace Decode

variable {α β : Type}

theorem bind_of_some {first : Decode α} {next : α → Decode β} {decoder decoder' : ArgumentDecoder} {value : α}
    (run : first decoder = some (some value, decoder')) : (first >>= next) decoder = next value decoder' := by
  show andThen first next decoder = _
  rw [andThen, run]

theorem bind_eq_some_iff {first : Decode α} {next : α → Decode β} {decoder final : ArgumentDecoder} {result : β} :
    (first >>= next) decoder = some (some result, final) ↔
      ∃ value decoder', first decoder = some (some value, decoder') ∧
      next value decoder' = some (some result, final) := by
  show andThen first next decoder = _ ↔ _
  rw [andThen]
  cases run : first decoder with
  | none => simp
  | some outcome =>
    obtain ⟨_ | value, decoder'⟩ := outcome
    · simp
    · simp

theorem require_of_true {property : ArgumentDecoder → Bool} {decoder : ArgumentDecoder}
    (holds : property decoder = true) :
    require property decoder = some (some (), decoder) :=
  if_pos holds

end Decode

/-! ### Alignment -/

theorem le_roundUpToAlignment {alignment : Nat} (positive : 0 < alignment) (value : Nat) :
    value ≤ ArgumentEncoder.roundUpToAlignment value alignment := by
  have quotient := Nat.div_add_mod' (value + alignment - 1) alignment
  have remainder := Nat.mod_lt (value + alignment - 1) positive
  rw [ArgumentEncoder.roundUpToAlignment]
  omega

namespace ArgumentEncoder

/-- The bytes that are skipped before a value. -/
def padding (encoder : ArgumentEncoder) (alignment : Nat) : List UInt8 :=
  (List.range' encoder.buffer.length
    (roundUpToAlignment encoder.buffer.length alignment - encoder.buffer.length)).map encoder.memory

theorem buffer_encodeFixedLengthData (encoder : ArgumentEncoder) (data : List UInt8) (alignment : Nat) :
    (encoder.encodeFixedLengthData data alignment).buffer = encoder.buffer ++ (encoder.padding alignment ++ data) := rfl

theorem length_padding (encoder : ArgumentEncoder) {alignment : Nat} (positive : 0 < alignment) :
    encoder.buffer.length + (encoder.padding alignment).length =
      roundUpToAlignment encoder.buffer.length alignment := by
  have le := le_roundUpToAlignment positive encoder.buffer.length
  rw [padding, List.length_map, List.length_range']
  omega

end ArgumentEncoder

namespace ArgumentDecoder

/-- The decoder stands behind the given number of bytes of its copy. -/
structure StandsAt (decoder : ArgumentDecoder) (offset : Nat) : Prop where
  position : decoder.position = decoder.address + offset
  aligned : 8 ∣ decoder.address
  inMemory : decoder.address + decoder.buffer.length < 2 ^ 64

def moveTo (decoder : ArgumentDecoder) (offset : Nat) : ArgumentDecoder :=
  { decoder with position := decoder.address + offset }

@[simp]
theorem buffer_moveTo (decoder : ArgumentDecoder) (offset : Nat) : (decoder.moveTo offset).buffer = decoder.buffer :=
  rfl

theorem StandsAt.moveTo {decoder : ArgumentDecoder} {offset : Nat} (stands : decoder.StandsAt offset) (other : Nat) :
    (decoder.moveTo other).StandsAt other :=
  ⟨rfl, stands.aligned, stands.inMemory⟩

theorem StandsAt.moveTo_self {decoder : ArgumentDecoder} {offset : Nat} (stands : decoder.StandsAt offset) :
    decoder.moveTo offset = decoder := by
  rw [ArgumentDecoder.moveTo, ← stands.position]

/-- The decoder rounds its address as the encoder rounds its size. -/
theorem StandsAt.roundUpToAlignment_eq {decoder : ArgumentDecoder} {offset log : Nat} (stands : decoder.StandsAt offset)
    (logLe : log ≤ 3) (inside : ArgumentEncoder.roundUpToAlignment offset (2 ^ log) ≤ decoder.buffer.length) :
    roundUpToAlignment decoder.position (2 ^ log) =
      decoder.address + ArgumentEncoder.roundUpToAlignment offset (2 ^ log) := by
  have positive := Nat.two_pow_pos log
  have le := le_roundUpToAlignment positive offset
  have inMemory := stands.inMemory
  obtain ⟨index, address_eq⟩ : 2 ^ log ∣ decoder.address := Nat.dvd_trans (Nat.pow_dvd_pow 2 logLe) stands.aligned
  -- the aligned address is a multiple of the alignment below the end of the memory
  obtain ⟨top, top_eq⟩ : 2 ^ log ∣ 2 ^ 64 := Nat.pow_dvd_pow 2 (Nat.le_trans logLe (by decide))
  have multiple : decoder.address + ArgumentEncoder.roundUpToAlignment offset (2 ^ log) + 2 ^ log ≤ 2 ^ 64 := by
    rw [ArgumentEncoder.roundUpToAlignment, address_eq, Nat.mul_comm _ (2 ^ log), ← Nat.mul_add, ← Nat.mul_succ, top_eq]
    refine Nat.mul_le_mul_left _ ?_
    have below : 2 ^ log * (index + (offset + 2 ^ log - 1) / 2 ^ log) < 2 ^ log * top := by
      rw [← top_eq, Nat.mul_add, ← address_eq, Nat.mul_comm (2 ^ log) (_ / _)]
      exact Nat.lt_of_le_of_lt (Nat.add_le_add_left inside _) inMemory
    exact Nat.lt_of_mul_lt_mul_left below
  have small : decoder.position + (2 ^ log - 1) < 2 ^ 64 := by
    rw [stands.position]
    omega
  rw [roundUpToAlignment, Nat.mod_eq_of_lt small, alignDown_eq (Nat.le_trans logLe (by decide)) small, stands.position,
    ArgumentEncoder.roundUpToAlignment, address_eq, Nat.add_assoc, ← Nat.add_sub_assoc positive,
      Nat.mul_add_div positive,
    Nat.add_mul, Nat.mul_comm index]

end ArgumentDecoder

/-! ### Data of a fixed length -/

section Fixed

variable {encoder : ArgumentEncoder} {data : List UInt8} {decoder : ArgumentDecoder} {log : Nat} (logLe : log ≤ 3)
  (stands : decoder.StandsAt encoder.buffer.length)
  (written : (encoder.encodeFixedLengthData data (2 ^ log)).buffer <+: decoder.buffer)

include logLe stands written

theorem roundUp_of_written : ArgumentDecoder.roundUpToAlignment decoder.position (2 ^ log) =
      decoder.address + ArgumentEncoder.roundUpToAlignment encoder.buffer.length (2 ^ log) ∧
    ArgumentEncoder.roundUpToAlignment encoder.buffer.length (2 ^ log) + data.length ≤ decoder.buffer.length := by
  have le := written.length_le
  have padded := encoder.length_padding (Nat.two_pow_pos log)
  rw [ArgumentEncoder.buffer_encodeFixedLengthData, List.length_append, List.length_append] at le
  exact ⟨stands.roundUpToAlignment_eq logLe (by omega), by omega⟩

theorem largeEnough_of_written {size : Nat} (size_eq : size = data.length) :
    decoder.bufferIsLargeEnoughToContain (2 ^ log) size = true := by
  obtain ⟨aligned, inside⟩ := roundUp_of_written logLe stands written
  rw [ArgumentDecoder.bufferIsLargeEnoughToContain, aligned, ArgumentDecoder.alignedBufferIsLargeEnoughToContain,
    decide_eq_true_iff, ArgumentDecoder.bufferEnd]
  omega

theorem containsElements_of_written {count : Nat} (size_eq : count * 2 ^ log = data.length) :
    decoder.containsElements (2 ^ log) count = true := by
  obtain ⟨aligned, inside⟩ := roundUp_of_written logLe stands written
  have inMemory := stands.inMemory
  have few : ¬count > (2 ^ 64 - 1) / 2 ^ log := by
    rw [gt_iff_lt, Nat.not_lt, Nat.le_div_iff_mul_le (Nat.two_pow_pos log)]
    omega
  rw [ArgumentDecoder.containsElements, if_neg few]
  exact largeEnough_of_written logLe stands written size_eq

theorem decodeFixedLengthData_of_written {size : Nat} (size_eq : size = data.length) :
    Decode.decodeFixedLengthData size (2 ^ log) decoder =
      some (some data, decoder.moveTo (encoder.encodeFixedLengthData data (2 ^ log)).buffer.length) := by
  obtain ⟨aligned, inside⟩ := roundUp_of_written logLe stands written
  have large := largeEnough_of_written logLe stands written size_eq
  rw [ArgumentDecoder.bufferIsLargeEnoughToContain] at large
  have align : Decode.alignBufferPosition (2 ^ log) size decoder =
      some (some (), decoder.moveTo (ArgumentEncoder.roundUpToAlignment encoder.buffer.length (2 ^ log))) := by
    rw [Decode.alignBufferPosition, if_pos large, aligned]
    rfl
  have padded := encoder.length_padding (Nat.two_pow_pos log)
  rw [Decode.decodeFixedLengthData, Decode.bind_of_some align, Decode.copyFromBuffer]
  obtain ⟨rest, whole⟩ := written
  rw [ArgumentEncoder.buffer_encodeFixedLengthData, List.append_assoc, List.append_assoc, ← List.append_assoc] at whole
  have offset : (encoder.buffer ++ encoder.padding (2 ^ log)).length =
      ArgumentEncoder.roundUpToAlignment encoder.buffer.length (2 ^ log) := by
    rw [List.length_append, padded]
  have there : ((decoder.moveTo (ArgumentEncoder.roundUpToAlignment encoder.buffer.length (2 ^ log))).buffer.drop
      (decoder.address + ArgumentEncoder.roundUpToAlignment encoder.buffer.length (2 ^ log) -
        decoder.address)).take size = data := by
    rw [ArgumentDecoder.buffer_moveTo, Nat.add_sub_cancel_left, ← whole, ← offset, List.drop_left, size_eq,
      List.take_left]
  show some (some _, _) = _
  rw [ArgumentDecoder.moveTo, ArgumentDecoder.moveTo] at *
  rw [there, ArgumentEncoder.buffer_encodeFixedLengthData, ← List.append_assoc, List.length_append, offset, size_eq,
    Nat.add_assoc]

end Fixed

end WebNode.Ipc
