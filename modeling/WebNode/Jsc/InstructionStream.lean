import Mathlib.Data.Nat.Bitwise
import Mathlib.Data.List.Basic

/-!
# Packed bytecode

`UnlinkedInstructionStream` writes the words of unlinked instructions in one to five bytes each,
    and its reader makes the
instructions out of them again.
-/

namespace WebNode.Jsc.InstructionStream

/-- `PackedValueType`. -/
inductive PackedValueType where
  | positive5Bit
  | negative5Bit
  | positive13Bit
  | negative13Bit
  | constantRegister5Bit
  | constantRegister13Bit
  | full32Bit
  deriving DecidableEq, Repr

def PackedValueType.toNat : PackedValueType → Nat
  | positive5Bit => 0
  | negative5Bit => 1
  | positive13Bit => 2
  | negative13Bit => 3
  | constantRegister5Bit => 4
  | constantRegister13Bit => 5
  | full32Bit => 6

/-- The first byte of a value. -/
def header (type : PackedValueType) (bits : Nat) : Nat := type.toNat <<< 5 ||| bits

/-- The bytes that `append32` writes. -/
def bytesOf (value : Nat) : List Nat :=
  if value &&& 0xffffffe0 = 0 then [value]
  else if value &&& 0xffffffe0 = 0xffffffe0 then [header .negative5Bit (value &&& 0x1f)]
  else if value &&& 0xffffffe0 = 0x40000000 then [header .constantRegister5Bit (value &&& 0x1f)]
  else if value &&& 0xffffe000 = 0 then [header .positive13Bit ((value >>> 8) &&& 0x1f), value &&& 0xff]
  else if value &&& 0xffffe000 = 0xffffe000 then [header .negative13Bit ((value >>> 8) &&& 0x1f), value &&& 0xff]
  else if value &&& 0xffffe000 = 0x40000000 then
    [header .constantRegister13Bit ((value >>> 8) &&& 0x1f), value &&& 0xff]
  else
    [header .full32Bit 0, value &&& 0xff, (value >>> 8) &&& 0xff, (value >>> 16) &&& 0xff, (value >>> 24) &&& 0xff]

/-- A buffer of a fixed size, and what is written to it. -/
structure Buffer where
  size : Nat
  written : List Nat
  deriving DecidableEq, Repr

namespace Buffer

/-- There is no outcome where a write goes beyond the buffer. -/
def append8 (buffer : Buffer) (value : Nat) : Option Buffer :=
  if buffer.written.length < buffer.size then some { buffer with written := buffer.written ++ [value] } else none

def append32 (buffer : Buffer) (value : Nat) : Option Buffer := (bytesOf value).foldlM append8 buffer

end Buffer

section Streams

variable (opcodeLength : Nat → Nat)

/-- The loop of the constructor, which writes an instruction in each round. -/
def pack : Nat → List Nat → Buffer → Option Buffer
  | 0, _, buffer => some buffer
  | _, [], buffer => some buffer
  | fuel + 1, opcode :: rest, buffer => do
    let buffer ← buffer.append8 opcode
    let buffer ← (rest.take (opcodeLength opcode - 1)).foldlM Buffer.append32 buffer
    pack fuel (rest.drop (opcodeLength opcode - 1)) buffer

/-- The constructor. The size of the buffer is computed in 32 bits. -/
def construct (instructions : List Nat) : Option (List Nat) :=
  (pack opcodeLength instructions.length instructions ⟨instructions.length * 5 % 2 ^ 32, []⟩).map Buffer.written

/-- `Reader::read32`; the position of a reader is the list of the bytes from there on. -/
def read32 : List Nat → Option (Nat × List Nat)
  | [] => none
  | first :: rest =>
    match first >>> 5, rest with
    | 0, _ => some (first, rest)
    | 1, _ => some (0xffffffe0 ||| first, rest)
    | 2, second :: rest => some ((first &&& 0x1f) <<< 8 ||| second, rest)
    | 3, second :: rest => some (0xffffe000 ||| (first &&& 0x1f) <<< 8 ||| second, rest)
    | 4, _ => some (0x40000000 ||| (first &&& 0x1f), rest)
    | 5, second :: rest => some (0x40000000 ||| (first &&& 0x1f) <<< 8 ||| second, rest)
    | _ + 6, b0 :: b1 :: b2 :: b3 :: rest => some (b0 ||| b1 <<< 8 ||| b2 <<< 16 ||| b3 <<< 24, rest)
    | _, _ => none

def readOperands : Nat → List Nat → Option (List Nat × List Nat)
  | 0, data => some ([], data)
  | count + 1, data => do
    let (value, data) ← read32 data
    let (values, data) ← readOperands count data
    some (value :: values, data)

/-- `Reader::next`, whose result is in a buffer of 16 words. -/
def next : List Nat → Option (List Nat × List Nat)
  | [] => none
  | opcode :: data =>
    if opcodeLength opcode ≤ 16 then do
      let (operands, data) ← readOperands (opcodeLength opcode - 1) data
      some (opcode :: operands, data)
    else none

/-- Reads instructions until `atEnd`. -/
def readAll : Nat → List Nat → Option (List (List Nat))
  | _, [] => some []
  | 0, _ :: _ => none
  | fuel + 1, byte :: data => do
    let (instruction, data) ← next opcodeLength (byte :: data)
    let instructions ← readAll fuel data
    some (instruction :: instructions)

/-- An opcode and as many operands as it has. -/
structure IsInstruction (instruction : List Nat) : Prop where
  opcode : ∃ opcode operands, instruction = opcode :: operands ∧ opcode < 256 ∧
    operands.length + 1 = opcodeLength opcode
  short : instruction.length ≤ 16
  words : ∀ word ∈ instruction, word < 2 ^ 32

end Streams

section Values

variable {value : Nat}

/-- The bits from a position on. -/
theorem and_high (small : value < 2 ^ 32) {k : Nat} (inside : k ≤ 32) :
    value &&& (2 ^ 32 - 2 ^ k) = value / 2 ^ k * 2 ^ k := by
  have mask : 2 ^ 32 - 2 ^ k = (2 ^ (32 - k) - 1) <<< k := by
    rw [Nat.shiftLeft_eq, Nat.sub_mul, ← Nat.pow_add, Nat.sub_add_cancel inside, Nat.one_mul]
  rw [mask, ← Nat.shiftLeft_eq, ← Nat.shiftRight_eq_div_pow]
  apply Nat.eq_of_testBit_eq
  intro i
  simp only [Nat.testBit_and, Nat.testBit_shiftLeft, Nat.testBit_two_pow_sub_one, Nat.testBit_shiftRight]
  by_cases below : k ≤ i
  · have position : k + (i - k) = i := by omega
    by_cases beyond : i < 32
    · have : i - k < 32 - k := by omega
      simp [below, position, this]
    · have zero : value.testBit i = false :=
        Nat.testBit_lt_two_pow (Nat.lt_of_lt_of_le small (Nat.pow_le_pow_right (by decide) (by omega)))
      simp [position, zero]
  · simp [below]

theorem or_eq_add {k low : Nat} (small : low < 2 ^ k) (high : Nat) : high * 2 ^ k ||| low = high * 2 ^ k + low := by
  rw [Nat.mul_comm, Nat.two_pow_add_eq_or_of_lt small]

theorem and_5Bit (small : value < 2 ^ 32) : value &&& 0xffffffe0 = value / 32 * 32 :=
  @and_high value small 5 (by decide)

theorem and_13Bit (small : value < 2 ^ 32) : value &&& 0xffffe000 = value / 8192 * 8192 :=
  @and_high value small 13 (by decide)

theorem and_0x1f (value : Nat) : value &&& 0x1f = value % 32 := Nat.and_two_pow_sub_one_eq_mod value 5

theorem and_0xff (value : Nat) : value &&& 0xff = value % 256 := Nat.and_two_pow_sub_one_eq_mod value 8

theorem header_eq {type : PackedValueType} {bits : Nat} (small : bits < 32) :
    header type bits = type.toNat * 32 + bits := by
  rw [header, Nat.shiftLeft_eq]
  exact or_eq_add small _

theorem header_type {type : PackedValueType} {bits : Nat} (small : bits < 32) :
    header type bits >>> 5 = type.toNat := by
  rw [header_eq small, Nat.shiftRight_eq_div_pow]
  omega

theorem header_bits {type : PackedValueType} {bits : Nat} (small : bits < 32) : header type bits &&& 0x1f = bits := by
  rw [header_eq small, and_0x1f]
  omega

/-- The two bytes of a value of 13 bits. -/
theorem join_13Bit {base : Nat} (aligned : base % 8192 = 0) (value : Nat) :
    base ||| (((value >>> 8) &&& 0x1f) <<< 8 ||| value &&& 0xff) = base + value % 8192 := by
  obtain ⟨high, rfl⟩ : ∃ high, base = high * 2 ^ 13 := ⟨base / 8192, by omega⟩
  rw [and_0x1f, and_0xff, Nat.shiftRight_eq_div_pow, Nat.shiftLeft_eq,
    or_eq_add (show _ % 256 < 2 ^ 8 from Nat.mod_lt _ (by decide)), or_eq_add (by omega)]
  omega

theorem join_32Bit (small : value < 2 ^ 32) :
    value &&& 0xff ||| ((value >>> 8) &&& 0xff) <<< 8 ||| ((value >>> 16) &&& 0xff) <<< 16 |||
      ((value >>> 24) &&& 0xff) <<< 24 = value := by
  simp only [and_0xff, Nat.shiftRight_eq_div_pow, Nat.shiftLeft_eq]
  rw [Nat.or_comm, Nat.or_comm _ (_ * 2 ^ 16), Nat.or_comm (value % 256),
    or_eq_add (show _ % 256 < 2 ^ 8 from Nat.mod_lt _ (by decide)),
    or_eq_add (k := 16) (by omega), or_eq_add (k := 24) (by omega)]
  omega

/-- A value is read back from the bytes that are written for it. -/
theorem read32_bytesOf (small : value < 2 ^ 32) (rest : List Nat) :
    read32 (bytesOf value ++ rest) = some (value, rest) := by
  have low : value &&& 0x1f < 32 := by rw [and_0x1f]; exact Nat.mod_lt _ (by decide)
  have middle : (value >>> 8) &&& 0x1f < 32 := by rw [and_0x1f]; exact Nat.mod_lt _ (by decide)
  have none : 0 < 32 := by decide
  rw [bytesOf, and_5Bit small, and_13Bit small]
  split_ifs with positive5 negative5 constant5 positive13 negative13 constant13
  · have type : value >>> 5 = 0 := by rw [Nat.shiftRight_eq_div_pow]; omega
    simp [read32, type]
  · have joined : 0xffffffe0 ||| header .negative5Bit (value &&& 0x1f) = value := by
      rw [header, ← Nat.or_assoc, and_0x1f]
      exact (or_eq_add (k := 5) (by omega) 134217727).trans (by omega)
    simp [read32, header_type low, PackedValueType.toNat, joined]
  · have joined : 0x40000000 ||| (value &&& 0x1f) = value := by
      rw [and_0x1f]
      exact (or_eq_add (k := 5) (by omega) 33554432).trans (by omega)
    simp [read32, header_type low, header_bits low, PackedValueType.toNat, joined]
  · have joined : (value >>> 8 &&& 0x1f) <<< 8 ||| value &&& 0xff = value := by
      have sum := @join_13Bit 0 rfl value
      rw [Nat.zero_or] at sum
      omega
    simp [read32, header_type middle, header_bits middle, PackedValueType.toNat, joined]
  · have joined : 0xffffe000 ||| ((value >>> 8 &&& 0x1f) <<< 8 ||| value &&& 0xff) = value := by
      rw [join_13Bit (by decide)]
      omega
    simp [read32, header_type middle, header_bits middle, PackedValueType.toNat, Nat.or_assoc, joined]
  · have joined : 0x40000000 ||| ((value >>> 8 &&& 0x1f) <<< 8 ||| value &&& 0xff) = value := by
      rw [join_13Bit (by decide)]
      omega
    simp [read32, header_type middle, header_bits middle, PackedValueType.toNat, Nat.or_assoc, joined]
  · simp [read32, header_type none, PackedValueType.toNat, join_32Bit small]

/-- At least one byte and at most five. -/
theorem length_bytesOf (value : Nat) : 1 ≤ (bytesOf value).length ∧ (bytesOf value).length ≤ 5 := by
  unfold bytesOf
  split_ifs <;> simp

end Values

section Writing

variable {buffer : Buffer} {bytes : List Nat}

/-- All bytes are written if and only if there is room for them. -/
theorem foldlM_append8 :
    bytes.foldlM Buffer.append8 buffer =
      if buffer.written.length + bytes.length ≤ buffer.size ∨ bytes = [] then
        some { buffer with written := buffer.written ++ bytes }
      else none := by
  induction bytes generalizing buffer with
  | nil => simp
  | cons byte rest ih =>
    rw [List.foldlM_cons, Buffer.append8]
    by_cases room : buffer.written.length < buffer.size
    · simp only [if_pos room, Option.bind_eq_bind, Option.bind_some, ih, List.length_append, List.length_cons,
        List.length_nil, Nat.zero_add, List.append_assoc, List.singleton_append]
      by_cases done : rest = []
      · subst done
        rw [if_pos (.inr rfl), if_pos (.inl room)]
      · simp only [done, reduceCtorEq, or_false, Nat.add_assoc]
        rw [Nat.add_comm 1]
    · rw [if_neg room, if_neg]
      · rfl
      · simp only [List.length_cons, reduceCtorEq, or_false]
        omega

theorem foldlM_append32 (values : List Nat) :
    values.foldlM Buffer.append32 buffer = (values.flatMap bytesOf).foldlM Buffer.append8 buffer := by
  induction values generalizing buffer with
  | nil => rfl
  | cons value rest ih =>
    rw [List.foldlM_cons, List.flatMap_cons, List.foldlM_append, Buffer.append32]
    exact congrArg _ (funext fun _ => ih)

end Writing

section Instructions

variable {opcodeLength : Nat → Nat} {instruction : List Nat} {instructions : List (List Nat)}

/-- The bytes of an instruction. -/
def packedBytes : List Nat → List Nat
  | [] => []
  | opcode :: operands => opcode :: operands.flatMap bytesOf

theorem length_packedBytes (instruction : List Nat) :
    instruction.length ≤ (packedBytes instruction).length ∧
      (packedBytes instruction).length ≤ instruction.length * 5 := by
  cases instruction with
  | nil => simp [packedBytes]
  | cons opcode operands =>
    rw [packedBytes, List.length_cons, List.length_cons]
    suffices operands.length ≤ (operands.flatMap bytesOf).length ∧
      (operands.flatMap bytesOf).length ≤ operands.length * 5 by
      omega
    induction operands with
    | nil => simp
    | cons value rest ih =>
      have one := length_bytesOf value
      rw [List.flatMap_cons, List.length_append, List.length_cons]
      omega

theorem length_flatMap_packedBytes (instructions : List (List Nat)) :
    instructions.flatten.length ≤ (instructions.flatMap packedBytes).length ∧
      (instructions.flatMap packedBytes).length ≤ instructions.flatten.length * 5 := by
  induction instructions with
  | nil => simp
  | cons instruction rest ih =>
    have one := length_packedBytes instruction
    rw [List.flatten_cons, List.flatMap_cons, List.length_append, List.length_append]
    omega

/-- The loop writes the bytes of one instruction after the other. -/
theorem pack_eq (wellFormed : ∀ instruction ∈ instructions, IsInstruction opcodeLength instruction) {fuel : Nat}
    (enough : instructions.flatten.length ≤ fuel) (buffer : Buffer) :
    pack opcodeLength fuel instructions.flatten buffer =
      (instructions.flatMap packedBytes).foldlM Buffer.append8 buffer := by
  induction instructions generalizing fuel buffer with
  | nil => cases fuel <;> rfl
  | cons instruction rest ih =>
    obtain ⟨⟨opcode, operands, rfl, -, length⟩, -, -⟩ := wellFormed instruction List.mem_cons_self
    rw [List.flatten_cons, List.length_append, List.length_cons] at enough
    obtain ⟨fuel, rfl⟩ : ∃ fewer, fuel = fewer + 1 := ⟨fuel - 1, by omega⟩
    have count : opcodeLength opcode - 1 = operands.length := by omega
    rw [List.flatten_cons, List.flatMap_cons, List.cons_append, pack, packedBytes, List.cons_append, List.foldlM_cons,
      count, List.take_left, List.drop_left]
    refine congrArg _ (funext fun written => ?_)
    rw [foldlM_append32, List.foldlM_append]
    refine congrArg _ (funext fun result => ?_)
    exact ih (fun other member => wellFormed other (List.mem_cons_of_mem _ member)) (by omega) result

theorem readOperands_eq {operands : List Nat} (words : ∀ word ∈ operands, word < 2 ^ 32) (rest : List Nat) :
    readOperands operands.length (operands.flatMap bytesOf ++ rest) = some (operands, rest) := by
  induction operands with
  | nil => rfl
  | cons value others ih =>
    have read := read32_bytesOf (words value List.mem_cons_self) (others.flatMap bytesOf ++ rest)
    have later := ih fun word member => words word (List.mem_cons_of_mem _ member)
    rw [List.flatMap_cons, List.append_assoc, List.length_cons, readOperands, read]
    simp [later]

/-- `next` makes the instruction again and stops where the following one begins. -/
theorem next_packedBytes (isInstruction : IsInstruction opcodeLength instruction) (rest : List Nat) :
    next opcodeLength (packedBytes instruction ++ rest) = some (instruction, rest) := by
  obtain ⟨⟨opcode, operands, rfl, -, length⟩, short, words⟩ := isInstruction
  rw [List.length_cons, length] at short
  have count : opcodeLength opcode - 1 = operands.length := by omega
  have read := readOperands_eq (fun word member => words word (List.mem_cons_of_mem _ member)) rest
  rw [packedBytes, List.cons_append, next, if_pos short, count, read]
  rfl

theorem readAll_packedBytes (wellFormed : ∀ instruction ∈ instructions, IsInstruction opcodeLength instruction)
    {fuel : Nat} (enough : (instructions.flatMap packedBytes).length ≤ fuel) :
    readAll opcodeLength fuel (instructions.flatMap packedBytes) = some instructions := by
  induction instructions generalizing fuel with
  | nil => cases fuel <;> rfl
  | cons instruction rest ih =>
    have read := next_packedBytes (wellFormed instruction List.mem_cons_self) (rest.flatMap packedBytes)
    obtain ⟨⟨opcode, operands, rfl, -, -⟩, -, -⟩ := wellFormed instruction List.mem_cons_self
    rw [packedBytes, List.cons_append] at read
    rw [List.flatMap_cons, packedBytes, List.cons_append] at enough ⊢
    rw [List.length_cons, List.length_append] at enough
    obtain ⟨fuel, rfl⟩ : ∃ fewer, fuel = fewer + 1 := ⟨fuel - 1, by omega⟩
    rw [readAll, read]
    simp [ih (fun other member => wellFormed other (List.mem_cons_of_mem _ member)) (show _ ≤ fuel by omega)]

/-- Five bytes are enough for every word, so that only the size of the buffer can be wrong. -/
theorem construct_eq (wellFormed : ∀ instruction ∈ instructions, IsInstruction opcodeLength instruction) :
    construct opcodeLength instructions.flatten =
      if (instructions.flatMap packedBytes).length ≤ instructions.flatten.length * 5 % 2 ^ 32 then
        some (instructions.flatMap packedBytes)
      else none := by
  rw [construct, pack_eq wellFormed le_rfl, foldlM_append8]
  by_cases empty : instructions.flatMap packedBytes = []
  · simp [empty]
  · simp only [List.length_nil, Nat.zero_add, empty, or_false, List.nil_append]
    split <;> rfl

/-- The stream of a vector of instructions is what it should be exactly if five times its size fits in 32 bits. A vector
has less than `2 ^ 30` words of four bytes. -/
theorem round_trip_iff (wellFormed : ∀ instruction ∈ instructions, IsInstruction opcodeLength instruction)
    (vector : instructions.flatten.length < 2 ^ 30) :
    (∃ data, construct opcodeLength instructions.flatten = some data ∧
        readAll opcodeLength data.length data = some instructions) ↔
      instructions.flatten.length * 5 < 2 ^ 32 := by
  have lengths := length_flatMap_packedBytes instructions
  rw [construct_eq wellFormed]
  constructor
  · rintro ⟨data, written, -⟩
    split at written
    · next room =>
      by_contra large
      have wrapped : instructions.flatten.length * 5 % 2 ^ 32 = instructions.flatten.length * 5 - 2 ^ 32 := by
        rw [Nat.mod_eq_sub_mod (by omega), Nat.mod_eq_of_lt (by omega)]
      omega
    · cases written
  · intro fits
    rw [Nat.mod_eq_of_lt fits, if_pos lengths.2]
    exact ⟨_, rfl, readAll_packedBytes wellFormed le_rfl⟩

theorem round_trip_all_forms :
    let lengths : Nat → Nat := fun opcode => if opcode = 7 then 8 else 1
    let instructions := [[7, 31, 0xffffffe1, 0x4000001f, 8191, 0xffffe001, 0x40001fff, 0x12345678], [255]]
    ∃ data, construct lengths instructions.flatten = some data ∧
      readAll lengths data.length data = some instructions := by
  intro lengths instructions
  refine (@round_trip_iff lengths instructions ?_ (by decide)).mpr (by decide)
  intro instruction member
  rcases List.mem_cons.mp member with rfl | member
  · exact ⟨⟨7, _, rfl, by decide, by decide⟩, by decide, by decide⟩
  · rcases List.mem_singleton.mp member with rfl
    exact ⟨⟨255, [], rfl, by decide, by decide⟩, by decide, by decide⟩

/-- The buffer for 858993460 words has four bytes. -/
theorem buffer_overflows :
    let instructions := List.replicate 858993460 [0]
    (∀ instruction ∈ instructions, IsInstruction (fun _ => 1) instruction) ∧
      construct (fun _ => 1) instructions.flatten = none := by
  intro instructions
  have wellFormed : ∀ instruction ∈ instructions, IsInstruction (fun _ => 1) instruction := by
    intro instruction member
    rw [List.eq_of_mem_replicate member]
    exact ⟨⟨0, [], rfl, by decide, rfl⟩, by decide, by decide⟩
  have words : instructions.flatten.length = 858993460 := by
    rw [List.flatten_replicate_singleton, List.length_replicate]
  refine ⟨wellFormed, ?_⟩
  have lengths := length_flatMap_packedBytes instructions
  rw [construct_eq wellFormed, if_neg]
  omega

end Instructions

end WebNode.Jsc.InstructionStream
