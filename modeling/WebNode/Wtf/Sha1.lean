import WebNode.Lib.SecureHash

/-!
# The SHA-1 of WTF

Bytes are collected in a buffer of one block, and a full buffer is compressed at once. The end of the
message is padded in place, in one block or in two.
-/

namespace WebNode.Wtf

open SecureHash
    (Words absorb leftover absorb_append leftover_append absorb_short leftover_short absorb_block leftover_block)

/-- The object. `m_cursor` counts the bytes of the buffer that are filled. -/
structure SHA1 where
  buffer : Vector UInt8 64
  cursor : Nat
  totalBytes : UInt64
  hash : Vector UInt32 5

namespace SHA1

/-! ### The code -/

def f (t : Nat) (b c d : UInt32) : UInt32 :=
  if t < 20 then (b &&& c) ||| (~~~b &&& d)
  else if t < 40 then b ^^^ c ^^^ d
  else if t < 60 then (b &&& c) ||| (b &&& d) ||| (c &&& d)
  else b ^^^ c ^^^ d

def k (t : Nat) : UInt32 :=
  if t < 20 then 0x5a827999 else if t < 40 then 0x6ed9eba1 else if t < 60 then 0x8f1bbcdc else 0xca62c1d6

def rotateLeft (n x : UInt32) : UInt32 := (x <<< n) ||| (x >>> (32 - n))

/-- The four bytes of the buffer behind `w[t]`. -/
def bufferWord (buffer : Vector UInt8 64) (t : Nat) : UInt32 :=
  (buffer[t * 4]!.toUInt32 <<< 24) ||| (buffer[t * 4 + 1]!.toUInt32 <<< 16) ||| (buffer[t * 4 + 2]!.toUInt32 <<< 8) |||
    buffer[t * 4 + 3]!.toUInt32

/-- The next word behind the first sixteen. -/
def nextWord (w : Vector UInt32 80) (t : Nat) : UInt32 :=
  rotateLeft 1 (w[t - 3]! ^^^ w[t - 8]! ^^^ w[t - 14]! ^^^ w[t - 16]!)

/-- Both loops that fill `w`. -/
def words (buffer : Vector UInt8 64) : Vector UInt32 80 :=
  let w := (List.range' 0 16).foldl (fun w t => w.setIfInBounds t (bufferWord buffer t)) (Vector.replicate 80 0)
  (List.range' 16 64).foldl (fun w t => w.setIfInBounds t (nextWord w t)) w

/-- The body of the main loop. -/
def mix (w : Vector UInt32 80) (v : Words) (t : Nat) : Words where
  a := rotateLeft 5 v.a + f t v.b v.c v.d + v.e + w[t]! + k t
  b := v.a
  c := rotateLeft 30 v.b
  d := v.c
  e := v.d

def mainLoop (w : Vector UInt32 80) (v : Words) : Words := (List.range 80).foldl (mix w) v

/-- The five words of the hash, which the variables of the main loop start with. -/
def value (sha : SHA1) : Words := ⟨sha.hash[0], sha.hash[1], sha.hash[2], sha.hash[3], sha.hash[4]⟩

def processBlock (sha : SHA1) : SHA1 :=
  let v := mainLoop (words sha.buffer) sha.value
  { sha with
    hash := #v[sha.hash[0] + v.a, sha.hash[1] + v.b, sha.hash[2] + v.c, sha.hash[3] + v.d, sha.hash[4] + v.e]
    cursor := 0 }

/-- `m_buffer[m_cursor++] = byte` -/
def put (sha : SHA1) (byte : UInt8) : SHA1 :=
  { sha with buffer := sha.buffer.setIfInBounds sha.cursor byte, cursor := sha.cursor + 1 }

/-- The body of the loop of `addBytes`. -/
def addByte (sha : SHA1) (byte : UInt8) : SHA1 :=
  let sha := sha.put byte
  let sha := { sha with totalBytes := sha.totalBytes + 1 }
  if sha.cursor = 64 then sha.processBlock else sha

def addBytes (sha : SHA1) (input : List UInt8) : SHA1 := input.foldl addByte sha

/-- The loops that write a number from its last byte on, in front of `offset + count`. -/
def store {n : Nat} (offset : Nat) : (count : Nat) → Vector UInt8 n → Nat → Vector UInt8 n
  | 0, buffer, _ => buffer
  | count + 1, buffer,
    value => store offset count (buffer.setIfInBounds (offset + count) (UInt8.ofNat (value &&& 0xFF))) (value >>> 8)

/-- Pads out to the next block. -/
def padOut (sha : SHA1) : SHA1 := (List.range (64 - sha.cursor)).foldl (fun sha _ => sha.put 0x00) sha

/-- The rest of `finalize`, where the last block has room for the length. -/
def finish (sha : SHA1) : SHA1 :=
  let buffer :=
    (List.range' sha.cursor (56 - sha.cursor)).foldl (fun buffer i => buffer.setIfInBounds i 0x00) sha.buffer
  let bits := sha.totalBytes * 8
  processBlock { sha with buffer := store 56 8 buffer bits.toNat, cursor := 64 }

def finalize (sha : SHA1) : SHA1 :=
  let sha := sha.put 0x80
  let sha := if sha.cursor > 56 then sha.padOut.processBlock else sha
  sha.finish

/-- What `reset`, and with it the constructor, makes of an object. -/
def fresh : SHA1 where
  buffer := Vector.replicate 64 0
  cursor := 0
  totalBytes := 0
  hash := #v[0x67452301, 0xefcdab89, 0x98badcfe, 0x10325476, 0xc3d2e1f0]

def reset (_ : SHA1) : SHA1 := fresh

/-- The digest is written over what the caller passes; the object is reset. -/
def computeHash (sha : SHA1) (digest : Vector UInt8 20) : Vector UInt8 20 × SHA1 :=
  let sha := sha.finalize
  ((List.range 5).foldl (fun digest i => store (4 * i) 4 digest sha.hash[i]!.toNat) digest, sha.reset)

/-! ### A block -/

theorem f_eq (t : Nat) : f t = SecureHash.logical t := by
  funext b c d
  rw [f, SecureHash.logical]
  split
  · rw [SecureHash.ch, ← UInt32.toBitVec_inj]
    ext i
    simp
    cases b.toBitVec[i] <;> simp
  split
  · rfl
  split
  · rw [SecureHash.maj, ← UInt32.toBitVec_inj]
    ext i
    simp
    cases b.toBitVec[i] <;> cases c.toBitVec[i] <;> simp
  · rfl

theorem bufferWord_eq (buffer : Vector UInt8 64) {t : Nat} (inside : t < 16) :
    bufferWord buffer t = SecureHash.word buffer.toList t := by
  have four :
      (buffer.toList.drop (4 * t)).take 4 =
        [buffer[t * 4]!, buffer[t * 4 + 1]!, buffer[t * 4 + 2]!, buffer[t * 4 + 3]!] := by
    apply List.ext_getElem
    · simp
      omega
    · intro i _ less
      rw [List.getElem_take, List.getElem_drop, Vector.getElem_toList]
      match i with
      | 0 | 1 | 2 | 3 =>
        simp only [Nat.mul_comm 4 t, Nat.add_zero, List.getElem_cons_zero, List.getElem_cons_succ]
        rw [getElem!_pos _ _ (by omega)]
  rw [bufferWord, SecureHash.word, four, ← UInt32.toNat_inj]
  simp [BigEndian.value, Nat.shiftLeft_or_distrib, ← Nat.shiftLeft_add]

/-- A loop that fills a vector in order, where each entry depends on the ones in front of it only. -/
theorem fill_spec {α : Type} [Inhabited α] {n : Nat} {step : Vector α n → Nat → α} {entry : Nat → α} {first : Nat}
    {w : Vector α n} (count : Nat) (fits : first + count ≤ n)
    (step_eq : ∀ (w : Vector α n) (t : Nat), first ≤ t → t < first + count → (∀ s < t, w[s]! = entry s) →
      step w t = entry t)
    (filled : ∀ s < first, w[s]! = entry s) :
    ∀ s < first + count, ((List.range' first count).foldl (fun w t => w.setIfInBounds t (step w t)) w)[s]! =
      entry s := by
  induction count with
  | zero => exact filled
  | succ count ih =>
    intro s less
    have before := ih (by omega) fun w t least less => step_eq w t least (by omega)
    rw [List.range'_concat, one_mul, List.foldl_append, List.foldl_cons, List.foldl_nil]
    rw [getElem!_pos _ _ (by omega), Vector.getElem_setIfInBounds (by omega)]
    split
    · next same =>
      subst same
      exact step_eq _ _ (by omega) (by omega) before
    · rw [← before s (by omega), getElem!_pos _ _ (by omega)]

theorem words_spec (buffer : Vector UInt8 64) : ∀ t < 80, (words buffer)[t]! = SecureHash.schedule buffer.toList t := by
  rw [words]
  apply fill_spec 64 le_rfl
  · intro w t least _ filled
    rw [SecureHash.schedule,
      if_neg (by omega), nextWord, filled _ (by omega), filled _ (by omega), filled _ (by omega), filled _ (by omega)]
    rfl
  · apply fill_spec 16 (by decide)
    · intro w t _ less _
      rw [SecureHash.schedule, if_pos (by omega), bufferWord_eq _ (by omega)]
    · exact fun s less => absurd less (Nat.not_lt_zero s)

theorem mix_eq (buffer : Vector UInt8 64) (v : Words) {t : Nat} (inside : t < 80) :
    mix (words buffer) v t = SecureHash.round (SecureHash.schedule buffer.toList) v t := by
  rw [mix, SecureHash.round, f_eq, words_spec buffer t inside, UInt32.add_assoc _ _ (k t), UInt32.add_comm _ (k t),
    ← UInt32.add_assoc]
  rfl

theorem mainLoop_eq (buffer : Vector UInt8 64) (v : Words) :
    mainLoop (words buffer) v = (List.range 80).foldl (SecureHash.round (SecureHash.schedule buffer.toList)) v := by
  apply List.foldl_ext
  intro v t member
  exact mix_eq buffer v (List.mem_range.mp member)

@[simp]
theorem processBlock_value (sha : SHA1) : sha.processBlock.value = SecureHash.compress sha.value sha.buffer.toList := by
  rw [SecureHash.compress, ← mainLoop_eq]
  simp [value, processBlock, UInt32.add_comm]

/-! ### Writing into a buffer -/

section Writing

variable {n : Nat} {buffer : Vector UInt8 n}

theorem take_write {position : Nat} (byte : UInt8) (inside : position < n) :
    (buffer.setIfInBounds position byte).toList.take (position + 1) = buffer.toList.take position ++ [byte] := by
  rw [Vector.toList_setIfInBounds, List.set_eq_take_append_cons_drop, if_pos (by simpa using inside), List.append_cons]
  apply List.take_left'
  simp [Nat.min_eq_left inside.le]

theorem take_zeros {position : Nat} (count : Nat) (fits : position + count ≤ n) :
    ((List.range' position count).foldl (fun buffer i =>
      buffer.setIfInBounds i 0x00) buffer).toList.take (position + count) =
      buffer.toList.take position ++ List.replicate count 0 := by
  induction count with
  | zero => simp
  | succ count ih =>
    rw [List.range'_concat, one_mul, List.foldl_append, List.foldl_cons, List.foldl_nil, ← add_assoc,
      take_write _ (by omega), ih (by omega), List.append_assoc, List.replicate_succ']

theorem store_toList {offset : Nat} (count number : Nat) (fits : offset + count ≤ n) :
    (store offset count buffer number).toList =
      buffer.toList.take offset ++ BigEndian.bytes count number ++ buffer.toList.drop (offset + count) := by
  induction count generalizing buffer number with
  | zero => simp [store, BigEndian.bytes]
  | succ count ih =>
    have inside : offset + count < buffer.toList.length := by simpa using by omega
    rw [store,
      ih _ (by omega), BigEndian.bytes, Vector.toList_setIfInBounds, List.take_set_of_le (by omega), List.drop_set,
        if_neg (by omega), Nat.sub_self, List.drop_eq_getElem_cons inside, List.set_cons_zero, ← add_assoc]
    simp

end Writing

/-! ### Whole messages -/

section Messages

variable {sha : SHA1} {message : List UInt8}

/-- The bytes that wait in the buffer. -/
def filled (sha : SHA1) : List UInt8 := sha.buffer.toList.take sha.cursor

/-- What an object has taken in so far. -/
structure Absorbed (message : List UInt8) (sha : SHA1) : Prop where
  cursor : sha.cursor = message.length % 64
  filled : sha.filled = leftover 64 message
  value : sha.value = absorb 64 SecureHash.compress SecureHash.initial message
  totalBytes : sha.totalBytes = UInt64.ofNat message.length

theorem fresh_absorbed : Absorbed [] fresh := ⟨rfl, rfl, rfl, rfl⟩

theorem put_filled (byte : UInt8) (room : sha.cursor < 64) : (sha.put byte).filled = sha.filled ++ [byte] :=
  take_write byte room

@[simp]
theorem put_value (byte : UInt8) : (sha.put byte).value = sha.value := rfl

@[simp]
theorem put_cursor (byte : UInt8) : (sha.put byte).cursor = sha.cursor + 1 := rfl

@[simp]
theorem put_totalBytes (byte : UInt8) : (sha.put byte).totalBytes = sha.totalBytes := rfl

@[simp]
theorem processBlock_cursor : sha.processBlock.cursor = 0 := rfl

@[simp]
theorem processBlock_filled : sha.processBlock.filled = [] := rfl

theorem filled_full (full : sha.cursor = 64) : sha.filled = sha.buffer.toList := by
  rw [filled, full]
  apply List.take_of_length_le
  simp

theorem addByte_absorbed (byte : UInt8) (absorbed : Absorbed message sha) :
    Absorbed (message ++ [byte]) (sha.addByte byte) := by
  have room : sha.cursor < 64 := absorbed.cursor.trans_lt (Nat.mod_lt _ (by decide))
  have total : sha.totalBytes + 1 = UInt64.ofNat (message ++ [byte]).length := by
    rw [absorbed.totalBytes, List.length_append, UInt64.ofNat_add]
    rfl
  have filled := put_filled byte room
  have length : (leftover 64 message ++ [byte]).length = sha.cursor + 1 := by simp [absorbed.cursor]
  rw [absorbed.filled] at filled
  rw [addByte]
  split
  · next full =>
    have whole : (leftover 64 message ++ [byte]).length = 64 := length.trans full
    refine ⟨?_, ?_, ?_, total⟩
    · have := absorbed.cursor
      rw [List.length_append, List.length_singleton]
      change sha.cursor + 1 = 64 at full
      change 0 = _
      omega
    · rw [leftover_append (by decide), leftover_block (by decide) whole]
      rfl
    · rw [processBlock_value, absorb_append (by decide), absorb_block (by decide) whole, ← absorbed.value, ← filled,
        @filled_full (sha.put byte) full]
      rfl
  · next notFull =>
    have short : (leftover 64 message ++ [byte]).length < 64 := by
      rw [length]
      exact lt_of_le_of_ne room notFull
    refine ⟨?_, ?_, ?_, total⟩
    · have := absorbed.cursor
      rw [List.length_append, List.length_singleton]
      change ¬ sha.cursor + 1 = 64 at notFull
      change sha.cursor + 1 = _
      omega
    · rw [leftover_append (by decide), leftover_short short]
      exact filled
    · rw [absorb_append (by decide), absorb_short short]
      exact absorbed.value

theorem addBytes_absorbed (input : List UInt8) (absorbed : Absorbed message sha) :
    Absorbed (message ++ input) (sha.addBytes input) := by
  induction input generalizing message sha with
  | nil => rwa [List.append_nil]
  | cons byte rest ih =>
    rw [List.append_cons]
    exact ih (addByte_absorbed byte absorbed)

theorem addAll_absorbed (inputs : List (List UInt8)) (absorbed : Absorbed message sha) :
    Absorbed (message ++ inputs.flatten) (inputs.foldl addBytes sha) := by
  induction inputs generalizing message sha with
  | nil => rwa [List.flatten_nil, List.append_nil]
  | cons input rest ih =>
    rw [List.flatten_cons, ← List.append_assoc]
    exact ih (addBytes_absorbed input absorbed)

theorem putZeros_spec (count : Nat) (fits : sha.cursor + count ≤ 64) :
    let padded := (List.range count).foldl (fun sha _ => sha.put 0x00) sha
    padded.filled = sha.filled ++ List.replicate count 0 ∧ padded.cursor = sha.cursor + count ∧
      padded.value = sha.value ∧
      padded.totalBytes = sha.totalBytes := by
  induction count with
  | zero => simp
  | succ count ih =>
    obtain ⟨filled, cursor, value, total⟩ := ih (by omega)
    rw [List.range_succ, List.foldl_append, List.foldl_cons, List.foldl_nil]
    refine ⟨?_, congrArg (· + 1) cursor, value, total⟩
    rw [put_filled _ (by omega), filled, List.append_assoc, List.replicate_succ']

theorem padOut_processBlock (room : sha.cursor ≤ 64) :
    sha.padOut.processBlock.value = SecureHash.compress sha.value (sha.filled ++ List.replicate (64 - sha.cursor) 0) ∧
      sha.padOut.processBlock.totalBytes = sha.totalBytes := by
  obtain ⟨filled, cursor, value, total⟩ :=
    putZeros_spec (64 - sha.cursor) (show sha.cursor + (64 - sha.cursor) ≤ 64 by omega)
  refine ⟨?_, total⟩
  rw [processBlock_value, ← filled, ← value]
  exact congrArg _ (filled_full (cursor.trans (by omega))).symm

theorem finish_value (room : sha.cursor ≤ 56) :
    sha.finish.value =
      SecureHash.compress sha.value
        (sha.filled ++ List.replicate (56 - sha.cursor) 0 ++ BigEndian.bytes 8 (sha.totalBytes * 8).toNat) := by
  have zeros := @take_zeros 64 sha.buffer sha.cursor (56 - sha.cursor) (by omega)
  rw [Nat.add_sub_of_le room] at zeros
  rw [finish, processBlock_value, store_toList _ _ le_rfl, zeros,
    List.drop_of_length_le (by simp), List.append_nil, filled]
  simp only [value]

theorem finalize_value (absorbed : Absorbed message sha) (bounded : message.length < 2 ^ 61) :
    sha.finalize.value = absorb 64 SecureHash.compress SecureHash.initial (SecureHash.pad message) := by
  have room : sha.cursor < 64 := absorbed.cursor.trans_lt (Nat.mod_lt _ (by decide))
  have bits : (sha.totalBytes * 8).toNat = 8 * message.length := by
    rw [absorbed.totalBytes, UInt64.toNat_mul, UInt64.toNat_ofNat']
    change _ * 8 % _ = _
    omega
  have filled := put_filled 0x80 room
  rw [absorbed.filled] at filled
  rw [SecureHash.pad_eq, ← absorbed.cursor, List.append_assoc, absorb_append (by decide), ← absorbed.value]
  rw [finalize]
  split
  · -- the mark has no room for the length behind it
    next late =>
    change sha.cursor + 1 > 56 at late
    obtain ⟨value, total⟩ := @padOut_processBlock (sha.put 0x80) room
    have whole : (leftover 64 message ++ 0x80 :: List.replicate (63 - sha.cursor) (0 : UInt8)).length = 64 := by
      simp [← absorbed.cursor]
      omega
    have split :
        0x80 :: List.replicate ((119 - sha.cursor) % 64) (0 : UInt8) ++ BigEndian.bytes 8 (8 * message.length) =
        0x80 :: List.replicate (63 - sha.cursor) 0 ++
          (List.replicate 56 0 ++ BigEndian.bytes 8 (8 * message.length)) := by
      rw [show (119 - sha.cursor) % 64 = 63 - sha.cursor + 56 by omega, List.replicate_add]
      simp
    rw [finish_value (Nat.zero_le _), value, total, filled, split, ← List.append_assoc, absorb_append (by decide),
      absorb_block (by decide) whole, leftover_block (by decide) whole, absorb_block (by decide) (by simp)]
    simp only [put_value, put_cursor, put_totalBytes, processBlock_filled, processBlock_cursor, bits, List.nil_append,
      Nat.sub_zero, List.append_assoc, List.singleton_append, Nat.reduceSubDiff]
  · next early =>
    change ¬ sha.cursor + 1 > 56 at early
    rw [finish_value (not_lt.mp early), filled, absorb_block (by decide) (by simp [← absorbed.cursor]; omega)]
    rw [put_value, put_cursor, put_totalBytes, bits, show (119 - sha.cursor) % 64 = 56 - (sha.cursor + 1) by omega]
    simp only [List.append_assoc, List.cons_append, List.nil_append]

theorem computeHash_digest (digest : Vector UInt8 20) :
    (sha.computeHash digest).1.toList = SecureHash.output sha.finalize.value := by
  have part (count : Nat) (fits : count ≤ 5) :
      ((List.range count).foldl (fun digest i => store (4 * i) 4 digest sha.finalize.hash[i]!.toNat) digest).toList.take
        (4 * count) =
        (List.range count).flatMap fun i => BigEndian.bytes 4 sha.finalize.hash[i]!.toNat := by
    induction count with
    | zero => rfl
    | succ count ih =>
      rw [List.range_succ, List.foldl_append, List.foldl_cons, List.foldl_nil, List.flatMap_append, ← ih (by omega),
        store_toList _ _ (by omega)]
      apply List.take_left'
      simp
      omega
  have whole := part 5 le_rfl
  rw [List.take_of_length_le (by simp)] at whole
  rw [computeHash, whole]
  rfl

end Messages

/-- Uses of one object, one after the other: byte strings are added, then the digest is computed. -/
def runUses : List (List (List UInt8) × Vector UInt8 20) → SHA1 → List (List UInt8) × SHA1
  | [], sha => ([], sha)
  | (inputs, digest) :: rest, sha =>
    let (digest, sha) := (inputs.foldl addBytes sha).computeHash digest
    let (digests, sha) := runUses rest sha
    (digest.toList :: digests, sha)

/-- Every use computes the SHA-1 of the concatenation and leaves a fresh object. -/
theorem runUses_sha1 (uses : List (List (List UInt8) × Vector UInt8 20))
    (bounded : ∀ use ∈ uses, use.1.flatten.length < 2 ^ 61) :
    runUses uses fresh = (uses.map fun use => SecureHash.sha1 use.1.flatten, fresh) := by
  induction uses with
  | nil => rfl
  | cons use rest ih =>
    have absorbed := addAll_absorbed use.1 fresh_absorbed
    have digest := @computeHash_digest (use.1.foldl addBytes fresh) use.2
    rw [finalize_value absorbed (bounded use List.mem_cons_self)] at digest
    have later := ih fun use member => bounded use (List.mem_cons_of_mem _ member)
    change (((use.1.foldl addBytes fresh).computeHash use.2).1.toList :: (runUses rest fresh).1,
      (runUses rest fresh).2) = _
    rw [later, digest]
    rfl

/-- The message `abc` in two pieces, then the empty message. -/
theorem runUses_sha1_abc : runUses [([[97], [98, 99]], Vector.replicate 20 0), ([], Vector.replicate 20 1)] fresh =
    ([SecureHash.sha1 [97, 98, 99], SecureHash.sha1 []], fresh) :=
  runUses_sha1 _ (by simp)

example : (runUses [([[97], [98, 99]], Vector.replicate 20 0)] fresh).1 =
    [[0xa9, 0x99, 0x3e, 0x36, 0x47, 0x06, 0x81, 0x6a, 0xba, 0x3e, 0x25, 0x71, 0x78, 0x50, 0xc2, 0x6c, 0x9c, 0xd0, 0xd8,
      0x9d]] := by
  decide +kernel

end SHA1

end WebNode.Wtf
