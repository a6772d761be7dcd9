import Mathlib.Data.List.Basic
import Mathlib.Data.Nat.Find
import WebNode.Lib.BigEndian

/-! Iterated hashing: a message is taken in blocks of one length, and the value so far is
compressed with each of them. SHA-1, as FIPS 180 has it, pads the message to whole blocks first. -/
namespace WebNode.SecureHash

/-! ### Messages in blocks -/

section Blocks

variable {α β : Type} {size : Nat} {compress : β → List α → β} {start : β} {message more block : List α}

/-- The whole blocks of a message in their order. What is left behind the last one does not count. -/
def absorb (size : Nat) (compress : β → List α → β) (start : β) (message : List α) : β :=
  (List.range (message.length / size)).foldl (fun value i => compress value ((message.drop (size * i)).take size)) start

/-- What is left behind the last whole block. -/
def leftover (size : Nat) (message : List α) : List α := message.drop (size * (message.length / size))

@[simp]
theorem leftover_length : (leftover size message).length = message.length % size := by
  rw [leftover, List.length_drop, Nat.mod_eq_sub]

private theorem length_div_append (positive : 0 < size) :
    (message ++ more).length / size = message.length / size + (leftover size message ++ more).length / size := by
  rw [List.length_append, List.length_append, leftover_length, ← Nat.mul_add_div positive, ← add_assoc, Nat.div_add_mod]

private theorem drop_append_whole (i : Nat) :
    (message ++ more).drop (size * (message.length / size + i)) = (leftover size message ++ more).drop (size * i) := by
  rw [leftover, ← List.drop_append_of_le_length (Nat.mul_div_le _ _), List.drop_drop, mul_add]

theorem absorb_append (positive : 0 < size) :
    absorb size compress start (message ++ more) =
      absorb size compress (absorb size compress start message) (leftover size message ++ more) := by
  rw [absorb, length_div_append positive, List.range_add, List.foldl_append, List.foldl_map, absorb, absorb]
  simp only [drop_append_whole]
  congr 1
  -- the blocks inside the first part are those of the first part
  apply List.foldl_ext
  intro value i member
  have whole : size * (i + 1) ≤ message.length :=
    (Nat.mul_le_mul_left size (List.mem_range.mp member)).trans (Nat.mul_div_le _ _)
  rw [mul_add, mul_one] at whole
  rw [List.drop_append_of_le_length (by omega), List.take_append_of_le_length (by rw [List.length_drop]; omega)]

theorem leftover_append (positive : 0 < size) :
    leftover size (message ++ more) = leftover size (leftover size message ++ more) := by
  rw [leftover, length_div_append positive, drop_append_whole, ← leftover]

theorem absorb_short (short : message.length < size) : absorb size compress start message = start := by
  rw [absorb, Nat.div_eq_of_lt short, List.range_zero, List.foldl_nil]

theorem leftover_short (short : message.length < size) : leftover size message = message := by
  rw [leftover, Nat.div_eq_of_lt short, mul_zero, List.drop_zero]

theorem absorb_block (positive : 0 < size) (whole : block.length = size) :
    absorb size compress start block = compress start block := by
  subst whole
  rw [absorb, Nat.div_self positive, List.range_one, List.foldl_cons, List.foldl_nil, mul_zero, List.drop_zero,
    List.take_length]

theorem leftover_block (positive : 0 < size) (whole : block.length = size) : leftover size block = [] := by
  subst whole
  rw [leftover, Nat.div_self positive, mul_one, List.drop_length]

end Blocks

/-! ### SHA-1 -/

/-- `ROTL` -/
def rotl (n x : UInt32) : UInt32 := (x <<< n) ||| (x >>> (32 - n))

def ch (x y z : UInt32) : UInt32 := (x &&& y) ^^^ (~~~x &&& z)

def parity (x y z : UInt32) : UInt32 := x ^^^ y ^^^ z

def maj (x y z : UInt32) : UInt32 := (x &&& y) ^^^ (x &&& z) ^^^ (y &&& z)

def logical (t : Nat) : UInt32 → UInt32 → UInt32 → UInt32 :=
  if t < 20 then ch else if t < 40 then parity else if t < 60 then maj else parity

def constant (t : Nat) : UInt32 :=
  if t < 20 then 0x5a827999 else if t < 40 then 0x6ed9eba1 else if t < 60 then 0x8f1bbcdc else 0xca62c1d6

/-- The five words of a hash value and of the working variables. -/
@[ext]
structure Words where
  a : UInt32
  b : UInt32
  c : UInt32
  d : UInt32
  e : UInt32
deriving DecidableEq

/-- The word of a block at a position. -/
def word (block : List UInt8) (t : Nat) : UInt32 := UInt32.ofNat (BigEndian.value ((block.drop (4 * t)).take 4))

/-- The message schedule. -/
def schedule (block : List UInt8) (t : Nat) : UInt32 :=
  if t < 16 then word block t
  else rotl 1
    (schedule block (t - 3) ^^^ schedule block (t - 8) ^^^ schedule block (t - 14) ^^^ schedule block (t - 16))

def round (w : Nat → UInt32) (v : Words) (t : Nat) : Words where
  a := rotl 5 v.a + logical t v.b v.c v.d + v.e + constant t + w t
  b := v.a
  c := rotl 30 v.b
  d := v.c
  e := v.d

def compress (hash : Words) (block : List UInt8) : Words :=
  let v := (List.range 80).foldl (round (schedule block)) hash
  ⟨v.a + hash.a, v.b + hash.b, v.c + hash.c, v.d + hash.d, v.e + hash.e⟩

def initial : Words := ⟨0x67452301, 0xefcdab89, 0x98badcfe, 0x10325476, 0xc3d2e1f0⟩

/-- Some number of zero bits fills the last block up to the length. -/
theorem exists_zeroBits (bits : Nat) : ∃ k, (bits + 1 + k) % 512 = 448 := ⟨960 - (bits + 1) % 512, by omega⟩

/-- The least such number. -/
def zeroBits (bits : Nat) : Nat := Nat.find (exists_zeroBits bits)

/-- The message, a one bit, zero bits, and the number of bits of the message. A message of bytes has the one
bit and the first seven zero bits in one byte. -/
def pad (message : List UInt8) : List UInt8 :=
  message ++ 0x80 :: List.replicate ((zeroBits (8 * message.length) - 7) / 8) 0 ++ BigEndian.bytes 8
    (8 * message.length)

def output (hash : Words) : List UInt8 :=
  [hash.a, hash.b, hash.c, hash.d, hash.e].flatMap fun word => BigEndian.bytes 4 word.toNat

/-- SHA-1 of a message of bytes. -/
def sha1 (message : List UInt8) : List UInt8 := output (absorb 64 compress initial (pad message))

theorem zeroBits_eq (length : Nat) : zeroBits (8 * length) = 7 + 8 * ((119 - length % 64) % 64) := by
  rw [zeroBits, Nat.find_eq_iff]
  exact ⟨by omega, fun k less => by omega⟩

theorem pad_eq (message : List UInt8) :
    pad message = message ++ 0x80 :: List.replicate ((119 - message.length % 64) % 64) 0 ++
      BigEndian.bytes 8 (8 * message.length) := by
  rw [pad, zeroBits_eq, Nat.add_sub_cancel_left, Nat.mul_div_cancel_left _ (by decide)]

end WebNode.SecureHash
