import WebNode.Lib.BigEndian

/-! Bytes as numbers of six bits: three bytes are four sextets, and one or two bytes at the end
are two or three sextets with zero bits behind them. -/
namespace WebNode.Lib.Sextets

/-- The number that four sextets spell. -/
def spell (a b c d : Nat) : Nat := ((a * 64 + b) * 64 + c) * 64 + d

/-- The bytes that the sextets spell. Bits that do not fill a byte are dropped. -/
def pack : List Nat → List UInt8
  | a :: b :: c :: d :: rest => BigEndian.bytes 3 (spell a b c d) ++ pack rest
  | [a, b, c] => BigEndian.bytes 2 (spell 0 a b c / 4)
  | [a, b] => BigEndian.bytes 1 (spell 0 0 a b / 16)
  | _ => []

def unpack : List UInt8 → List Nat
  | a :: b :: c :: rest =>
    let number := BigEndian.value [a, b, c]
    [number / 64 ^ 3, number / 64 ^ 2 % 64, number / 64 % 64, number % 64] ++ unpack rest
  | [a, b] =>
    let number := BigEndian.value [a, b] * 4
    [number / 64 ^ 2, number / 64 % 64, number % 64]
  | [a] =>
    let number := BigEndian.value [a] * 16
    [number / 64, number % 64]
  | [] => []

theorem length_pack (sextets : List Nat) : (pack sextets).length = sextets.length * 3 / 4 := by
  induction sextets using pack.induct with
  | case1 a b c d rest ih =>
    rw [pack, List.length_append, BigEndian.bytes_length, ih]
    simp only [List.length_cons]
    omega
  | case2 | case3 => simp [pack]
  | case4 rest no_four no_three no_two =>
    rw [pack]
    · match rest with
      | [] => rfl
      | [a] => simp
      | [a, b] => exact absurd rfl (no_two a b)
      | [a, b, c] => exact absurd rfl (no_three a b c)
      | a :: b :: c :: d :: rest => exact absurd rfl (no_four a b c d rest)
    all_goals assumption

theorem length_unpack (bytes : List UInt8) : (unpack bytes).length = (bytes.length * 4 + 2) / 3 := by
  induction bytes using unpack.induct with
  | case1 a b c rest ih =>
    rw [unpack, List.length_append, ih]
    simp only [List.length_cons, List.length_nil]
    omega
  | case2 | case3 | case4 => simp [unpack]

theorem value_three (a b c : UInt8) : BigEndian.value [a, b, c] = (a.toNat * 256 + b.toNat) * 256 + c.toNat := by
  simp [BigEndian.value, BigEndian.shift_or]

theorem value_two (a b : UInt8) : BigEndian.value [a, b] = a.toNat * 256 + b.toNat := by
  simp [BigEndian.value, BigEndian.shift_or]

theorem value_one (a : UInt8) : BigEndian.value [a] = a.toNat := by
  simp [BigEndian.value]

theorem unpack_lt (bytes : List UInt8) : ∀ sextet ∈ unpack bytes, sextet < 64 := by
  induction bytes using unpack.induct with
  | case1 a b c rest ih =>
    have bound : BigEndian.value [a, b, c] < 256 ^ 3 := BigEndian.value_lt _
    simp only [unpack, List.cons_append, List.nil_append, List.forall_mem_cons]
    exact ⟨by omega, by omega, by omega, by omega, ih⟩
  | case2 a b =>
    have bound : BigEndian.value [a, b] < 256 ^ 2 := BigEndian.value_lt _
    simp only [unpack, List.forall_mem_cons, List.not_mem_nil, false_implies, implies_true, and_true]
    omega
  | case3 a =>
    have bound : BigEndian.value [a] < 256 ^ 1 := BigEndian.value_lt _
    simp only [unpack, List.forall_mem_cons, List.not_mem_nil, false_implies, implies_true, and_true]
    omega
  | case4 => exact fun _ member => (List.not_mem_nil member).elim

theorem pack_unpack (bytes : List UInt8) : pack (unpack bytes) = bytes := by
  induction bytes using unpack.induct with
  | case1 a b c rest ih =>
    have bound : BigEndian.value [a, b, c] < 256 ^ 3 := BigEndian.value_lt _
    simp only [unpack, List.cons_append, List.nil_append, pack]
    rw [ih, show spell _ _ _ _ = BigEndian.value [a, b, c] by rw [spell]; omega]
    exact congrArg (· ++ rest) (BigEndian.bytes_value [a, b, c])
  | case2 a b =>
    simp only [unpack, pack]
    rw [show spell _ _ _ _ / 4 = BigEndian.value [a, b] by rw [spell]; omega]
    exact BigEndian.bytes_value [a, b]
  | case3 a =>
    simp only [unpack, pack]
    rw [show spell _ _ _ _ / 16 = BigEndian.value [a] by rw [spell]; omega]
    exact BigEndian.bytes_value [a]
  | case4 => rfl

/-! ### Single bytes -/

section Bytes

variable {a b c d : Nat}

theorem byte_eq {number other : Nat} (same : number % 256 = other % 256) : UInt8.ofNat number = UInt8.ofNat other := by
  rw [← UInt8.toNat_inj, UInt8.toNat_ofNat', UInt8.toNat_ofNat']
  exact same

theorem shiftRight_eight (number : Nat) : number >>> 8 = number / 256 := Nat.shiftRight_eq_div_pow number 8

theorem and_byte (number : Nat) : number &&& 0xFF = number % 256 := Nat.and_two_pow_sub_one_eq_mod number 8

theorem bytes_of_four (cSmall : c < 64) (dSmall : d < 64) : BigEndian.bytes 3 (spell a b c d) =
    [.ofNat (a * 4 + b / 16), .ofNat (b % 16 * 16 + c / 4), .ofNat (c % 4 * 64 + d)] := by
  simp only [BigEndian.bytes, shiftRight_eight, and_byte, List.nil_append, List.cons_append, spell, List.cons.injEq,
    and_true]
  exact ⟨byte_eq (by omega), byte_eq (by omega), byte_eq (by omega)⟩

theorem bytes_of_three (cSmall : c < 64) :
    BigEndian.bytes 2 (spell 0 a b c / 4) = [.ofNat (a * 4 + b / 16), .ofNat (b % 16 * 16 + c / 4)] := by
  simp only [BigEndian.bytes, shiftRight_eight, and_byte, List.nil_append, List.cons_append, spell, List.cons.injEq,
    and_true]
  exact ⟨byte_eq (by omega), byte_eq (by omega)⟩

theorem bytes_of_two : BigEndian.bytes 1 (spell 0 0 a b / 16) = [.ofNat (a * 4 + b / 16)] := by
  simp only [BigEndian.bytes, and_byte, List.nil_append, spell, List.cons.injEq, and_true]
  exact byte_eq (by omega)

end Bytes

/-- The bytes of a group, as far as its sextets are there. -/
theorem getElem?_pack {sextets : List Nat} (small : ∀ sextet ∈ sextets, sextet < 64) (group : Nat) :
    (group * 4 + 1 < sextets.length → (pack sextets)[group * 3]? =
      some (.ofNat (sextets.getD (group * 4) 0 * 4 + sextets.getD (group * 4 + 1) 0 / 16))) ∧
    (group * 4 + 2 < sextets.length → (pack sextets)[group * 3 + 1]? =
      some (.ofNat (sextets.getD (group * 4 + 1) 0 % 16 * 16 + sextets.getD (group * 4 + 2) 0 / 4))) ∧
    (group * 4 + 3 < sextets.length → (pack sextets)[group * 3 + 2]? =
      some (.ofNat (sextets.getD (group * 4 + 2) 0 % 4 * 64 + sextets.getD (group * 4 + 3) 0))) := by
  induction sextets using pack.induct generalizing group with
  | case1 a b c d rest ih =>
    simp only [List.forall_mem_cons] at small
    obtain ⟨_, _, cSmall, dSmall, restSmall⟩ := small
    rw [pack, bytes_of_four cSmall dSmall]
    cases group with
    | zero => exact ⟨fun _ => rfl, fun _ => rfl, fun _ => rfl⟩
    | succ group =>
      obtain ⟨first, second, third⟩ := ih restSmall group
      simp only [List.length_cons, Nat.succ_mul, Nat.add_assoc, Nat.reduceAdd, List.cons_append, List.nil_append,
        List.getElem?_cons_succ, List.getD_cons_succ]
      exact ⟨fun inside => first (by omega), fun inside => second (by omega), fun inside => third (by omega)⟩
  | case2 a b c =>
    simp only [List.forall_mem_cons] at small
    rw [pack, bytes_of_three small.2.2.1]
    simp only [List.length_cons, List.length_nil]
    cases group with
    | zero => exact ⟨fun _ => rfl, fun _ => rfl, fun inside => by omega⟩
    | succ group => exact ⟨fun inside => by omega, fun inside => by omega, fun inside => by omega⟩
  | case3 a b =>
    rw [pack, bytes_of_two]
    simp only [List.length_cons, List.length_nil]
    cases group with
    | zero => exact ⟨fun _ => rfl, fun inside => by omega, fun inside => by omega⟩
    | succ group => exact ⟨fun inside => by omega, fun inside => by omega, fun inside => by omega⟩
  | case4 rest no_four no_three no_two =>
    have short : rest.length < 2 := by
      match rest with
      | [] => decide
      | [a] => exact Nat.lt_succ_self 1
      | [a, b] => exact absurd rfl (no_two a b)
      | [a, b, c] => exact absurd rfl (no_three a b c)
      | a :: b :: c :: d :: rest => exact absurd rfl (no_four a b c d rest)
    exact ⟨fun inside => by omega, fun inside => by omega, fun inside => by omega⟩

end WebNode.Lib.Sextets
