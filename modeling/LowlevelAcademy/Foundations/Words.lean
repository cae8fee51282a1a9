import Mathlib

/-! Machine words as byte sequences. The host stores a word least significant byte first,
so converting to or from network order reverses the stored bytes.
-/

namespace LowlevelAcademy.Foundations

/-- The `width` low-order bytes of `value`, least significant first. -/
def leBytes : Nat → Nat → List UInt8
  | 0, _ => []
  | width + 1, value => UInt8.ofNat value :: leBytes width (value / 256)

/-- The number whose bytes are given least significant first. -/
def leValue : List UInt8 → Nat
  | [] => 0
  | byte :: rest => byte.toNat + 256 * leValue rest

@[simp] theorem leBytes_length (width value : Nat)
    : (leBytes width value).length = width := by
  induction width generalizing value with
  | zero => rfl
  | succ width ih => simp [leBytes, ih]

/-- Decoding an encoded value drops the bits above the width, by width induction. -/
theorem leValue_leBytes (width value : Nat)
    : leValue (leBytes width value) = value % 256 ^ width := by
  induction width generalizing value with
  | zero => simp [leBytes, leValue, Nat.mod_one]
  | succ width ih =>
      have lowByte : (UInt8.ofNat value).toNat = value % 256 := by simp
      rw [leBytes, leValue, lowByte, ih, pow_succ', Nat.mod_mul]

/-- A byte sequence denotes a number below the bound of its length, by list induction. -/
theorem leValue_lt (bytes : List UInt8) : leValue bytes < 256 ^ bytes.length := by
  induction bytes with
  | nil => simp [leValue]
  | cons byte rest ih =>
      have bound := byte.toNat_lt
      simp only [leValue, List.length_cons, pow_succ]
      omega

/-- Every byte sequence is the encoding of its value at its own length, by list induction. -/
theorem leBytes_leValue (bytes : List UInt8)
    : leBytes bytes.length (leValue bytes) = bytes := by
  induction bytes with
  | nil => rfl
  | cons byte rest ih =>
      have bound := byte.toNat_lt
      have quotient : (byte.toNat + 256 * leValue rest) / 256 = leValue rest := by omega
      have lowByte : UInt8.ofNat (byte.toNat + 256 * leValue rest) = byte := by
        apply UInt8.toNat_inj.mp
        simp only [UInt8.toNat_ofNat']
        omega
      simp only [List.length_cons, leBytes, leValue, quotient, lowByte, ih]

/-- The inverse form of `leBytes_leValue` for a known length. -/
theorem leBytes_leValue_of_length {bytes : List UInt8} {width : Nat}
    (length : bytes.length = width)
    : leBytes width (leValue bytes) = bytes := by
  subst length
  exact leBytes_leValue bytes

/-- The `width` low-order bytes of `value` in network order, most significant first. -/
def beBytes (width value : Nat) : List UInt8 := (leBytes width value).reverse

@[simp] theorem beBytes_length (width value : Nat)
    : (beBytes width value).length = width := by
  simp [beBytes]

/-- `ntohs` and `htons` on a little-endian host: the two stored bytes change places. -/
def swap16 (word : UInt16) : UInt16 :=
  UInt16.ofNat (leValue (leBytes 2 word.toNat).reverse)

/-- `ntohl` and `htonl` on a little-endian host: the four stored bytes are reversed. -/
def swap32 (word : UInt32) : UInt32 :=
  UInt32.ofNat (leValue (leBytes 4 word.toNat).reverse)

abbrev ntohs : UInt16 → UInt16 := swap16
abbrev htons : UInt16 → UInt16 := swap16
abbrev ntohl : UInt32 → UInt32 := swap32
abbrev htonl : UInt32 → UInt32 := swap32

/-- The word stored in the first two bytes. -/
def load16 (bytes : List UInt8) : UInt16 := UInt16.ofNat (leValue (bytes.take 2))

/-- The word stored in the first four bytes. -/
def load32 (bytes : List UInt8) : UInt32 := UInt32.ofNat (leValue (bytes.take 4))

/-- Loading a stored 16-bit word returns it, whatever follows. -/
@[simp] theorem load16_leBytes_append (word : UInt16) (rest : List UInt8)
    : load16 (leBytes 2 word.toNat ++ rest) = word := by
  apply UInt16.toNat_inj.mp
  have bound := word.toNat_lt
  rw [load16, List.take_left' (leBytes_length 2 _), leValue_leBytes]
  simp only [UInt16.toNat_ofNat']
  omega

/-- Loading a stored 32-bit word returns it, whatever follows. -/
@[simp] theorem load32_leBytes_append (word : UInt32) (rest : List UInt8)
    : load32 (leBytes 4 word.toNat ++ rest) = word := by
  apply UInt32.toNat_inj.mp
  have bound := word.toNat_lt
  rw [load32, List.take_left' (leBytes_length 4 _), leValue_leBytes]
  simp only [UInt32.toNat_ofNat']
  omega

/-- A loaded 32-bit word is stored as the bytes it was loaded from. -/
theorem leBytes_load32 {bytes : List UInt8} (enough : 4 ≤ bytes.length)
    : leBytes 4 (load32 bytes).toNat = bytes.take 4 := by
  have size : (bytes.take 4).length = 4 := by simpa using enough
  have bound := leValue_lt (bytes.take 4)
  rw [size] at bound
  rw [load32, UInt32.toNat_ofNat', Nat.mod_eq_of_lt (lt_of_lt_of_eq bound (by decide))]
  exact leBytes_leValue_of_length size

/-- A loaded 16-bit word is stored as the bytes it was loaded from. -/
theorem leBytes_load16 {bytes : List UInt8} (enough : 2 ≤ bytes.length)
    : leBytes 2 (load16 bytes).toNat = bytes.take 2 := by
  have size : (bytes.take 2).length = 2 := by simpa using enough
  have bound := leValue_lt (bytes.take 2)
  rw [size] at bound
  rw [load16, UInt16.toNat_ofNat', Nat.mod_eq_of_lt (lt_of_lt_of_eq bound (by decide))]
  exact leBytes_leValue_of_length size

/-- A swapped 16-bit word is stored in network order. -/
theorem leBytes_swap16 (word : UInt16)
    : leBytes 2 (swap16 word).toNat = beBytes 2 word.toNat := by
  rw [beBytes]
  have bound := leValue_lt (leBytes 2 word.toNat).reverse
  simp only [List.length_reverse, leBytes_length] at bound
  rw [swap16, UInt16.toNat_ofNat', Nat.mod_eq_of_lt (by omega)]
  exact leBytes_leValue_of_length (by simp)

/-- A swapped 32-bit word is stored in network order. -/
theorem leBytes_swap32 (word : UInt32)
    : leBytes 4 (swap32 word).toNat = beBytes 4 word.toNat := by
  rw [beBytes]
  have bound := leValue_lt (leBytes 4 word.toNat).reverse
  simp only [List.length_reverse, leBytes_length] at bound
  rw [swap32, UInt32.toNat_ofNat', Nat.mod_eq_of_lt (by omega)]
  exact leBytes_leValue_of_length (by simp)

/-- A byte sequence denotes zero when all its bytes are zero, by list induction. -/
theorem leValue_eq_zero_iff (bytes : List UInt8)
    : leValue bytes = 0 ↔ bytes = List.replicate bytes.length 0 := by
  induction bytes with
  | nil => simp [leValue]
  | cons byte rest ih =>
      have zero : byte = 0 ↔ byte.toNat = 0 := UInt8.toNat_inj.symm
      rw [leValue, List.length_cons, List.replicate_succ, List.cons.injEq, ← ih, zero]
      omega

/-- A loaded word is zero when its four bytes are. -/
theorem load32_eq_zero_iff {bytes : List UInt8} (enough : 4 ≤ bytes.length)
    : load32 bytes = 0 ↔ bytes.take 4 = [0, 0, 0, 0] := by
  have size : (bytes.take 4).length = 4 := by simpa using enough
  have bound := leValue_lt (bytes.take 4)
  rw [size] at bound
  have value : load32 bytes = 0 ↔ leValue (bytes.take 4) = 0 := by
    rw [← UInt32.toNat_inj, load32, UInt32.toNat_ofNat',
      Nat.mod_eq_of_lt (lt_of_lt_of_eq bound (by decide))]
    rfl
  rw [value, leValue_eq_zero_iff, size]
  rfl

/-- Stored bytes determine a 32-bit word, by loading them back. -/
theorem leBytes32_inj {left right : UInt32}
    (same : leBytes 4 left.toNat = leBytes 4 right.toNat)
    : left = right := by
  have loaded := congrArg (fun bytes => load32 (bytes ++ [])) same
  beta_reduce at loaded
  rwa [load32_leBytes_append, load32_leBytes_append] at loaded

/-- Swapping a 16-bit word twice is the identity. -/
@[simp] theorem swap16_swap16 (word : UInt16) : swap16 (swap16 word) = word := by
  have reversed : (leBytes 2 (swap16 word).toNat).reverse = leBytes 2 word.toNat := by
    rw [leBytes_swap16, beBytes, List.reverse_reverse]
  have bound := word.toNat_lt
  apply UInt16.toNat_inj.mp
  rw [swap16, reversed, leValue_leBytes, UInt16.toNat_ofNat']
  omega

/-- Swapping a 32-bit word twice is the identity. -/
@[simp] theorem swap32_swap32 (word : UInt32) : swap32 (swap32 word) = word := by
  have reversed : (leBytes 4 (swap32 word).toNat).reverse = leBytes 4 word.toNat := by
    rw [leBytes_swap32, beBytes, List.reverse_reverse]
  have bound := word.toNat_lt
  apply UInt32.toNat_inj.mp
  rw [swap32, reversed, leValue_leBytes, UInt32.toNat_ofNat']
  omega

/-- The words that swapping keeps are those whose outer bytes agree and whose inner bytes
agree.
-/
theorem swap32_eq_self_iff (word : UInt32)
    : swap32 word = word
      ↔ ∃ outer < 256, ∃ inner < 256, word.toNat = 16777217 * outer + 65792 * inner := by
  have bound := word.toNat_lt
  have stored : swap32 word = word ↔ beBytes 4 word.toNat = leBytes 4 word.toNat := by
    rw [← leBytes_swap32]
    exact ⟨fun same => by rw [same], leBytes32_inj⟩
  have bytes : swap32 word = word
      ↔ word.toNat % 256 = word.toNat / 16777216
        ∧ word.toNat / 256 % 256 = word.toNat / 65536 % 256 := by
    rw [stored]
    simp only [beBytes, leBytes, List.reverse_cons, List.reverse_nil, List.nil_append,
      List.cons_append, List.cons.injEq, and_true, ← UInt8.toNat_inj, UInt8.toNat_ofNat',
      Nat.div_div_eq_div_mul]
    omega
  rw [bytes]
  constructor
  · rintro ⟨outer, inner⟩
    exact ⟨word.toNat / 16777216, by omega, word.toNat / 256 % 256, Nat.mod_lt _ (by decide),
      by omega⟩
  · rintro ⟨outer, smallOuter, inner, smallInner, digits⟩
    have byte3 : word.toNat / 16777216 = outer := by omega
    have byte2 : word.toNat / 65536 = 256 * outer + inner := by omega
    have byte1 : word.toNat / 256 = 65536 * outer + 257 * inner := by omega
    rw [byte1, byte2, byte3]
    omega

end LowlevelAcademy.Foundations
