import Mathlib.Data.Nat.Log
import Mathlib.Tactic.Ring

/-!
# Fixed-width integers as byte strings

The big-endian digits of a natural number and the number a byte string
spells are inverse to each other at every width.  Reversing the digits gives
the little-endian memory image, so swapping the bytes of an image and reading
it back is the only place where the order of a host matters.
-/

namespace Woody

/-- The bytes of a `std::string`. -/
abbrev Bytes := List UInt8

namespace Bytes

/-- The number a byte string spells, most significant byte first. -/
def toNatBE : Bytes → Nat
  | [] => 0
  | byte :: rest => byte.toNat * 256 ^ rest.length + toNatBE rest

/-- The low `width` bytes of a number, most significant byte first. -/
def ofNatBE : Nat → Nat → Bytes
  | 0, _ => []
  | width + 1, value =>
      UInt8.ofNat (value / 256 ^ width) :: ofNatBE width value

@[simp] theorem ofNatBE_length (width value : Nat) :
    (ofNatBE width value).length = width := by
  induction width with
  | zero => rfl
  | succ width ih => simp [ofNatBE, ih]

theorem toNatBE_lt (bytes : Bytes) : toNatBE bytes < 256 ^ bytes.length := by
  induction bytes with
  | nil => simp [toNatBE]
  | cons byte rest ih =>
      have digit : byte.toNat + 1 ≤ 256 := byte.toNat_lt
      calc
        toNatBE (byte :: rest)
            < byte.toNat * 256 ^ rest.length + 256 ^ rest.length := by
              simp only [toNatBE]
              omega
        _ = (byte.toNat + 1) * 256 ^ rest.length := by ring
        _ ≤ 256 * 256 ^ rest.length := Nat.mul_le_mul_right _ digit
        _ = 256 ^ (byte :: rest).length := by
              rw [List.length_cons, pow_succ, Nat.mul_comm]

theorem toNatBE_ofNatBE (width value : Nat) :
    toNatBE (ofNatBE width value) = value % 256 ^ width := by
  induction width with
  | zero => simp [ofNatBE, toNatBE, Nat.mod_one]
  | succ width ih =>
      have split : value % 256 ^ (width + 1) =
          value % 256 ^ width + 256 ^ width * (value / 256 ^ width % 256) := by
        rw [pow_succ, Nat.mod_mul]
      have digit : (UInt8.ofNat (value / 256 ^ width)).toNat =
          value / 256 ^ width % 256 := by simp
      rw [ofNatBE, toNatBE, ofNatBE_length, ih, digit, split,
        Nat.mul_comm, Nat.add_comm]

theorem toNatBE_ofNatBE_of_lt {width value : Nat}
    (small : value < 256 ^ width) :
    toNatBE (ofNatBE width value) = value := by
  rw [toNatBE_ofNatBE, Nat.mod_eq_of_lt small]

private theorem ofNatBE_add_mul (width value carry : Nat) :
    ofNatBE width (carry * 256 ^ width + value) = ofNatBE width value := by
  induction width generalizing value carry with
  | zero => rfl
  | succ width ih =>
      have quotient :
          (carry * 256 ^ (width + 1) + value) / 256 ^ width =
            carry * 256 + value / 256 ^ width := by
        rw [pow_succ, ← Nat.mul_assoc, Nat.mul_right_comm, Nat.add_comm,
          Nat.add_mul_div_right _ _ (Nat.pow_pos (by omega)), Nat.add_comm]
      have head :
          UInt8.ofNat (carry * 256 + value / 256 ^ width) =
            UInt8.ofNat (value / 256 ^ width) := by
        apply UInt8.toNat_inj.mp
        simp
      have tail := ih value (carry * 256)
      rw [Nat.mul_assoc, ← Nat.pow_succ'] at tail
      rw [ofNatBE, ofNatBE, quotient, head, tail]

theorem ofNatBE_toNatBE (bytes : Bytes) :
    ofNatBE bytes.length (toNatBE bytes) = bytes := by
  induction bytes with
  | nil => rfl
  | cons byte rest ih =>
      have tailSmall := toNatBE_lt rest
      have quotient :
          (byte.toNat * 256 ^ rest.length + toNatBE rest) /
            256 ^ rest.length = byte.toNat := by
        rw [Nat.add_comm,
          Nat.add_mul_div_right _ _ (Nat.pow_pos (by omega)),
          Nat.div_eq_of_lt tailSmall, Nat.zero_add]
      rw [List.length_cons, ofNatBE, toNatBE, quotient, ofNatBE_add_mul, ih]
      simp

/-- The number a little-endian host loads from a byte string. -/
def toNatLE (bytes : Bytes) : Nat := toNatBE bytes.reverse

/-- The memory image a little-endian host stores for a number. -/
def ofNatLE (width value : Nat) : Bytes := (ofNatBE width value).reverse

/-- The number whose memory image is the reversed image of `value`. -/
def swap (width value : Nat) : Nat := toNatLE (ofNatLE width value).reverse

@[simp] theorem ofNatLE_length (width value : Nat) :
    (ofNatLE width value).length = width := by
  simp [ofNatLE]

theorem swap_lt (width value : Nat) : swap width value < 256 ^ width := by
  have bound := toNatBE_lt (ofNatLE width value)
  simpa [swap, toNatLE] using bound

/-- The image of a swapped number is big-endian. -/
theorem ofNatLE_swap (width value : Nat) :
    ofNatLE width (swap width value) = ofNatBE width value := by
  have image := ofNatBE_toNatBE (ofNatLE width value)
  rw [ofNatLE_length] at image
  simp only [ofNatLE, swap, toNatLE, List.reverse_reverse] at image ⊢
  rw [image, List.reverse_reverse]

theorem swap_toNatLE (bytes : Bytes) :
    swap bytes.length (toNatLE bytes) = toNatBE bytes := by
  have image := ofNatBE_toNatBE bytes.reverse
  rw [List.length_reverse] at image
  simp only [swap, toNatLE, ofNatLE, List.reverse_reverse]
  rw [image, List.reverse_reverse]

/-- Copy `data` over the bytes from `position` on. -/
def overwrite (storage : Bytes) (position : Nat) (data : Bytes) : Bytes :=
  storage.take position ++ data ++ storage.drop (position + data.length)

theorem overwrite_length {storage data : Bytes} {position : Nat}
    (room : position + data.length ≤ storage.length) :
    (storage.overwrite position data).length = storage.length := by
  simp only [overwrite, List.length_append, List.length_take, List.length_drop]
  omega

/-- From a position up to the region on, the bytes before the region are
kept and the region holds the data. -/
theorem drop_overwrite {storage data : Bytes} {position start : Nat}
    (before : start ≤ position) (room : position ≤ storage.length) :
    (storage.overwrite position data).drop start =
      (storage.drop start).take (position - start) ++ data ++
        storage.drop (position + data.length) := by
  have inside : start ≤ (storage.take position).length := by
    rw [List.length_take]
    omega
  rw [overwrite, List.append_assoc, List.drop_append_of_le_length inside,
    List.drop_take, List.append_assoc]

/-- The number that goes on with these digits. -/
def numeralFrom (base : Nat) (digit : UInt8 → Option Nat) (n : Nat)
    (digits : Bytes) : Option Nat :=
  digits.foldlM (fun n ch => (digit ch).map fun value => n * base + value) n

section Numerals

variable {base n total : Nat} {digit : UInt8 → Option Nat} {digits : Bytes}

theorem numeralFrom_cons {ch : UInt8}
    (number : numeralFrom base digit n (ch :: digits) = some total) :
    ∃ value, digit ch = some value ∧
      numeralFrom base digit (n * base + value) digits = some total := by
  unfold numeralFrom at number ⊢
  rw [List.foldlM_cons] at number
  obtain ⟨next, mapped, later⟩ := Option.bind_eq_some_iff.mp number
  obtain ⟨value, isValue, rfl⟩ := Option.map_eq_some_iff.mp mapped
  exact ⟨value, isValue, later⟩

theorem le_numeralFrom (positive : 0 < base)
    (number : numeralFrom base digit n digits = some total) : n ≤ total := by
  induction digits generalizing n with
  | nil =>
      cases number
      exact le_rfl
  | cons ch digits ih =>
      obtain ⟨value, -, later⟩ := numeralFrom_cons number
      have grown : n ≤ n * base := Nat.le_mul_of_pos_right n positive
      have more := ih later
      omega

end Numerals

end Bytes

end Woody
