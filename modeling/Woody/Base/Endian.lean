import Woody.Foundation.Bytes

/-!
# Byte order of wire integers

The conversions of `endian_util.h` on a little-endian host, where `htobe` and
`betoh` swap the bytes of their argument.  Only two uses occur in the codec:
storing a converted integer and walking over its bytes, and loading an
integer from the wire and converting it.  Both are big-endian.
-/

namespace Woody

/-- `(char*)&value` of a 16-bit, 32-bit or 64-bit integer. -/
def imageOf (width value : Nat) : Bytes := Bytes.ofNatLE width value

/-- `*(uintN_t*)bytes`. -/
def loadFrom (width : Nat) (bytes : Bytes) : Nat :=
  Bytes.toNatLE (bytes.take width)

def hostToNetwork64 (host64 : UInt64) : UInt64 :=
  UInt64.ofNat (Bytes.swap 8 host64.toNat)

def hostToNetwork32 (host32 : UInt32) : UInt32 :=
  UInt32.ofNat (Bytes.swap 4 host32.toNat)

def networkToHostInt64 (bytes : Bytes) : UInt64 :=
  UInt64.ofNat (Bytes.swap 8 (loadFrom 8 bytes))

def networkToHostInt32 (bytes : Bytes) : UInt32 :=
  UInt32.ofNat (Bytes.swap 4 (loadFrom 4 bytes))

def networkToHostInt16 (bytes : Bytes) : UInt16 :=
  UInt16.ofNat (Bytes.swap 2 (loadFrom 2 bytes))

private theorem swap_load {width : Nat} {bytes : Bytes}
    (enough : width ≤ bytes.length) :
    Bytes.swap width (loadFrom width bytes) =
      Bytes.toNatBE (bytes.take width) := by
  have loaded := Bytes.swap_toNatLE (bytes.take width)
  rwa [List.length_take, Nat.min_eq_left enough] at loaded

private theorem toNatBE_take_lt {width : Nat} {bytes : Bytes}
    (enough : width ≤ bytes.length) :
    Bytes.toNatBE (bytes.take width) < 256 ^ width := by
  have bound := Bytes.toNatBE_lt (bytes.take width)
  rwa [List.length_take, Nat.min_eq_left enough] at bound

theorem imageOf_hostToNetwork64 (host64 : UInt64) :
    imageOf 8 (hostToNetwork64 host64).toNat =
      Bytes.ofNatBE 8 host64.toNat := by
  have small : Bytes.swap 8 host64.toNat < 2 ^ 64 :=
    Bytes.swap_lt 8 host64.toNat
  rw [imageOf, hostToNetwork64, UInt64.toNat_ofNat_of_lt' small,
    Bytes.ofNatLE_swap]

theorem imageOf_hostToNetwork32 (host32 : UInt32) :
    imageOf 4 (hostToNetwork32 host32).toNat =
      Bytes.ofNatBE 4 host32.toNat := by
  have small : Bytes.swap 4 host32.toNat < 2 ^ 32 :=
    Bytes.swap_lt 4 host32.toNat
  rw [imageOf, hostToNetwork32, UInt32.toNat_ofNat_of_lt' small,
    Bytes.ofNatLE_swap]

theorem networkToHostInt64_toNat {bytes : Bytes}
    (enough : 8 ≤ bytes.length) :
    (networkToHostInt64 bytes).toNat = Bytes.toNatBE (bytes.take 8) := by
  rw [networkToHostInt64, swap_load enough]
  exact UInt64.toNat_ofNat_of_lt' (toNatBE_take_lt enough)

theorem networkToHostInt32_toNat {bytes : Bytes}
    (enough : 4 ≤ bytes.length) :
    (networkToHostInt32 bytes).toNat = Bytes.toNatBE (bytes.take 4) := by
  rw [networkToHostInt32, swap_load enough]
  exact UInt32.toNat_ofNat_of_lt' (toNatBE_take_lt enough)

theorem networkToHostInt16_toNat {bytes : Bytes}
    (enough : 2 ≤ bytes.length) :
    (networkToHostInt16 bytes).toNat = Bytes.toNatBE (bytes.take 2) := by
  rw [networkToHostInt16, swap_load enough]
  exact UInt16.toNat_ofNat_of_lt' (toNatBE_take_lt enough)

end Woody
