import Woody.Base.Endian

/-!
# WebSocket frames

`WebsocketFrame` holds the fields of one frame as the parser delivers it and
as the encoder takes it.  The header fields are C `int`s in the source; none
of them is ever negative.
-/

namespace Woody

def opcodeContinuation : Nat := 0x0
def opcodeText : Nat := 0x1
def opcodeBinary : Nat := 0x2
def opcodeClose : Nat := 0x8
def opcodePing : Nat := 0x9
def opcodePong : Nat := 0xa

structure WebsocketFrame where
  fin : Nat
  rsv1 : Nat
  rsv2 : Nat
  rsv3 : Nat
  opcode : Nat
  mask : Nat
  payloadLength : UInt64
  maskingKey : UInt32
  body : Bytes
  deriving DecidableEq

namespace Websocket

/-- `WebsocketFrame::Mask`: byte `i` is combined with byte `i % 4` of the key
in network order. -/
def mask (data : Bytes) (maskingKey : UInt32) : Bytes :=
  let networkMaskingKey := hostToNetwork32 maskingKey
  let keys := imageOf 4 networkMaskingKey.toNat
  data.mapIdx fun index byte => byte ^^^ keys.getD (index % 4) 0

/-- `WebsocketFrame::UnMask`. -/
def unMask (data : Bytes) (maskingKey : UInt32) : Bytes :=
  mask data maskingKey

@[simp] theorem mask_length (data : Bytes) (maskingKey : UInt32) :
    (mask data maskingKey).length = data.length := by
  simp [mask]

@[simp] theorem mask_eq_nil_iff (data : Bytes) (maskingKey : UInt32) :
    mask data maskingKey = [] ↔ data = [] := by
  rw [← List.length_eq_zero_iff, mask_length, List.length_eq_zero_iff]

private theorem xor_cancel (byte key : UInt8) :
    byte ^^^ key ^^^ key = byte := by
  rw [UInt8.xor_assoc, UInt8.xor_self, UInt8.xor_zero]

@[simp] theorem unMask_mask (data : Bytes) (maskingKey : UInt32) :
    unMask (mask data maskingKey) maskingKey = data := by
  apply List.ext_getElem
  · simp [unMask]
  · intro index _ _
    simp only [unMask, mask, List.getElem_mapIdx]
    exact xor_cancel _ _

end Websocket

end Woody
