import ReplicatedStore.Bytes.LittleEndian
/-!
# The CRC-32 checksum

The reflected polynomial `0xEDB88320`, with the register and the result complemented.
-/

namespace ReplicatedStore.Bytes

/-- Feeds one bit position: shifts the register and subtracts the polynomial if a bit fell out. -/
def crcShift (register : UInt32) : UInt32 :=
  if register &&& 1 = 1 then (register >>> 1) ^^^ 0xEDB88320 else register >>> 1

def crcByte (register : UInt32) (byte : UInt8) : UInt32 :=
  let r := register ^^^ byte.toUInt32
  crcShift (crcShift (crcShift (crcShift (crcShift (crcShift (crcShift (crcShift r)))))))

def crc32 (bs : Bytes) : UInt32 := ~~~ bs.foldl crcByte 0xFFFFFFFF

example : crc32 [49, 50, 51, 52, 53, 54, 55, 56, 57] = 0xCBF43926 := by decide +kernel

end ReplicatedStore.Bytes
