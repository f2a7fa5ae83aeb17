import Websocksy.Lib.BigEndian

/-!
# Frames of RFC 6455

A decoder for the base framing protocol of section 5.2, written from the RFC and in the
terms of its figure: it gives the first frame of a byte string and what follows it.
A length that is not written in the shortest of its three forms is refused.
-/

namespace Rfc6455

open Buffer

structure Frame where
  fin : Bool
  /-- the three reserved bits -/
  reserved : Nat
  opcode : Nat
  /-- the masking key, if the MASK bit is set -/
  key : Option Bytes
  /-- without the mask -/
  payload : Bytes
  deriving DecidableEq

/-- The masking of section 5.3, which is its own inverse. -/
def mask (key payload : Bytes) : Bytes := payload.mapIdx fun i x => x ^^^ key.getD (i % 4) 0

/-- A length in `bytes` further bytes, which has to be `least` or more. -/
def extendedLength (bytes least : Nat) (b : Bytes) : Option (Nat × Bytes) :=
  let len := ofBigEndian (b.take bytes)
  if b.length < bytes ∨ len < least then none else some (len, b.drop bytes)

/-- The payload length, where `n` is in the seven bits for it, and the bytes behind it. -/
def payloadLength (n : Nat) (b : Bytes) : Option (Nat × Bytes) :=
  if n ≤ 125 then some (n, b)
  else if n = 126 then extendedLength 2 126 b
  else extendedLength 8 65536 b

/-- The first frame and the bytes behind it. -/
def decode : Bytes → Option (Frame × Bytes)
  | first :: second :: b =>
    (payloadLength (second.toNat % 128) b).bind fun (len, b) =>
      let keyLength := if second.toNat < 128 then 0 else 4
      if b.length < keyLength + len then none
      else
        let key := if second.toNat < 128 then none else some (b.take 4)
        let data := (b.drop keyLength).take len
        some ({ fin := 128 ≤ first.toNat, reserved := first.toNat / 16 % 8
                opcode := first.toNat % 16, key := key
                payload := key.elim data (mask · data) }, b.drop (keyLength + len))
  | _ => none

/-- Section 5.2 wants the highest bit of a length in 64 bits to be 0. -/
def TopBitClear (b : Bytes) : Prop := (b.getD 1 0).toNat % 128 = 127 → (b.getD 2 0).toNat < 128

theorem extendedLength_bigEndian {bytes least len : Nat} (b : Bytes) (hlt : len < 256 ^ bytes)
    (hle : least ≤ len) : extendedLength bytes least (bigEndian bytes len ++ b) = some (len, b) := by
  have htake : (bigEndian bytes len ++ b).take bytes = bigEndian bytes len :=
    List.take_left' (length_bigEndian bytes len)
  have hdrop : (bigEndian bytes len ++ b).drop bytes = b :=
    List.drop_left' (length_bigEndian bytes len)
  unfold extendedLength
  rw [htake, hdrop, ofBigEndian_bigEndian, Nat.mod_eq_of_lt hlt, if_neg]
  rw [List.length_append, length_bigEndian]
  omega

/-- A frame without a mask. -/
theorem decode_unmasked {first second : UInt8} {b payload rest : Bytes} (hs : second.toNat < 128)
    (hlen : payloadLength second.toNat b = some (payload.length, payload ++ rest)) :
    decode (first :: second :: b) =
      some (⟨128 ≤ first.toNat, first.toNat / 16 % 8, first.toNat % 16, none, payload⟩, rest) := by
  unfold decode
  dsimp only
  rw [Nat.mod_eq_of_lt hs, hlen, Option.bind_some]
  simp [hs]

end Rfc6455
