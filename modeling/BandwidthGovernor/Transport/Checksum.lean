import Mathlib
import BandwidthGovernor.Lib.Crc
import BandwidthGovernor.Transport.Wire

/-! The checksum of snapshots and frames.

    `Crc32` reads its table byte by byte. The table holds what eight shifts make of each byte, so
    the checksum is the reflected CRC-32 of the message taken bit by bit, however the message was
    cut into updates. -/

namespace BG

open Lib

/-! ### The table -/

/-- The polynomial, low degree at the high bit. -/
def kCrcPoly : BitVec 32 := 0xEDB88320

/-- The table as a function of the byte. -/
def crcTable (i : BitVec 8) : BitVec 32 := (kCrcTable.getD i.toNat 0).toBitVec

/-- Every entry of the table is the one the polynomial gives. -/
theorem crcTable_tabulates : Crc.Tabulates crcTable kCrcPoly := by
  unfold Crc.Tabulates
  decide +kernel

/-- The loop body is a table step. -/
theorem crcByte_toBitVec (crc : UInt32) (b : UInt8) :
    (crcByte crc b).toBitVec = Crc.step crcTable crc.toBitVec b.toBitVec := by
  have hindex : ((crc ^^^ b.toUInt32) &&& 0xFF).toNat =
      (crc.toBitVec.setWidth 8 ^^^ b.toBitVec).toNat := by
    have hmask : (0xFF : UInt32).toNat = 2 ^ 8 - 1 := rfl
    have hb := b.toNat_lt
    rw [UInt32.toNat_and, hmask, Nat.and_two_pow_sub_one_eq_mod, UInt32.toNat_xor,
      BitVec.toNat_xor, BitVec.toNat_setWidth, UInt8.toNat_toUInt32, Nat.xor_mod_two_pow,
      Nat.mod_eq_of_lt hb]
    rfl
  rw [crcByte, hindex, UInt32.toBitVec_xor, UInt32.toBitVec_shiftRight]
  rfl

theorem crcUpdate_toBitVec : ∀ (data : Bytes) (crc : UInt32),
    (crcUpdate crc data).toBitVec = Crc.feed crcTable crc.toBitVec (data.map UInt8.toBitVec)
  | [], _ => rfl
  | b :: data, crc => by
    rw [crcUpdate, List.foldl_cons, List.map_cons, Crc.feed, List.foldl_cons, ← crcByte_toBitVec]
    exact crcUpdate_toBitVec data (crcByte crc b)

/-! ### The checksum of a message -/

/-- The reflected CRC-32 of a message, bit by bit: initial value and final xor all ones. -/
def crcBitwise (data : Bytes) : UInt32 :=
  ⟨Crc.feedBits kCrcPoly (BitVec.allOnes 32) (data.flatMap fun b => Crc.bits b.toBitVec) ^^^
    BitVec.allOnes 32⟩

theorem crcUpdate_chunks : ∀ (chunks : List Bytes) (crc : UInt32),
    chunks.foldl crcUpdate crc = crcUpdate crc chunks.flatten
  | [], _ => rfl
  | chunk :: chunks, crc => by
    rw [List.foldl_cons, List.flatten_cons, crcUpdate_chunks chunks]
    exact List.foldl_append.symm

theorem frameCrc_eq (hdr payload : Bytes) : frameCrc hdr payload = crc32 (hdr ++ payload) := by
  rw [frameCrc, crc32, crcUpdate, crcUpdate, crcUpdate, List.foldl_append]

/-- `Crc32::value` after any sequence of updates is the bitwise checksum of all the bytes; the
    checksum of a buffer and that of a frame are the same function of them. -/
theorem crc_is_ieee (chunks : List Bytes) (data hdr payload : Bytes) :
    ~~~(chunks.foldl crcUpdate 0xFFFFFFFF) = crcBitwise chunks.flatten ∧
    crc32 data = crcBitwise data ∧ frameCrc hdr payload = crcBitwise (hdr ++ payload) := by
  have hwhole : ∀ data : Bytes, ~~~(crcUpdate 0xFFFFFFFF data) = crcBitwise data := by
    intro data
    rw [← UInt32.toBitVec_inj, UInt32.toBitVec_not, crcUpdate_toBitVec,
      Crc.feed_eq_feedBits crcTable_tabulates, List.flatMap_map, crcBitwise, BitVec.xor_allOnes]
    rfl
  refine ⟨?_, hwhole data, ?_⟩
  · rw [crcUpdate_chunks, hwhole]
  · rw [frameCrc_eq]
    exact hwhole (hdr ++ payload)

example : crc32 (ascii "123456789") = 0xCBF43926 := by decide +kernel

end BG
