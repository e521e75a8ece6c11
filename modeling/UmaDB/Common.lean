import UmaDB.Bytes
import Mathlib.Order.Basic

/-! # Identifiers, strings and UUIDs

`PageID`, `Tsn` and `Position` (`common.rs`) are newtypes of `u64`, ordered as the number
and written as eight little-endian bytes. A Rust `String` is a run of bytes that
`std::str::from_utf8` accepts, and its `len()` counts those bytes; a `Uuid` is sixteen raw
bytes. -/
namespace UmaDB

/-- `x.to_le_bytes()` for a `u64`. -/
def u64Bytes (x : UInt64) : List UInt8 := leBytes 8 x.toNat

/-- `LittleEndian::read_u64` on eight bytes. -/
def readU64Value (b : List UInt8) : UInt64 := UInt64.ofNat (ofLE b)

@[simp] theorem length_u64Bytes (x : UInt64) : (u64Bytes x).length = 8 := by simp [u64Bytes]

@[simp] theorem readU64Value_u64Bytes (x : UInt64) : readU64Value (u64Bytes x) = x := by
  apply UInt64.toNat.inj
  rw [readU64Value, u64Bytes, ofLE_leBytes_of_lt (by simpa using x.toNat_lt_size)]
  exact UInt64.toNat_ofNat_of_lt x.toNat_lt_size

theorem u64Bytes_readU64Value {b : List UInt8} (h : b.length = 8) :
    u64Bytes (readU64Value b) = b := by
  have hlt := ofLE_lt b
  rw [h] at hlt
  rw [u64Bytes, readU64Value, UInt64.toNat_ofNat_of_lt (by simpa using hlt), ← h, leBytes_ofLE]

/-- `pub struct PageID(pub u64)`; `PageID(0)` is the null page. -/
structure PageID where
  val : UInt64
  deriving DecidableEq, Repr

/-- `pub struct Tsn(pub u64)`: a transaction sequence number. -/
structure Tsn where
  val : UInt64
  deriving DecidableEq, Repr

/-- `pub struct Position(pub u64)`: the place of an event in the log. -/
structure Position where
  val : UInt64
  deriving DecidableEq, Repr

instance : LinearOrder PageID :=
  LinearOrder.lift' (fun p => p.val.toNat) fun ⟨_⟩ ⟨_⟩ h => congrArg PageID.mk (UInt64.toNat.inj h)

instance : LinearOrder Tsn :=
  LinearOrder.lift' (fun p => p.val.toNat) fun ⟨_⟩ ⟨_⟩ h => congrArg Tsn.mk (UInt64.toNat.inj h)

instance : LinearOrder Position :=
  LinearOrder.lift' (fun p => p.val.toNat) fun ⟨_⟩ ⟨_⟩ h =>
    congrArg Position.mk (UInt64.toNat.inj h)

@[simp] theorem PageID.mk_comp_val : PageID.mk ∘ PageID.val = id := rfl

@[simp] theorem PageID.val_comp_mk : PageID.val ∘ PageID.mk = id := rfl

@[simp] theorem Tsn.mk_comp_val : Tsn.mk ∘ Tsn.val = id := rfl

@[simp] theorem Tsn.val_comp_mk : Tsn.val ∘ Tsn.mk = id := rfl

@[simp] theorem Position.mk_comp_val : Position.mk ∘ Position.val = id := rfl

@[simp] theorem Position.val_comp_mk : Position.val ∘ Position.mk = id := rfl

/-- A byte in `lo..=hi`. -/
def inRange (b lo hi : UInt8) : Bool := lo ≤ b && b ≤ hi

/-- `std::str::from_utf8`'s acceptance test: the well-formed UTF-8 byte sequences, shortest
forms only, without surrogates and nothing above U+10FFFF. -/
def validUtf8 : List UInt8 → Bool
  | [] => true
  | b :: bs =>
    if b < 0x80 then validUtf8 bs
    else if inRange b 0xC2 0xDF then
      match bs with
      | c :: r => inRange c 0x80 0xBF && validUtf8 r
      | _ => false
    else if inRange b 0xE0 0xEF then
      match bs with
      | c :: d :: r =>
        inRange c (if b = 0xE0 then 0xA0 else 0x80) (if b = 0xED then 0x9F else 0xBF) &&
          inRange d 0x80 0xBF && validUtf8 r
      | _ => false
    else if inRange b 0xF0 0xF4 then
      match bs with
      | c :: d :: e :: r =>
        inRange c (if b = 0xF0 then 0x90 else 0x80) (if b = 0xF4 then 0x8F else 0xBF) &&
          inRange d 0x80 0xBF && inRange e 0x80 0xBF && validUtf8 r
      | _ => false
    else false

/-- A Rust `String`: bytes that `from_utf8` accepts. -/
structure Utf8String where
  bytes : List UInt8
  valid : validUtf8 bytes = true
  deriving DecidableEq

/-- `std::str::from_utf8(b)`, then `to_string()`. -/
def Utf8String.fromUtf8 (b : List UInt8) : Option Utf8String :=
  if h : validUtf8 b = true then some ⟨b, h⟩ else none

theorem Utf8String.fromUtf8_bytes (s : Utf8String) : fromUtf8 s.bytes = some s := by
  simp [fromUtf8, s.valid]

theorem Utf8String.bytes_of_fromUtf8 {b : List UInt8} {s : Utf8String}
    (h : fromUtf8 b = some s) : s.bytes = b := by
  unfold fromUtf8 at h
  split at h
  · cases h; rfl
  · cases h

example : validUtf8 [0x65, 0xC3, 0xA9, 0xE2, 0x82, 0xAC] = true := by decide
example : validUtf8 [0xED, 0xA0, 0x80] = false := by decide

/-- `uuid::Uuid`: sixteen bytes. -/
structure Uuid where
  bytes : List UInt8
  length_eq : bytes.length = 16
  deriving DecidableEq

@[simp] theorem Uuid.length_bytes (u : Uuid) : u.bytes.length = 16 := u.length_eq

/-- The error `Uuid::from_slice` returns for a slice that is not sixteen bytes long. -/
structure UuidError where
  len : ℕ

instance : ToString UuidError :=
  ⟨fun e => "invalid length: expected 16 bytes, found " ++ toString e.len⟩

/-- `Uuid::from_slice`: any length but sixteen is an error that carries the length. -/
def Uuid.fromSlice (b : List UInt8) : Except UuidError Uuid :=
  if h : b.length = 16 then .ok ⟨b, h⟩ else .error ⟨b.length⟩

theorem Uuid.fromSlice_bytes (u : Uuid) : fromSlice u.bytes = .ok u := by
  simp [fromSlice, u.length_eq]

end UmaDB
