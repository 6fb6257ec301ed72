/-
  Lib.Fields — records of fixed-width fields, as bytes.

  Fields follow one another, numbers in little-endian order and byte arrays as they are.
-/

import FractalBits.Lib.Bytes

namespace FractalBits.Lib

def Octets (n : Nat) : Type := { s : Bytes // s.length = n }

instance (n : Nat) : DecidableEq (Octets n) :=
    inferInstanceAs (DecidableEq { s : Bytes // s.length = n })

/-- The first `n` bytes; bytes that are not there are zero. -/
def Octets.ofBytes (n : Nat) (s : Bytes) : Octets n :=
  ⟨s.take n ++ List.replicate (n - s.length) 0, by simp; omega⟩

@[simp] theorem Octets.length_val {n : Nat} (a : Octets n) : a.val.length = n := a.property

@[simp] theorem Octets.ofBytes_val {n : Nat} (a : Octets n) : Octets.ofBytes n a.val = a := by
  apply Subtype.ext
  show a.val.take n ++ List.replicate (n - a.val.length) 0 = a.val
  rw [a.length_val, Nat.sub_self, List.replicate_zero, List.append_nil, List.take_of_length_le]
  exact Nat.le_of_eq a.length_val

def Octets.zero (n : Nat) : Octets n := Octets.ofBytes n []

theorem u16_le (v : UInt16) : UInt16.ofNat (ofLeBytes (leBytes 2 v.toNat)) = v := by
  rw [ofLeBytes_leBytes 2 v.toNat v.toNat_lt, UInt16.ofNat_toNat]

theorem u32_le (v : UInt32) : UInt32.ofNat (ofLeBytes (leBytes 4 v.toNat)) = v := by
  rw [ofLeBytes_leBytes 4 v.toNat v.toNat_lt, UInt32.ofNat_toNat]

theorem u64_le (v : UInt64) : UInt64.ofNat (ofLeBytes (leBytes 8 v.toNat)) = v := by
  rw [ofLeBytes_leBytes 8 v.toNat v.toNat_lt, UInt64.ofNat_toNat]

def cutFields : List Nat → Bytes → List Bytes
  | [], _ => []
  | w :: ws, s => s.take w :: cutFields ws (s.drop w)

theorem cutFields_flatten (fields : List Bytes) :
    cutFields (fields.map List.length) fields.flatten = fields := by
  induction fields with
  | nil => rfl
  | cons field fields ih =>
    show (field ++ fields.flatten).take field.length
      :: cutFields (fields.map List.length) ((field ++ fields.flatten).drop field.length) = _
    rw [List.take_left, List.drop_left, ih]

theorem cutFields_of_widths {widths : List Nat} (fields : List Bytes)
    (h : widths = fields.map List.length) :
    cutFields widths fields.flatten = fields := by
  rw [h]
  exact cutFields_flatten fields

end FractalBits.Lib
