import Mathlib.Algebra.Order.Ring.Nat
import Mathlib.Data.List.Induction
import Mathlib.Data.Nat.ModEq
import Mathlib.Tactic.Ring

/-!
# Byte strings

Big-endian integers and length-prefixed fields. A concatenation of such fields determines every
one of them.
-/

namespace UniSsh

open List

/-- A byte string. -/
abbrev Bytes := List UInt8

instance instLawfulBEqBytes : LawfulBEq Bytes := inferInstance

instance instLawfulBEqBytesPair : LawfulBEq (Bytes × Bytes) := inferInstance

/-- The bytes of an ASCII literal (`b"…"`). -/
def ascii (literal : String) : Bytes :=
  literal.toList.map fun c => UInt8.ofNat c.toNat

/-- The `w` low-order base-256 digits of `n`, most significant first. -/
def beBytes : (w : Nat) → (n : Nat) → Bytes
  | 0, _ => []
  | w + 1, n => UInt8.ofNat (n / 256 ^ w) :: beBytes w n

/-- The number a big-endian byte string denotes. -/
def ofBeBytes (b : Bytes) : Nat :=
  b.foldl (fun acc byte => acc * 256 + byte.toNat) 0

/-- A field preceded by its length in `w` big-endian bytes. -/
def lenPrefixed (w : Nat) (field : Bytes) : Bytes :=
  beBytes w field.length ++ field

@[simp] theorem beBytes_length (w n : Nat) : (beBytes w n).length = w := by
  induction w with
  | zero => rfl
  | succ _ ih => simp [beBytes, ih]

@[simp] theorem lenPrefixed_length (w : Nat) (field : Bytes) :
    (lenPrefixed w field).length = w + field.length := by
  simp [lenPrefixed]

private theorem foldl_beBytes (w n acc : Nat) :
    (beBytes w n).foldl (fun acc byte => acc * 256 + byte.toNat) acc =
      acc * 256 ^ w + n % 256 ^ w := by
  induction w generalizing acc with
  | zero => simp [beBytes, Nat.mod_one]
  | succ w ih =>
    have digit : (UInt8.ofNat (n / 256 ^ w)).toNat = n / 256 ^ w % 256 := by
      simp [UInt8.toNat_ofNat']
    have split : n % 256 ^ (w + 1) = n % 256 ^ w + 256 ^ w * (n / 256 ^ w % 256) := by
      rw [pow_succ, Nat.mod_mul]
    simp only [beBytes, foldl_cons, ih, digit, split]
    ring

/-- Reading back a written integer keeps what fits the width. -/
@[simp] theorem ofBeBytes_beBytes (w n : Nat) : ofBeBytes (beBytes w n) = n % 256 ^ w := by
  simp [ofBeBytes, foldl_beBytes]

theorem ofBeBytes_concat (b : Bytes) (byte : UInt8) :
    ofBeBytes (b ++ [byte]) = ofBeBytes b * 256 + byte.toNat := by
  simp [ofBeBytes]

/-- A base-256 number of `w` digits. -/
theorem ofBeBytes_lt (b : Bytes) : ofBeBytes b < 256 ^ b.length := by
  induction b using reverseRecOn with
  | nil => simp [ofBeBytes]
  | append_singleton _ byte =>
    have digit := byte.toNat_lt
    rw [ofBeBytes_concat, length_append, length_singleton, pow_succ]
    omega

variable {a b x y : Bytes} {w n m : Nat}

theorem ofBeBytes_inj (length : a.length = b.length) (same : ofBeBytes a = ofBeBytes b) :
    a = b := by
  induction a using reverseRecOn generalizing b with
  | nil => exact (length_eq_zero_iff.mp length.symm).symm
  | append_singleton _ x ih =>
    rcases eq_nil_or_concat b with rfl | ⟨b, y, rfl⟩
    · simp at length
    · have low := x.toNat_lt
      have low' := y.toNat_lt
      rw [ofBeBytes_concat, concat_eq_append, ofBeBytes_concat] at same
      have digit : x = y := UInt8.toNat_inj.mp (by omega)
      rw [concat_eq_append, ih (by simpa using length) (by omega), digit]

/-- Writing a number that was read gives its digits back. -/
theorem beBytes_ofBeBytes (b : Bytes) : beBytes b.length (ofBeBytes b) = b := by
  apply ofBeBytes_inj (beBytes_length _ _)
  rw [ofBeBytes_beBytes, Nat.mod_eq_of_lt (ofBeBytes_lt b)]

/-- Two integers that fit the width and are written alike are equal. -/
theorem beBytes_injective (fitsLeft : n < 256 ^ w) (fitsRight : m < 256 ^ w)
    (same : beBytes w n = beBytes w m) : n = m := by
  have read := congrArg ofBeBytes same
  rwa [ofBeBytes_beBytes, ofBeBytes_beBytes, Nat.mod_eq_of_lt fitsLeft,
    Nat.mod_eq_of_lt fitsRight] at read

/-- Fixed-width integers at the front of two equal strings agree, and so do the rests. -/
theorem beBytes_append_inj (fitsLeft : n < 256 ^ w) (fitsRight : m < 256 ^ w)
    (same : beBytes w n ++ x = beBytes w m ++ y) : n = m ∧ x = y := by
  obtain ⟨heads, rests⟩ := append_inj same (by simp)
  exact ⟨beBytes_injective fitsLeft fitsRight heads, rests⟩

/-- A length-prefixed field at the front of two equal strings is the same field, and the
rests agree. -/
theorem lenPrefixed_append_inj (fitsLeft : a.length < 256 ^ w) (fitsRight : b.length < 256 ^ w)
    (same : lenPrefixed w a ++ x = lenPrefixed w b ++ y) : a = b ∧ x = y := by
  simp only [lenPrefixed, append_assoc] at same
  obtain ⟨lengths, rests⟩ := beBytes_append_inj fitsLeft fitsRight same
  exact append_inj rests lengths

end UniSsh
