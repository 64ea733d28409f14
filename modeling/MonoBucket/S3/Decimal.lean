/-
Numbers in decimal

What `std::to_string` writes is digits, at least one, and their value is the number.
-/

import MonoBucket.S3.HeaderNumber
import MonoBucket.Storage.MetadataStore

namespace MonoBucket.S3

theorem decimal_eq (value : Nat) :
    decimal value = (Nat.toDigits 10 value).map fun ch => ch.toNat.toUInt8 := by
  rw [← Nat.toList_repr]
  rfl

theorem isDigit_of_mem_decimal {value : Nat} : ∀ byte ∈ decimal value, isDigit byte := by
  intro byte hbyte
  rw [decimal_eq] at hbyte
  obtain ⟨ch, hch, rfl⟩ := List.mem_map.mp hbyte
  have hdigit := Nat.isDigit_of_mem_toDigits (by decide) (by decide) hch
  simp only [Char.isDigit, Bool.and_eq_true, decide_eq_true_eq, ge_iff_le] at hdigit
  have hlow : 48 ≤ ch.toNat := hdigit.1
  have hhigh : ch.toNat ≤ 57 := hdigit.2
  have hbyte : ch.toNat.toUInt8.toNat = ch.toNat := by
    rw [Nat.toUInt8_eq, UInt8.toNat_ofNat', Nat.mod_eq_of_lt (by omega)]
  rw [isDigit, decide_eq_true_eq, UInt8.le_iff_toNat_le, UInt8.le_iff_toNat_le, hbyte]
  exact ⟨hlow, hhigh⟩

theorem digitsValue_decimal (value : Nat) : digitsValue (decimal value) = value := by
  have hfold : ∀ (digits : List Char) (start : Nat), (∀ ch ∈ digits, ch.isDigit) →
      (digits.map fun ch => ch.toNat.toUInt8).foldl
        (fun value digit => value * 10 + (digit.toNat - 0x30)) start =
        Nat.ofDigitChars 10 digits start := by
    intro digits
    induction digits with
    | nil => exact fun _ _ => rfl
    | cons ch digits ih =>
        intro start hdigits
        obtain ⟨hch, hdigits⟩ := List.forall_mem_cons.mp hdigits
        simp only [Char.isDigit, Bool.and_eq_true, decide_eq_true_eq, ge_iff_le] at hch
        have hlow : 48 ≤ ch.toNat := hch.1
        have hhigh : ch.toNat ≤ 57 := hch.2
        have hbyte : ch.toNat.toUInt8.toNat = ch.toNat := by
          rw [Nat.toUInt8_eq, UInt8.toNat_ofNat', Nat.mod_eq_of_lt (by omega)]
        rw [List.map_cons, List.foldl_cons, hbyte, ih _ hdigits, Nat.ofDigitChars_cons,
          Nat.mul_comm start]
        rfl
  rw [digitsValue, decimal_eq, hfold _ _ fun ch hch =>
    Nat.isDigit_of_mem_toDigits (by decide) (by decide) hch]
  exact Nat.ofDigitChars_ten_toDigits

theorem decimal_ne_nil (value : Nat) : decimal value ≠ [] := by
  rw [decimal_eq, ne_eq, List.map_eq_nil_iff]
  exact Nat.toDigits_ne_nil

end MonoBucket.S3
