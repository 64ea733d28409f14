/-
Byte strings

Keys, values and header text are byte strings, compared as `std::string`
compares them: byte by byte, as unsigned values, a proper prefix first.

A string or vector that is stored inside a record carries the bound its size
has as a `size_t`, because the record encoding writes that size as 64 bits.
-/

import Mathlib.Tactic
import Mathlib.Data.List.Lex
import MonoBucket.Lib.PrefixOrder

namespace MonoBucket

instance instLinearOrderUInt8 : LinearOrder UInt8 where
  le_refl := UInt8.le_refl
  le_trans _ _ _ := UInt8.le_trans
  le_antisymm _ _ := UInt8.le_antisymm
  le_total := UInt8.le_total
  lt_iff_le_not_ge first second := by
    simp only [UInt8.lt_iff_toNat_lt, UInt8.le_iff_toNat_le]
    omega
  toDecidableLE := inferInstance
  toDecidableEq := inferInstance
  toDecidableLT := inferInstance

-- One name each for what a membership test rests on.
instance instLawfulBEqUInt8 : LawfulBEq UInt8 := inferInstance

instance instLawfulBEqBytes : LawfulBEq (List UInt8) := inferInstance

section Decide

variable {α : Type} (p : α → Prop) [DecidablePred p]

-- What holds of every member is decided along the members, also where the type
-- could be run through: a `UInt8` has 256 values, an `Int64` far too many.
instance (priority := 1100) decidableForallMem (xs : List α) : Decidable (∀ x ∈ xs, p x) :=
  List.decidableBAll p xs

instance (priority := 1100) decidableForallMemOption (x : Option α) :
    Decidable (∀ y ∈ x, p y) :=
  Option.decidableForallMem x

end Decide

/-- `std::string` as the store uses it. -/
abbrev Bytes := List UInt8

/-- A string literal of the source. Every one of them is ASCII. -/
def ascii (text : String) : Bytes := text.toList.map fun ch => ch.toNat.toUInt8

/-- A character literal of the source. -/
def letter (ch : Char) : UInt8 := ch.toNat.toUInt8

/-- `isspace` in the C locale. -/
def isSpace (byte : UInt8) : Bool := byte = 0x20 ∨ (0x09 ≤ byte ∧ byte ≤ 0x0D)

def isDigit (byte : UInt8) : Bool := 0x30 ≤ byte ∧ byte ≤ 0x39

/-- `std::toupper` in the C locale. -/
def toUpper (byte : UInt8) : UInt8 := if 0x61 ≤ byte ∧ byte ≤ 0x7A then byte - 0x20 else byte

/-- `std::tolower` in the C locale. -/
def toLower (byte : UInt8) : UInt8 := if 0x41 ≤ byte ∧ byte ≤ 0x5A then byte + 0x20 else byte

/-- A container of the source: its size is a `size_t`. -/
structure Sized (α : Type) where
  items : List α
  fits : items.length < 2 ^ 64
  deriving DecidableEq

/-- A `std::string` kept in a record. -/
abbrev Text := Sized UInt8

namespace Sized

variable {α : Type}

@[ext]
theorem ext {first second : Sized α} (h : first.items = second.items) : first = second := by
  cases first
  cases second
  cases h
  rfl

theorem fits_nil : ([] : List α).length < 2 ^ 64 := by simp

def empty : Sized α := ⟨[], fits_nil⟩

instance : Inhabited (Sized α) := ⟨empty⟩

@[simp]
theorem items_empty : (empty : Sized α).items = [] := rfl

def map {β : Type} (f : α → β) (container : Sized α) : Sized β :=
  ⟨container.items.map f, by simpa using container.fits⟩

@[simp]
theorem items_map {β : Type} (f : α → β) (container : Sized α) :
    (container.map f).items = container.items.map f := rfl

@[simp]
theorem map_id (container : Sized α) : container.map id = container := by
  ext1
  simp

/-- The size, as the code reads it. -/
def size (container : Sized α) : UInt64 := container.items.length.toUInt64

@[simp]
theorem size_map {β : Type} (f : α → β) (container : Sized α) :
    (container.map f).size = container.size := by
  simp [size]

theorem toNat_size (container : Sized α) : container.size.toNat = container.items.length := by
  rw [size, Nat.toUInt64_eq, UInt64.toNat_ofNat', Nat.mod_eq_of_lt container.fits]

end Sized

instance instLinearOrderText : LinearOrder Text :=
  LinearOrder.lift' Sized.items fun _ _ => Sized.ext

/-- Milliseconds since the Unix epoch. -/
abbrev TimestampMs := Int64

theorem UInt8.zero_isBot : IsBot (0 : UInt8) := fun byte => by
  simp [UInt8.le_iff_toNat_le]

theorem UInt8.ff_isTop : IsTop (0xFF : UInt8) := fun byte => by
  have := byte.toNat_lt
  simp only [UInt8.le_iff_toNat_le]
  change byte.toNat ≤ 255
  omega

theorem UInt8.covBy_add_one {byte : UInt8} (h : byte ≠ 0xFF) : byte ⋖ byte + 1 := by
  have hbound := byte.toNat_lt
  have hne : byte.toNat ≠ 255 := fun heq => h (UInt8.toNat_inj.mp heq)
  have hsucc : (byte + 1).toNat = byte.toNat + 1 := by
    rw [UInt8.toNat_add]
    exact Nat.mod_eq_of_lt (by change byte.toNat + 1 < 256; omega)
  constructor
  · rw [UInt8.lt_iff_toNat_lt]
    omega
  · intro other hlow hhigh
    rw [UInt8.lt_iff_toNat_lt] at hlow hhigh
    omega

end MonoBucket
