/-
Rows that are cut short

A read that does not ask whether the row has ended takes what it returns from bytes
that it reads the same way whatever follows. So it cannot return anything for a cut
form of bytes that it reads to their end.
-/

import MonoBucket.Storage.RecordCodec
import MonoBucket.Storage.Varints

namespace MonoBucket.Codec

/-- What is returned was read from bytes that give it whatever follows them. -/
def Steady {α : Type} (read : Read α) : Prop :=
  ∀ (reader next : Reader) (value : α), read reader = .ok (value, next) →
    ∃ bytes tail, reader.rest = bytes ++ tail ∧ next = reader.skip bytes.length ∧
      Decodes read bytes value

section Combinators

variable {α β : Type} {read : Read α}

theorem steady_pure (value : α) : Steady (pure value) := by
  intro reader next result h
  obtain ⟨rfl, rfl⟩ := Prod.mk.inj (Except.ok.inj h)
  exact ⟨[], reader.rest, rfl, rfl, decodes_pure value⟩

theorem steady_throw (error : DecodeError) : Steady (throw error : Read α) := by
  intro reader next result h
  cases h

theorem Steady.bind {andThen : α → Read β} (hread : Steady read)
    (hthen : ∀ value, Steady (andThen value)) : Steady (read >>= andThen) := by
  intro reader next result h
  simp only [Bind.bind, StateT.bind] at h
  cases hfirst : read reader with
  | error error =>
      rw [hfirst] at h
      cases h
  | ok found =>
      rw [hfirst] at h
      obtain ⟨value, middle⟩ := found
      obtain ⟨front, rest, hrest, rfl, hvalue⟩ := hread reader middle value hfirst
      obtain ⟨back, tail, htail, rfl, hresult⟩ := hthen value _ next result h
      rw [Reader.rest_skip, hrest, List.drop_left] at htail
      refine ⟨front ++ back, tail, ?_, ?_, hvalue.bind hresult⟩
      · rw [hrest, htail, List.append_assoc]
      · rw [Reader.skip_skip, List.length_append]

theorem Steady.ite {condition : Prop} [Decidable condition] {first second : Read α}
    (hfirst : Steady first) (hsecond : Steady second) :
    Steady (if condition then first else second) := by
  split_ifs
  · exact hfirst
  · exact hsecond

/-- A cut form of what is read to its end gives nothing. -/
theorem Steady.runOn_error {bytes front : Bytes} {value : α} (hsteady : Steady read)
    (hread : Decodes read bytes value) (hfront : front <+: bytes) (hcut : front ≠ bytes) :
    ∃ error, runOn read front = .error error := by
  cases hrun : read (Reader.ofBytes front) with
  | error error => exact ⟨error, by simp [runOn, hrun, Except.map]⟩
  | ok found =>
      exfalso
      obtain ⟨result, next⟩ := found
      obtain ⟨taken, tail, hrest, -, hresult⟩ := hsteady _ _ _ hrun
      rw [Reader.rest_ofBytes] at hrest
      obtain ⟨missing, rfl⟩ := hfront
      have hwhole := hread (Reader.ofBytes (front ++ missing)) [] (by simp)
      have hpart := hresult (Reader.ofBytes (front ++ missing)) (tail ++ missing) (by
        rw [Reader.rest_ofBytes, hrest, List.append_assoc])
      have hsame := (Prod.mk.inj (Except.ok.inj (hwhole.symm.trans hpart))).2
      have hoffset := congrArg Reader.offset hsame
      simp only [Reader.skip, Reader.ofBytes, Nat.zero_add, List.length_append] at hoffset
      have hlength : front.length = taken.length + tail.length := by
        rw [hrest, List.length_append]
      have hnone : missing = [] := List.length_eq_zero_iff.mp (by omega)
      exact hcut (by rw [hnone, List.append_nil])

end Combinators

/-! ### Fields -/

theorem steady_u8 : Steady u8 := by
  intro reader next value h
  cases hrest : reader.rest with
  | nil => simp only [u8, hrest, reduceCtorEq] at h
  | cons byte tail =>
      simp only [u8, hrest] at h
      obtain ⟨rfl, rfl⟩ := Prod.mk.inj (Except.ok.inj h)
      exact ⟨[byte], tail, rfl, rfl, decodes_u8 byte⟩

theorem steady_varint : Steady varint := by
  intro reader next value h
  obtain ⟨groups, tail, hgroups, hlength, hrest, rfl, rfl⟩ := varint_eq_ok_iff.mp h
  exact ⟨groups, tail, hrest, rfl, hgroups.decodes_varint hlength⟩

theorem steady_string : Steady string := by
  refine steady_varint.bind fun length reader next value h => ?_
  split_ifs at h with hshort
  obtain ⟨rfl, rfl⟩ := Prod.mk.inj (Except.ok.inj h)
  have htaken : (reader.rest.take length.toNat).length = length.toNat :=
    List.length_take_of_le (not_lt.mp hshort)
  refine ⟨reader.rest.take length.toNat, reader.rest.drop length.toNat,
    (List.take_append_drop _ _).symm, by rw [htaken], ?_⟩
  intro other tail hother
  have hlong : ¬ other.rest.length < length.toNat := by
    rw [hother, List.length_append, htaken]
    omega
  have hsame : other.rest.take length.toNat = reader.rest.take length.toNat := by
    rw [hother, List.take_left' htaken]
  simp only [if_neg hlong, hsame, htaken]

theorem steady_timestamp : Steady timestamp := steady_varint.bind fun _ => steady_pure _

theorem steady_entries {α : Type} {read : Read α} (hread : Steady read) (count : Nat) :
    Steady (entries read count) := by
  induction count with
  | zero => exact steady_pure _
  | succ count ih => exact hread.bind fun _ => ih.bind fun _ => steady_pure _

theorem steady_vector {α : Type} {read : Read α} (hread : Steady read) (count : UInt64) :
    Steady (vector read count) := (steady_entries hread _).bind fun _ => steady_pure _

theorem steady_repeated {σ : Type} {body : σ → Read σ} (hbody : ∀ state, Steady (body state))
    (count : Nat) (state : σ) : Steady (repeated body count state) := by
  induction count generalizing state with
  | zero => exact steady_pure _
  | succ count ih => exact (hbody state).bind ih

theorem steady_metadata : Steady decodeMetadata :=
  steady_varint.bind fun count =>
    (steady_vector (steady_string.bind fun _ => steady_string.bind fun _ => steady_pure _) count).bind
      fun _ => steady_pure _

theorem steady_checksum : Steady decodeChecksum := by
  refine steady_u8.bind fun tag => (steady_pure _).ite ?_
  split
  · exact steady_throw _
  · exact steady_string.bind fun _ => steady_varint.bind fun _ => steady_pure _

theorem steady_contentHeader (headers : ContentHeaders) : Steady (decodeContentHeader headers) :=
  steady_u8.bind fun _ => steady_string.bind fun _ => steady_pure _

theorem steady_contentHeaders : Steady decodeContentHeaders :=
  steady_varint.bind fun count =>
    (steady_throw _).ite (steady_repeated steady_contentHeader count.toNat {})

end MonoBucket.Codec
