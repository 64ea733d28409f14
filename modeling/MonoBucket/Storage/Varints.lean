/-
Numbers of seven-bit groups

What `Reader::varint` returns is the sum of the groups it consumed, modulo 2^64. Ten
groups are the most it takes, and nine of them leave one bit: a tenth group of two or
more is shifted out of the number, where it ought to be refused.
-/

import MonoBucket.Storage.Codec

namespace MonoBucket.Codec

section Groups

variable {groups front : Bytes}

theorem groupsValue_append (front back : Bytes) :
    groupsValue (front ++ back) = groupsValue front + 128 ^ front.length * groupsValue back := by
  induction front with
  | nil => simp [groupsValue]
  | cons byte rest ih =>
      rw [List.cons_append, groupsValue, groupsValue, ih, List.length_cons, pow_succ]
      ring

theorem groupsValue_lt (groups : Bytes) : groupsValue groups < 128 ^ groups.length := by
  induction groups with
  | nil => decide
  | cons byte rest ih =>
      rw [groupsValue, List.length_cons, pow_succ]
      omega

/-- All but the last say that more follow. -/
theorem groups_iff : Groups groups ↔
    ∃ front last, groups = front ++ [last] ∧ (∀ byte ∈ front, 128 ≤ byte.toNat) ∧ last.toNat < 128 := by
  constructor
  · intro h
    induction h with
    | @last byte hlast => exact ⟨[], byte, rfl, fun _ hmem => (nomatch hmem), hlast⟩
    | @more byte rest hmore _ ih =>
        obtain ⟨front, last, rfl, hfront, hlast⟩ := ih
        exact ⟨byte :: front, last, rfl, List.forall_mem_cons.mpr ⟨hmore, hfront⟩, hlast⟩
  · rintro ⟨front, last, rfl, hfront, hlast⟩
    induction front with
    | nil => exact .last hlast
    | cons byte front ih =>
        obtain ⟨hmore, hrest⟩ := List.forall_mem_cons.mp hfront
        exact .more hmore (ih hrest)

end Groups

/-! ### What the loop returns -/

/-- What the loop returns it has read from the groups of one number, ten at most. -/
theorem groups_of_varintLoop {fuel : Nat} {value shift result : UInt64} {bits : Nat}
    (hshift : shift.toNat = bits) (hfuel : bits + 7 * fuel ≤ 77) {reader next : Reader}
    (h : varintLoop fuel value shift reader = .ok (result, next)) :
    ∃ groups, Groups groups ∧ groups.length ≤ fuel ∧ bits + 7 * groups.length ≤ 70 ∧
      groups <+: reader.rest := by
  induction fuel generalizing value shift bits reader with
  | zero => cases h
  | succ fuel ih =>
      rw [varintLoop] at h
      cases hrest : reader.rest with
      | nil =>
          simp only [Bind.bind, StateT.bind, Except.bind, u8, hrest, reduceCtorEq] at h
      | cons byte tail =>
          simp only [Bind.bind, StateT.bind, Except.bind, u8, hrest] at h
          by_cases hlong : 63 < shift
          · rw [if_pos hlong] at h
            cases h
          · rw [if_neg hlong] at h
            have hbound : bits ≤ 63 := by
              rw [UInt64.lt_iff_toNat_lt, hshift] at hlong
              exact not_lt.mp hlong
            have hskipped : (reader.skip 1).rest = tail := by
              rw [Reader.rest_skip, hrest]
              rfl
            by_cases hlast : byte &&& 0x80 = 0
            · refine ⟨[byte], .last ((and_high_eq_zero_iff byte).mp hlast), by simp, ?_,
                List.prefix_append [byte] tail⟩
              rw [List.length_singleton]
              omega
            · rw [if_neg hlast] at h
              have hnext : (shift + 7).toNat = bits + 7 := by
                rw [UInt64.toNat_add, hshift]
                show (bits + 7) % 2 ^ 64 = bits + 7
                omega
              obtain ⟨groups, hgroups, hlength, hbits, hprefix⟩ := ih hnext (by omega) h
              rw [and_high_eq_zero_iff, not_lt] at hlast
              refine ⟨byte :: groups, .more hlast hgroups, ?_, ?_, ?_⟩
              · rw [List.length_cons]
                omega
              · rw [List.length_cons]
                omega
              · rw [hskipped] at hprefix
                exact (List.prefix_cons_inj byte).mpr hprefix

/-- The reader in full: it takes the groups of one number, up to ten of them, and
returns the number modulo 2^64. -/
theorem varint_eq_ok_iff {reader next : Reader} {value : UInt64} :
    varint reader = .ok (value, next) ↔ ∃ groups tail, Groups groups ∧ groups.length ≤ 10 ∧
      reader.rest = groups ++ tail ∧ next = reader.skip groups.length ∧
      value = UInt64.ofNat (groupsValue groups) := by
  constructor
  · intro h
    obtain ⟨groups, hgroups, -, hbits, tail, hrest⟩ := @groups_of_varintLoop 11 0 0 value 0 rfl (by omega)
      reader next h
    have hlength : groups.length ≤ 10 := by omega
    have hread := hgroups.decodes_varint hlength reader tail hrest.symm
    obtain ⟨hvalue, hnext⟩ := Prod.mk.inj (Except.ok.inj (h.symm.trans hread))
    exact ⟨groups, tail, hgroups, hlength, hrest.symm, hnext, hvalue⟩
  · rintro ⟨groups, tail, hgroups, hlength, hrest, rfl, rfl⟩
    exact hgroups.decodes_varint hlength reader tail hrest

/-! ### The numbers that are read -/

/-- What the writer wrote is read back, and every number returned is the one its
groups spell. -/
structure ReadsNumber (reader : Reader) : Prop where
  written : ∀ value tail, reader.rest = Writer.varint value ++ tail →
    ∃ next, varint reader = .ok (value, next) ∧ next.rest = tail
  exact : ∀ value next, varint reader = .ok (value, next) →
    ∃ groups, Groups groups ∧ reader.rest = groups ++ next.rest ∧ value.toNat = groupsValue groups

/-- Ten groups whose last has bits that do not fit. -/
def TenthTooLarge (bytes : Bytes) : Prop :=
  ∃ front last tail, bytes = front ++ last :: tail ∧ front.length = 9 ∧
    (∀ byte ∈ front, 128 ≤ byte.toNat) ∧ 2 ≤ last.toNat ∧ last.toNat < 128

/-- Numbers are read as they are spelled but for a tenth group that is too large. -/
theorem readsNumber_iff (reader : Reader) : ReadsNumber reader ↔ ¬ TenthTooLarge reader.rest := by
  constructor
  · rintro hreads ⟨front, last, tail, hrest, hnine, hfront, htwo, hlast⟩
    have hgroups : Groups (front ++ [last]) := groups_iff.mpr ⟨front, last, rfl, hfront, hlast⟩
    have hten : (front ++ [last]).length = 10 := by
      rw [List.length_append, hnine, List.length_singleton]
    have hspelled : reader.rest = (front ++ [last]) ++ tail := by
      rw [hrest, List.append_assoc, List.singleton_append]
    have hread := varint_eq_ok_iff.mpr ⟨front ++ [last], tail, hgroups, hten.le, hspelled, rfl, rfl⟩
    obtain ⟨groups, -, hsame, hvalue⟩ := hreads.exact _ _ hread
    rw [Reader.rest_skip, hspelled, List.drop_left] at hsame
    obtain rfl := List.append_cancel_right hsame
    have hlarge : 2 ^ 64 ≤ groupsValue (front ++ [last]) := by
      rw [groupsValue_append, hnine, groupsValue, groupsValue, Nat.mul_zero, Nat.add_zero,
        Nat.mod_eq_of_lt hlast]
      calc 2 ^ 64 = 128 ^ 9 * 2 := by norm_num
        _ ≤ 128 ^ 9 * last.toNat := Nat.mul_le_mul_left _ htwo
        _ ≤ groupsValue front + 128 ^ 9 * last.toNat := Nat.le_add_left _ _
    have hfits := (UInt64.ofNat (groupsValue (front ++ [last]))).toNat_lt
    omega
  · intro hfits
    refine ⟨fun value tail hrest => ⟨_, decodes_varint value reader tail hrest, ?_⟩,
      fun value next hread => ?_⟩
    · rw [Reader.rest_skip, hrest, List.drop_left]
    · obtain ⟨groups, tail, hgroups, hlength, hrest, rfl, rfl⟩ := varint_eq_ok_iff.mp hread
      refine ⟨groups, hgroups, ?_, ?_⟩
      · rw [Reader.rest_skip, hrest, List.drop_left]
      · rw [UInt64.toNat_ofNat']
        refine Nat.mod_eq_of_lt ?_
        obtain ⟨front, last, rfl, hfront, hlast⟩ := groups_iff.mp hgroups
        rw [List.length_append, List.length_singleton] at hlength
        by_cases hnine : front.length = 9
        · have hone : last.toNat < 2 := by
            by_contra htwo
            refine hfits ⟨front, last, tail, ?_, hnine, hfront, by omega, hlast⟩
            rw [hrest, List.append_assoc, List.singleton_append]
          have hfront := groupsValue_lt front
          rw [groupsValue_append, hnine, groupsValue, groupsValue, Nat.mul_zero, Nat.add_zero,
            Nat.mod_eq_of_lt hlast]
          rw [hnine] at hfront
          have hmost := Nat.mul_le_mul_left (128 ^ 9) (Nat.le_of_lt_succ hone)
          calc groupsValue front + 128 ^ 9 * last.toNat < 128 ^ 9 + 128 ^ 9 * 1 :=
              Nat.add_lt_add_of_lt_of_le hfront hmost
            _ = 2 ^ 64 := by norm_num
        · calc groupsValue (front ++ [last]) < 128 ^ (front ++ [last]).length := groupsValue_lt _
            _ ≤ 128 ^ 9 := by
              refine Nat.pow_le_pow_right (by decide) ?_
              rw [List.length_append, List.length_singleton]
              omega
            _ < 2 ^ 64 := by norm_num

section Fixed

/-- Nine zero groups and a tenth of two, which is 2^64. -/
def tooLarge : Bytes := List.replicate 9 0x80 ++ [2]

/-- It is read as zero. -/
theorem two_to_the_64_is_read_as_zero :
    runOn varint tooLarge = .ok 0 ∧ groupsValue tooLarge = 2 ^ 64 ∧
      ¬ ∀ reader : Reader, ∀ value next, varint reader = .ok (value, next) →
        ∃ groups, Groups groups ∧ reader.rest = groups ++ next.rest ∧
          value.toNat = groupsValue groups := by
  refine ⟨by decide, by decide, fun hall => ?_⟩
  have hread : varint (Reader.ofBytes tooLarge) = .ok (0, ⟨tooLarge, 10⟩) := by decide
  obtain ⟨groups, hgroups, hrest, hvalue⟩ := hall _ _ _ hread
  have hsame : tooLarge = groups ++ [] := hrest
  rw [List.append_nil] at hsame
  rw [← hsame] at hvalue
  exact absurd hvalue (by decide)

end Fixed

end MonoBucket.Codec
