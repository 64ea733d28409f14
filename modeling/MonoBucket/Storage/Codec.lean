/-
The record encoding

`codec::Writer` appends fixed bytes, LEB128 varints and length-prefixed strings
to a buffer; `codec::Reader` walks a stored value with an offset and throws on
anything it cannot read. A writer here is the bytes it appends.

The reader is described by what it does to the bytes it is positioned at:
`Decodes` says that reading consumes exactly those bytes and returns a value,
`Rejects` that it throws. Both compose along `>>=`, which is how every record
decoder is related to its encoder.
-/

import MonoBucket.Storage.Bytes

namespace MonoBucket.Codec

/-- The reasons `codec::DecodeError` and the record decoders give. -/
inductive DecodeError
  | truncated (offset size : Nat)
  | varintTooLong
  | stringTooLong (length : UInt64) (remaining : Nat)
  | unsupportedVersion (version : UInt8)
  | listTooLong
  | unknownChecksumAlgorithm (tag : UInt8)
  | unknownDurability (level : UInt8)
  | unknownRole (name : Bytes)
  | unknownBucketAccess (name : Bytes)
  deriving DecidableEq, Repr

/-! ### Writer -/

namespace Writer

def u8 (value : UInt8) : Bytes := [value]

/-- The loop of `Writer::varint`. Nine shifts of seven bits leave one bit of a
64-bit value, so the loop body runs at most nine times. -/
def varintLoop : Nat → UInt64 → Bytes
  | 0, value => [value.toUInt8]
  | fuel + 1, value =>
    if 0x80 ≤ value then ((value &&& 0x7F) ||| 0x80).toUInt8 :: varintLoop fuel (value >>> 7)
    else [value.toUInt8]

def varint (value : UInt64) : Bytes := varintLoop 9 value

def string (value : Text) : Bytes := varint value.size ++ value.items

def boolean (value : Bool) : Bytes := u8 (if value then 1 else 0)

end Writer

/-! ### Reader -/

/-- `codec::Reader`: the stored value and how far into it the reader is. -/
structure Reader where
  input : Bytes
  offset : Nat
  deriving DecidableEq

/-- A read that may throw. -/
abbrev Read (α : Type) := StateT Reader (Except DecodeError) α

namespace Reader

/-- A reader at the start of a stored value. -/
def ofBytes (stored : Bytes) : Reader := ⟨stored, 0⟩

/-- The bytes not consumed yet. -/
def rest (reader : Reader) : Bytes := reader.input.drop reader.offset

def skip (reader : Reader) (count : Nat) : Reader :=
  ⟨reader.input, reader.offset + count⟩

@[simp]
theorem rest_ofBytes (stored : Bytes) : (ofBytes stored).rest = stored := rfl

@[simp]
theorem rest_skip (reader : Reader) (count : Nat) :
    (reader.skip count).rest = reader.rest.drop count := by
  simp [rest, skip, List.drop_drop]

@[simp]
theorem skip_zero (reader : Reader) : reader.skip 0 = reader := rfl

@[simp]
theorem skip_skip (reader : Reader) (first second : Nat) :
    (reader.skip first).skip second = reader.skip (first + second) := by
  simp [skip, Nat.add_assoc]

end Reader

def u8 : Read UInt8 := fun reader =>
  match reader.rest with
  | [] => .error (.truncated reader.offset reader.input.length)
  | byte :: _ => .ok (byte, reader.skip 1)

/-- The loop of `Reader::varint`. A shift past 63 throws, so at most eleven
bytes are read. -/
def varintLoop : Nat → UInt64 → UInt64 → Read UInt64
  | 0, _, _ => throw .varintTooLong
  | fuel + 1, value, shift => do
    let byte ← u8
    if 63 < shift then throw .varintTooLong
    else
      let value := value ||| ((byte &&& 0x7F).toUInt64 <<< shift)
      if byte &&& 0x80 = 0 then pure value else varintLoop fuel value (shift + 7)

def varint : Read UInt64 := varintLoop 11 0 0

def string : Read Text := do
  let length ← varint
  fun reader =>
    if reader.rest.length < length.toNat then
      .error (.stringTooLong length reader.rest.length)
    else
      .ok (⟨reader.rest.take length.toNat, lt_of_le_of_lt (List.length_take_le ..) length.toNat_lt⟩,
        reader.skip length.toNat)

def boolean : Read Bool := do
  let value ← u8
  pure (value != 0)

/-- `reader.exhausted()`. -/
def exhausted : Read Bool := fun reader => .ok (reader.rest.isEmpty, reader)

/-- `if (!reader.exhausted()) field = read(reader)`: a trailing field an older
record may end before. -/
def ifMore {α : Type} (missing : α) (read : Read α) : Read α := do
  if ← exhausted then pure missing else read

/-- A decoder run on a whole stored value. Bytes left over are ignored. -/
def runOn {α : Type} (read : Read α) (stored : Bytes) : Except DecodeError α :=
  (read (Reader.ofBytes stored)).map Prod.fst

/-! ### What a read does to the bytes in front of it -/

/-- Reading consumes exactly `bytes` and returns `value`, whatever follows. -/
def Decodes {α : Type} (read : Read α) (bytes : Bytes) (value : α) : Prop :=
  ∀ (reader : Reader) (tail : Bytes), reader.rest = bytes ++ tail →
    read reader = .ok (value, reader.skip bytes.length)

/-- Reading throws on a value that continues with `bytes`. -/
def Rejects {α : Type} (read : Read α) (bytes : Bytes) : Prop :=
  ∀ (reader : Reader) (tail : Bytes), reader.rest = bytes ++ tail →
    ∃ error, read reader = .error error

/-- Whatever reading returns meets the postcondition. -/
def Gives {α : Type} (read : Read α) (post : α → Prop) : Prop :=
  ∀ (reader rest : Reader) (value : α), read reader = .ok (value, rest) → post value

section Combinators

variable {α β : Type} {read : Read α} {next : α → Read β} {first second : Bytes}
  {value : α} {result : β}

theorem decodes_pure (value : α) : Decodes (pure value) [] value := fun _ _ _ => rfl

theorem Decodes.bind (hread : Decodes read first value)
    (hnext : Decodes (next value) second result) :
    Decodes (read >>= next) (first ++ second) result := by
  intro reader tail hrest
  have hfirst := hread reader (second ++ tail) (by simpa using hrest)
  have hsecond := hnext (reader.skip first.length) tail (by simp [hrest])
  simp [Bind.bind, StateT.bind, Except.bind, hfirst, hsecond]

theorem Decodes.map (hread : Decodes read first value) (f : α → β) :
    Decodes (do let value ← read; pure (f value)) first (f value) := by
  have h : Decodes (read >>= fun value => pure (f value)) (first ++ []) (f value) :=
    hread.bind (decodes_pure (f value))
  rwa [List.append_nil] at h

theorem Decodes.bind_rejects (hread : Decodes read first value)
    (hnext : Rejects (next value) second) : Rejects (read >>= next) (first ++ second) := by
  intro reader tail hrest
  have hfirst := hread reader (second ++ tail) (by simpa using hrest)
  obtain ⟨error, hsecond⟩ := hnext (reader.skip first.length) tail (by simp [hrest])
  exact ⟨error, by simp [Bind.bind, StateT.bind, Except.bind, hfirst, hsecond]⟩

theorem Rejects.append (hread : Rejects read first) : Rejects read (first ++ second) := by
  intro reader tail hrest
  exact hread reader (second ++ tail) (by simpa using hrest)

theorem Rejects.bind (hread : Rejects read first) : Rejects (read >>= next) first := by
  intro reader tail hrest
  obtain ⟨error, hfirst⟩ := hread reader tail hrest
  exact ⟨error, by simp [Bind.bind, StateT.bind, Except.bind, hfirst]⟩

theorem Decodes.ifMore (hread : Decodes read first value) (hne : first ≠ []) (missing : α) :
    Decodes (Codec.ifMore missing read) first value := by
  intro reader tail hrest
  have hmore : reader.rest.isEmpty = false := by
    rw [hrest]
    cases first with
    | nil => exact absurd rfl hne
    | cons => rfl
  simpa [Codec.ifMore, exhausted, Bind.bind, StateT.bind, Except.bind, hmore] using
    hread reader tail hrest

theorem Rejects.ifMore (hread : Rejects read first) (hne : first ≠ []) (missing : α) :
    Rejects (Codec.ifMore missing read) first := by
  intro reader tail hrest
  have hmore : reader.rest.isEmpty = false := by
    rw [hrest]
    cases first with
    | nil => exact absurd rfl hne
    | cons => rfl
  simpa [Codec.ifMore, exhausted, Bind.bind, StateT.bind, Except.bind, hmore] using
    hread reader tail hrest

theorem Decodes.runOn (hread : Decodes read first value) :
    Codec.runOn read first = .ok value := by
  have h := hread (Reader.ofBytes first) [] (by simp)
  simp [Codec.runOn, h, Except.map]

/-- A decoder that stops early reads a value that starts with its fields. -/
theorem Decodes.runOn_append (hread : Decodes read first value) (rest : Bytes) :
    Codec.runOn read (first ++ rest) = .ok value := by
  have h := hread (Reader.ofBytes (first ++ rest)) rest (by simp)
  simp [Codec.runOn, h, Except.map]

theorem Rejects.runOn (hread : Rejects read first) :
    ∃ error, Codec.runOn read first = .error error := by
  obtain ⟨error, h⟩ := hread (Reader.ofBytes first) [] (by simp)
  exact ⟨error, by simp [Codec.runOn, h, Except.map]⟩

theorem gives_pure {post : α → Prop} (h : post value) : Gives (pure value) post := by
  intro reader rest read hread
  cases hread
  exact h

/-- What the first read gives narrows what the second has to be right for. -/
theorem Gives.andThen {middle : α → Prop} {post : β → Prop} (hread : Gives read middle)
    (hnext : ∀ value, middle value → Gives (next value) post) : Gives (read >>= next) post := by
  intro reader rest result hresult
  simp only [Bind.bind, StateT.bind] at hresult
  cases hfirst : read reader with
  | error error => simp [hfirst, Except.bind] at hresult
  | ok found =>
      simp only [hfirst, Except.bind] at hresult
      exact hnext found.1 (hread reader found.2 found.1 hfirst) found.2 rest result hresult

theorem Gives.bind {post : β → Prop} (hnext : ∀ value, Gives (next value) post) :
    Gives (read >>= next) post :=
  Gives.andThen (fun _ _ _ _ => trivial) fun value (_ : True) => hnext value

theorem Gives.runOn {post : α → Prop} (hread : Gives read post) {stored : Bytes}
    (h : Codec.runOn read stored = .ok value) : post value := by
  rw [Codec.runOn] at h
  cases hrun : read (Reader.ofBytes stored) with
  | error error => simp [hrun, Except.map] at h
  | ok found =>
      simp only [hrun, Except.map, Except.ok.injEq] at h
      exact hread _ found.2 value (by rw [hrun, ← h])

end Combinators

/-! ### Round trips of the primitive fields -/

theorem decodes_u8 (value : UInt8) : Decodes u8 (Writer.u8 value) value := by
  intro reader tail hrest
  simp only [Writer.u8, List.cons_append, List.nil_append] at hrest
  simp [u8, hrest, Writer.u8]

theorem decodes_boolean (value : Bool) : Decodes boolean (Writer.boolean value) value := by
  have h := (decodes_u8 (if value then 1 else 0)).map fun byte => byte != 0
  cases value <;> exact h

/-- One turn of the reader's loop on the byte in front of it. -/
theorem Decodes.varintLoop_cons {fuel : Nat} {value shift result : UInt64} {byte : UInt8}
    {bytes : Bytes} (hshift : shift.toNat ≤ 63)
    (hnext : Decodes
      (if byte &&& 0x80 = 0 then pure (value ||| ((byte &&& 0x7F).toUInt64 <<< shift))
        else varintLoop fuel (value ||| ((byte &&& 0x7F).toUInt64 <<< shift)) (shift + 7))
      bytes result) :
    Decodes (varintLoop (fuel + 1) value shift) (byte :: bytes) result := by
  refine (decodes_u8 byte).bind ?_
  have hfits : ¬ 63 < shift := fun h => absurd (UInt64.lt_iff_toNat_lt.mp h) (not_lt.mpr hshift)
  simpa only [if_neg hfits] using hnext

theorem toNat_and_low (byte : UInt8) : (byte &&& 0x7F).toUInt64.toNat = byte.toNat % 128 := by
  simpa using Nat.and_two_pow_sub_one_eq_mod byte.toNat 7

theorem and_high_eq_zero_iff (byte : UInt8) : byte &&& 0x80 = 0 ↔ byte.toNat < 128 := by
  have hall : ∀ n < 256, n &&& 128 = 0 ↔ n < 128 := by decide +kernel
  rw [← UInt8.toNat_inj]
  simpa using hall byte.toNat byte.toNat_lt

/-- The byte the writer emits while more follow: seven bits of the value under
the continuation bit. -/
theorem more_byte (value : UInt64) :
    (((value &&& 0x7F) ||| 0x80).toUInt8).toNat = value.toNat % 128 + 128 := by
  have hlow : value.toNat &&& 127 = value.toNat % 128 :=
    Nat.and_two_pow_sub_one_eq_mod value.toNat 7
  have hall : ∀ n < 128, (n ||| 128) % 256 = n + 128 := by decide +kernel
  have hbyte : (((value &&& 0x7F) ||| 0x80).toUInt8).toNat = (value.toNat &&& 127 ||| 128) % 256 :=
    rfl
  rw [hbyte, hlow, hall _ (Nat.mod_lt _ (by decide))]

/-! ### Numbers of seven-bit groups -/

/-- The number that groups spell, the lowest first. -/
def groupsValue : Bytes → Nat
  | [] => 0
  | byte :: rest => byte.toNat % 128 + 128 * groupsValue rest

/-- The groups of one number: each but the last says that more follow. -/
inductive Groups : Bytes → Prop
  | last {byte : UInt8} (hlast : byte.toNat < 128) : Groups [byte]
  | more {byte : UInt8} {rest : Bytes} (hmore : 128 ≤ byte.toNat) (hrest : Groups rest) :
    Groups (byte :: rest)

theorem Groups.length_pos {groups : Bytes} (h : Groups groups) : 0 < groups.length := by
  cases h with
  | last hlast => exact Nat.one_pos
  | more hmore hrest => exact Nat.succ_pos _

/-- A group shifted behind the bits so far, less what no longer fits. -/
theorem or_shiftLeft_eq {value group : UInt64} {bits : Nat} (hbits : bits < 64)
    (hvalue : value.toNat < 2 ^ bits) : value ||| (group <<< UInt64.ofNat bits) =
      UInt64.ofNat (value.toNat + 2 ^ bits * group.toNat) := by
  have hcount : (UInt64.ofNat bits).toNat % 64 = bits := by
    rw [UInt64.toNat_ofNat']
    omega
  have hwidth : 2 ^ 64 = 2 ^ bits * 2 ^ (64 - bits) := by
    rw [← pow_add]
    congr 1
    omega
  have hkept : group.toNat <<< bits % 2 ^ 64 = (group.toNat % 2 ^ (64 - bits)) <<< bits := by
    rw [Nat.shiftLeft_eq, Nat.shiftLeft_eq, hwidth, mul_comm group.toNat, Nat.mul_mod_mul_left,
      mul_comm]
  have hfits : value.toNat + 2 ^ bits * (group.toNat % 2 ^ (64 - bits)) < 2 ^ 64 := by
    have hlow : group.toNat % 2 ^ (64 - bits) + 1 ≤ 2 ^ (64 - bits) := Nat.mod_lt _ (by positivity)
    have hmost := Nat.mul_le_mul_left (2 ^ bits) hlow
    rw [← hwidth, Nat.mul_add, Nat.mul_one] at hmost
    omega
  have hdropped : value.toNat + 2 ^ bits * group.toNat =
      value.toNat + 2 ^ bits * (group.toNat % 2 ^ (64 - bits)) +
        2 ^ 64 * (group.toNat / 2 ^ (64 - bits)) := by
    conv_lhs => rw [← Nat.mod_add_div group.toNat (2 ^ (64 - bits))]
    rw [hwidth]
    ring
  apply UInt64.toNat_inj.mp
  rw [UInt64.toNat_or, UInt64.toNat_shiftLeft, hcount, hkept, Nat.or_comm,
    ← Nat.shiftLeft_add_eq_or_of_lt hvalue, Nat.shiftLeft_eq, UInt64.toNat_ofNat', hdropped,
    Nat.add_mul_mod_self_left, Nat.mod_eq_of_lt hfits, mul_comm _ (2 ^ bits), Nat.add_comm]

/-- The loop reads the groups of a number, and keeps what fits of it. -/
theorem Groups.decodes {groups : Bytes} (h : Groups groups) {fuel : Nat} {value : UInt64} {bits : Nat}
    (hfuel : groups.length ≤ fuel) (hbits : bits + 7 * groups.length ≤ 70)
    (hvalue : value.toNat < 2 ^ bits) :
    Decodes (varintLoop fuel value (UInt64.ofNat bits)) groups
      (UInt64.ofNat (value.toNat + 2 ^ bits * groupsValue groups)) := by
  induction h generalizing fuel value bits with
  | @last byte hlast =>
      obtain ⟨fuel, rfl⟩ := Nat.exists_eq_succ_of_ne_zero (Nat.one_le_iff_ne_zero.mp hfuel)
      rw [List.length_singleton] at hbits
      have hcount : (UInt64.ofNat bits).toNat ≤ 63 := by
        rw [UInt64.toNat_ofNat', Nat.mod_eq_of_lt (by omega)]
        omega
      refine Decodes.varintLoop_cons hcount ?_
      rw [if_pos ((and_high_eq_zero_iff _).mpr hlast), or_shiftLeft_eq (by omega) hvalue,
        toNat_and_low, groupsValue, groupsValue, Nat.mul_zero, Nat.add_zero]
      exact decodes_pure _
  | @more byte rest hmore hrest ih =>
      have hpos := hrest.length_pos
      rw [List.length_cons] at hfuel hbits
      obtain ⟨fuel, rfl⟩ : ∃ more, fuel = more + 1 := ⟨fuel - 1, by omega⟩
      have hcount : (UInt64.ofNat bits).toNat = bits := by
        rw [UInt64.toNat_ofNat', Nat.mod_eq_of_lt (by omega)]
      have hshift : UInt64.ofNat bits + 7 = UInt64.ofNat (bits + 7) := by
        apply UInt64.toNat_inj.mp
        rw [UInt64.toNat_add, hcount, UInt64.toNat_ofNat']
        rfl
      have hwidth : 2 ^ (bits + 7) = 2 ^ bits * 128 := pow_add 2 bits 7
      have hlow : byte.toNat % 128 ≤ 127 := Nat.le_of_lt_succ (Nat.mod_lt _ (by decide))
      have hmost := Nat.mul_le_mul_left (2 ^ bits) hlow
      have hsmall : value.toNat + 2 ^ bits * (byte.toNat % 128) < 2 ^ (bits + 7) := by omega
      have hinside : 2 ^ (bits + 7) ≤ 2 ^ 64 := Nat.pow_le_pow_right (by decide) (by omega)
      have hnext : (UInt64.ofNat (value.toNat + 2 ^ bits * (byte.toNat % 128))).toNat =
          value.toNat + 2 ^ bits * (byte.toNat % 128) := by
        rw [UInt64.toNat_ofNat', Nat.mod_eq_of_lt (by omega)]
      refine Decodes.varintLoop_cons (by omega) ?_
      rw [if_neg (by rw [and_high_eq_zero_iff]; omega), or_shiftLeft_eq (by omega) hvalue,
        toNat_and_low, hshift]
      have hread := @ih fuel (UInt64.ofNat (value.toNat + 2 ^ bits * (byte.toNat % 128))) (bits + 7)
        (by omega) (by omega) (by rw [hnext]; exact hsmall)
      rw [hnext] at hread
      have hsum : value.toNat + 2 ^ bits * groupsValue (byte :: rest) =
          value.toNat + 2 ^ bits * (byte.toNat % 128) + 2 ^ (bits + 7) * groupsValue rest := by
        rw [groupsValue, hwidth]
        ring
      rw [hsum]
      exact hread

/-- Ten groups at most are read as what fits of their number. -/
theorem Groups.decodes_varint {groups : Bytes} (h : Groups groups) (hlength : groups.length ≤ 10) :
    Decodes varint groups (UInt64.ofNat (groupsValue groups)) := by
  have hdecodes := @Groups.decodes groups h 11 0 0 (by omega) (by omega) (by decide)
  have hvalue : (0 : UInt64).toNat + 2 ^ 0 * groupsValue groups = groupsValue groups := by simp
  rwa [hvalue] at hdecodes

/-- A number below 128 is its own group. -/
theorem groups_singleton {value : UInt64} (hsmall : value.toNat < 128) :
    Groups [value.toUInt8] ∧ groupsValue [value.toUInt8] = value.toNat := by
  have hbyte : value.toUInt8.toNat = value.toNat := by
    rw [UInt64.toNat_toUInt8]
    omega
  refine ⟨.last (hbyte ▸ hsmall), ?_⟩
  rw [groupsValue, groupsValue, hbyte]
  omega

/-- The writer emits the groups of its number. -/
theorem groups_varintLoop {fuel : Nat} {value : UInt64} (hvalue : value.toNat < 128 ^ (fuel + 1)) :
    Groups (Writer.varintLoop fuel value) ∧
      groupsValue (Writer.varintLoop fuel value) = value.toNat ∧
      (Writer.varintLoop fuel value).length ≤ fuel + 1 := by
  induction fuel generalizing value with
  | zero =>
      obtain ⟨hgroups, hnumber⟩ := groups_singleton (by simpa using hvalue)
      exact ⟨hgroups, hnumber, le_refl _⟩
  | succ fuel ih =>
      rw [Writer.varintLoop]
      split_ifs with hmore
      · have hshifted : (value >>> 7).toNat = value.toNat / 128 := by
          simp [UInt64.toNat_shiftRight, Nat.shiftRight_eq_div_pow]
        have hrest : (value >>> 7).toNat < 128 ^ (fuel + 1) := by
          rw [hshifted]
          exact Nat.div_lt_of_lt_mul (by rwa [pow_succ, mul_comm] at hvalue)
        obtain ⟨hgroups, hnumber, hlength⟩ := ih hrest
        refine ⟨.more (by rw [more_byte]; omega) hgroups, ?_, Nat.succ_le_succ hlength⟩
        rw [groupsValue, more_byte, hnumber, hshifted]
        omega
      · have hsmall : value.toNat < 128 := by
          by_contra hlarge
          exact hmore (UInt64.le_iff_toNat_le.mpr (not_lt.mp hlarge))
        obtain ⟨hgroups, hnumber⟩ := groups_singleton hsmall
        exact ⟨hgroups, hnumber, Nat.succ_le_succ (Nat.zero_le _)⟩

theorem decodes_varint (value : UInt64) : Decodes varint (Writer.varint value) value := by
  obtain ⟨hgroups, hnumber, hlength⟩ := @groups_varintLoop 9 value
    (lt_of_lt_of_le value.toNat_lt (by decide))
  have hread := hgroups.decodes_varint hlength
  rwa [hnumber, UInt64.ofNat_toNat] at hread

/-! ### Strings -/

theorem decodes_string (value : Text) : Decodes string (Writer.string value) value := by
  refine (decodes_varint value.size).bind ?_
  intro reader tail hrest
  simp only [hrest, value.toNat_size]
  rw [if_neg (by simp)]
  simp

theorem Writer.varintLoop_ne_nil (fuel : Nat) (value : UInt64) : varintLoop fuel value ≠ [] := by
  cases fuel with
  | zero => simp [varintLoop]
  | succ fuel =>
      rw [varintLoop]
      split <;> simp

theorem Writer.varint_ne_nil (value : UInt64) : varint value ≠ [] := varintLoop_ne_nil 9 value

theorem Writer.string_ne_nil (value : Text) : string value ≠ [] := by
  simp [string, Writer.varint_ne_nil]

theorem Writer.boolean_ne_nil (value : Bool) : boolean value ≠ [] := by
  simp [boolean, u8]

/-! ### Counted loops -/

/-- A loop over `count` fields, carrying what was read so far. -/
def repeated {σ : Type} (body : σ → Read σ) : Nat → σ → Read σ
  | 0, state => pure state
  | count + 1, state => body state >>= repeated body count

/-- A loop over written items reads them back in order. -/
theorem decodes_repeated {σ α : Type} {body : σ → Read σ} {write : α → Bytes} {next : σ → α → σ}
    {items : List α}
    (hbody : ∀ item ∈ items, ∀ state, Decodes (body state) (write item) (next state item))
    (state : σ) :
    Decodes (repeated body items.length state) (items.flatMap write) (items.foldl next state) := by
  induction items generalizing state with
  | nil => exact decodes_pure state
  | cons item rest ih =>
      exact (hbody item (by simp) state).bind
        (ih (fun other hother => hbody other (by simp [hother])) (next state item))

/-- Exactly `count` entries, in order. -/
def entries {α : Type} (read : Read α) :
    (count : Nat) → Read {items : List α // items.length = count}
  | 0 => pure ⟨[], rfl⟩
  | count + 1 => do
    let head ← read
    let rest ← entries read count
    pure ⟨head :: rest.1, congrArg (· + 1) rest.2⟩

/-- A container sized from the record before a byte of it is read. -/
def vector {α : Type} (read : Read α) (count : UInt64) : Read (Sized α) := do
  let items ← entries read count.toNat
  pure ⟨items.1, lt_of_eq_of_lt items.2 count.toNat_lt⟩

section Vectors

variable {α β : Type} {read : Read β} {write : α → Bytes} {reread : α → β}

/-- Written entries are read back in order, each as what its own read gives. -/
theorem decodes_entries {items : List α} {count : Nat} (hcount : items.length = count)
    (hread : ∀ item ∈ items, Decodes read (write item) (reread item)) :
    Decodes (entries read count) (items.flatMap write)
      ⟨items.map reread, (List.length_map reread).trans hcount⟩ := by
  subst hcount
  induction items with
  | nil => exact decodes_pure _
  | cons item rest ih =>
      have htail := ih fun other hother => hread other (by simp [hother])
      let extend (tail : {items : List β // items.length = rest.length}) :
          {items : List β // items.length = (item :: rest).length} :=
        ⟨reread item :: tail.1, congrArg (· + 1) tail.2⟩
      exact (hread item (by simp)).bind (htail.map extend)

theorem decodes_vector {container : Sized α}
    (hread : ∀ item ∈ container.items, Decodes read (write item) (reread item)) :
    Decodes (vector read container.size) (container.items.flatMap write)
      (container.map reread) := by
  let sized (items : {items : List β // items.length = container.size.toNat}) : Sized β :=
    ⟨items.1, lt_of_eq_of_lt items.2 container.size.toNat_lt⟩
  exact (decodes_entries container.toNat_size.symm hread).map sized

/-- An unreadable entry behind readable ones fails the whole list. -/
theorem rejects_entries {front rest : List α} {bad : α} {count : Nat}
    (hcount : (front ++ bad :: rest).length = count)
    (hfront : ∀ item ∈ front, Decodes read (write item) (reread item))
    (hbad : Rejects read (write bad)) :
    Rejects (entries read count) ((front ++ bad :: rest).flatMap write) := by
  subst hcount
  induction front with
  | nil => exact hbad.bind.append
  | cons item front ih =>
      exact (hfront item (by simp)).bind_rejects
        (ih fun other hother => hfront other (by simp [hother])).bind

theorem rejects_vector {container : Sized α} {front rest : List α} {bad : α}
    (hitems : container.items = front ++ bad :: rest)
    (hfront : ∀ item ∈ front, Decodes read (write item) (reread item))
    (hbad : Rejects read (write bad)) :
    Rejects (vector read container.size) (container.items.flatMap write) := by
  have hcount : container.size.toNat = (front ++ bad :: rest).length := by
    rw [container.toNat_size, hitems]
  rw [hitems]
  exact (rejects_entries hcount.symm hfront hbad).bind

end Vectors

end MonoBucket.Codec
