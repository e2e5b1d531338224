import StSpy.Heap

/-!
# Byte objects

A byte object keeps its length in two places: the number of its slots, in the
header or in the word before it, and the number of bytes its last slot does not
use, in the low bits of its format. `readByteObject` puts them together again.
It takes too many bits of the word before the header, but every object with
that word is longer than the texts it reads.
-/

namespace StSpy

namespace Memory

/-- The slots of an object of `n` bytes. -/
def slotsFor (n : Nat) : Nat := (n + 7) / 8

/-- The bytes of the last slot that an object of `n` bytes does not use. -/
def unusedBytes (n : Nat) : Nat := (8 - n % 8) % 8

/-- An object holding `bytes`, as the image stores it. -/
structure ByteObject (M : Memory) where
  oop : UInt64
  header : List UInt8
  bytes : List UInt8
  ne_zero : oop ≠ 0
  aligned : oop.toNat % 8 = 0
  header_read : M.copy oop 8 = some header
  format_eq : header[3]?.map (fun byte => byte.toNat % 32) = some (16 + unusedBytes bytes.length)
  slots_eq : header[7]?.map UInt8.toNat = some (min (slotsFor bytes.length) 255)
  /-- A count that does not fit in the header stands in the word before it, under a byte of ones. -/
  longHeader : 255 ≤ slotsFor bytes.length →
    ∃ word, M.copyU64 (oop - 8) = some word ∧ word.toNat = 255 * 2 ^ 56 + slotsFor bytes.length
  bytes_read : M.copy (oop + 8) bytes.length = some bytes
  reads : M.Reads

/-! ## Text -/

/-- The text of printable bytes. -/
def textOf (bytes : List UInt8) : String := String.ofList (bytes.map fun byte => Char.ofNat byte.toNat)

theorem isPrintable_lt {byte : UInt8} (h : isPrintable byte = true) : byte.toNat < 128 := by
  simp only [isPrintable, Bool.or_eq_true, Bool.and_eq_true, decide_eq_true_eq, UInt8.le_iff_toNat_le,
    ← UInt8.toNat_inj, UInt8.reduceToNat] at h
  omega

theorem utf8EncodeChar_ofByte {byte : UInt8} (h : byte.toNat < 128) :
    String.utf8EncodeChar (Char.ofNat byte.toNat) = [byte] := by
  have hval : (Char.ofNat byte.toNat).val.toNat = byte.toNat := by
    rw [Char.ofNat, dif_pos (.inl (by omega))]
    rfl
  have hsize : (Char.ofNat byte.toNat).utf8Size = 1 := by
    rw [Char.utf8Size_eq_one_iff, UInt32.le_iff_toNat_le, hval]
    exact Nat.le_of_lt_succ h
  have hbyte : (Char.ofNat byte.toNat).val.toUInt8 = byte := by
    rw [← UInt8.toNat_inj, UInt32.toNat_toUInt8, hval, Nat.mod_eq_of_lt byte.toNat_lt]
  rw [String.utf8EncodeChar_eq_singleton hsize, hbyte]

/-- The text holds the bytes it is read from. -/
theorem toUTF8_textOf {bytes : List UInt8} (h : ∀ byte ∈ bytes, isPrintable byte = true) :
    (textOf bytes).toUTF8.data.toList = bytes := by
  have hencoded : (textOf bytes).toUTF8.data.toList =
      bytes.flatMap fun byte => String.utf8EncodeChar (Char.ofNat byte.toNat) := by
    simp [textOf, List.utf8Encode, List.flatMap_map]
  rw [hencoded]
  clear hencoded
  induction bytes with
  | nil => rfl
  | cons byte bytes ih =>
    rw [List.flatMap_cons, utf8EncodeChar_ofByte (isPrintable_lt (h byte List.mem_cons_self)),
      ih fun other hother => h other (List.mem_cons_of_mem byte hother), List.singleton_append]

/-! ## The length of an object -/

theorem slots_unused (n : Nat) : slotsFor n * 8 = n + unusedBytes n := by
  unfold slotsFor unusedBytes
  omega

namespace ByteObject

variable {M : Memory} (O : M.ByteObject)

theorem isHeapObject_oop : isHeapObject O.oop = true := by
  have htag : (O.oop &&& tagMask) = 0 := by
    rw [← UInt64.toNat_inj, UInt64.toNat_and]
    exact (Nat.and_two_pow_sub_one_eq_mod _ 3).trans O.aligned
  simp [isHeapObject, O.ne_zero, htag]

/-- The bytes of the header are read alone too. -/
theorem header_byte {i : Nat} {byte : UInt8} (h : O.header[i]? = some byte) :
    M.copyU8 (O.oop + UInt64.ofNat i) = some byte := O.reads.copyU8_of_word O.aligned O.header_read h

/-- The format, with the low bits counting unused bytes. -/
theorem format_read :
    ∃ byte, O.header[3]? = some byte ∧ (byte &&& formatMask).toNat = 16 + unusedBytes O.bytes.length := by
  obtain ⟨byte, hbyte, hformat⟩ := Option.map_eq_some_iff.mp O.format_eq
  have hmask : (byte &&& formatMask).toNat = byte.toNat % 32 := by
    rw [UInt8.toNat_and]
    exact Nat.and_two_pow_sub_one_eq_mod _ 5
  exact ⟨byte, hbyte, hmask.trans hformat⟩

/-- The number of slots, where it stands in the header. -/
theorem numSlots_short (h : slotsFor O.bytes.length < 255) :
    ∃ slots, M.numSlots O.oop = some slots ∧ slots.toNat = slotsFor O.bytes.length := by
  obtain ⟨byte, hbyte, hslots⟩ := Option.map_eq_some_iff.mp O.slots_eq
  rw [Nat.min_eq_left (by omega)] at hslots
  have hread : M.copyU8 (O.oop + numSlotsFieldByteOffset) = some byte := O.header_byte hbyte
  have hmask : byte ≠ numSlotsMask := by
    rintro rfl
    exact absurd hslots (by rw [show numSlotsMask.toNat = 255 from rfl]; omega)
  refine ⟨byte.toUInt64, ?_, hslots⟩
  simp [numSlots, O.isHeapObject_oop, hread, hmask]

/-- The number of slots read from the word before the header is wrong, and
more than any text has. -/
theorem numSlots_long (h : 255 ≤ slotsFor O.bytes.length) :
    ∃ slots, M.numSlots O.oop = some slots ∧ 255 * 2 ^ 48 ≤ slots.toNat := by
  obtain ⟨byte, hbyte, hslots⟩ := Option.map_eq_some_iff.mp O.slots_eq
  rw [Nat.min_eq_right h] at hslots
  have hread : M.copyU8 (O.oop + numSlotsFieldByteOffset) = some byte := O.header_byte hbyte
  have hmask : byte = numSlotsMask := UInt8.toNat_inj.mp hslots
  obtain ⟨word, hword, hcount⟩ := O.longHeader h
  refine ⟨word >>> 8, ?_, ?_⟩
  · have hlong : M.copyU64 (O.oop - baseHeaderSize) = some word := hword
    simp [numSlots, O.isHeapObject_oop, hread, hmask, hlong]
  · rw [UInt64.toNat_shiftRight]
    show 255 * 2 ^ 48 ≤ word.toNat >>> 8
    rw [Nat.shiftRight_eq_div_pow, hcount]
    omega

/-- What is read once the number of slots is known. -/
theorem readByteObject_of_slots {slots : UInt64} (hslots : M.numSlots O.oop = some slots) :
    ∃ unused : UInt64, unused.toNat = unusedBytes O.bytes.length ∧
      M.readByteObject O.oop = (checkedMul slots wordSize).bind fun words =>
        (checkedSub words unused).bind fun byteSize =>
          if byteSize = 0 ∨ byteSize > 512 then none
          else (M.copy (O.oop + baseHeaderSize) byteSize.toNat).bind fun bytes =>
            if bytes.all isPrintable then some (textOf bytes) else none := by
  obtain ⟨byte, hbyte, hformat⟩ := O.format_read
  have hunused : unusedBytes O.bytes.length < 8 := Nat.mod_lt _ (by omega)
  have hlow : firstByteFormat ≤ byte &&& formatMask := by
    rw [UInt8.le_iff_toNat_le, hformat]
    exact Nat.le_add_right 16 _
  have hhigh : byte &&& formatMask < firstCompiledMethodFormat := by
    rw [UInt8.lt_iff_toNat_lt, hformat]
    show 16 + unusedBytes O.bytes.length < 24
    omega
  refine ⟨((byte &&& formatMask) &&& 7).toUInt64, ?_, ?_⟩
  · rw [UInt8.toNat_toUInt64, UInt8.toNat_and, hformat]
    refine (Nat.and_two_pow_sub_one_eq_mod _ 3).trans ?_
    omega
  · have hcopy : M.copy O.oop baseHeaderSize.toNat = some O.header := O.header_read
    have hfield : O.header[formatFieldByteOffset.toNat]? = some byte := hbyte
    unfold readByteObject
    simp only [O.isHeapObject_oop, hcopy, hfield, hslots, hlow, hhigh, Option.map_some, Option.bind_eq_bind,
      Option.bind_some, and_self, if_true]
    rfl

theorem readByteObject_short (h : slotsFor O.bytes.length < 255) :
    M.readByteObject O.oop =
      if O.bytes.length = 0 ∨ 512 < O.bytes.length then none
      else if O.bytes.all isPrintable then some (textOf O.bytes) else none := by
  obtain ⟨slots, hslots, hcount⟩ := O.numSlots_short h
  obtain ⟨unused, hunused, hread⟩ := O.readByteObject_of_slots hslots
  have hlength := slots_unused O.bytes.length
  have hmul : checkedMul slots wordSize = some (slots * wordSize) := if_pos (by
    rw [hcount, show wordSize.toNat = 8 from rfl]
    omega)
  have hwords : (slots * wordSize).toNat = slotsFor O.bytes.length * 8 := by
    rw [UInt64.toNat_mul, hcount, show wordSize.toNat = 8 from rfl, Nat.mod_eq_of_lt (by omega)]
  have hle : unused ≤ slots * wordSize := by
    rw [UInt64.le_iff_toNat_le]
    omega
  have hsize : (slots * wordSize - unused).toNat = O.bytes.length := by
    rw [UInt64.toNat_sub_of_le _ _ hle]
    omega
  have hzero : slots * wordSize - unused = 0 ↔ O.bytes.length = 0 := by
    rw [← UInt64.toNat_inj, hsize]
    rfl
  have hlong : slots * wordSize - unused > 512 ↔ 512 < O.bytes.length := by
    rw [gt_iff_lt, UInt64.lt_iff_toNat_lt, hsize]
    rfl
  have hbytes : M.copy (O.oop + baseHeaderSize) O.bytes.length = some O.bytes := O.bytes_read
  simp only [hread, hmul, checkedSub, if_pos hle, Option.bind_some, hzero, hlong, hsize, hbytes]

theorem readByteObject_long (h : 255 ≤ slotsFor O.bytes.length) : M.readByteObject O.oop = none := by
  obtain ⟨slots, hslots, hcount⟩ := O.numSlots_long h
  obtain ⟨unused, hunused, hread⟩ := O.readByteObject_of_slots hslots
  have hunused : unusedBytes O.bytes.length < 8 := Nat.mod_lt _ (by omega)
  rw [hread, Option.bind_eq_none_iff]
  intro words hwords
  rw [Option.bind_eq_none_iff]
  intro byteSize hsize
  obtain ⟨-, hwords⟩ := checkedMul_eq_some.mp hwords
  obtain ⟨-, hsize⟩ := checkedSub_eq_some.mp hsize
  rw [show wordSize.toNat = 8 from rfl] at hwords
  have hlong : byteSize > 512 := by
    rw [gt_iff_lt, UInt64.lt_iff_toNat_lt]
    show 512 < byteSize.toNat
    omega
  exact if_pos (.inr hlong)

/-- A byte object reads as the text it holds exactly when that is short,
printable and not empty. -/
theorem readByteObject_eq :
    (M.readByteObject O.oop).map (fun text => text.toUTF8.data.toList) =
      if 1 ≤ O.bytes.length ∧ O.bytes.length ≤ 512 ∧ O.bytes.all isPrintable = true then some O.bytes
      else none := by
  rcases Nat.lt_or_ge (slotsFor O.bytes.length) 255 with hshort | hlong
  · rw [O.readByteObject_short hshort]
    by_cases hlen : O.bytes.length = 0 ∨ 512 < O.bytes.length
    · rw [if_pos hlen, if_neg (by omega)]
      rfl
    · rw [if_neg hlen]
      by_cases hprintable : O.bytes.all isPrintable = true
      · rw [if_pos hprintable, if_pos ⟨by omega, by omega, hprintable⟩, Option.map_some,
          toUTF8_textOf (List.all_eq_true.mp hprintable)]
      · rw [if_neg hprintable, if_neg fun h => hprintable h.2.2]
        rfl
  · have hlength := slots_unused O.bytes.length
    have hunused : unusedBytes O.bytes.length < 8 := Nat.mod_lt _ (by omega)
    rw [O.readByteObject_long hlong, if_neg (by omega)]
    rfl

/-- The object for `Hello` at 0x1000. -/
def hello : (ofWords [(0x1000, 0x0100000013000000), (0x1008, 0x6f6c6c6548)]).ByteObject where
  oop := 0x1000
  header := [0, 0, 0, 0x13, 0, 0, 0, 1]
  bytes := [0x48, 0x65, 0x6c, 0x6c, 0x6f]
  ne_zero := by decide
  aligned := by decide
  header_read := by decide
  format_eq := by decide
  slots_eq := by decide
  longHeader := by decide
  bytes_read := by decide
  reads := reads_ofWords _

theorem readByteObject_eq_hello :
    ((ofWords [(0x1000, 0x0100000013000000), (0x1008, 0x6f6c6c6548)]).readByteObject 0x1000).map
      (fun text => text.toUTF8.data.toList) = some [0x48, 0x65, 0x6c, 0x6c, 0x6f] :=
  hello.readByteObject_eq.trans (if_pos ⟨by decide, by decide, by decide⟩)

end ByteObject

end Memory

end StSpy
