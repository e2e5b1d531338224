import Mathlib.Algebra.Group.Nat.Defs
import Mathlib.Order.Defs.LinearOrder
import Mathlib.Data.List.Basic

/-!
# Words and target memory

`u64` is `UInt64`. The unchecked `+`, `-` and `*` of the source wrap, as in a
release build; `checkedAdd`, `saturatingSub` and the rest are the source's
methods of those names. `Memory` is what `remoteprocess::ProcessMemory` reads
at one instant. The crate is not part of the repository, so its read is a
parameter: a copy gives as many bytes as it was asked for, or fails. What more
is known of it is `Memory.Reads`, assumed where a result rests on the bytes.
-/

namespace StSpy

/-! ## Unsigned words -/

/-- `UInt64` with its own comparisons, as a linear order. -/
instance linearOrderUInt64 : LinearOrder UInt64 where
  le_refl := UInt64.le_refl
  le_trans _ _ _ := UInt64.le_trans
  lt_iff_le_not_ge _ _ := by grind
  le_antisymm _ _ := UInt64.le_antisymm
  le_total := UInt64.le_total
  toDecidableLE := inferInstance
  toDecidableLT := inferInstance
  toDecidableEq := inferInstance
  min_def _ _ := rfl
  max_def _ _ := rfl

def checkedAdd (a b : UInt64) : Option UInt64 :=
  if a.toNat + b.toNat < 2 ^ 64 then some (a + b) else none

def checkedSub (a b : UInt64) : Option UInt64 :=
  if b ≤ a then some (a - b) else none

def checkedMul (a b : UInt64) : Option UInt64 :=
  if a.toNat * b.toNat < 2 ^ 64 then some (a * b) else none

def saturatingAdd (a b : UInt64) : UInt64 := (checkedAdd a b).getD 0xffffffffffffffff

def saturatingSub (a b : UInt64) : UInt64 := (checkedSub a b).getD 0

/-- `addr & !0x7`. -/
def alignDown (addr : UInt64) : UInt64 := addr &&& ~~~7

theorem toNat_add_of_lt {a b : UInt64} (h : a.toNat + b.toNat < 2 ^ 64) :
    (a + b).toNat = a.toNat + b.toNat := by
  rw [UInt64.toNat_add, Nat.mod_eq_of_lt h]

theorem checkedAdd_eq_some {a b c : UInt64} :
    checkedAdd a b = some c ↔ a.toNat + b.toNat < 2 ^ 64 ∧ c.toNat = a.toNat + b.toNat := by
  unfold checkedAdd
  split
  · rename_i h
    rw [Option.some.injEq, ← UInt64.toNat_inj, toNat_add_of_lt h]
    exact ⟨fun e => ⟨h, e.symm⟩, fun e => e.2.symm⟩
  · rename_i h
    exact ⟨nofun, fun e => absurd e.1 h⟩

theorem checkedSub_eq_some {a b c : UInt64} :
    checkedSub a b = some c ↔ b.toNat ≤ a.toNat ∧ c.toNat = a.toNat - b.toNat := by
  unfold checkedSub
  split
  · rename_i h
    rw [Option.some.injEq, ← UInt64.toNat_inj, UInt64.toNat_sub_of_le a b h]
    exact ⟨fun e => ⟨UInt64.le_iff_toNat_le.mp h, e.symm⟩, fun e => e.2.symm⟩
  · rename_i h
    rw [UInt64.le_iff_toNat_le] at h
    exact ⟨nofun, fun e => absurd e.1 h⟩

theorem checkedMul_eq_some {a b c : UInt64} :
    checkedMul a b = some c ↔ a.toNat * b.toNat < 2 ^ 64 ∧ c.toNat = a.toNat * b.toNat := by
  unfold checkedMul
  split
  · rename_i h
    rw [Option.some.injEq, ← UInt64.toNat_inj, UInt64.toNat_mul, Nat.mod_eq_of_lt h]
    exact ⟨fun e => ⟨h, e.symm⟩, fun e => e.2.symm⟩
  · rename_i h
    exact ⟨nofun, fun e => absurd e.1 h⟩

theorem saturatingSub_toNat (a b : UInt64) : (saturatingSub a b).toNat = a.toNat - b.toNat := by
  unfold saturatingSub checkedSub
  split
  · rename_i h
    rw [Option.getD_some, UInt64.toNat_sub_of_le a b h]
  · rename_i h
    rw [UInt64.le_iff_toNat_le, Nat.not_le] at h
    simp
    omega

theorem le_saturatingAdd (a b : UInt64) : a ≤ saturatingAdd a b := by
  have ha := a.toNat_lt
  unfold saturatingAdd checkedAdd
  split
  · rename_i h
    rw [Option.getD_some, UInt64.le_iff_toNat_le, toNat_add_of_lt h]
    omega
  · rw [Option.getD_none, UInt64.le_iff_toNat_le]
    show a.toNat ≤ 2 ^ 64 - 1
    omega

theorem alignDown_toNat (a : UInt64) : (alignDown a).toNat = a.toNat / 8 * 8 := by
  have hm : (alignDown a).toNat = a.toNat &&& ((2 ^ 61 - 1) <<< 3) := rfl
  have hs : a.toNat / 8 * 8 = (a.toNat >>> 3) <<< 3 := by
    rw [Nat.shiftLeft_eq, Nat.shiftRight_eq_div_pow]
  have hlt : a.toNat < 2 ^ 64 := a.toNat_lt
  rw [hm, hs]
  apply Nat.eq_of_testBit_eq
  intro i
  rw [Nat.testBit_and, Nat.testBit_shiftLeft, Nat.testBit_shiftLeft, Nat.testBit_shiftRight,
    Nat.testBit_two_pow_sub_one]
  by_cases hi : 3 ≤ i
  · have hback : 3 + (i - 3) = i := by omega
    by_cases h64 : i < 64
    · have h61 : i - 3 < 61 := by omega
      simp [hi, h61, hback]
    · have hhigh : a.toNat.testBit i = false :=
        Nat.testBit_lt_two_pow (Nat.lt_of_lt_of_le hlt (Nat.pow_le_pow_right (by omega) (by omega)))
      simp [hi, hback, hhigh]
  · simp [hi]

theorem alignDown_le (a : UInt64) : alignDown a ≤ a := by
  rw [UInt64.le_iff_toNat_le, alignDown_toNat]; omega

/-! ## Reading the target -/

/-- What `Process::copy` gives at one instant: `len` bytes from an address, or
`none` for an error. -/
structure Memory where
  copy : UInt64 → Nat → Option (List UInt8)
  length_copy {addr : UInt64} {len : Nat} {bytes : List UInt8} : copy addr len = some bytes → bytes.length = len

/-- The little-endian number spelled by a byte list. -/
def leNat : List UInt8 → Nat
  | [] => 0
  | b :: bs => b.toNat + 256 * leNat bs

namespace Memory

section

variable (M : Memory) (addr : UInt64)

/-! `Process::copy_struct` at the four unsigned widths. -/

def copyU8 : Option UInt8 := (M.copy addr 1).map fun bs => UInt8.ofNat (leNat bs)

def copyU16 : Option UInt16 := (M.copy addr 2).map fun bs => UInt16.ofNat (leNat bs)

def copyU32 : Option UInt32 := (M.copy addr 4).map fun bs => UInt32.ofNat (leNat bs)

def copyU64 : Option UInt64 := (M.copy addr 8).map fun bs => UInt64.ofNat (leNat bs)

/-- The `len` bytes from the address are mapped: each can be read by itself. -/
def Mapped (len : Nat) : Prop := ∀ i < len, (M.copyU8 (addr + UInt64.ofNat i)).isSome

instance instDecidableMapped (len : Nat) : Decidable (M.Mapped addr len) :=
  inferInstanceAs (Decidable (∀ i < len, _))

/-- How a copy relates to the bytes of the target. It gives the mapped bytes
it starts with; behind the first unmapped one it may fail or leave anything in
its buffer. -/
structure Reads : Prop where
  succeeds {addr : UInt64} {len : Nat} : addr.toNat + len ≤ 2 ^ 64 → M.Mapped addr len →
    ∃ bytes, M.copy addr len = some bytes
  bytes {addr : UInt64} {len i : Nat} {bytes : List UInt8} : M.copy addr len = some bytes → i < len →
    M.Mapped addr (i + 1) → bytes[i]? = M.copyU8 (addr + UInt64.ofNat i)
  /-- An aligned word lies in one page. -/
  word {addr : UInt64} {bytes : List UInt8} : addr.toNat % 8 = 0 → M.copy addr 8 = some bytes → M.Mapped addr 8

end

variable {M : Memory}

theorem Mapped.mono {addr : UInt64} {len len' : Nat} (h : M.Mapped addr len) (hle : len' ≤ len) :
    M.Mapped addr len' := fun i hi => h i (Nat.lt_of_lt_of_le hi hle)

/-- A byte of an aligned word is given alone too. -/
theorem Reads.copyU8_of_word (h : M.Reads) {addr : UInt64} {bytes : List UInt8} (haligned : addr.toNat % 8 = 0)
    (hcopy : M.copy addr 8 = some bytes) {i : Nat} {byte : UInt8} (hi : bytes[i]? = some byte) :
    M.copyU8 (addr + UInt64.ofNat i) = some byte := by
  have hlt : i < 8 := by
    rw [← M.length_copy hcopy]
    exact (List.getElem?_eq_some_iff.mp hi).1
  rw [← h.bytes hcopy hlt ((h.word haligned hcopy).mono hlt), hi]

/-! ### Reading byte by byte -/

/-- The mapped bytes from an address, `len` at most. -/
def mappedBytes (byte : UInt64 → Option UInt8) : Nat → UInt64 → List UInt8
  | 0, _ => []
  | len + 1, addr =>
    match byte addr with
    | none => []
    | some b => b :: mappedBytes byte len (addr + 1)

variable {byte : UInt64 → Option UInt8}

theorem length_mappedBytes_le (byte : UInt64 → Option UInt8) (len : Nat) (addr : UInt64) :
    (mappedBytes byte len addr).length ≤ len := by
  induction len generalizing addr with
  | zero => exact Nat.le_refl 0
  | succ len ih =>
    rw [mappedBytes]
    cases byte addr with
    | none => exact Nat.zero_le _
    | some b => exact Nat.succ_le_succ (ih _)

theorem add_succ_ofNat (addr : UInt64) (i : Nat) :
    addr + UInt64.ofNat (i + 1) = addr + 1 + UInt64.ofNat i := by
  rw [UInt64.ofNat_add, UInt64.add_comm (UInt64.ofNat i), ← UInt64.add_assoc]
  rfl

theorem getElem?_mappedBytes {len i : Nat} {addr : UInt64} (hi : i < len)
    (h : ∀ j ≤ i, (byte (addr + UInt64.ofNat j)).isSome) :
    (mappedBytes byte len addr)[i]? = byte (addr + UInt64.ofNat i) := by
  induction len generalizing i addr with
  | zero => exact absurd hi (Nat.not_lt_zero i)
  | succ len ih =>
    have hfirst := h 0 (Nat.zero_le i)
    rw [show addr + UInt64.ofNat 0 = addr from UInt64.add_zero addr] at hfirst
    obtain ⟨b, hb⟩ := Option.isSome_iff_exists.mp hfirst
    rw [mappedBytes, hb]
    cases i with
    | zero => exact (hb ▸ congrArg byte (UInt64.add_zero addr)).symm
    | succ i =>
      rw [add_succ_ofNat, List.getElem?_cons_succ]
      refine ih (Nat.lt_of_succ_lt_succ hi) fun j hj => ?_
      rw [← add_succ_ofNat]
      exact h (j + 1) (Nat.succ_le_succ hj)

/-- The target with these bytes: a copy fails where it cannot read its first
byte, and behind the last one that it can it leaves the zeros of its buffer. -/
def ofBytes (byte : UInt64 → Option UInt8) : Memory where
  copy addr len :=
    let bytes := mappedBytes byte len addr
    if addr.toNat + len ≤ 2 ^ 64 ∧ (bytes = [] → len = 0) then
      some (bytes ++ List.replicate (len - bytes.length) 0)
    else none
  length_copy {addr len bytes} h := by
    obtain ⟨-, h⟩ := Option.ite_none_right_eq_some.mp h
    cases h
    have hle := length_mappedBytes_le byte len addr
    rw [List.length_append, List.length_replicate]
    omega

theorem copyU8_ofBytes (byte : UInt64 → Option UInt8) (addr : UInt64) : (ofBytes byte).copyU8 addr = byte addr := by
  have hend := addr.toNat_lt
  cases hbyte : byte addr with
  | none => simp [copyU8, ofBytes, mappedBytes, hbyte]
  | some b =>
    simp [copyU8, ofBytes, mappedBytes, hbyte, leNat]
    omega

/-- Where the words are mapped as a whole, this is a read as assumed. -/
theorem reads_ofBytes (h : ∀ addr addr', alignDown addr = alignDown addr' → (byte addr).isSome → (byte addr').isSome) :
    (ofBytes byte).Reads where
  succeeds {addr len} hend hmapped := by
    refine ⟨_, if_pos ⟨hend, fun hnone => ?_⟩⟩
    cases len with
    | zero => rfl
    | succ len =>
      have hfirst := hmapped 0 (Nat.succ_pos len)
      rw [copyU8_ofBytes, show addr + UInt64.ofNat 0 = addr from UInt64.add_zero addr] at hfirst
      obtain ⟨b, hb⟩ := Option.isSome_iff_exists.mp hfirst
      simp [mappedBytes, hb] at hnone
  bytes {addr len i bytes} hcopy hi hmapped := by
    obtain ⟨-, hcopy⟩ := Option.ite_none_right_eq_some.mp hcopy
    cases hcopy
    simp only [Mapped, copyU8_ofBytes] at hmapped ⊢
    have hget := getElem?_mappedBytes hi fun j hj => hmapped j (Nat.lt_succ_of_le hj)
    obtain ⟨b, hb⟩ := Option.isSome_iff_exists.mp (hmapped i (Nat.lt_succ_self i))
    rw [hb] at hget ⊢
    exact (List.getElem?_append_left (List.getElem?_eq_some_iff.mp hget).1).trans hget
  word {addr bytes} haligned hcopy i hi := by
    obtain ⟨⟨hend, hsome⟩, -⟩ := Option.ite_none_right_eq_some.mp hcopy
    rw [copyU8_ofBytes]
    have hfirst : (byte addr).isSome := by
      cases hb : byte addr with
      | none => simp [mappedBytes, hb] at hsome
      | some b => rfl
    refine h addr _ ?_ hfirst
    have hofNat : (UInt64.ofNat i).toNat = i := UInt64.toNat_ofNat_of_lt' (by show i < 2 ^ 64; omega)
    rw [← UInt64.toNat_inj, alignDown_toNat, alignDown_toNat, toNat_add_of_lt (by omega), hofNat]
    omega

/-- The memory holding the given words at the given 8-aligned addresses, and
nothing else. -/
def ofWords (ws : List (UInt64 × UInt64)) : Memory :=
  .ofBytes fun a => (ws.lookup (alignDown a)).map fun w => (w >>> (8 * (a &&& 7))).toUInt8

theorem reads_ofWords (ws : List (UInt64 × UInt64)) : (ofWords ws).Reads :=
  reads_ofBytes fun addr addr' h => by simp [h]

example : (ofWords [(16, 0x1122334455667788)]).copyU16 20 = some 0x3344 := by decide

/-- A word that runs into the unmapped 24 reads as its first half. -/
example : (ofWords [(16, 0x1122334455667788)]).copyU64 20 = some 0x11223344 := by decide

end Memory

end StSpy
