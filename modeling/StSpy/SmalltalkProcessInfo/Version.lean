import StSpy.SmalltalkProcessInfo

/-!
# The version string

A C string is read exactly as it lies in the target's memory, and the version is
that of the first of four places that holds a version string: where each of two
symbols points to, and the symbol itself.
-/

namespace StSpy

namespace Memory

variable (M : Memory)

def BytesAt (addr : UInt64) (bytes : List UInt8) : Prop :=
  ∀ i byte, bytes[i]? = some byte → M.copyU8 (addr + UInt64.ofNat i) = some byte

/-- `bytes` lie at `addr`, none of them zero, and a zero is behind them unless
there are `turns` of them. -/
structure ZeroTerminated (turns : Nat) (addr : UInt64) (bytes : List UInt8) : Prop where
  length_le : bytes.length ≤ turns
  nonzero : 0 ∉ bytes
  at_addr : M.BytesAt addr bytes
  ended : bytes.length = turns ∨ M.copyU8 (addr + UInt64.ofNat bytes.length) = some 0

/-- A text that is not empty, as a C string of which no more than the first bytes
are looked at. -/
structure CString (addr : UInt64) (text : String) : Prop where
  ne_empty : text ≠ ""
  terminated : M.ZeroTerminated cStringLimit addr text.toByteArray.data.toList

variable {M} {addr : UInt64} {bytes : List UInt8} {byte : UInt8} {turns : Nat} {text : String}

theorem bytesAt_cons : M.BytesAt addr (byte :: bytes) ↔ M.copyU8 addr = some byte ∧ M.BytesAt (addr + 1) bytes := by
  have hshift : ∀ i, addr + UInt64.ofNat (i + 1) = addr + 1 + UInt64.ofNat i := by
    intro i
    rw [UInt64.ofNat_add, UInt64.add_assoc, UInt64.add_comm (UInt64.ofNat i)]
    rfl
  have hzero : addr + UInt64.ofNat 0 = addr := UInt64.add_zero addr
  constructor
  · intro h
    refine ⟨hzero ▸ h 0 byte rfl, fun i other hother => ?_⟩
    rw [← hshift]
    exact h (i + 1) other hother
  · rintro ⟨hfirst, hrest⟩ i other hother
    cases i with
    | zero =>
      cases hother
      rwa [hzero]
    | succ i =>
      rw [hshift]
      exact hrest i other hother

theorem zeroTerminated_cons :
    M.ZeroTerminated (turns + 1) addr (byte :: bytes) ↔
      M.copyU8 addr = some byte ∧ byte ≠ 0 ∧ M.ZeroTerminated turns (addr + 1) bytes := by
  have hend : addr + UInt64.ofNat (byte :: bytes).length = addr + 1 + UInt64.ofNat bytes.length := by
    rw [List.length_cons, UInt64.ofNat_add, UInt64.add_assoc, UInt64.add_comm (UInt64.ofNat bytes.length)]
    rfl
  constructor
  · rintro ⟨hlength, hzero, hat, hended⟩
    obtain ⟨hfirst, hrest⟩ := bytesAt_cons.mp hat
    rw [List.mem_cons, not_or] at hzero
    rw [hend, List.length_cons, Nat.add_right_cancel_iff] at hended
    exact ⟨hfirst, Ne.symm hzero.1, Nat.le_of_succ_le_succ hlength, hzero.2, hrest, hended⟩
  · rintro ⟨hfirst, hne, hlength, hzero, hat, hended⟩
    refine ⟨Nat.succ_le_succ hlength, ?_, bytesAt_cons.mpr ⟨hfirst, hat⟩, ?_⟩
    · rw [List.mem_cons, not_or]
      exact ⟨Ne.symm hne, hzero⟩
    · rwa [hend, List.length_cons, Nat.add_right_cancel_iff]

theorem zeroTerminated_nil : M.ZeroTerminated (turns + 1) addr [] ↔ M.copyU8 addr = some 0 := by
  have hzero : addr + UInt64.ofNat 0 = addr := UInt64.add_zero addr
  constructor
  · rintro ⟨-, -, -, hended⟩
    rw [List.length_nil, hzero] at hended
    exact hended.resolve_left (by omega)
  · intro h
    exact ⟨Nat.zero_le _, List.not_mem_nil, (fun _ _ hi => nomatch hi), .inr (hzero.symm ▸ h)⟩

theorem bytesToZero_eq_some_iff :
    M.bytesToZero turns addr = some bytes ↔ M.ZeroTerminated turns addr bytes := by
  induction turns generalizing addr bytes with
  | zero =>
    constructor
    · intro h
      cases h
      exact ⟨Nat.le_refl 0, List.not_mem_nil, (fun _ _ hi => nomatch hi), .inl rfl⟩
    · intro h
      rw [List.length_eq_zero_iff.mp (Nat.le_zero.mp h.length_le)]
      rfl
  | succ turns ih =>
    rw [bytesToZero]
    cases hread : M.copyU8 addr with
    | none =>
      cases bytes with
      | nil => simp [zeroTerminated_nil, hread]
      | cons byte bytes => simp [zeroTerminated_cons, hread]
    | some first =>
      by_cases hfirst : first = 0
      · subst hfirst
        cases bytes with
        | nil => simp [zeroTerminated_nil, hread]
        | cons byte bytes =>
          simp only [Option.bind_eq_bind, Option.bind_some, if_true, zeroTerminated_cons, hread, Option.some.injEq,
            List.nil_eq, List.cons_ne_nil, false_iff]
          rintro ⟨rfl, hne, -⟩
          exact hne rfl
      · cases bytes with
        | nil => simp [zeroTerminated_nil, hread, hfirst, Option.bind_eq_some_iff]
        | cons byte bytes =>
          simp only [Option.bind_eq_bind, Option.bind_some, if_neg hfirst, zeroTerminated_cons, hread,
            Option.some.injEq, ← ih]
          constructor
          · intro h
            obtain ⟨rest, hrest, h⟩ := Option.bind_eq_some_iff.mp h
            cases h
            exact ⟨rfl, hfirst, hrest⟩
          · rintro ⟨rfl, -, hrest⟩
            rw [hrest]
            rfl

theorem fromUTF8?_eq_some_iff {bytes : ByteArray} : String.fromUTF8? bytes = some text ↔ text.toByteArray = bytes := by
  unfold String.fromUTF8?
  constructor
  · intro h
    split at h
    · cases h
      rfl
    · cases h
  · rintro rfl
    rw [dif_pos text.isValidUTF8]
    rfl

/-- A C string is read exactly if it lies there. -/
theorem copyCString_eq_some_iff : M.copyCString addr = some text ↔ M.CString addr text := by
  have hempty : text = "" ↔ text.toByteArray.data.toList = [] := by
    rw [← String.toByteArray_inj, String.toByteArray_empty]
    constructor
    · intro h
      rw [h]
      rfl
    · intro h
      exact ByteArray.ext (Array.toList_inj.mp h)
  unfold copyCString
  constructor
  · intro h
    obtain ⟨bytes, hbytes, h⟩ := Option.bind_eq_some_iff.mp h
    split at h
    · cases h
    · rename_i hne
      have htext := fromUTF8?_eq_some_iff.mp h
      have hdata : text.toByteArray.data.toList = bytes := by rw [htext, List.toList_data_toByteArray]
      refine ⟨fun he => hne (hdata ▸ hempty.mp he), ?_⟩
      rw [hdata]
      exact bytesToZero_eq_some_iff.mp hbytes
  · rintro ⟨hne, hterminated⟩
    rw [bytesToZero_eq_some_iff.mpr hterminated]
    show (if _ then none else _) = _
    rw [if_neg fun h => hne (hempty.mpr h), fromUTF8?_eq_some_iff]
    exact ByteArray.ext (Array.toList_inj.mp (by rw [List.toList_data_toByteArray]))

end Memory

/-! ## The places -/

/-- The places that a symbol names: where it points to, if anywhere, and itself. -/
def placesOf (M : Memory) (addr : UInt64) : List UInt64 := ((M.copyU64 addr).filter (· ≠ 0)).toList ++ [addr]

/-- Where the version is looked for, in order. -/
def versionPlaces (binary : BinaryInfo) (M : Memory) : List UInt64 :=
  ["interpreterVersion", "__interpBuildInfo"].flatMap fun symbol =>
    (binary.symbols.lookup symbol).toList.flatMap (placesOf M)

variable {M : Memory} {binary : BinaryInfo} {version : String}

/-- A version string lies at `place`. -/
structure VersionString (M : Memory) (place : UInt64) (version : String) : Prop where
  text : M.CString place version
  isVersion : isVmVersion version = true

theorem versionAt_eq_some_iff {place : UInt64} :
    versionAt M place = some version ↔ VersionString M place version := by
  rw [versionAt, Option.filter_eq_some_iff, Memory.copyCString_eq_some_iff]
  exact ⟨fun h => ⟨h.1, h.2⟩, fun h => ⟨h.1, h.2⟩⟩

theorem versionOfSymbol_eq (M : Memory) (addr : UInt64) :
    versionOfSymbol M addr = (placesOf M addr).findSome? (versionAt M) := by
  have hlast : [addr].findSome? (versionAt M) = versionAt M addr := by
    rw [List.findSome?_cons]
    cases versionAt M addr <;> rfl
  rw [versionOfSymbol, placesOf]
  cases M.copyU64 addr with
  | none => exact hlast.symm
  | some ptr =>
    by_cases hptr : ptr = 0
    · subst hptr
      have hnone : (some (0 : UInt64)).filter (· ≠ 0) = none := by decide
      rw [hnone, Option.toList_none, List.nil_append, hlast]
      rfl
    · simp only [ne_eq, hptr, not_false_eq_true, if_true, Option.filter_some, decide_true, Option.toList_some,
        List.cons_append, List.nil_append]
      rw [List.findSome?_cons, hlast]
      cases versionAt M ptr <;> rfl

theorem readVmVersion_eq (binary : BinaryInfo) (M : Memory) :
    readVmVersion binary M = (versionPlaces binary M).findSome? (versionAt M) := by
  have hsymbol : ∀ symbol, (binary.symbols.lookup symbol).bind (versionOfSymbol M) =
      ((binary.symbols.lookup symbol).toList.flatMap (placesOf M)).findSome? (versionAt M) := by
    intro symbol
    cases binary.symbols.lookup symbol with
    | none => rfl
    | some addr => simp [versionOfSymbol_eq]
  rw [readVmVersion, versionPlaces]
  generalize ["interpreterVersion", "__interpBuildInfo"] = symbols
  induction symbols with
  | nil => rfl
  | cons symbol symbols ih =>
    rw [List.findSome?_cons, hsymbol, ih, List.flatMap_cons, List.findSome?_append]
    cases ((binary.symbols.lookup symbol).toList.flatMap (placesOf M)).findSome? (versionAt M) <;> rfl

/-- The version is that of the first place where a version string lies, and there
is none exactly if none lies anywhere. -/
theorem readVmVersion_first (binary : BinaryInfo) (M : Memory) :
    (∀ version, readVmVersion binary M = some version ↔
      ∃ before place after, versionPlaces binary M = before ++ place :: after ∧ VersionString M place version ∧
        ∀ earlier ∈ before, ∀ text, ¬VersionString M earlier text) ∧
    (readVmVersion binary M = none ↔ ∀ place ∈ versionPlaces binary M, ∀ text, ¬VersionString M place text) := by
  have hnone : ∀ place, versionAt M place = none ↔ ∀ text, ¬VersionString M place text := by
    intro place
    simp only [← versionAt_eq_some_iff]
    exact Option.eq_none_iff_forall_ne_some
  rw [readVmVersion_eq]
  constructor
  · intro version
    simp only [List.findSome?_eq_some_iff, versionAt_eq_some_iff, hnone]
  · simp only [List.findSome?_eq_none_iff, hnone]

end StSpy
