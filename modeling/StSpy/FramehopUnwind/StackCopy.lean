import StSpy.NativeStack
import Mathlib.Order.MinMax

/-!
# The copy of a stack

`capture` clamps the copy to the end of the writable mapping that the last scan
of the mappings saw around `rsp`. The copy stays in the mapping that is there
now exactly when that one reaches a whole window up, or when the scan saw one
that ends no later.
-/

namespace StSpy.FramehopUnwind

def MapRange.stop (m : MapRange) : UInt64 := m.start + m.size

def MapRange.Contains (m : MapRange) (addr : UInt64) : Prop := m.start ≤ addr ∧ addr < m.stop

/-- With these mappings in force, what is copied from `rsp` lies in the mapping of `rsp`. -/
def CopiesWithin (fh : Framehop) (live : List MapRange) (rsp : UInt64) : Prop :=
  ∀ m ∈ live, m.Contains rsp → ∀ addr, rsp ≤ addr → addr < fh.copyTop rsp → m.Contains addr

/-- The mappings that the last scan read. -/
def lastMaps (calls : List Call) : List MapRange := ((calls.filterMap (·.maps)).getLast?).getD []

/-- The writable range around `rsp` that the last scan saw. -/
def seenAround (calls : List Call) (rsp : UInt64) : Option Range :=
  (writable (lastMaps calls)).find? fun r => r.start ≤ rsp && rsp < r.stop

variable {calls : List Call} {live : List MapRange} {rsp : UInt64}

theorem loadFile_writableRanges (fh : Framehop) (maps : List MapRange) (files : String → Except String ElfFile)
    (path : String) : (fh.loadFile maps files path).writableRanges = fh.writableRanges := by
  unfold Framehop.loadFile
  simp only
  split
  · rfl
  · split <;> rfl

theorem loadFiles_writableRanges (fh : Framehop) (maps : List MapRange) (files : String → Except String ElfFile)
    (order : List String) : (fh.loadFiles maps files order).writableRanges = fh.writableRanges := by
  induction order generalizing fh with
  | nil => rfl
  | cons path order ih =>
    show ((fh.loadFile maps files path).loadFiles maps files order).writableRanges = _
    rw [ih, loadFile_writableRanges]

theorem loadModules_writableRanges (fh : Framehop) (call : Call) :
    (fh.loadModules call).writableRanges = (call.maps.map writable).getD fh.writableRanges := by
  unfold Framehop.loadModules
  cases call.maps with
  | none => rfl
  | some maps => exact loadFiles_writableRanges _ maps call.files call.order

/-- The cached ranges are those of the last scan. -/
theorem run_writableRanges (calls : List Call) :
    (Framehop.empty.run calls).writableRanges = writable (lastMaps calls) := by
  induction calls using List.reverseRecOn with
  | nil => rfl
  | append_singleton calls call ih =>
    rw [Framehop.run, List.foldl_append, List.foldl_cons, List.foldl_nil, loadModules_writableRanges, lastMaps,
      List.filterMap_append]
    cases h : call.maps with
    | none =>
      have hnothing : [call].filterMap (·.maps) = [] := by simp [h]
      rw [hnothing, List.append_nil]
      exact ih
    | some maps => simp [h]

theorem stackTopFor_run (calls : List Call) (rsp : UInt64) :
    (Framehop.empty.run calls).stackTopFor rsp = (seenAround calls rsp).map (·.stop) := by
  rw [Framehop.stackTopFor, run_writableRanges, seenAround]

/-- The copy ends at the window or earlier, at the end of the range seen. -/
theorem copyTop_le_iff (calls : List Call) (rsp stop : UInt64) :
    (Framehop.empty.run calls).copyTop rsp ≤ stop ↔
      rsp + stackCopyWindow ≤ stop ∨ ∃ seen, seenAround calls rsp = some seen ∧ seen.stop ≤ stop := by
  rw [Framehop.copyTop, stackTopFor_run]
  cases seenAround calls rsp with
  | none => simp
  | some seen => simp

/-- After any history of scans, and whatever is mapped now, the copy stays in the
mapping of `rsp` exactly when that reaches a window up or the scan saw one there
that ends no later. -/
theorem copiesWithin_iff (calls : List Call) (live : List MapRange) (rsp : UInt64) :
    CopiesWithin (Framehop.empty.run calls) live rsp ↔
      ∀ m ∈ live, m.Contains rsp →
        rsp + stackCopyWindow ≤ m.stop ∨ ∃ seen, seenAround calls rsp = some seen ∧ seen.stop ≤ m.stop := by
  refine forall₃_congr fun m _ hrsp => ?_
  rw [← copyTop_le_iff]
  constructor
  · intro h
    by_contra hlt
    -- the end of the mapping is copied too, but is not in it
    have hstop := h m.stop (le_of_lt hrsp.2) (not_le.mp hlt)
    exact absurd hstop.2 (lt_irrefl _)
  · intro hle addr hfrom hto
    exact ⟨hrsp.1.trans hfrom, lt_of_lt_of_le hto hle⟩

/-- The scans that a sequence of captures makes, `n` captures after the last one. -/
def scansOf : Nat → List Call → List Call
  | _, [] => []
  | n, call :: calls =>
    if n + 1 ≥ framehopRefreshInterval then call :: scansOf 0 calls else scansOf (n + 1) calls

theorem backend_captures (ns : NativeStack) (calls : List Call) :
    (calls.foldl NativeStack.refreshBackend ns).backend = ns.backend.run (scansOf ns.capturesSinceReload calls) := by
  induction calls generalizing ns with
  | nil => rfl
  | cons call calls ih =>
    rw [List.foldl_cons, ih, scansOf, NativeStack.refreshBackend]
    split <;> rfl

/-- Before any capture the copy depends on the scans of the earlier ones alone. -/
theorem captures_copiesWithin_iff (symbolicator : Symbolicator) (first : Call) (calls : List Call)
    (live : List MapRange) (rsp : UInt64) :
    let ns := calls.foldl NativeStack.refreshBackend { backend := Framehop.empty.loadModules first, symbolicator }
    CopiesWithin ns.backend live rsp ↔
      ∀ m ∈ live, m.Contains rsp → rsp + stackCopyWindow ≤ m.stop ∨
        ∃ seen, seenAround (first :: scansOf 0 calls) rsp = some seen ∧ seen.stop ≤ m.stop := by
  intro ns
  have hbackend : ns.backend = Framehop.empty.run (first :: scansOf 0 calls) := backend_captures _ calls
  rw [hbackend]
  exact copiesWithin_iff (first :: scansOf 0 calls) live rsp

/-- A scan that saw the stack of one thread. -/
def oneThread : Call where
  maps := some [⟨0x7000000, 0x10000, 0, false, true, none⟩]
  files := fun _ => .error "no file"
  order := []
  listed := fun m hm => by
    cases hm
    exact .refl _

/-- The stack of a thread started since then is copied past its end. -/
theorem newThread_overrun :
    ¬∀ (calls : List Call) (live : List MapRange) (rsp : UInt64), CopiesWithin (Framehop.empty.run calls) live rsp := by
  intro h
  have hwithin := h [oneThread] [⟨0x7000000, 0x10000, 0, false, true, none⟩, ⟨0x8000000, 0x10000, 0, false, true, none⟩]
    0x8008000 ⟨0x8000000, 0x10000, 0, false, true, none⟩ (by simp) ⟨by decide, by decide⟩ 0x8010000 (by decide)
    (by decide)
  exact absurd hwithin.2 (by decide)

end StSpy.FramehopUnwind
