import StSpy.FramehopUnwind
import StSpy.Lib.Readers

/-!
# Unwinding a copy

`unwind_snapshot` runs framehop's frame iterator over the stack that `capture`
copied. Inside the copy it reads what the target's memory held at the capture, and
outside nothing, so that a stack deeper than the copy is cut off and not misread.
The iterator is a parameter.
-/

namespace StSpy

open Readers

namespace Memory

variable {M : Memory} {addr : UInt64} {len off : Nat} {bytes : List UInt8}

/-- A word of a copy that is mapped up to its end is what reading it gives. -/
theorem Reads.copyU64_of_copy (h : M.Reads) (hcopy : M.copy addr len = some bytes) (hend : addr.toNat + len ≤ 2 ^ 64)
    (hoff : off + 8 ≤ len) (hmapped : M.Mapped addr (off + 8)) :
    M.copyU64 (addr + UInt64.ofNat off) = some (UInt64.ofNat (leNat ((bytes.drop off).take 8))) := by
  have hofNat : (UInt64.ofNat off).toNat = off := UInt64.toNat_ofNat_of_lt' (by show off < 2 ^ 64; omega)
  have hstart : (addr + UInt64.ofNat off).toNat = addr.toNat + off := by
    rw [toNat_add_of_lt (by omega), hofNat]
  have hpart : M.Mapped (addr + UInt64.ofNat off) 8 := by
    intro i hi
    rw [UInt64.add_assoc, ← UInt64.ofNat_add]
    exact hmapped (off + i) (by omega)
  obtain ⟨word, hword⟩ := h.succeeds (by omega) hpart
  have hslice : word = (bytes.drop off).take 8 := by
    apply List.ext_getElem?
    intro i
    by_cases hi : i < 8
    · rw [h.bytes hword hi (hpart.mono hi), List.getElem?_take_of_lt hi, List.getElem?_drop,
        h.bytes hcopy (by omega) (hmapped.mono (by omega)), UInt64.add_assoc, ← UInt64.ofNat_add]
    · have hlength := M.length_copy hword
      rw [List.getElem?_eq_none (by omega), List.getElem?_take_eq_none (by omega)]
  rw [copyU64, hword, hslice, Option.map_some]

end Memory

namespace FramehopUnwind

/-- `framehop::FrameAddress`. -/
inductive FrameAddress where
  | instructionPointer (addr : UInt64)
  | returnAddress (addr : UInt64)

def FrameAddress.address : FrameAddress → UInt64
  | instructionPointer addr => addr
  | returnAddress addr => addr

/-- The frame iterator: `next` is `none` where the source's returns no frame or an
error. What the iterator keeps in its cache of rules is left out. -/
structure FrameIter (σ : Type) where
  start : List Module → UInt64 → Registers → σ
  next : σ → Reader UInt64 UInt64 (Option (FrameAddress × σ))

/-- The `read_stack` closure. -/
def StackSnapshot.readStack (snap : StackSnapshot) (addr : UInt64) : Option UInt64 :=
  if addr < snap.stackBase then none
  else
    let off := addr - snap.stackBase
    match checkedAdd off 8 with
    | none => none
    | some stop =>
      if stop.toNat ≤ snap.stack.length then
        some (UInt64.ofNat (leNat ((snap.stack.drop off.toNat).take 8)))
      else none

/-- `none` when the frames take more than `turns`. -/
def Framehop.unwindSnapshot {σ : Type} (iter : FrameIter σ) (fh : Framehop) (turns : Nat) (snap : StackSnapshot) :
    Option (List UInt64) :=
  (collect iter.next snap.readStack turns (iter.start fh.modules snap.rip snap.regs)).map
    (·.map FrameAddress.address)

/-- The same on the target's own memory. -/
def Framehop.unwindLive {σ : Type} (iter : FrameIter σ) (fh : Framehop) (turns : Nat) (M : Memory) (regs : Registers) :
    Option (List UInt64) :=
  (collect iter.next M.copyU64 turns (iter.start fh.modules regs.rip regs)).map (·.map FrameAddress.address)

/-- The addresses of the words that this reads. -/
def Framehop.liveReads {σ : Type} (iter : FrameIter σ) (fh : Framehop) (turns : Nat) (M : Memory) (regs : Registers) :
    List UInt64 :=
  collectKeys iter.next M.copyU64 turns (iter.start fh.modules regs.rip regs)

variable {fh : Framehop} {M : Memory} {regs : Registers} {snap : StackSnapshot}

/-- The word at `addr` is copied as a whole. -/
def Framehop.Copied (fh : Framehop) (rsp addr : UInt64) : Prop :=
  rsp ≤ addr ∧ addr.toNat + 8 ≤ (fh.copyTop rsp).toNat

instance instDecidableCopied (fh : Framehop) (rsp addr : UInt64) : Decidable (fh.Copied rsp addr) :=
  inferInstanceAs (Decidable (_ ∧ _))

theorem capture_eq_some (h : fh.capture M (some regs) = some snap) :
    ∃ stack, M.copy regs.rsp ((fh.copyTop regs.rsp).toNat - regs.rsp.toNat) = some stack ∧
      snap = { rip := regs.rip, regs, stack, stackBase := regs.rsp } := by
  simp only [Framehop.capture, saturatingSub_toNat, Option.bind_eq_bind, Option.bind_some] at h
  obtain ⟨stack, hstack, h⟩ := Option.bind_eq_some_iff.mp h
  exact ⟨stack, hstack, (Option.some.inj h).symm⟩

/-- Outside the copy nothing is read. -/
theorem readStack_outside (h : fh.capture M (some regs) = some snap) {addr : UInt64}
    (hcopied : ¬fh.Copied regs.rsp addr) : snap.readStack addr = none := by
  obtain ⟨stack, hstack, rfl⟩ := capture_eq_some h
  have hlength := M.length_copy hstack
  simp only [StackSnapshot.readStack]
  by_cases hbelow : addr < regs.rsp
  · rw [if_pos hbelow]
  · have hle : regs.rsp ≤ addr := not_lt.mp hbelow
    have hoff : (addr - regs.rsp).toNat = addr.toNat - regs.rsp.toNat := UInt64.toNat_sub_of_le _ _ hle
    have hle' := UInt64.le_iff_toNat_le.mp hle
    have hpast : ¬addr.toNat + 8 ≤ (fh.copyTop regs.rsp).toNat := fun hend => hcopied ⟨hle, hend⟩
    have height : (8 : UInt64).toNat = 8 := rfl
    rw [if_neg hbelow]
    cases hsum : checkedAdd (addr - regs.rsp) 8 with
    | none => rfl
    | some stop =>
      obtain ⟨-, hstop⟩ := checkedAdd_eq_some.mp hsum
      simp only
      rw [if_neg (by omega)]

/-- A copied word that is mapped up to its end is the target's of the capture. -/
theorem readStack_copied (hreads : M.Reads) (h : fh.capture M (some regs) = some snap) {addr : UInt64}
    (hcopied : fh.Copied regs.rsp addr) (hmapped : M.Mapped regs.rsp (addr.toNat + 8 - regs.rsp.toNat)) :
    snap.readStack addr = M.copyU64 addr := by
  obtain ⟨stack, hstack, rfl⟩ := capture_eq_some h
  obtain ⟨hle, hend⟩ := hcopied
  have hlength := M.length_copy hstack
  have htop := (fh.copyTop regs.rsp).toNat_lt
  have hoff : (addr - regs.rsp).toNat = addr.toNat - regs.rsp.toNat := UInt64.toNat_sub_of_le _ _ hle
  have hle' := UInt64.le_iff_toNat_le.mp hle
  have height : (8 : UInt64).toNat = 8 := rfl
  have hsum : checkedAdd (addr - regs.rsp) 8 = some (addr - regs.rsp + 8) := by
    rw [checkedAdd, if_pos (by omega)]
  have hstop : (addr - regs.rsp + 8).toNat = (addr - regs.rsp).toNat + 8 := toNat_add_of_lt (by omega)
  have hpart : (addr - regs.rsp).toNat + 8 ≤ (fh.copyTop regs.rsp).toNat - regs.rsp.toNat := by omega
  have hword := hreads.copyU64_of_copy hstack (by omega) hpart (hmapped.mono (by omega))
  rw [UInt64.ofNat_toNat, UInt64.add_comm, UInt64.sub_add_cancel] at hword
  simp only [StackSnapshot.readStack, if_neg (not_lt.mpr hle), hsum]
  rw [if_pos (by omega), hword]

/-- An iterator that gives up where it cannot read takes from a copy that is mapped
throughout the first frames that the target's own memory had at the capture. Of any
copy it takes them all, if they are found by reading words that were copied from
mapped memory. -/
theorem unwindSnapshot_prefix {σ : Type} {iter : FrameIter σ} (hstops : Stops iter.next) (hreads : M.Reads)
    {turns : Nat} {live : List UInt64} (hlive : fh.unwindLive iter turns M regs = some live)
    (hcapture : fh.capture M (some regs) = some snap) :
    (M.Mapped regs.rsp ((fh.copyTop regs.rsp).toNat - regs.rsp.toNat) →
      ∃ addrs, fh.unwindSnapshot iter turns snap = some addrs ∧ addrs <+: live) ∧
    ((∀ addr ∈ fh.liveReads iter turns M regs,
        fh.Copied regs.rsp addr ∧ M.Mapped regs.rsp (addr.toNat + 8 - regs.rsp.toNat)) →
      fh.unwindSnapshot iter turns snap = some live) := by
  have hsnap : fh.unwindSnapshot iter turns snap =
      (collect iter.next snap.readStack turns (iter.start fh.modules regs.rip regs)).map
        (·.map FrameAddress.address) := by
    obtain ⟨stack, -, rfl⟩ := capture_eq_some hcapture
    rfl
  obtain ⟨frames, hframes, rfl⟩ := Option.map_eq_some_iff.mp hlive
  rw [hsnap]
  constructor
  · intro hmapped
    have hpart : ∀ addr word, snap.readStack addr = some word → M.copyU64 addr = some word := by
      intro addr word hword
      by_cases hcopied : fh.Copied regs.rsp addr
      · rwa [← readStack_copied hreads hcapture hcopied (hmapped.mono (Nat.sub_le_sub_right hcopied.2 _))]
      · rw [readStack_outside hcapture hcopied] at hword
        cases hword
    obtain ⟨shorter, hshorter, hfirst⟩ := collect_prefix hstops hpart hframes
    exact ⟨shorter.map FrameAddress.address, by rw [hshorter, Option.map_some], hfirst.map _⟩
  · intro hcopied
    have hread : ∀ addr ∈ fh.liveReads iter turns M regs, snap.readStack addr = M.copyU64 addr :=
      fun addr haddr => readStack_copied hreads hcapture (hcopied addr haddr).1 (hcopied addr haddr).2
    rw [collect_congr hread, hframes, Option.map_some]

/-! ### A stack deeper than the copy -/

/-- The walk along frame pointers: where the first frame is, and the frame pointer. -/
def framePointerIter : FrameIter (Option UInt64 × UInt64) where
  start _ rip regs := (some rip, regs.rbp)
  next
    | (some rip, fp) => .done (some (.instructionPointer rip, (none, fp)))
    | (none, fp) =>
      .read fp fun
        | none => .done none
        | some callerFp =>
          .read (fp + 8) fun
            | none => .done none
            | some ret => .done (if ret = 0 then none else some (.returnAddress ret, (none, callerFp)))

theorem framePointerIter_stops : Stops framePointerIter.next := by
  rintro ⟨rip, fp⟩ source ⟨key, hkey, hmissing⟩
  cases rip with
  | some rip => cases hkey
  | none =>
    cases hcaller : source fp with
    | none => simp [framePointerIter, Reader.run, hcaller]
    | some callerFp =>
      cases hret : source (fp + 8) with
      | none => simp [framePointerIter, Reader.run, hcaller, hret]
      | some ret =>
        simp only [framePointerIter, Reader.keys, hcaller, hret, List.mem_cons, List.not_mem_nil, or_false] at hkey
        rcases hkey with rfl | rfl
        · rw [hcaller] at hmissing
          cases hmissing
        · rw [hret] at hmissing
          cases hmissing

/-- A stack of 32 bytes below another one that holds the outer frame. -/
def splitStack : Memory :=
  .ofWords [(0x8000, 0x9000), (0x8008, 0x1111), (0x8010, 0), (0x8018, 0), (0x9000, 0), (0x9008, 0x2222)]

def splitBackend : Framehop := { Framehop.empty with writableRanges := [⟨0x8000, 0x8020⟩] }

theorem unwindSnapshot_prefix_splitStack :
    ∃ snap addrs, splitBackend.capture splitStack (some ⟨0x1000, 0x8000, 0x8000⟩) = some snap ∧
      splitBackend.unwindSnapshot framePointerIter 9 snap = some addrs ∧ addrs <+: [0x1000, 0x1111, 0x2222] :=
  have hcapture : ∃ snap, splitBackend.capture splitStack (some ⟨0x1000, 0x8000, 0x8000⟩) = some snap :=
    Option.isSome_iff_exists.mp (by decide +kernel)
  let ⟨snap, hsnap⟩ := hcapture
  have hlive : splitBackend.unwindLive framePointerIter 9 splitStack ⟨0x1000, 0x8000, 0x8000⟩ =
      some [0x1000, 0x1111, 0x2222] := by decide +kernel
  have hunwound := unwindSnapshot_prefix framePointerIter_stops (Memory.reads_ofWords _) hlive hsnap
  let ⟨addrs, haddrs⟩ := hunwound.1 (by decide +kernel)
  ⟨snap, addrs, hsnap, haddrs⟩

end FramehopUnwind

end StSpy
