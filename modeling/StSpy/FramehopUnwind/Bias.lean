import StSpy.FramehopUnwind
import StSpy.BinaryParser.Relocation

/-!
# The load bias of a module

`add_module_from_file` takes the base address in memory from the executable
mapping, and the base address in the file from the lowest segment. Their
difference is the bias of the file exactly when the executable segment lies as
far above its file offset as the lowest segment above 0; then it is the offset
that `parse_binary` relocates the symbols by, too.
-/

namespace StSpy.FramehopUnwind

open BinaryParser (ProgramHeader ptLoad pfX alignedVaddr executableHeader)

/-- A program header with the place of the segment in the file. -/
structure Segment extends ProgramHeader where
  pOffset : UInt64

def Segment.isExec (segment : Segment) : Bool := segment.pFlags &&& pfX ≠ 0

def pageFloor (pageSize addr : UInt64) : UInt64 := addr - addr % pageSize

/-- The mapping of a segment of a file loaded with `bias`. -/
structure Maps (pageSize bias : UInt64) (segment : Segment) (m : MapRange) : Prop where
  start : m.start = pageFloor pageSize segment.pVaddr + bias
  offset : m.offset = pageFloor pageSize segment.pOffset
  isExec : m.isExec = segment.isExec

/-- A file, its `PT_LOAD` segments and, in the order of their mappings, `mapped`. -/
structure Loaded (pageSize bias : UInt64) (elf : ElfFile) (segments mapped : List Segment)
    (segs : List MapRange) : Prop where
  headers : elf.programHeaders.filter (fun ph => ph.pType = ptLoad) = segments.map (·.toProgramHeader)
  congruent : ∀ segment ∈ segments, segment.pVaddr % pageSize = segment.pOffset % pageSize
  order : mapped.Perm segments
  maps : List.Forall₂ (Maps pageSize bias) mapped segs

/-- The segment whose mapping the base address is taken from. -/
def takenSegment (mapped : List Segment) : Option Segment := (mapped.find? (·.isExec)).or mapped.head?

def lowestVaddr (segments : List Segment) : UInt64 := ((segments.map (·.pVaddr)).min?).getD 0

/-- The offset of `parse_binary`, given the start of the mapping of the first
executable segment. -/
def parsedOffset (pageSize bias : UInt64) (header : ProgramHeader) : UInt64 :=
  saturatingSub (alignedVaddr pageSize header + bias) (alignedVaddr pageSize header)

/-- The bias that framehop works with: it places `svma` at `base_avma + (svma - base_svma)`. -/
def Module.bias (m : Module) : UInt64 := m.baseAvma - m.sectionInfo.baseSvma

variable {pageSize bias : UInt64} {elf : ElfFile} {segments mapped : List Segment} {segs : List MapRange}

/-! ## The executable mapping -/

theorem find_maps (h : List.Forall₂ (Maps pageSize bias) mapped segs) :
    Option.Rel (Maps pageSize bias) (mapped.find? (·.isExec)) (segs.find? (·.isExec)) := by
  induction h with
  | nil => exact .none
  | @cons segment m mapped segs hmaps _ ih =>
    rw [List.find?_cons, List.find?_cons, hmaps.isExec]
    cases segment.isExec with
    | true => exact .some hmaps
    | false => exact ih

/-- The mapping taken is that of the segment taken. -/
theorem taken_maps {execSeg : MapRange} (h : List.Forall₂ (Maps pageSize bias) mapped segs)
    (hexec : (segs.find? (·.isExec)).or segs.head? = some execSeg) :
    ∃ segment, takenSegment mapped = some segment ∧ Maps pageSize bias segment execSeg := by
  have hfind := find_maps h
  unfold takenSegment
  cases hfound : segs.find? (·.isExec) with
  | some m =>
    rw [hfound] at hfind hexec
    cases hexec
    cases hsegment : mapped.find? (·.isExec) with
    | none => rw [hsegment] at hfind; cases hfind
    | some segment =>
      rw [hsegment] at hfind
      cases hfind with
      | some hmaps => exact ⟨segment, rfl, hmaps⟩
  | none =>
    rw [hfound] at hfind hexec
    cases hsegment : mapped.find? (·.isExec) with
    | some segment => rw [hsegment] at hfind; cases hfind
    | none =>
      cases h with
      | nil => cases hexec
      | cons hmaps _ =>
        cases hexec
        exact ⟨_, rfl, hmaps⟩

/-! ## The bias -/

/-- The pages cancel out of the difference. -/
theorem pageFloor_sub {vaddr offset : UInt64} (h : vaddr % pageSize = offset % pageSize) :
    pageFloor pageSize vaddr - pageFloor pageSize offset = vaddr - offset := by
  rw [pageFloor, pageFloor, h]
  grind

theorem baseSvma_eq (hload : Loaded pageSize bias elf segments mapped segs) : baseSvma elf = lowestVaddr segments := by
  rw [baseSvma, hload.headers, List.map_map]
  rfl

theorem takenSegment_mem {segment : Segment} (h : takenSegment mapped = some segment) : segment ∈ mapped := by
  rcases Option.or_eq_some_iff.mp h with hfind | ⟨-, hhead⟩
  · exact List.mem_of_find?_eq_some hfind
  · exact List.mem_of_head? hhead

variable {path : String} {range : Range} {m : Module}

theorem bias_iff (hload : Loaded pageSize bias elf segments mapped segs)
    (hmodule : addModuleFromFile (.ok elf) path segs range = .ok m) :
    m.bias = bias ↔ ∀ segment, takenSegment mapped = some segment →
      segment.pVaddr - segment.pOffset = lowestVaddr segments := by
  unfold addModuleFromFile at hmodule
  simp only at hmodule
  split at hmodule
  · cases hmodule
  · rename_i execSeg hexec
    split at hmodule
    · cases hmodule
    · cases hmodule
      obtain ⟨segment, htaken, hmaps⟩ := taken_maps hload.maps hexec
      have hpages := pageFloor_sub (hload.congruent segment (hload.order.mem_iff.mp (takenSegment_mem htaken)))
      have hbias : (moduleOf elf path execSeg range).bias =
          bias + (segment.pVaddr - segment.pOffset) - lowestVaddr segments := by
        show execSeg.start - execSeg.offset - baseSvma elf = _
        rw [hmaps.start, hmaps.offset, baseSvma_eq hload, ← hpages]
        grind
      rw [hbias, htaken]
      constructor
      · rintro heq _ ⟨⟩
        grind
      · intro h
        rw [h segment rfl]
        grind

/-- The saturating subtraction gives the bias unless that is negative. -/
theorem parsedOffset_eq_iff (header : ProgramHeader) :
    parsedOffset pageSize bias header = bias ↔ (alignedVaddr pageSize header).toNat + bias.toNat < 2 ^ 64 := by
  have hv := (alignedVaddr pageSize header).toNat_lt
  have hb := bias.toNat_lt
  rw [parsedOffset, ← UInt64.toNat_inj, saturatingSub_toNat, UInt64.toNat_add]
  omega

/-- `parse_binary` takes the first executable segment in the order of the headers. -/
theorem executableHeader_eq {binary : BinaryParser.Elf} (hload : Loaded pageSize bias elf segments mapped segs)
    (hsame : binary.programHeaders = elf.programHeaders) :
    executableHeader binary = (segments.find? (·.isExec)).map (·.toProgramHeader) := by
  have hfilter : executableHeader binary =
      (elf.programHeaders.filter fun ph => ph.pType = ptLoad).find? fun ph => ph.pFlags &&& pfX ≠ 0 := by
    rw [executableHeader, hsame, List.find?_filter]
    simp
  rw [hfilter, hload.headers, List.find?_map]
  rfl

/-- Framehop's bias is that of the file, and the one its symbols are relocated
by, exactly when the segment taken is as far above its offset as the lowest
segment above 0, and the first executable one is not mapped below its address. -/
theorem bias_agrees_iff {binary : BinaryParser.Elf} (hload : Loaded pageSize bias elf segments mapped segs)
    (hsame : binary.programHeaders = elf.programHeaders)
    (hmodule : addModuleFromFile (.ok elf) path segs range = .ok m) :
    (m.bias = bias ∧ ∀ header, executableHeader binary = some header → parsedOffset pageSize bias header = m.bias) ↔
      (∀ segment, takenSegment mapped = some segment → segment.pVaddr - segment.pOffset = lowestVaddr segments) ∧
        ∀ segment, segments.find? (·.isExec) = some segment →
          (pageFloor pageSize segment.pVaddr).toNat + bias.toNat < 2 ^ 64 := by
  rw [bias_iff hload hmodule]
  refine and_congr_right fun hlayout => ?_
  rw [(bias_iff hload hmodule).mpr hlayout, executableHeader_eq hload hsame]
  constructor
  · intro h segment hsegment
    exact (parsedOffset_eq_iff _).mp (h _ (by rw [hsegment]; rfl))
  · intro h header hheader
    obtain ⟨segment, hsegment, rfl⟩ := Option.map_eq_some_iff.mp hheader
    exact (parsedOffset_eq_iff _).mpr (h segment hsegment)

/-- With such a layout the symbols are relocated by framehop's bias. -/
theorem symbols_at_bias {host : BinaryParser.Host} {binary : BinaryParser.Elf} {info : BinaryParser.BinaryInfo}
    {addr size : UInt64} (hload : Loaded host.pageSize bias elf segments mapped segs)
    (hsame : binary.programHeaders = elf.programHeaders)
    (hmodule : addModuleFromFile (.ok elf) path segs range = .ok m)
    (hlayout : ∀ segment, takenSegment mapped = some segment →
      segment.pVaddr - segment.pOffset = lowestVaddr segments)
    (haddr : ∀ segment, segments.find? (·.isExec) = some segment →
      addr.toNat = (pageFloor host.pageSize segment.pVaddr).toNat + bias.toNat)
    (hparse : BinaryParser.parseElf host binary addr size = .ok info) :
    BinaryParser.AtRunTime (BinaryParser.linkSymbols host (.elf binary) addr size)
      (BinaryParser.linkBss host (.elf binary) addr) m.bias info := by
  rw [(bias_iff hload hmodule).mpr hlayout]
  refine BinaryParser.parseElf_atRunTime (fun header hheader => ?_) hparse
  rw [executableHeader_eq hload hsame] at hheader
  obtain ⟨segment, hsegment, rfl⟩ := Option.map_eq_some_iff.mp hheader
  exact haddr segment hsegment

/-! ### Two layouts -/

/-- A header-only segment and a text segment behind it, `gap` further up than in
the file. -/
def layout (gap : UInt64) : List Segment :=
  [⟨⟨ptLoad, 4, 0⟩, 0⟩, ⟨⟨ptLoad, 5, 0x1000 + gap⟩, 0x1000⟩]

def layoutFile (gap : UInt64) : ElfFile where
  data := []
  programHeaders := (layout gap).map (·.toProgramHeader)
  sectionHeaders := [⟨⟨BinaryParser.shtNobits, some ".text", 0x1000 + gap, 0⟩, 0x1000⟩]

def layoutMaps (gap : UInt64) : List MapRange :=
  [⟨0x7000000, 0x1000, 0, false, false, some "/a.so"⟩, ⟨0x7001000 + gap, 0x1000, 0x1000, true, false, some "/a.so"⟩]

theorem layout_loaded (gap : UInt64) (hgap : gap = 0 ∨ gap = 0x1000) :
    Loaded 0x1000 0x7000000 (layoutFile gap) (layout gap) (layout gap) (layoutMaps gap) := by
  have hheader : Maps 0x1000 0x7000000 ⟨⟨ptLoad, 4, 0⟩, 0⟩ ⟨0x7000000, 0x1000, 0, false, false, some "/a.so"⟩ :=
    ⟨by decide, by decide, by decide⟩
  rcases hgap with rfl | rfl
  · exact ⟨rfl, by decide, .refl _, .cons hheader (.cons ⟨by decide, by decide, by decide⟩ .nil)⟩
  · exact ⟨rfl, by decide, .refl _, .cons hheader (.cons ⟨by decide, by decide, by decide⟩ .nil)⟩

theorem layout_module (gap : UInt64) :
    addModuleFromFile (.ok (layoutFile gap)) "/a.so" (layoutMaps gap) (avmaRange (layoutMaps gap)) =
      .ok (moduleOf (layoutFile gap) "/a.so"
        ⟨0x7001000 + gap, 0x1000, 0x1000, true, false, some "/a.so"⟩ (avmaRange (layoutMaps gap))) := rfl

theorem bias_agrees_iff_layout :
    let m := moduleOf (layoutFile 0) "/a.so" ⟨0x7001000 + 0, 0x1000, 0x1000, true, false, some "/a.so"⟩
      (avmaRange (layoutMaps 0))
    (m.bias = 0x7000000 ∧ ∀ header, executableHeader ⟨[], (layoutFile 0).programHeaders, [], []⟩ = some header →
        parsedOffset 0x1000 0x7000000 header = m.bias) ↔
      (∀ segment, takenSegment (layout 0) = some segment → segment.pVaddr - segment.pOffset = lowestVaddr (layout 0)) ∧
        ∀ segment, (layout 0).find? (·.isExec) = some segment →
          (pageFloor 0x1000 segment.pVaddr).toNat + (0x7000000 : UInt64).toNat < 2 ^ 64 :=
  bias_agrees_iff (layout_loaded 0 (.inl rfl)) rfl (layout_module 0)

/-- With a gap between the segments that the file does not have, the bias is off
by it. -/
theorem gap_displaced :
    ¬∀ (pageSize bias : UInt64) (elf : ElfFile) (segments mapped : List Segment) (segs : List MapRange)
      (path : String) (range : Range) (m : Module), Loaded pageSize bias elf segments mapped segs →
        addModuleFromFile (.ok elf) path segs range = .ok m → m.bias = bias := by
  intro h
  have hbias := h 0x1000 0x7000000 (layoutFile 0x1000) _ _ _ _ _ _ (layout_loaded 0x1000 (.inr rfl))
    (layout_module 0x1000)
  exact absurd hbias (by decide)

end StSpy.FramehopUnwind
