import StSpy.BinaryParser
import StSpy.Lib.Errors
import Mathlib.Algebra.Group.Nat.Defs
import Mathlib.Data.List.Induction

/-!
# Run-time addresses

The file gives link-time addresses, the process has them shifted by the slide.
For ELF and PE files everything `parseBinary` records is at its run-time
address. For Mach-O files it is exactly when `__TEXT` is linked at address zero,
or nothing is recorded at all.
-/

namespace StSpy.BinaryParser

open Errors

variable {host : Host} {addr size s : UInt64} {info : BinaryInfo}

/-! ## Names recorded more than once -/

/-- The address recorded last under a name. -/
def lastNamed (name : String) (recorded : List (String × UInt64)) : Option UInt64 :=
  ((recorded.filter fun entry => entry.1 = name).getLast?).map (·.2)

theorem lookup_insertAll (recorded : List (String × UInt64)) (name : String) :
    (insertAll ∅ recorded).lookup name = lastNamed name recorded := by
  induction recorded using List.reverseRecOn with
  | nil => rfl
  | append_singleton recorded entry ih =>
    rw [insertAll, List.foldl_append]
    show ((insertAll ∅ recorded).insert entry.1 entry.2).lookup name = _
    by_cases h : name = entry.1
    · subst h
      simp [lastNamed]
    · rw [AList.lookup_insert_ne h, ih]
      simp [lastNamed, Ne.symm h]

theorem insertAll_append (recorded more : List (String × UInt64)) :
    insertAll (insertAll ∅ recorded) more = insertAll ∅ (recorded ++ more) := by
  rw [insertAll, insertAll, insertAll, List.foldl_append]

theorem lastNamed_map (f : UInt64 → UInt64) (name : String) (recorded : List (String × UInt64)) :
    lastNamed name (recorded.map fun entry => (entry.1, f entry.2)) = (lastNamed name recorded).map f := by
  simp only [lastNamed, List.filter_map, Function.comp_def, List.getLast?_map, Option.map_map]

/-! ## Sections -/

/-- The address of the last section that is loaded. -/
def lastLoadedLink (offset : UInt64) (sections : List (UInt64 × UInt64)) : Option UInt64 :=
  ((sections.filter fun sec => (loadedAddr offset sec.1 sec.2).isSome).getLast?).map (·.1)

theorem loadedAddr_eq_some {offset a size b : UInt64} (h : loadedAddr offset a size = some b) :
    b = a + offset := by
  obtain ⟨h, -⟩ := Option.filter_eq_some_iff.mp h
  unfold checkedAdd at h
  split at h
  · exact (Option.some.inj h).symm
  · cases h

theorem lastLoaded_eq (offset : UInt64) (sections : List (UInt64 × UInt64)) :
    ∀ a, lastLoadedLink offset sections = some a → (lastLoaded offset sections).1 = a + offset := by
  induction sections using List.reverseRecOn with
  | nil => exact fun _ h => by cases h
  | append_singleton sections sec ih =>
    intro a ha
    rw [lastLoaded, List.foldl_append]
    cases hloaded : loadedAddr offset sec.1 sec.2 with
    | none =>
      have hskip : lastLoadedLink offset (sections ++ [sec]) = lastLoadedLink offset sections := by
        simp [lastLoadedLink, hloaded]
      simp only [List.foldl_cons, List.foldl_nil, hloaded]
      exact ih a (hskip ▸ ha)
    | some b =>
      have hlast : lastLoadedLink offset (sections ++ [sec]) = some sec.1 := by
        simp [lastLoadedLink, hloaded]
      rw [hlast] at ha
      cases ha
      simp only [List.foldl_cons, List.foldl_nil, hloaded]
      exact loadedAddr_eq_some hloaded

/-! ## What is recorded, at link time -/

/-- The symbols of a Mach-O file that are recorded, under their names without the underscore. -/
def machSymbols (mach : MachO) : List (String × UInt64) :=
  (mach.symbols.getD []).filterMap fun sym =>
    sym.toOption.bind fun sym => (stripUnderscore sym.1).map fun strippedName => (strippedName, sym.2)

/-- The sections named `__bss`. -/
def machBssSections (mach : MachO) : List (UInt64 × UInt64) :=
  mach.segments.flatMap fun segment => (segment.sections.toOption.getD []).filterMap fun sec =>
    if sec.name.toOption = some "__bss" then some (sec.addr, sec.size) else none

def textVmaddr (mach : MachO) : Option UInt64 :=
  (mach.segments.find? fun segment => segment.name = "__TEXT").map (·.vmaddr)

/-- The end of the bss section in the file, when it is loaded. -/
def elfBssEnd (offset : UInt64) (header : SectionHeader) : UInt64 :=
  if (checkedAdd header.shAddr offset).isSome then header.shAddr + header.shSize else 0

def elfSymbols (elf : Elf) (addr size offset bssEnd : UInt64) : List (String × UInt64) :=
  (elf.syms ++ elf.dynsyms).filterMap fun sym =>
    (elfSymbol addr size offset bssEnd sym).map fun entry => (entry.1, sym.stValue)

def peSymbols (pe : PE) (addr : UInt64) : List (String × UInt64) :=
  pe.exports.filterMap fun e =>
    e.name.bind fun name => (checkedAdd addr e.rva).map fun _ => (name, e.rva)

/-- The symbols that are recorded, with their addresses in the file. -/
def linkSymbols (host : Host) (object : Object) (addr size : UInt64) : List (String × UInt64) :=
  match object with
  | .mach mach => ((selectMach host mach).toOption.map machSymbols).getD []
  | .elf elf =>
    match bssHeader elf, executableHeader elf with
    | some header, some programHeader =>
      let offset := saturatingSub addr (alignedVaddr host.pageSize programHeader)
      elfSymbols elf addr size offset (elfBssEnd offset header)
    | _, _ => []
  | .pe pe => peSymbols pe addr
  | .unknown => []

/-- The address in the file of the section taken for the bss, if it is set. -/
def linkBss (host : Host) (object : Object) (addr : UInt64) : Option UInt64 :=
  match object with
  | .mach mach => (selectMach host mach).toOption.bind fun mach => lastLoadedLink addr (machBssSections mach)
  | .elf elf =>
    match bssHeader elf, executableHeader elf with
    | some header, some programHeader =>
      let offset := saturatingSub addr (alignedVaddr host.pageSize programHeader)
      (checkedAdd header.shAddr offset).map fun _ => header.shAddr
    | _, _ => none
  | .pe pe => lastLoadedLink addr ((pe.sections.filter isData).map fun sec =>
      (sec.virtualAddress.toUInt64, sec.virtualSize.toUInt64))
  | .unknown => none

/-! ## The law -/

/-- `addr` is the start of the executable mapping of a file loaded with slide `s`. -/
def LoadedAt (host : Host) (object : Object) (addr s : UInt64) : Prop :=
  match object with
  | .mach mach => ∀ m, selectMach host mach = .ok m → ∃ vmaddr, textVmaddr m = some vmaddr ∧ addr = vmaddr + s
  | .elf elf => ∀ header, executableHeader elf = some header →
      addr.toNat = (alignedVaddr host.pageSize header).toNat + s.toNat
  | .pe _ => addr = s
  | .unknown => True

/-- Every symbol recorded, and the bss when it is set, is at its address in the file plus `s`. -/
structure AtRunTime (symbols : List (String × UInt64)) (bss : Option UInt64) (s : UInt64)
    (info : BinaryInfo) : Prop where
  symbols : ∀ name, info.symbols.lookup name = (lastNamed name symbols).map (· + s)
  bss : ∀ a, bss = some a → info.bssAddr = a + s

theorem checkedAdd_comm (a b : UInt64) : checkedAdd a b = checkedAdd b a := by
  rw [checkedAdd, checkedAdd, Nat.add_comm, UInt64.add_comm]

theorem checkedAdd_eq {a b c : UInt64} (h : checkedAdd a b = some c) : c = a + b := by
  unfold checkedAdd at h
  split at h
  · exact (Option.some.inj h).symm
  · cases h

/-- The symbols, relocated by `offset`, are as the law says when `offset` is the slide. -/
theorem lookup_relocated {recorded : List (String × UInt64)} {offset : UInt64}
    (h : info.symbols = insertAll ∅ (recorded.map fun entry => (entry.1, entry.2 + offset))) (name : String) :
    info.symbols.lookup name = (lastNamed name recorded).map (· + offset) := by
  rw [h, lookup_insertAll, lastNamed_map (· + offset)]

/-! ### ELF -/

theorem elfSymbol_eq {offset bssEnd pos : UInt64} {sym : Sym} {name : String}
    (h : elfSymbol addr size offset bssEnd sym = some (name, pos)) : pos = sym.stValue + offset := by
  unfold elfSymbol at h
  split at h
  · cases h
  · split at h
    · cases h
    · split at h
      · cases h
      · rename_i p hp
        split at h
        · cases h
        · obtain ⟨_, _, heq⟩ := Option.map_eq_some_iff.mp h
          cases heq
          exact checkedAdd_eq hp

theorem filterMap_elfSymbol (offset bssEnd : UInt64) (syms : List Sym) :
    syms.filterMap (elfSymbol addr size offset bssEnd) =
      (syms.filterMap fun sym => (elfSymbol addr size offset bssEnd sym).map fun entry =>
        (entry.1, sym.stValue)).map fun entry => (entry.1, entry.2 + offset) := by
  rw [List.map_filterMap]
  refine List.filterMap_congr fun sym _ => ?_
  cases h : elfSymbol addr size offset bssEnd sym with
  | none => rfl
  | some entry =>
    obtain ⟨name, pos⟩ := entry
    rw [elfSymbol_eq h]
    rfl

theorem parseElf_atRunTime {elf : Elf} (hload : LoadedAt host (.elf elf) addr s)
    (hparse : parseElf host elf addr size = .ok info) :
    AtRunTime (linkSymbols host (.elf elf) addr size) (linkBss host (.elf elf) addr) s info := by
  unfold parseElf at hparse
  split at hparse
  · cases hparse
  · rename_i header hheader
    split at hparse
    · cases hparse
    · rename_i programHeader hprogram
      -- the offset the source computes is the slide
      have hs : saturatingSub addr (alignedVaddr host.pageSize programHeader) = s := by
        have := hload programHeader hprogram
        apply UInt64.toNat.inj
        rw [saturatingSub_toNat]
        omega
      simp only [hs] at hparse
      have hsymbols : ∀ bssEnd, insertAll (insertAll ∅ (elf.syms.filterMap (elfSymbol addr size s bssEnd)))
          (elf.dynsyms.filterMap (elfSymbol addr size s bssEnd)) =
          insertAll ∅ ((elfSymbols elf addr size s bssEnd).map fun entry => (entry.1, entry.2 + s)) := by
        intro bssEnd
        rw [insertAll_append, ← List.filterMap_append, filterMap_elfSymbol, elfSymbols]
      cases hbss : checkedAdd header.shAddr s with
      | none =>
        rw [hbss] at hparse
        cases hparse
        refine ⟨lookup_relocated ?_, fun a ha => ?_⟩
        · simp only [linkSymbols, hheader, hprogram, hs, elfBssEnd, hbss]
          exact hsymbols 0
        · simp [linkBss, hheader, hprogram, hs, hbss] at ha
      | some bssAddr =>
        rw [hbss] at hparse
        simp only at hparse
        split at hparse
        · cases hparse
        · cases hparse
          refine ⟨lookup_relocated ?_, fun a ha => ?_⟩
          · simp only [linkSymbols, hheader, hprogram, hs, elfBssEnd, hbss]
            exact hsymbols _
          · simp only [linkBss, hheader, hprogram, hs, hbss, Option.map_some, Option.some.injEq] at ha
            rw [← ha]
            exact checkedAdd_eq hbss

/-! ### PE -/

theorem parsePe_atRunTime {pe : PE} (hload : LoadedAt host (.pe pe) addr s)
    (hparse : parsePe host pe addr size = .ok info) :
    AtRunTime (linkSymbols host (.pe pe) addr size) (linkBss host (.pe pe) addr) s info := by
  cases hload
  unfold parsePe at hparse
  simp only at hparse
  split at hparse
  · cases hparse
  · cases hparse
    refine ⟨lookup_relocated ?_, lastLoaded_eq addr _⟩
    show insertAll ∅ _ = insertAll ∅ _
    rw [linkSymbols, peSymbols, List.map_filterMap]
    congr 1
    refine List.filterMap_congr fun e _ => ?_
    cases e.name with
    | none => rfl
    | some name =>
      cases h : checkedAdd addr e.rva with
      | none => simp
      | some pos =>
        rw [checkedAdd_comm] at h
        simp [checkedAdd_eq h]

/-! ### Mach-O -/

theorem machSymbols_of_read {mach : MachO} {syms : List (String × UInt64)}
    (h : (mach.symbols.getD []).mapM id = .ok syms) (offset : UInt64) :
    (syms.filterMap fun sym => (stripUnderscore sym.1).map fun strippedName => (strippedName, sym.2 + offset)) =
      (machSymbols mach).map fun entry => (entry.1, entry.2 + offset) := by
  rw [machSymbols, List.map_filterMap]
  refine filterMap_of_mapM (fun x y hxy => ?_) h
  cases hxy
  simp [Except.toOption, Function.comp_def]

/-- A section of a Mach-O file, as it is read. -/
def readSection (sec : MachSection) : Except String (String × UInt64 × UInt64) := do
  let name ← sec.name
  pure (name, sec.addr, sec.size)

theorem bss_of_sections {sections : List MachSection} {read : List (String × UInt64 × UInt64)}
    (h : sections.mapM readSection = .ok read) :
    (read.filter fun sec => sec.1 = "__bss").map (·.2) = sections.filterMap fun sec =>
      if sec.name.toOption = some "__bss" then some (sec.addr, sec.size) else none := by
  rw [← List.filterMap_eq_map, List.filterMap_filter]
  refine filterMap_of_mapM (fun sec y hsec => ?_) h
  obtain ⟨name, hname, hy⟩ := bind_eq_ok hsec
  cases hy
  by_cases hbss : name = "__bss" <;> simp [hname, hbss, Except.toOption]

theorem bss_of_segments {mach : MachO} {read : List (List (String × UInt64 × UInt64))}
    (h : (mach.segments.mapM fun segment => do (← segment.sections).mapM readSection) = .ok read) :
    (read.flatten.filter fun sec => sec.1 = "__bss").map (·.2) = machBssSections mach := by
  rw [machBssSections, ← List.flatMap_id, List.filter_flatMap, List.map_flatMap]
  refine flatMap_of_mapM (fun segment secs hsegment => ?_) h
  obtain ⟨sections, hsections, hsecs⟩ := bind_eq_ok hsegment
  rw [hsections]
  exact bss_of_sections hsecs

theorem parseMach_records {mach : MachO} (hparse : parseMach mach addr size = .ok info) :
    info.symbols = insertAll ∅ ((machSymbols mach).map fun entry => (entry.1, entry.2 + addr)) ∧
      info.bssAddr = (lastLoaded addr (machBssSections mach)).1 := by
  obtain ⟨read, hread, hparse⟩ := bind_eq_ok hparse
  obtain ⟨syms, hsyms, hparse⟩ := bind_eq_ok hparse
  cases hparse
  exact ⟨congrArg (insertAll ∅) (machSymbols_of_read hsyms addr), by rw [← bss_of_segments hread]⟩

/-- A file that records something is relocated by the slide only. -/
theorem parseMach_atRunTime_iff {mach : MachO} {vmaddr : UInt64} (haddr : addr = vmaddr + s)
    (hparse : parseMach mach addr size = .ok info) :
    AtRunTime (machSymbols mach) (lastLoadedLink addr (machBssSections mach)) s info ↔
      vmaddr = 0 ∨ (machSymbols mach = [] ∧ lastLoadedLink addr (machBssSections mach) = none) := by
  obtain ⟨hsymbols, hbss⟩ := parseMach_records hparse
  have hzero : ∀ a : UInt64, a + addr = a + s ↔ vmaddr = 0 := by
    intro a
    rw [haddr, UInt64.add_right_inj, UInt64.add_eq_right]
  constructor
  · intro h
    by_cases hnone : machSymbols mach = [] ∧ lastLoadedLink addr (machBssSections mach) = none
    · exact .inr hnone
    · refine .inl ?_
      rw [not_and_or] at hnone
      rcases hnone with hne | hne
      · obtain ⟨entry, hentry⟩ := List.exists_mem_of_ne_nil _ hne
        -- the last symbol of some name
        have hsome : (lastNamed entry.1 (machSymbols mach)).isSome := by
          rw [lastNamed, Option.isSome_map, List.getLast?_isSome]
          exact List.ne_nil_of_mem (List.mem_filter.mpr ⟨hentry, decide_eq_true rfl⟩)
        obtain ⟨a, ha⟩ := Option.isSome_iff_exists.mp hsome
        have hlookup := h.symbols entry.1
        rw [lookup_relocated hsymbols, ha] at hlookup
        exact (hzero a).mp (Option.some.inj hlookup)
      · obtain ⟨a, ha⟩ := Option.ne_none_iff_exists'.mp hne
        have haddr' := h.bss a ha
        rw [hbss, lastLoaded_eq addr _ a ha] at haddr'
        exact (hzero a).mp haddr'
  · rintro (rfl | ⟨hnone, hbssnone⟩)
    · have hs : addr = s := by rw [haddr, UInt64.zero_add]
      subst hs
      exact ⟨lookup_relocated hsymbols, fun a ha => hbss ▸ lastLoaded_eq addr _ a ha⟩
    · refine ⟨fun name => ?_, fun a ha => ?_⟩
      · rw [lookup_relocated hsymbols, hnone]
        rfl
      · rw [hbssnone] at ha
        cases ha

/-! ### All formats -/

/-- What is recorded is at its run-time address exactly when the file is not a
Mach-O file whose `__TEXT` is linked elsewhere than at zero, of which something
is recorded. -/
theorem parseBinary_atRunTime_iff {object : Object} (hload : LoadedAt host object addr s)
    (hparse : parseBinary host object addr size = .ok info) :
    AtRunTime (linkSymbols host object addr size) (linkBss host object addr) s info ↔
      ∀ mach m, object = .mach mach → selectMach host mach = .ok m →
        textVmaddr m = some 0 ∨
          (machSymbols m = [] ∧ lastLoadedLink addr (machBssSections m) = none) := by
  cases object with
  | mach mach =>
    obtain ⟨m, hm, hparse⟩ := bind_eq_ok hparse
    obtain ⟨vmaddr, htext, haddr⟩ := hload m hm
    have hlink : linkSymbols host (.mach mach) addr size = machSymbols m := by
      simp [linkSymbols, hm, Except.toOption]
    have hbss : linkBss host (.mach mach) addr = lastLoadedLink addr (machBssSections m) := by
      simp [linkBss, hm, Except.toOption]
    rw [hlink, hbss, parseMach_atRunTime_iff haddr hparse]
    constructor
    · intro h mach' m' hmach hm'
      cases hmach
      rw [hm] at hm'
      cases hm'
      rw [htext, Option.some.injEq]
      exact h
    · intro h
      have hcond := h mach m rfl hm
      rw [htext, Option.some.injEq] at hcond
      exact hcond
  | elf elf => exact iff_of_true (parseElf_atRunTime hload hparse) fun _ _ h => by cases h
  | pe pe => exact iff_of_true (parsePe_atRunTime hload hparse) fun _ _ h => by cases h
  | unknown => cases hparse

/-- A program of one symbol, linked at `vmaddr`. -/
def machProgram (vmaddr : UInt64) : Object :=
  .mach (.binary ⟨[⟨"__TEXT", vmaddr, .ok []⟩], some [.ok ("_interpret", vmaddr + 0x4000)]⟩)

def linuxHost : Host where
  filename := "squeak"
  bufferLen := 0x10000
  machCputype := 0xffffffff
  pageSize := 0x1000

theorem parseBinary_atRunTime_iff_machProgram :
    let info : BinaryInfo := ⟨(∅ : AList fun _ : String => UInt64).insert "interpret" 0x9000, 0, 0, 0x5000, 0x1000⟩
    AtRunTime (linkSymbols linuxHost (machProgram 0) 0x5000 0x1000) (linkBss linuxHost (machProgram 0) 0x5000)
        0x5000 info ↔
      ∀ mach m, machProgram 0 = .mach mach → selectMach linuxHost mach = .ok m →
        textVmaddr m = some 0 ∨
          (machSymbols m = [] ∧ lastLoadedLink 0x5000 (machBssSections m) = none) :=
  parseBinary_atRunTime_iff (fun m hm => ⟨0, by cases hm; rfl, rfl⟩) rfl

/-- A program linked at `0x100000000` has its symbols recorded that much too high. -/
theorem machProgram_displaced :
    ¬∀ (host : Host) (object : Object) (addr size s : UInt64) (info : BinaryInfo),
      LoadedAt host object addr s → parseBinary host object addr size = .ok info →
        AtRunTime (linkSymbols host object addr size) (linkBss host object addr) s info := by
  intro h
  have hrun := h linuxHost (machProgram 0x100000000) 0x100005000 0x1000 0x5000 _
    (fun m hm => ⟨0x100000000, by cases hm; rfl, rfl⟩) rfl
  have hlookup := hrun.symbols "interpret"
  exact absurd hlookup (by decide)

end StSpy.BinaryParser
