import StSpy.FramehopUnwind

/-!
# Reloading the modules

Ranges are only ever added to `loaded`, and a file is skipped when its start
address is in it, whichever file the address was recorded for and whether it
could be used. The module table follows the mappings exactly in the runs whose
calls find every recorded file still mapped, and no usable file at a recorded
address that was not registered there.
-/

namespace StSpy.FramehopUnwind

variable (fh : Framehop) {maps : List MapRange} (files : String → Except String ElfFile) {path : String}
  {call : Call}

/-- A file that reads and parses, with an `.eh_frame` or a `.text` section. -/
def Usable (file : Except String ElfFile) : Prop :=
  ∃ elf, file = .ok elf ∧ ((elf.sectionNamed ".eh_frame").isSome ∨ (elf.sectionNamed ".text").isSome)

/-- The start address of a file. -/
def startOf (maps : List MapRange) (path : String) : UInt64 := (avmaRange (segsOf maps path)).start

/-- The file is registered with its range in `maps`. -/
def Registered (fh : Framehop) (maps : List MapRange) (path : String) : Prop :=
  ∃ m ∈ fh.modules, m.name = path ∧ m.avmaRange = avmaRange (segsOf maps path)

/-- The module table agrees with the mappings. -/
structure Follows (fh : Framehop) (maps : List MapRange) (files : String → Except String ElfFile) : Prop where
  registered : ∀ path ∈ paths maps, Usable (files path) → Registered fh maps path
  present : ∀ path ∈ fh.loadedFor, path ∈ paths maps

/-- Before a call with these mappings: what was recorded is still mapped, and a
usable file whose start address was recorded, or is that of a file before it,
is registered already. -/
structure Keeps (fh : Framehop) (call : Call) (maps : List MapRange) : Prop where
  mapped : ∀ path ∈ fh.loadedFor, path ∈ paths maps
  registered : ∀ before path after, call.order = before ++ path :: after → Usable (call.files path) →
    (fh.isLoaded (startOf maps path) = true ∨ ∃ other ∈ before, startOf maps other = startOf maps path) →
      Registered fh maps path

/-! ## One file -/

theorem segsOf_ne_nil (h : path ∈ paths maps) : segsOf maps path ≠ [] := by
  have hfilename := List.mem_dedup.mp h
  obtain ⟨m, hm, hpath⟩ := List.mem_filterMap.mp (List.mem_filter.mp hfilename).1
  exact List.ne_nil_of_mem (List.mem_filter.mpr ⟨hm, decide_eq_true hpath⟩)

/-- A mapped file gives a module, of its name and range, exactly when it is usable. -/
theorem addModuleFromFile_ok (h : path ∈ paths maps) (range : Range) :
    (Usable (files path) → ∃ m, addModuleFromFile (files path) path (segsOf maps path) range = .ok m) ∧
      ∀ m, addModuleFromFile (files path) path (segsOf maps path) range = .ok m →
        Usable (files path) ∧ m.name = path ∧ m.avmaRange = range := by
  obtain ⟨seg, hseg⟩ : ∃ seg, ((segsOf maps path).find? (·.isExec)).or (segsOf maps path).head? = some seg := by
    cases hsegs : segsOf maps path with
    | nil => exact absurd hsegs (segsOf_ne_nil h)
    | cons first rest =>
      cases (first :: rest).find? (·.isExec) with
      | none => exact ⟨first, rfl⟩
      | some seg => exact ⟨seg, rfl⟩
  unfold addModuleFromFile
  rw [hseg]
  cases files path with
  | error e => exact ⟨fun ⟨_, helf, _⟩ => (by cases helf), fun _ hm => by cases hm⟩
  | ok elf =>
    by_cases hnone : (elf.sectionNamed ".eh_frame").isNone && (elf.sectionNamed ".text").isNone
    · simp only [hnone, if_true]
      refine ⟨fun ⟨elf', helf, hsome⟩ => ?_, fun _ hm => by cases hm⟩
      cases helf
      simp only [Bool.and_eq_true, Option.isNone_iff_eq_none] at hnone
      simp [hnone] at hsome
    · simp only [hnone, Bool.false_eq_true, if_false]
      refine ⟨fun _ => ⟨_, rfl⟩, fun m hm => ?_⟩
      cases hm
      simp only [Bool.and_eq_true, Option.isNone_iff_eq_none, not_and_or, ← ne_eq,
        Option.ne_none_iff_isSome] at hnone
      exact ⟨⟨elf, rfl, hnone⟩, rfl, rfl⟩

/-- What one file adds to the state. -/
theorem loadFile_cases (h : path ∈ paths maps) :
    (fh.isLoaded (startOf maps path) = true ∧ fh.loadFile maps files path = fh) ∨
    (fh.isLoaded (startOf maps path) = false ∧
      (fh.loadFile maps files path).loaded = fh.loaded ++ [avmaRange (segsOf maps path)] ∧
      (fh.loadFile maps files path).loadedFor = fh.loadedFor ++ [path] ∧
      ∃ added, (fh.loadFile maps files path).modules = fh.modules ++ added ∧
        (∀ m ∈ added, m.name = path ∧ m.avmaRange = avmaRange (segsOf maps path) ∧ Usable (files path)) ∧
        (Usable (files path) → added ≠ [])) := by
  obtain ⟨hok, hadded⟩ := addModuleFromFile_ok files h (avmaRange (segsOf maps path))
  cases hloaded : fh.isLoaded (startOf maps path) with
  | true => exact .inl ⟨rfl, if_pos hloaded⟩
  | false =>
    refine .inr ⟨rfl, ?_⟩
    have hneg : ¬fh.isLoaded (avmaRange (segsOf maps path)).start = true := by
      rw [← startOf, hloaded]
      decide
    simp only [Framehop.loadFile, if_neg hneg]
    cases hadd : addModuleFromFile (files path) path (segsOf maps path) (avmaRange (segsOf maps path)) with
    | ok m =>
      obtain ⟨husable, hname, hrange⟩ := hadded m hadd
      refine ⟨rfl, rfl, [m], rfl, fun m' hm' => ?_, fun _ => by simp⟩
      rw [List.mem_singleton.mp hm']
      exact ⟨hname, hrange, husable⟩
    | error e =>
      refine ⟨rfl, rfl, [], (List.append_nil _).symm, fun _ hm' => (by cases hm'), fun husable => ?_⟩
      obtain ⟨m, hm⟩ := hok husable
      rw [hadd] at hm
      cases hm

/-! ## The files of one scan -/

theorem isLoaded_loadFile (h : path ∈ paths maps) (start : UInt64) :
    (fh.loadFile maps files path).isLoaded start = true ↔
      fh.isLoaded start = true ∨ startOf maps path = start := by
  rcases loadFile_cases fh files h with ⟨hloaded, hsame⟩ | ⟨hloaded, hrange, -⟩
  · rw [hsame]
    exact ⟨.inl, fun hor => hor.elim id fun heq => heq ▸ hloaded⟩
  · rw [Framehop.isLoaded, hrange, List.any_append, Bool.or_eq_true, ← Framehop.isLoaded]
    simp [startOf]

theorem isLoaded_loadFiles {order : List String} (h : ∀ path ∈ order, path ∈ paths maps) (start : UInt64) :
    (fh.loadFiles maps files order).isLoaded start = true ↔
      fh.isLoaded start = true ∨ ∃ path ∈ order, startOf maps path = start := by
  induction order generalizing fh with
  | nil => simp [Framehop.loadFiles]
  | cons path order ih =>
    show ((fh.loadFile maps files path).loadFiles maps files order).isLoaded start = true ↔ _
    rw [ih _ fun p hp => h p (List.mem_cons_of_mem _ hp), isLoaded_loadFile fh files (h path List.mem_cons_self)]
    simp only [List.mem_cons, exists_eq_or_imp, or_assoc]

/-- Other files of the scan do not register a file. -/
theorem registered_loadFile_other {other : String} (h : other ∈ paths maps) (hne : other ≠ path) :
    Registered (fh.loadFile maps files other) maps path ↔ Registered fh maps path := by
  rcases loadFile_cases fh files h with ⟨-, hsame⟩ | ⟨-, -, -, added, hmodules, hadded, -⟩
  · rw [hsame]
  · simp only [Registered, hmodules, List.mem_append]
    constructor
    · rintro ⟨m, hm | hm, hname, hrange⟩
      · exact ⟨m, hm, hname, hrange⟩
      · exact absurd ((hadded m hm).1.symm.trans hname) hne
    · rintro ⟨m, hm, hname, hrange⟩
      exact ⟨m, .inl hm, hname, hrange⟩

theorem registered_loadFiles_other {order : List String} (h : ∀ other ∈ order, other ∈ paths maps)
    (hne : path ∉ order) :
    Registered (fh.loadFiles maps files order) maps path ↔ Registered fh maps path := by
  induction order generalizing fh with
  | nil => rfl
  | cons other order ih =>
    show Registered ((fh.loadFile maps files other).loadFiles maps files order) maps path ↔ _
    rw [ih _ (fun p hp => h p (List.mem_cons_of_mem _ hp)) fun hmem => hne (List.mem_cons_of_mem _ hmem),
      registered_loadFile_other fh files (h other List.mem_cons_self) fun heq => hne (heq ▸ List.mem_cons_self)]

/-- A file is registered by its own turn, unless its start address is taken. -/
theorem registered_loadFile (h : path ∈ paths maps) :
    Registered (fh.loadFile maps files path) maps path ↔
      Registered fh maps path ∨ (fh.isLoaded (startOf maps path) = false ∧ Usable (files path)) := by
  rcases loadFile_cases fh files h with
    ⟨hloaded, hsame⟩ | ⟨hloaded, -, -, added, hmodules, hadded, husable⟩
  · rw [hsame, hloaded]
    simp
  · constructor
    · rintro ⟨m, hm, hname, hrange⟩
      rw [hmodules] at hm
      rcases List.mem_append.mp hm with hm | hm
      · exact .inl ⟨m, hm, hname, hrange⟩
      · exact .inr ⟨hloaded, (hadded m hm).2.2⟩
    · rintro (⟨m, hm, hname, hrange⟩ | ⟨-, hu⟩)
      · exact ⟨m, hmodules ▸ List.mem_append_left _ hm, hname, hrange⟩
      · obtain ⟨m, hm⟩ := List.exists_mem_of_ne_nil _ (husable hu)
        exact ⟨m, hmodules ▸ List.mem_append_right _ hm, (hadded m hm).1, (hadded m hm).2.1⟩

theorem mem_loadedFor_loadFiles {order : List String} (h : ∀ path ∈ order, path ∈ paths maps) :
    (∀ path ∈ (fh.loadFiles maps files order).loadedFor, path ∈ paths maps) ↔
      ∀ path ∈ fh.loadedFor, path ∈ paths maps := by
  induction order generalizing fh with
  | nil => rfl
  | cons path order ih =>
    have hpath := h path List.mem_cons_self
    show (∀ p ∈ ((fh.loadFile maps files path).loadFiles maps files order).loadedFor, p ∈ paths maps) ↔ _
    rw [ih _ fun p hp => h p (List.mem_cons_of_mem _ hp)]
    rcases loadFile_cases fh files hpath with ⟨-, hsame⟩ | ⟨-, -, hfor, -⟩
    · rw [hsame]
    · rw [hfor, List.forall_mem_append]
      exact and_iff_left (by simpa using hpath)

/-- A file of the scan is registered after it if it was before, or if its turn
came with its start address free. -/
theorem registered_loadFiles {before after : List String} (h : ∀ p ∈ before ++ path :: after, p ∈ paths maps)
    (hnodup : (before ++ path :: after).Nodup) :
    Registered (fh.loadFiles maps files (before ++ path :: after)) maps path ↔
      Registered fh maps path ∨ (Usable (files path) ∧
        ¬(fh.isLoaded (startOf maps path) = true ∨ ∃ other ∈ before, startOf maps other = startOf maps path)) := by
  have hbefore : ∀ p ∈ before, p ∈ paths maps := fun p hp => h p (List.mem_append_left _ hp)
  have hafter : ∀ p ∈ after, p ∈ paths maps := fun p hp =>
    h p (List.mem_append_right _ (List.mem_cons_of_mem _ hp))
  have hsplit : fh.loadFiles maps files (before ++ path :: after) =
      ((fh.loadFiles maps files before).loadFile maps files path).loadFiles maps files after := by
    rw [Framehop.loadFiles, List.foldl_append]
    rfl
  obtain ⟨-, hcons, hdisjoint⟩ := List.nodup_append.mp hnodup
  have hnotAfter : path ∉ after := (List.nodup_cons.mp hcons).1
  have hnotBefore : path ∉ before := fun hmem => hdisjoint path hmem path List.mem_cons_self rfl
  rw [hsplit, registered_loadFiles_other _ files hafter hnotAfter, registered_loadFile _ files (h path (by simp)),
    registered_loadFiles_other fh files hbefore hnotBefore, ← isLoaded_loadFiles fh files hbefore,
    Bool.not_eq_true, and_comm]

/-! ## Calls -/

/-- A call leaves the table in agreement exactly when it meets the condition. -/
theorem loadModules_follows_iff (hmaps : call.maps = some maps) :
    Follows (fh.loadModules call) maps call.files ↔ Keeps fh call maps := by
  have horder := call.listed maps hmaps
  have hmem : ∀ p, p ∈ call.order ↔ p ∈ paths maps := fun p => horder.mem_iff
  have hnodup : call.order.Nodup := horder.nodup_iff.mpr (List.nodup_dedup _)
  have hcall : fh.loadModules call =
      { fh with writableRanges := writable maps }.loadFiles maps call.files call.order := by
    simp only [Framehop.loadModules, hmaps]
  have hpresent := mem_loadedFor_loadFiles { fh with writableRanges := writable maps } call.files
    fun p hp => (hmem p).mp hp
  rw [hcall]
  constructor
  · intro h
    refine ⟨hpresent.mp h.present, ?_⟩
    intro before path after hsplit husable htaken
    have hpath : path ∈ paths maps := (hmem path).mp (by rw [hsplit]; simp)
    have hregistered := h.registered path hpath husable
    rw [hsplit] at hnodup hregistered
    rw [registered_loadFiles _ call.files (fun p hp => (hmem p).mp (hsplit ▸ hp)) hnodup] at hregistered
    exact hregistered.resolve_right fun hfree => hfree.2 htaken
  · intro h
    refine ⟨fun path hpath husable => ?_, hpresent.mpr h.mapped⟩
    obtain ⟨before, after, hsplit⟩ := List.append_of_mem ((hmem path).mpr hpath)
    rw [hsplit] at hnodup ⊢
    rw [registered_loadFiles _ call.files (fun p hp => (hmem p).mp (hsplit ▸ hp)) hnodup]
    by_cases htaken : fh.isLoaded (startOf maps path) = true ∨
        ∃ other ∈ before, startOf maps other = startOf maps path
    · exact .inl (h.registered before path after hsplit husable htaken)
    · exact .inr ⟨husable, htaken⟩

/-- The table agrees with the mappings after every call of a run that could read them. -/
def AlwaysFollows (calls : List Call) : Prop :=
  ∀ before call after, calls = before ++ call :: after → ∀ maps, call.maps = some maps →
    Follows (Framehop.empty.run (before ++ [call])) maps call.files

/-- Every call of a run meets the condition in the state it finds. -/
def AlwaysKeeps (calls : List Call) : Prop :=
  ∀ before call after, calls = before ++ call :: after → ∀ maps, call.maps = some maps →
    Keeps (Framehop.empty.run before) call maps

/-- The module table follows the mappings through a run exactly when each of its
calls finds every recorded file mapped, and no usable file at a recorded address
that is not registered there. -/
theorem alwaysFollows_iff (calls : List Call) : AlwaysFollows calls ↔ AlwaysKeeps calls := by
  have hstep : ∀ before call, Framehop.empty.run (before ++ [call]) =
      (Framehop.empty.run before).loadModules call := by
    intro before call
    rw [Framehop.run, List.foldl_append]
    rfl
  constructor
  · intro h before call after hcalls maps hmaps
    rw [← loadModules_follows_iff _ hmaps, ← hstep]
    exact h before call after hcalls maps hmaps
  · intro h before call after hcalls maps hmaps
    rw [hstep, loadModules_follows_iff _ hmaps]
    exact h before call after hcalls maps hmaps

/-- A library with a `.text` section, mapped and read. -/
def libraryCall (path : String) : Call where
  maps := some [⟨0x7000, 0x1000, 0, true, false, some path⟩]
  files := fun _ => .ok ⟨[], [], [⟨⟨BinaryParser.shtNobits, some ".text", 0, 0x1000⟩, 0⟩]⟩
  order := paths [⟨0x7000, 0x1000, 0, true, false, some path⟩]
  listed := fun m hm => by
    cases hm
    exact .refl _

/-- A library is unmapped and another one mapped in its place: the range of the
first stays loaded. -/
theorem libraryCall_stale : ¬∀ calls : List Call, AlwaysFollows calls := by
  intro h
  have hfollows := h [libraryCall "/a.so", libraryCall "/b.so"] [libraryCall "/a.so"] (libraryCall "/b.so") [] rfl
    _ rfl
  have hpresent := hfollows.present "/a.so" (by decide)
  exact absurd hpresent (by decide)

end StSpy.FramehopUnwind
