import StSpy.Symbolizer.Ranges

/-!
# Trampoline names

The slots of the JIT entry symbols come out of a hash map in any order.
`refresh_jit_entry_symbols` sorts what they hold by address and keeps, of the
entries with one address, the one that came first. So the names are those of
the addresses alone exactly when no address is held under two names.
-/

namespace StSpy

open Blocks

namespace Symbolizer

/-! ## The refreshed vector -/

/-- What the slots hold, in their order. -/
def readEntries (s : Symbolizer) (M : Memory) : List JitEntrySymbol :=
  s.jitEntrySymbolSlots.filterMap fun slot => do
    let address ← M.copyU64 slot.slotAddr
    if address = 0 ∨ !s.pcLooksLikeCogCode address then none
    else some { address, name := slot.name }

/-- The refreshed vector has the first entry of each address. -/
theorem represents_refreshJitEntrySymbols (s : Symbolizer) (M : Memory) :
    Represents JitEntrySymbol.address (s.refreshJitEntrySymbols M).jitEntrySymbols
      (toMap JitEntrySymbol.address (s.readEntries M)) :=
  represents_sort (s.readEntries M)

/-- The last address is in no code, so that a span cut off there loses nothing. -/
theorem lt_of_pcLooksLikeCogCode {s : Symbolizer} {pc : UInt64} (h : s.pcLooksLikeCogCode pc = true) :
    pc < 0xffffffffffffffff := by
  have hlast {q : UInt64} (hq : pc < q) : pc < 0xffffffffffffffff := by
    have hmax := q.toNat_lt
    rw [UInt64.lt_iff_toNat_lt] at hq ⊢
    show pc.toNat < 2 ^ 64 - 1
    omega
  unfold pcLooksLikeCogCode at h
  simp only [Bool.or_eq_true, Bool.and_eq_true, Option.any_eq_true, List.any_eq_true, decide_eq_true_eq] at h
  rcases h with (⟨bounds, -, -, hwindow⟩ | ⟨-, hlow⟩) | ⟨map, -, ⟨hmap, -⟩, -⟩
  · exact hlast hwindow
  · exact lt_of_le_of_lt hlow (by decide)
  · unfold inMap at hmap
    rw [Bool.and_eq_true, decide_eq_true_eq, decide_eq_true_eq] at hmap
    exact hlast hmap.2

theorem lt_saturatingAdd {a b c : UInt64} (hle : a ≤ b) (hspan : b - a < c) (hlast : b < 0xffffffffffffffff) :
    b < saturatingAdd a c := by
  rw [UInt64.lt_iff_toNat_lt, UInt64.toNat_sub_of_le b a hle] at hspan
  rw [UInt64.le_iff_toNat_le] at hle
  unfold saturatingAdd checkedAdd
  split
  · rename_i hfits
    rw [Option.getD_some, UInt64.lt_iff_toNat_lt, toNat_add_of_lt hfits]
    omega
  · exact hlast

/-- The lookup names the entry of the greatest address not above the pc, if that
is near and the pc looks like code. -/
theorem lookupJitEntrySymbol_eq_some {s : Symbolizer} {m : UInt64 → Option JitEntrySymbol}
    (h : Represents JitEntrySymbol.address s.jitEntrySymbols m) {pc : UInt64} {text : String} :
    s.lookupJitEntrySymbol pc = some text ↔
      ∃ e, IsFloor m pc e ∧ pc - e.address < maxJitEntrySpan ∧ s.pcLooksLikeCogCode pc = true ∧
        text = "Cog " ++ e.name := by
  have hfloor := fun e => h.getLast?_eq_some (p := pc) (x := e)
  unfold lookupJitEntrySymbol partitionPoint
  generalize s.jitEntrySymbols = l at hfloor
  have hbelow : ∀ e ∈ l.takeWhile (fun entry => decide (entry.address ≤ pc)), e.address ≤ pc := by
    intro e he
    have hle := List.mem_takeWhile_imp he
    exact of_decide_eq_true hle
  have habove : ∀ e ∈ (l.dropWhile fun entry => decide (entry.address ≤ pc)).head?, pc < e.address := by
    intro e he
    have hnot := List.head?_dropWhile_not (fun entry : JitEntrySymbol => decide (entry.address ≤ pc)) l
    rw [Option.mem_def.mp he] at hnot
    simpa using hnot
  have hsplit := List.takeWhile_append_dropWhile (p := fun entry : JitEntrySymbol => decide (entry.address ≤ pc))
    (l := l)
  generalize l.takeWhile (fun entry => decide (entry.address ≤ pc)) = lower at *
  generalize l.dropWhile (fun entry => decide (entry.address ≤ pc)) = upper at *
  subst hsplit
  rcases List.eq_nil_or_concat lower with rfl | ⟨lower, e, rfl⟩
  · constructor
    · intro hnone
      cases hnone
    · rintro ⟨e, he, -⟩
      cases (hfloor e).mpr he
  · rw [List.concat_eq_append] at *
    have hlast : ∀ x, IsFloor m pc x ↔ x = e := by
      intro x
      rw [← hfloor, List.getLast?_concat, Option.some.injEq, eq_comm]
    have hat : (lower ++ [e] ++ upper)[lower.length]? = some e := by simp
    have hnext : (lower ++ [e] ++ upper)[lower.length + 1]? = upper.head? := by
      rw [List.getElem?_append_right (by simp), List.head?_eq_getElem?]
      simp
    have hle : e.address ≤ pc := hbelow e (by simp)
    have hin : pc - e.address < maxJitEntrySpan → s.pcLooksLikeCogCode pc = true →
        pc < ((upper.head?).map (·.address)).getD (saturatingAdd e.address maxJitEntrySpan) := by
      intro hspan hcode
      cases hhead : upper.head? with
      | some next => exact habove next hhead
      | none =>
        rw [Option.map_none, Option.getD_none]
        exact lt_saturatingAdd hle hspan (lt_of_pcLooksLikeCogCode hcode)
    rw [List.length_append, List.length_singleton]
    simp only [hat, hnext, Option.bind_eq_bind, Option.bind_some, hlast, exists_eq_left, hle, true_and]
    split
    · rename_i hall
      rw [Option.some.injEq]
      exact ⟨fun htext => ⟨hall.2.1, hall.2.2, Eq.symm htext⟩, fun h => Eq.symm h.2.2⟩
    · rename_i hnot
      refine iff_of_false (fun h => nomatch h) ?_
      rintro ⟨hspan, hcode, -⟩
      exact hnot ⟨hin hspan hcode, hspan, hcode⟩

/-! ## The order of the symbols -/

section Order

variable (maps : List MapRange) (binary : BinaryInfo) (bounds : Option (UInt64 × UInt64)) (M : Memory)

/-- A symbolizer with these bounds, made from the symbols in the given order. -/
def withSymbols (symbols : List (String × UInt64)) : Symbolizer :=
  { new maps (some { binary with symbols }) with methodZoneBounds := bounds }

/-- What is said of a pc after a refresh. -/
def trampolineName (symbols : List (String × UInt64)) (pc : UInt64) : Option String :=
  ((withSymbols maps binary bounds symbols).refreshJitEntrySymbols M).lookupJitEntrySymbol pc

/-- The entry of a symbol, if it is a slot and holds code. -/
def entryOf : String × UInt64 → Option JitEntrySymbol
  | (name, addr) =>
    if symbolIsInBss binary addr && looksLikeJitEntrySymbol name then do
      let address ← M.copyU64 addr
      if address = 0 ∨ !(withSymbols maps binary bounds []).pcLooksLikeCogCode address then none
      else some { address, name := cleanJitEntrySymbolName name }
    else none

/-- The answer names the entry of the greatest address not above the pc, if that
is less than 4096 bytes away and the pc looks like Cog code. -/
def NamesNearest (entries : List JitEntrySymbol) (pc : UInt64) (answer : Option String) : Prop :=
  ∀ text, answer = some text ↔ ∃ e ∈ entries, e.address ≤ pc ∧
    (∀ other ∈ entries, other.address ≤ pc → other.address ≤ e.address) ∧ pc - e.address < 4096 ∧
      (withSymbols maps binary bounds []).pcLooksLikeCogCode pc = true ∧ text = "Cog " ++ e.name

/-- Whatever order the symbols come in, the names are the same, and right. -/
def NamesOrderFree : Prop :=
  ∀ symbols symbols', symbols.Perm binary.symbols → symbols'.Perm binary.symbols → ∀ pc,
    trampolineName maps binary bounds M symbols pc = trampolineName maps binary bounds M symbols' pc ∧
      NamesNearest maps binary bounds (symbols.filterMap (entryOf maps binary bounds M)) pc
        (trampolineName maps binary bounds M symbols pc)

/-- No address is held under two names. -/
def Unambiguous (entries : List JitEntrySymbol) : Prop :=
  ∀ e ∈ entries, ∀ other ∈ entries, e.address = other.address → e.name = other.name

variable {maps binary bounds M}

theorem readEntries_withSymbols (symbols : List (String × UInt64)) :
    (withSymbols maps binary bounds symbols).readEntries M =
      symbols.filterMap (entryOf maps binary bounds M) := by
  have hslots : (withSymbols maps binary bounds symbols).jitEntrySymbolSlots =
      (symbols.filter fun (name, addr) => symbolIsInBss binary addr && looksLikeJitEntrySymbol name).map
        fun (name, addr) => { slotAddr := addr, name := cleanJitEntrySymbolName name } := rfl
  rw [readEntries, hslots, List.filterMap_map, List.filterMap_filter]
  rfl

/-- A name is that of the nearest of the first entries of each address. -/
theorem trampolineName_eq_some {symbols : List (String × UInt64)} {pc : UInt64} {text : String} :
    trampolineName maps binary bounds M symbols pc = some text ↔
      ∃ e, IsFloor (toMap JitEntrySymbol.address (symbols.filterMap (entryOf maps binary bounds M))) pc e ∧
        pc - e.address < 4096 ∧ (withSymbols maps binary bounds []).pcLooksLikeCogCode pc = true ∧
          text = "Cog " ++ e.name := by
  have h := represents_refreshJitEntrySymbols (withSymbols maps binary bounds symbols) M
  rw [readEntries_withSymbols] at h
  exact lookupJitEntrySymbol_eq_some h

theorem Unambiguous.injOn {entries : List JitEntrySymbol} (h : Unambiguous entries) :
    ∀ e ∈ entries, ∀ other ∈ entries, e.address = other.address → e = other := by
  intro e he other hother haddress
  have hname := h e he other hother haddress
  cases e
  cases other
  cases haddress
  cases hname
  rfl

theorem namesNearest {symbols : List (String × UInt64)}
    (h : Unambiguous (symbols.filterMap (entryOf maps binary bounds M))) (pc : UInt64) :
    NamesNearest maps binary bounds (symbols.filterMap (entryOf maps binary bounds M)) pc
      (trampolineName maps binary bounds M symbols pc) := by
  intro text
  simp only [trampolineName_eq_some, isFloor_toMap h.injOn, and_assoc]

/-- An entry looks like code. -/
theorem looksLikeCogCode_of_entryOf {symbol : String × UInt64} {e : JitEntrySymbol}
    (h : entryOf maps binary bounds M symbol = some e) :
    (withSymbols maps binary bounds []).pcLooksLikeCogCode e.address = true := by
  obtain ⟨name, addr⟩ := symbol
  unfold entryOf at h
  dsimp only at h
  split at h
  · obtain ⟨address, _, h⟩ := Option.bind_eq_some_iff.mp h
    split at h
    · cases h
    · rename_i hcode
      cases h
      simpa using (not_or.mp hcode).2
  · cases h

/-- The first symbol to hold an address names it. -/
theorem trampolineName_first {symbol : String × UInt64} {e : JitEntrySymbol}
    (h : entryOf maps binary bounds M symbol = some e) (symbols : List (String × UInt64)) :
    trampolineName maps binary bounds M (symbol :: symbols) e.address = some ("Cog " ++ e.name) := by
  rw [trampolineName_eq_some, List.filterMap_cons_some h]
  refine ⟨e, ⟨e.address, le_rfl, ?_, fun k _ hk _ => hk⟩, ?_, looksLikeCogCode_of_entryOf h, rfl⟩
  · rw [toMap_cons, Function.update_self]
  · rw [UInt64.sub_self]
    decide

theorem Unambiguous.perm {entries entries' : List JitEntrySymbol} (h : Unambiguous entries)
    (hperm : entries.Perm entries') : Unambiguous entries' := by
  intro e he other hother
  exact h e (hperm.mem_iff.mpr he) other (hperm.mem_iff.mpr hother)

/-- The names do not depend on the order exactly when no address is held under
two names. -/
theorem namesOrderFree_iff (maps : List MapRange) (binary : BinaryInfo) (bounds : Option (UInt64 × UInt64))
    (M : Memory) :
    NamesOrderFree maps binary bounds M ↔
      Unambiguous (binary.symbols.filterMap (entryOf maps binary bounds M)) := by
  constructor
  · -- two symbols that hold one address, each put first
    intro h e he other hother haddress
    obtain ⟨symbol, hmem, hsymbol⟩ := List.mem_filterMap.mp he
    obtain ⟨symbol', hmem', hsymbol'⟩ := List.mem_filterMap.mp hother
    have hsame := (h _ _ (List.perm_cons_erase hmem).symm (List.perm_cons_erase hmem').symm e.address).1
    have hname := trampolineName_first hsymbol (binary.symbols.erase symbol)
    have hname' := trampolineName_first hsymbol' (binary.symbols.erase symbol')
    rw [← haddress, ← hsame, hname, Option.some.injEq] at hname'
    exact (String.append_right_inj "Cog ").mp hname'
  · intro h symbols symbols' hperm hperm' pc
    have hentries := hperm.filterMap (entryOf maps binary bounds M)
    have hentries' := hperm'.filterMap (entryOf maps binary bounds M)
    have hnames := namesNearest (h.perm hentries.symm) pc
    have hnames' := namesNearest (h.perm hentries'.symm) pc
    refine ⟨Option.ext fun text => ?_, hnames⟩
    rw [hnames text, hnames' text]
    simp only [hentries.mem_iff, hentries'.mem_iff]

end Order

/-- Two slots that hold one address. -/
def aliasedBinary : BinaryInfo where
  symbols := [("ceReturnToInterpreterTrampoline", 0x100), ("stackCheckLabel", 0x108)]
  bssAddr := 0x100
  bssSize := 0x10

/-- Which of the two names the address has is up to the order of the symbols. -/
theorem aliased_orderDependent :
    ¬NamesOrderFree [] aliasedBinary (some (0x20000, 0x30000)) (.ofWords [(0x100, 0x20040), (0x108, 0x20040)]) := by
  intro h
  have hsame := (h aliasedBinary.symbols aliasedBinary.symbols.reverse (.refl _) (List.reverse_perm _) 0x20048).1
  exact absurd hsame (by decide)

end Symbolizer

end StSpy
