import StSpy.NativeStack

/-!
# The symbol cache

An address that was reported with one frame is shown from the cache ever after,
whatever was reported after that frame and whichever modules are loaded since.
The cache is transparent through a run exactly when no address is reported with
one frame and then an error, and no reload changes what is shown of an address
that is cached.
-/

namespace StSpy

namespace NativeStack

variable {lookups : Lookups} {ns : NativeStack} {addr : UInt64} {frame : StackFrame}

/-- The same with nothing cached. -/
def emptied (ns : NativeStack) : NativeStack := { ns with symbolCache := [] }

/-- A list of addresses is symbolized as with an empty cache, and each of its
addresses as with an empty cache. -/
structure Transparent (lookups : Lookups) (ns : NativeStack) : Prop where
  fromEmpty : ∀ addrs, (symbolizeAddresses lookups ns addrs).1 = (symbolizeAddresses lookups ns.emptied addrs).1
  uncached : ∀ addrs, (symbolizeAddresses lookups ns addrs).1 =
    addrs.flatMap fun addr => (symbolizeAddresses lookups ns.emptied [addr]).1

/-- No address is reported with one frame and then an error. -/
def Clean (symbolicator : Symbolicator) : Prop :=
  ∀ addr frame, (symbolicator addr).frames = [frame] → (symbolicator addr).result = .ok ()

/-- Cached frames are what is shown of their addresses. -/
def UpToDate (lookups : Lookups) (ns : NativeStack) : Prop :=
  ∀ addr frame, ns.symbolCache.lookup addr = some frame →
    (translateNativeFrame lookups frame).toList = shown lookups ns.symbolicator addr

/-- A call of `resolve`: what a reload would give then, and the addresses. -/
structure Resolve where
  reloaded : Symbolicator
  addrs : List UInt64

def run (lookups : Lookups) (ns : NativeStack) (calls : List Resolve) : NativeStack :=
  calls.foldl (fun ns call => (ns.resolve lookups call.reloaded call.addrs).2) ns

/-- A property of the states in which the calls of a run symbolize. -/
def Throughout (P : NativeStack → Prop) (lookups : Lookups) (ns : NativeStack) (calls : List Resolve) : Prop :=
  ∀ before call after, calls = before ++ call :: after → P ((ns.run lookups before).reload call.reloaded)

/-- The modules in force are clean, and a reload has left what is shown of the
cached addresses as it was. -/
structure Keeps (lookups : Lookups) (ns : NativeStack) (call : Resolve) : Prop where
  clean : Clean (ns.reload call.reloaded).symbolicator
  stable : ∀ addr, ns.symbolCache.lookup addr ≠ none →
    shown lookups (ns.reload call.reloaded).symbolicator addr = shown lookups ns.symbolicator addr

/-! ## One address -/

theorem symbolizeAddress_cached (h : ns.symbolCache.lookup addr = some frame) :
    (ns.symbolizeAddress lookups addr).1 = (translateNativeFrame lookups frame).toList := by
  simp [symbolizeAddress, Lru.get, h]

theorem symbolizeAddress_uncached (h : ns.symbolCache.lookup addr = none) :
    ns.symbolizeAddress lookups addr = ns.symbolicate lookups addr := by
  simp [symbolizeAddress, Lru.get, h]

/-- Only a reload changes the symbolicator. -/
theorem symbolizeAddress_symbolicator (lookups : Lookups) (ns : NativeStack) (addr : UInt64) :
    (ns.symbolizeAddress lookups addr).2.symbolicator = ns.symbolicator := by
  unfold symbolizeAddress
  split <;> rfl

/-- What is cached after an address was cached before, or is the one frame it is
reported with. -/
theorem lookup_symbolizeAddress {other : UInt64}
    (h : (ns.symbolizeAddress lookups addr).2.symbolCache.lookup other = some frame) :
    ns.symbolCache.lookup other = some frame ∨ (ns.symbolicator other).frames = [frame] := by
  cases hcached : ns.symbolCache.lookup addr with
  | some cached =>
    left
    rw [← h, ← Lru.lookup_get ns.symbolCache addr other]
    simp [symbolizeAddress, Lru.get, hcached]
  | none =>
    rw [symbolizeAddress_uncached hcached] at h
    unfold symbolicate at h
    simp only at h
    split at h
    · rename_i reported hreported
      rcases Lru.lookup_put h with ⟨rfl, rfl⟩ | h
      · exact .inr hreported
      · exact .inl h
    · exact .inl h

/-- The frame of an address reported with one is cached at once. -/
theorem lookup_symbolicate_self (h : (ns.symbolicator addr).frames = [frame]) :
    (ns.symbolicate lookups addr).2.symbolCache.lookup addr = some frame := by
  simp only [symbolicate, h]
  exact Lru.lookup_put_self (by decide)

theorem shown_of_clean (hclean : Clean ns.symbolicator) (h : (ns.symbolicator addr).frames = [frame]) :
    shown lookups ns.symbolicator addr = (translateNativeFrame lookups frame).toList := by
  rw [shown, h, hclean addr frame h, List.append_nil]
  cases htranslated : translateNativeFrame lookups frame <;> simp [htranslated]

theorem UpToDate.symbolizeAddress (hclean : Clean ns.symbolicator) (h : ns.UpToDate lookups) (addr : UInt64) :
    (ns.symbolizeAddress lookups addr).1 = shown lookups ns.symbolicator addr ∧
      (ns.symbolizeAddress lookups addr).2.UpToDate lookups := by
  constructor
  · cases hcached : ns.symbolCache.lookup addr with
    | some frame => rw [symbolizeAddress_cached hcached, h addr frame hcached]
    | none => rw [symbolizeAddress_uncached hcached]; rfl
  · intro other frame hlookup
    rw [symbolizeAddress_symbolicator]
    rcases lookup_symbolizeAddress hlookup with hbefore | hreported
    · exact h other frame hbefore
    · exact (shown_of_clean hclean hreported).symm

/-! ## A list of addresses -/

theorem UpToDate.symbolizeAddresses (hclean : Clean ns.symbolicator) (h : ns.UpToDate lookups) (addrs : List UInt64) :
    (symbolizeAddresses lookups ns addrs).1 = addrs.flatMap (shown lookups ns.symbolicator) ∧
      (symbolizeAddresses lookups ns addrs).2.UpToDate lookups ∧
      (symbolizeAddresses lookups ns addrs).2.symbolicator = ns.symbolicator := by
  induction addrs generalizing ns with
  | nil => exact ⟨rfl, h, rfl⟩
  | cons addr addrs ih =>
    obtain ⟨hframes, hnext⟩ := UpToDate.symbolizeAddress hclean h addr
    have hsame := symbolizeAddress_symbolicator lookups ns addr
    obtain ⟨hrest, hlast, hlastSame⟩ := ih (hsame ▸ hclean) hnext
    refine ⟨?_, hlast, hlastSame.trans hsame⟩
    rw [NativeStack.symbolizeAddresses]
    simp only [hframes, hrest, hsame, List.flatMap_cons]

theorem upToDate_emptied (lookups : Lookups) (ns : NativeStack) : ns.emptied.UpToDate lookups := fun _ _ h => nomatch h

theorem symbolizeAddresses_single (ns : NativeStack) (addr : UInt64) :
    (symbolizeAddresses lookups ns [addr]).1 = (ns.symbolizeAddress lookups addr).1 := List.append_nil _

theorem symbolizeAddresses_emptied (ns : NativeStack) (addr : UInt64) :
    (symbolizeAddresses lookups ns.emptied [addr]).1 = shown lookups ns.symbolicator addr := by
  rw [symbolizeAddresses_single, symbolizeAddress_uncached rfl]
  rfl

theorem translateNativeFrame_module {translated : Frame} (h : translateNativeFrame lookups frame = some translated) :
    translated.module = some frame.module := by
  unfold translateNativeFrame at h
  split at h
  · split at h
    · cases h
    · cases h
      rfl
  · cases h
    rfl

/-- An error leaves a frame without a module, which no cached frame is translated to. -/
theorem shown_error_ne {symbolicator : Symbolicator} {error : SymbolicateError}
    (h : (symbolicator addr).result = .error error) :
    (translateNativeFrame lookups frame).toList ≠ shown lookups symbolicator addr := by
  intro heq
  have hmem : unknownFrame addr ∈ (translateNativeFrame lookups frame).toList := by
    rw [heq, shown, h]
    exact List.mem_append_right _ List.mem_cons_self
  have hmodule := translateNativeFrame_module (Option.mem_toList.mp hmem)
  cases hmodule

/-- The address asked for twice shows whether its symbolication is clean. -/
theorem Transparent.clean (h : ns.Transparent lookups) : Clean ns.symbolicator := by
  intro addr frame hframes
  cases hresult : (ns.symbolicator addr).result with
  | ok => rfl
  | error error =>
    cases hcached : ns.symbolCache.lookup addr with
    | some cached =>
      have hone := h.uncached [addr]
      rw [symbolizeAddresses_single, symbolizeAddress_cached hcached, List.flatMap_singleton,
        symbolizeAddresses_emptied] at hone
      exact absurd hone (shown_error_ne hresult)
    | none =>
      have htwice := h.uncached [addr, addr]
      simp only [List.flatMap_cons, List.flatMap_nil, List.append_nil, symbolizeAddresses_emptied] at htwice
      rw [symbolizeAddresses] at htwice
      simp only [symbolizeAddresses_single, symbolizeAddress_uncached hcached] at htwice
      rw [symbolizeAddress_cached (lookup_symbolicate_self hframes)] at htwice
      exact absurd (List.append_cancel_left htwice) (shown_error_ne hresult)

theorem transparent_iff_state : ns.Transparent lookups ↔ Clean ns.symbolicator ∧ ns.UpToDate lookups := by
  constructor
  · intro h
    refine ⟨h.clean, fun addr frame hcached => ?_⟩
    have hone := h.uncached [addr]
    rwa [symbolizeAddresses_single, symbolizeAddress_cached hcached, List.flatMap_singleton,
      symbolizeAddresses_emptied] at hone
  · rintro ⟨hclean, hup⟩
    have hshown := fun addrs => (hup.symbolizeAddresses hclean addrs).1
    have hcleanEmptied : Clean ns.emptied.symbolicator := hclean
    have hempty := fun addrs => ((upToDate_emptied lookups ns).symbolizeAddresses hcleanEmptied addrs).1
    refine ⟨fun addrs => (hshown addrs).trans (hempty addrs).symm, fun addrs => ?_⟩
    simp only [hshown, symbolizeAddresses_emptied]

/-! ## A run -/

theorem reload_symbolCache (ns : NativeStack) (reloaded : Symbolicator) :
    (ns.reload reloaded).symbolCache = ns.symbolCache := by
  unfold reload
  split <;> rfl

/-- In a state that is up to date, the condition is transparency after the reload. -/
theorem keeps_iff {call : Resolve} (h : ns.UpToDate lookups) :
    Keeps lookups ns call ↔ (ns.reload call.reloaded).Transparent lookups := by
  rw [transparent_iff_state]
  constructor
  · intro hkeeps
    refine ⟨hkeeps.clean, fun addr frame hcached => ?_⟩
    rw [reload_symbolCache] at hcached
    rw [h addr frame hcached, hkeeps.stable addr (by rw [hcached]; exact Option.some_ne_none _)]
  · rintro ⟨hclean, hup⟩
    refine ⟨hclean, fun addr hcached => ?_⟩
    obtain ⟨frame, hframe⟩ := Option.ne_none_iff_exists'.mp hcached
    rw [← h addr frame hframe]
    exact (hup addr frame (by rw [reload_symbolCache, hframe])).symm

theorem UpToDate.resolve {call : Resolve} (h : (ns.reload call.reloaded).Transparent lookups) :
    (ns.resolve lookups call.reloaded call.addrs).2.UpToDate lookups := by
  obtain ⟨hclean, hup⟩ := transparent_iff_state.mp h
  exact (hup.symbolizeAddresses hclean call.addrs).2.1

/-- As long as its calls are transparent, a run leaves the cache up to date. -/
theorem upToDate_run {calls : List Resolve} (hstart : ns.UpToDate lookups)
    (h : Throughout (Transparent lookups) lookups ns calls) : (ns.run lookups calls).UpToDate lookups := by
  induction calls using List.reverseRecOn with
  | nil => exact hstart
  | append_singleton calls call _ =>
    rw [run, List.foldl_append]
    exact UpToDate.resolve (h calls call [] rfl)

theorem throughout_of_keeps {calls : List Resolve} (hstart : ns.UpToDate lookups)
    (h : ∀ before call after, calls = before ++ call :: after → Keeps lookups (run lookups ns before) call) :
    Throughout (Transparent lookups) lookups ns calls := by
  induction calls using List.reverseRecOn with
  | nil => exact fun before call after hnil => absurd hnil (by simp)
  | append_singleton calls last ih =>
    have hcalls := ih fun before call after hsplit => h before call (after ++ [last]) (by rw [hsplit]; simp)
    intro before call after hsplit
    rcases List.eq_nil_or_concat after with rfl | ⟨after, other, rfl⟩
    · obtain ⟨rfl, hlast⟩ := List.append_inj' hsplit rfl
      cases hlast
      exact (keeps_iff (upToDate_run hstart hcalls)).mp (h calls last [] rfl)
    · refine hcalls before call after ?_
      rw [List.concat_eq_append, ← List.cons_append, ← List.append_assoc] at hsplit
      exact (List.append_inj' hsplit rfl).1

/-- The cache is transparent whenever a run symbolizes, exactly when every call
finds clean modules and a reload that changes nothing of what is cached. -/
theorem transparent_iff (lookups : Lookups) (backend : FramehopUnwind.Framehop) (symbolicator : Symbolicator)
    (calls : List Resolve) :
    Throughout (Transparent lookups) lookups { backend, symbolicator } calls ↔
      ∀ before call after, calls = before ++ call :: after →
        Keeps lookups (run lookups { backend, symbolicator } before) call := by
  have hstart : UpToDate lookups { backend, symbolicator } := fun _ _ h => nomatch h
  refine ⟨fun h before call after hcalls => ?_, throughout_of_keeps hstart⟩
  refine (keeps_iff (upToDate_run hstart fun b c a hbefore => ?_)).mpr (h before call after hcalls)
  exact h b c (a ++ call :: after) (by rw [hcalls, hbefore, List.append_assoc]; rfl)

/-! ### A library loaded over another -/

def noLookups : Lookups := ⟨fun _ _ => none, fun _ => none⟩

/-- The symbolicator that knows a function at 0x1000, and nothing else. -/
def oneFunction (function : String) : Symbolicator := fun addr =>
  if addr = 0x1000 then ⟨[⟨none, none, some function, "/a.so", addr⟩], .ok ()⟩ else ⟨[], .error .noBinaryForAddress⟩

/-- After a reload the cache still shows the function that was there before. -/
theorem oneFunction_stale :
    ¬∀ (lookups : Lookups) (backend : FramehopUnwind.Framehop) (symbolicator : Symbolicator) (calls : List Resolve)
      (call : Resolve) (addrs : List UInt64),
      let ns := (run lookups { backend, symbolicator } calls).reload call.reloaded
      (symbolizeAddresses lookups ns addrs).1 = (symbolizeAddresses lookups ns.emptied addrs).1 := by
  intro h
  have hframes := h noLookups .empty (oneFunction "before") [⟨oneFunction "before", [0x1000, 0x2000]⟩]
    ⟨oneFunction "after", []⟩ [0x1000]
  exact absurd hframes (by decide)

end NativeStack

end StSpy
