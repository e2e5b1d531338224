import StSpy.ConsoleViewer.Display
import StSpy.ConsoleViewer.Samples
import StSpy.Lib.Windows

/-!
# What the screens of `top` tell

The tables count the traces of consecutive samples: of all so far, or of those since
the last reset. Each screen tells of what was counted when it was shown, and what is
counted follows from the keys alone.
-/

namespace StSpy

open Windows

namespace ConsoleViewer

/-- Which samples the tables count, and whether a reset is asked for. -/
structure Watch where
  window : Window := .empty
  resetting : Bool := false

/-- The traces of these samples that are counted. -/
def included (config : Config) (samples : List (List StackTrace)) : List StackTrace :=
  samples.flatten.filter fun trace => config.includeIdle || trace.active

def errorEvents : List Typed → List (Pid × String) → List Event
  | _, [] => []
  | typed, error :: errors => .incrementError (typed.headD {}) error.2 :: errorEvents typed.tail errors

/-- The calls that a sample takes. -/
def eventsOf (processed : Processed) : List Event :=
  (processed.sample.late.map Event.incrementLateSample).toList ++ errorEvents processed.typed processed.errors ++
    [.increment ((processed.typed.drop processed.errors.length).headD {}) processed.sample.traces]

/-- The samples whose traces a call counts. -/
def sampledBy : Event → List (List StackTrace)
  | .increment _ traces => [traces]
  | .incrementError _ _ | .incrementLateSample _ | .resetCurrent => []

/-- Whether the call that counts one more sample shows a screen, with these keys typed meanwhile. -/
def refreshes (viewer : ConsoleViewer) (keys : List Char) : Bool :=
  let stats :=
    { viewer.stats with
      overallSamples := viewer.stats.overallSamples + 1
      elapsed := viewer.stats.elapsed + 1 }
  ({ viewer with stats }.type keys).shouldRefresh

namespace Watch

variable (watch : Watch)

/-- A reset that was asked for before a call takes effect, one that is asked for during it waits. -/
def reset (typed : Typed) : Watch where
  window := if watch.resetting || resets typed.before then watch.window.cut else watch.window
  resetting := resets typed.during

def call : Event → Watch
  | .increment typed _ => { watch.reset typed with window := (watch.reset typed).window.grow }
  | .incrementError typed _ => watch.reset typed
  | .incrementLateSample _ | .resetCurrent => watch

/-- What the screen tells of that a call shows, where a refresh is due. -/
def shownBy (viewer : ConsoleViewer) : Event → List Window
  | .increment typed traces =>
    if (viewer.type typed.before).maybeReset.refreshes typed.during then
      [(watch.call (.increment typed traces)).window]
    else []
  | .incrementError typed error =>
    if (viewer.type typed.before).maybeReset.refreshes typed.during then
      [(watch.call (.incrementError typed error)).window]
    else []
  | .incrementLateSample _ | .resetCurrent => []

/-- What the screens of a run tell of, the latest first. -/
def shown : Watch → ConsoleViewer → List Event → List Window
  | _, _, [] => []
  | watch, viewer, event :: events => shown (watch.call event) (viewer.apply event) events ++ watch.shownBy viewer event

/-- What is counted after these samples. -/
def of (samples : List Processed) : Watch := (samples.flatMap eventsOf).foldl call {}

/-- What the screens that were shown for these samples tell of. -/
def shownOf (config : ViewerConfig) (samples : List Processed) : List Window :=
  shown {} (new config) (samples.flatMap eventsOf)

end Watch

/-- The tables are those of the samples in the window. -/
def Tells (config : Config) (samples : List (List StackTrace)) (stats : Stats) (window : Window) : Prop :=
  Consistent stats (included config (window.of samples))

/-- The tables count the samples of the window, which goes up to the last one, and each screen counted those of its
own window when it was shown. The windows only move forward. -/
structure Shows (viewer : ConsoleViewer) (watch : Watch) (shown : List Window) (samples : List (List StackTrace)) :
    Prop where
  resetting : viewer.options.reset = watch.resetting
  upto : watch.window.upto = samples.length
  now : Tells viewer.config.toConfig samples viewer.stats watch.window
  screens : List.Forall₂ (Tells viewer.config.toConfig samples) viewer.screens shown
  ordered : (watch.window :: shown).Pairwise (· ≥ ·)

variable {viewer : ConsoleViewer} {watch : Watch} {earlier : List Window} {samples : List (List StackTrace)}
  {typed : Typed}

/-! ## One call -/

theorem included_append (config : Config) (samples others : List (List StackTrace)) :
    included config (samples ++ others) = included config samples ++ included config others := by
  rw [included, List.flatten_append, List.filter_append]
  rfl

/-- A call shows its own counts where a refresh is due. -/
theorem incrementCommon_screens (viewer : ConsoleViewer) (keys : List Char) :
    (viewer.refreshes keys = false ∧ (viewer.incrementCommon keys).screens = viewer.screens) ∨
      viewer.refreshes keys = true ∧ ∃ screen, (viewer.incrementCommon keys).screens = screen :: viewer.screens ∧
        screen.lineCounts = viewer.stats.lineCounts ∧ screen.functionCounts = viewer.stats.functionCounts := by
  unfold incrementCommon
  dsimp only
  split
  · rename_i hrefresh
    exact .inr ⟨hrefresh, _, rfl, rfl, rfl⟩
  · rename_i hrefresh
    exact .inl ⟨Bool.eq_false_iff.mpr hrefresh, rfl⟩

/-- The traces do not matter to it. -/
theorem refreshes_incrementTraces (viewer : ConsoleViewer) (config : Config) (traces : List StackTrace)
    (keys : List Char) :
    { viewer with stats := incrementTraces config { viewer.stats with threads := 0, processes := 0 } none traces
      }.refreshes keys = viewer.refreshes keys := by
  obtain ⟨_, _, _, _, _, htraces⟩ :=
    incrementTraces_eq config { viewer.stats with threads := 0, processes := 0 } none traces
  rw [htraces]
  rfl

theorem incrementCommon_reset (viewer : ConsoleViewer) (keys : List Char) :
    (viewer.incrementCommon keys).options.reset = (viewer.options.reset || resets keys) := by
  rw [← type_reset]
  unfold incrementCommon
  dsimp only
  split <;> rfl

theorem Shows.incrementCommon (viewer : ConsoleViewer) (h : viewer.Shows watch earlier samples)
    (hunreset : watch.resetting = false) (keys : List Char) :
    (viewer.incrementCommon keys).Shows { watch with resetting := resets keys }
      ((if viewer.refreshes keys then [watch.window] else []) ++ earlier) samples := by
  have hconfig := incrementCommon_config viewer keys
  have hreset := incrementCommon_reset viewer keys
  rw [h.resetting, hunreset, Bool.false_or] at hreset
  have hnow := Consistent.incrementCommon viewer h.now keys
  rw [← hconfig] at hnow
  have hscreens := h.screens
  rw [← hconfig] at hscreens
  rcases incrementCommon_screens viewer keys with ⟨hnot, hsame⟩ | ⟨hrefresh, screen, hshown, hlines, hfunctions⟩
  · rw [hnot]
    exact ⟨hreset, h.upto, hnow, hsame ▸ hscreens, h.ordered⟩
  · have hscreen : Tells (viewer.incrementCommon keys).config.toConfig samples screen watch.window :=
      ⟨hlines ▸ hconfig ▸ h.now.lines, hfunctions ▸ hconfig ▸ h.now.functions⟩
    rw [hrefresh]
    refine ⟨hreset, h.upto, hnow, hshown ▸ .cons hscreen hscreens, List.pairwise_cons.mpr ⟨?_, h.ordered⟩⟩
    exact List.forall_mem_cons.mpr ⟨le_rfl, (List.pairwise_cons.mp h.ordered).1⟩

theorem maybeReset_screens (viewer : ConsoleViewer) : viewer.maybeReset.screens = viewer.screens := by
  unfold maybeReset
  split <;> rfl

theorem maybeReset_reset (viewer : ConsoleViewer) : viewer.maybeReset.options.reset = false := by
  unfold maybeReset
  split
  · rfl
  · rename_i hreset
    exact Bool.eq_false_iff.mpr hreset

/-- What is kept are the samples that the window keeps. -/
theorem kept_eq (h : viewer.Shows watch earlier samples) (typed : Typed) :
    viewer.kept typed (included viewer.config.toConfig (watch.window.of samples)) =
      included viewer.config.toConfig ((watch.reset typed).window.of samples) := by
  rw [kept, type_reset, h.resetting, Watch.reset]
  dsimp only
  split
  · rw [Window.of_cut]
    rfl
  · rfl

theorem le_reset (watch : Watch) (typed : Typed) : watch.window ≤ (watch.reset typed).window := by
  rw [Watch.reset]
  dsimp only
  split
  · exact Window.le_cut watch.window
  · exact le_rfl

theorem upto_reset (watch : Watch) (typed : Typed) : (watch.reset typed).window.upto = watch.window.upto := by
  rw [Watch.reset]
  dsimp only
  split <;> rfl

/-- The window moves on. -/
theorem ordered_of_le {window next : Window} {earlier : List Window} (h : (window :: earlier).Pairwise (· ≥ ·))
    (hle : window ≤ next) : (next :: earlier).Pairwise (· ≥ ·) := by
  obtain ⟨hfirst, hrest⟩ := List.pairwise_cons.mp h
  exact List.pairwise_cons.mpr ⟨fun other hother => (hfirst other hother).trans hle, hrest⟩

theorem Shows.maybeReset (h : viewer.Shows watch earlier samples) (typed : Typed) :
    (viewer.type typed.before).maybeReset.Shows { watch.reset typed with resetting := false } earlier samples := by
  have hconfig : (viewer.type typed.before).maybeReset.config = viewer.config := maybeReset_config _
  have hnow := h.now.maybeReset typed
  rw [kept_eq h, ← hconfig] at hnow
  have hscreens := h.screens
  rw [← hconfig] at hscreens
  refine ⟨maybeReset_reset _, (upto_reset watch typed).trans h.upto, hnow, ?_, ordered_of_le h.ordered (le_reset _ _)⟩
  rw [maybeReset_screens]
  exact hscreens

theorem Tells.append {config : Config} {stats : Stats} {window : Window} (h : Tells config samples stats window)
    (hupto : window.upto ≤ samples.length) (others : List (List StackTrace)) :
    Tells config (samples ++ others) stats window := by
  rw [Tells, Window.of_append hupto]
  exact h

/-- The traces of one more sample are counted. -/
theorem Shows.count (h : viewer.Shows watch earlier samples) {stats : Stats} {traces : List StackTrace}
    (hstats : Consistent stats (included viewer.config.toConfig (watch.window.of samples) ++
      traces.filter fun trace => viewer.config.includeIdle || trace.active)) :
    { viewer with stats }.Shows { watch with window := watch.window.grow } earlier (samples ++ [traces]) where
  resetting := h.resetting
  upto := by
    rw [List.length_append, ← h.upto]
    rfl
  now := by
    show Consistent stats (included viewer.config.toConfig (watch.window.grow.of (samples ++ [traces])))
    rw [Window.of_grow h.upto, included_append]
    simpa only [included, List.flatten_singleton] using hstats
  screens := by
    refine List.forall₂_iff_get.mpr ⟨h.screens.length_eq, fun i hscreen hwindow => ?_⟩
    refine Tells.append ((List.forall₂_iff_get.mp h.screens).2 i hscreen hwindow) ?_ [traces]
    rw [← h.upto]
    exact ((List.pairwise_cons.mp h.ordered).1 _ (List.get_mem _ _)).2
  ordered := ordered_of_le h.ordered (Window.le_grow _)

theorem Shows.apply (h : viewer.Shows watch earlier samples) (event : Event) :
    (viewer.apply event).Shows (watch.call event) (watch.shownBy viewer event ++ earlier)
      (samples ++ sampledBy event) := by
  cases event with
  | increment typed traces =>
    have hreset := h.maybeReset typed
    have hstart : Consistent { (viewer.type typed.before).maybeReset.stats with threads := 0, processes := 0 } _ :=
      ⟨hreset.now.lines, hreset.now.functions⟩
    have htraces := hreset.count (hstart.incrementTraces _ none traces)
    have hcommon := Shows.incrementCommon _ htraces rfl typed.during
    rwa [refreshes_incrementTraces] at hcommon
  | incrementError typed error =>
    have hreset := h.maybeReset typed
    rw [sampledBy, List.append_nil]
    exact Shows.incrementCommon
      { (viewer.type typed.before).maybeReset with
        stats := { (viewer.type typed.before).maybeReset.stats with
          errors := (viewer.type typed.before).maybeReset.stats.errors + 1, lastError := some error } }
      ⟨hreset.resetting, hreset.upto, ⟨hreset.now.lines, hreset.now.functions⟩, hreset.screens, hreset.ordered⟩
      rfl typed.during
  | incrementLateSample delay =>
    rw [sampledBy, List.append_nil]
    exact ⟨h.resetting, h.upto, ⟨h.now.lines, h.now.functions⟩, h.screens, h.ordered⟩
  | resetCurrent =>
    rw [sampledBy, List.append_nil]
    exact ⟨h.resetting, h.upto, h.now.resetCurrent, h.screens, h.ordered⟩

/-! ## A run -/

theorem Shows.run (h : viewer.Shows watch earlier samples) (events : List Event) :
    (events.foldl ConsoleViewer.apply viewer).Shows (events.foldl Watch.call watch)
      (watch.shown viewer events ++ earlier) (samples ++ events.flatMap sampledBy) := by
  induction events generalizing viewer watch earlier samples with
  | nil =>
    rw [List.flatMap_nil, List.append_nil]
    exact h
  | cons event events ih =>
    have hrest := ih (h.apply event)
    rwa [← List.append_assoc, List.append_assoc samples] at hrest

/-- The calls of a sample, as the loop makes them. -/
theorem sampleConsole_eq (viewer : ConsoleViewer) (processed : Processed) :
    viewer.sampleConsole processed = (eventsOf processed).foldl apply viewer := by
  have herrors : ∀ (errors : List (Pid × String)) (viewer : ConsoleViewer) (typed : List Typed),
      viewer.incrementErrors typed errors = (errorEvents typed errors).foldl apply viewer := by
    intro errors
    induction errors with
    | nil => exact fun _ _ => rfl
    | cons error errors ih => exact fun viewer typed => ih (viewer.incrementError (typed.headD {}) error.2) typed.tail
  rw [eventsOf, List.foldl_append, List.foldl_append, ← herrors]
  cases hlate : processed.sample.late with
  | none =>
    rw [sampleConsole, hlate]
    rfl
  | some delay =>
    rw [sampleConsole, hlate]
    rfl

theorem run_eq (viewer : ConsoleViewer) (samples : List Processed) :
    viewer.run samples = (samples.flatMap eventsOf).foldl apply viewer := by
  rw [run, List.foldl_flatMap]
  congr 1
  funext viewer processed
  exact sampleConsole_eq viewer processed

theorem flatMap_sampledBy (samples : List Processed) :
    (samples.flatMap eventsOf).flatMap sampledBy = samples.map fun processed => processed.sample.traces := by
  have herrors : ∀ (errors : List (Pid × String)) (typed : List Typed),
      (errorEvents typed errors).flatMap sampledBy = [] := by
    intro errors
    induction errors with
    | nil => exact fun _ => rfl
    | cons error errors ih => exact fun typed => ih typed.tail
  have hsample : ∀ processed, (eventsOf processed).flatMap sampledBy = [processed.sample.traces] := by
    intro processed
    rw [eventsOf, List.flatMap_append, List.flatMap_append, herrors, List.append_nil, List.flatMap_singleton, sampledBy]
    cases processed.sample.late <;> rfl
  rw [List.flatMap_assoc, List.map_eq_flatMap]
  simp only [hsample]

/-- The screens of a run, whatever is typed. -/
theorem shows_run (config : ViewerConfig) (samples : List Processed) :
    ((new config).run samples).Shows (Watch.of samples) (Watch.shownOf config samples)
      (samples.map fun processed => processed.sample.traces) := by
  have hnew : (new config).Shows {} [] [] :=
    ⟨rfl, rfl, ⟨.empty lineLabel, .empty functionLabel⟩, .nil, List.pairwise_singleton _ _⟩
  have hrun := hnew.run (samples.flatMap eventsOf)
  rwa [List.append_nil, List.nil_append, flatMap_sampledBy, ← run_eq] at hrun

/-! ## A run without a reset -/

def Event.Quiet : Event → Prop
  | .increment typed _ | .incrementError typed _ => typed.Quiet
  | .incrementLateSample _ | .resetCurrent => True

theorem errorEvents_quiet {typed : List Typed} (hquiet : ∀ t ∈ typed, t.Quiet) (errors : List (Pid × String)) :
    ∀ event ∈ errorEvents typed errors, event.Quiet := by
  induction errors generalizing typed with
  | nil => exact fun _ h => nomatch h
  | cons error errors ih =>
    rw [errorEvents, List.forall_mem_cons]
    exact ⟨headD_quiet hquiet, ih fun t ht => hquiet t (List.mem_of_mem_tail ht)⟩

theorem eventsOf_quiet {processed : Processed} (hquiet : ∀ t ∈ processed.typed, t.Quiet) :
    ∀ event ∈ eventsOf processed, event.Quiet := by
  rw [eventsOf, List.forall_mem_append, List.forall_mem_append, List.forall_mem_singleton]
  refine ⟨⟨fun event hevent => ?_, errorEvents_quiet hquiet processed.errors⟩,
    headD_quiet fun t ht => hquiet t (List.mem_of_mem_drop ht)⟩
  obtain ⟨delay, -, rfl⟩ := Option.map_eq_some_iff.mp (Option.mem_toList.mp hevent)
  trivial

namespace Watch

variable {watch : Watch}

/-- All so far is counted, and no reset is asked for. -/
structure Whole (watch : Watch) : Prop where
  since : watch.window.since = 0
  unreset : watch.resetting = false

theorem Whole.reset (h : watch.Whole) {typed : Typed} (hquiet : typed.Quiet) : (watch.reset typed).Whole where
  since := by
    rw [Watch.reset, h.unreset, hquiet.before]
    exact h.since
  unreset := hquiet.during

theorem Whole.call (h : watch.Whole) {event : Event} (hquiet : event.Quiet) : (watch.call event).Whole := by
  cases event with
  | increment typed traces =>
    have hreset := h.reset hquiet
    exact ⟨hreset.since, hreset.unreset⟩
  | incrementError typed error => exact h.reset hquiet
  | incrementLateSample delay => exact h
  | resetCurrent => exact h

theorem eq_of_mem_shownBy {viewer : ConsoleViewer} {event : Event} {window : Window}
    (h : window ∈ watch.shownBy viewer event) : window = (watch.call event).window := by
  cases event with
  | increment typed traces | incrementError typed error =>
    simp only [shownBy] at h
    split at h
    · exact List.mem_singleton.mp h
    · cases h
  | incrementLateSample delay | resetCurrent => cases h

theorem Whole.run (h : watch.Whole) (viewer : ConsoleViewer) {events : List Event}
    (hquiet : ∀ event ∈ events, event.Quiet) :
    (events.foldl Watch.call watch).Whole ∧ ∀ window ∈ watch.shown viewer events, window.since = 0 := by
  induction events generalizing watch viewer with
  | nil => exact ⟨h, fun _ hmem => by cases hmem⟩
  | cons event events ih =>
    obtain ⟨hfirst, hrest⟩ := List.forall_mem_cons.mp hquiet
    have hcall := h.call hfirst
    obtain ⟨hwhole, hshown⟩ := ih hcall (viewer.apply event) hrest
    refine ⟨hwhole, fun window hmem => ?_⟩
    rcases List.mem_append.mp hmem with hlater | hby
    · exact hshown window hlater
    · rw [eq_of_mem_shownBy hby]
      exact hcall.since

/-- Where no reset is asked for, all samples so far are counted. -/
theorem since_eq_zero (config : ViewerConfig) {samples : List Processed}
    (hquiet : ∀ processed ∈ samples, ∀ typed ∈ processed.typed, typed.Quiet) :
    ∀ window ∈ (Watch.of samples).window :: shownOf config samples, window.since = 0 := by
  have hevents : ∀ event ∈ samples.flatMap eventsOf, event.Quiet := by
    intro event hevent
    obtain ⟨processed, hprocessed, hevent⟩ := List.mem_flatMap.mp hevent
    exact eventsOf_quiet (hquiet processed hprocessed) event hevent
  have hstart : ({} : Watch).Whole := ⟨rfl, rfl⟩
  obtain ⟨hwhole, hshown⟩ := hstart.run (new config) hevents
  exact List.forall_mem_cons.mpr ⟨hwhole.since, hshown⟩

end Watch

end ConsoleViewer

end StSpy
