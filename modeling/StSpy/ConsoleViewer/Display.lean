import StSpy.ConsoleViewer.Counts
import StSpy.Lib.Errors

/-!
# The screen of the console viewer

What `display` writes, line by line, with its subtractions where they are made.
They wrap, as without overflow checks. The heights of header and help screen are
counted by hand. They agree with the lines written, but nothing keeps them below
the height of the terminal.
-/

namespace StSpy

open Errors

/-- The terminal, and what the viewer was made with. The rates are compared in
floating point. -/
structure Terminal where
  height : UInt16
  width : UInt16
  command : String
  version : Option String
  /-- Whether so many late samples of so many are more than a tenth. -/
  lateRateHigh : Nat → Nat → Bool
  /-- Whether so many errors in so many samples are a hundredth or more. -/
  errorRateHigh : Nat → Nat → Bool

/-- A line with the values that it shows. -/
inductive Line where
  | behind (delay : Nat)
  | collecting (command version : String)
  | collectingSubprocesses (command : String)
  | totalSamples (overallSamples : Nat)
  | errorRate (overallSamples errors : Nat) (lastError : String)
  | active (active currentSamples threads : Nat) (processes : Option Nat)
  | blank
  | tableHeader (sortColumn : Nat) (showLinenumbers : Bool) (width : UInt64)
  | row (entry : FunctionStatistics) (currentSamples : Nat) (label : String) (width : UInt64)
  /-- A blank line of the loop that fills the table. -/
  | padding
  | keyboardShortcuts (width : UInt64)
  | shortcut (key action : String)
  | quit
  deriving DecidableEq

inductive Drawn where
  | line (line : Line)
  /-- `a - b` in `usize`. -/
  | subtract (a b : UInt64)
  deriving DecidableEq

def Drawn.isLine : Drawn → Bool
  | .line _ => true
  | .subtract _ _ => false

inductive DisplayPanic where
  | unknownSortColumn
  | noVersion
  | noLastError

/-- Ties may come in any order. -/
def sortCounts (counts : FunctionCounts) (sortColumn : Nat) :
    Except DisplayPanic (List (Sigma fun _ : String => FunctionStatistics)) :=
  match sortColumn with
  | 1 => .ok (counts.entries.mergeSort fun a b => a.2.currentOwn ≥ b.2.currentOwn)
  | 2 => .ok (counts.entries.mergeSort fun a b => a.2.currentTotal ≥ b.2.currentTotal)
  | 3 => .ok (counts.entries.mergeSort fun a b => a.2.overallOwn ≥ b.2.overallOwn)
  | 4 => .ok (counts.entries.mergeSort fun a b => a.2.overallTotal ≥ b.2.overallTotal)
  | _ => .error .unknownSortColumn

/-- What follows the table. -/
def footer (usage : Bool) (width : UInt64) : List Line :=
  if usage then
    [.keyboardShortcuts width,
      .blank,
      .shortcut "key" "action",
      .shortcut "1" "Sort by %Own (% of time currently spent in the function)",
      .shortcut "2" "Sort by %Total (% of time currently in the function and its children)",
      .shortcut "3" "Sort by OwnTime (Overall time spent in the function)",
      .shortcut "4" "Sort by TotalTime (Overall time spent in the function and its children)",
      .shortcut "L,l" "Toggle between aggregating by line number or by function",
      .shortcut "R,r" "Reset statistics",
      .shortcut "X,x" "Exit this help screen",
      .blank]
  else [.quit]

namespace ConsoleViewer

variable (viewer : ConsoleViewer) (terminal : Terminal)

/-- The table that is shown. -/
def shownCounts : FunctionCounts :=
  if viewer.options.showLinenumbers then viewer.stats.lineCounts else viewer.stats.functionCounts

/-- The delay of the late banner, if it is shown. -/
def lateDelay : Option Nat :=
  viewer.stats.lastDelay.filter fun delay =>
    terminal.lateRateHigh viewer.stats.lateSamples viewer.stats.overallSamples && decide (delay > 1000000000)

def commandLine : Except DisplayPanic Line :=
  if viewer.config.subprocesses then .ok (.collectingSubprocesses terminal.command)
  else
    match terminal.version with
    | some version => .ok (.collecting terminal.command version)
    | none => .error .noVersion

def samplesLine : Except DisplayPanic Line :=
  if terminal.errorRateHigh viewer.stats.errors viewer.stats.overallSamples ∧ viewer.stats.overallSamples > 100 then
    match viewer.stats.lastError with
    | some lastError => .ok (.errorRate viewer.stats.overallSamples viewer.stats.errors lastError)
    | none => .error .noLastError
  else .ok (.totalSamples viewer.stats.overallSamples)

def activeLine : Line :=
  .active viewer.stats.active viewer.stats.currentSamples viewer.stats.threads
    (if viewer.config.subprocesses then some viewer.stats.processes else none)

/-- The lines kept free of rows; a narrow terminal has two lines for a row. -/
def headerLines : UInt64 :=
  let headerLines := if viewer.options.usage then 18 else 8
  let headerLines := if (viewer.lateDelay terminal).isSome then headerLines + 1 else headerLines
  if terminal.width.toUInt64 > 50 then headerLines else headerLines + terminal.height.toUInt64 / 2

/-- The width left for the names; a row uses two of it for blanks. -/
def maxFunctionWidth : UInt64 :=
  if terminal.width.toUInt64 > 50 then terminal.width.toUInt64 - 35 else terminal.width.toUInt64

/-- What is drawn, in order, with these lines and entries. -/
def layout (commandLine samplesLine : Line) (counts : List (Sigma fun _ : String => FunctionStatistics)) :
    List Drawn :=
  let height := terminal.height.toUInt64
  let width := terminal.width.toUInt64
  let headerLines := viewer.headerLines terminal
  let maxFunctionWidth := maxFunctionWidth terminal
  let rows := counts.take (height - headerLines).toNat
  let banner : List Drawn := (viewer.lateDelay terminal).toList.map fun delay => .line (.behind delay)
  let header : List Drawn := [.line commandLine, .line samplesLine, .line viewer.activeLine, .line .blank]
  let widthLeft : List Drawn := if width > 50 then [.subtract width 35] else []
  let tableHeader : List Drawn :=
    [.line (.tableHeader viewer.options.sortColumn viewer.options.showLinenumbers maxFunctionWidth)]
  let table : List Drawn := rows.flatMap fun row =>
    [.subtract maxFunctionWidth 2, .line (.row row.2 viewer.stats.currentSamples row.1 (maxFunctionWidth - 2))]
  let padding : List Drawn := List.replicate ((height - headerLines).toNat - rows.length) (.line .padding)
  let footer : List Drawn := (footer viewer.options.usage width).map .line
  let budget : List Drawn := [.subtract height headerLines]
  banner ++ header ++ widthLeft ++ tableHeader ++ budget ++ table ++ budget ++ padding ++ [.line .blank] ++ footer

/-- What `display` draws if every write succeeds. -/
def draw : Except DisplayPanic (List Drawn) := do
  let counts ← sortCounts viewer.shownCounts viewer.options.sortColumn
  let commandLine ← viewer.commandLine terminal
  let samplesLine ← viewer.samplesLine terminal
  return viewer.layout terminal commandLine samplesLine counts

end ConsoleViewer

/-- No subtraction underflows, the loop that fills the table makes at most `height`
turns, and so many lines are written at most. -/
structure FitsHeight (height : UInt16) (drawn : List Drawn) : Prop where
  subtractions : ∀ a b, .subtract a b ∈ drawn → b ≤ a
  paddings : drawn.count (.line .padding) ≤ height.toNat
  lines : drawn.countP Drawn.isLine ≤ height.toNat

/-- The lines around the rows, one more than are written. -/
def fixedLines (usage late : Bool) : Nat := (if usage then 18 else 8) + if late then 1 else 0

/-- The lines around the rows are no more than the terminal has, or than half of it
where it is narrow; and a row has room for its two blanks, if there is one. -/
structure Terminal.Roomy (terminal : Terminal) (usage late : Bool) (functions : Nat) : Prop where
  tall : if 50 < terminal.width.toNat then fixedLines usage late ≤ terminal.height.toNat
    else 2 * fixedLines usage late ≤ terminal.height.toNat + 1
  wide : 2 ≤ terminal.width.toNat ∨ functions = 0 ∨ terminal.height.toNat ≤ 2 * fixedLines usage late

namespace ConsoleViewer

variable {viewer : ConsoleViewer} {terminal : Terminal}

/-! ## The budget of the rows -/

theorem width_gt_iff : terminal.width.toUInt64 > 50 ↔ 50 < terminal.width.toNat := by
  rw [gt_iff_lt, UInt64.lt_iff_toNat_lt, UInt16.toNat_toUInt64]
  rfl

theorem headerLines_toNat (viewer : ConsoleViewer) (terminal : Terminal) :
    (viewer.headerLines terminal).toNat =
      fixedLines viewer.options.usage (viewer.lateDelay terminal).isSome +
        if 50 < terminal.width.toNat then 0 else terminal.height.toNat / 2 := by
  have hheight := terminal.height.toNat_lt
  have hfixed : ((if (viewer.lateDelay terminal).isSome then (if viewer.options.usage then 18 else 8) + 1
      else if viewer.options.usage then 18 else 8 : UInt64)).toNat =
      fixedLines viewer.options.usage (viewer.lateDelay terminal).isSome := by
    cases viewer.options.usage <;> cases (viewer.lateDelay terminal).isSome <;> rfl
  have hle : fixedLines viewer.options.usage (viewer.lateDelay terminal).isSome ≤ 19 := by
    unfold fixedLines
    split <;> split <;> omega
  unfold headerLines
  dsimp only
  split
  · rename_i hwide
    rw [hfixed, if_pos (width_gt_iff.mp hwide), Nat.add_zero]
  · rename_i hnarrow
    rw [UInt64.toNat_add, hfixed, UInt64.toNat_div, UInt16.toNat_toUInt64, if_neg (mt width_gt_iff.mpr hnarrow)]
    show (_ + terminal.height.toNat / 2) % 2 ^ 64 = _
    omega

/-- The rows have a budget exactly when the terminal is tall. -/
theorem headerLines_le_iff :
    viewer.headerLines terminal ≤ terminal.height.toUInt64 ↔
      if 50 < terminal.width.toNat then
        fixedLines viewer.options.usage (viewer.lateDelay terminal).isSome ≤ terminal.height.toNat
      else 2 * fixedLines viewer.options.usage (viewer.lateDelay terminal).isSome ≤ terminal.height.toNat + 1 := by
  rw [UInt64.le_iff_toNat_le, UInt16.toNat_toUInt64, headerLines_toNat]
  split <;> omega

/-! ## What is drawn -/

theorem length_sortCounts {shown : FunctionCounts} {sortColumn : Nat}
    {counts : List (Sigma fun _ : String => FunctionStatistics)} (h : sortCounts shown sortColumn = .ok counts) :
    counts.length = shown.entries.length := by
  unfold sortCounts at h
  split at h <;> cases h <;> exact List.length_mergeSort _

variable {commandLine samplesLine : Line} {counts : List (Sigma fun _ : String => FunctionStatistics)}

theorem two_le_maxFunctionWidth_iff : 2 ≤ maxFunctionWidth terminal ↔ 2 ≤ terminal.width.toNat := by
  unfold maxFunctionWidth
  rw [UInt64.le_iff_toNat_le]
  show 2 ≤ _ ↔ _
  split
  · rename_i hwide
    have hlt := width_gt_iff.mp hwide
    have hle : (35 : UInt64) ≤ terminal.width.toUInt64 := by
      rw [UInt64.le_iff_toNat_le, UInt16.toNat_toUInt64]
      show 35 ≤ _
      omega
    rw [UInt64.toNat_sub_of_le _ _ hle, UInt16.toNat_toUInt64]
    show 2 ≤ _ - 35 ↔ _
    omega
  · rw [UInt16.toNat_toUInt64]

/-- The subtractions made: for the wide table, for the rows, and in each row. -/
theorem subtract_mem_layout {a b : UInt64} :
    .subtract a b ∈ viewer.layout terminal commandLine samplesLine counts ↔
      (terminal.width.toUInt64 > 50 ∧ a = terminal.width.toUInt64 ∧ b = 35) ∨
      (a = terminal.height.toUInt64 ∧ b = viewer.headerLines terminal) ∨
      (counts.take (terminal.height.toUInt64 - viewer.headerLines terminal).toNat ≠ [] ∧
        a = maxFunctionWidth terminal ∧ b = 2) := by
  have hlines (lines : List Line) : Drawn.subtract a b ∉ lines.map Drawn.line := by simp
  have hlate : Drawn.subtract a b ∉ (viewer.lateDelay terminal).toList.map fun delay => Drawn.line (.behind delay) := by
    simp
  have hrows (rows : List (Sigma fun _ : String => FunctionStatistics)) (width : UInt64) :
      (Drawn.subtract a b ∈ rows.flatMap fun row => [.subtract width 2,
        .line (.row row.2 viewer.stats.currentSamples row.1 (width - 2))]) ↔ rows ≠ [] ∧ a = width ∧ b = 2 := by
    cases rows with
    | nil => simp
    | cons row rows =>
      simp
  have hwide : Drawn.subtract a b ∈ (if terminal.width.toUInt64 > 50 then
        [Drawn.subtract terminal.width.toUInt64 35] else []) ↔
      terminal.width.toUInt64 > 50 ∧ a = terminal.width.toUInt64 ∧ b = 35 := by
    split <;> simp [*]
  unfold layout
  simp only [List.mem_append, List.mem_cons, List.mem_replicate, List.not_mem_nil, hlate, hwide, hrows, hlines,
    Drawn.subtract.injEq, reduceCtorEq, and_false, false_or, or_false, or_assoc]
  -- the budget is computed before the rows and after them
  constructor
  · rintro (hwide | hbudget | hrow | hbudget)
    · exact .inl hwide
    · exact .inr (.inl hbudget)
    · exact .inr (.inr hrow)
    · exact .inr (.inl hbudget)
  · rintro (hwide | hbudget | hrow)
    · exact .inl hwide
    · exact .inr (.inl hbudget)
    · exact .inr (.inr (.inl hrow))

/-- The hand-counted heights are those of the lines written, with one line to spare. -/
theorem countP_isLine_layout (viewer : ConsoleViewer) (terminal : Terminal) (commandLine samplesLine : Line)
    (counts : List (Sigma fun _ : String => FunctionStatistics)) :
    (viewer.layout terminal commandLine samplesLine counts).countP Drawn.isLine + 1 =
      fixedLines viewer.options.usage (viewer.lateDelay terminal).isSome +
        (terminal.height.toUInt64 - viewer.headerLines terminal).toNat := by
  have hlate : ((viewer.lateDelay terminal).toList.map fun delay => Drawn.line (.behind delay)).countP Drawn.isLine =
      if (viewer.lateDelay terminal).isSome then 1 else 0 := by
    cases viewer.lateDelay terminal <;> rfl
  have hwide : (if terminal.width.toUInt64 > 50 then [Drawn.subtract terminal.width.toUInt64 35] else []).countP
      Drawn.isLine = 0 := by
    split <;> rfl
  have hrows (rows : List (Sigma fun _ : String => FunctionStatistics)) (width : UInt64) :
      (rows.flatMap fun row => [Drawn.subtract width 2,
        .line (.row row.2 viewer.stats.currentSamples row.1 (width - 2))]).countP Drawn.isLine = rows.length := by
    induction rows with
    | nil => rfl
    | cons row rows ih =>
      rw [List.flatMap_cons, List.countP_append, ih, List.length_cons, Nat.add_comm]
      rfl
  have hfooter : ((footer viewer.options.usage terminal.width.toUInt64).map Drawn.line).countP Drawn.isLine =
      if viewer.options.usage then 11 else 1 := by
    cases viewer.options.usage <;> rfl
  unfold layout
  simp only [List.countP_append, List.countP_cons, List.countP_nil, List.countP_replicate, hlate, hwide, hrows,
    hfooter, Drawn.isLine, List.length_take, reduceIte, fixedLines]
  cases viewer.options.usage <;> simp only [reduceIte, Bool.false_eq_true] <;> omega

/-- The loop that fills the table draws no more than all lines. -/
theorem count_padding_le (drawn : List Drawn) : drawn.count (.line .padding) ≤ drawn.countP Drawn.isLine := by
  refine List.countP_mono_left fun event _ hevent => ?_
  rw [beq_iff_eq.mp hevent]
  rfl

/-- A screen fits exactly when the terminal is roomy. -/
theorem layout_fits_iff :
    FitsHeight terminal.height (viewer.layout terminal commandLine samplesLine counts) ↔
      terminal.Roomy viewer.options.usage (viewer.lateDelay terminal).isSome counts.length := by
  have hheader := headerLines_toNat viewer terminal
  have htake : counts.take (terminal.height.toUInt64 - viewer.headerLines terminal).toNat = [] ↔
      (terminal.height.toUInt64 - viewer.headerLines terminal).toNat = 0 ∨ counts.length = 0 := by
    rw [List.take_eq_nil_iff, List.length_eq_zero_iff]
  have hbudget (hle : viewer.headerLines terminal ≤ terminal.height.toUInt64) :
      (terminal.height.toUInt64 - viewer.headerLines terminal).toNat =
        terminal.height.toNat - (viewer.headerLines terminal).toNat := by
    rw [UInt64.toNat_sub_of_le _ _ hle, UInt16.toNat_toUInt64]
  constructor
  · intro h
    have hle := h.subtractions _ _ (subtract_mem_layout.mpr (.inr (.inl ⟨rfl, rfl⟩)))
    refine ⟨headerLines_le_iff.mp hle, ?_⟩
    by_cases hrows : counts.take (terminal.height.toUInt64 - viewer.headerLines terminal).toNat = []
    · obtain hnone | hnone := htake.mp hrows
      · rw [hbudget hle, hheader] at hnone
        split at hnone <;> omega
      · exact .inr (.inl hnone)
    · exact .inl (two_le_maxFunctionWidth_iff.mp
        (h.subtractions _ _ (subtract_mem_layout.mpr (.inr (.inr ⟨hrows, rfl, rfl⟩)))))
  · intro h
    have hle := headerLines_le_iff.mpr h.tall
    have hlines : (viewer.layout terminal commandLine samplesLine counts).countP Drawn.isLine ≤
        terminal.height.toNat := by
      have hcount := countP_isLine_layout viewer terminal commandLine samplesLine counts
      have htall := UInt64.le_iff_toNat_le.mp hle
      rw [UInt16.toNat_toUInt64] at htall
      rw [hbudget hle, hheader] at hcount
      rw [hheader] at htall
      omega
    refine ⟨fun a b hmem => ?_, Nat.le_trans (count_padding_le _) hlines, hlines⟩
    obtain ⟨hwide, rfl, rfl⟩ | ⟨rfl, rfl⟩ | ⟨hrows, rfl, rfl⟩ := subtract_mem_layout.mp hmem
    · have hlt := width_gt_iff.mp hwide
      rw [UInt64.le_iff_toNat_le, UInt16.toNat_toUInt64]
      show 35 ≤ _
      omega
    · exact hle
    · rw [two_le_maxFunctionWidth_iff]
      obtain hwide | hnone | hlow := h.wide
      · exact hwide
      · exact absurd (htake.mpr (.inr hnone)) hrows
      · by_contra hnarrow
        refine hrows (htake.mpr (.inl ?_))
        rw [hbudget hle, hheader]
        split <;> omega

/-! ## Every screen of a run is drawn -/

/-- The columns to sort by are those there are, and what has errors has a last one. -/
structure Displayable (viewer : ConsoleViewer) : Prop where
  sortColumn : viewer.options.sortColumn ∈ [1, 2, 3, 4]
  lastError : viewer.stats.errors ≠ 0 → viewer.stats.lastError.isSome
  screens : ∀ stats ∈ viewer.screens, stats.errors ≠ 0 → stats.lastError.isSome

theorem Displayable.type (h : viewer.Displayable) (keys : List Char) : (viewer.type keys).Displayable := by
  refine ⟨?_, h.lastError, h.screens⟩
  have hcolumn := h.sortColumn
  show (keys.foldl Options.press viewer.options).sortColumn ∈ [1, 2, 3, 4]
  generalize viewer.options = options at hcolumn
  induction keys generalizing options with
  | nil => exact hcolumn
  | cons key keys ih =>
    refine ih _ ?_
    unfold Options.press Options.key
    dsimp only
    split <;> simp at hcolumn ⊢ <;> exact hcolumn

theorem Displayable.maybeReset (h : viewer.Displayable) : viewer.maybeReset.Displayable := by
  unfold ConsoleViewer.maybeReset
  split
  · exact ⟨h.sortColumn, fun hne => absurd rfl hne, h.screens⟩
  · exact h

/-- What is counted in between has errors only with a last one. -/
theorem Displayable.incrementCommon (viewer : ConsoleViewer) (h : viewer.Displayable) (keys : List Char) :
    (viewer.incrementCommon keys).Displayable := by
  have htyped := h.type keys
  unfold ConsoleViewer.incrementCommon
  dsimp only
  split
  · exact ⟨htyped.sortColumn, htyped.lastError, List.forall_mem_cons.mpr ⟨htyped.lastError, htyped.screens⟩⟩
  · exact ⟨htyped.sortColumn, htyped.lastError, htyped.screens⟩

theorem Displayable.apply (h : viewer.Displayable) (event : Event) : (viewer.apply event).Displayable := by
  cases event with
  | increment typed traces =>
    have hreset := (h.type typed.before).maybeReset
    refine Displayable.incrementCommon { (viewer.type typed.before).maybeReset with
      stats := ConsoleViewer.incrementTraces _ _ none traces } ⟨hreset.sortColumn, fun hne => ?_, hreset.screens⟩
      typed.during
    dsimp only at hne ⊢
    obtain ⟨_, _, _, _, _, htraces⟩ := incrementTraces_eq (viewer.type typed.before).maybeReset.config.toConfig
      { (viewer.type typed.before).maybeReset.stats with threads := 0, processes := 0 } none traces
    rw [htraces] at hne ⊢
    exact hreset.lastError hne
  | incrementError typed error =>
    have hreset := (h.type typed.before).maybeReset
    exact Displayable.incrementCommon
      { (viewer.type typed.before).maybeReset with
        stats := { (viewer.type typed.before).maybeReset.stats with
          errors := (viewer.type typed.before).maybeReset.stats.errors + 1, lastError := some error } }
      ⟨hreset.sortColumn, fun _ => rfl, hreset.screens⟩ typed.during
  | incrementLateSample delay => exact ⟨h.sortColumn, h.lastError, h.screens⟩
  | resetCurrent => exact ⟨h.sortColumn, h.lastError, h.screens⟩

theorem Displayable.run (h : viewer.Displayable) (events : List Event) :
    (events.foldl ConsoleViewer.apply viewer).Displayable := by
  induction events generalizing viewer with
  | nil => exact h
  | cons event events ih => exact ih (h.apply event)

/-- What can be displayed is drawn, if the command is shown with a version or
without, and no errors are not a high rate. -/
theorem Displayable.draw (h : viewer.Displayable)
    (hversion : viewer.config.subprocesses = true ∨ terminal.version.isSome)
    (hrate : ∀ n, terminal.errorRateHigh 0 n = false) : ∃ drawn, viewer.draw terminal = .ok drawn := by
  have hcounts : ∃ counts, sortCounts viewer.shownCounts viewer.options.sortColumn = .ok counts := by
    have hcolumn := h.sortColumn
    simp only [List.mem_cons, List.not_mem_nil, or_false] at hcolumn
    obtain hcolumn | hcolumn | hcolumn | hcolumn := hcolumn <;> rw [hcolumn] <;> exact ⟨_, rfl⟩
  have hcommand : ∃ line, viewer.commandLine terminal = .ok line := by
    unfold commandLine
    obtain hsub | hsome := hversion
    · rw [if_pos hsub]
      exact ⟨_, rfl⟩
    · obtain ⟨version, hversion⟩ := Option.isSome_iff_exists.mp hsome
      rw [hversion]
      split <;> exact ⟨_, rfl⟩
  have hsamples : ∃ line, viewer.samplesLine terminal = .ok line := by
    unfold samplesLine
    split
    · rename_i hhigh
      have hne : viewer.stats.errors ≠ 0 := by
        intro hzero
        rw [hzero, hrate] at hhigh
        exact absurd hhigh.1 Bool.false_ne_true
      obtain ⟨lastError, hlast⟩ := Option.isSome_iff_exists.mp (h.lastError hne)
      rw [hlast]
      exact ⟨_, rfl⟩
    · exact ⟨_, rfl⟩
  obtain ⟨counts, hcounts⟩ := hcounts
  obtain ⟨commandLine, hcommand⟩ := hcommand
  obtain ⟨samplesLine, hsamples⟩ := hsamples
  refine ⟨viewer.layout terminal commandLine samplesLine counts, ?_⟩
  rw [ConsoleViewer.draw, hcounts, hcommand, hsamples]
  rfl

theorem incrementCommon_config (viewer : ConsoleViewer) (keys : List Char) :
    (viewer.incrementCommon keys).config = viewer.config := by
  unfold incrementCommon
  dsimp only
  split <;> rfl

theorem run_config (viewer : ConsoleViewer) (events : List Event) :
    (events.foldl apply viewer).config = viewer.config := by
  induction events generalizing viewer with
  | nil => rfl
  | cons event events ih =>
    refine (ih (viewer.apply event)).trans ?_
    cases event with
    | increment typed traces =>
      exact (incrementCommon_config _ typed.during).trans (maybeReset_config (viewer.type typed.before))
    | incrementError typed error =>
      exact (incrementCommon_config _ typed.during).trans (maybeReset_config (viewer.type typed.before))
    | incrementLateSample delay => rfl
    | resetCurrent => rfl

/-- In a run the viewer never panics when it displays. -/
theorem run_draw (config : ViewerConfig) (events : List Event)
    (hversion : config.subprocesses = true ∨ terminal.version.isSome)
    (hrate : ∀ n, terminal.errorRateHigh 0 n = false) :
    ∃ drawn, (events.foldl apply (new config)).draw terminal = .ok drawn := by
  have hnew : (new config).Displayable := ⟨by simp [new], fun hne => absurd rfl hne, nofun⟩
  refine (hnew.run events).draw ?_ hrate
  rw [run_config]
  exact hversion

/-! ## What fits -/

/-- What is drawn fits exactly when the terminal is roomy. -/
theorem draw_fits_iff {drawn : List Drawn} (h : viewer.draw terminal = .ok drawn) :
    FitsHeight terminal.height drawn ↔
      terminal.Roomy viewer.options.usage (viewer.lateDelay terminal).isSome viewer.shownCounts.entries.length := by
  obtain ⟨counts, hcounts, h⟩ := bind_eq_ok h
  obtain ⟨commandLine, _, h⟩ := bind_eq_ok h
  obtain ⟨samplesLine, _, h⟩ := bind_eq_ok h
  cases h
  rw [layout_fits_iff, length_sortCounts hcounts]

/-- Two functions in a terminal of twenty-four lines of eighty. -/
theorem draw_fits_iff_two :
    let terminal : Terminal :=
      { height := 24, width := 80, command := "image", version := some "5.2", lateRateHigh := fun _ _ => false,
        errorRateHigh := fun _ _ => false }
    let config : ViewerConfig := { refreshDue := fun _ => true }
    let counts : FunctionCounts := (AList.insert "b (m)" { overallOwn := 2, overallTotal := 2 } ∅).insert "a (m)"
      { overallOwn := 1, overallTotal := 3 }
    let viewer : ConsoleViewer := { new config with stats := { overallSamples := 3, functionCounts := counts } }
    ∃ drawn, viewer.draw terminal = .ok drawn ∧ (FitsHeight terminal.height drawn ↔
      terminal.Roomy viewer.options.usage (viewer.lateDelay terminal).isSome viewer.shownCounts.entries.length) :=
  ⟨_, rfl, draw_fits_iff rfl⟩

/-- In a terminal of seven lines the budget of the rows underflows. -/
theorem sevenLines_underflow :
    let terminal : Terminal :=
      { height := 7, width := 80, command := "image", version := some "5.2", lateRateHigh := fun _ _ => false,
        errorRateHigh := fun _ _ => false }
    let viewer := new { refreshDue := fun _ => true }
    ∃ drawn, viewer.draw terminal = .ok drawn ∧ ¬FitsHeight terminal.height drawn := by
  refine ⟨_, rfl, fun hfits => ?_⟩
  have hle := hfits.subtractions _ _ (subtract_mem_layout.mpr (.inr (.inl ⟨rfl, rfl⟩)))
  exact absurd hle (by decide)

end ConsoleViewer

end StSpy
