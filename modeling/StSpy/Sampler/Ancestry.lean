import Mathlib.Data.List.Induction
import StSpy.Lib.Parents
import StSpy.Sampler.Rounds

/-!
# Ancestors of a process

`get_process_info` follows the recorded parents for as long as there are any.
Discovery replaces what it recorded of a pid and the monitor keeps it, so links
of different times come together, and where pids are reused they may close a
cycle. The recursion ends for every pid exactly while no process is opened whose
listed parent was recorded below it.
-/

namespace StSpy

open Parents

variable {α : Type}

/-- The recursion to a depth; `none` where that is not enough. -/
def getProcessInfo (spies : Spies α) : Nat → Pid → Option (Option ProcessInfo)
  | 0, _ => none
  | depth + 1, pid =>
    match spies.lookup pid with
    | none => some none
    | some spy =>
      match spy.parent with
      | none => some (some { pid, commandLine := spy.commandLine, parent := none })
      | some parentpid =>
        (getProcessInfo spies depth parentpid).map fun parent =>
          some { pid, commandLine := spy.commandLine, parent }

/-- `get_process_info` returns for every pid. -/
def AncestryEnds (spies : Spies α) : Prop := ∀ pid, ∃ depth info, getProcessInfo spies depth pid = some info

/-- The recorded parents. -/
def Spies.parent (spies : Spies α) (pid : Pid) : Option Pid := (spies.lookup pid).bind SpyThread.parent

/-- What `child_processes` lists: each process below the root once, with parents
that lead up to the root. -/
structure IsTree (root : Pid) (children : List (Pid × Pid)) : Prop where
  nodup : (children.map Prod.fst).Nodup
  root_notMem : root ∉ children.map Prod.fst
  leads : ∀ child ∈ children, Relation.ReflTransGen (fun childpid parentpid => (childpid, parentpid) ∈ children)
    child.1 root

/-- The listing that an event brings. -/
def SamplerEvent.listing : SamplerEvent α → Option (List (Pid × Pid))
  | .main (.childProcesses answer) => answer
  | .monitor (.childProcesses answer) => answer
  | _ => none

/-- The parents of a listing go round nowhere. -/
theorem IsTree.wellFounded {root : Pid} {children : List (Pid × Pid)} (h : IsTree root children) :
    WellFounded fun parentpid childpid => (childpid, parentpid) ∈ children := by
  have hacc (pid : Pid) (hleads : Relation.ReflTransGen (fun childpid parentpid => (childpid, parentpid) ∈ children)
      pid root) : Acc (fun parentpid childpid => (childpid, parentpid) ∈ children) pid := by
    induction hleads using Relation.ReflTransGen.head_induction_on with
    | refl => exact ⟨root, fun _ hroot => absurd (List.mem_map_of_mem hroot) h.root_notMem⟩
    | @head childpid parentpid hchild _ ih =>
      refine ⟨childpid, fun other hother => ?_⟩
      have hsame := List.inj_on_of_nodup_map h.nodup hother hchild rfl
      cases hsame
      exact ih
  exact ⟨fun pid => ⟨pid, fun _ hparent => (hacc pid (h.leads _ hparent)).inv hparent⟩⟩

def MainPc.children : MainPc → List (Pid × Pid)
  | .opening _ children => children
  | _ => []

def MonitorPc.children : MonitorPc → List (Pid × Pid)
  | .opening children => children
  | _ => []

namespace SamplerState

/-- The process that an event opens and records, with its listed parent. -/
def opened (s : SamplerState α) : SamplerEvent α → Option (Pid × Pid)
  | .main (.create (some _)) =>
    match s.main with
    | .opening _ (child :: _) => some child
    | _ => none
  | .monitor (.create (some _)) =>
    match s.monitor with
    | .opening (child :: _) => if (s.spies.lookup child.1).isSome then none else some child
    | _ => none
  | _ => none

/-- The event opens no process whose parent is recorded as this or below it. -/
def OpensAbove (s : SamplerState α) (event : SamplerEvent α) : Prop :=
  ∀ childpid parentpid, s.opened event = some (childpid, parentpid) → ¬Below s.spies.parent parentpid childpid

end SamplerState

/-! ## The recursion -/

variable {spies : Spies α} {pid : Pid}

/-- More depth gives the same. -/
theorem getProcessInfo_succ {depth : Nat} {info : Option ProcessInfo} (h : getProcessInfo spies depth pid = some info) :
    getProcessInfo spies (depth + 1) pid = some info := by
  induction depth generalizing pid info with
  | zero => cases h
  | succ depth ih =>
    unfold getProcessInfo at h ⊢
    split at h
    · exact h
    · split at h
      · exact h
      · obtain ⟨parent, hparent, rfl⟩ := Option.map_eq_some_iff.mp h
        rw [ih hparent]
        rfl

theorem acc_of_getProcessInfo {depth : Nat} {info : Option ProcessInfo}
    (h : getProcessInfo spies depth pid = some info) : Acc (IsParent spies.parent) pid := by
  induction depth generalizing pid info with
  | zero => cases h
  | succ depth ih =>
    refine ⟨pid, fun parentpid hparent => ?_⟩
    obtain ⟨spy, hspy, hspyParent⟩ := Option.bind_eq_some_iff.mp hparent
    simp only [getProcessInfo, hspy, hspyParent] at h
    obtain ⟨parent, hinfo, -⟩ := Option.map_eq_some_iff.mp h
    exact ih hinfo

theorem getProcessInfo_of_acc (h : Acc (IsParent spies.parent) pid) :
    ∃ depth info, getProcessInfo spies depth pid = some info := by
  induction h with
  | intro pid _ ih =>
    cases hspy : spies.lookup pid with
    | none => exact ⟨1, none, by simp only [getProcessInfo, hspy]⟩
    | some spy =>
      cases hparent : spy.parent with
      | none =>
        exact ⟨1, some { pid, commandLine := spy.commandLine, parent := none }, by
          simp only [getProcessInfo, hspy, hparent]⟩
      | some parentpid =>
        have hup : IsParent spies.parent parentpid pid := Option.bind_eq_some_iff.mpr ⟨spy, hspy, hparent⟩
        obtain ⟨depth, parent, hinfo⟩ := ih parentpid hup
        exact ⟨depth + 1, some { pid, commandLine := spy.commandLine, parent }, by
          simp only [getProcessInfo, hspy, hparent, hinfo, Option.map_some]⟩

/-- The recursion returns exactly if the chains of recorded parents end. -/
theorem ancestryEnds_iff_rooted : AncestryEnds spies ↔ Rooted spies.parent := by
  constructor
  · intro h
    refine ⟨fun pid => ?_⟩
    obtain ⟨depth, info, hinfo⟩ := h pid
    exact acc_of_getProcessInfo hinfo
  · exact fun h pid => getProcessInfo_of_acc (h.apply pid)

/-- The recursion returns exactly if no recorded parents go round. -/
theorem ancestryEnds_iff_acyclic :
    AncestryEnds spies ↔ ∀ pid, ¬Relation.TransGen (IsParent spies.parent) pid pid := by
  rw [ancestryEnds_iff_rooted]
  refine rooted_iff_acyclic ((Set.finite_coe_iff.mp (List.finite_toSet spies.keys)).subset fun pid hpid => ?_)
  obtain ⟨parentpid, hparent⟩ := Option.ne_none_iff_exists'.mp hpid
  obtain ⟨spy, hspy, -⟩ := Option.bind_eq_some_iff.mp hparent
  exact AList.mem_keys.mp (AList.lookup_isSome.mp (by rw [hspy]; rfl))

/-! ## What a step records -/

namespace SpyThread

variable {spy spy' : SpyThread α} {round : Nat}

theorem work_parent {action : WorkerAction α} (h : spy.work action = some spy') : spy'.parent = spy.parent := by
  cases action with
  | retryNew ok => obtain ⟨-, rfl | rfl⟩ := work_retryNew h <;> rfl
  | receive => obtain ⟨-, rfl | ⟨round, rest, -, rfl⟩⟩ := work_receive h <;> rfl
  | answer result => obtain ⟨round, -, rfl | rfl⟩ := work_answer h <;> rfl
  | quit => rw [work_quit h]
  | drop => obtain ⟨-, rfl | rfl | ⟨-, rfl⟩⟩ := work_drop h <;> rfl

theorem waitInitialized_parent {ok : Bool} (h : spy.waitInitialized = some (ok, spy')) :
    spy'.parent = spy.parent := by
  simp only [waitInitialized] at h
  split at h
  · cases h
  · obtain ⟨-, rfl⟩ := Prod.mk.inj (Option.some.inj h)
    rfl
  · obtain ⟨-, rfl⟩ := Prod.mk.inj (Option.some.inj h)
    rfl

theorem isInitialized_parent : spy.isInitialized.2.parent = spy.parent := by
  unfold isInitialized
  split
  · rfl
  · split <;> rfl

theorem notify_parent : (spy.notify round).parent = spy.parent := by
  unfold notify
  split <;> rfl

theorem collect_parent {result : Option α} (h : spy.collect round = some (result, spy')) :
    spy'.parent = spy.parent := by
  rcases collect_cases h with ⟨-, rfl⟩ | ⟨-, sample, rest, -, rfl⟩ | ⟨-, -, -, rfl⟩ <;> rfl

end SpyThread

theorem parent_insert (spies : Spies α) (pid : Pid) (spy : SpyThread α) :
    Spies.parent (spies.insert pid spy) = Function.update spies.parent pid spy.parent := by
  funext other
  unfold Spies.parent
  by_cases hne : other = pid
  · rw [hne, AList.lookup_insert, Function.update_self]
    rfl
  · rw [AList.lookup_insert_ne hne, Function.update_of_ne hne]

/-- A spy put back with its parent changes no parent. -/
theorem parent_insert_same {spy spy' : SpyThread α} (hspy : spies.lookup pid = some spy)
    (hparent : spy'.parent = spy.parent) : Spies.parent (spies.insert pid spy') = spies.parent := by
  have hsame : spies.parent pid = spy.parent := by
    rw [Spies.parent, hspy]
    rfl
  rw [parent_insert, hparent, ← hsame, Function.update_eq_self]

namespace SamplerState

variable {s s' : SamplerState α} {event : SamplerEvent α}

/-- What a step does to the recorded parents and to the children still to be opened. -/
structure Effect (s s' : SamplerState α) (event : SamplerEvent α) : Prop where
  /-- Only what it opens changes a parent. -/
  parent_eq : s'.spies.parent =
    match s.opened event with
    | none => s.spies.parent
    | some (childpid, parentpid) => Function.update s.spies.parent childpid (some parentpid)
  main : s'.main.children ⊆ s.main.children ∨ event.listing = some s'.main.children
  monitor : s'.monitor.children ⊆ s.monitor.children ∨ event.listing = some s'.monitor.children

theorem mainStep_effect {action : MainAction} (h : s.mainStep action = some s') : s.Effect s' (.main action) := by
  have hmonitor : s.monitor.children ⊆ s.monitor.children := List.Subset.refl _
  simp only [mainStep] at h
  split at h
  case h_1 =>
    cases h
    exact ⟨rfl, .inl (List.nil_subset _), .inl hmonitor⟩
  case h_2 =>
    cases h
    exact ⟨rfl, .inr rfl, .inl hmonitor⟩
  case h_3 hmain =>
    cases h
    refine ⟨?_, .inl ?_, .inl hmonitor⟩
    · simp only [opened, hmain, parent_insert]
      rfl
    · rw [hmain]
      exact List.subset_cons_self ..
  case h_4 hmain =>
    cases h
    refine ⟨rfl, .inl ?_, .inl hmonitor⟩
    rw [hmain]
    exact List.subset_cons_self ..
  case h_5 =>
    split at h
    · cases h
      exact ⟨rfl, .inl (List.nil_subset _), .inl hmonitor⟩
    · cases h
  case h_6 =>
    split at h
    · cases h
    · rename_i spy hspy
      split at h
      · cases h
      · rename_i ok spy' hwait
        cases h
        refine ⟨parent_insert_same hspy (SpyThread.waitInitialized_parent hwait), .inl ?_, .inl hmonitor⟩
        cases ok <;> exact List.nil_subset _
  case h_7 =>
    cases h
    refine ⟨rfl, .inl ?_, .inl hmonitor⟩
    dsimp only
    split <;> exact List.nil_subset _
  case h_8 => cases h

theorem monitorStep_effect {action : MonitorAction} (h : s.monitorStep action = some s') :
    s.Effect s' (.monitor action) := by
  have hmain : s.main.children ⊆ s.main.children := List.Subset.refl _
  simp only [monitorStep] at h
  split at h
  · split at h
    case h_1 =>
      cases h
      exact ⟨rfl, .inl hmain, .inl (List.nil_subset _)⟩
    case h_2 =>
      split at h
      · cases h
      · split at h
        · cases h
          exact ⟨rfl, .inl hmain, .inl (List.Subset.refl _)⟩
        · cases h
          exact ⟨rfl, .inl hmain, .inl (List.nil_subset _)⟩
    case h_3 =>
      cases h
      exact ⟨rfl, .inl hmain, .inl (List.nil_subset _)⟩
    case h_4 =>
      cases h
      exact ⟨rfl, .inl hmain, .inr rfl⟩
    case h_5 childpid parentpid children commandLine hmonitor =>
      have hchildren : children ⊆ s.monitor.children := by
        rw [hmonitor]
        exact List.subset_cons_self ..
      split at h
      · rename_i hpresent
        cases h
        refine ⟨?_, .inl hmain, .inl hchildren⟩
        cases commandLine <;> simp only [opened, hmonitor, hpresent, if_true]
      · rename_i hnew
        cases commandLine with
        | none =>
          cases h
          exact ⟨rfl, .inl hmain, .inl hchildren⟩
        | some commandLine =>
          cases h
          refine ⟨?_, .inl hmain, .inl hchildren⟩
          simp only [opened, hmonitor, hnew, parent_insert]
          rfl
    case h_6 =>
      cases h
      exact ⟨rfl, .inl hmain, .inl (List.nil_subset _)⟩
    case h_7 => cases h
  · cases h

/-- The other threads open nothing and put each spy back with its parent. -/
theorem Effect.same (hopened : s.opened event = none) (hparent : s'.spies.parent = s.spies.parent)
    (hmain : s'.main = s.main) (hmonitor : s'.monitor = s.monitor) : s.Effect s' event := by
  refine ⟨?_, .inl ?_, .inl ?_⟩
  · rw [hopened]
    exact hparent
  · rw [hmain]
    exact List.Subset.refl _
  · rw [hmonitor]
    exact List.Subset.refl _

theorem samplerStep_effect {action : SamplerAction} (h : s.samplerStep action = some s') :
    s.Effect s' (.sampler action) := by
  cases (samplerStep_moves h).2 with
  | skip => exact .same rfl rfl rfl rfl
  | lock => exact .same rfl rfl rfl rfl
  | check _ hspy => exact .same rfl (parent_insert_same hspy SpyThread.isInitialized_parent) rfl rfl
  | notify _ hspy => exact .same rfl (parent_insert_same hspy SpyThread.notify_parent) rfl rfl
  | iterate => exact .same rfl rfl rfl rfl
  | collect _ hspy hcollect =>
    exact .same rfl (parent_insert_same hspy (SpyThread.collect_parent hcollect)) rfl rfl
  | send => exact .same rfl rfl rfl rfl
  | leave => exact .same rfl rfl rfl rfl
  | test => exact .same rfl rfl rfl rfl

theorem step_effect (h : s.step event = some s') : s.Effect s' event := by
  cases event with
  | worker pid action =>
    obtain ⟨spy, spy', hspy, hwork, rfl⟩ := step_worker h
    exact .same rfl (parent_insert_same hspy (SpyThread.work_parent hwork)) rfl rfl
  | main action => exact mainStep_effect h
  | monitor action => exact monitorStep_effect h
  | sampler action => exact samplerStep_effect h
  | dropReceiver =>
    obtain ⟨-, rfl⟩ := step_dropReceiver h
    exact .same rfl rfl rfl rfl

/-- After a step the recursion still ends exactly if the step opens nothing below
itself. -/
theorem ancestryEnds_step (hs : AncestryEnds s.spies) (h : s.step event = some s') :
    AncestryEnds s'.spies ↔ s.OpensAbove event := by
  have hparent := (step_effect h).parent_eq
  rw [ancestryEnds_iff_rooted] at hs ⊢
  unfold OpensAbove
  cases hopened : s.opened event with
  | none =>
    rw [hopened] at hparent
    rw [hparent]
    exact ⟨fun _ _ _ => nofun, fun _ => hs⟩
  | some child =>
    rw [hopened] at hparent
    rw [hparent, rooted_update_iff hs]
    constructor
    · intro hfree childpid parentpid hchild
      cases hchild
      exact hfree
    · exact fun hfree => hfree child.1 child.2 rfl

/-! ## A run -/

theorem parent_start (root : Pid) (commandLine : String) :
    Spies.parent (start (α := α) root commandLine).spies = fun _ => none := by
  funext pid
  unfold start
  rw [parent_insert]
  by_cases hpid : pid = root
  · rw [hpid, Function.update_self]
    rfl
  · rw [Function.update_of_ne hpid]
    rfl

/-- In a run the recursion always ends exactly if no step opens a process whose
parent is recorded below it. -/
theorem run_ancestryEnds_iff (root : Pid) (commandLine : String) (events : List (SamplerEvent α)) :
    (∀ before, before <+: events → ∀ t, Runs.run step (start root commandLine) before = some t →
      AncestryEnds t.spies) ↔
    ∀ before event, before ++ [event] <+: events → ∀ t u, Runs.run step (start root commandLine) before = some t →
      t.step event = some u → t.OpensAbove event := by
  refine Runs.run_always_iff (P := fun t : SamplerState α => AncestryEnds t.spies) ?_ ancestryEnds_step
  rw [ancestryEnds_iff_rooted, parent_start]
  exact rooted_none

/-! ## Processes in order -/

/-- The processes listed and still to be opened. -/
def toOpen (s : SamplerState α) : List (Pid × Pid) := s.main.children ++ s.monitor.children

theorem opened_mem {child : Pid × Pid} (h : s.opened event = some child) : child ∈ s.toOpen := by
  unfold opened at h
  split at h
  · split at h
    · rename_i hmain
      cases h
      refine List.mem_append_left _ ?_
      rw [hmain]
      exact List.mem_cons_self
    · cases h
  · split at h
    · rename_i hmonitor
      split at h
      · cases h
      · cases h
        refine List.mem_append_right _ ?_
        rw [hmonitor]
        exact List.mem_cons_self
    · cases h
  · cases h

/-- What is still to be opened was so before, or is listed now. -/
theorem toOpen_step (h : s.step event = some s') {child : Pid × Pid} (hchild : child ∈ s'.toOpen) :
    child ∈ s.toOpen ∨ ∃ children, event.listing = some children ∧ child ∈ children := by
  have heffect := step_effect h
  obtain hmem | hmem := List.mem_append.mp hchild
  · obtain hsub | hlisting := heffect.main
    · exact .inl (List.mem_append_left _ (hsub hmem))
    · exact .inr ⟨_, hlisting, hmem⟩
  · obtain hsub | hlisting := heffect.monitor
    · exact .inl (List.mem_append_right _ (hsub hmem))
    · exact .inr ⟨_, hlisting, hmem⟩

/-- Parents come before children in this order, also where they are still to be opened. -/
structure Ordered (rank : Pid → Nat) (s : SamplerState α) : Prop where
  recorded : ∀ childpid parentpid, s.spies.parent childpid = some parentpid → rank parentpid < rank childpid
  toOpen : ∀ child ∈ s.toOpen, rank child.2 < rank child.1

theorem Ordered.step {rank : Pid → Nat} (hs : s.Ordered rank) (h : s.step event = some s')
    (hlisted : ∀ children, event.listing = some children → ∀ child ∈ children, rank child.2 < rank child.1) :
    s'.Ordered rank := by
  refine ⟨?_, fun child hchild => ?_⟩
  · rw [(step_effect h).parent_eq]
    cases hopened : s.opened event with
    | none => exact hs.recorded
    | some child =>
      obtain ⟨openedpid, listedpid⟩ := child
      dsimp only
      intro childpid parentpid hparent
      by_cases hsame : childpid = openedpid
      · rw [hsame, Function.update_self] at hparent
        cases hparent
        rw [hsame]
        exact hs.toOpen _ (opened_mem hopened)
      · rw [Function.update_of_ne hsame] at hparent
        exact hs.recorded childpid parentpid hparent
  · obtain hold | ⟨children, hlisting, hmem⟩ := toOpen_step h hchild
    · exact hs.toOpen child hold
    · exact hlisted children hlisting child hmem

/-- Where no listing contradicts one order of the processes, as their starts are
while no pid is reused, the recursion always ends. -/
theorem ancestryEnds_of_ordered {rank : Pid → Nat} {root : Pid} {commandLine : String}
    {events : List (SamplerEvent α)}
    (hlisted : ∀ event ∈ events, ∀ children, event.listing = some children →
      ∀ child ∈ children, rank child.2 < rank child.1)
    (hrun : Runs.run step (start root commandLine) events = some s) : AncestryEnds s.spies := by
  suffices hordered : s.Ordered rank from
    ancestryEnds_iff_rooted.mpr (rooted_of_rank rank hordered.recorded)
  induction events using List.reverseRecOn generalizing s with
  | nil =>
    rw [Runs.run_nil hrun]
    refine ⟨fun childpid parentpid hparent => ?_, nofun⟩
    rw [parent_start] at hparent
    cases hparent
  | append_singleton events event ih =>
    obtain ⟨t, ht, hstep⟩ := Runs.run_concat.mp hrun
    have hbefore := ih (fun e he => hlisted e (List.mem_append_left _ he)) ht
    exact hbefore.step hstep (hlisted event (List.mem_append_right _ List.mem_cons_self))

/-! ## Reused pids -/

/-- Process 3 is not opened and its child 2 is. Later 2 is a process of the root with
a child 3. -/
def reusedEvents : List (SamplerEvent Nat) :=
  [.main (.childProcesses (some [(2, 3), (3, 1)])),
    .main (.create (some "two")),
    .main (.create none),
    .main (.await [1, 2]),
    .worker 1 (.retryNew true),
    .main .waitInitialized,
    .monitor .lock,
    .monitor (.childProcesses (some [(2, 1), (3, 2)])),
    .monitor (.create none),
    .monitor (.create (some "three"))]

def reused : SamplerState Nat := (Runs.run step (start 1 "root") reusedEvents).get (by decide)

/-- Two processes below the root, the one below the other. -/
theorem isTree_two {upper lower : Pid} (hupper : upper ≠ 1) (hlower : lower ≠ 1) (hne : lower ≠ upper)
    {children : List (Pid × Pid)} (h : children.Perm [(lower, upper), (upper, 1)]) : IsTree 1 children where
  nodup := by
    rw [(h.map Prod.fst).nodup_iff]
    simp [hne]
  root_notMem := by
    rw [(h.map Prod.fst).mem_iff]
    simp [hupper.symm, hlower.symm]
  leads := by
    have hup : (upper, 1) ∈ children := h.mem_iff.mpr (by simp)
    have hlow : (lower, upper) ∈ children := h.mem_iff.mpr (by simp)
    intro child hchild
    rw [h.mem_iff] at hchild
    simp only [List.mem_cons, List.not_mem_nil, or_false] at hchild
    obtain rfl | rfl := hchild
    · exact .head hlow (.single hup)
    · exact .single hup

/-- The monitor keeps the parent of 2 and records that of 3. -/
theorem reusedPids_cycle :
    (∀ event ∈ reusedEvents, ∀ children, event.listing = some children → IsTree 1 children) ∧
      Runs.run step (start 1 "root") reusedEvents = some reused ∧ ¬AncestryEnds reused.spies := by
  refine ⟨fun event hevent children hlisting => ?_, (Option.some_get _).symm, fun hends => ?_⟩
  · simp only [reusedEvents, List.mem_cons, List.not_mem_nil, or_false] at hevent
    rcases hevent with rfl | rfl | rfl | rfl | rfl | rfl | rfl | rfl | rfl | rfl <;> cases hlisting
    · exact isTree_two (by decide) (by decide) (by decide) (.refl _)
    · exact isTree_two (by decide) (by decide) (by decide) (.swap ..)
  · have hthree : IsParent reused.spies.parent 3 2 := by
      unfold IsParent
      decide
    have htwo : IsParent reused.spies.parent 2 3 := by
      unfold IsParent
      decide
    exact ancestryEnds_iff_acyclic.mp hends 2 (.tail (.single htwo) hthree)

end SamplerState

end StSpy
