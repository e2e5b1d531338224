import StSpy.Dump
import StSpy.Lib.Forest

/-!
# Dumping a process tree

A process that is no VM makes its call fail, and with it every call around it.
So the dump visits the tree in preorder up to the first process that is no VM,
and covers it exactly when no VM comes behind that one. With JSON it stops at
the root.
-/

namespace StSpy.Dump

variable {host : Host} {config : Config}

/-! ## The tree -/

/-- A process that `SmalltalkSpy` can attach to and read. -/
def isVm (host : Host) (pid : Pid) : Bool := (host.newSpy pid).toBool && (host.getStackTraces pid).toBool

def tracesOf (host : Host) (pid : Pid) : List StackTrace := (host.getStackTraces pid).toOption.getD []

/-- A process that runs: it can be opened, and its command line and executable be read. -/
structure Readable (host : Host) (pid : Pid) : Prop where
  opens : ∃ u, host.newProcess pid = .ok u
  cmdline : ∃ words, host.cmdline pid = .ok words
  exe : ∃ path, host.exe pid = .ok path

/-- For every process of the forest `child_processes` returns its descendants
with their parents; its children stand in the order in which they are listed. -/
def Lists (host : Host) : Forest Pid → Prop
  | .nil => True
  | .cons pid children siblings =>
    (∃ processes, host.childProcesses pid = .ok processes ∧ processes.Perm (children.edges pid) ∧
      (processes.filter fun process => process.2 = pid).map (·.1) = children.roots) ∧
    Lists host children ∧ Lists host siblings

/-- A process tree, and what the host answers about it. -/
structure Describes (host : Host) (tree : Forest Pid) : Prop where
  distinct : tree.preorder.Nodup
  readable : ∀ pid ∈ tree.preorder, Readable host pid
  lists : Lists host tree

/-! ## What a run dumps -/

/-- The traces printed, with the processes they are of. -/
def dumps (out : List Item) : List (Pid × List StackTrace) :=
  out.filterMap fun item =>
    match item with
    | .json pid traces => some (pid, traces)
    | .traces pid traces => some (pid, traces)
    | _ => none

/-- What is printed of a process: with text, the traces in reverse. -/
def dumpOf (host : Host) (config : Config) (pid : Pid) : Pid × List StackTrace :=
  (pid, if config.dumpJson then tracesOf host pid else (tracesOf host pid).reverse)

/-- The traces of every VM of the tree are printed, each process's once. -/
def Covers (host : Host) (config : Config) (tree : Forest Pid) (out : List Item) : Prop :=
  (dumps out).Perm ((tree.preorder.filter (isVm host)).map (dumpOf host config))

/-- What a run dumps, and whether it returns. -/
def Run.effect (r : Run) : List (Pid × List StackTrace) × Bool := (dumps r.out, r.result.toBool)

theorem Run.effect_andThen (first second : Run) :
    (first.andThen second).effect =
      (first.effect.1 ++ if first.effect.2 then second.effect.1 else [], first.effect.2 && second.effect.2) := by
  obtain ⟨out, result⟩ := first
  cases result with
  | ok => simp [andThen, effect, dumps, Except.toBool]
  | error => simp [andThen, effect, Except.toBool]

theorem effect_call_ok {α : Type} {x : Except String α} {a : α} (h : x = .ok a) (rest : α → Run) :
    (Run.call x rest).effect = (rest a).effect := by
  rw [h]
  rfl

/-- A list of processes, one after the other. -/
def writeAll (recurse : Pid → Option Pid → Run) (parent : Pid) (pids : List Pid) : Run :=
  pids.foldr (fun pid rest => (recurse pid (some parent)).andThen rest) .skip

theorem writeAll_cons (recurse : Pid → Option Pid → Run) (parent pid : Pid) (pids : List Pid) :
    writeAll recurse parent (pid :: pids) =
      (recurse pid (some parent)).andThen (writeAll recurse parent pids) := rfl

/-- The loop over the listed processes goes through the children. -/
theorem effect_writeChildren (recurse : Pid → Option Pid → Run) (pid : Pid) (processes : List (Pid × Pid)) :
    (writeChildren recurse pid processes).effect =
      (writeAll recurse pid ((processes.filter fun process => process.2 = pid).map (·.1))).effect := by
  induction processes with
  | nil => rfl
  | cons process processes ih =>
    obtain ⟨childpid, parentpid⟩ := process
    have hseparator : (Run.print .separator).effect = ([], true) := rfl
    have hskip : Run.skip.effect = ([], true) := rfl
    rw [writeChildren, Run.effect_andThen, hseparator, Run.effect_andThen, ih]
    by_cases h : parentpid = pid
    · rw [if_pos h, List.filter_cons_of_pos (by simpa using h), List.map_cons, writeAll_cons,
        Run.effect_andThen, h]
      rfl
    · rw [if_neg h, hskip, List.filter_cons_of_neg (by simpa using h)]
      simp

/-! ## One process -/

theorem effect_call_stackTraces (pid : Pid) (item : List StackTrace → Item) :
    (Run.call (stackTraces host pid) fun traces => .print (item traces)).effect =
      if (host.getStackTraces pid).toBool then (dumps [item (tracesOf host pid)], true) else ([], false) := by
  unfold stackTraces tracesOf
  cases host.getStackTraces pid <;> rfl

theorem effect_writeParent {parent : Option Pid} (hparent : ∀ p ∈ parent, Readable host p) :
    (writeParent host parent).effect = ([], true) := by
  cases parent with
  | none => rfl
  | some p =>
    obtain ⟨⟨_, hopens⟩, ⟨_, hcmdline⟩, _⟩ := hparent p rfl
    rw [writeParent, effect_call_ok hopens, effect_call_ok hcmdline]
    rfl

theorem effect_writeProcess {pid : Pid} {parent : Option Pid} (h : Readable host pid)
    (hparent : ∀ p ∈ parent, Readable host p) (vmVersion : String) :
    (writeProcess host pid vmVersion parent).effect =
      if (host.getStackTraces pid).toBool then ([(pid, (tracesOf host pid).reverse)], true) else ([], false) := by
  obtain ⟨_, ⟨_, hcmdline⟩, ⟨_, hexe⟩⟩ := h
  simp only [writeProcess, Run.effect_andThen, effect_call_ok hcmdline, effect_call_ok hexe,
    effect_writeParent hparent, effect_call_stackTraces pid fun traces => .traces pid traces.reverse]
  cases (host.getStackTraces pid).toBool <;> rfl

/-! ## The tree -/

theorem isVm_of_newSpy {pid : Pid} {vmVersion : String} (h : host.newSpy pid = .ok vmVersion) :
    isVm host pid = (host.getStackTraces pid).toBool := by
  rw [isVm, h]
  rfl

theorem effect_writeJson (hjson : config.dumpJson = true) (fuel : Nat) (pid : Pid) (parent : Option Pid) :
    (writeTraces host config (fuel + 1) pid parent).effect =
      if isVm host pid then ([dumpOf host config pid], true) else ([], false) := by
  rw [writeTraces]
  cases hspy : host.newSpy pid with
  | error =>
    rw [isVm, hspy]
    rfl
  | ok vmVersion =>
    rw [effect_call_ok rfl, isVm_of_newSpy hspy, if_pos hjson, writeJson,
      effect_call_stackTraces pid fun traces => .json pid traces, dumpOf, if_pos hjson]
    rfl

/-- With text, a process that is a VM is printed before its children. -/
theorem effect_writeTraces (htext : config.dumpJson = false) (hsub : config.subprocesses = true) {fuel : Nat}
    {pid : Pid} {parent : Option Pid} (h : Readable host pid) (hparent : ∀ p ∈ parent, Readable host p)
    {processes : List (Pid × Pid)} (hprocesses : host.childProcesses pid = .ok processes) :
    (writeTraces host config (fuel + 1) pid parent).effect =
      if isVm host pid then
        (dumpOf host config pid :: (writeChildren (writeTraces host config fuel) pid processes).effect.1,
          (writeChildren (writeTraces host config fuel) pid processes).effect.2)
      else ([], false) := by
  rw [writeTraces]
  cases hspy : host.newSpy pid with
  | error =>
    rw [isVm, hspy]
    rfl
  | ok vmVersion =>
    rw [effect_call_ok rfl]
    simp only [htext, hsub, Bool.false_eq_true, if_false, if_true, hprocesses, Run.effect_andThen,
      effect_writeProcess h hparent, isVm_of_newSpy hspy, dumpOf]
    cases (host.getStackTraces pid).toBool <;> simp

/-- A forest is visited in preorder up to the first process that is no VM. -/
theorem effect_writeForest (htext : config.dumpJson = false) (hsub : config.subprocesses = true)
    (forest : Forest Pid) {fuel : Nat} (hfuel : forest.depth ≤ fuel) {parent : Pid} (hparent : Readable host parent)
    (hreadable : ∀ pid ∈ forest.preorder, Readable host pid) (hlists : Lists host forest) :
    (writeAll (writeTraces host config fuel) parent forest.roots).effect =
      ((forest.preorder.takeWhile (isVm host)).map (dumpOf host config), forest.preorder.all (isVm host)) := by
  induction forest generalizing fuel parent with
  | nil => rfl
  | cons pid children siblings ihchildren ihsiblings =>
    obtain ⟨⟨processes, hprocesses, -, hchildren⟩, hlistsChildren, hlistsSiblings⟩ := hlists
    simp only [Forest.preorder, List.mem_cons, List.mem_append] at hreadable
    have hpid := hreadable pid (.inl rfl)
    rw [Forest.depth] at hfuel
    obtain ⟨fuel, rfl⟩ : ∃ f, fuel = f + 1 := ⟨fuel - 1, by omega⟩
    have hloop := ihchildren (show children.depth ≤ fuel by omega) hpid
      (fun p hp => hreadable p (.inr (.inl hp))) hlistsChildren
    rw [← hchildren, ← effect_writeChildren] at hloop
    have hrest := ihsiblings (show siblings.depth ≤ fuel + 1 by omega) hparent
      (fun p hp => hreadable p (.inr (.inr hp))) hlistsSiblings
    rw [Forest.roots, writeAll_cons, Run.effect_andThen,
      effect_writeTraces htext hsub hpid (by rintro p ⟨⟩; exact hparent) hprocesses, hloop, hrest]
    cases hvm : isVm host pid with
    | false => simp [Forest.preorder, hvm]
    | true =>
      simp only [if_true, Forest.preorder, List.takeWhile_cons, hvm, List.all_cons, Bool.true_and,
        List.all_append, List.takeWhile_append_cases, List.map_cons, List.map_append]
      cases hall : children.preorder.all (isVm host) <;> simp

/-- The processes that the dump comes to only through processes that are no VMs:
those behind the first such process and, with JSON, all but the root. -/
def behind (host : Host) (config : Config) (tree : Forest Pid) : List Pid :=
  if config.dumpJson then tree.preorder.tail else tree.preorder.dropWhile (isVm host)

theorem perm_dumpOf {l m : List Pid} :
    (l.map (dumpOf host config)).Perm (m.map (dumpOf host config)) ↔ l.Perm m := by
  refine ⟨fun hperm => ?_, fun hperm => hperm.map _⟩
  have := hperm.map Prod.fst
  simpa [List.map_map, Function.comp_def, dumpOf] using this

/-- With text, a tree is dumped in preorder up to the first process that is no VM. -/
theorem dumps_writeTraces_text (htext : config.dumpJson = false) (hsub : config.subprocesses = true) {root : Pid}
    {children : Forest Pid} {fuel : Nat} (hfuel : children.depth ≤ fuel)
    (h : Describes host (.cons root children .nil)) :
    dumps (writeTraces host config (fuel + 1) root none).out =
      ((root :: children.preorder).takeWhile (isVm host)).map (dumpOf host config) := by
  obtain ⟨⟨processes, hprocesses, -, hchildren⟩, hlists, -⟩ := h.lists
  have hreadable : ∀ pid ∈ root :: children.preorder, Readable host pid := by
    simpa [Forest.preorder] using h.readable
  have hroot := hreadable root List.mem_cons_self
  have hloop := effect_writeForest htext hsub children hfuel hroot
    (fun p hp => hreadable p (List.mem_cons_of_mem _ hp)) hlists
  rw [← hchildren, ← effect_writeChildren] at hloop
  show (writeTraces host config (fuel + 1) root none).effect.1 = _
  rw [effect_writeTraces htext hsub hroot (by rintro p ⟨⟩) hprocesses, hloop, List.takeWhile_cons]
  cases isVm host root <;> rfl

/-- The dump of a process tree covers it exactly when no VM is behind. With fuel
for the depth of the tree it returns, or fails like the source. -/
theorem covers_iff (hsub : config.subprocesses = true) {root : Pid} {children : Forest Pid} {fuel : Nat}
    (hfuel : children.depth < fuel) (h : Describes host (.cons root children .nil)) :
    Covers host config (.cons root children .nil) (writeTraces host config fuel root none).out ↔
      ∀ pid ∈ behind host config (.cons root children .nil), isVm host pid = false := by
  obtain ⟨fuel, rfl⟩ : ∃ f, fuel = f + 1 := ⟨fuel - 1, by omega⟩
  have hpreorder : (Forest.cons root children .nil).preorder = root :: children.preorder := by
    simp [Forest.preorder]
  rw [Covers, behind, hpreorder]
  cases hjson : config.dumpJson with
  | true =>
    have htail : (children.preorder.filter (isVm host)) = [] ↔
        ∀ pid ∈ children.preorder, isVm host pid = false := by
      simp [List.filter_eq_nil_iff]
    show List.Perm (writeTraces host config (fuel + 1) root none).effect.1 _ ↔ _
    rw [effect_writeJson hjson, if_pos rfl, List.tail_cons, ← htail]
    cases hvm : isVm host root with
    | false => simp [hvm]
    | true =>
      have hone : [dumpOf host config root] = [root].map (dumpOf host config) := rfl
      rw [if_pos rfl, List.filter_cons_of_pos hvm, hone, perm_dumpOf, List.perm_cons]
      exact ⟨fun hperm => hperm.symm.eq_nil, fun hnil => by rw [hnil]⟩
  | false =>
    rw [dumps_writeTraces_text hjson hsub (Nat.le_of_lt_succ hfuel) h, perm_dumpOf, if_neg (by decide)]
    exact List.takeWhile_perm_filter_iff _

/-- Two processes, of which those in `vms` can be attached to. -/
def twoProcesses (vms : List Pid) : Host where
  newSpy := fun pid => if pid ∈ vms then .ok "5.0" else .error "no VM"
  getStackTraces := fun pid => .ok [{ pid, threadId := 1, frames := [] }]
  cmdline := fun _ => .ok ["squeak"]
  exe := fun _ => .ok "/usr/bin/squeak"
  newProcess := fun _ => .ok ()
  childProcesses := fun pid => .ok (if pid = 1 then [(2, 1)] else [])

theorem twoProcesses_describes (vms : List Pid) : Describes (twoProcesses vms) (.cons 1 (.cons 2 .nil .nil) .nil) :=
  ⟨by decide, fun _ _ => ⟨⟨(), rfl⟩, ⟨_, rfl⟩, ⟨_, rfl⟩⟩,
    ⟨_, rfl, .refl _, rfl⟩, ⟨⟨_, rfl, .refl _, rfl⟩, trivial, trivial⟩, trivial⟩

theorem covers_iff_twoProcesses :
    Covers (twoProcesses [1, 2]) { subprocesses := true } (.cons 1 (.cons 2 .nil .nil) .nil)
        (writeTraces (twoProcesses [1, 2]) { subprocesses := true } 2 1 none).out ↔
      ∀ pid ∈ behind (twoProcesses [1, 2]) { subprocesses := true } (.cons 1 (.cons 2 .nil .nil) .nil),
        isVm (twoProcesses [1, 2]) pid = false :=
  covers_iff rfl (by decide) (twoProcesses_describes [1, 2])

/-- A VM started by a shell is not dumped when the shell is the root. -/
theorem twoProcesses_missed :
    ¬∀ (host : Host) (config : Config) (root : Pid) (children : Forest Pid) (fuel : Nat),
      config.subprocesses = true → children.depth < fuel → Describes host (.cons root children .nil) →
        Covers host config (.cons root children .nil) (writeTraces host config fuel root none).out := by
  intro h
  have hcovers := h (twoProcesses [2]) { subprocesses := true } 1 (.cons 2 .nil .nil) 2 rfl (by decide)
    (twoProcesses_describes [2])
  exact absurd hcovers.length_eq (by decide)

end StSpy.Dump
