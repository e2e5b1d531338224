import Mathlib.Data.List.Infix

/-!
# Computations that read

A computation that reads values at keys it chooses as it goes; a value may be
missing. `collect` repeats one as long as it yields an element. With a source that
has less to offer, a computation that gives up where a value is missing yields
fewer elements, and the same ones as long as it reads nothing that is left out.
-/

namespace Readers

inductive Reader (κ ν α : Type) where
  | done (a : α)
  | read (key : κ) (next : Option ν → Reader κ ν α)

namespace Reader

variable {κ ν α : Type}

def run (source : κ → Option ν) : Reader κ ν α → α
  | done a => a
  | read key next => (next (source key)).run source

/-- The keys read. -/
def keys (source : κ → Option ν) : Reader κ ν α → List κ
  | done _ => []
  | read key next => key :: (next (source key)).keys source

variable {source part whole : κ → Option ν}

theorem run_congr {r : Reader κ ν α} (h : ∀ key ∈ r.keys whole, part key = whole key) :
    r.run part = r.run whole ∧ r.keys part = r.keys whole := by
  induction r with
  | done => exact ⟨rfl, rfl⟩
  | read key next ih =>
    obtain ⟨hkey, hrest⟩ := List.forall_mem_cons.mp h
    obtain ⟨hrun, hkeys⟩ := ih _ hrest
    simp only [run, keys, hkey]
    exact ⟨hrun, congrArg (key :: ·) hkeys⟩

/-- Where the smaller source answers every read, it answers as the larger one. -/
theorem run_of_answered {r : Reader κ ν α} (hpart : ∀ key v, part key = some v → whole key = some v)
    (h : ∀ key ∈ r.keys part, part key ≠ none) : r.run part = r.run whole := by
  refine (run_congr fun key hkey => ?_).1.symm
  obtain ⟨v, hv⟩ := Option.ne_none_iff_exists'.mp (h key hkey)
  rw [hv, hpart key v hv]

end Reader

/-! ## Repeating a computation -/

variable {κ ν β σ : Type} (next : σ → Reader κ ν (Option (β × σ)))

/-- What it yields until it yields nothing; `none` if that takes more than `turns`. -/
def collect (source : κ → Option ν) : Nat → σ → Option (List β)
  | 0, _ => none
  | turns + 1, s =>
    match (next s).run source with
    | none => some []
    | some (b, s') => (collect source turns s').map (b :: ·)

/-- The keys read on the way. -/
def collectKeys (source : κ → Option ν) : Nat → σ → List κ
  | 0, _ => []
  | turns + 1, s =>
    (next s).keys source ++
      match (next s).run source with
      | none => []
      | some (_, s') => collectKeys source turns s'

/-- It yields nothing once a value is missing. -/
def Stops : Prop :=
  ∀ s source, (∃ key ∈ (next s).keys source, source key = none) → (next s).run source = none

variable {next} {part whole : κ → Option ν} {turns : Nat} {s : σ} {out : List β}

/-- Two sources that agree on what is read yield the same. -/
theorem collect_congr (h : ∀ key ∈ collectKeys next whole turns s, part key = whole key) :
    collect next part turns s = collect next whole turns s := by
  induction turns generalizing s with
  | zero => rfl
  | succ turns ih =>
    rw [collectKeys, List.forall_mem_append] at h
    have hrun := (Reader.run_congr h.1).1
    rw [collect, collect, hrun]
    cases hyield : (next s).run whole with
    | none => rfl
    | some yielded =>
      have hrest := h.2
      simp only [hyield] at hrest
      simp only [ih hrest]

/-- A smaller source yields a prefix, in as many turns. -/
theorem collect_prefix (hstops : Stops next) (hpart : ∀ key v, part key = some v → whole key = some v)
    (h : collect next whole turns s = some out) :
    ∃ shorter, collect next part turns s = some shorter ∧ shorter <+: out := by
  induction turns generalizing s out with
  | zero => cases h
  | succ turns ih =>
    rw [collect]
    by_cases hmissing : ∃ key ∈ (next s).keys part, part key = none
    · rw [hstops s part hmissing]
      exact ⟨[], rfl, List.nil_prefix⟩
    · have hsame : (next s).run part = (next s).run whole :=
        Reader.run_of_answered hpart fun key hkey hnone => hmissing ⟨key, hkey, hnone⟩
      rw [collect] at h
      rw [hsame]
      cases hyield : (next s).run whole with
      | none => exact ⟨[], rfl, List.nil_prefix⟩
      | some yielded =>
        simp only [hyield] at h
        obtain ⟨rest, hrest, rfl⟩ := Option.map_eq_some_iff.mp h
        obtain ⟨shorter, hshorter, hprefix⟩ := ih hrest
        exact ⟨yielded.1 :: shorter, by simp only [hshorter, Option.map_some],
          List.cons_prefix_cons.mpr ⟨rfl, hprefix⟩⟩

end Readers
