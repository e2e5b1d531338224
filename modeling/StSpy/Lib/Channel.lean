import Mathlib.Tactic.Common

/-!
# Channels

An unbounded channel with one sender and one receiver, either of which may be
dropped. A receiver that is dropped takes the messages not yet received along.
-/

structure Channel (α : Type*) where
  queue : List α
  sender : Bool
  receiver : Bool

namespace Channel

variable {α : Type*}

def new : Channel α := { queue := [], sender := true, receiver := true }

/-- `none` when the receiver is gone. -/
def send (c : Channel α) (x : α) : Option (Channel α) :=
  if c.receiver then some { c with queue := c.queue ++ [x] } else none

/-- `none` while it blocks; it returns no message when the sender is gone. -/
def recv (c : Channel α) : Option (Option α × Channel α) :=
  match c.queue with
  | x :: rest => some (some x, { c with queue := rest })
  | [] => if c.sender then none else some (none, c)

inductive TryRecvError where
  | empty
  | disconnected

def tryRecv (c : Channel α) : Except TryRecvError α × Channel α :=
  match c.queue with
  | x :: rest => (.ok x, { c with queue := rest })
  | [] => (.error (if c.sender then .empty else .disconnected), c)

def dropSender (c : Channel α) : Channel α := { c with sender := false }

def dropReceiver (c : Channel α) : Channel α := { c with queue := [], receiver := false }

variable {c c' : Channel α} {x : α}

theorem send_eq_some (h : c.send x = some c') :
    c.receiver = true ∧ c' = { c with queue := c.queue ++ [x] } := by
  simp only [send] at h
  split at h
  · rename_i hreceiver
    exact ⟨hreceiver, (Option.some.inj h).symm⟩
  · cases h

theorem send_eq_none (h : c.send x = none) : c.receiver = false := by
  simpa [send] using h

theorem recv_message (h : c.recv = some (some x, c')) :
    c.queue = x :: c'.queue ∧ c' = { c with queue := c'.queue } := by
  obtain ⟨queue, sender, receiver⟩ := c
  cases queue with
  | nil => simp [recv] at h
  | cons y rest =>
    simp only [recv, Option.some.injEq, Prod.mk.injEq] at h
    obtain ⟨rfl, rfl⟩ := h
    exact ⟨rfl, rfl⟩

theorem recv_disconnected (h : c.recv = some (none, c')) :
    c.queue = [] ∧ c.sender = false ∧ c' = c := by
  obtain ⟨queue, sender, receiver⟩ := c
  cases queue with
  | nil =>
    simp only [recv] at h
    cases sender <;> simp_all
  | cons y rest => simp [recv] at h

theorem tryRecv_ok (h : c.tryRecv = (.ok x, c')) :
    c.queue = x :: c'.queue ∧ c' = { c with queue := c'.queue } := by
  obtain ⟨queue, sender, receiver⟩ := c
  cases queue with
  | nil => simp [tryRecv] at h
  | cons y rest =>
    simp only [tryRecv, Prod.mk.injEq, Except.ok.injEq] at h
    obtain ⟨rfl, rfl⟩ := h
    exact ⟨rfl, rfl⟩

theorem tryRecv_error {e : TryRecvError} (h : c.tryRecv = (.error e, c')) : c.queue = [] ∧ c' = c := by
  obtain ⟨queue, sender, receiver⟩ := c
  cases queue with
  | nil => exact ⟨rfl, (congrArg Prod.snd h).symm⟩
  | cons y rest => simp [tryRecv] at h

end Channel
