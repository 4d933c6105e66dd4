import Mathlib.Data.List.Basic

/-! Bounded channels with a record of what went through them. -/
namespace Hftrs.Library

/-- A bounded queue. The record says what it accepted and what it refused, what was received
from it, and that nothing is lost in between. -/
structure Channel (α : Type) where
  capacity : Nat
  queue : List α
  accepted : List α
  refused : List α
  received : List α
  within : queue.length ≤ capacity
  fifo : accepted = received ++ queue

namespace Channel

variable {α : Type}

def empty (capacity : Nat) : Channel α where
  capacity
  queue := []
  accepted := []
  refused := []
  received := []
  within := Nat.zero_le _
  fifo := rfl

def Full (channel : Channel α) : Prop := channel.capacity ≤ channel.queue.length

instance (channel : Channel α) : Decidable channel.Full :=
  inferInstanceAs (Decidable (channel.capacity ≤ channel.queue.length))

/-- Send without waiting: a full channel refuses. -/
def trySend (channel : Channel α) (a : α) : Channel α :=
  if room : channel.queue.length < channel.capacity then
    { channel with
      queue := channel.queue ++ [a]
      accepted := channel.accepted ++ [a]
      within := by rw [List.length_append]; exact room
      fifo := by rw [channel.fifo, List.append_assoc] }
  else { channel with refused := channel.refused ++ [a] }

/-- Take the oldest element, if there is one. -/
def recv (channel : Channel α) : Channel α :=
  match pending : channel.queue with
  | [] => channel
  | a :: queue =>
    { channel with
      queue
      received := channel.received ++ [a]
      within := by
        have bound := channel.within
        rw [pending, List.length_cons] at bound
        omega
      fifo := by rw [channel.fifo, pending, List.append_assoc]; rfl }

/-- Send what there is to send. -/
def trySendOption (channel : Channel α) : Option α → Channel α
  | none => channel
  | some a => channel.trySend a

theorem trySend_accepted (channel : Channel α) (a : α) :
    (channel.trySend a).accepted =
      if channel.Full then channel.accepted else channel.accepted ++ [a] := by
  unfold trySend
  split
  next room => exact (if_neg (Nat.not_le.mpr room)).symm
  next full => exact (if_pos (Nat.le_of_not_lt full)).symm

theorem trySend_refused (channel : Channel α) (a : α) :
    (channel.trySend a).refused =
      if channel.Full then channel.refused ++ [a] else channel.refused := by
  unfold trySend
  split
  next room => exact (if_neg (Nat.not_le.mpr room)).symm
  next full => exact (if_pos (Nat.le_of_not_lt full)).symm

@[simp] theorem recv_accepted (channel : Channel α) : channel.recv.accepted = channel.accepted := by
  unfold recv
  split <;> rfl

@[simp] theorem recv_refused (channel : Channel α) : channel.recv.refused = channel.refused := by
  unfold recv
  split <;> rfl

/-- What was accepted stays on record. -/
theorem subset_trySend (channel : Channel α) (a : α) :
    channel.accepted ⊆ (channel.trySend a).accepted := by
  rw [trySend_accepted]
  split
  · exact List.Subset.refl _
  · exact List.subset_append_left _ _

theorem subset_trySend_refused (channel : Channel α) (a : α) :
    channel.refused ⊆ (channel.trySend a).refused := by
  rw [trySend_refused]
  split
  · exact List.subset_append_left _ _
  · exact List.Subset.refl _

theorem subset_trySendOption (channel : Channel α) (sent : Option α) :
    channel.accepted ⊆ (channel.trySendOption sent).accepted ∧
      channel.refused ⊆ (channel.trySendOption sent).refused := by
  cases sent with
  | none => exact ⟨List.Subset.refl _, List.Subset.refl _⟩
  | some a => exact ⟨channel.subset_trySend a, channel.subset_trySend_refused a⟩

theorem mem_accepted {channel : Channel α} (room : ¬channel.Full) (a : α) :
    a ∈ (channel.trySend a).accepted := by
  rw [trySend_accepted, if_neg room]
  exact List.mem_append_right _ (List.mem_singleton_self a)

/-- What is sent is accepted or refused. -/
theorem mem_trySend (channel : Channel α) (a : α) :
    a ∈ (channel.trySend a).accepted ∨ a ∈ (channel.trySend a).refused := by
  rw [trySend_accepted, trySend_refused]
  by_cases full : channel.Full <;> simp [full]

end Channel

end Hftrs.Library
