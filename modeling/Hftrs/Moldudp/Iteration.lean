import Hftrs.Moldudp.Packet

/-! What iterating over message blocks yields on any bytes. -/
namespace Hftrs.Moldudp

open Hftrs.Library

namespace Messages

/-- The answers of calls of `next` in a row. A call that finds no block leaves the iterator as it
is. -/
def answers : Nat → Messages → List (Option (List UInt8))
  | 0, _ => []
  | calls + 1, messages =>
    match messages.next with
    | none => none :: answers calls messages
    | some (body, rest) => some body :: answers calls rest

theorem drain_zero (bytes : List UInt8) : drain ⟨bytes, 0⟩ = ([], ⟨bytes, 0⟩) :=
  drain_none (next_none bytes)

theorem drain_succ_none {bytes : List UInt8} (remaining : Nat)
    (last : splitBlock bytes = none) :
    drain ⟨bytes, remaining + 1⟩ = ([], ⟨bytes, remaining + 1⟩) :=
  drain_none (by rw [next_eq, last, Option.map_none])

theorem drain_succ_some {bytes body rest : List UInt8} (remaining : Nat)
    (first : splitBlock bytes = some (body, rest)) :
    drain ⟨bytes, remaining + 1⟩ =
      (body :: (drain ⟨rest, remaining⟩).1, (drain ⟨rest, remaining⟩).2) :=
  drain_some (by rw [next_eq, first, Option.map_some])

/-- The yielded blocks, each within 16 bits, and the bytes that are left make up the bytes. -/
theorem drain_whole (bytes : List UInt8) (count : Nat) :
    bytes = blocks (drain ⟨bytes, count⟩).1 ++ (drain ⟨bytes, count⟩).2.bytes ∧
      ∀ body ∈ (drain ⟨bytes, count⟩).1, body.length < 2 ^ 16 := by
  induction count generalizing bytes with
  | zero => simp [drain_zero]
  | succ count ih =>
    cases found : splitBlock bytes with
    | none => simp [drain_succ_none count found]
    | some first =>
      obtain ⟨body, rest⟩ := first
      obtain ⟨shape, fits⟩ := splitBlock_some found
      obtain ⟨whole, others⟩ := ih rest
      rw [drain_succ_some count found, blocks_cons, List.append_assoc, ← whole]
      exact ⟨shape, List.forall_mem_cons.mpr ⟨fits, others⟩⟩

theorem length_drain (bytes : List UInt8) (count : Nat) :
    (drain ⟨bytes, count⟩).1.length + (drain ⟨bytes, count⟩).2.remaining = count := by
  induction count generalizing bytes with
  | zero => simp [drain_zero]
  | succ count ih =>
    cases found : splitBlock bytes with
    | none => simp [drain_succ_none count found]
    | some first =>
      have onwards := ih first.2
      simp only [drain_succ_some count found, List.length_cons]
      omega

/-- With some of the count left, no block is left. -/
theorem drain_stopped (bytes : List UInt8) (count : Nat)
    (early : (drain ⟨bytes, count⟩).1.length < count) :
    splitBlock (drain ⟨bytes, count⟩).2.bytes = none := by
  induction count generalizing bytes with
  | zero => exact absurd early (Nat.not_lt_zero _)
  | succ count ih =>
    cases found : splitBlock bytes with
    | none =>
      rw [drain_succ_none count found]
      exact found
    | some first =>
      rw [drain_succ_some count found] at early ⊢
      exact ih first.2 (Nat.lt_of_succ_lt_succ early)

/-- Blocks at the front of the bytes, within the count, are yielded first. -/
theorem isPrefix_drain (bytes : List UInt8) (count : Nat) (others : List (List UInt8))
    (fits : ∀ body ∈ others, body.length < 2 ^ 16) (few : others.length ≤ count)
    (front : blocks others <+: bytes) : others <+: (drain ⟨bytes, count⟩).1 := by
  induction others generalizing bytes count with
  | nil => exact List.nil_prefix
  | cons body others ih =>
    obtain ⟨rest, rfl⟩ := front
    cases count with
    | zero => exact absurd few (Nat.not_succ_le_zero _)
    | succ count =>
      have found := splitBlock_block body (blocks others ++ rest) (fits body (by simp))
      rw [blocks_cons, List.append_assoc, drain_succ_some count found]
      exact List.cons_prefix_cons.mpr ⟨rfl, ih _ count (fun b member => fits b (by simp [member]))
        (Nat.le_of_succ_le_succ few) (List.prefix_append _ _)⟩

/-- An iterator that has found no block finds none again. -/
theorem answers_none {messages : Messages} (last : messages.next = none) (calls : Nat) :
    answers calls messages = List.replicate calls none := by
  induction calls with
  | zero => rfl
  | succ calls ih =>
    simp only [answers, last]
    rw [ih, List.replicate_succ]

theorem answers_eq (bytes : List UInt8) (count calls : Nat) :
    answers calls ⟨bytes, count⟩ =
      ((drain ⟨bytes, count⟩).1.map some ++ List.replicate calls none).take calls := by
  induction calls generalizing bytes count with
  | zero => rw [List.take_zero, answers]
  | succ calls ih =>
    cases found : next ⟨bytes, count⟩ with
    | none =>
      rw [answers_none found, drain_none found, List.map_nil, List.nil_append,
        List.take_of_length_le]
      rw [List.length_replicate]
    | some first =>
      obtain ⟨body, bytes', count'⟩ := first
      have shorter : ((drain ⟨bytes', count'⟩).1.map some ++
            List.replicate (calls + 1) none).take calls =
          ((drain ⟨bytes', count'⟩).1.map some ++ List.replicate calls none).take calls := by
        rw [List.replicate_succ', ← List.append_assoc, List.take_append_of_le_length]
        rw [List.length_append, List.length_replicate]
        exact Nat.le_add_left _ _
      simp only [answers, found]
      rw [ih, drain_some found, List.map_cons, List.cons_append, List.take_succ_cons, shorter]

/-- On any bytes and with any count, the calls of `next` yield complete blocks that are a prefix
of the bytes, as many as there are up to the count, stop early only where no complete block is
left, and go on finding none once they have found none. -/
theorem yields_longest (bytes : List UInt8) (count : Nat) :
    ∃ yielded left, bytes = blocks yielded ++ left ∧ yielded.length ≤ count ∧
      (∀ body ∈ yielded, body.length < 2 ^ 16) ∧
      (∀ others : List (List UInt8), (∀ body ∈ others, body.length < 2 ^ 16) →
        others.length ≤ count → blocks others <+: bytes → others <+: yielded) ∧
      (yielded.length < count → ∀ body, body.length < 2 ^ 16 → ¬block body <+: left) ∧
      ∀ calls, answers calls ⟨bytes, count⟩ =
        (yielded.map some ++ List.replicate calls none).take calls := by
  obtain ⟨whole, fits⟩ := drain_whole bytes count
  refine ⟨_, _, whole, ?_, fits, isPrefix_drain bytes count, ?_, answers_eq bytes count⟩
  · exact Nat.le.intro (length_drain bytes count)
  · rintro early body short ⟨rest, front⟩
    have stopped := drain_stopped bytes count early
    rw [← front, splitBlock_block body rest short] at stopped
    cases stopped

end Messages

end Hftrs.Moldudp
