import Hftrs.Itch5.Acceptance
import Hftrs.Moldudp.Server

/-! The replay loop: it reads the messages of a file and sends them in batches of random sizes. -/
namespace Hftrs.App

open Hftrs.Itch5 Hftrs.Library Hftrs.Moldudp

/-- Accumulates messages until a random number of them has come together. `picked` counts the
sizes drawn so far. -/
structure Batch where
  buf : List (List UInt8)
  nextFlush : Nat
  picked : Nat

/-- A draw from `1..=max_msgs`. -/
def pickFlushSize {maxMsgs : Nat} (random : Nat → Fin maxMsgs) (picked : Nat) : Nat :=
  (random picked).val + 1

namespace Batch

variable {maxMsgs : Nat} (random : Nat → Fin maxMsgs)

def new : Batch := ⟨[], pickFlushSize random 0, 1⟩

def push (batch : Batch) (msg : List UInt8) : Batch := { batch with buf := batch.buf ++ [msg] }

def isEmpty (batch : Batch) : Bool := batch.buf.isEmpty

def isReadyToFlush (batch : Batch) : Bool := batch.nextFlush ≤ batch.buf.length

/-- The command that the flush sends, and the batch it leaves. -/
def flush (batch : Batch) : ServerCommand × Batch :=
  (.Send batch.buf, ⟨[], pickFlushSize random batch.picked, batch.picked + 1⟩)

end Batch

/-- The loop of `replay` on the rest of the file: the commands it sends, and the batch it leaves. -/
def replayLoop {maxMsgs : Nat} (shutdown : Bool) (random : Nat → Fin maxMsgs) (buf : List UInt8)
    (batch : Batch) : List ServerCommand × Batch :=
  if buf = [] ∨ shutdown then ([], batch)
  else
    match _parsed : parseOne buf with
    -- logged, and the loop ends; what the batch holds is still sent
    | .error _ => ([], batch)
    | .ok (msg, rest) =>
      -- the guard against a parser that makes no progress
      if rest.length ≥ buf.length then ([], batch)
      else
        let batch := batch.push msg
        if batch.isReadyToFlush then
          let (command, batch) := batch.flush random
          let (commands, batch) := replayLoop shutdown random rest batch
          (command :: commands, batch)
        else replayLoop shutdown random rest batch
  termination_by buf.length
  decreasing_by all_goals exact parseOne_length _parsed

/-- The commands that a replay of the file sends to the server. -/
def replay {maxMsgs : Nat} (shutdown : Bool) (random : Nat → Fin maxMsgs) (file : List UInt8) :
    List ServerCommand :=
  let (commands, batch) := replayLoop shutdown random file (.new random)
  if batch.isEmpty then commands else commands ++ [(batch.flush random).1]

/-! ### What is sent -/

variable {maxMsgs : Nat} (random : Nat → Fin maxMsgs)

@[simp] theorem replayLoop_nil (shutdown : Bool) (batch : Batch) :
    replayLoop shutdown random [] batch = ([], batch) := by
  rw [replayLoop, if_pos (Or.inl rfl)]

/-- One turn of the loop on a valid frame. -/
theorem replayLoop_frame (m : Message) (tagged : m.Tagged) (rest : List UInt8) (batch : Batch) :
    replayLoop false random (block m.2.bytes ++ rest) batch =
      if (batch.push m.2.bytes).isReadyToFlush then
        (((batch.push m.2.bytes).flush random).1 ::
            (replayLoop false random rest ((batch.push m.2.bytes).flush random).2).1,
          (replayLoop false random rest ((batch.push m.2.bytes).flush random).2).2)
      else replayLoop false random rest (batch.push m.2.bytes) := by
  have parsed : parseOne (block m.2.bytes ++ rest) = .ok (m.2.bytes, rest) :=
    (parseOne_iff _ _ _).mpr ⟨splitBlock_block _ _ m.2.fits, m.1.tag, tag_mem m.1, tagged⟩
  have shorter := parseOne_length parsed
  have nonempty : ¬(block m.2.bytes ++ rest = [] ∨ false = true) := by
    rintro (empty | stop)
    · rw [empty] at shorter
      exact Nat.not_lt_zero _ shorter
    · cases stop
  rw [replayLoop, if_neg nonempty]
  split
  next e failed => rw [parsed] at failed; cases failed
  next msg rest' same =>
    rw [parsed] at same
    cases same
    rw [if_neg (Nat.not_le.mpr shorter)]

/-- The loop ends on bytes that `parse_one` refuses. -/
theorem replayLoop_stop (r : List UInt8) (stop : r = [] ∨ ∃ e, parseOne r = .error e)
    (batch : Batch) : replayLoop false random r batch = ([], batch) := by
  rcases stop with rfl | ⟨e, failed⟩
  · exact replayLoop_nil random false batch
  · rw [replayLoop]
    split
    next => rfl
    next =>
      split
      next => rfl
      next same => rw [failed] at same; cases same

/-- A batch that waits for more messages, and will be flushed with no more than the maximum. -/
def Batch.Open (maxMsgs : Nat) (batch : Batch) : Prop :=
  batch.buf.length < batch.nextFlush ∧ batch.nextFlush ≤ maxMsgs

theorem Batch.open_flushed (picked : Nat) :
    Batch.Open maxMsgs ⟨[], pickFlushSize random picked, picked + 1⟩ :=
  ⟨Nat.succ_pos _, (random picked).isLt⟩

/-- The loop sends the messages in batches, in order and within the maximum, and keeps those of an
unfinished one. -/
theorem replayLoop_frames (msgs : List Message) (tagged : ∀ m ∈ msgs, m.Tagged) (r : List UInt8)
    (stop : r = [] ∨ ∃ e, parseOne r = .error e) (batch : Batch) :
    ∃ (batches : List (List (List UInt8))) (last : Batch),
      replayLoop false random (framed msgs ++ r) batch =
        (batches.map ServerCommand.Send, last) ∧
      (batches.flatten ++ last.buf = batch.buf ++ msgs.map fun m => m.2.bytes) ∧
      (batch.Open maxMsgs → (∀ b ∈ batches, b.length ≤ maxMsgs) ∧ last.Open maxMsgs) := by
  -- on the messages, whatever the batch already holds
  induction msgs generalizing batch with
  | nil =>
    exact ⟨[], batch, by rw [framed_nil, List.nil_append, replayLoop_stop random r stop]; rfl,
      by simp, fun waiting => ⟨by simp, waiting⟩⟩
  | cons m ms ih =>
    have head : m.Tagged := tagged m (by simp)
    have tail : ∀ n ∈ ms, n.Tagged := fun n member => tagged n (by simp [member])
    have pushed : (batch.push m.2.bytes).buf.length = batch.buf.length + 1 := by
      rw [Batch.push, List.length_append, List.length_singleton]
    rw [framed_cons, List.append_assoc, replayLoop_frame random m head]
    split
    next =>
      -- the batch with the message goes out, and an empty one takes its place
      obtain ⟨batches, last, looped, all, sizes⟩ := ih tail ((batch.push m.2.bytes).flush random).2
      refine ⟨(batch.push m.2.bytes).buf :: batches, last, by rw [looped]; rfl, ?_, ?_⟩
      · rw [List.flatten_cons, List.append_assoc, all]
        simp [Batch.push, Batch.flush]
      · rintro ⟨short, few⟩
        obtain ⟨others, waiting⟩ := sizes (Batch.open_flushed random _)
        exact ⟨List.forall_mem_cons.mpr ⟨by omega, others⟩, waiting⟩
    next notReady =>
      obtain ⟨batches, last, looped, all, sizes⟩ := ih tail (batch.push m.2.bytes)
      refine ⟨batches, last, looped, ?_, ?_⟩
      · rw [all]
        simp [Batch.push]
      · rintro ⟨_, few⟩
        have short : (batch.push m.2.bytes).buf.length < batch.nextFlush :=
          Nat.lt_of_not_le fun full => notReady (decide_eq_true full)
        exact sizes ⟨short, few⟩

/-- A replay of a file that `parse_one` refuses behind some messages sends these once, in order,
in batches within the maximum. -/
theorem replay_frames (msgs : List Message) (tagged : ∀ m ∈ msgs, m.Tagged) (r : List UInt8)
    (stop : r = [] ∨ ∃ e, parseOne r = .error e) :
    ∃ batches : List (List (List UInt8)),
      replay false random (framed msgs ++ r) = batches.map ServerCommand.Send ∧
      (batches.flatten = msgs.map fun m => m.2.bytes) ∧ ∀ b ∈ batches, b.length ≤ maxMsgs := by
  obtain ⟨batches, last, looped, all, sizes⟩ :=
    replayLoop_frames random msgs tagged r stop (.new random)
  obtain ⟨small, waiting⟩ := sizes (Batch.open_flushed random 0)
  change _ = [] ++ _ at all
  rw [List.nil_append] at all
  simp only [replay, looped]
  split
  next empty =>
    rw [List.isEmpty_iff.mp empty, List.append_nil] at all
    exact ⟨batches, rfl, all, small⟩
  next =>
    refine ⟨batches ++ [last.buf], by rw [List.map_append]; rfl, ?_, ?_⟩
    · rw [List.flatten_append, List.flatten_singleton, all]
    · intro b member
      rcases List.mem_append.mp member with old | new
      · exact small b old
      · rw [List.mem_singleton.mp new]
        exact Nat.le_trans (Nat.le_of_lt waiting.1) waiting.2

/-- A replay sends every message of the file once, in order. -/
theorem replay_framed (msgs : List Message) (tagged : ∀ m ∈ msgs, m.Tagged) :
    ∃ batches : List (List (List UInt8)),
      replay false random (framed msgs) = batches.map ServerCommand.Send ∧
      batches.flatten = msgs.map fun m => m.2.bytes := by
  obtain ⟨batches, sent, all, _⟩ := replay_frames random msgs tagged [] (.inl rfl)
  rw [List.append_nil] at sent
  exact ⟨batches, sent, all⟩

end Hftrs.App
