import Hftrs.App.Pipeline
import Hftrs.App.Shutdown

/-! Stopping the whole program. The threads share one flag; each of them finds it up from a moment
of its own on, since nothing orders their steps. -/
namespace Hftrs.App

open Hftrs.Itch5 Hftrs.Library Hftrs.Orderbook Hftrs.Moldudp

/-! ### The replay -/

/-- The loop of `replay`, whose turn `now` loads the flag. -/
def replayLoopAsOf {maxMsgs : Nat} (raised : Nat) (random : Nat → Fin maxMsgs) (now : Nat)
    (buf : List UInt8) (batch : Batch) : List ServerCommand × Batch :=
  if buf = [] ∨ raised ≤ now then ([], batch)
  else
    match _parsed : parseOne buf with
    | .error _ => ([], batch)
    | .ok (msg, rest) =>
      if rest.length ≥ buf.length then ([], batch)
      else
        let batch := batch.push msg
        if batch.isReadyToFlush then
          let (command, batch) := batch.flush random
          let (commands, batch) := replayLoopAsOf raised random (now + 1) rest batch
          (command :: commands, batch)
        else replayLoopAsOf raised random (now + 1) rest batch
  termination_by buf.length
  decreasing_by all_goals exact parseOne_length _parsed

/-- What the batch holds when the loop ends is sent, also when the flag ended it. -/
def replayAsOf {maxMsgs : Nat} (raised : Nat) (random : Nat → Fin maxMsgs) (file : List UInt8) :
    List ServerCommand :=
  let (commands, batch) := replayLoopAsOf raised random 0 file (.new random)
  if batch.isEmpty then commands else commands ++ [(batch.flush random).1]

/-- The server thread ends the session whatever ended the replay. -/
def serverThreadAsOf {maxMsgs : Nat} (raised : Nat) (random : Nat → Fin maxMsgs)
    (file : List UInt8) : List ServerCommand :=
  replayAsOf raised random file ++ [.EndOfSession]

variable {maxMsgs : Nat} (random : Nat → Fin maxMsgs)

/-- The loop works as one that is not stopped does on the messages before the flag. -/
theorem replayLoopAsOf_take (raised now : Nat) (msgs : List Message)
    (tagged : ∀ m ∈ msgs, m.Tagged) (r : List UInt8)
    (stop : r = [] ∨ ∃ e, parseOne r = .error e) (batch : Batch) :
    replayLoopAsOf raised random now (framed msgs ++ r) batch =
      replayLoop false random (framed (msgs.take (raised - now))) batch := by
  induction msgs generalizing now batch with
  | nil =>
    rw [framed_nil, List.nil_append, List.take_nil, framed_nil, replayLoop_nil, replayLoopAsOf]
    split
    · rfl
    next going =>
      rcases stop with rfl | ⟨e, failed⟩
      · exact absurd (Or.inl rfl) going
      · split
        next => rfl
        next same => rw [failed] at same; cases same
  | cons m ms ih =>
    by_cases up : raised ≤ now
    · rw [Nat.sub_eq_zero_of_le up, List.take_zero, framed_nil, replayLoop_nil, replayLoopAsOf,
        if_pos (Or.inr up)]
    · obtain ⟨left, rest⟩ : ∃ left, raised - now = left + 1 := ⟨raised - now - 1, by omega⟩
      have onwards := ih (now + 1) fun n member => tagged n (by simp [member])
      rw [show raised - (now + 1) = left by omega] at onwards
      have head : m.Tagged := tagged m (by simp)
      have parsed : parseOne (block m.2.bytes ++ (framed ms ++ r)) =
          .ok (m.2.bytes, framed ms ++ r) :=
        (parseOne_iff _ _ _).mpr ⟨splitBlock_block _ _ m.2.fits, m.1.tag, tag_mem m.1, head⟩
      have shorter := parseOne_length parsed
      have going : ¬(block m.2.bytes ++ (framed ms ++ r) = [] ∨ raised ≤ now) := by
        rintro (empty | late)
        · rw [empty] at shorter
          exact Nat.not_lt_zero _ shorter
        · exact up late
      rw [rest, List.take_succ_cons, framed_cons, framed_cons, List.append_assoc,
        replayLoop_frame random m head, replayLoopAsOf, if_neg going]
      split
      next e failed => rw [parsed] at failed; cases failed
      next msg rest' same =>
        rw [parsed] at same
        cases same
        rw [if_neg (Nat.not_le.mpr shorter)]
        simp only [onwards]

theorem serverThreadAsOf_take (raised : Nat) (msgs : List Message)
    (tagged : ∀ m ∈ msgs, m.Tagged) (r : List UInt8)
    (stop : r = [] ∨ ∃ e, parseOne r = .error e) :
    serverThreadAsOf raised random (framed msgs ++ r) =
      serverThread false random (framed (msgs.take raised)) := by
  rw [serverThreadAsOf, serverThread, replayAsOf, replay,
    replayLoopAsOf_take random raised 0 msgs tagged r stop, Nat.sub_zero]

/-! ### The whole program -/

/-- Each batch of a stopped replay is one packet when there is room for the largest one. -/
theorem fits_of_few_asOf {maxPayload : Nat} (few : maxMsgs * 50 ≤ maxPayload) (msgs : List Message)
    (tagged : ∀ m ∈ msgs, m.Tagged) (r : List UInt8) (stop : r = [] ∨ ∃ e, parseOne r = .error e)
    (raised : Nat) {events : List Received}
    (commands : events.filterMap command = serverThreadAsOf raised random (framed msgs ++ r)) :
    ∀ batch, .Ok (.Send batch) ∈ events → Fits maxPayload batch := by
  rw [serverThreadAsOf_take random raised msgs tagged r stop,
    ← List.append_nil (framed (msgs.take raised))] at commands
  exact fits_of_few few random (msgs.take raised)
    (fun m member => tagged m (List.mem_of_mem_take member)) [] (.inl rfl) commands

/-- What a stopped replay lets the consumer hear: the messages before the flag. -/
theorem replay_heard_asOf (profile : Profile) (maxPayload : Nat) (limit : maxPayload < 65535)
    (session : List UInt8) (msgs : List Message)
    (tagged : ∀ m ∈ msgs, m.Tagged) (r : List UInt8) (stop : r = [] ∨ ∃ e, parseOne r = .error e)
    (room : msgs.length + 65536 < 2 ^ 64) (raised : Nat) (events : List Received)
    (commands : events.filterMap command = serverThreadAsOf raised random (framed msgs ++ r))
    (fits : ∀ batch, .Ok (.Send batch) ∈ events → Fits maxPayload batch) :
    ∃ packets server, run (senderStep profile maxPayload) (startServer session) events =
        some (packets, server) ∧
      ∀ datagrams : List Filled, datagrams.map Filled.bytes = packets.flatten →
        ∃ effects client, run (processMulticastDatagram profile) (startClient session)
            datagrams = some (effects, client) ∧ (∀ e ∈ effects, e.request = none) ∧
          (∀ d ∈ effects.filterMap Effects.forwarded, (Packet.parse d).isSome) ∧
          heard (effects.filterMap Effects.forwarded) = msgs.take raised := by
  have front := List.take_prefix raised msgs
  have few : (msgs.take raised).length ≤ msgs.length := front.length_le
  rw [serverThreadAsOf_take random raised msgs tagged r stop,
    ← List.append_nil (framed (msgs.take raised))] at commands
  exact replay_heard profile maxPayload limit maxMsgs random session (msgs.take raised)
    (fun m member => tagged m (front.subset member)) [] (.inl rfl) (by omega) events commands fits

end Hftrs.App
