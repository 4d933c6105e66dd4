import Hftrs.Library.Runs
import Hftrs.Moldudp.Codec

/-! The sender loop from `StopSession` on. -/
namespace Hftrs.Moldudp

open Hftrs.Library

/-- The sender after `StopSession`. -/
def Sender.stop (sender : Sender) : Sender := { sender with stopped := true }

/-- The end-of-session packet of a sender. -/
def Sender.farewell (sender : Sender) : List UInt8 :=
  buildSpecial sender.session sender.nextSeq endOfSessionIdent

/-- A stopped sender stays as it is, whatever it receives, and sends nothing but the
end-of-session packet. -/
theorem senderStep_stopped (profile : Profile) (maxPayload : Nat) (sender : Sender)
    (received : Received) :
    ∃ datagrams, senderStep profile maxPayload sender.stop received =
        some (datagrams, sender.stop) ∧
      ∀ datagram ∈ datagrams, datagram = sender.farewell := by
  have quiet : ∀ datagram ∈ ([] : List (List UInt8)), datagram = sender.farewell := by simp
  have once : ∀ datagram ∈ [sender.farewell], datagram = sender.farewell := by simp
  cases received with
  | Timeout => exact ⟨_, rfl, once⟩
  | Ok command =>
    cases command with
    -- these check the flag
    | Send msgs => exact ⟨_, rfl, quiet⟩
    | SendDropped msgs => exact ⟨_, rfl, quiet⟩
    | ChangeSession s => exact ⟨_, rfl, quiet⟩
    -- of these, one is what the flag turns a heartbeat into, and the others do not need it
    | Heartbeat => exact ⟨_, rfl, once⟩
    | EndOfSession => exact ⟨_, rfl, once⟩
    | StopSession => exact ⟨_, rfl, quiet⟩

/-- The number of the next message stays within 64 bits. -/
theorem senderStep_nextSeq (profile : Profile) (maxPayload : Nat) (sender next : Sender)
    (received : Received) (datagrams : List (List UInt8)) (small : sender.nextSeq < 2 ^ 64)
    (stepped : senderStep profile maxPayload sender received = some (datagrams, next)) :
    next.nextSeq < 2 ^ 64 := by
  cases received with
  | Timeout => cases stepped; exact small
  | Ok command =>
    cases command with
    | Heartbeat => cases stepped; exact small
    | EndOfSession => cases stepped; exact small
    | StopSession => cases stepped; exact small
    | ChangeSession s =>
      simp only [senderStep] at stepped
      split at stepped <;> cases stepped <;> exact small
    | SendDropped msgs =>
      simp only [senderStep] at stepped
      split at stepped
      next => cases stepped; exact small
      next =>
        split at stepped
        next => cases stepped; exact small
        next =>
          simp only [Option.bind_eq_bind, Option.bind_eq_some_iff] at stepped
          obtain ⟨_, _, nextSeq, added, equal⟩ := stepped
          cases equal
          exact profile.add_lt added
    | Send msgs =>
      simp only [senderStep] at stepped
      split at stepped
      next => cases stepped; exact small
      next =>
        split at stepped
        next => cases stepped; exact small
        next =>
          simp only [Option.bind_eq_bind, Option.bind_eq_some_iff] at stepped
          obtain ⟨_, _, nextSeq, added, _, _, equal⟩ := stepped
          cases equal
          exact profile.add_lt added

/-- The end-of-session packet is a header, and parses as what it is. -/
theorem parse_farewell (sender : Sender) (small : sender.nextSeq < 2 ^ 64) :
    sender.farewell.length = 20 ∧
      Packet.parse sender.farewell =
        some ⟨sender.session, sender.nextSeq, endOfSessionIdent, []⟩ := by
  have parsed := Packet.parse_header sender.session sender.nextSeq endOfSessionIdent [] small
    (by decide)
  rw [List.append_nil] at parsed
  exact ⟨Packet.length_header _ _ _, parsed⟩

/-- Whatever the sender did before, from `StopSession` on it does not panic, its log, number and
session are those at the stop, and all it sends are end-of-session packets that say so. -/
theorem stop_is_final (profile : Profile) (maxPayload : Nat) (start stopped : Sender)
    (before after : List Received) (sent : List (List (List UInt8)))
    (small : start.nextSeq < 2 ^ 64)
    (returned : run (senderStep profile maxPayload) start before = some (sent, stopped)) :
    ∃ answers, run (senderStep profile maxPayload) stopped (.Ok .StopSession :: after) =
        some (answers, { stopped with stopped := true }) ∧
      ∀ datagram ∈ answers.flatten, datagram.length = 20 ∧
        ∃ packet, Packet.parse datagram = some packet ∧ packet.packetKind = .EndOfSession ∧
          packet.seqNum = stopped.nextSeq ∧ packet.session = stopped.session ∧
          packet.contents = [] := by
  have bounded : stopped.nextSeq < 2 ^ 64 := by
    refine run_invariant (P := fun sender => sender.nextSeq < 2 ^ 64) ?_ small returned
    intro sender received datagrams next small stepped
    exact senderStep_nextSeq profile maxPayload sender next received datagrams small stepped
  obtain ⟨length, parsed⟩ := parse_farewell stopped bounded
  obtain ⟨answers, onwards, quiet⟩ :=
    run_final (senderStep_stopped profile maxPayload stopped) after
  refine ⟨[] :: answers, ?_, ?_⟩
  · rw [run_cons_of_step _ _ stopped.stop _ _ [] rfl, onwards]
    rfl
  · intro datagram member
    rw [List.flatten_cons, List.nil_append] at member
    obtain ⟨datagrams, listed, inside⟩ := List.mem_flatten.mp member
    rw [quiet datagrams listed datagram inside]
    have nothing := Packet.contents_blocks stopped.session stopped.nextSeq endOfSessionIdent []
      (by simp)
    exact ⟨length, _, parsed, rfl, rfl, rfl, nothing⟩

/-- A stop after a message, and then one of everything. -/
theorem stop_is_final_after_send :
    ∃ sent stopped answers,
      run (senderStep .debug 10) ⟨padSession [65], ∅, 7, false⟩ [.Ok (.Send [[1]])] =
        some (sent, stopped) ∧
      run (senderStep .debug 10) stopped
          [.Ok .StopSession, .Ok (.Send [[2]]), .Ok (.SendDropped [[3]]), .Timeout,
            .Ok (.ChangeSession [66]), .Ok .Heartbeat, .Ok .EndOfSession] =
        some (answers, { stopped with stopped := true }) ∧
      answers.flatten = List.replicate 3 (buildSpecial (padSession [65]) 8 65535) := by
  obtain ⟨answers, onwards, _⟩ := stop_is_final .debug 10 ⟨padSession [65], ∅, 7, false⟩ _
    [.Ok (.Send [[1]])]
    [.Ok (.Send [[2]]), .Ok (.SendDropped [[3]]), .Timeout, .Ok (.ChangeSession [66]),
      .Ok .Heartbeat, .Ok .EndOfSession] _ (by decide) rfl
  refine ⟨_, _, answers, rfl, onwards, ?_⟩
  cases onwards
  decide

end Hftrs.Moldudp
