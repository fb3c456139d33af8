import Wallchanger.ChangeApp.ChangeClient
import Wallchanger.ChangeService.Serving

/-! The time of a message stays with its sender: what a client makes of the reply to its ping. -/

namespace Wallchanger

open Foundation Net

namespace Net

/-- A read fills the header and the body of the buffer and leaves its time. -/
theorem Connection.time_received {connection next : Connection} {data : Bytes} {item : Option OwnedMessage}
    (handled : connection.received data = some (next, item)) : next.tempIn.time = connection.tempIn.time ∧
      ∀ owned ∈ item.toList, owned.msg.time = connection.tempIn.time := by
  unfold received at handled
  split at handled
  · cases handled
  · unfold headerRead at handled
    dsimp only at handled
    split at handled
    · cases handled
      exact ⟨rfl, fun _ member => nomatch member⟩
    · cases handled
      exact ⟨rfl, fun owned member => List.mem_singleton.mp member ▸ rfl⟩
  · cases handled
    exact ⟨rfl, fun owned member => List.mem_singleton.mp member ▸ rfl⟩

namespace Conversation

/-- No end has read a time. -/
def Untimed (talk : Conversation) : Prop := ∀ owner, (talk owner).peer.connection.tempIn.time = 0 ∧
  ∀ owned ∈ (talk owner).incoming, owned.msg.time = 0

theorem untimed_of {talk next : Conversation} (untimed : talk.Untimed)
    (same : ∀ side, (next side).peer.connection.tempIn = (talk side).peer.connection.tempIn ∧
      (next side).incoming = (talk side).incoming) : next.Untimed := by
  intro side
  rw [(same side).1, (same side).2]
  exact untimed side

theorem untimed_send {talk : Conversation} (untimed : talk.Untimed) (owner : Owner) (msg : Message) :
    (talk.send owner msg).Untimed := by
  refine untimed_of untimed (fun side => ⟨?_, talk.incoming_send owner side msg⟩)
  rcases owner.eq_or_eq_other side with rfl | rfl
  · unfold send Peer.sendMessage
    rw [Function.update_self]
    dsimp only
    split
    · rfl
    · rfl
  · rw [send_other]

theorem untimed_step {talk next : Conversation} {owner : Owner} {activity : Activity} (untimed : talk.Untimed)
    (taken : talk.step owner activity = some next) : next.Untimed := by
  cases activity with
  | handle =>
    obtain ⟨msg, posted, connection, _, ran, rfl⟩ := handle_cases taken
    refine untimed_of untimed (fun side => ?_)
    rcases owner.eq_or_eq_other side with rfl | rfl
    · rw [Function.update_self]
      exact ⟨(Connection.sameReading_sendMessage ran).2, rfl⟩
    · rw [Function.update_of_ne owner.other_ne]
      exact ⟨rfl, rfl⟩
  | written =>
    obtain ⟨part, buffer, connection, _, ran, rfl⟩ := written_cases taken
    refine untimed_of untimed (fun side => ?_)
    rcases owner.eq_or_eq_other side with rfl | rfl
    · rw [Function.update_self]
      exact ⟨(Connection.sameReading_written ran).2, rfl⟩
    · rw [Function.update_of_ne owner.other_ne]
      exact ⟨rfl, rfl⟩
  | received =>
    obtain ⟨part, wanted, connection, item, _, _, ran, rfl⟩ := received_cases taken
    obtain ⟨kept, read⟩ := Connection.time_received ran
    intro side
    rcases owner.eq_or_eq_other side with rfl | rfl
    · rw [Function.update_self]
      refine ⟨kept.trans (untimed side).1, fun owned member => ?_⟩
      rcases List.mem_append.mp member with old | new
      · exact (untimed side).2 owned old
      · exact (read owned new).trans (untimed side).1
    · rw [Function.update_of_ne owner.other_ne, Function.update_self]
      exact untimed owner.other

end Conversation

end Net

namespace Service

variable {σ : Type} {api : StateApi σ} {cbor : Cbor}

/-- No message has brought a time to the service or to a client. -/
def Untimed (service : Service σ) : Prop :=
  (∀ talk ∈ service.talks, talk.Untimed) ∧ ∀ entry ∈ service.incomming, entry.2.time = 0

theorem untimed_reply {talk : Conversation} (untimed : talk.Untimed) (sent : List Message) :
    (reply talk sent).Untimed := by
  induction sent generalizing talk with
  | nil => exact untimed
  | cons msg rest ih => exact ih (Conversation.untimed_send untimed .server msg)

theorem untimed_act {service next : Service σ} {client : Nat} {owner : Owner} {activity : Activity}
    (untimed : service.Untimed) (taken : service.act client owner activity = some next) : next.Untimed := by
  obtain ⟨talk, found, taken⟩ := Option.bind_eq_some_iff.mp taken
  obtain ⟨after, ran, taken⟩ := Option.bind_eq_some_iff.mp taken
  cases taken
  have good := Conversation.untimed_step (untimed.1 talk (List.mem_of_getElem? found)) ran
  constructor
  · intro other member
    rcases List.mem_or_eq_of_mem_set member with old | same
    · exact untimed.1 other old
    · exact same ▸ good
  · intro entry member
    rcases List.mem_append.mp member with old | new
    · exact untimed.2 entry old
    · obtain ⟨owned, arrived, rfl⟩ := List.mem_map.mp new
      exact (good .server).2 owned (List.mem_of_mem_drop arrived)

theorem untimed_step {service next : Service σ} {op : ServiceOp} (untimed : service.Untimed)
    (taken : service.step api cbor op = some next) : next.Untimed := by
  cases op with
  | connect id now =>
    cases taken
    refine ⟨fun talk member => ?_, untimed.2⟩
    rcases List.mem_append.mp member with old | new
    · exact untimed.1 talk old
    · rw [List.mem_singleton.mp new]
      intro owner
      cases owner <;> exact ⟨rfl, fun _ member => nomatch member⟩
  | ask client msg =>
    obtain ⟨talk, found, rfl⟩ := ask_cases taken
    refine ⟨fun other member => ?_, untimed.2⟩
    rcases List.mem_or_eq_of_mem_set member with old | same
    · exact untimed.1 other old
    · exact same ▸ Conversation.untimed_send (untimed.1 talk (List.mem_of_getElem? found)) .client msg
  | act client owner activity => exact untimed_act untimed taken
  | update env =>
    obtain ⟨client, msg, incomming, server, sent, queue, _, rfl⟩ := update_cases taken
    constructor
    · refine forall_mem_modify.mpr ⟨fun talk found => ?_, fun _ talk _ found => ?_⟩
      · exact untimed_reply (untimed.1 talk (List.mem_of_getElem? found)) _
      · exact untimed.1 talk (List.mem_of_getElem? found)
    · intro entry member
      exact untimed.2 entry (queue ▸ List.mem_cons_of_mem _ member)

theorem timeBytes_zero : timeBytes 0 = List.replicate 8 0 := by decide

/-- A message with eight bytes of zero pushed after its body, as a client receives it. -/
theorem showPing_of_zeros {msg received : Message} {now : UInt64}
    (same : content received = content (msg.push (List.replicate 8 0) now)) :
    ChangeClient.showPing received = .ok [.ping (List.replicate 8 0)] := by
  obtain ⟨header, body⟩ := Prod.mk.inj same
  have whole : received.body = msg.body ++ List.replicate 8 0 := body
  have valid : received.validate = true := by
    unfold Message.validate
    rw [header, body]
    exact decide_eq_true rfl
  have long : (List.replicate 8 (0 : UInt8)).length ≤ received.body.length := by
    rw [whole, List.length_append]
    exact Nat.le_add_left _ _
  have last : received.body.drop (received.body.length - (List.replicate 8 (0 : UInt8)).length) =
      List.replicate 8 0 := by
    rw [whole, List.length_append, Nat.add_sub_cancel, List.drop_left]
  unfold ChangeClient.showPing Message.pull
  rw [if_pos valid, if_pos long]
  dsimp only
  rw [last]
  rfl

/-- In whatever order all came before, a ping that is handled is sent back to its client with
the time of the epoch after its body, and nothing else changes: a client that receives that
takes the epoch for the time at which it sent the ping. -/
theorem ping_answered_with_epoch {start : ChangeServer σ} {ops : List ServiceOp} {final : Service σ}
    (reached : run (step api cbor) { server := start } ops = some final) {client : Nat} {msg : Message}
    {later : List (Nat × Message)} (front : final.incomming = (client, msg) :: later)
    (ping : MessageType.ofCode msg.header.id = some .serverGetPing) (valid : msg.validate = true)
    {serverCmd : Json} (decodes : MessageHelper.msgToJson cbor msg = .ok serverCmd) (env : Environment) :
    final.step api cbor (.update env) = some { final with
        incomming := later
        talks := final.talks.modify client (fun talk =>
          reply talk [msg.push (List.replicate 8 0) env.now]) } ∧
      (msg.push (List.replicate 8 0) env.now).body = msg.body ++ List.replicate 8 0 ∧
      ∀ received, content received = content (msg.push (List.replicate 8 0) env.now) →
        ChangeClient.showPing received = .ok [.ping (List.replicate 8 0)] := by
  have empty : Service.Untimed ({ server := start } : Service σ) :=
    ⟨fun _ member => (nomatch member), fun _ member => (nomatch member)⟩
  have each : ∀ (service : Service σ) op next, service.Untimed → service.step api cbor op = some next →
      next.Untimed := fun _ _ _ untimed taken => untimed_step untimed taken
  have untimed := (throughout_of_kept each empty).last reached
  have here : msg.time = 0 := untimed.2 (client, msg) (front ▸ List.mem_cons_self)
  have answer : ChangeServer.onMessage api cbor env final.server msg =
      .ok (final.server, [msg.push (List.replicate 8 0) env.now]) := by
    rw [ChangeServer.onMessage, if_pos valid, ChangeServer.process, decodes]
    dsimp only
    rw [ping, here, timeBytes_zero]
  refine ⟨?_, rfl, fun received same => showPing_of_zeros same⟩
  simp only [step, update, front, answer]

theorem ping_answered_with_epoch_second : ∃ final msg later serverCmd,
    run (step State.api pingCbor) { server := { state := {} } } (pingTwice.take 14) = some final ∧
      final.incomming = (1, msg) :: later ∧ MessageType.ofCode msg.header.id = some .serverGetPing ∧
      msg.validate = true ∧ MessageHelper.msgToJson pingCbor msg = .ok serverCmd ∧
      final.step State.api pingCbor (.update {}) = some { final with
        incomming := later
        talks := final.talks.modify 1 (fun talk => reply talk [msg.push (List.replicate 8 0) 0]) } := by
  have through : (run (step State.api pingCbor) { server := { state := {} } } (pingTwice.take 14)).any
      (fun final => final.incomming.head?.any (fun entry => decide (entry.1 = 1 ∧
        MessageType.ofCode entry.2.header.id = some .serverGetPing ∧ entry.2.validate = true ∧
        (MessageHelper.msgToJson pingCbor entry.2).toOption.isSome = true))) = true := by decide +kernel
  obtain ⟨final, reached, here⟩ := (Option.any_eq_true _ _).mp through
  obtain ⟨⟨client, msg⟩, front, here⟩ := (Option.any_eq_true _ _).mp here
  obtain ⟨rfl, ping, valid, decodes⟩ := of_decide_eq_true here
  obtain ⟨later, queue⟩ := List.head?_eq_some_iff.mp front
  cases read : MessageHelper.msgToJson pingCbor msg with
  | error thrown =>
    rw [read] at decodes
    cases decodes
  | ok serverCmd =>
    exact ⟨final, msg, later, serverCmd, reached, queue, ping, valid, read,
      (ping_answered_with_epoch reached queue ping valid read {}).1⟩

end Service

end Wallchanger
