import Wallchanger.ChangeService.Service

/-! Whatever the order in which connects, requests, handlers of the sockets and turns of the
loop come, every client is served as by a server that handles one event at a time. -/

namespace Wallchanger

open Foundation Net

/-- The header tells the length of the body, and there is a body. -/
def Net.Message.Whole (msg : Message) : Prop := msg.Sized ∧ msg.body ≠ []

/-! ### The messages of the server -/

namespace ChangeServer

variable {σ : Type} {api : StateApi σ} {cbor : Cbor}

/-- A message that was finalized over a body. -/
def Finalized (msg : Message) : Prop := ∃ raw now, msg = Message.finalize raw now ∧ raw.body ≠ []

theorem Finalized.whole {msg : Message} (finalized : Finalized msg) (small : msg.body.length < 2 ^ 32) :
    msg.Whole := by
  obtain ⟨raw, now, rfl, nonempty⟩ := finalized
  exact ⟨Message.sized_finalize small now, nonempty⟩

theorem finalized_push (msg : Message) {data : Bytes} (nonempty : data ≠ []) (now : UInt64) :
    Finalized (msg.push data now) :=
  ⟨_, now, rfl, fun empty => nonempty (List.append_eq_nil_iff.mp empty).2⟩

theorem finalized_flagMessage (type : MessageType) (flag : Bool) (now : UInt64) :
    Finalized (flagMessage type flag now) := finalized_push _ (List.cons_ne_nil _ _) now

theorem finalized_jsonToMsg (nonempty : ∀ json, cbor.toCbor json ≠ []) (type : MessageType) (json : Json)
    (now : UInt64) : Finalized (MessageHelper.jsonToMsg cbor type json now) :=
  ⟨_, now, rfl, nonempty json⟩

/-- Nothing is sent, or one message that was finalized over a body. -/
def AtMostOne (sent : List Message) : Prop := sent = [] ∨ ∃ reply, sent = [reply] ∧ Finalized reply

theorem AtMostOne.nothing : AtMostOne [] := .inl rfl

theorem Finalized.only {reply : Message} (finalized : Finalized reply) : AtMostOne [reply] :=
  .inr ⟨reply, rfl, finalized⟩

theorem AtMostOne.finalized {sent : List Message} (few : AtMostOne sent) : ∀ reply ∈ sent, Finalized reply := by
  rcases few with rfl | ⟨reply, rfl, finalized⟩
  · exact fun _ member => nomatch member
  · exact fun other member => List.mem_singleton.mp member ▸ finalized

theorem AtMostOne.length_le {sent : List Message} (few : AtMostOne sent) : sent.length ≤ 1 := by
  rcases few with rfl | ⟨reply, rfl, _⟩
  · exact Nat.zero_le 1
  · exact Nat.le_refl 1

theorem atMostOne_reported {server next : ChangeServer σ} {now : UInt64} {outcome : Outcome (σ × Bool)}
    {sent : List Message} (returned : server.reported now outcome = .ok (next, sent)) : AtMostOne sent := by
  obtain ⟨⟨state, done⟩, _, returned⟩ := bind_eq_ok.mp returned
  cases returned
  cases done with
  | false => exact .nothing
  | true => exact (finalized_flagMessage _ _ _).only

/-- The messages sent for a message, none where `on_message` does not return. -/
def sentFor (api : StateApi σ) (cbor : Cbor) (env : Environment) (server : ChangeServer σ) (msg : Message) :
    List Message :=
  match onMessage api cbor env server msg with
  | .ok (_, sent) => sent
  | .error _ => []

/-- For a message the server sends at most one, finalized over a body, as no encoding is empty. -/
theorem atMostOne_onMessage (nonempty : ∀ json, cbor.toCbor json ≠ []) {server next : ChangeServer σ}
    {env : Environment} {msg : Message} {sent : List Message}
    (returned : onMessage api cbor env server msg = .ok (next, sent)) : AtMostOne sent := by
  unfold onMessage at returned
  split at returned
  · unfold process at returned
    split at returned
    · cases returned
    · split at returned
      · obtain ⟨⟨state, send⟩, _, returned⟩ := bind_eq_ok.mp returned
        cases returned
        exact (finalized_jsonToMsg nonempty _ _ _).only
      · obtain ⟨⟨state, prev⟩, _, returned⟩ := bind_eq_ok.mp returned
        cases returned
        split
        · exact (finalized_jsonToMsg nonempty _ _ _).only
        · exact (finalized_flagMessage _ _ _).only
      · obtain ⟨⟨state, cur⟩, _, returned⟩ := bind_eq_ok.mp returned
        cases returned
        exact (finalized_jsonToMsg nonempty _ _ _).only
      · obtain ⟨state, _, returned⟩ := bind_eq_ok.mp returned
        cases returned
        exact (finalized_flagMessage _ _ _).only
      · exact atMostOne_reported returned
      · exact atMostOne_reported returned
      · exact atMostOne_reported returned
      · exact atMostOne_reported returned
      · exact atMostOne_reported returned
      · obtain ⟨⟨state, listing⟩, _, returned⟩ := bind_eq_ok.mp returned
        cases returned
        split
        · exact (finalized_jsonToMsg nonempty _ _ _).only
        · exact .nothing
      · exact atMostOne_reported returned
      · exact atMostOne_reported returned
      · cases returned
        exact (finalized_jsonToMsg nonempty _ _ _).only
      · cases returned
        exact (finalized_push _ (List.cons_ne_nil _ _) _).only
      all_goals cases returned; exact .nothing
  · cases returned
    exact .nothing

end ChangeServer

namespace Service

variable {σ : Type} (api : StateApi σ) (cbor : Cbor)

/-- The ends of a connection; of one that was not made yet, ends that did nothing. -/
def talk (service : Service σ) (client : Nat) : Conversation :=
  (service.talks[client]?).getD (fun _ => { peer := { connection := { owner := .client } } })

/-- The messages of a client that wait in `m_incomming`. -/
def waiting (client : Nat) (incomming : List (Nat × Message)) : List Message :=
  incomming.filterMap (fun entry => if entry.1 = client then some entry.2 else none)

/-- The messages that a client calls `send_message` with. -/
def askedBy (client : Nat) (op : ServiceOp) : List Message :=
  match op with
  | .ask other msg => if other = client then [msg] else []
  | _ => []

def asked (client : Nat) (ops : List ServiceOp) : List Message := ops.flatMap (askedBy client)

/-- The clients send messages with bodies, and the length of a reply fits its header. -/
def Fits (service : Service σ) : ServiceOp → Prop
  | .ask _ msg => msg.Whole
  | .update env => ∀ entry ∈ service.incomming.take 1,
      ∀ reply ∈ ChangeServer.sentFor api cbor env service.server entry.2, reply.body.length < 2 ^ 32
  | _ => True

instance decidableFits (service : Service σ) : (op : ServiceOp) → Decidable (Fits api cbor service op)
  | .connect _ _ | .act _ _ _ => isTrue trivial
  | .ask _ msg => inferInstanceAs (Decidable (msg.Sized ∧ msg.body ≠ []))
  | .update env => inferInstanceAs (Decidable (∀ entry ∈ service.incomming.take 1,
      ∀ reply ∈ ChangeServer.sentFor api cbor env service.server entry.2, reply.body.length < 2 ^ 32))

/-- The service, after its clients have asked for some things, is where a server stands that
had some events one at a time: what a client has sent, what of it was queued and handled, and
what it is sent are those of that server. -/
structure Serves (start : ChangeServer σ) (asks : Nat → List Message) (log : List ServerEvent)
    (service : Service σ) : Prop where
  atOnce : run (ChangeServer.afterEvent api cbor) start log = some service.server
  sound : ∀ talk ∈ service.talks, talk.Sound
  whole : ∀ client owner, ∀ msg ∈ (service.talk client owner).sent, msg.Whole
  asked : ∀ client, (service.talk client .client).sent = asks client
  arrived : ∀ client, (service.talk client .server).incoming.map (·.msg) =
    log.filterMap (ServerEvent.requestOf client) ++ waiting client service.incomming
  replied : ∀ client, (service.talk client .server).sent =
    ChangeServer.repliesTo api cbor client start log

variable {api : StateApi σ} {cbor : Cbor}

theorem talk_of_some {service : Service σ} {client : Nat} {talk : Conversation}
    (found : service.talks[client]? = some talk) : service.talk client = talk := by
  rw [Service.talk, found]
  rfl

theorem talk_set {service : Service σ} (after : Service σ) {client : Nat} {talk next : Conversation}
    (found : service.talks[client]? = some talk) (set : after.talks = service.talks.set client next)
    (other : Nat) : after.talk other = if other = client then next else service.talk other := by
  have inside : client < service.talks.length := (List.getElem?_eq_some_iff.mp found).1
  unfold Service.talk
  rw [set, List.getElem?_set]
  by_cases same : client = other
  · rw [if_pos same, if_pos same.symm, if_pos (same ▸ inside)]
    rfl
  · rw [if_neg same, if_neg (Ne.symm same)]

theorem sound_set {service : Service σ} {client : Nat} {next : Conversation}
    (sound : ∀ talk ∈ service.talks, talk.Sound) (good : next.Sound) :
    ∀ talk ∈ service.talks.set client next, talk.Sound := by
  intro talk member
  rcases List.mem_or_eq_of_mem_set member with old | same
  · exact sound talk old
  · exact same ▸ good

@[simp] theorem waiting_nil (client : Nat) : waiting client [] = [] := rfl

theorem waiting_append (client : Nat) (before after : List (Nat × Message)) :
    waiting client (before ++ after) = waiting client before ++ waiting client after :=
  List.filterMap_append

theorem waiting_cons (client : Nat) (entry : Nat × Message) (rest : List (Nat × Message)) :
    waiting client (entry :: rest) = (if entry.1 = client then [entry.2] else []) ++ waiting client rest := by
  unfold waiting
  by_cases own : entry.1 = client
  · simp [own]
  · simp [own]

/-- Of what a handler pushes, every message is of its own client. -/
theorem waiting_pushed (client other : Nat) (talk next : Conversation) : waiting other (pushed client talk next) =
    if client = other then (pushed client talk next).map Prod.snd else [] := by
  unfold waiting pushed
  generalize (next .server).incoming.drop (talk .server).incoming.length = arrived
  rw [List.filterMap_map, List.map_map]
  by_cases own : client = other
  · simp [own, Function.comp_def]
  · simp [own]

/-- A connection whose messages wait was made. -/
theorem Serves.talk_of_waiting {start : ChangeServer σ} {asks : Nat → List Message} {log : List ServerEvent}
    {service : Service σ} (serves : Serves api cbor start asks log service) {client : Nat} {msg : Message}
    (waits : msg ∈ waiting client service.incomming) :
    service.talks[client]? = some (service.talk client) := by
  cases found : service.talks[client]? with
  | some talk => rw [talk_of_some found]
  | none =>
    have arrived := serves.arrived client
    rw [Service.talk, found] at arrived
    have none_ := (List.append_eq_nil_iff.mp arrived.symm).2
    rw [none_] at waits
    cases waits

theorem serves_start (start : ChangeServer σ) :
    Serves api cbor start (fun _ => []) [] { server := start } where
  atOnce := rfl
  sound _ member := nomatch member
  whole _ _ _ member := nomatch member
  asked _ := rfl
  arrived _ := rfl
  replied _ := rfl

section Steps

variable {start : ChangeServer σ} {asks : Nat → List Message} {log : List ServerEvent}
  {service next : Service σ}

theorem serves_connect (serves : Serves api cbor start asks log service) (id : UInt32) (now : UInt64) :
    Serves api cbor start asks (log ++ [.accepted]) (service.connect id now) := by
  let accepted := (ChangeServer.onClientConnect now { connection := { owner := .server } }).1.connectToClient id
  let server := { service.server with connections := service.server.connections + 1 }
  have connected : service.connect id now =
      { service with server, talks := service.talks ++ [Conversation.established accepted] } := rfl
  -- a connection just made has sent and queued nothing, as one not made yet
  have same : ∀ client owner, ((service.connect id now).talk client owner).sent =
      (service.talk client owner).sent ∧ ((service.connect id now).talk client owner).incoming =
      (service.talk client owner).incoming := by
    intro client owner
    unfold Service.talk
    rw [connected]
    rcases Nat.lt_trichotomy client service.talks.length with earlier | here | later
    · rw [List.getElem?_append_left earlier]
      exact ⟨rfl, rfl⟩
    · subst here
      rw [List.getElem?_concat_length, List.getElem?_eq_none (Nat.le_refl _)]
      cases owner <;> exact ⟨rfl, rfl⟩
    · rw [List.getElem?_eq_none (by simp; omega), List.getElem?_eq_none (Nat.le_of_lt later)]
      exact ⟨rfl, rfl⟩
  have reached := serves.atOnce
  constructor
  · rw [run_append, reached]
    rfl
  · intro talk member
    rcases List.mem_append.mp member with old | new
    · exact serves.sound talk old
    · rw [List.mem_singleton.mp new]
      exact Conversation.sound_established rfl rfl
  · intro client owner
    rw [(same client owner).1]
    exact serves.whole client owner
  · intro client
    rw [(same client .client).1]
    exact serves.asked client
  · intro client
    rw [(same client .server).2, List.filterMap_append]
    exact (serves.arrived client).trans (by simp [ServerEvent.requestOf]; rfl)
  · intro client
    rw [(same client .server).1, ChangeServer.repliesTo_append reached, serves.replied client]
    exact (List.append_nil _).symm

theorem serves_ask (serves : Serves api cbor start asks log service) {client : Nat} {msg : Message}
    (whole : msg.Whole) (taken : service.step api cbor (.ask client msg) = some next) :
    Serves api cbor start (fun other => asks other ++ askedBy other (.ask client msg)) log next := by
  obtain ⟨talk, found, rfl⟩ := ask_cases taken
  have sound : talk.Sound := serves.sound talk (List.mem_of_getElem? found)
  have here : service.talk client = talk := talk_of_some found
  have talks := talk_set { service with talks := service.talks.set client (talk.send .client msg) } found rfl
  constructor
  · exact serves.atOnce
  · exact sound_set serves.sound (Conversation.sound_send sound .client msg)
  · intro other owner
    rw [talks]
    split
    · cases owner with
      | client =>
        rw [Conversation.sent_send sound]
        intro asked member
        rcases List.mem_append.mp member with old | new
        · exact serves.whole client .client asked (here ▸ old)
        · exact List.mem_singleton.mp new ▸ whole
      | server =>
        rw [Conversation.send_client_server, ← here]
        exact serves.whole client .server
    · exact serves.whole other owner
  · intro other
    rw [talks, ← serves.asked]
    by_cases own : other = client
    · subst own
      rw [if_pos rfl, Conversation.sent_send sound, here]
      simp [askedBy]
    · simp [own, Ne.symm own, askedBy]
  · intro other
    rw [talks, ← serves.arrived]
    split
    · rename_i own
      rw [Conversation.send_client_server, own, here]
    · rfl
  · intro other
    rw [talks, ← serves.replied]
    split
    · rename_i own
      rw [Conversation.send_client_server, own, here]
    · rfl

theorem serves_act (serves : Serves api cbor start asks log service) {client : Nat} {owner : Owner}
    {activity : Activity} (taken : service.act client owner activity = some next) :
    Serves api cbor start asks log next := by
  obtain ⟨talk, after, found, ran, rfl⟩ := act_cases taken
  have here : service.talk client = talk := talk_of_some found
  have talks := talk_set { service with
    talks := service.talks.set client after
    incomming := service.incomming ++ pushed client talk after } found rfl
  have sized : ∀ side, ∀ msg ∈ (talk side).peer.queued, msg.Sized := by
    intro side msg member
    refine (serves.whole client side msg ?_).1
    rw [here]
    exact List.mem_append_left _ member
  have sound : after.Sound := Conversation.sound_step (serves.sound talk (List.mem_of_getElem? found)) sized ran
  have sent : ∀ other side, ((if other = client then after else service.talk other) side).sent =
      (service.talk other side).sent := by
    intro other side
    split
    · rename_i own
      rw [Conversation.sent_step ran, own, here]
    · rfl
  -- what the server's end has pushed is what is appended to its queue
  have pushes : (after .server).incoming.map (·.msg) =
      (talk .server).incoming.map (·.msg) ++ (pushed client talk after).map Prod.snd := by
    have more : ∃ arrived, (after .server).incoming = (talk .server).incoming ++ arrived := by
      cases owner with
      | server => exact (Conversation.incoming_step ran).1
      | client => exact ⟨[], (Conversation.incoming_step ran).2.trans (List.append_nil _).symm⟩
    obtain ⟨arrived, more⟩ := more
    rw [pushed, more, List.drop_left, List.map_append, List.map_map]
    rfl
  constructor
  · exact serves.atOnce
  · exact sound_set serves.sound sound
  · intro other side
    rw [talks, sent]
    exact serves.whole other side
  · intro other
    rw [talks, sent]
    exact serves.asked other
  · intro other
    rw [talks, waiting_append, ← List.append_assoc, ← serves.arrived]
    by_cases own : other = client
    · subst own
      rw [if_pos rfl, pushes, here, waiting_pushed, if_pos rfl]
    · rw [if_neg own, waiting_pushed, if_neg (Ne.symm own), List.append_nil]
  · intro other
    rw [talks, sent]
    exact serves.replied other

/-- What is sent in a turn of the loop joins what the client's connection was given before. -/
theorem reply_spec {talk : Conversation} (sound : talk.Sound) (sent : List Message) :
    (reply talk sent).Sound ∧ ((reply talk sent) .server).sent = (talk .server).sent ++ sent ∧
      (reply talk sent) .client = talk .client ∧
      ((reply talk sent) .server).incoming = (talk .server).incoming := by
  induction sent generalizing talk with
  | nil => exact ⟨sound, (List.append_nil _).symm, rfl, rfl⟩
  | cons msg rest ih =>
    obtain ⟨good, all, client, incoming⟩ := ih (Conversation.sound_send sound .server msg)
    refine ⟨good, ?_, client.trans (talk.send_server_client msg), ?_⟩
    · refine all.trans ?_
      rw [Conversation.sent_send sound, List.append_assoc]
      rfl
    · exact incoming.trans (talk.incoming_send .server .server msg)

/-- A turn of the loop is for a client whose connection was made. -/
theorem Serves.update_cases (serves : Serves api cbor start asks log service) {env : Environment}
    (taken : service.update api cbor env = some next) : ∃ client msg incomming server sent,
      service.incomming = (client, msg) :: incomming ∧
      ChangeServer.onMessage api cbor env service.server msg = .ok (server, sent) ∧
      service.talks[client]? = some (service.talk client) ∧
      next = { server, incomming, talks := service.talks.set client (reply (service.talk client) sent) } := by
  obtain ⟨client, msg, incomming, server, sent, queue, returned, rfl⟩ := Service.update_cases taken
  have waits : msg ∈ waiting client service.incomming := by
    rw [queue, waiting_cons, if_pos rfl]
    exact List.mem_append_left _ (List.mem_singleton_self msg)
  have found := serves.talk_of_waiting waits
  refine ⟨client, msg, incomming, server, sent, queue, returned, found, ?_⟩
  rw [List.modify_eq_set_getElem?, found]
  rfl

theorem serves_update (nonempty : ∀ json, cbor.toCbor json ≠ [])
    (serves : Serves api cbor start asks log service) {env : Environment}
    (fits : Fits api cbor service (.update env)) (taken : service.update api cbor env = some next) :
    ∃ event, Serves api cbor start asks (log ++ [event]) next := by
  obtain ⟨client, msg, incomming, server, sent, queue, returned, found, rfl⟩ := serves.update_cases taken
  obtain ⟨good, posted, asked, pushes⟩ := reply_spec (serves.sound _ (List.mem_of_getElem? found)) sent
  have talks := talk_set { service with
    server, incomming, talks := service.talks.set client (reply (service.talk client) sent) } found rfl
  have given : ChangeServer.atOnce api cbor service.server (.request client env msg) = some (server, sent) :=
    toOption_eq_some.mpr returned
  have after := fun other => ChangeServer.repliesTo_append serves.atOnce other [.request client env msg]
  have replies : ∀ other, ChangeServer.repliesTo api cbor other service.server [.request client env msg] =
      if client = other then sent else [] := by
    intro other
    rw [ChangeServer.repliesTo, given]
    simp [ServerEvent.sender, ChangeServer.repliesTo]
  refine ⟨.request client env msg, ?_, ?_, ?_, ?_, ?_, ?_⟩
  · rw [run_append, serves.atOnce]
    simp [run, ChangeServer.afterEvent, given]
  · exact sound_set serves.sound good
  · intro other owner
    rw [talks]
    split
    · cases owner with
      | client =>
        rw [asked]
        exact serves.whole client .client
      | server =>
        rw [posted]
        intro reply member
        rcases List.mem_append.mp member with old | new
        · exact serves.whole client .server reply old
        · refine ((ChangeServer.atMostOne_onMessage nonempty returned).finalized reply new).whole ?_
          refine fits (client, msg) (by rw [queue]; exact List.mem_singleton_self _) reply ?_
          rw [ChangeServer.sentFor, returned]
          exact new
    · exact serves.whole other owner
  · intro other
    rw [talks, ← serves.asked]
    split
    · rename_i own
      rw [asked, own]
    · rfl
  · intro other
    have before := serves.arrived other
    rw [queue, waiting_cons] at before
    rw [talks, List.filterMap_append, List.append_assoc]
    by_cases own : client = other
    · subst own
      rw [if_pos rfl, pushes, before]
      simp [ServerEvent.requestOf]
    · rw [if_neg (Ne.symm own), before]
      simp [ServerEvent.requestOf, own]
  · intro other
    rw [talks, after, replies, ← serves.replied]
    by_cases own : client = other
    · subst own
      rw [if_pos rfl, if_pos rfl, posted]
    · rw [if_neg (Ne.symm own), if_neg own, List.append_nil]

/-- Every step of the service is one event of that server, or none. -/
theorem serves_step (nonempty : ∀ json, cbor.toCbor json ≠ [])
    (serves : Serves api cbor start asks log service) {op : ServiceOp} (fits : Fits api cbor service op)
    (taken : service.step api cbor op = some next) :
    ∃ events, Serves api cbor start (fun client => asks client ++ askedBy client op) (log ++ events) next := by
  have silent : (∀ client, askedBy client op = []) →
      (fun client => asks client ++ askedBy client op) = asks := by
    intro none_
    funext client
    rw [none_, List.append_nil]
  cases op with
  | connect id now =>
    cases taken
    rw [silent (fun _ => rfl)]
    exact ⟨_, serves_connect serves id now⟩
  | ask client msg =>
    refine ⟨[], ?_⟩
    rw [List.append_nil]
    exact serves_ask serves fits taken
  | act client owner activity =>
    refine ⟨[], ?_⟩
    rw [List.append_nil, silent (fun _ => rfl)]
    exact serves_act serves taken
  | update env =>
    rw [silent (fun _ => rfl)]
    obtain ⟨event, serves⟩ := serves_update nonempty serves fits taken
    exact ⟨[event], serves⟩

end Steps

/-- After a run so far the service is where such a server stands. -/
def Served (api : StateApi σ) (cbor : Cbor) (start : ChangeServer σ) (before : List ServiceOp)
    (service : Service σ) : Prop :=
  ∃ log, Serves api cbor start (fun client => asked client before) log service

theorem served_start (start : ChangeServer σ) : Served api cbor start [] { server := start } :=
  ⟨[], serves_start start⟩

theorem served_step (nonempty : ∀ json, cbor.toCbor json ≠ []) {start : ChangeServer σ}
    {before : List ServiceOp} {service next : Service σ} {op : ServiceOp}
    (served : Served api cbor start before service) (fits : Fits api cbor service op)
    (taken : service.step api cbor op = some next) : Served api cbor start (before ++ [op]) next := by
  obtain ⟨log, serves⟩ := served
  obtain ⟨events, serves⟩ := serves_step nonempty serves fits taken
  refine ⟨log ++ events, ?_⟩
  simpa [asked] using serves

theorem served_run (nonempty : ∀ json, cbor.toCbor json ≠ []) {start : ChangeServer σ}
    {final : Service σ} {ops : List ServiceOp}
    (fits : Meets (step api cbor) (Fits api cbor) { server := start } ops)
    (reached : run (step api cbor) { server := start } ops = some final) : Served api cbor start ops final :=
  run_history (Served api cbor start)
    (fun _ _ _ _ served here taken => served_step nonempty served here taken) (served_start start) fits reached

/-- What a message carries over a socket. -/
def content (msg : Message) : MessageHeader × Bytes := (msg.header, msg.body)

/-- What a connection brings through of what one end has sent, and what all of it if nothing
is left to do. -/
theorem content_received {talk : Conversation} (sound : talk.Sound) {owner : Owner}
    (whole : ∀ msg ∈ (talk owner).sent, msg.Whole) :
    ((talk owner.other).incoming.map (·.msg)).map content <+: (talk owner).sent.map content ∧
      (talk.Settled owner →
        ((talk owner.other).incoming.map (·.msg)).map content = (talk owner).sent.map content) := by
  have nonempty : ∀ msg ∈ (talk owner).sent, msg.body ≠ [] := fun msg member => (whole msg member).2
  have pairs : (talk.direction owner).pairs = ((talk owner.other).incoming.map (·.msg)).map content := by
    rw [List.map_map]
    rfl
  rw [← pairs]
  exact ⟨Conversation.received_prefix sound owner nonempty, Conversation.received_settled sound nonempty⟩

/-- What came through of a connection, and what all of it if nothing is left to do. -/
theorem Serves.through {start : ChangeServer σ} {asks : Nat → List Message} {log : List ServerEvent}
    {service : Service σ} (serves : Serves api cbor start asks log service) {client : Nat}
    {talk : Conversation} (found : service.talks[client]? = some talk) :
    let arrived := log.filterMap (ServerEvent.requestOf client) ++ waiting client service.incomming
    let received := (talk .client).incoming.map (·.msg)
    let replies := ChangeServer.repliesTo api cbor client start log
    arrived.map content <+: (asks client).map content ∧
      received.map content <+: replies.map content ∧
      (talk.Settled .client → arrived.map content = (asks client).map content) ∧
      (talk.Settled .server → received.map content = replies.map content) := by
  have sound : talk.Sound := serves.sound talk (List.mem_of_getElem? found)
  have whole := serves.whole client
  have requests := serves.asked client
  have arrived := serves.arrived client
  have replied := serves.replied client
  rw [talk_of_some found] at whole requests arrived replied
  obtain ⟨some_, all⟩ := content_received sound (whole .client)
  obtain ⟨some', all'⟩ := content_received sound (whole .server)
  rw [requests, show Owner.client.other = .server from rfl, arrived] at some_ all
  rw [replied] at some' all'
  exact ⟨some_, some', all, all'⟩

/-- In whatever order connects, requests, handlers and turns of the loop come, the server is
where a server stands that had some events one at a time. Of each client these events and the
queue hold its requests, in order and none twice, as far as they arrived; the client receives
the replies to its own requests, in order and none twice, as far as they arrived; and once
nothing is left to do for it, it is all of them. -/
theorem served_one_at_a_time (nonempty : ∀ json, cbor.toCbor json ≠ []) {start : ChangeServer σ}
    {final : Service σ} {ops : List ServiceOp}
    (fits : Meets (step api cbor) (Fits api cbor) { server := start } ops)
    (reached : run (step api cbor) { server := start } ops = some final) :
    ∃ log, run (ChangeServer.afterEvent api cbor) start log = some final.server ∧
      ∀ client talk, final.talks[client]? = some talk →
        let arrived := log.filterMap (ServerEvent.requestOf client) ++ waiting client final.incomming
        let received := (talk .client).incoming.map (·.msg)
        let replies := ChangeServer.repliesTo api cbor client start log
        arrived.map content <+: (asked client ops).map content ∧
          received.map content <+: replies.map content ∧
          (talk.Settled .client → arrived.map content = (asked client ops).map content) ∧
          (talk.Settled .server → received.map content = replies.map content) := by
  obtain ⟨log, serves⟩ := served_run nonempty fits reached
  exact ⟨log, serves.atOnce, fun client talk found => serves.through found⟩

/-- The part of the CBOR conversions that a run over pings uses. -/
def pingCbor : Cbor where
  fromCbor body := if body = [1] then .ok (.number 1) else .error .parseError
  toCbor _ := [0]

/-- Two clients ping at a time; the second one's ping arrives first. -/
def pingTwice : List ServiceOp :=
  [.connect 7 0, .connect 8 0,
    .ask 0 (ChangeServer.flagMessage .serverGetPing true 0),
    .ask 1 (ChangeServer.flagMessage .serverGetPing true 0),
    .act 1 .client .handle, .act 0 .client .handle, .act 1 .client .written, .act 1 .client .written,
    .act 0 .client .written, .act 1 .server .received, .act 0 .client .written, .act 1 .server .received,
    .act 0 .server .received, .act 0 .server .received, .update {}, .update {},
    .act 0 .server .handle, .act 1 .server .handle, .act 0 .server .written, .act 0 .server .written,
    .act 0 .client .received, .act 0 .client .received, .act 1 .server .written, .act 1 .server .written,
    .act 1 .client .received, .act 1 .client .received]

theorem served_one_at_a_time_pings :
    ∃ final, run (step State.api pingCbor) { server := { state := {} } } pingTwice = some final ∧
      ∃ log, run (ChangeServer.afterEvent State.api pingCbor) { state := {} } log = some final.server ∧
        ∀ client talk, final.talks[client]? = some talk →
          let arrived := log.filterMap (ServerEvent.requestOf client) ++ waiting client final.incomming
          let received := (talk .client).incoming.map (·.msg)
          let replies := ChangeServer.repliesTo State.api pingCbor client { state := {} } log
          arrived.map content <+: (asked client pingTwice).map content ∧
            received.map content <+: replies.map content ∧
            (talk.Settled .client → arrived.map content = (asked client pingTwice).map content) ∧
            (talk.Settled .server → received.map content = replies.map content) := by
  have through : (run (step State.api pingCbor) { server := { state := {} } } pingTwice).isSome = true := by
    decide +kernel
  obtain ⟨final, reached⟩ := Option.isSome_iff_exists.mp through
  exact ⟨final, reached, served_one_at_a_time (fun _ => List.cons_ne_nil _ _) (by decide +kernel) reached⟩

/-- No handler at any connection has anything to do. -/
def AtRest (service : Service σ) : Prop := ∀ talk ∈ service.talks, talk.AtRest

instance (service : Service σ) : Decidable service.AtRest :=
  inferInstanceAs (Decidable (∀ talk ∈ service.talks, talk.AtRest))

/-- Whatever has happened, when no handler has anything to do every request has arrived and
every reply was received; and if the loop takes no turn either, then because all requests were
handled, or because `on_message` does not return for the one at the front. -/
theorem complete_at_rest (nonempty : ∀ json, cbor.toCbor json ≠ []) {start : ChangeServer σ}
    {final : Service σ} {ops : List ServiceOp}
    (fits : Meets (step api cbor) (Fits api cbor) { server := start } ops)
    (reached : run (step api cbor) { server := start } ops = some final) (rest : final.AtRest) :
    ∃ log, run (ChangeServer.afterEvent api cbor) start log = some final.server ∧
      (∀ client talk, final.talks[client]? = some talk →
        (log.filterMap (ServerEvent.requestOf client) ++ waiting client final.incomming).map content =
            (asked client ops).map content ∧
          ((talk .client).incoming.map (·.msg)).map content =
            (ChangeServer.repliesTo api cbor client start log).map content) ∧
      ∀ env, final.update api cbor env = none → final.incomming = [] ∨
        ∃ client msg later fault, final.incomming = (client, msg) :: later ∧
          ChangeServer.onMessage api cbor env final.server msg = .error fault := by
  obtain ⟨log, serves⟩ := served_run nonempty fits reached
  refine ⟨log, serves.atOnce, fun client talk found => ?_, fun env idle => ?_⟩
  · have member := List.mem_of_getElem? found
    have sized : ∀ side, ∀ msg ∈ (talk side).peer.queued, msg.Sized := by
      intro side msg placed
      refine (serves.whole client side msg ?_).1
      rw [talk_of_some found]
      exact List.mem_append_left _ placed
    have settled := Conversation.settled_of_rest (serves.sound talk member) sized (rest talk member)
    obtain ⟨_, _, requests, replies⟩ := serves.through found
    exact ⟨requests (settled .client), replies (settled .server)⟩
  · unfold update at idle
    split at idle
    · exact .inl ‹_›
    · rename_i client msg later queue
      split at idle
      · exact .inr ⟨client, msg, later, _, queue, ‹_›⟩
      · cases idle

theorem complete_at_rest_pings :
    ∃ final, run (step State.api pingCbor) { server := { state := {} } } pingTwice = some final ∧
      final.AtRest ∧
      ∃ log, run (ChangeServer.afterEvent State.api pingCbor) { state := {} } log = some final.server ∧
        (∀ client talk, final.talks[client]? = some talk →
          (log.filterMap (ServerEvent.requestOf client) ++ waiting client final.incomming).map content =
              (asked client pingTwice).map content ∧
            ((talk .client).incoming.map (·.msg)).map content =
              (ChangeServer.repliesTo State.api pingCbor client { state := {} } log).map content) ∧
        ∀ env, final.update State.api pingCbor env = none → final.incomming = [] ∨
          ∃ client msg later fault, final.incomming = (client, msg) :: later ∧
            ChangeServer.onMessage State.api pingCbor env final.server msg = .error fault := by
  have through : (run (step State.api pingCbor) { server := { state := {} } } pingTwice).any
      (fun final => decide final.AtRest) = true := by decide +kernel
  obtain ⟨final, reached, rest⟩ := (Option.any_eq_true _ _).mp through
  have rest : final.AtRest := of_decide_eq_true rest
  exact ⟨final, reached, rest,
    complete_at_rest (fun _ => List.cons_ne_nil _ _) (by decide +kernel) reached rest⟩

end Service

end Wallchanger
