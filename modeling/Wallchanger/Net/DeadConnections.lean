import Wallchanger.Net.ServerInterface

/-! The two ways in which a server sends, over a list of connections some of which are
gone: who gets the message, and who stays on the list. -/

namespace Wallchanger.Net

@[simp] theorem Peer.isConnected_sendMessage (peer : Peer) (msg : Message) :
    (peer.sendMessage msg).isConnected = peer.isConnected := by
  unfold Peer.sendMessage
  dsimp only
  split <;> rfl

namespace ServerInterface

variable {server : ServerInterface} {clients : List Nat}

/-- A call of `message_client` or of `message_all_client`. -/
inductive Sending where
  | client (client : Nat)
  | all (ignoreClient : Option Nat)

def send (server : ServerInterface) (msg : Message) : Sending → ServerInterface
  | .client client => server.messageClient (some client) msg
  | .all ignoreClient => server.messageAllClient msg ignoreClient

/-- Every connection that stands, other than the ignored one, is sent the message once;
the others are reported once. -/
structure Visited (server : ServerInterface) (clients : List Nat) (msg : Message)
    (ignoreClient : Option Nat) (after : ServerInterface) : Prop where
  removed : after.removed =
    server.removed ++ (clients.filter (fun client => !server.connected (some client))).map some
  peers : ∀ index, after.peers[index]? = server.peers[index]?.map (fun peer =>
    if index ∈ clients ∧ server.connected (some index) ∧ some index ≠ ignoreClient then
      peer.sendMessage msg
    else peer)

/-- Besides, only the connections that stand are left on the list. -/
structure ServedAll (server : ServerInterface) (clients : List Nat) (msg : Message)
    (ignoreClient : Option Nat) (after : ServerInterface) : Prop
    extends Visited server clients msg ignoreClient after where
  connections : after.connections =
    (clients.filter (fun client => server.connected (some client))).map some

/-- A standing connection is sent the message, one that is gone leaves the list and is
reported. -/
structure ServedOne (server : ServerInterface) (clients : List Nat) (msg : Message) (client : Nat)
    (after : ServerInterface) : Prop where
  live : server.connected (some client) = true → after = server.sendTo (some client) msg
  dead : server.connected (some client) = false → client ∈ clients → after = { server with
    connections := (clients.filter (· ≠ client)).map some
    removed := server.removed ++ [some client] }

/-- What a call is to do with a list of connections. -/
def DropsDead (server : ServerInterface) (clients : List Nat) (msg : Message) : Sending → Prop
  | .client client => server.ServedOne clients msg client (server.send msg (.client client))
  | .all ignoreClient => server.ServedAll clients msg ignoreClient (server.send msg (.all ignoreClient))

/-- Whether a connection stands is a matter of its peer, and no message changes it. -/
theorem Visited.connected (visited : Visited server clients msg ignoreClient after) (client : Option Nat) :
    after.connected client = server.connected client := by
  cases client with
  | none => rfl
  | some index =>
    change (after.peers[index]?.map Peer.isConnected).getD false =
      (server.peers[index]?.map Peer.isConnected).getD false
    simp only [visited.peers index, Option.map_map, Function.comp_def, apply_ite Peer.isConnected,
      Peer.isConnected_sendMessage, ite_self]

theorem Visited.cons (first : Visited server [client] msg ignoreClient next)
    (others : Visited next rest msg ignoreClient after) (absent : client ∉ rest) :
    Visited server (client :: rest) msg ignoreClient after where
  removed := by
    rw [others.removed, first.removed, List.append_assoc, ← List.map_append]
    simp only [first.connected, ← List.filter_append]
    rfl
  peers index := by
    rw [others.peers, first.peers, Option.map_map]
    congr 1
    funext peer
    simp only [Function.comp_apply, first.connected, List.mem_cons, List.not_mem_nil, or_false]
    by_cases same : index = client
    · subst same
      simp [absent]
    · simp [same]

/-- One pass of the loop. -/
theorem visited_sendTo (live : server.connected (some client) = true) (msg : Message)
    (ignoreClient : Option Nat) : Visited server [client] msg ignoreClient
      (if some client ≠ ignoreClient then server.sendTo (some client) msg else server) where
  removed := by
    have none_ : [client].filter (fun client => !server.connected (some client)) = [] := by simp [live]
    rw [none_, List.map_nil, List.append_nil]
    split <;> rfl
  peers index := by
    have modified : (server.sendTo (some client) msg).peers[index]? =
        server.peers[index]?.map (fun peer => if client = index then peer.sendMessage msg else peer) := by
      change (server.peers.modify client _)[index]? = _
      rw [List.getElem?_modify]
      split <;> simp
    by_cases same : index = client
    · subst same
      by_cases ignored : some index = ignoreClient
      · simp [ignored]
      · simp [ignored, live, modified]
    · have other : ¬ client = index := fun equal => same equal.symm
      split <;> simp [same, modified, other]

theorem visited_removed (dead : server.connected (some client) = false) (msg : Message)
    (ignoreClient : Option Nat) :
    Visited server [client] msg ignoreClient { server with removed := server.removed ++ [some client] } where
  removed := by simp [dead]
  peers index := by
    by_cases same : index = client
    · simp [same, dead]
    · simp [same]

/-- The loop visits every connection, and resets those that are gone. -/
theorem messageEach_eq (msg : Message) (ignoreClient : Option Nat) (distinct : clients.Nodup)
    (server : ServerInterface) : ∃ after, Visited server clients msg ignoreClient after ∧
      messageEach msg ignoreClient server (clients.map some) = (after,
        clients.map (fun client => if server.connected (some client) then some client else none)) := by
  induction clients generalizing server with
  | nil => exact ⟨server, ⟨by simp, fun index => by simp⟩, rfl⟩
  | cons client rest ih =>
    have ⟨absent, distinct⟩ := List.nodup_cons.mp distinct
    simp only [List.map_cons, messageEach]
    split
    · rename_i live
      have first := visited_sendTo live msg ignoreClient
      obtain ⟨after, others, loop⟩ := ih distinct
        (if some client ≠ ignoreClient then server.sendTo (some client) msg else server)
      refine ⟨after, first.cons others absent, ?_⟩
      rw [loop]
      simp only [first.connected]
    · rename_i dead
      have first := visited_removed (Bool.eq_false_iff.mpr dead) msg ignoreClient
      obtain ⟨after, others, loop⟩ := ih distinct
        { server with removed := server.removed ++ [some client] }
      refine ⟨after, first.cons others absent, ?_⟩
      rw [loop]
      simp only [first.connected]

/-- The list without the pointers that were reset. -/
theorem filter_reset (keep : Nat → Bool) (clients : List Nat) :
    (clients.map (fun client => if keep client then some client else none)).filter (· ≠ none) =
      (clients.filter keep).map some := by
  induction clients with
  | nil => rfl
  | cons client rest ih =>
    cases kept : keep client with
    | false => simpa [kept] using ih
    | true => simpa [kept] using ih

theorem servedAll_messageAllClient (listed : server.connections = clients.map some) (distinct : clients.Nodup)
    (msg : Message) (ignoreClient : Option Nat) :
    ServedAll server clients msg ignoreClient (server.messageAllClient msg ignoreClient) := by
  obtain ⟨after, visited, loop⟩ := messageEach_eq msg ignoreClient distinct server
  unfold messageAllClient
  rw [listed, loop]
  refine { toVisited := ⟨visited.removed, visited.peers⟩, connections := ?_ }
  rw [← filter_reset]
  dsimp only
  split
  · rfl
  · rename_i same
    exact (List.filter_sublist.eq_of_length (Decidable.not_not.mp same).symm).symm

/-- A call does what it is to do unless it is to drop a single connection: its own copy
of the pointer is reset first, and the one on the list stays. -/
theorem dropsDead_iff (listed : server.connections = clients.map some) (distinct : clients.Nodup)
    (msg : Message) (sending : Sending) : server.DropsDead clients msg sending ↔ ∀ client,
      sending = .client client → server.connected (some client) = true ∨ client ∉ clients := by
  cases sending with
  | all ignoreClient =>
    have served := servedAll_messageAllClient listed distinct msg ignoreClient
    exact iff_of_true served (fun _ other => nomatch other)
  | client client =>
    constructor
    · intro served other same
      cases same
      cases status : server.connected (some client) with
      | true => exact .inl rfl
      | false =>
        refine .inr (fun member => ?_)
        have dropped := congrArg connections (served.dead status member)
        have stays : (server.messageClient (some client) msg).connections = clients.map some := by
          rw [messageClient, if_neg (by simp [status]), listed]
          exact List.filter_eq_self.mpr (by simp)
        have same : clients.map some = (clients.filter (· ≠ client)).map some := stays.symm.trans dropped
        have still : some client ∈ (clients.filter (· ≠ client)).map some :=
          same ▸ List.mem_map_of_mem member
        simp at still
    · intro condition
      constructor
      · exact fun live => if_pos live
      · intro dead member
        rcases condition client rfl with live | absent
        · exact nomatch dead.symm.trans live
        · exact absurd member absent

/-- A connection that is gone is reported, and stays on the list. -/
theorem dead_client_stays :
    let gone : Peer := { connection := { owner := .server } }
    let server : ServerInterface := { peers := [gone], connections := [some 0] }
    (server.messageClient (some 0) {}).connections = [some 0] ∧ ¬ server.DropsDead [0] {} (.client 0) := by
  refine ⟨rfl, fun served => ?_⟩
  exact nomatch congrArg connections (served.dead rfl (List.mem_singleton_self 0))

/-- Of two connections, one of them gone, the other gets the message and stays. -/
theorem dropsDead_all :
    let gone : Peer := { connection := { owner := .server } }
    let stands : Peer := { connection := { owner := .server, connected := true } }
    let server : ServerInterface := { peers := [gone, stands], connections := [some 0, some 1] }
    server.DropsDead [0, 1] {} (.all none) ∧
      (server.messageAllClient {} none).connections = [some 1] := by
  refine ⟨(dropsDead_iff rfl (by decide) {} (.all none)).mpr (fun _ other => nomatch other), rfl⟩

end ServerInterface

end Wallchanger.Net
