import Mathlib.Algebra.Order.BigOperators.Group.List
import Mathlib.Algebra.BigOperators.Ring.List
import Mathlib.Algebra.Order.Ring.Nat
import Wallchanger.ChangeService.Serving
import Wallchanger.Net.ConversationWork

/-! The work of the service ends: what its clients ask for bounds how many handlers run and how
many turns the loop takes, in whatever order they come. -/

namespace Wallchanger

open Foundation Net

namespace ServiceOp

def isAsk : ServiceOp → Bool
  | .ask _ _ => true
  | _ => false

def isAct : ServiceOp → Bool
  | .act _ _ _ => true
  | _ => false

def isUpdate : ServiceOp → Bool
  | .update _ => true
  | _ => false

end ServiceOp

namespace Service

variable {σ : Type} {api : StateApi σ} {cbor : Cbor} {service next final : Service σ}

/-- The sum of an amount over the connections. -/
def total (amount : Conversation → Nat) (service : Service σ) : Nat := (service.talks.map amount).sum

/-- What the clients have sent, what has arrived at the server, and what it has sent. -/
def requested (service : Service σ) : Nat := service.total (fun talk => (talk .client).sent.length)

def arrived (service : Service σ) : Nat := service.total (fun talk => (talk .server).incoming.length)

def replied (service : Service σ) : Nat := service.total (fun talk => (talk .server).sent.length)

theorem total_set {client : Nat} {talk other : Conversation} (found : service.talks[client]? = some talk)
    (set : next.talks = service.talks.set client other) (amount : Conversation → Nat) :
    next.total amount + amount talk = service.total amount + amount other := by
  have inside : client < service.talks.length := (List.getElem?_eq_some_iff.mp found).1
  have long : client < (service.talks.map amount).length := by rwa [List.length_map]
  have same : service.talks.set client talk = service.talks := by
    rw [← (List.getElem?_eq_some_iff.mp found).2, List.set_getElem_self]
  have before : service.total amount = ((service.talks.map amount).set client (amount talk)).sum := by
    rw [← List.map_set, same]
    rfl
  rw [total, set, List.map_set, before, List.sum_set, List.sum_set, if_pos long, if_pos long]
  omega

theorem total_concat {talk : Conversation} (made : next.talks = service.talks ++ [talk])
    (amount : Conversation → Nat) : next.total amount = service.total amount + amount talk := by
  rw [total, made, List.map_append, List.sum_append]
  rfl

theorem total_le {amount bound : Conversation → Nat} (each : ∀ talk ∈ service.talks, amount talk ≤ bound talk) :
    service.total amount ≤ service.total bound := List.sum_le_sum each

theorem total_messages (service : Service σ) : service.total (fun talk => 5 * talk.messages) =
    5 * (service.requested + service.replied) := by
  unfold total requested replied total Conversation.messages
  rw [List.sum_map_mul_left, List.sum_map_add, Nat.add_comm]

/-- A run so far and the service it has led to: every request sent, every handler and every turn of
the loop is accounted for. -/
structure Accounts (ops : List ServiceOp) (service : Service σ) : Prop where
  asked : service.requested = ops.countP ServiceOp.isAsk
  ran : service.total Conversation.ran = ops.countP ServiceOp.isAct
  taken : service.arrived = ops.countP ServiceOp.isUpdate + service.incomming.length
  replied : service.replied ≤ ops.countP ServiceOp.isUpdate

theorem accounts_start (start : ChangeServer σ) : Accounts [] { server := start } where
  asked := rfl
  ran := rfl
  taken := rfl
  replied := Nat.le_refl 0

theorem countP_concat (counted : ServiceOp → Bool) (ops : List ServiceOp) (op : ServiceOp) :
    (ops ++ [op]).countP counted = ops.countP counted + (counted op).toNat := by
  rw [List.countP_append, List.countP_singleton]
  cases counted op <;> rfl

theorem ran_reply (talk : Conversation) (sent : List Message) : (reply talk sent).ran = talk.ran := by
  induction sent generalizing talk with
  | nil => rfl
  | cons msg rest ih => exact (ih (talk.send .server msg)).trans (talk.ran_send .server msg)

/-- A handler pushes what it has put into the queue of the server's end. -/
theorem length_pushed (client : Nat) {talk after : Conversation} {owner : Owner} {activity : Activity}
    (handled : talk.step owner activity = some after) :
    (after .server).incoming.length = (talk .server).incoming.length + (pushed client talk after).length := by
  have more : (talk .server).incoming.length ≤ (after .server).incoming.length := by
    cases owner with
    | server =>
      obtain ⟨arrived, same⟩ := (Conversation.incoming_step handled).1
      rw [same, List.length_append]
      exact Nat.le_add_right _ _
    | client => exact Nat.le_of_eq (congrArg List.length (Conversation.incoming_step handled).2.symm)
  rw [pushed, List.length_map, List.length_drop]
  omega

section Steps

variable {start : ChangeServer σ} {asks : Nat → List Message} {log : List ServerEvent} {ops : List ServiceOp}

/-- The messages of a connection are whole, also those that are placed on a queue. -/
theorem Serves.whole_of (serves : Serves api cbor start asks log service) {client : Nat} {talk : Conversation}
    (found : service.talks[client]? = some talk) (side : Owner) : ∀ msg ∈ (talk side).sent, msg.Whole := by
  have whole := serves.whole client side
  rwa [talk_of_some found] at whole

/-- A handler counts, and sends nothing. -/
theorem act_spec (serves : Serves api cbor start asks log service) {client : Nat} {owner : Owner}
    {activity : Activity} (taken : service.act client owner activity = some next) :
    next.requested = service.requested ∧ next.replied = service.replied ∧
      next.total Conversation.ran = service.total Conversation.ran + 1 ∧
      next.arrived + service.incomming.length = service.arrived + next.incomming.length := by
  obtain ⟨talk, after, found, handled, rfl⟩ := act_cases taken
  have totals := @total_set _ service { service with
    talks := service.talks.set client after
    incomming := service.incomming ++ pushed client talk after } _ _ _ found rfl
  have sound := serves.sound talk (List.mem_of_getElem? found)
  have counted : after.ran = talk.ran + 1 := Conversation.ran_step sound
    (fun side msg placed => serves.whole_of found side msg (List.mem_append_left _ placed)) handled
  refine ⟨?_, ?_, ?_, ?_⟩
  · have same := totals (fun talk => (talk .client).sent.length)
    rw [Conversation.sent_step handled] at same
    exact Nat.add_right_cancel same
  · have same := totals (fun talk => (talk .server).sent.length)
    rw [Conversation.sent_step handled] at same
    exact Nat.add_right_cancel same
  · have more := totals Conversation.ran
    rw [counted] at more
    omega
  · have more := totals (fun talk => (talk .server).incoming.length)
    have pushes := length_pushed client handled
    rw [List.length_append]
    simp only [arrived] at more ⊢
    omega

/-- One more operation, by what it adds to each account. -/
theorem Accounts.concat (accounts : Accounts ops service) {op : ServiceOp}
    (asked : next.requested = service.requested + op.isAsk.toNat)
    (ran : next.total Conversation.ran = service.total Conversation.ran + op.isAct.toNat)
    (taken : next.arrived + service.incomming.length =
      service.arrived + op.isUpdate.toNat + next.incomming.length)
    (replied : next.replied ≤ service.replied + op.isUpdate.toNat) : Accounts (ops ++ [op]) next where
  asked := by rw [countP_concat, asked, accounts.asked]
  ran := by rw [countP_concat, ran, accounts.ran]
  taken := by
    have before := accounts.taken
    rw [countP_concat]
    omega
  replied := by
    rw [countP_concat]
    exact Nat.le_trans replied (Nat.add_le_add_right accounts.replied _)

theorem accounts_connect (accounts : Accounts ops service) (id : UInt32) (now : UInt64) :
    Accounts (ops ++ [.connect id now]) (service.connect id now) := by
  let accepted := (ChangeServer.onClientConnect now { connection := { owner := .server } }).1.connectToClient id
  -- at a connection just made nothing was done yet
  have made : ∀ amount : Conversation → Nat,
      (service.connect id now).total amount = service.total amount + amount (.established accepted) :=
    total_concat rfl
  refine accounts.concat (made _) (made _) ?_ (Nat.le_of_eq (made _))
  rw [arrived, made]
  rfl

theorem accounts_ask (serves : Serves api cbor start asks log service) (accounts : Accounts ops service)
    {client : Nat} {msg : Message} (taken : service.step api cbor (.ask client msg) = some next) :
    Accounts (ops ++ [.ask client msg]) next := by
  obtain ⟨talk, found, rfl⟩ := ask_cases taken
  have sound : talk.Sound := serves.sound talk (List.mem_of_getElem? found)
  have totals := @total_set _ service
    { service with talks := service.talks.set client (talk.send .client msg) } _ _ _ found rfl
  refine accounts.concat ?_ ?_ ?_ ?_
  · have more := totals (fun talk => (talk .client).sent.length)
    rw [Conversation.sent_send sound, List.length_append] at more
    change _ = _ + [msg].length
    simp only [requested] at more ⊢
    omega
  · have same := totals Conversation.ran
    rw [Conversation.ran_send] at same
    exact Nat.add_right_cancel same
  · have same := totals (fun talk => (talk .server).incoming.length)
    rw [Conversation.incoming_send] at same
    exact congrArg (· + service.incomming.length) (Nat.add_right_cancel same)
  · have same := totals (fun talk => (talk .server).sent.length)
    rw [Conversation.send_client_server] at same
    exact Nat.le_of_eq (Nat.add_right_cancel same)

theorem accounts_act (serves : Serves api cbor start asks log service) (accounts : Accounts ops service)
    {client : Nat} {owner : Owner} {activity : Activity} (taken : service.act client owner activity = some next) :
    Accounts (ops ++ [.act client owner activity]) next := by
  obtain ⟨requested, replied, ran, arrived⟩ := act_spec serves taken
  exact accounts.concat requested ran arrived (Nat.le_of_eq replied)

theorem accounts_update (nonempty : ∀ json, cbor.toCbor json ≠ [])
    (serves : Serves api cbor start asks log service) (accounts : Accounts ops service) {env : Environment}
    (taken : service.update api cbor env = some next) : Accounts (ops ++ [.update env]) next := by
  obtain ⟨client, msg, incomming, server, sent, queue, returned, found, rfl⟩ := serves.update_cases taken
  obtain ⟨_, posted, asked, pushes⟩ := reply_spec (serves.sound _ (List.mem_of_getElem? found)) sent
  have few := (ChangeServer.atMostOne_onMessage nonempty returned).length_le
  have totals := @total_set _ service { service with
    server, incomming, talks := service.talks.set client (reply (service.talk client) sent) } _ _ _ found rfl
  refine accounts.concat ?_ ?_ ?_ ?_
  · have same := totals (fun talk => (talk .client).sent.length)
    rw [asked] at same
    exact Nat.add_right_cancel same
  · have same := totals Conversation.ran
    rw [ran_reply] at same
    exact Nat.add_right_cancel same
  · have same := totals (fun talk => (talk .server).incoming.length)
    rw [pushes] at same
    have same := Nat.add_right_cancel same
    change _ + service.incomming.length = _ + 1 + incomming.length
    rw [queue, List.length_cons]
    simp only [arrived] at same ⊢
    omega
  · have more := totals (fun talk => (talk .server).sent.length)
    rw [posted, List.length_append] at more
    change _ ≤ _ + 1
    simp only [replied] at more ⊢
    omega

/-- Every step is accounted for. -/
theorem accounts_step (nonempty : ∀ json, cbor.toCbor json ≠ [])
    (serves : Serves api cbor start asks log service) (accounts : Accounts ops service) {op : ServiceOp}
    (taken : service.step api cbor op = some next) : Accounts (ops ++ [op]) next := by
  cases op with
  | connect id now =>
    cases taken
    exact accounts_connect accounts id now
  | ask client msg => exact accounts_ask serves accounts taken
  | act client owner activity => exact accounts_act serves accounts taken
  | update env => exact accounts_update nonempty serves accounts taken

/-! ### What bounds the accounts -/

theorem Serves.ran_le (serves : Serves api cbor start asks log service) :
    service.total Conversation.ran ≤ 5 * (service.requested + service.replied) := by
  rw [← total_messages]
  exact total_le (fun talk member => Conversation.ran_le (serves.sound talk member))

theorem Serves.arrived_le (serves : Serves api cbor start asks log service) :
    service.arrived ≤ service.requested :=
  total_le (fun talk member => Conversation.incoming_le (serves.sound talk member) .client)

theorem Serves.ran_of_rest (serves : Serves api cbor start asks log service) (rest : service.AtRest) :
    service.total Conversation.ran = 5 * (service.requested + service.replied) := by
  rw [← total_messages]
  refine congrArg List.sum (List.map_congr_left (fun talk member => ?_))
  obtain ⟨client, found⟩ := List.mem_iff_getElem?.mp member
  exact Conversation.ran_of_rest (serves.sound talk member) (serves.whole_of found) (rest talk member)

/-- Where handlers alone lead. -/
theorem run_acts (serves : Serves api cbor start asks log service) {handlers : List ServiceOp}
    (acts : ∀ op ∈ handlers, op.isAct = true) (reached : run (step api cbor) service handlers = some final) :
    Serves api cbor start asks log final ∧ final.requested = service.requested ∧
      final.replied = service.replied ∧
      final.total Conversation.ran = service.total Conversation.ran + handlers.length := by
  induction handlers generalizing service with
  | nil =>
    cases reached
    exact ⟨serves, rfl, rfl, rfl⟩
  | cons op later ih =>
    obtain ⟨next, taken, onward⟩ := run_cons.mp reached
    have isAct := acts op List.mem_cons_self
    cases op with
    | act client owner activity =>
      obtain ⟨requested, replied, ran, _⟩ := act_spec serves taken
      obtain ⟨kept, requested', replied', ran'⟩ := ih (serves_act serves taken)
        (fun other member => acts other (List.mem_cons_of_mem _ member)) onward
      refine ⟨kept, requested'.trans requested, replied'.trans replied, ?_⟩
      rw [ran', ran, List.length_cons]
      omega
    | _ => cases isAct

theorem act_of_not_rest (busy : ¬ service.AtRest) :
    ∃ client owner activity next, service.act client owner activity = some next := by
  simp only [AtRest, Conversation.AtRest, not_forall] at busy
  obtain ⟨talk, member, owner, activity, handled⟩ := busy
  obtain ⟨client, found⟩ := List.mem_iff_getElem?.mp member
  obtain ⟨after, handled⟩ := Option.ne_none_iff_exists'.mp handled
  refine ⟨client, owner, activity, { service with
    talks := service.talks.set client after
    incomming := service.incomming ++ pushed client talk after }, ?_⟩
  simp [act, found, handled]

/-- The handlers run until nothing is left to do. -/
theorem Serves.comes_to_rest (serves : Serves api cbor start asks log service) :
    ∃ handlers final, (∀ op ∈ handlers, op.isAct = true) ∧
      run (step api cbor) service handlers = some final ∧ final.AtRest := by
  induction room : 5 * (service.requested + service.replied) - service.total Conversation.ran
    using Nat.strongRecOn generalizing service with
  | ind room ih =>
    subst room
    by_cases rest : service.AtRest
    · exact ⟨[], service, List.forall_mem_nil _, rfl, rest⟩
    · obtain ⟨client, owner, activity, next, taken⟩ := act_of_not_rest rest
      obtain ⟨requested, replied, ran, _⟩ := act_spec serves taken
      have kept := serves_act serves taken
      have bounded := kept.ran_le
      obtain ⟨handlers, final, acts, reached, rest⟩ := ih _ (by omega) kept rfl
      refine ⟨.act client owner activity :: handlers, final, ?_, run_cons.mpr ⟨next, taken, reached⟩, rest⟩
      intro op member
      rcases List.mem_cons.mp member with rfl | later
      · rfl
      · exact acts op later

end Steps

theorem accounts_run (nonempty : ∀ json, cbor.toCbor json ≠ []) {start : ChangeServer σ}
    {ops : List ServiceOp} (fits : Meets (step api cbor) (Fits api cbor) { server := start } ops)
    (reached : run (step api cbor) { server := start } ops = some final) :
    Served api cbor start ops final ∧ Accounts ops final := by
  let Known (before : List ServiceOp) (service : Service σ) : Prop :=
    Served api cbor start before service ∧ Accounts before service
  have each : ∀ before service op next, Known before service → Fits api cbor service op →
      service.step api cbor op = some next → Known (before ++ [op]) next := by
    intro before service op next ⟨served, accounts⟩ here taken
    refine ⟨served_step nonempty served here taken, ?_⟩
    obtain ⟨_, serves⟩ := served
    exact accounts_step nonempty serves accounts taken
  have begun : Known [] { server := start } := ⟨served_start start, accounts_start start⟩
  exact run_history Known each begun fits reached

/-- The service cannot be kept busy by the messages it was sent: in every run at most eleven
handlers and turns of the loop come for each request, and from wherever it has come to the
handlers lead it to rest; in whatever order they do, five have then run for each message sent. -/
theorem work_ends (nonempty : ∀ json, cbor.toCbor json ≠ []) {start : ChangeServer σ}
    {ops : List ServiceOp} (fits : Meets (step api cbor) (Fits api cbor) { server := start } ops)
    (reached : run (step api cbor) { server := start } ops = some final) :
    ops.countP ServiceOp.isAct + ops.countP ServiceOp.isUpdate ≤ 11 * ops.countP ServiceOp.isAsk ∧
      (∃ handlers rest, (∀ op ∈ handlers, op.isAct = true) ∧
        run (step api cbor) final handlers = some rest ∧ rest.AtRest) ∧
      ∀ handlers rest, (∀ op ∈ handlers, op.isAct = true) →
        run (step api cbor) final handlers = some rest →
          let messages := ops.countP ServiceOp.isAsk + final.replied
          ops.countP ServiceOp.isAct + handlers.length ≤ 5 * messages ∧
            (rest.AtRest → ops.countP ServiceOp.isAct + handlers.length = 5 * messages) := by
  obtain ⟨⟨log, serves⟩, accounts⟩ := accounts_run nonempty fits reached
  refine ⟨?_, serves.comes_to_rest, fun handlers rest acts led => ?_⟩
  · have ran := serves.ran_le
    have arrived := serves.arrived_le
    have replied := accounts.replied
    rw [accounts.ran, accounts.asked] at ran
    rw [accounts.taken, accounts.asked] at arrived
    omega
  · obtain ⟨kept, requested, replied, ran⟩ := run_acts serves acts led
    have atMost := kept.ran_le
    rw [ran, requested, replied, accounts.ran, accounts.asked] at atMost
    refine ⟨atMost, fun settled => ?_⟩
    have all := kept.ran_of_rest settled
    rwa [ran, requested, replied, accounts.ran, accounts.asked] at all

/-- After the first ping of two has been handled, the handlers still have to run. -/
theorem work_ends_pings : ∃ final,
    run (step State.api pingCbor) { server := { state := {} } } (pingTwice.take 15) = some final ∧
      (∃ handlers rest, (∀ op ∈ handlers, op.isAct = true) ∧ handlers.length = 5 ∧
        run (step State.api pingCbor) final handlers = some rest ∧ rest.AtRest) := by
  have through : (run (step State.api pingCbor) { server := { state := {} } } (pingTwice.take 15)).any
      (fun final => final.replied = 1) = true := by decide +kernel
  obtain ⟨final, reached, one⟩ := (Option.any_eq_true _ _).mp through
  have one : final.replied = 1 := of_decide_eq_true one
  obtain ⟨_, ⟨handlers, rest, acts, led, settled⟩, each⟩ := @work_ends _ _ pingCbor _
    (fun _ => List.cons_ne_nil _ _) _ (pingTwice.take 15) (by decide +kernel) reached
  have all := (each handlers rest acts led).2 settled
  rw [one] at all
  have acted : (pingTwice.take 15).countP ServiceOp.isAct = 10 := by decide
  have asked : (pingTwice.take 15).countP ServiceOp.isAsk = 2 := by decide
  exact ⟨final, reached, handlers, rest, acts, by omega, led, settled⟩

end Service

end Wallchanger
