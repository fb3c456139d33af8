import Mathlib.Data.Fintype.Basic
import Mathlib.Logic.Function.Basic
import Wallchanger.Foundation.Run

/-! `connect_queue.hpp`: a queue between threads, lock by lock. What a call does under one
mutex alone is one step, so any interleaving of the critical sections is a run. -/

namespace Wallchanger.Net

open Foundation

/-- Where a thread stands in a call that takes `m_blocking_mutex`. -/
inductive Place where
  /-- In no such call. -/
  | outside
  /-- A push has placed its element and holds `m_queue_mutex`. -/
  | notifying
  /-- `wait` is about to look whether the queue is empty. -/
  | looking
  /-- It was empty: `wait` is about to lock `m_blocking_mutex`. -/
  | locking
  /-- `wait` holds `m_blocking_mutex`. -/
  | waiting
  /-- In the wait on the condition variable, which has released the mutex. -/
  | asleep
  /-- Woken, and about to lock the mutex again. -/
  | woken
deriving DecidableEq

/-- Of a thread in `wait`: between its look, which found the queue empty, and its wakeup. -/
def Place.Unaware (place : Place) : Prop := place = .locking ∨ place = .waiting ∨ place = .asleep

structure ConnectQueue (Thread Item : Type) where
  items : List Item := []
  queueMutex : Option Thread := none
  blockingMutex : Option Thread := none
  place : Thread → Place := fun _ => .outside

/-- The calls that take `m_queue_mutex` alone. -/
inductive QueueCall where
  | front
  | back
  | popFront
  | popBack
  | empty
  | size
  | clear
deriving DecidableEq

/-- What such a call gives. -/
inductive QueueResult (Item : Type) where
  | nothing
  | item (item : Item)
  | flag (flag : Bool)
  | count (count : Nat)

/-- The elements after a call and its result; `none` for an element of an empty queue. -/
def QueueCall.perform {Item : Type} : QueueCall → List Item → Option (List Item × QueueResult Item)
  | .front, items => items.head?.map (fun item => (items, .item item))
  | .back, items => items.getLast?.map (fun item => (items, .item item))
  | .popFront, items => items.head?.map (fun item => (items.tail, .item item))
  | .popBack, items => items.getLast?.map (fun item => (items.dropLast, .item item))
  | .empty, items => some (items, .flag items.isEmpty)
  | .size, items => some (items, .count items.length)
  | .clear, _ => some ([], .nothing)

/-- `notify` names the thread that `notify_one` wakes, `wake` is a spurious one. -/
inductive QueueOp (Thread Item : Type) where
  | call (thread : Thread) (call : QueueCall)
  | pushBack (thread : Thread) (data : Item)
  | pushFront (thread : Thread) (data : Item)
  | notify (thread : Thread) (woken : Option Thread)
  | wait (thread : Thread)
  | look (thread : Thread)
  | lock (thread : Thread)
  | sleep (thread : Thread)
  | wake (thread : Thread)
  | relock (thread : Thread)

/-- A step that is neither a new call nor a spurious wakeup. -/
def QueueOp.GoesOn {Thread Item : Type} : QueueOp Thread Item → Prop
  | .notify _ _ | .look _ | .lock _ | .sleep _ | .relock _ => True
  | _ => False

namespace ConnectQueue

variable {Thread Item : Type} [DecidableEq Thread]

/-- A thread gets to another place. -/
def goTo (queue : ConnectQueue Thread Item) (thread : Thread) (place : Place) : ConnectQueue Thread Item :=
  { queue with place := Function.update queue.place thread place }

/-- A push up to where it holds `m_queue_mutex` over the new elements. -/
def push (queue : ConnectQueue Thread Item) (thread : Thread) (items : List Item) :
    Option (ConnectQueue Thread Item) :=
  if queue.place thread = .outside ∧ queue.queueMutex = none then
    some { queue.goTo thread .notifying with items, queueMutex := some thread }
  else none

/-- A push has returned. -/
def released (queue : ConnectQueue Thread Item) (thread : Thread) : ConnectQueue Thread Item :=
  { queue.goTo thread .outside with queueMutex := none }

/-- The rest of a push: it locks `m_blocking_mutex`, wakes one of the threads asleep, if there
is one, and releases both mutexes. -/
def notifyOne [Fintype Thread] (queue : ConnectQueue Thread Item) (thread : Thread) (woken : Option Thread) :
    Option (ConnectQueue Thread Item) :=
  if queue.place thread = .notifying ∧ queue.blockingMutex = none then
    match woken with
    | some other =>
      if queue.place other = .asleep then some ((queue.released thread).goTo other .woken) else none
    | none => if ∀ other, queue.place other ≠ .asleep then some (queue.released thread) else none
  else none

/-- A step of one thread; `none` where it cannot be taken there. -/
def step [Fintype Thread] (queue : ConnectQueue Thread Item) : QueueOp Thread Item → Option (ConnectQueue Thread Item)
  | .call thread call =>
    if queue.place thread = .outside ∧ queue.queueMutex = none then
      (call.perform queue.items).map (fun result => { queue with items := result.1 })
    else none
  | .pushBack thread data => queue.push thread (queue.items ++ [data])
  | .pushFront thread data => queue.push thread (data :: queue.items)
  | .notify thread woken => queue.notifyOne thread woken
  | .wait thread => if queue.place thread = .outside then some (queue.goTo thread .looking) else none
  | .look thread =>
    if queue.place thread = .looking ∧ queue.queueMutex = none then
      some (queue.goTo thread (if queue.items.isEmpty then .locking else .outside))
    else none
  | .lock thread =>
    if queue.place thread = .locking ∧ queue.blockingMutex = none then
      some { queue.goTo thread .waiting with blockingMutex := some thread }
    else none
  | .sleep thread =>
    if queue.place thread = .waiting then
      some { queue.goTo thread .asleep with blockingMutex := none }
    else none
  | .wake thread => if queue.place thread = .asleep then some (queue.goTo thread .woken) else none
  | .relock thread =>
    if queue.place thread = .woken ∧ queue.blockingMutex = none then some (queue.goTo thread .looking)
    else none

/-! ### When a step can be taken -/

@[simp] theorem place_goTo (queue : ConnectQueue Thread Item) (thread other : Thread) (place : Place) :
    (queue.goTo thread place).place other = if other = thread then place else queue.place other :=
  Function.update_apply _ _ _ _

@[simp] theorem place_released (queue : ConnectQueue Thread Item) (thread other : Thread) :
    (queue.released thread).place other = if other = thread then .outside else queue.place other :=
  Function.update_apply _ _ _ _

section Guards

variable {queue next : ConnectQueue Thread Item} {thread : Thread}

theorem push_eq_some {items : List Item} : queue.push thread items = some next ↔
    (queue.place thread = .outside ∧ queue.queueMutex = none) ∧
      { queue.goTo thread .notifying with items, queueMutex := some thread } = next := by
  simp only [push, Option.ite_none_right_eq_some, Option.some.injEq]

variable [Fintype Thread]

theorem notifyOne_eq_some {woken : Option Thread} : queue.notifyOne thread woken = some next ↔
    (queue.place thread = .notifying ∧ queue.blockingMutex = none) ∧
      match woken with
      | some other => queue.place other = .asleep ∧ (queue.released thread).goTo other .woken = next
      | none => (∀ other, queue.place other ≠ .asleep) ∧ queue.released thread = next := by
  cases woken <;> simp only [notifyOne, Option.ite_none_right_eq_some, Option.some.injEq]

theorem call_eq_some {call : QueueCall} : queue.step (.call thread call) = some next ↔
    (queue.place thread = .outside ∧ queue.queueMutex = none) ∧
      ∃ items, (∃ result, call.perform queue.items = some (items, result)) ∧ { queue with items } = next := by
  simp only [step, Option.ite_none_right_eq_some, Option.map_eq_some_iff, Prod.exists, exists_and_right]

theorem wait_eq_some : queue.step (.wait thread) = some next ↔
    queue.place thread = .outside ∧ queue.goTo thread .looking = next := by
  simp only [step, Option.ite_none_right_eq_some, Option.some.injEq]

theorem look_eq_some : queue.step (.look thread) = some next ↔
    (queue.place thread = .looking ∧ queue.queueMutex = none) ∧
      queue.goTo thread (if queue.items.isEmpty then .locking else .outside) = next := by
  simp only [step, Option.ite_none_right_eq_some, Option.some.injEq]

theorem lock_eq_some : queue.step (.lock thread) = some next ↔
    (queue.place thread = .locking ∧ queue.blockingMutex = none) ∧
      { queue.goTo thread .waiting with blockingMutex := some thread } = next := by
  simp only [step, Option.ite_none_right_eq_some, Option.some.injEq]

theorem sleep_eq_some : queue.step (.sleep thread) = some next ↔
    queue.place thread = .waiting ∧ { queue.goTo thread .asleep with blockingMutex := none } = next := by
  simp only [step, Option.ite_none_right_eq_some, Option.some.injEq]

theorem wake_eq_some : queue.step (.wake thread) = some next ↔
    queue.place thread = .asleep ∧ queue.goTo thread .woken = next := by
  simp only [step, Option.ite_none_right_eq_some, Option.some.injEq]

theorem relock_eq_some : queue.step (.relock thread) = some next ↔
    (queue.place thread = .woken ∧ queue.blockingMutex = none) ∧ queue.goTo thread .looking = next := by
  simp only [step, Option.ite_none_right_eq_some, Option.some.injEq]

end Guards

/-! ### The locks -/

/-- Each mutex is held by the thread that stands where it is held, and by no other. -/
structure Locked (queue : ConnectQueue Thread Item) : Prop where
  inPush : ∀ thread, queue.queueMutex = some thread ↔ queue.place thread = .notifying
  inWait : ∀ thread, queue.blockingMutex = some thread ↔ queue.place thread = .waiting

omit [DecidableEq Thread] in
theorem locked_empty : ({} : ConnectQueue Thread Item).Locked :=
  ⟨fun _ => ⟨(nomatch ·), (nomatch ·)⟩, fun _ => ⟨(nomatch ·), (nomatch ·)⟩⟩

/-- A thread that neither takes nor gives back a mutex moves between places where it holds none. -/
theorem Locked.goTo {queue : ConnectQueue Thread Item} (locked : queue.Locked) {thread : Thread} {place : Place}
    (before : queue.place thread ≠ .notifying ∧ queue.place thread ≠ .waiting)
    (after : place ≠ .notifying ∧ place ≠ .waiting) : (queue.goTo thread place).Locked := by
  constructor
  · intro other
    rw [place_goTo]
    by_cases same : other = thread
    · subst same
      rw [if_pos rfl]
      exact (locked.inPush other).trans ⟨fun here => absurd here before.1, fun here => absurd here after.1⟩
    · rw [if_neg same]
      exact locked.inPush other
  · intro other
    rw [place_goTo]
    by_cases same : other = thread
    · subst same
      rw [if_pos rfl]
      exact (locked.inWait other).trans ⟨fun here => absurd here before.2, fun here => absurd here after.2⟩
    · rw [if_neg same]
      exact locked.inWait other

theorem locked_push {queue next : ConnectQueue Thread Item} {thread : Thread} {items : List Item}
    (locked : queue.Locked) (taken : queue.push thread items = some next) : next.Locked := by
  obtain ⟨free, rfl⟩ := push_eq_some.mp taken
  constructor
  · intro other
    have nobody := locked.inPush other
    simp only [place_goTo]
    grind
  · intro other
    have waits := locked.inWait other
    simp only [place_goTo]
    grind [ConnectQueue.goTo]

variable [Fintype Thread]

theorem locked_notifyOne {queue next : ConnectQueue Thread Item} {thread : Thread} {woken : Option Thread}
    (locked : queue.Locked) (taken : queue.notifyOne thread woken = some next) : next.Locked := by
  obtain ⟨⟨own, free⟩, taken⟩ := notifyOne_eq_some.mp taken
  -- the mutex that is given back was the thread's own
  have released : (queue.released thread).Locked := by
    constructor
    · intro other
      have holds := locked.inPush other
      have here := locked.inPush thread
      simp only [place_released]
      grind [ConnectQueue.released]
    · intro other
      have waits := locked.inWait other
      simp only [place_released]
      grind [ConnectQueue.released, ConnectQueue.goTo]
  cases woken with
  | none => exact taken.2 ▸ released
  | some other =>
    obtain ⟨sleeps, rfl⟩ := taken
    refine released.goTo ?_ ⟨nofun, nofun⟩
    rw [place_released]
    grind

/-- Every step keeps the mutexes with the threads that hold them. -/
theorem locked_step {queue next : ConnectQueue Thread Item} {op : QueueOp Thread Item}
    (locked : queue.Locked) (taken : queue.step op = some next) : next.Locked := by
  cases op with
  | call thread call =>
    obtain ⟨_, items, _, rfl⟩ := call_eq_some.mp taken
    exact ⟨locked.inPush, locked.inWait⟩
  | pushBack thread data => exact locked_push locked taken
  | pushFront thread data => exact locked_push locked taken
  | notify thread woken => exact locked_notifyOne locked taken
  | wait thread =>
    obtain ⟨here, rfl⟩ := wait_eq_some.mp taken
    exact locked.goTo (by grind) ⟨nofun, nofun⟩
  | look thread =>
    obtain ⟨here, rfl⟩ := look_eq_some.mp taken
    exact locked.goTo (by grind) (by grind)
  | lock thread =>
    obtain ⟨here, rfl⟩ := lock_eq_some.mp taken
    constructor
    · intro other
      have pushes := locked.inPush other
      simp only [place_goTo]
      grind [ConnectQueue.goTo]
    · intro other
      have nobody := locked.inWait other
      simp only [place_goTo]
      grind
  | sleep thread =>
    obtain ⟨here, rfl⟩ := sleep_eq_some.mp taken
    constructor
    · intro other
      have pushes := locked.inPush other
      simp only [place_goTo]
      grind [ConnectQueue.goTo]
    · intro other
      have waits := locked.inWait other
      have own := locked.inWait thread
      simp only [place_goTo]
      grind
  | wake thread =>
    obtain ⟨here, rfl⟩ := wake_eq_some.mp taken
    exact locked.goTo (by grind) ⟨nofun, nofun⟩
  | relock thread =>
    obtain ⟨here, rfl⟩ := relock_eq_some.mp taken
    exact locked.goTo (by grind) ⟨nofun, nofun⟩

/-! ### No deadlock -/

/-- As long as some thread is in a call and not asleep, some thread can go on. -/
theorem goes_on {queue : ConnectQueue Thread Item} (locked : queue.Locked) {thread : Thread}
    (inside : queue.place thread ≠ .outside) (awake : queue.place thread ≠ .asleep) :
    ∃ op next, op.GoesOn ∧ queue.step op = some next := by
  cases blocking : queue.blockingMutex with
  | some holder =>
    have waits := (locked.inWait holder).mp blocking
    exact ⟨.sleep holder, _, trivial, sleep_eq_some.mpr ⟨waits, rfl⟩⟩
  | none =>
    cases pushing : queue.queueMutex with
    | some holder =>
      have notifies := (locked.inPush holder).mp pushing
      by_cases sleeper : ∃ other, queue.place other = .asleep
      · obtain ⟨other, sleeps⟩ := sleeper
        have notified : queue.notifyOne holder (some other) =
            some ((queue.released holder).goTo other .woken) :=
          notifyOne_eq_some.mpr ⟨⟨notifies, blocking⟩, sleeps, rfl⟩
        exact ⟨.notify holder (some other), _, trivial, notified⟩
      · have notified : queue.notifyOne holder none = some (queue.released holder) :=
          notifyOne_eq_some.mpr ⟨⟨notifies, blocking⟩, not_exists.mp sleeper, rfl⟩
        exact ⟨.notify holder none, _, trivial, notified⟩
    | none =>
      cases place : queue.place thread with
      | outside => exact absurd place inside
      | asleep => exact absurd place awake
      | notifying => cases pushing.symm.trans ((locked.inPush thread).mpr place)
      | waiting => cases blocking.symm.trans ((locked.inWait thread).mpr place)
      | looking => exact ⟨.look thread, _, trivial, look_eq_some.mpr ⟨⟨place, pushing⟩, rfl⟩⟩
      | locking => exact ⟨.lock thread, _, trivial, lock_eq_some.mpr ⟨⟨place, blocking⟩, rfl⟩⟩
      | woken => exact ⟨.relock thread, _, trivial, relock_eq_some.mpr ⟨⟨place, blocking⟩, rfl⟩⟩

/-- In no order of the critical sections do the threads block each other: whenever one is in a
call and not asleep, one of them can go on. -/
theorem never_deadlocked {ops : List (QueueOp Thread Item)} {final : ConnectQueue Thread Item}
    (reached : run step {} ops = some final) {thread : Thread} (inside : final.place thread ≠ .outside)
    (awake : final.place thread ≠ .asleep) : ∃ op next, op.GoesOn ∧ final.step op = some next := by
  have each : ∀ (queue : ConnectQueue Thread Item) op next, queue.Locked →
      queue.step op = some next → next.Locked := fun _ _ _ locked taken => locked_step locked taken
  exact goes_on ((throughout_of_kept each locked_empty).last reached) inside awake

/-- A thread looks and finds nothing, another one pushes, and the first locks and sleeps. -/
def lateWakeup : List (QueueOp Bool Nat) :=
  [.wait false, .look false, .pushBack true 7, .notify true none, .lock false, .sleep false]

theorem never_deadlocked_in_push :
    ∃ final, run step {} (lateWakeup.take 3) = some final ∧ final.place true = .notifying ∧
      ∃ op next, op.GoesOn ∧ final.step op = some next := by
  have through : (run step {} (lateWakeup.take 3)).any (fun final => final.place true = .notifying) = true := by
    decide
  obtain ⟨final, reached, pushing⟩ := (Option.any_eq_true _ _).mp through
  have pushing : final.place true = .notifying := of_decide_eq_true pushing
  exact ⟨final, reached, pushing,
    never_deadlocked reached (by rw [pushing]; decide) (by rw [pushing]; decide)⟩

/-! ### Lost wakeups -/

/-- After it last found the queue empty, and before it has locked `m_blocking_mutex`, a push
has notified. -/
def Missed (waiter : Thread) (ops : List (QueueOp Thread Item)) : Prop :=
  ∃ before producer woken after queue, ops = before ++ .notify producer woken :: after ∧
    run step {} before = some queue ∧ queue.place waiter = .locking ∧ .look waiter ∉ after

theorem missed_concat {waiter : Thread} {ops : List (QueueOp Thread Item)} {op : QueueOp Thread Item}
    {queue : ConnectQueue Thread Item} (reached : run step {} ops = some queue) :
    Missed waiter (ops ++ [op]) ↔ (Missed waiter ops ∧ op ≠ .look waiter) ∨
      (∃ producer woken, op = .notify producer woken) ∧ queue.place waiter = .locking := by
  constructor
  · rintro ⟨before, producer, woken, after, middle, split, reached', place, unseen⟩
    rcases List.eq_nil_or_concat after with rfl | ⟨front, last, rfl⟩
    · obtain ⟨rfl, same⟩ := List.append_inj' split rfl
      cases reached.symm.trans reached'
      exact .inr ⟨⟨producer, woken, List.cons.inj same |>.1⟩, place⟩
    · rw [List.concat_eq_append, ← List.cons_append, ← List.append_assoc] at split
      obtain ⟨rfl, same⟩ := List.append_inj' split rfl
      have last_ := (List.cons.inj same).1
      rw [List.concat_eq_append] at unseen
      refine .inl ⟨⟨before, producer, woken, front, middle, rfl, reached', place, ?_⟩, ?_⟩
      · exact fun member => unseen (List.mem_append_left _ member)
      · rintro rfl
        exact unseen (List.mem_append_right _ (last_ ▸ List.mem_singleton_self _))
  · rintro (⟨⟨before, producer, woken, after, middle, rfl, reached', place, unseen⟩, other⟩ |
      ⟨⟨producer, woken, rfl⟩, place⟩)
    · refine ⟨before, producer, woken, after ++ [op], middle, by simp, reached', place, ?_⟩
      intro member
      rcases List.mem_append.mp member with old | new
      · exact unseen old
      · exact other (List.mem_singleton.mp new).symm
    · exact ⟨ops, producer, woken, [], queue, rfl, reached, place, List.not_mem_nil⟩

/-- Only one thread waits, and only it takes elements out, as the thread of `update` does. -/
def OneConsumer (waiter : Thread) : QueueOp Thread Item → Prop
  | .wait thread | .call thread .popFront | .call thread .popBack | .call thread .clear => thread = waiter
  | _ => True

/-- Where a run has led that has one consumer: nobody else waits, and until it wakes the
elements it does not know of are those it missed and those of a push that goes on. -/
structure Watched (waiter : Thread) (ops : List (QueueOp Thread Item)) (queue : ConnectQueue Thread Item) :
    Prop where
  reached : run step {} ops = some queue
  locked : queue.Locked
  others : ∀ thread, thread ≠ waiter → queue.place thread = .outside ∨ queue.place thread = .notifying
  told : (queue.place waiter).Unaware →
    (queue.items ≠ [] ↔ Missed waiter ops ∨ queue.queueMutex ≠ none)

variable {waiter : Thread} {ops : List (QueueOp Thread Item)} {queue next : ConnectQueue Thread Item}

/-- A thread in `wait` is the consumer. -/
theorem Watched.eq_waiter (watched : Watched waiter ops queue) {thread : Thread}
    (inside : queue.place thread ≠ .outside ∧ queue.place thread ≠ .notifying) : thread = waiter := by
  by_contra other
  rcases watched.others thread other with outside | notifies
  · exact inside.1 outside
  · exact inside.2 notifies

omit [DecidableEq Thread] [Fintype Thread] in
/-- What a call of a thread that takes nothing out leaves. -/
theorem items_of_call {thread : Thread} {call : QueueCall} {items : List Item} {result : QueueResult Item}
    (consumer : OneConsumer waiter (.call thread call : QueueOp Thread Item)) (other : thread ≠ waiter)
    (performed : call.perform queue.items = some (items, result)) : items = queue.items := by
  cases call with
  | popFront | popBack | clear => exact absurd consumer other
  | front | back =>
    obtain ⟨_, _, same⟩ := Option.map_eq_some_iff.mp performed
    cases same
    rfl
  | empty | size =>
    cases performed
    rfl

/-- No step brings another thread into `wait`. -/
theorem others_step {op : QueueOp Thread Item} (watched : Watched waiter ops queue)
    (consumer : OneConsumer waiter op) (taken : queue.step op = some next) {thread : Thread}
    (other : thread ≠ waiter) : next.place thread = .outside ∨ next.place thread = .notifying := by
  have before := watched.others thread other
  cases op with
  | call caller call =>
    obtain ⟨_, items, _, rfl⟩ := call_eq_some.mp taken
    exact before
  | pushBack caller data | pushFront caller data =>
    obtain ⟨_, rfl⟩ := push_eq_some.mp taken
    simp only [place_goTo]
    grind
  | notify caller woken =>
    obtain ⟨_, taken⟩ := notifyOne_eq_some.mp taken
    cases woken with
    | none =>
      obtain ⟨_, rfl⟩ := taken
      rw [place_released]
      grind
    | some sleeper =>
      obtain ⟨sleeps, rfl⟩ := taken
      have same : sleeper = waiter := watched.eq_waiter (by rw [sleeps]; exact ⟨nofun, nofun⟩)
      rw [place_goTo, place_released]
      grind
  | wait caller =>
    obtain ⟨_, rfl⟩ := wait_eq_some.mp taken
    have same : caller = waiter := consumer
    rw [place_goTo]
    grind
  | look caller =>
    obtain ⟨⟨here, _⟩, rfl⟩ := look_eq_some.mp taken
    have same : caller = waiter := watched.eq_waiter (by rw [here]; exact ⟨nofun, nofun⟩)
    rw [place_goTo]
    grind
  | lock caller =>
    obtain ⟨⟨here, _⟩, rfl⟩ := lock_eq_some.mp taken
    have same : caller = waiter := watched.eq_waiter (by rw [here]; exact ⟨nofun, nofun⟩)
    simp only [place_goTo]
    grind
  | sleep caller =>
    obtain ⟨here, rfl⟩ := sleep_eq_some.mp taken
    have same : caller = waiter := watched.eq_waiter (by rw [here]; exact ⟨nofun, nofun⟩)
    simp only [place_goTo]
    grind
  | wake caller =>
    obtain ⟨here, rfl⟩ := wake_eq_some.mp taken
    have same : caller = waiter := watched.eq_waiter (by rw [here]; exact ⟨nofun, nofun⟩)
    rw [place_goTo]
    grind
  | relock caller =>
    obtain ⟨⟨here, _⟩, rfl⟩ := relock_eq_some.mp taken
    have same : caller = waiter := watched.eq_waiter (by rw [here]; exact ⟨nofun, nofun⟩)
    rw [place_goTo]
    grind

/-- What the consumer does not know of, after a step. -/
theorem told_step {op : QueueOp Thread Item} (watched : Watched waiter ops queue)
    (consumer : OneConsumer waiter op) (taken : queue.step op = some next)
    (unaware : (next.place waiter).Unaware) :
    next.items ≠ [] ↔ Missed waiter (ops ++ [op]) ∨ next.queueMutex ≠ none := by
  have told := watched.told
  rw [missed_concat watched.reached]
  cases op with
  | call caller call =>
    obtain ⟨⟨outside, _⟩, items, ⟨result, performed⟩, rfl⟩ := call_eq_some.mp taken
    have other : caller ≠ waiter := by
      rintro rfl
      grind [Place.Unaware]
    have same := items_of_call consumer other performed
    grind
  | pushBack caller data | pushFront caller data =>
    obtain ⟨_, rfl⟩ := push_eq_some.mp taken
    simp
  | notify caller woken =>
    obtain ⟨⟨notifies, free⟩, taken⟩ := notifyOne_eq_some.mp taken
    have pushing := (watched.locked.inPush caller).mpr notifies
    have waits := watched.locked.inWait waiter
    cases woken with
    | none =>
      obtain ⟨awake, rfl⟩ := taken
      have here := awake waiter
      rw [place_released] at unaware
      grind [Place.Unaware, ConnectQueue.released, ConnectQueue.goTo]
    | some sleeper =>
      obtain ⟨sleeps, rfl⟩ := taken
      have same : sleeper = waiter := watched.eq_waiter (by rw [sleeps]; exact ⟨nofun, nofun⟩)
      rw [place_goTo] at unaware
      grind [Place.Unaware]
  | wait caller =>
    obtain ⟨_, rfl⟩ := wait_eq_some.mp taken
    have same : caller = waiter := consumer
    rw [place_goTo] at unaware
    grind [Place.Unaware]
  | look caller =>
    obtain ⟨⟨here, free⟩, rfl⟩ := look_eq_some.mp taken
    have same : caller = waiter := watched.eq_waiter (by rw [here]; exact ⟨nofun, nofun⟩)
    rw [place_goTo] at unaware
    grind [Place.Unaware, ConnectQueue.goTo]
  | lock caller =>
    obtain ⟨⟨here, _⟩, rfl⟩ := lock_eq_some.mp taken
    have same : caller = waiter := watched.eq_waiter (by rw [here]; exact ⟨nofun, nofun⟩)
    grind [Place.Unaware, ConnectQueue.goTo]
  | sleep caller =>
    obtain ⟨here, rfl⟩ := sleep_eq_some.mp taken
    have same : caller = waiter := watched.eq_waiter (by rw [here]; exact ⟨nofun, nofun⟩)
    grind [Place.Unaware, ConnectQueue.goTo]
  | wake caller =>
    obtain ⟨here, rfl⟩ := wake_eq_some.mp taken
    have same : caller = waiter := watched.eq_waiter (by rw [here]; exact ⟨nofun, nofun⟩)
    rw [place_goTo] at unaware
    grind [Place.Unaware]
  | relock caller =>
    obtain ⟨⟨here, _⟩, rfl⟩ := relock_eq_some.mp taken
    have same : caller = waiter := watched.eq_waiter (by rw [here]; exact ⟨nofun, nofun⟩)
    rw [place_goTo] at unaware
    grind [Place.Unaware]

/-- Every step of a run with one consumer keeps what it has missed. -/
theorem watched_step {op : QueueOp Thread Item} (watched : Watched waiter ops queue)
    (consumer : OneConsumer waiter op) (taken : queue.step op = some next) :
    Watched waiter (ops ++ [op]) next where
  reached := by
    rw [run_append, watched.reached]
    simp [run, taken]
  locked := locked_step watched.locked taken
  others _ other := others_step watched consumer taken other
  told unaware := told_step watched consumer taken unaware

theorem watched_empty (waiter : Thread) : Watched waiter [] ({} : ConnectQueue Thread Item) where
  reached := rfl
  locked := locked_empty
  others _ _ := .inl rfl
  told unaware := by
    rcases unaware with place | place | place <;> cases place

/-- In every run with one consumer, whatever the other threads push: while no push goes on, the
consumer is asleep over a queue with elements exactly if a push has notified after it last
found the queue empty and before it had locked `m_blocking_mutex`. -/
theorem asleep_over_items_iff {final : ConnectQueue Thread Item}
    (consumer : ∀ op ∈ ops, OneConsumer waiter op) (reached : run step {} ops = some final)
    (asleep : final.place waiter = .asleep) (quiet : final.queueMutex = none) :
    final.items ≠ [] ↔ Missed waiter ops := by
  have each : ∀ taken (queue : ConnectQueue Thread Item) op next, Watched waiter taken queue →
      OneConsumer waiter op → queue.step op = some next → Watched waiter (taken ++ [op]) next :=
    fun _ _ _ _ watched allowed taken => watched_step watched allowed taken
  have meets := @meets_of_forall _ _ step ops (fun _ op => OneConsumer waiter op)
    (fun op member _ => consumer op member) {}
  have watched := run_history (Watched waiter) each (watched_empty waiter) meets reached
  rw [watched.told (.inr (.inr asleep))]
  simp [quiet]

theorem asleep_over_items_late :
    ∃ final, run step {} lateWakeup = some final ∧ final.items = [7] ∧
      (final.items ≠ [] ↔ Missed false lateWakeup) := by
  have through : (run step {} lateWakeup).any (fun final =>
      final.items = [7] ∧ final.place false = .asleep ∧ final.queueMutex = none) = true := by decide
  obtain ⟨final, reached, shown⟩ := (Option.any_eq_true _ _).mp through
  obtain ⟨items, asleep, quiet⟩ := of_decide_eq_true shown
  have consumer : ∀ op ∈ lateWakeup, OneConsumer false op := by
    intro op member
    simp only [lateWakeup, List.mem_cons, List.not_mem_nil, or_false] at member
    rcases member with rfl | rfl | rfl | rfl | rfl | rfl <;> first | rfl | trivial
  exact ⟨final, reached, items, asleep_over_items_iff consumer reached asleep quiet⟩

end ConnectQueue

end Wallchanger.Net
