import Mathlib.Algebra.Order.BigOperators.Group.List
import Mathlib.Algebra.Order.Group.Multiset
import Mathlib.Tactic.Abel
import RpiFastbootd.Lib.Wakeups
import RpiFastbootd.Fastboot.Handlers

/-!
# The thread pool

`ThreadPool` has a number of workers and a queue of at most as many tasks.  `Enqueue` waits while the
queue is full, and a worker while it is empty; both wait on a condition variable under one mutex, and
a worker notifies the callers only after it has left the mutex.  The destructor sets `stop_`, wakes
everyone up and joins the workers, which first empty the queue.

What a thread does under the mutex is one step here.  However the steps of the threads are
interleaved, and whichever sleepers are woken, also for no reason:

- every task that is accepted is started once, in the order of acceptance, and the queue and the
  tasks in the hands of workers stay within the number of the workers (`pool_fifo`);
- no wake-up is lost: when no thread is about to do something, tasks wait only while all workers run
  tasks (`pool_awake`);
- the destructor comes to its end when the tasks do, and then all accepted tasks are finished
  (`pool_joins`).

The server makes a pool of `GetMaxTcpWorkers` workers, so that the staging buffers of the tasks that
are worked on fit into the memory of the board (`pool_within_budget`).
-/

namespace RpiFastbootd

/-- The tasks of a pool as machines of their own. -/
structure Jobs (τ σ : Type) where
  start : τ → σ
  step : σ → σ → Prop
  ended : σ → Prop

/-- A worker: about to look at the queue, asleep on `cv_workers_`, with a task that it has just taken,
with a task that it runs, or at the end of `WorkerLoop`. -/
inductive Worker (τ σ : Type)
  | looking
  | asleep
  | holding (t : τ)
  | running (t : τ) (s : σ)
  | returned
  deriving DecidableEq, Repr

/-- A thread that calls `Enqueue`: outside of it, about to look at the queue, or asleep on
`cv_enqueue_`. -/
inductive Caller (τ : Type)
  | outside
  | entering (t : τ)
  | asleep (t : τ)
  deriving DecidableEq, Repr

/-- How far the destructor has come. -/
inductive Teardown
  | pending
  | stopped
  | workersNotified
  | joining
  | joined
  deriving DecidableEq, Repr

structure ThreadPool (τ σ : Type) where
  maxQueued : ℕ
  tasks : List τ
  workers : List (Worker τ σ)
  callers : List (Caller τ)
  teardown : Teardown
  deriving DecidableEq, Repr

/-- What happens to a task: it is handed to `Enqueue`, pushed or dropped there, popped, gone on with,
finished. -/
inductive PoolEvent (τ : Type)
  | called (t : τ)
  | accepted (t : τ)
  | dropped (t : τ)
  | started (t : τ)
  | worked (t : τ)
  | finished (t : τ)
  deriving DecidableEq, Repr

section

variable {τ σ : Type}

namespace Worker

@[simp]
def phase : Worker τ σ → Phase
  | looking => .alert
  | asleep => .asleep
  | _ => .away

/-- The task in the hands of a worker. -/
def task : Worker τ σ → List τ
  | holding t => [t]
  | running t _ => [t]
  | _ => []

def isHolding : Worker τ σ → Bool
  | holding _ => true
  | _ => false

end Worker

namespace Caller

@[simp]
def phase : Caller τ → Phase
  | outside => .away
  | entering _ => .alert
  | asleep _ => .asleep

/-- The caller goes on to look at the queue. -/
def wake : Caller τ → Caller τ
  | asleep t => entering t
  | c => c

def task : Caller τ → List τ
  | outside => []
  | entering t => [t]
  | asleep t => [t]

end Caller

def cvWorkers (τ σ : Type) : Sleepers (Worker τ σ) where
  phase := Worker.phase
  wake _ := .looking
  phase_wake _ _ := rfl

def cvEnqueue (τ : Type) : Sleepers (Caller τ) where
  phase := Caller.phase
  wake := Caller.wake
  phase_wake c h := by
    cases c with
    | asleep t => rfl
    | outside | entering t => cases h

@[simp]
theorem phase_cvWorkers (w : Worker τ σ) : (cvWorkers τ σ).phase w = w.phase := rfl

@[simp]
theorem phase_cvEnqueue (c : Caller τ) : (cvEnqueue τ).phase c = c.phase := rfl

namespace ThreadPool

/-- `stop_`. -/
def Stop (p : ThreadPool τ σ) : Prop := p.teardown ≠ .pending

/-- A pool of `n` threads when it is made, and `callers` threads that may use it. -/
def new (n callers : ℕ) : ThreadPool τ σ where
  maxQueued := n
  tasks := []
  workers := List.replicate n .looking
  callers := List.replicate callers .outside
  teardown := .pending

/-- What a thread does under the mutex, or between two holds of it. -/
inductive Step (J : Jobs τ σ) :
    ThreadPool τ σ → Option (PoolEvent τ) → ThreadPool τ σ → Prop
  -- `WorkerLoop`
  | pop {max : ℕ} {t : τ} {tasks : List τ} {w₁ w₂ : List (Worker τ σ)} {c : List (Caller τ)}
    {d : Teardown} : Step J ⟨max, t :: tasks, w₁ ++ .looking :: w₂, c, d⟩ (some (.started t))
      ⟨max, tasks, w₁ ++ .holding t :: w₂, c, d⟩
  | sleep {max : ℕ} {w₁ w₂ : List (Worker τ σ)} {c : List (Caller τ)} :
    Step J ⟨max, [], w₁ ++ .looking :: w₂, c, .pending⟩ none
      ⟨max, [], w₁ ++ .asleep :: w₂, c, .pending⟩
  | leave {max : ℕ} {w₁ w₂ : List (Worker τ σ)} {c : List (Caller τ)} {d : Teardown}
    (hstop : d ≠ .pending) : Step J ⟨max, [], w₁ ++ .looking :: w₂, c, d⟩ none
      ⟨max, [], w₁ ++ .returned :: w₂, c, d⟩
  | notify {max : ℕ} {t : τ} {tasks : List τ} {w₁ w₂ : List (Worker τ σ)}
    {c c' : List (Caller τ)} {d : Teardown} (hnotify : NotifyOne (cvEnqueue τ) c c') :
    Step J ⟨max, tasks, w₁ ++ .holding t :: w₂, c, d⟩ none
      ⟨max, tasks, w₁ ++ .running t (J.start t) :: w₂, c', d⟩
  | work {max : ℕ} {t : τ} {s s' : σ} {tasks : List τ} {w₁ w₂ : List (Worker τ σ)}
    {c : List (Caller τ)} {d : Teardown} (hstep : J.step s s') :
    Step J ⟨max, tasks, w₁ ++ .running t s :: w₂, c, d⟩ (some (.worked t))
      ⟨max, tasks, w₁ ++ .running t s' :: w₂, c, d⟩
  | finish {max : ℕ} {t : τ} {s : σ} {tasks : List τ} {w₁ w₂ : List (Worker τ σ)}
    {c : List (Caller τ)} {d : Teardown} (hended : J.ended s) :
    Step J ⟨max, tasks, w₁ ++ .running t s :: w₂, c, d⟩ (some (.finished t))
      ⟨max, tasks, w₁ ++ .looking :: w₂, c, d⟩
  | wakeWorker {max : ℕ} {tasks : List τ} {w₁ w₂ : List (Worker τ σ)} {c : List (Caller τ)}
    {d : Teardown} : Step J ⟨max, tasks, w₁ ++ .asleep :: w₂, c, d⟩ none
      ⟨max, tasks, w₁ ++ .looking :: w₂, c, d⟩
  -- `Enqueue`
  | call {max : ℕ} {t : τ} {tasks : List τ} {w : List (Worker τ σ)} {c₁ c₂ : List (Caller τ)}
    {d : Teardown} : Step J ⟨max, tasks, w, c₁ ++ .outside :: c₂, d⟩ (some (.called t))
      ⟨max, tasks, w, c₁ ++ .entering t :: c₂, d⟩
  | push {max : ℕ} {t : τ} {tasks : List τ} {w w' : List (Worker τ σ)} {c₁ c₂ : List (Caller τ)}
    (hroom : tasks.length < max) (hnotify : NotifyOne (cvWorkers τ σ) w w') :
    Step J ⟨max, tasks, w, c₁ ++ .entering t :: c₂, .pending⟩ (some (.accepted t))
      ⟨max, tasks ++ [t], w', c₁ ++ .outside :: c₂, .pending⟩
  | wait {max : ℕ} {t : τ} {tasks : List τ} {w : List (Worker τ σ)} {c₁ c₂ : List (Caller τ)}
    (hfull : max ≤ tasks.length) :
    Step J ⟨max, tasks, w, c₁ ++ .entering t :: c₂, .pending⟩ none
      ⟨max, tasks, w, c₁ ++ .asleep t :: c₂, .pending⟩
  | drop {max : ℕ} {t : τ} {tasks : List τ} {w : List (Worker τ σ)} {c₁ c₂ : List (Caller τ)}
    {d : Teardown} (hstop : d ≠ .pending) :
    Step J ⟨max, tasks, w, c₁ ++ .entering t :: c₂, d⟩ (some (.dropped t))
      ⟨max, tasks, w, c₁ ++ .outside :: c₂, d⟩
  | wakeCaller {max : ℕ} {t : τ} {tasks : List τ} {w : List (Worker τ σ)} {c₁ c₂ : List (Caller τ)}
    {d : Teardown} : Step J ⟨max, tasks, w, c₁ ++ .asleep t :: c₂, d⟩ none
      ⟨max, tasks, w, c₁ ++ .entering t :: c₂, d⟩
  -- `~ThreadPool`
  | stop {max : ℕ} {tasks : List τ} {w : List (Worker τ σ)} {c : List (Caller τ)} :
    Step J ⟨max, tasks, w, c, .pending⟩ none ⟨max, tasks, w, c, .stopped⟩
  | notifyWorkers {max : ℕ} {tasks : List τ} {w : List (Worker τ σ)} {c : List (Caller τ)} :
    Step J ⟨max, tasks, w, c, .stopped⟩ none
      ⟨max, tasks, notifyAll (cvWorkers τ σ) w, c, .workersNotified⟩
  | notifyCallers {max : ℕ} {tasks : List τ} {w : List (Worker τ σ)} {c : List (Caller τ)} :
    Step J ⟨max, tasks, w, c, .workersNotified⟩ none
      ⟨max, tasks, w, notifyAll (cvEnqueue τ) c, .joining⟩
  | join {max : ℕ} {tasks : List τ} {w : List (Worker τ σ)} {c : List (Caller τ)}
    (hreturned : ∀ a ∈ w, a = .returned) :
    Step J ⟨max, tasks, w, c, .joining⟩ none ⟨max, tasks, w, c, .joined⟩

/-- What has happened up to a state of the pool. -/
inductive Run (J : Jobs τ σ) (n callers : ℕ) :
    List (PoolEvent τ) → ThreadPool τ σ → Prop
  | new : Run J n callers [] (new n callers)
  | step {l : List (PoolEvent τ)} {p p' : ThreadPool τ σ} {e : Option (PoolEvent τ)}
    (h : Run J n callers l p) (hstep : Step J p e p') : Run J n callers (l ++ e.toList) p'

/-! ### Wake-ups -/

/-- The workers take tasks, and `Enqueue` notifies them at once. -/
def workGate (p : ThreadPool τ σ) : Gate :=
  ⟨p.tasks.length, (cvWorkers τ σ).count .asleep p.workers, (cvWorkers τ σ).count .alert p.workers, 0⟩

/-- The callers take room in the queue, and a worker notifies them after it has made some. -/
def roomGate (p : ThreadPool τ σ) : Gate :=
  ⟨p.maxQueued - p.tasks.length, (cvEnqueue τ).count .asleep p.callers,
    (cvEnqueue τ).count .alert p.callers, p.workers.countP Worker.isHolding⟩

variable {J : Jobs τ σ} {n callers : ℕ} {p p' : ThreadPool τ σ} {e : Option (PoolEvent τ)}
  {l : List (PoolEvent τ)}

theorem countP_isHolding {w w' : List (Worker τ σ)} (h : NotifyOne (cvWorkers τ σ) w w') :
    w'.countP Worker.isHolding = w.countP Worker.isHolding := by
  have hmap := h.map_eq (f := Worker.isHolding) fun a ha => by
    cases a with
    | asleep => rfl
    | looking | holding | running | returned => cases ha
  have hcount := congrArg (List.countP id) hmap
  rwa [List.countP_map, List.countP_map] at hcount

/-- What a step is for the workers. -/
theorem Step.workMove (h : Step J p e p') : Gate.Move p.workGate p'.workGate := by
  cases h with
  | @pop max t tasks w₁ w₂ c d =>
    have hmove := Gate.Move.take (g := ⟨tasks.length + 1, (cvWorkers τ σ).count .asleep (w₁ ++ w₂),
      (cvWorkers τ σ).count .alert (w₁ ++ w₂) + 1, 0⟩) (Nat.succ_pos _) (Nat.succ_pos _)
    simpa [workGate, Sleepers.count_split] using hmove
  | @sleep max w₁ w₂ c =>
    have hmove := Gate.Move.sleep (g := ⟨0, (cvWorkers τ σ).count .asleep (w₁ ++ w₂),
      (cvWorkers τ σ).count .alert (w₁ ++ w₂) + 1, 0⟩) rfl (Nat.succ_pos _)
    simpa [workGate, Sleepers.count_split] using hmove
  | @leave max w₁ w₂ c d =>
    have hmove := Gate.Move.leave (g := ⟨0, (cvWorkers τ σ).count .asleep (w₁ ++ w₂),
      (cvWorkers τ σ).count .alert (w₁ ++ w₂) + 1, 0⟩) rfl (Nat.succ_pos _)
    simpa [workGate, Sleepers.count_split] using hmove
  | @finish max t s tasks w₁ w₂ c d =>
    have hmove := Gate.Move.arrive ⟨tasks.length, (cvWorkers τ σ).count .asleep (w₁ ++ w₂),
      (cvWorkers τ σ).count .alert (w₁ ++ w₂), 0⟩
    simpa [workGate, Sleepers.count_split] using hmove
  | @wakeWorker max tasks w₁ w₂ c d =>
    have hmove := Gate.Move.wake (g := ⟨tasks.length, (cvWorkers τ σ).count .asleep (w₁ ++ w₂) + 1,
      (cvWorkers τ σ).count .alert (w₁ ++ w₂), 0⟩) (Nat.succ_pos _)
    simpa [workGate, Sleepers.count_split] using hmove
  | @push max t tasks w w' c₁ c₂ hroom hnotify =>
    show Gate.Move _ ⟨(tasks ++ [t]).length, (cvWorkers τ σ).count .asleep w',
      (cvWorkers τ σ).count .alert w', 0⟩
    rw [List.length_append, List.length_singleton, hnotify.wakeOne]
    exact .give _
  | @notifyWorkers max tasks w c =>
    obtain ⟨hasleep, halert⟩ := count_notifyAll (cvWorkers τ σ) w
    show Gate.Move _ ⟨tasks.length, (cvWorkers τ σ).count .asleep (notifyAll (cvWorkers τ σ) w),
      (cvWorkers τ σ).count .alert (notifyAll (cvWorkers τ σ) w), 0⟩
    rw [hasleep, halert]
    exact .wakeAll _
  | notify | work =>
    simp only [workGate, Sleepers.count_split]
    exact .stay _
  | call | wait | drop | wakeCaller | stop | notifyCallers | join => exact .stay _

/-- What a step is for the callers, as long as nobody stops the pool. -/
theorem Step.roomMove (h : Step J p e p') (hroom : p.tasks.length ≤ p.maxQueued)
    (hpending : p.teardown = .pending) : Gate.Move p.roomGate p'.roomGate := by
  cases h with
  | @pop max t tasks w₁ w₂ c d =>
    have hmove := Gate.Move.giveFirst ⟨max - (tasks.length + 1), (cvEnqueue τ).count .asleep c,
      (cvEnqueue τ).count .alert c, (w₁ ++ w₂).countP Worker.isHolding⟩
    have hunits : max - tasks.length = max - (tasks.length + 1) + 1 := by
      change tasks.length + 1 ≤ max at hroom
      omega
    simpa [roomGate, Worker.isHolding, List.countP_cons, hunits, Nat.add_assoc] using hmove
  | @notify max t tasks w₁ w₂ c c' d hnotify =>
    have hmove := Gate.Move.notify (g := ⟨max - tasks.length, (cvEnqueue τ).count .asleep c,
      (cvEnqueue τ).count .alert c, (w₁ ++ w₂).countP Worker.isHolding + 1⟩) (Nat.succ_pos _)
    have hwake := hnotify.wakeOne (max - tasks.length) ((w₁ ++ w₂).countP Worker.isHolding)
    rw [Nat.add_sub_cancel, ← hwake] at hmove
    simpa [roomGate, Worker.isHolding, List.countP_cons, Nat.add_assoc] using hmove
  | @push max t tasks w w' c₁ c₂ hlt hnotify =>
    have hmove := Gate.Move.take (g := ⟨max - tasks.length, (cvEnqueue τ).count .asleep (c₁ ++ c₂),
      (cvEnqueue τ).count .alert (c₁ ++ c₂) + 1, w.countP Worker.isHolding⟩) (Nat.sub_pos_of_lt hlt)
      (Nat.succ_pos _)
    simpa [roomGate, Sleepers.count_split, countP_isHolding hnotify, Nat.sub_sub] using hmove
  | @call max t tasks w c₁ c₂ d =>
    have hmove := Gate.Move.arrive ⟨max - tasks.length, (cvEnqueue τ).count .asleep (c₁ ++ c₂),
      (cvEnqueue τ).count .alert (c₁ ++ c₂), w.countP Worker.isHolding⟩
    simpa [roomGate, Sleepers.count_split] using hmove
  | @wait max t tasks w c₁ c₂ hfull =>
    have hmove := Gate.Move.sleep (g := ⟨max - tasks.length, (cvEnqueue τ).count .asleep (c₁ ++ c₂),
      (cvEnqueue τ).count .alert (c₁ ++ c₂) + 1, w.countP Worker.isHolding⟩)
      (Nat.sub_eq_zero_of_le hfull) (Nat.succ_pos _)
    simpa [roomGate, Sleepers.count_split] using hmove
  | @wakeCaller max t tasks w c₁ c₂ d =>
    have hmove := Gate.Move.wake (g := ⟨max - tasks.length,
      (cvEnqueue τ).count .asleep (c₁ ++ c₂) + 1, (cvEnqueue τ).count .alert (c₁ ++ c₂),
      w.countP Worker.isHolding⟩) (Nat.succ_pos _)
    simpa [roomGate, Sleepers.count_split] using hmove
  | sleep | leave | work | finish | wakeWorker =>
    simp only [roomGate, List.countP_append, List.countP_cons]
    exact .stay _
  | drop hstop => exact absurd hpending hstop
  | notifyWorkers | notifyCallers | join => cases hpending
  | stop => exact .stay _

/-! ### The shape of the pool -/

/-- What the constructor sets stays, and the queue stays within its bound. -/
structure Shape (n : ℕ) (p : ThreadPool τ σ) : Prop where
  maxQueued : p.maxQueued = n
  workers : p.workers.length = n
  room : p.tasks.length ≤ n

theorem Shape.step (h : p.Shape n) (hstep : Step J p e p') : p'.Shape n := by
  obtain ⟨hmax, hworkers, hroom⟩ := h
  have hlength (w : Worker τ σ) (w₁ w₂ : List (Worker τ σ)) :
      (w₁ ++ w :: w₂).length = w₁.length + w₂.length + 1 := by
    rw [List.length_append, List.length_cons, Nat.add_assoc]
  cases hstep with
  | @pop max t tasks w₁ w₂ c d =>
    simp only [hlength, List.length_cons] at hworkers hroom
    exact ⟨hmax, (hlength _ _ _).trans hworkers, Nat.le_of_succ_le hroom⟩
  | sleep | leave | notify | work | finish | wakeWorker =>
    rw [hlength] at hworkers
    exact ⟨hmax, (hlength _ _ _).trans hworkers, hroom⟩
  | @push max t tasks w w' c₁ c₂ hlt hnotify =>
    refine ⟨hmax, ?_, ?_⟩
    · have hmap := congrArg List.length (hnotify.map_eq (f := fun _ => ()) fun _ _ => rfl)
      rw [List.length_map, List.length_map] at hmap
      exact hmap.trans hworkers
    · change max = n at hmax
      show (tasks ++ [t]).length ≤ n
      rw [List.length_append, List.length_singleton]
      omega
  | notifyWorkers => exact ⟨hmax, (List.length_map _).trans hworkers, hroom⟩
  | call | wait | drop | wakeCaller | stop | notifyCallers | join => exact ⟨hmax, hworkers, hroom⟩

theorem Run.shape (h : Run J n callers l p) : p.Shape n := by
  induction h with
  | new => exact ⟨rfl, List.length_replicate, Nat.zero_le _⟩
  | step _ hstep ih => exact ih.step hstep

/-! ### Tasks -/

end ThreadPool

namespace PoolEvent

def calledTask : PoolEvent τ → Option τ
  | called t => some t
  | _ => none

def acceptedTask : PoolEvent τ → Option τ
  | accepted t => some t
  | _ => none

def droppedTask : PoolEvent τ → Option τ
  | dropped t => some t
  | _ => none

def startedTask : PoolEvent τ → Option τ
  | started t => some t
  | _ => none

def finishedTask : PoolEvent τ → Option τ
  | finished t => some t
  | _ => none

end PoolEvent

theorem Worker.task_wake (w : Worker τ σ) (h : (cvWorkers τ σ).phase w = .asleep) :
    ((cvWorkers τ σ).wake w).task = w.task := by
  cases w with
  | asleep => rfl
  | looking | holding | running | returned => cases h

theorem Caller.task_wake (c : Caller τ) (h : (cvEnqueue τ).phase c = .asleep) :
    ((cvEnqueue τ).wake c).task = c.task := by
  cases c with
  | asleep t => rfl
  | outside | entering t => cases h

namespace ThreadPool

variable {J : Jobs τ σ} {n callers : ℕ} {p p' : ThreadPool τ σ} {e : Option (PoolEvent τ)}
  {l : List (PoolEvent τ)}

/-- The tasks that the workers have taken and not finished. -/
def inHands (p : ThreadPool τ σ) : List τ := p.workers.flatMap Worker.task

/-- The tasks that are neither accepted nor dropped. -/
def inCalls (p : ThreadPool τ σ) : List τ := p.callers.flatMap Caller.task

/-- Where the tasks of a run are: what is accepted is started in this order or waits, what is
started is finished or in the hands of a worker, and what is handed to `Enqueue` is accepted,
dropped or still there. -/
structure Accounts (l : List (PoolEvent τ)) (p : ThreadPool τ σ) : Prop where
  queue : l.filterMap PoolEvent.acceptedTask = l.filterMap PoolEvent.startedTask ++ p.tasks
  hands : (l.filterMap PoolEvent.startedTask : Multiset τ) =
    (l.filterMap PoolEvent.finishedTask : Multiset τ) + (p.inHands : Multiset τ)
  calls : (l.filterMap PoolEvent.calledTask : Multiset τ) =
    (l.filterMap PoolEvent.acceptedTask : Multiset τ) +
      (l.filterMap PoolEvent.droppedTask : Multiset τ) + (p.inCalls : Multiset τ)

theorem coe_flatMap_split {α : Type} (f : α → List τ) (l₁ l₂ : List α) (a : α) :
    ((l₁ ++ a :: l₂).flatMap f : Multiset τ) =
      ((l₁ ++ l₂).flatMap f : Multiset τ) + (f a : Multiset τ) := by
  rw [Multiset.coe_add, Multiset.coe_eq_coe, List.flatMap_append, List.flatMap_cons,
    List.flatMap_append, List.append_assoc]
  exact List.perm_append_comm.append_left _

theorem inHands_notify {w w' : List (Worker τ σ)} (h : NotifyOne (cvWorkers τ σ) w w') :
    w'.flatMap Worker.task = w.flatMap Worker.task := by
  rw [List.flatMap_def, h.map_eq Worker.task_wake, List.flatMap_def]

theorem inHands_notifyAll (w : List (Worker τ σ)) :
    (notifyAll (cvWorkers τ σ) w).flatMap Worker.task = w.flatMap Worker.task := by
  rw [List.flatMap_def, map_notifyAll Worker.task_wake, List.flatMap_def]

theorem inCalls_notify {c c' : List (Caller τ)} (h : NotifyOne (cvEnqueue τ) c c') :
    c'.flatMap Caller.task = c.flatMap Caller.task := by
  rw [List.flatMap_def, h.map_eq Caller.task_wake, List.flatMap_def]

theorem inCalls_notifyAll (c : List (Caller τ)) :
    (notifyAll (cvEnqueue τ) c).flatMap Caller.task = c.flatMap Caller.task := by
  rw [List.flatMap_def, map_notifyAll Caller.task_wake, List.flatMap_def]

theorem filterMap_event {α : Type} (f : PoolEvent τ → Option α) (l : List (PoolEvent τ))
    (e : Option (PoolEvent τ)) :
    (l ++ e.toList).filterMap f = l.filterMap f ++ (e.bind f).toList := by
  rw [List.filterMap_append]
  cases e with
  | none => rfl
  | some e =>
    show _ ++ List.filterMap f [e] = _ ++ (f e).toList
    cases hf : f e <;> simp [hf]

/-- After an event the accounts hold if what it adds is made up for. -/
theorem Accounts.of_event
    (hqueue : l.filterMap PoolEvent.acceptedTask ++ (e.bind PoolEvent.acceptedTask).toList =
      l.filterMap PoolEvent.startedTask ++ (e.bind PoolEvent.startedTask).toList ++ p.tasks)
    (hhands : (l.filterMap PoolEvent.startedTask : Multiset τ) +
        ((e.bind PoolEvent.startedTask).toList : Multiset τ) =
      (l.filterMap PoolEvent.finishedTask : Multiset τ) +
        ((e.bind PoolEvent.finishedTask).toList : Multiset τ) + (p.inHands : Multiset τ))
    (hcalls : (l.filterMap PoolEvent.calledTask : Multiset τ) +
        ((e.bind PoolEvent.calledTask).toList : Multiset τ) =
      (l.filterMap PoolEvent.acceptedTask : Multiset τ) +
        ((e.bind PoolEvent.acceptedTask).toList : Multiset τ) +
        ((l.filterMap PoolEvent.droppedTask : Multiset τ) +
          ((e.bind PoolEvent.droppedTask).toList : Multiset τ)) + (p.inCalls : Multiset τ)) :
    p.Accounts (l ++ e.toList) := by
  constructor
  · rwa [filterMap_event, filterMap_event]
  · rwa [filterMap_event, filterMap_event, ← Multiset.coe_add, ← Multiset.coe_add]
  · rwa [filterMap_event, filterMap_event, filterMap_event, ← Multiset.coe_add,
      ← Multiset.coe_add, ← Multiset.coe_add]

theorem Accounts.step (h : p.Accounts l) (hstep : Step J p e p') :
    p'.Accounts (l ++ e.toList) := by
  obtain ⟨hqueue, hhands, hcalls⟩ := h
  refine .of_event ?_ ?_ ?_
  · rw [hqueue]
    cases hstep with
    | _ => simp [PoolEvent.acceptedTask, PoolEvent.startedTask]
  · rw [hhands, inHands, inHands]
    cases hstep with
    | push hlt hnotify =>
      rw [inHands_notify hnotify]
      simp [PoolEvent.startedTask, PoolEvent.finishedTask]
    | notifyWorkers =>
      rw [inHands_notifyAll]
      simp
    | _ =>
      simp only [coe_flatMap_split, Worker.task, PoolEvent.startedTask, PoolEvent.finishedTask,
        Multiset.coe_nil, Option.bind_none, Option.bind_some, Option.toList_none, Option.toList_some]
      abel
  · rw [hcalls, inCalls, inCalls]
    cases hstep with
    | notify hnotify =>
      rw [inCalls_notify hnotify]
      simp
    | notifyCallers =>
      rw [inCalls_notifyAll]
      simp
    | _ =>
      simp only [coe_flatMap_split, Caller.task, PoolEvent.calledTask, PoolEvent.acceptedTask,
        PoolEvent.droppedTask, Multiset.coe_nil, Option.bind_none, Option.bind_some,
        Option.toList_none, Option.toList_some]
      abel

theorem Run.accounts (h : Run J n callers l p) : p.Accounts l := by
  induction h with
  | new =>
    have hhands : (ThreadPool.new n callers : ThreadPool τ σ).inHands = [] :=
      List.flatMap_eq_nil_iff.2 fun w hw => by rw [List.eq_of_mem_replicate hw]; rfl
    have hcalls : (ThreadPool.new n callers : ThreadPool τ σ).inCalls = [] :=
      List.flatMap_eq_nil_iff.2 fun c hc => by rw [List.eq_of_mem_replicate hc]; rfl
    refine ⟨rfl, ?_, ?_⟩
    · rw [hhands]
      rfl
    · rw [hcalls]
      rfl
  | step _ hstep ih => exact ih.step hstep

theorem length_inHands_le (p : ThreadPool τ σ) : p.inHands.length ≤ p.workers.length := by
  unfold inHands
  induction p.workers with
  | nil => exact le_rfl
  | cons w ws ih =>
    have hone : w.task.length ≤ 1 := by
      cases w with
      | holding | running => exact le_rfl
      | looking | asleep | returned => exact Nat.zero_le 1
    rw [List.flatMap_cons, List.length_append, List.length_cons]
    omega

/-- Every task that is accepted is started once, in the order in which the tasks are accepted, and
finished at most once; a task is accepted, dropped or still in its call; and there are at most as many
tasks in the queue and in the hands of workers as there are workers, each. -/
theorem pool_fifo (h : Run J n callers l p) :
    l.filterMap PoolEvent.acceptedTask = l.filterMap PoolEvent.startedTask ++ p.tasks ∧
      (l.filterMap PoolEvent.startedTask).Perm
        (l.filterMap PoolEvent.finishedTask ++ p.inHands) ∧
      (l.filterMap PoolEvent.calledTask).Perm (l.filterMap PoolEvent.acceptedTask ++
        l.filterMap PoolEvent.droppedTask ++ p.inCalls) ∧
      p.tasks.length ≤ n ∧ p.inHands.length ≤ n := by
  obtain ⟨hqueue, hhands, hcalls⟩ := h.accounts
  obtain ⟨-, hworkers, hroom⟩ := h.shape
  refine ⟨hqueue, Multiset.coe_eq_coe.1 hhands, Multiset.coe_eq_coe.1 hcalls, hroom, ?_⟩
  rw [← hworkers]
  exact p.length_inHands_le

/-- Tasks that count down. -/
def countdown : Jobs ℕ ℕ where
  start t := t
  step s s' := s = s' + 1
  ended s := s = 0

/-- One worker runs a task, one task is in the queue, and a caller waits for room. -/
def busyPool : ThreadPool ℕ ℕ := ⟨1, [6], [.running 5 5], [.asleep 7], .pending⟩

def busyEvents : List (PoolEvent ℕ) :=
  [.called 5, .accepted 5, .started 5, .called 6, .accepted 6, .called 7]

theorem run_busyPool : Run countdown 1 1 busyEvents busyPool := by
  have hnew : Run countdown 1 1 [] ⟨1, [], [.looking], [.outside], .pending⟩ := .new
  have hcall5 : Run countdown 1 1 [.called 5] ⟨1, [], [.looking], [.entering 5], .pending⟩ :=
    hnew.step (@Step.call ℕ ℕ countdown 1 5 [] [.looking] [] [] .pending)
  have hpush5 : Run countdown 1 1 [.called 5, .accepted 5] ⟨1, [5], [.looking], [.outside], .pending⟩ :=
    hcall5.step (@Step.push ℕ ℕ countdown 1 5 [] [.looking] [.looking] [] [] (by decide)
      (.nobody (by decide)))
  have hpop : Run countdown 1 1 [.called 5, .accepted 5, .started 5]
      ⟨1, [], [.holding 5], [.outside], .pending⟩ :=
    hpush5.step (@Step.pop ℕ ℕ countdown 1 5 [] [] [] [.outside] .pending)
  have hnotify : Run countdown 1 1 [.called 5, .accepted 5, .started 5]
      ⟨1, [], [.running 5 5], [.outside], .pending⟩ :=
    hpop.step (@Step.notify ℕ ℕ countdown 1 5 [] [] [] [.outside] [.outside] .pending
      (.nobody (by decide)))
  have hcall6 : Run countdown 1 1 [.called 5, .accepted 5, .started 5, .called 6]
      ⟨1, [], [.running 5 5], [.entering 6], .pending⟩ :=
    hnotify.step (@Step.call ℕ ℕ countdown 1 6 [] [.running 5 5] [] [] .pending)
  have hpush6 : Run countdown 1 1 [.called 5, .accepted 5, .started 5, .called 6, .accepted 6]
      ⟨1, [6], [.running 5 5], [.outside], .pending⟩ :=
    hcall6.step (@Step.push ℕ ℕ countdown 1 6 [] [.running 5 5] [.running 5 5] [] [] (by decide)
      (.nobody (by decide)))
  have hcall7 : Run countdown 1 1 busyEvents ⟨1, [6], [.running 5 5], [.entering 7], .pending⟩ :=
    hpush6.step (@Step.call ℕ ℕ countdown 1 7 [6] [.running 5 5] [] [] .pending)
  exact hcall7.step (@Step.wait ℕ ℕ countdown 1 7 [6] [.running 5 5] [] [] (by decide))

theorem pool_fifo_busyPool :
    busyEvents.filterMap PoolEvent.acceptedTask = [5] ++ [6] ∧
      (busyEvents.filterMap PoolEvent.startedTask).Perm ([] ++ [5]) :=
  ⟨(pool_fifo run_busyPool).1, (pool_fifo run_busyPool).2.1⟩

/-! ### Threads that sleep -/

end ThreadPool

/-- Where a worker may be: it returns when there is nothing left to do, sleeps only until the
destructor has woken the workers, and has returned when it is joined. -/
def Worker.Fits (d : Teardown) (tasks : List τ) : Worker τ σ → Prop
  | returned => d ≠ .pending ∧ tasks = []
  | asleep => d = .pending ∨ d = .stopped
  | _ => d ≠ .joined

/-- Where a caller may be: it sleeps only until the destructor has woken the callers. -/
def Caller.Fits (d : Teardown) : Caller τ → Prop
  | asleep _ => d ≠ .joining ∧ d ≠ .joined
  | _ => True

theorem Worker.Fits.mono {d d' : Teardown} {tasks tasks' : List τ} {w : Worker τ σ}
    (h : w.Fits d tasks) (hreturned : d ≠ .pending → tasks = [] → d' ≠ .pending ∧ tasks' = [])
    (hasleep : d = .pending ∨ d = .stopped → d' = .pending ∨ d' = .stopped)
    (hjoined : d ≠ .joined → d' ≠ .joined) : w.Fits d' tasks' := by
  cases w with
  | returned => exact hreturned h.1 h.2
  | asleep => exact hasleep h
  | looking | holding | running => exact hjoined h

theorem Caller.Fits.mono {d d' : Teardown} {c : Caller τ} (h : c.Fits d)
    (hasleep : d ≠ .joining ∧ d ≠ .joined → d' ≠ .joining ∧ d' ≠ .joined) : c.Fits d' := by
  cases c with
  | asleep t => exact hasleep h
  | outside | entering t => trivial

namespace ThreadPool

variable {J : Jobs τ σ} {n callers : ℕ} {p p' : ThreadPool τ σ} {e : Option (PoolEvent τ)}
  {l : List (PoolEvent τ)}

structure Roused (p : ThreadPool τ σ) : Prop where
  workers : ∀ w ∈ p.workers, w.Fits p.teardown p.tasks
  callers : ∀ c ∈ p.callers, c.Fits p.teardown

/-- One of the threads changes, and what holds of it still does. -/
theorem forall_mem_change {α : Type} {P : α → Prop} {l₁ l₂ : List α} {a b : α}
    (h : ∀ x ∈ l₁ ++ a :: l₂, P x) (hchange : P a → P b) : ∀ x ∈ l₁ ++ b :: l₂, P x := by
  rw [List.forall_mem_append, List.forall_mem_cons] at h ⊢
  exact ⟨h.1, hchange h.2.1, h.2.2⟩

theorem fits_notify {c c' : List (Caller τ)} {d : Teardown} (hnotify : NotifyOne (cvEnqueue τ) c c')
    (h : ∀ x ∈ c, x.Fits d) : ∀ x ∈ c', x.Fits d := by
  refine hnotify.forall_mem h fun x hx => ?_
  cases x with
  | asleep t => trivial
  | outside | entering t => cases hx

theorem fits_notifyAll_workers {w : List (Worker τ σ)} {tasks : List τ}
    (h : ∀ x ∈ w, x.Fits .stopped tasks) :
    ∀ x ∈ notifyAll (cvWorkers τ σ) w, x.Fits .workersNotified tasks := by
  intro x hx
  obtain ⟨y, hy, rfl⟩ := List.mem_map.1 hx
  have hfits := h y hy
  cases y with
  | asleep => exact nofun
  | returned => exact ⟨nofun, hfits.2⟩
  | looking | holding | running => exact nofun

theorem fits_notifyAll_callers {c : List (Caller τ)} :
    ∀ x ∈ notifyAll (cvEnqueue τ) c, x.Fits .joining := by
  intro x hx
  obtain ⟨y, -, rfl⟩ := List.mem_map.1 hx
  cases y with
  | asleep t | outside | entering t => trivial

theorem Roused.step (h : p.Roused) (hstep : Step J p e p') : p'.Roused := by
  obtain ⟨hworkers, hcallers⟩ := h
  cases hstep with
  | @pop max t tasks w₁ w₂ c d =>
    have hrest : ∀ w ∈ w₁ ++ .looking :: w₂, w.Fits d tasks := fun w hw =>
      (hworkers w hw).mono (fun _ => nofun) id id
    exact ⟨forall_mem_change hrest id, hcallers⟩
  | sleep => exact ⟨forall_mem_change hworkers fun _ => .inl rfl, hcallers⟩
  | leave hstop => exact ⟨forall_mem_change hworkers fun _ => ⟨hstop, rfl⟩, hcallers⟩
  | notify hnotify => exact ⟨forall_mem_change hworkers id, fits_notify hnotify hcallers⟩
  | work hstep => exact ⟨forall_mem_change hworkers id, hcallers⟩
  | finish hended => exact ⟨forall_mem_change hworkers id, hcallers⟩
  | wakeWorker =>
    refine ⟨forall_mem_change hworkers fun hasleep => ?_, hcallers⟩
    rcases hasleep with rfl | rfl
    · exact nofun
    · exact nofun
  | call => exact ⟨hworkers, forall_mem_change hcallers fun _ => trivial⟩
  | @push max t tasks w w' c₁ c₂ hroom hnotify =>
    have hadded : ∀ x ∈ w, x.Fits .pending (tasks ++ [t]) := fun x hx =>
      (hworkers x hx).mono (fun hstop => absurd rfl hstop) id id
    refine ⟨hnotify.forall_mem hadded fun _ _ => ?_, forall_mem_change hcallers fun _ => trivial⟩
    exact nofun
  | wait => exact ⟨hworkers, forall_mem_change hcallers fun _ => ⟨nofun, nofun⟩⟩
  | drop => exact ⟨hworkers, forall_mem_change hcallers fun _ => trivial⟩
  | wakeCaller => exact ⟨hworkers, forall_mem_change hcallers fun _ => trivial⟩
  | stop =>
    refine ⟨fun w hw => (hworkers w hw).mono (fun hstop => absurd rfl hstop) (fun _ => .inr rfl)
      fun _ => nofun, fun c hc => (hcallers c hc).mono fun _ => ⟨nofun, nofun⟩⟩
  | notifyWorkers =>
    refine ⟨fits_notifyAll_workers hworkers, fun c hc => (hcallers c hc).mono fun _ => ⟨nofun, nofun⟩⟩
  | notifyCallers =>
    refine ⟨fun w hw => (hworkers w hw).mono (fun _ hnil => ⟨nofun, hnil⟩) (fun hasleep => ?_)
      fun _ => nofun, fits_notifyAll_callers⟩
    rcases hasleep with hpending | hstopped
    · cases hpending
    · cases hstopped
  | join hreturned =>
    refine ⟨fun w hw => ?_, fun c hc => (hcallers c hc).mono fun hasleep => absurd rfl hasleep.1⟩
    have hfits := hworkers w hw
    rw [hreturned w hw] at hfits ⊢
    exact ⟨nofun, hfits.2⟩

theorem Run.roused (h : Run J n callers l p) : p.Roused := by
  induction h with
  | new =>
    refine ⟨fun w hw => ?_, fun c hc => ?_⟩
    · rw [List.eq_of_mem_replicate hw]
      exact nofun
    · rw [List.eq_of_mem_replicate hc]
      trivial
  | step _ hstep ih => exact ih.step hstep

theorem Step.pending (h : Step J p e p') (hpending : p'.teardown = .pending) :
    p.teardown = .pending := by
  cases h with
  | stop | notifyWorkers | notifyCallers | join => cases hpending
  | _ => exact hpending

theorem Run.covered (h : Run J n callers l p) :
    p.workGate.Covered ∧ (p.teardown = .pending → p.roomGate.Covered) := by
  induction h with
  | new =>
    have hworkers : (cvWorkers τ σ).count .asleep (List.replicate n .looking) = 0 :=
      Sleepers.count_eq_zero.2 fun w hw => by rw [List.eq_of_mem_replicate hw]; exact nofun
    have hcallers : (cvEnqueue τ).count .asleep (List.replicate callers .outside) = 0 :=
      Sleepers.count_eq_zero.2 fun c hc => by rw [List.eq_of_mem_replicate hc]; exact nofun
    exact ⟨fun hasleep => absurd hworkers hasleep.ne', fun _ hasleep => absurd hcallers hasleep.ne'⟩
  | @step l p p' e h hstep ih =>
    refine ⟨ih.1.move hstep.workMove, fun hpending => ?_⟩
    have hbefore := hstep.pending hpending
    have hshape := h.shape
    exact (ih.2 hbefore).move
      (hstep.roomMove (hshape.room.trans hshape.maxQueued.ge) hbefore)

/-- No thread is about to look at the queue or to notify, and the destructor is not between two of
its notifications. -/
structure Quiet (p : ThreadPool τ σ) : Prop where
  workers : ∀ w ∈ p.workers, w.phase ≠ .alert ∧ w.isHolding = false
  callers : ∀ c ∈ p.callers, c.phase ≠ .alert
  teardown : p.teardown ≠ .stopped ∧ p.teardown ≠ .workersNotified

/-- When no thread is about to do something, a task waits only while all workers run tasks, and a
caller sleeps only while the queue is full besides. -/
theorem pool_awake (h : Run J n callers l p) (hquiet : p.Quiet) :
    (p.tasks ≠ [] → ∀ w ∈ p.workers, ∃ t s, w = .running t s) ∧
      ∀ t, .asleep t ∈ p.callers →
        p.tasks.length = n ∧ ∀ w ∈ p.workers, ∃ t s, w = .running t s := by
  obtain ⟨hmax, hworkers, hroom⟩ := h.shape
  obtain ⟨hwork, hspace⟩ := h.covered
  have hroused := h.roused
  have halert : (cvWorkers τ σ).count .alert p.workers = 0 :=
    Sleepers.count_eq_zero.2 fun w hw => (hquiet.workers w hw).1
  have hrunning (htasks : p.tasks ≠ []) : ∀ w ∈ p.workers, ∃ t s, w = .running t s := by
    have hpos := List.length_pos_iff.2 htasks
    -- a sleeping worker would leave a task without a thread that looks at it
    have hasleep : (cvWorkers τ σ).count .asleep p.workers = 0 := by
      by_contra hne
      have hunits : p.tasks.length ≤ (cvWorkers τ σ).count .alert p.workers + 0 :=
        hwork (Nat.pos_of_ne_zero hne)
      omega
    intro w hw
    have hquietw := hquiet.workers w hw
    have hawake := Sleepers.count_eq_zero.1 hasleep w hw
    cases w with
    | running t s => exact ⟨t, s, rfl⟩
    | looking => exact absurd rfl hquietw.1
    | asleep => exact absurd rfl hawake
    | holding t => cases hquietw.2
    | returned => exact absurd (hroused.workers _ hw).2 htasks
  refine ⟨hrunning, fun t ht => ?_⟩
  have hpending : p.teardown = .pending := by
    have hfits := hroused.callers _ ht
    have hbetween := hquiet.teardown
    cases hteardown : p.teardown with
    | pending => rfl
    | stopped => exact absurd hteardown hbetween.1
    | workersNotified => exact absurd hteardown hbetween.2
    | joining => exact absurd hteardown hfits.1
    | joined => exact absurd hteardown hfits.2
  have hcallers : (cvEnqueue τ).count .alert p.callers = 0 :=
    Sleepers.count_eq_zero.2 hquiet.callers
  have hholding : p.workers.countP Worker.isHolding = 0 :=
    List.countP_eq_zero.2 fun w hw => by simp [(hquiet.workers w hw).2]
  have hasleep : 0 < (cvEnqueue τ).count .asleep p.callers :=
    List.countP_pos_iff.2 ⟨_, ht, rfl⟩
  have hunits : p.maxQueued - p.tasks.length ≤
      (cvEnqueue τ).count .alert p.callers + p.workers.countP Worker.isHolding :=
    hspace hpending hasleep
  refine ⟨by omega, fun w hw => hrunning (fun hnil => ?_) w hw⟩
  have hlength := List.length_pos_of_mem hw
  rw [hnil, List.length_nil] at hunits
  omega

theorem quiet_busyPool : busyPool.Quiet := ⟨by decide, by decide, by decide⟩

theorem pool_awake_busyPool :
    busyPool.tasks.length = 1 ∧ ∀ w ∈ busyPool.workers, ∃ t s, w = .running t s :=
  (pool_awake run_busyPool quiet_busyPool).2 7 (by decide)

/-! ### The end of the pool -/

end ThreadPool

/-- The steps that a worker has before it, when `left` bounds the steps of a task. -/
def Worker.effort (J : Jobs τ σ) (left : σ → ℕ) : Worker τ σ → ℕ
  | looking => 1
  | asleep => 2
  | holding t => left (J.start t) + 3
  | running _ s => left s + 2
  | returned => 0

def Teardown.effort : Teardown → ℕ
  | .pending => 4
  | .stopped => 3
  | .workersNotified => 2
  | .joining => 1
  | .joined => 0

namespace ThreadPool

variable {J : Jobs τ σ} {n callers : ℕ} {p p' : ThreadPool τ σ} {e : Option (PoolEvent τ)}
  {l : List (PoolEvent τ)} {left : σ → ℕ}

/-- The steps that the workers and the destructor of a stopped pool have before them. -/
def remaining (J : Jobs τ σ) (left : σ → ℕ) (p : ThreadPool τ σ) : ℕ :=
  (p.tasks.map fun t => left (J.start t) + 3).sum + (p.workers.map (Worker.effort J left)).sum +
    p.teardown.effort

/-- Nobody but callers has done anything. -/
def OnlyCallers (p p' : ThreadPool τ σ) : Prop := p' = { p with callers := p'.callers }

theorem sum_effort_change (w₁ w₂ : List (Worker τ σ)) (w : Worker τ σ) :
    ((w₁ ++ w :: w₂).map (Worker.effort J left)).sum =
      ((w₁ ++ w₂).map (Worker.effort J left)).sum + w.effort J left := by
  simp only [List.map_append, List.map_cons, List.sum_append, List.sum_cons]
  omega

theorem sum_effort_notifyAll (w : List (Worker τ σ)) :
    ((notifyAll (cvWorkers τ σ) w).map (Worker.effort J left)).sum ≤
      (w.map (Worker.effort J left)).sum := by
  rw [notifyAll, List.map_map]
  refine List.sum_le_sum fun a _ => ?_
  cases a with
  | asleep => exact Nat.le_succ 1
  | looking | holding | running | returned => exact le_rfl

/-- In a pool that is stopped the workers and the destructor come nearer to their end with each of
their steps. -/
theorem Step.remaining_lt (hleft : ∀ s s', J.step s s' → left s' < left s) (h : Step J p e p')
    (hstop : p.Stop) : p.OnlyCallers p' ∨ p'.remaining J left < p.remaining J left := by
  cases h with
  | call | drop | wakeCaller => exact .inl rfl
  | sleep | push | wait | stop => exact absurd rfl hstop
  | pop | leave | notify | finish | wakeWorker =>
    right
    simp only [remaining, sum_effort_change, Worker.effort, List.map_cons, List.sum_cons]
    omega
  | work hstep =>
    right
    have hlt := hleft _ _ hstep
    simp only [remaining, sum_effort_change, Worker.effort]
    omega
  | @notifyWorkers max tasks w c =>
    right
    have hsum : ((notifyAll (cvWorkers τ σ) w).map (Worker.effort J left)).sum ≤ _ :=
      sum_effort_notifyAll w
    simp only [remaining, Teardown.effort]
    omega
  | notifyCallers | join => exact .inr (Nat.lt_succ_self _)

theorem Step.lowers (hleft : ∀ s s', J.step s s' → left s' < left s) (hstop : p.Stop)
    (h : Step J p e p') (hmoved : ¬p.OnlyCallers p') :
    ∃ e p', Step J p e p' ∧ p'.remaining J left < p.remaining J left :=
  ⟨e, p', h, (h.remaining_lt hleft hstop).resolve_left hmoved⟩

/-- A worker that has not returned can do something. -/
theorem exists_workerStep (hends : ∀ s, J.ended s ∨ ∃ s', J.step s s')
    (hleft : ∀ s s', J.step s s' → left s' < left s) (hstop : p.Stop) {w : Worker τ σ}
    (hw : w ∈ p.workers) (hreturned : w ≠ .returned) :
    ∃ e p', Step J p e p' ∧ p'.remaining J left < p.remaining J left := by
  obtain ⟨max, tasks, workers, c, d⟩ := p
  obtain ⟨w₁, w₂, rfl⟩ := List.append_of_mem (show w ∈ workers from hw)
  cases w with
  | looking =>
    cases tasks with
    | nil => exact Step.lowers hleft hstop (.leave hstop) (by simp [OnlyCallers])
    | cons t tasks => exact Step.lowers hleft hstop .pop (by simp [OnlyCallers])
  | asleep => exact Step.lowers hleft hstop .wakeWorker (by simp [OnlyCallers])
  | holding t =>
    obtain ⟨c', hnotify⟩ := exists_notifyOne (cvEnqueue τ) c
    exact Step.lowers hleft hstop (.notify hnotify) (by simp [OnlyCallers])
  | running t s =>
    obtain hended | ⟨s', hstep⟩ := hends s
    · exact Step.lowers hleft hstop (.finish hended) (by simp [OnlyCallers])
    · have hne : s' ≠ s := fun heq => (hleft s s' hstep).ne (congrArg left heq)
      exact Step.lowers hleft hstop (.work hstep) (by simp [OnlyCallers, hne])
  | returned => exact absurd rfl hreturned

/-- A stopped pool is never stuck before its destructor has come to its end. -/
theorem exists_lowering (hends : ∀ s, J.ended s ∨ ∃ s', J.step s s')
    (hleft : ∀ s s', J.step s s' → left s' < left s) (hstop : p.Stop) (hjoined : p.teardown ≠ .joined) :
    ∃ e p', Step J p e p' ∧ p'.remaining J left < p.remaining J left := by
  by_cases hreturned : ∀ w ∈ p.workers, w = .returned
  · obtain ⟨max, tasks, workers, c, d⟩ := p
    cases d with
    | pending => exact absurd rfl hstop
    | stopped => exact Step.lowers hleft hstop .notifyWorkers (by simp [OnlyCallers])
    | workersNotified => exact Step.lowers hleft hstop .notifyCallers (by simp [OnlyCallers])
    | joining => exact Step.lowers hleft hstop (.join hreturned) (by simp [OnlyCallers])
    | joined => exact absurd rfl hjoined
  · push Not at hreturned
    obtain ⟨w, hw, hne⟩ := hreturned
    exact exists_workerStep hends hleft hstop hw hne

/-- When the workers are joined, nothing is left in the queue or in their hands. -/
theorem Run.drained (h : Run J n callers l p) (hjoined : p.teardown = .joined) :
    p.tasks = [] ∧ p.inHands = [] := by
  obtain ⟨-, hworkers, hroom⟩ := h.shape
  have hreturned : ∀ w ∈ p.workers, w = .returned ∧ p.tasks = [] := by
    intro w hw
    have hfits := h.roused.workers w hw
    rw [hjoined] at hfits
    cases w with
    | returned => exact ⟨rfl, hfits.2⟩
    | asleep => exact hfits.elim nofun nofun
    | looking | holding | running => exact absurd rfl hfits
  refine ⟨?_, List.flatMap_eq_nil_iff.2 fun w hw => by rw [(hreturned w hw).1]; rfl⟩
  cases hlist : p.workers with
  | nil =>
    rw [hlist, List.length_nil] at hworkers
    exact List.eq_nil_of_length_eq_zero (by omega)
  | cons w ws => exact (hreturned w (by simp [hlist])).2

/-- The destructor comes to its end when the tasks do: as long as it has not, some worker or the
destructor itself can do a step, each such step brings the end nearer, and callers do not put it off.
When it has come to its end, the tasks that were accepted are the ones that are finished. -/
theorem pool_joins (hends : ∀ s, J.ended s ∨ ∃ s', J.step s s')
    (hleft : ∀ s s', J.step s s' → left s' < left s) (h : Run J n callers l p) (hstop : p.Stop) :
    (p.teardown ≠ .joined → ∃ e p', Step J p e p' ∧ p'.remaining J left < p.remaining J left) ∧
      (∀ e p', Step J p e p' →
        p.OnlyCallers p' ∨ p'.remaining J left < p.remaining J left) ∧
      (p.teardown = .joined →
        (l.filterMap PoolEvent.acceptedTask).Perm (l.filterMap PoolEvent.finishedTask)) := by
  refine ⟨exists_lowering hends hleft hstop, fun e p' hstep => hstep.remaining_lt hleft hstop,
    fun hjoined => ?_⟩
  obtain ⟨hqueue, hhands, -⟩ := h.accounts
  obtain ⟨htasks, hnone⟩ := h.drained hjoined
  rw [hnone] at hhands
  rw [htasks, List.append_nil] at hqueue
  rw [hqueue, ← Multiset.coe_eq_coe, hhands]
  exact add_zero _

theorem pool_joins_busyPool :
    ∃ e p', Step countdown { busyPool with teardown := .stopped } e p' ∧ p'.remaining countdown id <
      ThreadPool.remaining countdown id { busyPool with teardown := .stopped } := by
  have hends (s : ℕ) : countdown.ended s ∨ ∃ s', countdown.step s s' :=
    s.eq_zero_or_eq_succ_pred.imp id fun hs => ⟨s.pred, hs⟩
  have hleft (s s' : ℕ) (hstep : countdown.step s s') : id s' < id s :=
    (Nat.lt_succ_self s').trans_eq (show s = s' + 1 from hstep).symm
  have hrun : Run countdown 1 1 busyEvents { busyPool with teardown := .stopped } :=
    run_busyPool.step .stop
  exact (pool_joins hends hleft hrun nofun).1 nofun

end ThreadPool

end

/-! ### The memory budget -/

def kMaxTcpWorkersHardCap : ℕ := 8

def kSystemReserve : ℕ := 256 <<< 20

/-- The number of gigabits in the property of the device tree, which has the high byte first. -/
def sdramGbit (raw : Option (List Byte)) : Option Word :=
  match raw with
  | some (b₀ :: b₁ :: b₂ :: b₃ :: _) =>
    let gbit : Word := b₀ ++ b₁ ++ b₂ ++ b₃
    if gbit = 0 then none else some gbit
  | _ => none

/-- The memory for staging buffers.  The product stays below 2^64 for every number of 32 bits. -/
def stagingBudget (gbit : Word) : ℕ := gbit.toNat * 1000 * 1000 * 1000 / 8 - kSystemReserve

/-- `GetMaxTcpWorkers`, of the contents of the property, if it can be read. -/
def getMaxTcpWorkers (raw : Option (List Byte)) : ℕ :=
  match sdramGbit raw with
  | none => 2
  | some gbit =>
    max 1 (min (stagingBudget gbit / FastbootDevice.kMaxDownloadSizeDefault) kMaxTcpWorkersHardCap)

/-- The workers are as many as there is memory for, but at least one. -/
theorem getMaxTcpWorkers_mul_le {raw : Option (List Byte)} {gbit : Word}
    (hraw : sdramGbit raw = some gbit) :
    getMaxTcpWorkers raw * FastbootDevice.kMaxDownloadSizeDefault ≤
      max (stagingBudget gbit) FastbootDevice.kMaxDownloadSizeDefault := by
  rw [getMaxTcpWorkers, hraw]
  show max 1 (min (stagingBudget gbit / _) _) * _ ≤ _
  rw [← Nat.mul_max_mul_right, Nat.one_mul, max_comm]
  refine max_le_max_right _ ?_
  exact (Nat.mul_le_mul_right _ (min_le_left _ _)).trans (Nat.div_mul_le_self _ _)

section

variable {τ σ : Type}

/-- When the board says how much memory it has, the staging buffers of all tasks that are worked on
fit into what it leaves for them, or there is only one. -/
theorem ThreadPool.pool_within_budget {J : Jobs τ σ} {raw : Option (List Byte)} {gbit : Word}
    {callers : ℕ} {l : List (PoolEvent τ)} {p : ThreadPool τ σ} {staging : τ → ℕ}
    (hraw : sdramGbit raw = some gbit) (h : Run J (getMaxTcpWorkers raw) callers l p)
    (hstaging : ∀ t, staging t ≤ FastbootDevice.kMaxDownloadSizeDefault) :
    (p.inHands.map staging).sum ≤
      max (stagingBudget gbit) FastbootDevice.kMaxDownloadSizeDefault := by
  have hlength : p.inHands.length ≤ getMaxTcpWorkers raw :=
    p.length_inHands_le.trans h.shape.workers.le
  calc (p.inHands.map staging).sum
      ≤ (p.inHands.map staging).length * FastbootDevice.kMaxDownloadSizeDefault :=
        List.sum_le_card_nsmul _ _ fun s hs => by
          obtain ⟨t, -, rfl⟩ := List.mem_map.1 hs
          exact hstaging t
    _ ≤ getMaxTcpWorkers raw * FastbootDevice.kMaxDownloadSizeDefault := by
        rw [List.length_map]
        exact Nat.mul_le_mul_right _ hlength
    _ ≤ _ := getMaxTcpWorkers_mul_le hraw

theorem ThreadPool.pool_within_budget_busyPool :
    (busyPool.inHands.map fun _ => FastbootDevice.kMaxDownloadSizeDefault).sum ≤
      max (stagingBudget 4) FastbootDevice.kMaxDownloadSizeDefault := by
  have hworkers : getMaxTcpWorkers (some [0, 0, 0, 4]) = 1 := by decide
  have hrun : Run countdown (getMaxTcpWorkers (some [0, 0, 0, 4])) 1 busyEvents busyPool := by
    rw [hworkers]
    exact run_busyPool
  exact pool_within_budget (by decide) hrun fun _ => le_rfl

end

end RpiFastbootd
