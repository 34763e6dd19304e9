import Mathlib.Algebra.Order.Ring.Int
import RpiFastbootd.Lib.Bytes
import RpiFastbootd.Lib.Ring
import RpiFastbootd.Lib.Runs

/-!
# Transfers over io_uring

`usb_ffs_do_aio` cuts a transfer into requests, prepares as many as there is room for, submits them
and sees their completions, batch by batch.  The kernel takes what it takes of a submit, and
completes what it has taken while the code runs or waits.

A run of a transfer is a list of inputs: the steps of the code, up to its next call of the ring,
the outcomes of these calls, and the completions of the kernel in between.
-/

namespace RpiFastbootd

/-- An entry of the submission queue: where its part of the buffer starts, and how long it is. -/
structure Sqe where
  offset : ℕ
  length : ℕ
  deriving DecidableEq, Repr

/-- The sum of two `int`s. -/
def addInt (a b : ℤ) : ℤ := (a + b).bmod (2 ^ 32)

def divRoundup (x y : ℤ) : ℤ := (addInt x (y - 1)).tdiv y

/-- The arguments of a transfer, with the request size of its handle. -/
structure Aio where
  read : Bool
  len : ℕ
  ioSize : ℕ
  len_lt : len < 2 ^ 31
  ioSize_pos : 0 < ioSize
  ioSize_lt : ioSize < 2 ^ 31

inductive AioPc
  | loop
  | submit
  | wait
  | peek
  | returned (value : ℤ)
  deriving DecidableEq, Repr

/-- The variables of a transfer, with its ring.  The rest is the kernel's: how far the stream of the
endpoint has been read, what has been written to the buffer, and the requests completed so far. -/
structure AioState where
  pc : AioPc := .loop
  bytesQueued : ℕ := 0
  sqesSubmitted : ℕ := 0
  sqesCompleted : ℕ := 0
  res : ℤ := 0
  success : Bool := true
  ring : Ring Sqe ℤ
  position : ℕ := 0
  memory : ℕ → Option Byte := fun _ => none
  served : List (Sqe × ℤ) := []

inductive AioInput
  /-- The code goes on to its next call. -/
  | run
  /-- `io_uring_submit` returns the number of entries that the kernel has taken. -/
  | submitted (accepted : ℕ)
  | submitFailed
  /-- `io_uring_wait_cqe` or `io_uring_peek_cqe` brings a completion. -/
  | seen
  | waitFailed
  /-- The kernel completes a request. -/
  | completes (i : ℕ) (result : ℤ)
  deriving DecidableEq, Repr

namespace AioState

def inFlight (s : AioState) : ℤ := s.sqesSubmitted - s.sqesCompleted

/-- The end of the function. -/
def finish (s : AioState) : AioState :=
  { s with pc := .returned (if s.success then s.res else -1) }

/-- Nothing in flight is the end, else there is a completion to wait for. -/
def await (s : AioState) : AioState := if s.inFlight ≤ 0 then s.finish else { s with pc := .wait }

/-- The first completion is taken off the ring and counted. -/
def see (s : AioState) (result : ℤ) (rest : List ℤ) : AioState :=
  { s with
    pc := .peek
    success := s.success && decide (0 ≤ result)
    res := if result < 0 then s.res else addInt s.res result
    ring := { s.ring with completions := rest }
    sqesCompleted := s.sqesCompleted + 1 }

end AioState

namespace Aio

def totalRequests (a : Aio) : ℤ := divRoundup a.len a.ioSize

/-- The inner loop, with the room that is left; an entry is there where room is. -/
def queue (a : Aio) : ℕ → AioState → AioState
  | 0, s => s
  | room + 1, s =>
    if (s.sqesSubmitted : ℤ) < a.totalRequests then
      let bufLen := min (a.len - s.bytesQueued) a.ioSize
      queue a room { s with
        ring := s.ring.prepare ⟨s.bytesQueued, bufLen⟩
        bytesQueued := s.bytesQueued + bufLen
        sqesSubmitted := s.sqesSubmitted + 1 }
    else s

/-- A turn of the outer loop, up to its submit or its wait. -/
def turn (a : Aio) (s : AioState) : AioState :=
  if (s.sqesCompleted : ℤ) < a.totalRequests then
    if s.success ∧ s.inFlight = 0 then
      let queued := a.queue s.ring.spaceLeft s
      if s.sqesSubmitted < queued.sqesSubmitted then { queued with pc := .submit }
      else queued.await
    else s.await
  else s.finish

/-- The kernel completes the request `q`, the `i`-th that it holds; of a read the bytes of the stream
go to its part of the buffer. -/
def serve (a : Aio) (stream : ℕ → Byte) (s : AioState) (i : ℕ) (q : Sqe) (result : ℤ) : AioState :=
  { s with
    ring := s.ring.complete i result
    served := s.served ++ [(q, result)]
    position := s.position + result.toNat
    memory := fun j =>
      if a.read ∧ q.offset ≤ j ∧ j < q.offset + result.toNat then
        some (stream (s.position + (j - q.offset)))
      else s.memory j }

def step (a : Aio) (stream : ℕ → Byte) (s : AioState) : AioInput → Option (Unit × AioState)
  | .run =>
    match s.pc with
    | .loop => some ((), a.turn s)
    | .peek =>
      if 0 < s.inFlight ∧ s.ring.completions ≠ [] then none else some ((), { s with pc := .loop })
    | _ => none
  | .submitted n =>
    if s.pc = .submit ∧ n ≤ s.ring.pending.length then
      let s : AioState := { s with ring := s.ring.accept n }
      if n = 0 ∧ s.inFlight = 0 then some ((), { s with pc := .returned (-1) })
      else some ((), s.await)
    else none
  | .submitFailed =>
    if s.pc = .submit then
      if s.inFlight = 0 then some ((), { s with pc := .returned (-1) })
      else some ((), { s with success := false }.await)
    else none
  | .seen =>
    match s.ring.completions with
    | [] => none
    | result :: rest =>
      if s.pc = .wait ∨ s.pc = .peek ∧ 0 < s.inFlight then
        some ((), s.see result rest)
      else none
  | .waitFailed => if s.pc = .wait then some ((), { s with pc := .returned (-1) }) else none
  | .completes i result => (s.ring.kernel[i]?).map fun q => ((), a.serve stream s i q result)

/-- What an input can do. -/
inductive Moves (a : Aio) (stream : ℕ → Byte) (s : AioState) : AioInput → AioState → Prop
  | turn (hpc : s.pc = .loop) : Moves a stream s .run (a.turn s)
  | drained (hpc : s.pc = .peek) : Moves a stream s .run { s with pc := .loop }
  | submitted (n : ℕ) (hpc : s.pc = .submit) (hn : n ≤ s.ring.pending.length) :
    Moves a stream s (.submitted n) ({ s with ring := s.ring.accept n } : AioState).await
  | refused (hpc : s.pc = .submit) (hnone : s.inFlight = 0) :
    Moves a stream s (.submitted 0) { s with ring := s.ring.accept 0, pc := .returned (-1) }
  | submitFailed (hpc : s.pc = .submit) :
    Moves a stream s .submitFailed ({ s with success := false } : AioState).await
  | unsubmitted (hpc : s.pc = .submit) (hnone : s.inFlight = 0) :
    Moves a stream s .submitFailed { s with pc := .returned (-1) }
  | seen (result : ℤ) (rest : List ℤ) (hc : s.ring.completions = result :: rest)
    (hpc : s.pc = .wait ∨ s.pc = .peek) : Moves a stream s .seen (s.see result rest)
  | waitFailed (hpc : s.pc = .wait) : Moves a stream s .waitFailed { s with pc := .returned (-1) }
  | completes (i : ℕ) (result : ℤ) (q : Sqe) (hq : s.ring.kernel[i]? = some q) :
    Moves a stream s (.completes i result) (a.serve stream s i q result)

theorem moves_of_step {a : Aio} {stream : ℕ → Byte} {s s' : AioState} {input : AioInput}
    (hs : a.step stream s input = some ((), s')) : a.Moves stream s input s' := by
  unfold step at hs
  cases input with
  | run =>
    dsimp only at hs
    split at hs
    · rename_i hpc
      cases hs
      exact .turn hpc
    · rename_i hpc
      split_ifs at hs
      cases hs
      exact .drained hpc
    · cases hs
  | submitted n =>
    dsimp only at hs
    split_ifs at hs with hpc hnone
    · cases hs
      obtain ⟨rfl, hnone⟩ := hnone
      exact .refused hpc.1 hnone
    · cases hs
      exact .submitted n hpc.1 hpc.2
  | submitFailed =>
    dsimp only at hs
    split_ifs at hs with hpc hnone
    · cases hs
      exact .unsubmitted hpc hnone
    · cases hs
      exact .submitFailed hpc
  | seen =>
    dsimp only at hs
    split at hs
    · cases hs
    · rename_i result rest hc
      split_ifs at hs with hpc
      cases hs
      exact .seen result rest hc (hpc.imp_right And.left)
  | waitFailed =>
    dsimp only at hs
    split_ifs at hs with hpc
    cases hs
    exact .waitFailed hpc
  | completes i result =>
    obtain ⟨q, hq, heq⟩ := Option.map_eq_some_iff.1 hs
    cases heq
    exact .completes i result q hq

/-- The next requests of a transfer, after those for the first bytes of the buffer. -/
def requestsFrom (a : Aio) : ℕ → ℕ → List Sqe
  | _, 0 => []
  | done, n + 1 =>
    ⟨done, min (a.len - done) a.ioSize⟩ ::
      requestsFrom a (done + min (a.len - done) a.ioSize) n

theorem length_requestsFrom (a : Aio) (done n : ℕ) : (a.requestsFrom done n).length = n := by
  induction n generalizing done with
  | zero => rfl
  | succ n ih => simp [requestsFrom, ih]

/-- The inner loop prepares the next requests and counts them. -/
theorem queue_eq (a : Aio) (room : ℕ) (s : AioState) : ∃ n, a.queue room s = { s with
    ring := { s.ring with pending := s.ring.pending ++ a.requestsFrom s.bytesQueued n }
    bytesQueued := s.bytesQueued + ((a.requestsFrom s.bytesQueued n).map Sqe.length).sum
    sqesSubmitted := s.sqesSubmitted + n } := by
  induction room generalizing s with
  | zero => exact ⟨0, by simp [queue, requestsFrom]⟩
  | succ room ih =>
    rw [queue]
    split_ifs
    · obtain ⟨n, hn⟩ := ih { s with
        ring := s.ring.prepare ⟨s.bytesQueued, min (a.len - s.bytesQueued) a.ioSize⟩
        bytesQueued := s.bytesQueued + min (a.len - s.bytesQueued) a.ioSize
        sqesSubmitted := s.sqesSubmitted + 1 }
      refine ⟨n + 1, ?_⟩
      dsimp only
      rw [hn]
      simp [requestsFrom, Ring.prepare, Nat.add_assoc, Nat.add_comm 1]
    · exact ⟨0, by simp [requestsFrom]⟩

/-- The transfer on a new ring, with the inputs it takes. -/
abbrev run (a : Aio) (stream : ℕ → Byte) (depth : ℕ) (inputs : List AioInput) :
    List (Event AioState AioInput Unit) :=
  runs (a.step stream) { ring := { entries := depth } } inputs

end Aio

/-! ### What is in flight -/

namespace AioState

variable {s : AioState}

/-- Every request that is prepared and not seen completed is in the ring. -/
def Counted (s : AioState) : Prop := (s.ring.size : ℤ) = s.inFlight

/-- So it is between the steps; a submit has something to submit, and a wait something to wait
for. -/
structure Balanced (s : AioState) : Prop where
  counted : s.Counted
  submit : s.pc = .submit → s.ring.pending ≠ []
  wait : s.pc = .wait → 0 < s.inFlight

theorem Counted.finish (h : s.Counted) : s.finish.Balanced :=
  ⟨h, fun hpc => (by cases hpc), fun hpc => (by cases hpc)⟩

theorem Counted.await (h : s.Counted) : s.await.Balanced := by
  unfold AioState.await
  split_ifs with hnone
  · exact h.finish
  · exact ⟨h, fun hpc => (by cases hpc), fun _ => not_le.1 hnone⟩

theorem Counted.see (h : s.Counted) {result : ℤ} {rest : List ℤ}
    (hc : s.ring.completions = result :: rest) : (s.see result rest).Balanced := by
  have hsize := Ring.size_of_completions hc
  refine ⟨?_, fun hpc => (by cases hpc), fun hpc => (by cases hpc)⟩
  unfold AioState.Counted AioState.inFlight at h ⊢
  show (({ s.ring with completions := rest } : Ring Sqe ℤ).size : ℤ) = _
  simp only [AioState.see]
  push_cast
  omega

end AioState

namespace Aio

variable {a : Aio} {stream : ℕ → Byte} {s s' : AioState}

theorem queue_counted (h : s.Counted) (room : ℕ) : (a.queue room s).Counted := by
  obtain ⟨n, hn⟩ := a.queue_eq room s
  have hlength := a.length_requestsFrom s.bytesQueued n
  rw [hn]
  unfold AioState.Counted AioState.inFlight Ring.size at h ⊢
  simp only [List.length_append, hlength]
  push_cast at h ⊢
  omega

/-- What has been counted is to be submitted. -/
theorem pending_of_queued {room : ℕ} (h : s.sqesSubmitted < (a.queue room s).sqesSubmitted) :
    (a.queue room s).ring.pending ≠ [] := by
  obtain ⟨n, hn⟩ := a.queue_eq room s
  rw [hn] at h ⊢
  intro hnil
  have hlength := congrArg List.length hnil
  simp only [List.length_append, length_requestsFrom, List.length_nil] at hlength
  dsimp only at h
  omega

theorem queue_of_not_queued {room : ℕ} (h : ¬ s.sqesSubmitted < (a.queue room s).sqesSubmitted) :
    (a.queue room s).ring.pending = s.ring.pending := by
  obtain ⟨n, hn⟩ := a.queue_eq room s
  rw [hn] at h ⊢
  obtain rfl : n = 0 := by
    dsimp only at h
    omega
  exact List.append_nil _

theorem turn_balanced (h : s.Counted) : (a.turn s).Balanced := by
  unfold turn
  dsimp only
  split_ifs with _ _ hqueued
  · exact ⟨queue_counted h _, fun _ => pending_of_queued hqueued, fun hpc => (by cases hpc)⟩
  · exact (queue_counted h _).await
  · exact h.await
  · exact h.finish

theorem serve_balanced (h : s.Balanced) {i : ℕ} {result : ℤ} {q : Sqe}
    (hq : s.ring.kernel[i]? = some q) : (a.serve stream s i q result).Balanced := by
  have hi : i < s.ring.kernel.length := (List.getElem?_eq_some_iff.1 hq).1
  refine ⟨?_, h.submit, h.wait⟩
  have := h.counted
  unfold AioState.Counted at this ⊢
  show ((s.ring.complete i result).size : ℤ) = _
  rw [Ring.size_complete hi]
  exact this

theorem accept_counted (h : s.Counted) (n : ℕ) :
    ({ s with ring := s.ring.accept n } : AioState).Counted := by
  unfold AioState.Counted at h ⊢
  show ((s.ring.accept n).size : ℤ) = _
  rw [Ring.size_accept]
  exact h

/-- Every step keeps the count. -/
theorem step_balanced (h : s.Balanced) {input : AioInput}
    (hs : a.step stream s input = some ((), s')) : s'.Balanced := by
  have hreturned : ({ s with pc := .returned (-1) } : AioState).Balanced :=
    ⟨h.counted, fun hpc => (by cases hpc), fun hpc => (by cases hpc)⟩
  cases moves_of_step hs with
  | turn hpc => exact turn_balanced h.counted
  | drained hpc => exact ⟨h.counted, fun hpc => (by cases hpc), fun hpc => (by cases hpc)⟩
  | submitted n hpc hn => exact (accept_counted h.counted n).await
  | refused hpc hnone =>
    exact ⟨accept_counted h.counted 0, fun hpc => (by cases hpc), fun hpc => (by cases hpc)⟩
  | submitFailed hpc => exact AioState.Counted.await h.counted
  | unsubmitted hpc hnone => exact hreturned
  | seen result rest hc hpc => exact h.counted.see hc
  | waitFailed hpc => exact hreturned
  | completes i result q hq => exact serve_balanced h hq

end Aio

/-! ### Submits that are taken whole -/

/-- The kernel takes all that is pending at a submit. -/
def FullSubmit (e : Event AioState AioInput Unit) : Prop :=
  match e.input with
  | .submitted n => n = e.before.ring.pending.length
  | .submitFailed => False
  | _ => True

namespace AioState

variable {s : AioState}

/-- Nothing has been prepared and not been taken, except where a submit is next. -/
def Flushed (s : AioState) : Prop := s.pc ≠ .submit → s.ring.pending = []

/-- Whenever the code waits, what it takes to be in flight is with the kernel or completed, and a
wait that blocks waits for a request that the kernel holds. -/
def WaitSound (s : AioState) : Prop :=
  s.pc = .wait → s.inFlight ≤ s.ring.kernel.length + s.ring.completions.length ∧
    (s.ring.completions = [] → 0 < s.ring.kernel.length)

theorem Balanced.waitSound_iff (h : s.Balanced) (hpc : s.pc = .wait) :
    s.WaitSound ↔ s.ring.pending = [] := by
  have hcounted := h.counted
  have hpos := h.wait hpc
  unfold Counted Ring.size at hcounted
  push_cast at hcounted
  rw [← List.length_eq_zero_iff]
  constructor
  · intro hsound
    have := (hsound hpc).1
    omega
  · refine fun hnil _ => ⟨by omega, fun hc => ?_⟩
    have := congrArg List.length hc
    rw [List.length_nil] at this
    omega

theorem flushed_await (h : s.ring.pending = []) : s.await.Flushed := by
  intro _
  unfold AioState.await
  split_ifs
  · exact h
  · exact h

end AioState

namespace Aio

variable {a : Aio} {stream : ℕ → Byte} {s s' : AioState}

theorem turn_flushed (h : s.ring.pending = []) : (a.turn s).Flushed := by
  unfold turn
  dsimp only
  split_ifs with _ _ hqueued
  · exact fun hpc => absurd rfl hpc
  · exact AioState.flushed_await ((queue_of_not_queued hqueued).trans h)
  · exact AioState.flushed_await h
  · exact fun _ => h

/-- A step in which a submit is taken whole leaves nothing pending. -/
theorem step_flushed (h : s.Flushed) {input : AioInput}
    (hs : a.step stream s input = some ((), s')) (hfull : FullSubmit ⟨s, input, (), s'⟩) :
    s'.Flushed := by
  cases moves_of_step hs with
  | turn hpc => exact turn_flushed (h (by rw [hpc]; decide))
  | drained hpc => exact fun _ => h (by rw [hpc]; decide)
  | submitted n hpc hn =>
    obtain rfl : n = s.ring.pending.length := hfull
    exact AioState.flushed_await List.drop_length
  | refused hpc hnone =>
    have hnil : s.ring.pending = [] := List.length_eq_zero_iff.1 (Eq.symm hfull)
    exact fun _ => hnil
  | submitFailed hpc => exact hfull.elim
  | unsubmitted hpc hnone => exact hfull.elim
  | seen result rest hc hpc =>
    refine fun _ => h ?_
    rcases hpc with hpc | hpc <;> rw [hpc] <;> decide
  | waitFailed hpc => exact fun _ => h (by rw [hpc]; decide)
  | completes i result q hq => exact h

theorem inFlight_pos (h : s.Balanced) (hne : s.ring.pending ≠ []) : 0 < s.inFlight := by
  have hcounted := h.counted
  have hpos := List.length_pos_iff.2 hne
  unfold AioState.Counted Ring.size at hcounted
  push_cast at hcounted
  omega

theorem await_of_inFlight (h : 0 < s.inFlight) : s.await = { s with pc := .wait } :=
  if_neg (not_le.2 h)

/-- After a submit that is not taken whole the code waits, with something pending. -/
theorem wait_of_not_full (h : s.Balanced) {input : AioInput}
    (hs : a.step stream s input = some ((), s')) (hfull : ¬ FullSubmit ⟨s, input, (), s'⟩) :
    s'.pc = .wait ∧ s'.ring.pending ≠ [] := by
  have hpos : s.pc = .submit → 0 < s.inFlight := fun hpc => inFlight_pos h (h.submit hpc)
  cases moves_of_step hs with
  | submitted n hpc hn =>
    rw [@await_of_inFlight { s with ring := s.ring.accept n } (hpos hpc)]
    refine ⟨rfl, fun hnil => hfull ?_⟩
    have hlength := congrArg List.length hnil
    simp only [Ring.accept, List.length_drop, List.length_nil] at hlength
    show n = s.ring.pending.length
    omega
  | submitFailed hpc =>
    rw [@await_of_inFlight { s with success := false } (hpos hpc)]
    exact ⟨rfl, h.submit hpc⟩
  | refused hpc hnone => exact absurd hnone (hpos hpc).ne'
  | unsubmitted hpc hnone => exact absurd hnone (hpos hpc).ne'
  | _ => exact absurd trivial hfull

theorem balanced_new (depth : ℕ) : ({ ring := { entries := depth } } : AioState).Balanced :=
  ⟨rfl, fun hpc => (by cases hpc), fun hpc => (by cases hpc)⟩

/-- A run knows the state and the step of each of its events. -/
theorem balanced_of_mem {depth : ℕ} {inputs : List AioInput} {e : Event AioState AioInput Unit}
    (he : e ∈ a.run stream depth inputs) :
    e.before.Balanced ∧ a.step stream e.before e.input = some ((), e.after) := by
  obtain ⟨h, rest, hrun⟩ := List.append_of_mem he
  exact @runs_invariant _ _ _ _ (fun _ s => s.Balanced)
    (fun _ _ _ _ _ hb hs => step_balanced hb hs) _ _ (balanced_new depth) _ _ _ hrun

theorem flushed_of_mem {depth : ℕ} {inputs : List AioInput} {e : Event AioState AioInput Unit}
    (hfull : ∀ e ∈ a.run stream depth inputs, FullSubmit e)
    (he : e ∈ a.run stream depth inputs) : e.before.Flushed := by
  obtain ⟨h, rest, hrun⟩ := List.append_of_mem he
  exact (@runs_invariant_of _ _ _ _ FullSubmit (fun _ s => s.Flushed)
    (fun _ _ _ _ _ hf hs hP => step_flushed hf hs hP) _ _ [] (fun _ => rfl) hfull _ _ _ hrun).1

/-- In a run every wait is sound exactly if every submit is taken whole. -/
theorem waits_sound_iff (a : Aio) (stream : ℕ → Byte) (depth : ℕ) (inputs : List AioInput) :
    (∀ e ∈ a.run stream depth inputs, e.after.WaitSound) ↔
      ∀ e ∈ a.run stream depth inputs, FullSubmit e := by
  constructor
  · intro h e he
    obtain ⟨hb, hs⟩ := balanced_of_mem he
    by_contra hfull
    obtain ⟨hpc, hne⟩ := wait_of_not_full hb hs hfull
    exact hne (((step_balanced hb hs).waitSound_iff hpc).1 (h e he))
  · intro hfull e he hpc
    obtain ⟨hb, hs⟩ := balanced_of_mem he
    have hflushed : e.after.Flushed := step_flushed (flushed_of_mem hfull he) hs (hfull e he)
    exact ((step_balanced hb hs).waitSound_iff hpc).2 (hflushed (by rw [hpc]; decide)) hpc

/-- A wait that blocks with nothing in the kernel only ends by an error. -/
theorem waitFailed_of_stuck (hpc : s.pc = .wait) (hkernel : s.ring.kernel = [])
    (hc : s.ring.completions = []) {input : AioInput}
    (hs : a.step stream s input = some ((), s')) : input = .waitFailed := by
  cases moves_of_step hs with
  | waitFailed _ => rfl
  | seen result rest hnone _ => rw [hc] at hnone; cases hnone
  | completes i result q hq => rw [hkernel] at hq; cases hq
  | turn h | drained h | submitted _ h _ | refused h _ | submitFailed h | unsubmitted h _ =>
    rw [hpc] at h
    cases h

/-- Two requests of one byte. -/
def twoRequests : Aio where
  read := true
  len := 2
  ioSize := 1
  len_lt := by decide
  ioSize_pos := by decide
  ioSize_lt := by decide

/-- What a run on two entries ends with: where it is, what is in flight, and the stages of the
ring. -/
def ending (inputs : List AioInput) : Option (AioPc × ℤ × ℕ × ℕ × ℕ) :=
  (twoRequests.run (fun _ => 0) 2 inputs).getLast?.map fun e =>
    (e.after.pc, e.after.inFlight, e.after.ring.pending.length, e.after.ring.kernel.length,
      e.after.ring.completions.length)

theorem not_waitSound_of_ending {inputs : List AioInput} {inFlight : ℤ} {pending : ℕ}
    (h : ending inputs = some (.wait, inFlight, pending, 0, 0)) :
    ¬ ∀ e ∈ twoRequests.run (fun _ => 0) 2 inputs, e.after.WaitSound := by
  intro hsound
  obtain ⟨e, hlast, heq⟩ := Option.map_eq_some_iff.1 h
  simp only [Prod.mk.injEq] at heq
  obtain ⟨hpc, -, -, hkernel, hc⟩ := heq
  have hpos := (hsound e (List.mem_of_getLast? hlast) hpc).2 (List.length_eq_zero_iff.1 hc)
  exact absurd hkernel hpos.ne'

/-- After a submit that fails or takes nothing, and after the completion of the only request that
was taken, the code waits while the kernel holds nothing. -/
theorem stuck_after_short_submit :
    (¬ ∀ e ∈ twoRequests.run (fun _ => 0) 2 [.run, .submitFailed], e.after.WaitSound) ∧
      (¬ ∀ e ∈ twoRequests.run (fun _ => 0) 2 [.run, .submitted 0], e.after.WaitSound) ∧
      ¬ ∀ e ∈ twoRequests.run (fun _ => 0) 2
        [.run, .submitted 1, .completes 0 1, .seen, .run, .run], e.after.WaitSound := by
  have hfailed : ending [.run, .submitFailed] = some (.wait, 2, 2, 0, 0) := by decide +kernel
  have hnone : ending [.run, .submitted 0] = some (.wait, 2, 2, 0, 0) := by decide +kernel
  have hpart : ending [.run, .submitted 1, .completes 0 1, .seen, .run, .run] =
      some (.wait, 1, 1, 0, 0) := by
    decide +kernel
  exact ⟨not_waitSound_of_ending hfailed, not_waitSound_of_ending hnone,
    not_waitSound_of_ending hpart⟩

end Aio

end RpiFastbootd
