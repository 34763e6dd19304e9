import Mathlib.Algebra.Order.BigOperators.Group.List
import RpiFastbootd.Fastboot.UsbIouring

/-!
# Reads over io_uring

The requests of a read point to consecutive parts of the buffer, whatever becomes of those before
them, and only the sum of their results is returned.  If the kernel serves the requests in order and
none with more than its length, the sum is the length of the buffer only if every request is served
in full, and then the buffer holds the next bytes of the stream.
-/

namespace RpiFastbootd

namespace ClientUsbTransport

/-- `Read` of `len` bytes, given what the transfer returns. -/
def read (len : ℕ) (transfer : ℤ) : ℤ :=
  if 2 ^ 31 - 1 < len then -1
  else if transfer < 0 then -1
  else transfer

end ClientUsbTransport

namespace FastbootDevice

/-- `HandleData`, given what the transport returns; what is not negative stays itself as a
`size_t`. -/
def handleData (size : ℕ) (transferred : ℤ) : Bool :=
  if transferred = -1 then false else decide (transferred = size)

/-- `HandleData` over USB takes the transfer of exactly its size. -/
theorem handleData_read_iff {size : ℕ} (hsize : size < 2 ^ 31) (transfer : ℤ) :
    handleData size (ClientUsbTransport.read size transfer) = true ↔ transfer = size := by
  have hmax : ¬ 2 ^ 31 - 1 < size := by omega
  unfold handleData ClientUsbTransport.read
  rw [if_neg hmax]
  by_cases hneg : transfer < 0
  · rw [if_pos hneg, if_pos rfl]
    exact ⟨fun h => absurd h (by decide), fun h => by omega⟩
  · have hfailed : transfer ≠ -1 := by omega
    rw [if_neg hneg, if_neg hfailed, decide_eq_true_iff]

end FastbootDevice

/-! ### The parts of the buffer -/

/-- The bytes of the parts of some requests. -/
def bytes (requests : List Sqe) : ℕ := (requests.map Sqe.length).sum

@[simp] theorem bytes_nil : bytes [] = 0 := rfl

@[simp] theorem bytes_cons (q : Sqe) (requests : List Sqe) :
    bytes (q :: requests) = q.length + bytes requests := rfl

@[simp] theorem bytes_append (l₁ l₂ : List Sqe) : bytes (l₁ ++ l₂) = bytes l₁ + bytes l₂ := by
  simp only [bytes, List.map_append, List.sum_append]

namespace Aio

theorem requestsFrom_append (a : Aio) (done n m : ℕ) :
    a.requestsFrom done (n + m) =
      a.requestsFrom done n ++ a.requestsFrom (done + bytes (a.requestsFrom done n)) m := by
  induction n generalizing done with
  | zero => simp [requestsFrom]
  | succ n ih =>
    rw [Nat.succ_add, requestsFrom, requestsFrom, ih, bytes_cons, Nat.add_assoc done]
    rfl

/-- The parts do not go beyond the buffer. -/
theorem bytes_requestsFrom_le (a : Aio) (n : ℕ) {done : ℕ} (h : done ≤ a.len) :
    done + bytes (a.requestsFrom done n) ≤ a.len := by
  induction n generalizing done with
  | zero => exact h
  | succ n ih =>
    have := @ih (done + min (a.len - done) a.ioSize) (by omega)
    rw [requestsFrom, bytes_cons]
    dsimp only
    omega

/-- Each part starts where the parts before it end. -/
theorem offset_of_requestsFrom {a : Aio} {before rest : List Sqe} {q : Sqe} {done n : ℕ}
    (h : before ++ q :: rest = a.requestsFrom done n) : q.offset = done + bytes before := by
  induction before generalizing done n with
  | nil =>
    cases n with
    | zero => cases h
    | succ n =>
      obtain ⟨rfl, -⟩ := List.cons.inj h
      rfl
  | cons p before ih =>
    cases n with
    | zero => cases h
    | succ n =>
      obtain ⟨rfl, hrest⟩ := List.cons.inj h
      rw [ih hrest, bytes_cons, Nat.add_assoc]

theorem queue_submitted_le (a : Aio) (room : ℕ) {s : AioState}
    (h : (s.sqesSubmitted : ℤ) ≤ max 0 a.totalRequests) :
    ((a.queue room s).sqesSubmitted : ℤ) ≤ max 0 a.totalRequests := by
  induction room generalizing s with
  | zero => exact h
  | succ room ih =>
    rw [queue]
    split_ifs with hmore
    · refine ih (le_max_of_le_right ?_)
      show ((s.sqesSubmitted + 1 : ℕ) : ℤ) ≤ _
      push_cast
      omega
    · exact h

end Aio

/-! ### Sums of results -/

/-- No request is served with more than its length. -/
def WithinLength (served : List (Sqe × ℤ)) : Prop := ∀ p ∈ served, p.2 ≤ p.1.length

/-- Every request is served with its length. -/
def ServedInFull (served : List (Sqe × ℤ)) : Prop := ∀ p ∈ served, p.2 = p.1.length

theorem sum_le_bytes {served : List (Sqe × ℤ)} (h : WithinLength served) {seen later : List ℤ}
    (hseen : served.map Prod.snd = seen ++ later) : seen.sum ≤ bytes (served.map Prod.fst) := by
  induction served generalizing seen with
  | nil =>
    obtain ⟨rfl, -⟩ := List.append_eq_nil_iff.1 hseen.symm
    exact le_rfl
  | cons p served ih =>
    obtain ⟨hp, h⟩ := List.forall_mem_cons.1 h
    cases seen with
    | nil =>
      exact Int.natCast_nonneg _
    | cons r seen =>
      obtain ⟨rfl, hrest⟩ := List.cons.inj hseen
      have := ih h hrest
      rw [List.map_cons, bytes_cons, List.sum_cons]
      push_cast
      omega

/-- Results that sum up to all bytes are those of requests served in full. -/
theorem servedInFull_of_sum {served : List (Sqe × ℤ)} (h : WithinLength served)
    (hsum : bytes (served.map Prod.fst) ≤ (served.map Prod.snd).sum) : ServedInFull served := by
  induction served with
  | nil => exact fun p hp => absurd hp List.not_mem_nil
  | cons p served ih =>
    obtain ⟨hp, h⟩ := List.forall_mem_cons.1 h
    have hrest := sum_le_bytes h (List.append_nil _).symm
    rw [List.map_cons, List.map_cons, bytes_cons, List.sum_cons] at hsum
    push_cast at hsum
    exact List.forall_mem_cons.2 ⟨by omega, ih h (by omega)⟩

theorem addInt_of_lt {x y : ℤ} (h₀ : 0 ≤ x + y) (h : x + y < 2 ^ 31) : addInt x y = x + y :=
  Int.bmod_eq_of_le (by omega) (by omega)

/-! ### What a read keeps -/

/-- The kernel serves the requests that it has taken in order, and none with more than its
length. -/
def ServesInOrder (e : Event AioState AioInput Unit) : Prop :=
  match e.input with
  | .completes i result => i = 0 ∧ ∀ q ∈ e.before.ring.kernel.head?, result ≤ q.length
  | _ => True

instance : DecidablePred ServesInOrder
  | ⟨s, .completes i result, _, _⟩ =>
    inferInstanceAs (Decidable (i = 0 ∧ ∀ q ∈ s.ring.kernel.head?, result ≤ q.length))
  | ⟨_, .run, _, _⟩ | ⟨_, .submitted _, _, _⟩ | ⟨_, .submitFailed, _, _⟩ | ⟨_, .seen, _, _⟩
  | ⟨_, .waitFailed, _, _⟩ => isTrue trivial

/-- Where a read is between its steps. -/
structure Reads (a : Aio) (stream : ℕ → Byte) (s : AioState) : Prop where
  /-- The requests so far are the first ones of the transfer, in order. -/
  requests : s.served.map Prod.fst ++ s.ring.kernel ++ s.ring.pending =
    a.requestsFrom 0 s.sqesSubmitted
  queued : s.bytesQueued = bytes (a.requestsFrom 0 s.sqesSubmitted)
  submitted : (s.sqesSubmitted : ℤ) ≤ max 0 a.totalRequests
  within : WithinLength s.served
  /-- `res` is the sum of the results seen, as long as none of them is an error. -/
  summed : ∃ seen, s.served.map Prod.snd = seen ++ s.ring.completions ∧
    (s.success = true → (∀ r ∈ seen, 0 ≤ r) ∧ s.res = seen.sum)
  /-- As long as all are served in full, the first bytes of the stream are in the buffer. -/
  filled : ServedInFull s.served → s.position = bytes (s.served.map Prod.fst) ∧
    s.memory = fun i => if i < s.position then some (stream i) else none

namespace Reads

variable {a : Aio} {stream : ℕ → Byte} {s : AioState}

theorem goto (h : Reads a stream s) (pc : AioPc) : Reads a stream { s with pc := pc } :=
  ⟨h.requests, h.queued, h.submitted, h.within, h.summed, h.filled⟩

theorem finish (h : Reads a stream s) : Reads a stream s.finish := h.goto _

theorem await (h : Reads a stream s) : Reads a stream s.await := by
  unfold AioState.await
  split_ifs
  · exact h.finish
  · exact h.goto .wait

theorem bytes_served_le (h : Reads a stream s) : bytes (s.served.map Prod.fst) ≤ a.len := by
  have hle := a.bytes_requestsFrom_le s.sqesSubmitted (Nat.zero_le _)
  rw [← h.requests, List.append_assoc, bytes_append] at hle
  omega

theorem fail (h : Reads a stream s) : Reads a stream { s with success := false } where
  requests := h.requests
  queued := h.queued
  submitted := h.submitted
  within := h.within
  summed := h.summed.imp fun _ hseen => ⟨hseen.1, fun hs => (Bool.false_ne_true hs).elim⟩
  filled := h.filled

theorem accept (h : Reads a stream s) (n : ℕ) :
    Reads a stream { s with ring := s.ring.accept n } where
  requests := by
    rw [← h.requests]
    simp only [Ring.accept, List.append_assoc, List.take_append_drop]
  queued := h.queued
  submitted := h.submitted
  within := h.within
  summed := h.summed
  filled := h.filled

/-- A result that is seen is added up; no sum of results exceeds an `int`. -/
theorem see (h : Reads a stream s) {result : ℤ} {rest : List ℤ}
    (hc : s.ring.completions = result :: rest) : Reads a stream (s.see result rest) where
  requests := h.requests
  queued := h.queued
  submitted := h.submitted
  within := h.within
  summed := by
    obtain ⟨seen, hseen, hsum⟩ := h.summed
    have hnext : s.served.map Prod.snd = (seen ++ [result]) ++ rest := by
      rw [hseen, hc, List.append_assoc, List.singleton_append]
    refine ⟨seen ++ [result], hnext, fun hs => ?_⟩
    simp only [AioState.see, Bool.and_eq_true, decide_eq_true_iff] at hs
    obtain ⟨hs, hresult⟩ := hs
    obtain ⟨hnonneg, hres⟩ := hsum hs
    have hle := (sum_le_bytes h.within hnext).trans (Int.ofNat_le.2 h.bytes_served_le)
    have hlen := a.len_lt
    have hpos : 0 ≤ seen.sum := List.sum_nonneg hnonneg
    rw [List.sum_append, List.sum_singleton] at hle ⊢
    refine ⟨List.forall_mem_append.2 ⟨hnonneg, List.forall_mem_singleton.2 hresult⟩, ?_⟩
    show (if result < 0 then s.res else addInt s.res result) = _
    rw [if_neg (not_lt.2 hresult), hres]
    exact addInt_of_lt (by omega) (by omega)
  filled := h.filled

/-- The request that the kernel serves is the one after those served before it; if it is served in
full, as they were, its part of the buffer continues theirs. -/
theorem serve (h : Reads a stream s) (hread : a.read = true) {q : Sqe} {result : ℤ}
    (hq : s.ring.kernel[0]? = some q) (hresult : result ≤ q.length) :
    Reads a stream (a.serve stream s 0 q result) := by
  obtain ⟨rest, hkernel⟩ : ∃ rest, s.ring.kernel = q :: rest := by
    cases hk : s.ring.kernel with
    | nil => simp [hk] at hq
    | cons p rest => exact ⟨rest, by simpa [hk] using hq⟩
  have hrequests := h.requests
  rw [hkernel, List.append_assoc, List.cons_append] at hrequests
  have hoffset := Aio.offset_of_requestsFrom hrequests
  rw [Nat.zero_add] at hoffset
  refine ⟨?_, h.queued, h.submitted, ?_, ?_, ?_⟩
  · show (s.served ++ [(q, result)]).map Prod.fst ++ (s.ring.complete 0 result).kernel ++ _ = _
    simp only [Ring.complete, hkernel, List.eraseIdx_cons_zero, List.map_append, List.map_cons,
      List.map_nil, List.append_assoc, List.cons_append, List.nil_append]
    exact hrequests
  · exact List.forall_mem_append.2 ⟨h.within, List.forall_mem_singleton.2 hresult⟩
  · obtain ⟨seen, hseen, hsum⟩ := h.summed
    refine ⟨seen, ?_, hsum⟩
    show (s.served ++ [(q, result)]).map Prod.snd = seen ++ (s.ring.completions ++ [result])
    rw [List.map_append, hseen, List.append_assoc]
    rfl
  · intro hfull
    obtain ⟨hbefore, hlast⟩ := List.forall_mem_append.1 hfull
    obtain rfl : result = q.length := hlast (q, result) (List.mem_singleton_self _)
    obtain ⟨hposition, hmemory⟩ := h.filled hbefore
    refine ⟨?_, funext fun i => ?_⟩
    · show s.position + q.length = bytes ((s.served ++ [(q, (q.length : ℤ))]).map Prod.fst)
      simp [hposition]
    · show (if a.read ∧ q.offset ≤ i ∧ i < q.offset + q.length then
          some (stream (s.position + (i - q.offset))) else s.memory i) =
        if i < s.position + q.length then some (stream i) else none
      rw [hoffset, ← hposition, hread, hmemory]
      split_ifs with hpart hend <;> grind

/-- The requests that the inner loop prepares are the next ones. -/
theorem queue (h : Reads a stream s) (room : ℕ) : Reads a stream (a.queue room s) := by
  have hsubmitted := a.queue_submitted_le room h.submitted
  obtain ⟨n, hn⟩ := a.queue_eq room s
  have hnext := a.requestsFrom_append 0 s.sqesSubmitted n
  rw [Nat.zero_add, ← h.queued] at hnext
  rw [hn] at hsubmitted ⊢
  refine ⟨?_, ?_, hsubmitted, h.within, h.summed, h.filled⟩
  · dsimp only
    rw [hnext, ← h.requests, List.append_assoc, List.append_assoc, List.append_assoc]
  · dsimp only
    rw [hnext, bytes_append, ← h.queued]
    rfl

theorem turn (h : Reads a stream s) : Reads a stream (a.turn s) := by
  unfold Aio.turn
  dsimp only
  split_ifs
  · exact (h.queue _).goto .submit
  · exact (h.queue _).await
  · exact h.await
  · exact h.finish

/-- Every step of a kernel that serves in order keeps it. -/
theorem step {s' : AioState} (h : Reads a stream s) (hread : a.read = true) {input : AioInput}
    (hs : a.step stream s input = some ((), s')) (hkernel : ServesInOrder ⟨s, input, (), s'⟩) :
    Reads a stream s' := by
  cases Aio.moves_of_step hs with
  | turn hpc => exact h.turn
  | drained hpc => exact h.goto .loop
  | submitted n hpc hn => exact (h.accept n).await
  | refused hpc hnone => exact (h.accept 0).goto _
  | submitFailed hpc => exact h.fail.await
  | unsubmitted hpc hnone => exact h.goto _
  | seen result rest hc hpc => exact h.see hc
  | waitFailed hpc => exact h.goto _
  | completes i result q hq =>
    obtain ⟨rfl, hresult⟩ := hkernel
    refine h.serve hread hq (hresult q ?_)
    rw [List.head?_eq_getElem?]
    exact hq

end Reads

/-! ### What a read returns -/

namespace AioState

variable {s : AioState}

/-- A transfer that returns has failed, or returns the sum with nothing left in the ring. -/
def Concluded (s : AioState) : Prop :=
  ∀ v, s.pc = .returned v → v = -1 ∨ s.success = true ∧ v = s.res ∧ s.ring.size = 0

theorem Counted.size_eq_zero (h : s.Counted) (hnone : s.inFlight ≤ 0) : s.ring.size = 0 := by
  unfold Counted at h
  omega

theorem concluded_finish (h : s.Counted) (hnone : s.inFlight ≤ 0) : s.finish.Concluded := by
  intro v hv
  obtain rfl : (if s.success then s.res else -1) = v := AioPc.returned.inj hv
  by_cases hs : s.success
  · rw [if_pos hs]
    exact .inr ⟨hs, rfl, h.size_eq_zero hnone⟩
  · rw [if_neg hs]
    exact .inl rfl

theorem concluded_await (h : s.Counted) : s.await.Concluded := by
  unfold await
  split_ifs with hnone
  · exact concluded_finish h hnone
  · exact fun v hv => (by cases hv)

theorem concluded_of_ne (h : ∀ v, s.pc ≠ .returned v) : s.Concluded :=
  fun v hv => absurd hv (h v)

theorem concluded_of_failed (h : s.pc = .returned (-1)) : s.Concluded :=
  fun _ hv => .inl (AioPc.returned.inj (hv.symm.trans h))

end AioState

namespace Aio

variable {a : Aio} {stream : ℕ → Byte} {s s' : AioState}

theorem turn_concluded (h : s.Counted)
    (hsubmitted : (s.sqesSubmitted : ℤ) ≤ max 0 a.totalRequests) : (a.turn s).Concluded := by
  unfold turn
  dsimp only
  split_ifs with hmore
  · exact AioState.concluded_of_ne fun _ hv => (by cases hv)
  · exact AioState.concluded_await (queue_counted h _)
  · exact AioState.concluded_await h
  · refine AioState.concluded_finish h ?_
    unfold AioState.inFlight
    omega

/-- After the return no step but a completion is left, and none of these where the ring is empty. -/
theorem step_concluded (h : s.Concluded) (hb : s.Balanced)
    (hsubmitted : (s.sqesSubmitted : ℤ) ≤ max 0 a.totalRequests) {input : AioInput}
    (hs : a.step stream s input = some ((), s')) : s'.Concluded := by
  cases moves_of_step hs with
  | turn hpc => exact turn_concluded hb.counted hsubmitted
  | drained hpc => exact AioState.concluded_of_ne fun _ hv => (by cases hv)
  | submitted n hpc hn => exact AioState.concluded_await (accept_counted hb.counted n)
  | refused hpc hnone => exact AioState.concluded_of_failed rfl
  | submitFailed hpc => exact AioState.concluded_await (s := { s with success := false }) hb.counted
  | unsubmitted hpc hnone => exact AioState.concluded_of_failed rfl
  | seen result rest hc hpc => exact AioState.concluded_of_ne fun _ hv => (by cases hv)
  | waitFailed hpc => exact AioState.concluded_of_failed rfl
  | completes i result q hq =>
    intro v hv
    refine (h v hv).imp_right fun hdone => absurd hdone.2.2 (Nat.pos_iff_ne_zero.1 ?_)
    have hi : i < s.ring.kernel.length := (List.getElem?_eq_some_iff.1 hq).1
    unfold Ring.size
    omega

end Aio

namespace Reads

variable {a : Aio} {stream : ℕ → Byte} {s : AioState}

theorem new (a : Aio) (stream : ℕ → Byte) (depth : ℕ) :
    Reads a stream { ring := { entries := depth } } where
  requests := rfl
  queued := rfl
  submitted := le_max_left _ _
  within := fun _ hp => absurd hp List.not_mem_nil
  summed := ⟨[], rfl, fun _ => ⟨fun _ hr => absurd hr List.not_mem_nil, rfl⟩⟩
  filled := fun _ => ⟨rfl, rfl⟩

/-- A read that returns the length of the buffer has served all of it. -/
theorem full_of_returned (h : Reads a stream s) (hc : s.Concluded)
    (hpc : s.pc = .returned a.len) :
    ServedInFull s.served ∧ bytes (s.served.map Prod.fst) = a.len := by
  rcases hc _ hpc with hfailed | ⟨hs, hres, hsize⟩
  · omega
  · have hle := h.bytes_served_le
    obtain ⟨seen, hseen, hsum⟩ := h.summed
    have hempty := congrArg Ring.completions (Ring.eq_of_size_eq_zero hsize)
    rw [hempty, List.append_nil] at hseen
    have hlen : (a.len : ℤ) = (s.served.map Prod.snd).sum := by
      rw [hres, (hsum hs).2, hseen]
    have hcover := sum_le_bytes h.within (List.append_nil _).symm
    exact ⟨servedInFull_of_sum h.within (by omega), by omega⟩

end Reads

namespace Aio

variable {a : Aio} {stream : ℕ → Byte}

/-- Every event of a run leaves the read where it is between its steps. -/
theorem reads_of_mem {depth : ℕ} {inputs : List AioInput} {e : Event AioState AioInput Unit}
    (hread : a.read = true) (hkernel : ∀ e ∈ a.run stream depth inputs, ServesInOrder e)
    (he : e ∈ a.run stream depth inputs) : Reads a stream e.after ∧ e.after.Concluded := by
  let I : AioState → Prop := fun s => s.Balanced ∧ Reads a stream s ∧ s.Concluded
  have hstep : ∀ s i s', I s → a.step stream s i = some ((), s') →
      ServesInOrder ⟨s, i, (), s'⟩ → I s' :=
    fun s i s' ⟨hb, hr, hc⟩ hs hP =>
      ⟨step_balanced hb hs, hr.step hread hs hP, step_concluded hc hb hr.submitted hs⟩
  have hstart : I { ring := { entries := depth } } :=
    ⟨balanced_new depth, Reads.new a stream depth,
      AioState.concluded_of_ne fun _ hv => (by cases hv)⟩
  obtain ⟨before, rest, hrun⟩ := List.append_of_mem he
  obtain ⟨hI, hlast⟩ := @runs_invariant_of _ _ _ _ ServesInOrder (fun _ s => I s)
    (fun _ s i _ s' hI hs hP => hstep s i s' hI hs hP) _ _ [] hstart hkernel _ _ _ hrun
  exact (hstep _ _ _ hI hlast (hkernel e he)).2

/-- In every run of a read in which the kernel serves the requests in order, none with more than its
length: if it returns the length of the buffer, the buffer is the next bytes of the stream; a request
that is short or fails makes it return something else, and `HandleData` takes only the length. -/
theorem read_exact (a : Aio) (stream : ℕ → Byte) (depth : ℕ) (inputs : List AioInput)
    (hread : a.read = true) (hkernel : ∀ e ∈ a.run stream depth inputs, ServesInOrder e) :
    ∀ e ∈ a.run stream depth inputs, ∀ v, e.after.pc = .returned v →
      (v = a.len → ∀ i, e.after.memory i = if i < a.len then some (stream i) else none) ∧
        ((∃ p ∈ e.after.served, p.2 < p.1.length) → v ≠ a.len) ∧
        (FastbootDevice.handleData a.len (ClientUsbTransport.read a.len v) = true ↔
          v = a.len) := by
  intro e he v hpc
  obtain ⟨hreads, hconcluded⟩ := reads_of_mem hread hkernel he
  refine ⟨?_, ?_, FastbootDevice.handleData_read_iff a.len_lt v⟩
  · rintro rfl
    obtain ⟨hfull, hbytes⟩ := hreads.full_of_returned hconcluded hpc
    obtain ⟨hposition, hmemory⟩ := hreads.filled hfull
    intro i
    rw [hmemory, hposition, hbytes]
  · rintro ⟨p, hp, hshort⟩ rfl
    have hfull := (hreads.full_of_returned hconcluded hpc).1
    exact absurd (hfull p hp) hshort.ne

/-- Two requests of one submit, each served in full. -/
def fullInputs : List AioInput :=
  [.run, .submitted 2, .completes 0 1, .completes 0 1, .seen, .seen, .run, .run]

/-- Two requests of two submits, the first of which brings nothing. -/
def shortInputs : List AioInput :=
  [.run, .submitted 1, .completes 0 0, .seen, .run, .run, .submitted 1, .completes 0 1, .seen, .run,
    .run]

theorem read_exact_two :
    (∃ e ∈ twoRequests.run (BitVec.ofNat 8) 2 fullInputs,
        e.after.pc = .returned 2 ∧
          ∀ i, e.after.memory i = if i < 2 then some (BitVec.ofNat 8 i) else none) ∧
      ∃ e ∈ twoRequests.run (BitVec.ofNat 8) 1 shortInputs,
        e.after.pc = .returned 1 ∧ (∃ p ∈ e.after.served, p.2 < p.1.length) ∧
          FastbootDevice.handleData 2 (ClientUsbTransport.read 2 1) = false := by
  have hfull : ∀ e ∈ twoRequests.run (BitVec.ofNat 8) 2 fullInputs, ServesInOrder e := by
    decide +kernel
  have hshort : ∀ e ∈ twoRequests.run (BitVec.ofNat 8) 1 shortInputs, ServesInOrder e := by
    decide +kernel
  have hfullRun : ∃ e ∈ twoRequests.run (BitVec.ofNat 8) 2 fullInputs,
      e.after.pc = .returned 2 := by
    decide +kernel
  have hshortRun : ∃ e ∈ twoRequests.run (BitVec.ofNat 8) 1 shortInputs,
      e.after.pc = .returned 1 ∧ ∃ p ∈ e.after.served, p.2 < p.1.length := by
    decide +kernel
  obtain ⟨e, he, hpc⟩ := hfullRun
  obtain ⟨e', he', hpc', hp⟩ := hshortRun
  have htwo := read_exact twoRequests (BitVec.ofNat 8) 2 fullInputs rfl hfull e he 2 hpc
  have hone := read_exact twoRequests (BitVec.ofNat 8) 1 shortInputs rfl hshort e' he' 1 hpc'
  refine ⟨⟨e, he, hpc, htwo.1 rfl⟩, e', he', hpc', hp, Bool.eq_false_iff.2 fun hdata => ?_⟩
  exact hone.2.1 hp (hone.2.2.1 hdata)

end Aio

end RpiFastbootd
