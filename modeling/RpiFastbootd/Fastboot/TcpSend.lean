import Mathlib.Algebra.BigOperators.Group.List.Basic
import RpiFastbootd.Fastboot.Tcp

/-!
# Sending over TCP

`TcpSocket::Send` goes on until the kernel has taken all of the bytes.  For a vector of buffers it
skips what was taken (`sendBuffers_exact`).  For a single buffer it counts what was taken, but
offers the data from its start again, so that the peer gets every later piece from there
(`send_exact_iff`).
-/

namespace RpiFastbootd

namespace TcpSocket

/-- The results of the sends: a number of bytes, at most what is offered, or an error. -/
abbrev SendResults := List (Option ℕ)

/-- The loop of `Send` for a single buffer, by the length that is left and what the peer has been
sent: what it returns and what was sent then, unless it has not ended with the results. -/
def sendLoop (data : List Byte) : SendResults → ℕ → List Byte → Option (Bool × List Byte)
  | results, length, wire =>
    if length = 0 then some (true, wire)
    else
      match results with
      | [] => none
      | none :: _ => some (false, wire)
      | some n :: rest =>
        let sent := min n length
        sendLoop data rest (length - sent) (wire ++ data.take sent)

/-- `Send` of a single buffer. -/
def send (data : List Byte) (results : SendResults) : Option (Bool × List Byte) :=
  sendLoop data results data.length []

/-- The buffers without the bytes that were sent. -/
def skipSent : List (List Byte) → ℕ → List (List Byte)
  | [], _ => []
  | buffer :: rest, sent =>
    if sent = 0 then buffer :: rest
    else if sent < buffer.length then buffer.drop sent :: rest
    else skipSent rest (sent - buffer.length)

/-- `Send` of a vector of buffers, after the bytes that the peer has been sent. -/
def sendBuffers : SendResults → List (List Byte) → List Byte → Option (Bool × List Byte)
  | results, buffers, wire =>
    if buffers = [] then some (true, wire)
    else
      match results with
      | [] => none
      | none :: _ => some (false, wire)
      | some n :: rest =>
        let sent := buffers.flatten.take n
        sendBuffers rest (skipSent buffers sent.length) (wire ++ sent)

/-! ### Vectors of buffers -/

theorem flatten_skipSent (buffers : List (List Byte)) (sent : ℕ) :
    (skipSent buffers sent).flatten = buffers.flatten.drop sent := by
  induction buffers generalizing sent with
  | nil => exact List.drop_nil.symm
  | cons buffer rest ih =>
    unfold skipSent
    rw [List.flatten_cons, List.drop_append]
    split_ifs with hzero hpart
    · subst hzero
      rw [List.drop_zero, Nat.zero_sub, List.drop_zero, List.flatten_cons]
    · rw [List.flatten_cons, Nat.sub_eq_zero_of_le (le_of_lt hpart), List.drop_zero]
    · rw [ih, List.drop_of_length_le (not_lt.1 hpart), List.nil_append]

/-- A vector that has been sent has reached the peer once and in order. -/
theorem sendBuffers_exact {results : SendResults} {buffers : List (List Byte)}
    {wire sent : List Byte} (h : sendBuffers results buffers wire = some (true, sent)) :
    sent = wire ++ buffers.flatten := by
  induction results generalizing buffers wire with
  | nil =>
    unfold sendBuffers at h
    split_ifs at h with hempty
    cases h
    rw [hempty, List.flatten_nil, List.append_nil]
  | cons result rest ih =>
    unfold sendBuffers at h
    by_cases hempty : buffers = []
    · rw [if_pos hempty] at h
      cases h
      rw [hempty, List.flatten_nil, List.append_nil]
    rw [if_neg hempty] at h
    cases result with
    | none => cases h
    | some n =>
      have htake := List.prefix_iff_eq_take.1 (List.take_prefix n buffers.flatten)
      rw [ih h, flatten_skipSent, List.append_assoc]
      congr 1
      conv_lhs => rw [htake]
      rw [List.length_take_of_le (List.length_take_le' _ _), List.take_append_drop]

/-! ### Single buffers -/

variable {data wire sent : List Byte} {results : SendResults} {length : ℕ} {counts : List ℕ}

/-- What the peer gets when the kernel takes these counts. -/
def resent (data : List Byte) : ℕ → List ℕ → List Byte
  | _, [] => []
  | length, n :: counts => data.take (min n length) ++ resent data (length - min n length) counts

@[simp] theorem resent_zero (data : List Byte) (counts : List ℕ) : resent data 0 counts = [] := by
  induction counts with
  | nil => rfl
  | cons n counts ih =>
    rw [resent, Nat.min_zero, Nat.sub_zero, ih]
    rfl

@[simp] theorem sendLoop_zero (results : SendResults) :
    sendLoop data results 0 wire = some (true, wire) := by
  unfold sendLoop
  exact if_pos rfl

theorem sendLoop_counts (rest : SendResults) (h : length ≤ counts.sum) :
    sendLoop data (counts.map some ++ rest) length wire =
      some (true, wire ++ resent data length counts) := by
  induction counts generalizing length wire with
  | nil =>
    obtain rfl : length = 0 := Nat.le_zero.1 h
    rw [sendLoop_zero, resent_zero, List.append_nil]
  | cons n counts ih =>
    by_cases hzero : length = 0
    · rw [hzero, sendLoop_zero, resent_zero, List.append_nil]
    rw [List.sum_cons] at h
    rw [List.map_cons, List.cons_append, sendLoop, if_neg hzero]
    dsimp only
    rw [ih (by omega), resent, List.append_assoc]

/-- A send that succeeds has been taken in counts that cover the data. -/
theorem counts_of_sendLoop (h : sendLoop data results length wire = some (true, sent)) :
    ∃ (counts : List ℕ) (rest : SendResults), results = counts.map some ++ rest ∧
      length ≤ counts.sum := by
  induction results generalizing length wire with
  | nil =>
    unfold sendLoop at h
    split_ifs at h with hzero
    exact ⟨[], [], rfl, hzero.le⟩
  | cons result rest ih =>
    unfold sendLoop at h
    by_cases hzero : length = 0
    · exact ⟨[], result :: rest, rfl, hzero.le⟩
    rw [if_neg hzero] at h
    cases result with
    | none => cases h
    | some n =>
      obtain ⟨counts, rest', rfl, hle⟩ := ih h
      refine ⟨n :: counts, rest', rfl, ?_⟩
      rw [List.sum_cons]
      omega

/-- At every place where a send goes on, the piece that is taken there is the beginning of the
data. -/
def Repeats (data : List Byte) (counts : List ℕ) : Prop :=
  ∀ before n after, counts = before ++ n :: after → (data.drop before.sum).take n <+: data

/-- From a place on, the peer gets the data exactly if the pieces are beginnings of it. -/
theorem resent_eq_drop_iff (done : ℕ) (h : data.length - done ≤ counts.sum) :
    resent data (data.length - done) counts = data.drop done ↔
      ∀ before n after, counts = before ++ n :: after →
        (data.drop (done + before.sum)).take n <+: data := by
  induction counts generalizing done with
  | nil =>
    refine iff_of_true ?_ fun before n after h => ?_
    · rw [List.drop_of_length_le (by simpa [Nat.sub_eq_zero_iff_le] using h)]
      rfl
    · simp at h
  | cons k counts ih =>
    rw [List.sum_cons] at h
    have hsplit : data.drop done = (data.drop done).take k ++ data.drop (done + k) := by
      rw [← List.drop_drop, List.take_append_drop]
    have hlen : (data.take (min k (data.length - done))).length =
        ((data.drop done).take k).length := by
      rw [List.length_take, List.length_take, List.length_drop]
      omega
    have hrest : resent data (data.length - done - min k (data.length - done)) counts =
        resent data (data.length - (done + k)) counts := by
      congr 1
      omega
    have hpiece : data.take (min k (data.length - done)) = (data.drop done).take k ↔
        (data.drop done).take k <+: data := by
      rw [List.prefix_iff_eq_take, List.length_take, List.length_drop, eq_comm]
    rw [resent, hsplit, hrest, List.append_eq_append_iff_of_size_eq_left hlen,
      ih (done + k) (by omega), hpiece]
    constructor
    · rintro ⟨hfirst, hlater⟩ before n after heq
      cases before with
      | nil =>
        obtain ⟨rfl, -⟩ := List.cons.inj heq
        exact hfirst
      | cons m before =>
        obtain ⟨rfl, htail⟩ := List.cons.inj heq
        rw [List.sum_cons, ← Nat.add_assoc]
        exact hlater before n after htail
    · intro hall
      refine ⟨hall [] k counts rfl, fun before n after heq => ?_⟩
      have hlater := hall (k :: before) n after (congrArg (k :: ·) heq)
      rwa [List.sum_cons, ← Nat.add_assoc] at hlater

theorem send_eq_some_iff :
    send data results = some (true, sent) ↔
      ∃ (counts : List ℕ) (rest : SendResults), results = counts.map some ++ rest ∧
        data.length ≤ counts.sum ∧ sent = resent data data.length counts := by
  constructor
  · intro h
    obtain ⟨counts, rest, rfl, hle⟩ := counts_of_sendLoop h
    refine ⟨counts, rest, rfl, hle, ?_⟩
    rw [send, sendLoop_counts rest hle, List.nil_append] at h
    exact (Prod.mk.inj (Option.some.inj h)).2.symm
  · rintro ⟨counts, rest, rfl, hle, rfl⟩
    rw [send, sendLoop_counts rest hle, List.nil_append]

/-- Where a send succeeds, the peer has been sent the data once and in order: for the single buffer
with these results, and for every division into buffers with any results. -/
structure SendsExactly (data : List Byte) (results : SendResults) : Prop where
  single : ∀ sent, send data results = some (true, sent) → sent = data
  vector : ∀ buffers results' sent, buffers.flatten = data →
    sendBuffers results' buffers [] = some (true, sent) → sent = data

/-- Both overloads send exactly the data if and only if, whenever the kernel takes all of the single
buffer, each piece that it takes is the beginning of the data. -/
theorem send_exact_iff (data : List Byte) (results : SendResults) :
    SendsExactly data results ↔
      ∀ (counts : List ℕ) (rest : SendResults), results = counts.map some ++ rest →
        data.length ≤ counts.sum → Repeats data counts := by
  have hstart : ∀ counts : List ℕ, data.length ≤ counts.sum →
      (resent data data.length counts = data ↔ Repeats data counts) := by
    intro counts hle
    have h := @resent_eq_drop_iff data counts 0 hle
    simp only [Nat.sub_zero, List.drop_zero, Nat.zero_add] at h
    exact h
  constructor
  · intro h counts rest heq hle
    exact (hstart counts hle).1 (h.single _ (send_eq_some_iff.2 ⟨counts, rest, heq, hle, rfl⟩))
  · intro h
    refine ⟨fun sent hsend => ?_, fun buffers results' sent hdata hsend => ?_⟩
    · obtain ⟨counts, rest, heq, hle, rfl⟩ := send_eq_some_iff.1 hsend
      exact (hstart counts hle).2 (h counts rest heq hle)
    · rw [sendBuffers_exact hsend, hdata, List.nil_append]

/-- The handshake message. -/
def handshakeMessage : List Byte := "FB01".toList.map fun c => BitVec.ofNat 8 c.toNat

/-- A handshake that the kernel takes in two halves reaches the peer as `FBFB`. -/
theorem handshake_resent :
    send handshakeMessage [some 2, some 2] =
        some (true, "FBFB".toList.map fun c => BitVec.ofNat 8 c.toNat) ∧
      sendBuffers [some 2, some 2] [handshakeMessage] [] = some (true, handshakeMessage) ∧
      ¬ SendsExactly handshakeMessage [some 2, some 2] := by
  have hsent : send handshakeMessage [some 2, some 2] =
      some (true, "FBFB".toList.map fun c => BitVec.ofNat 8 c.toNat) := by decide +kernel
  refine ⟨hsent, by decide +kernel, fun h => ?_⟩
  exact absurd (h.single _ hsent) (by decide +kernel)

end TcpSocket

/-! ### Messages -/

/-- `EncodeMessageLength`. -/
def encodeMessageLength (length : ℕ) : List Byte :=
  (List.range 8).map fun i => BitVec.ofNat 8 (length >>> (56 - i * 8))

/-- `ClientTcpTransport::Write` with its send: what it returns, the transport, and what the peer has
been sent, unless the send has not ended. -/
def TcpTransport.writeMessage (tr : TcpTransport) (data : List Byte)
    (results : TcpSocket.SendResults) : Option (Bool × TcpTransport × List Byte) :=
  if tr.socket = none ∨ kSsizeMax < data.length then some (false, tr, [])
  else
    (TcpSocket.sendBuffers results [encodeMessageLength data.length, data] []).map fun r =>
      ((tr.write data r.1).1, (tr.write data r.1).2, r.2)

/-- A write that succeeds has sent the length and the payload. -/
theorem TcpTransport.sent_of_writeMessage {tr tr' : TcpTransport} {data sent : List Byte}
    {results : TcpSocket.SendResults}
    (h : tr.writeMessage data results = some (true, tr', sent)) :
    tr.write data true = (true, tr') ∧ sent = encodeMessageLength data.length ++ data := by
  unfold writeMessage at h
  split_ifs at h with hno
  · cases h
  obtain ⟨⟨ok, wire⟩, hsend, heq⟩ := Option.map_eq_some_iff.1 h
  simp only [Prod.mk.injEq] at heq
  obtain ⟨hok, rfl, rfl⟩ := heq
  cases ok with
  | false =>
    rw [TcpTransport.write, if_neg hno] at hok
    cases hok
  | true =>
    refine ⟨Prod.ext hok rfl, ?_⟩
    rw [TcpSocket.sendBuffers_exact hsend]
    simp

end RpiFastbootd
