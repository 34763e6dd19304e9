import RpiFastbootd.Fastboot.Device

/-!
# The TCP transport

`ClientTcpTransport` over a socket that is connected when it is made.  The peer sends messages, each
a length in eight bytes and a payload; `Read` takes them apart again, with the number of bytes that
are left of the current message kept between its calls.

A receive may bring fewer bytes than were asked for, or fail.  The transport drops its socket when a
receive or a send fails and when it is closed.
-/

namespace RpiFastbootd

/-- How a `recv` turns out: at most `n + 1` bytes, or an error. -/
inductive Receive
  | upTo (n : ℕ)
  | error
  deriving DecidableEq, Repr

/-- A connected socket: the bytes that the peer has sent and that have not been received, after
which it disconnects, and the outcomes of the receives, which bring what they can after these. -/
structure Socket where
  stream : List Byte
  receives : List Receive := []
  deriving DecidableEq, Repr

namespace Socket

/-- `Receive`: nothing for -1, and no bytes after a disconnect. -/
def receive (s : Socket) (length : ℕ) : Option (List Byte) × Socket :=
  match s.receives with
  | [] => (some (s.stream.take length), ⟨s.stream.drop length, []⟩)
  | .upTo n :: rest =>
    (some (s.stream.take (min (n + 1) length)), ⟨s.stream.drop (min (n + 1) length), rest⟩)
  | .error :: rest => (none, ⟨s.stream, rest⟩)

/-- The loop of `ReceiveAll`: every round but the last brings a byte. -/
def receiveLoop : ℕ → ℕ → Socket → List Byte × Socket
  | 0, _, s => ([], s)
  | fuel + 1, length, s =>
    if length = 0 then ([], s)
    else
      match s.receive length with
      | (none, s) => ([], s)
      | (some [], s) => ([], s)
      | (some (b :: bytes), s) =>
        let (more, s) := receiveLoop fuel (length - (b :: bytes).length) s
        (b :: bytes ++ more, s)

/-- `ReceiveAll`: the bytes it has collected, fewer than asked for if a receive brings none; nothing
for -1, if that is the first one. -/
def receiveAll (s : Socket) (length : ℕ) : Option (List Byte) × Socket :=
  match receiveLoop length length s with
  | ([], s) => (if length = 0 then some [] else none, s)
  | (bytes, s) => (some bytes, s)

end Socket

/-- The big-endian number in a header. -/
def extractMessageLength (header : List Byte) : ℕ :=
  header.foldl (fun n b => n * 256 + b.toNat) 0

def kSsizeMax : ℕ := 2 ^ 63 - 1

/-- A `ClientTcpTransport` that has no listening socket. -/
structure TcpTransport where
  socket : Option Socket
  messageBytesLeft : ℕ := 0
  downloading : Bool := false
  deriving DecidableEq, Repr

namespace TcpTransport

/-- The loops of `Read`, one receive of a header or of payload at a time; nothing where a dropped
socket is used. -/
def readLoop (len : ℕ) : ℕ → TcpTransport → List Byte → Option (Received × TcpTransport)
  | 0, tr, data => some (.failed data, tr)
  | fuel + 1, tr, data =>
    match tr.socket with
    | none => if tr.messageBytesLeft = 0 then some (.got [], tr) else none
    | some s =>
      if tr.messageBytesLeft = 0 then
        let (header, s) := s.receiveAll 8
        if (header.getD []).length = 8 then
          readLoop len fuel
            { tr with
              socket := some s
              messageBytesLeft := extractMessageLength (header.getD []) } data
        else if tr.downloading then some (.failed data, { tr with socket := none })
        else readLoop len fuel { tr with socket := none } data
      else
        match s.receiveAll (min (len - data.length) tr.messageBytesLeft) with
        | (none, _) => some (.failed data, { tr with socket := none })
        | (some bytes, s) =>
          let tr := { tr with
            socket := some s
            messageBytesLeft := tr.messageBytesLeft - bytes.length }
          if tr.downloading ∧ (data ++ bytes).length < len then readLoop len fuel tr (data ++ bytes)
          else some (.got (data ++ bytes), tr)

/-- More rounds than `Read` can take: each receives a byte or drops the socket. -/
def rounds (tr : TcpTransport) : ℕ :=
  match tr.socket with
  | none => 1
  | some s => s.stream.length + 2

def read (tr : TcpTransport) (len : ℕ) : Option (Received × TcpTransport) :=
  if kSsizeMax < len then some (.failed [], tr) else tr.readLoop len tr.rounds []

/-- `Write` of a message, whose send fails or not: whether all of it was written. -/
def write (tr : TcpTransport) (data : List Byte) (sent : Bool) : Bool × TcpTransport :=
  if tr.socket = none ∨ kSsizeMax < data.length then (false, tr)
  else if sent then (true, { tr with downloading := [0x44, 0x41, 0x54, 0x41].isPrefixOf data })
  else (false, { tr with socket := none })

def close (tr : TcpTransport) : TcpTransport := { tr with socket := none }

end TcpTransport

/-! ### What a receive brings -/

namespace Socket

theorem stream_receive (s : Socket) (length : ℕ) :
    s.stream = ((s.receive length).1.getD []) ++ (s.receive length).2.stream := by
  unfold receive
  split
  · exact (List.take_append_drop _ _).symm
  · exact (List.take_append_drop _ _).symm
  · rfl

theorem length_receive_le (s : Socket) (length : ℕ) :
    ((s.receive length).1.getD []).length ≤ length := by
  unfold receive
  split
  · exact List.length_take_le _ _
  · exact (List.length_take_le _ _).trans (min_le_right _ _)
  · exact Nat.zero_le _

/-- The bytes that were received are those at the head of the stream. -/
theorem stream_receiveLoop (fuel length : ℕ) (s : Socket) :
    s.stream = (receiveLoop fuel length s).1 ++ (receiveLoop fuel length s).2.stream ∧
      (receiveLoop fuel length s).1.length ≤ length := by
  induction fuel generalizing length s with
  | zero => exact ⟨rfl, Nat.zero_le _⟩
  | succ fuel ih =>
    have hstream := s.stream_receive length
    have hle := s.length_receive_le length
    unfold receiveLoop
    by_cases hlength : length = 0
    · rw [if_pos hlength]
      exact ⟨rfl, Nat.zero_le _⟩
    rw [if_neg hlength]
    generalize s.receive length = received at hstream hle
    obtain ⟨received, s'⟩ := received
    cases received with
    | none => exact ⟨hstream, Nat.zero_le _⟩
    | some bytes =>
      cases bytes with
      | nil => exact ⟨hstream, Nat.zero_le _⟩
      | cons b bytes =>
        obtain ⟨hmore, hlen⟩ := ih (length - (b :: bytes).length) s'
        change s.stream = b :: bytes ++ s'.stream at hstream
        change (b :: bytes).length ≤ length at hle
        constructor
        · show s.stream = b :: bytes ++ _ ++ _
          rw [List.append_assoc, ← hmore, hstream]
        · show (b :: bytes ++ _).length ≤ length
          rw [List.length_append]
          omega

/-- What `ReceiveAll` does: it fails on the first byte, or brings some of the bytes that were asked
for. -/
theorem receiveAll_cases (s : Socket) (length : ℕ) :
    (∃ s', s.receiveAll length = (none, s') ∧ length ≠ 0) ∨
      ∃ bytes s', s.receiveAll length = (some bytes, s') ∧ s.stream = bytes ++ s'.stream ∧
        bytes.length ≤ length ∧ (length ≠ 0 → bytes ≠ []) := by
  obtain ⟨hstream, hlen⟩ := stream_receiveLoop length length s
  unfold receiveAll
  generalize receiveLoop length length s = received at hstream hlen
  obtain ⟨bytes, s'⟩ := received
  cases bytes with
  | nil =>
    by_cases hlength : length = 0
    · right
      refine ⟨[], s', ?_, hstream, hlen, fun h => absurd hlength h⟩
      simp [hlength]
    · left
      refine ⟨s', ?_, hlength⟩
      simp [hlength]
  | cons b bytes => exact .inr ⟨b :: bytes, s', rfl, hstream, hlen, fun _ => by simp⟩

end Socket

/-! ### The rounds of a read -/

namespace TcpTransport

/-- A dropped socket leaves no message half read. -/
def Kept (tr : TcpTransport) : Prop := tr.socket = none → tr.messageBytesLeft = 0

/-- Among the receives that a read of `len` bytes makes, one for payload brings nothing: the first,
or one after a header or, during a download, after a part of the payload. -/
inductive PayloadLost : TcpTransport → ℕ → Prop
  | now {tr : TcpTransport} {s s' : Socket} {len : ℕ} (hsocket : tr.socket = some s)
      (hleft : tr.messageBytesLeft ≠ 0)
      (hlost : s.receiveAll (min len tr.messageBytesLeft) = (none, s')) : PayloadLost tr len
  | header {tr : TcpTransport} {s s' : Socket} {header : List Byte} {len : ℕ}
      (hsocket : tr.socket = some s) (hleft : tr.messageBytesLeft = 0)
      (hheader : s.receiveAll 8 = (some header, s')) (hlength : header.length = 8)
      (h : PayloadLost
        { tr with socket := some s', messageBytesLeft := extractMessageLength header } len) :
      PayloadLost tr len
  | payload {tr : TcpTransport} {s s' : Socket} {bytes : List Byte} {len : ℕ}
      (hsocket : tr.socket = some s) (hleft : tr.messageBytesLeft ≠ 0)
      (hbytes : s.receiveAll (min len tr.messageBytesLeft) = (some bytes, s'))
      (hdownloading : tr.downloading = true) (hmore : bytes.length < len)
      (h : PayloadLost
        { tr with
          socket := some s'
          messageBytesLeft := tr.messageBytesLeft - bytes.length } (len - bytes.length)) :
      PayloadLost tr len

theorem not_payloadLost_of_socket_eq_none {tr : TcpTransport} {len : ℕ} (h : tr.socket = none) :
    ¬ PayloadLost tr len := by
  intro hlost
  cases hlost with
  | now hsocket => exact absurd (h.symm.trans hsocket) (by simp)
  | header hsocket => exact absurd (h.symm.trans hsocket) (by simp)
  | payload hsocket => exact absurd (h.symm.trans hsocket) (by simp)

section

variable {tr : TcpTransport} {s s' : Socket} {len : ℕ}

theorem payloadLost_of_header {header : List Byte} (hsocket : tr.socket = some s)
    (hleft : tr.messageBytesLeft = 0) (hheader : s.receiveAll 8 = (some header, s'))
    (hlength : header.length = 8) :
    PayloadLost tr len ↔
      PayloadLost
        { tr with socket := some s', messageBytesLeft := extractMessageLength header } len := by
  refine ⟨fun h => ?_, .header hsocket hleft hheader hlength⟩
  cases h with
  | now _ hleft' => exact absurd hleft hleft'
  | payload _ hleft' => exact absurd hleft hleft'
  | header hsocket' _ hheader' _ h =>
    cases hsocket.symm.trans hsocket'
    cases hheader.symm.trans hheader'
    exact h

theorem not_payloadLost_of_headerLost (hsocket : tr.socket = some s)
    (hleft : tr.messageBytesLeft = 0) (hlost : ((s.receiveAll 8).1.getD []).length ≠ 8) :
    ¬ PayloadLost tr len := by
  intro h
  cases h with
  | now _ hleft' => exact absurd hleft hleft'
  | payload _ hleft' => exact absurd hleft hleft'
  | header hsocket' _ hheader hlength _ =>
    cases hsocket.symm.trans hsocket'
    rw [hheader] at hlost
    exact hlost hlength

theorem payloadLost_of_payload {bytes : List Byte} (hsocket : tr.socket = some s)
    (hleft : tr.messageBytesLeft ≠ 0)
    (hbytes : s.receiveAll (min len tr.messageBytesLeft) = (some bytes, s')) :
    PayloadLost tr len ↔ (tr.downloading = true ∧ bytes.length < len) ∧
      PayloadLost
        { tr with
          socket := some s'
          messageBytesLeft := tr.messageBytesLeft - bytes.length } (len - bytes.length) := by
  refine ⟨fun h => ?_, fun h => .payload hsocket hleft hbytes h.1.1 h.1.2 h.2⟩
  cases h with
  | now hsocket' _ hlost =>
    cases hsocket.symm.trans hsocket'
    exact absurd (hbytes.symm.trans hlost) (by simp)
  | header _ hleft' => exact absurd hleft' hleft
  | payload hsocket' _ hbytes' hdownloading hmore h =>
    cases hsocket.symm.trans hsocket'
    cases hbytes.symm.trans hbytes'
    exact ⟨⟨hdownloading, hmore⟩, h⟩

/-- On a live socket the loop always comes to an end, and leaves a dropped socket with a message half
read exactly if payload was lost. -/
theorem readLoop_kept {fuel : ℕ} (hsocket : tr.socket = some s)
    (hfuel : s.stream.length + 2 ≤ fuel) (len : ℕ) (data : List Byte) :
    ∃ r tr', readLoop len fuel tr data = some (r, tr') ∧
      (tr'.Kept ↔ ¬ PayloadLost tr (len - data.length)) := by
  induction fuel generalizing tr s data with
  | zero => omega
  | succ fuel ih =>
    unfold readLoop
    simp only [hsocket]
    by_cases hleft : tr.messageBytesLeft = 0
    · rw [if_pos hleft]
      by_cases hlength : ((s.receiveAll 8).1.getD []).length = 8
      · obtain ⟨s', hnone, -⟩ | ⟨header, s', hheader, hstream, -⟩ := s.receiveAll_cases 8
        · rw [hnone] at hlength
          exact absurd hlength (by simp)
        rw [hheader] at hlength ⊢
        rw [if_pos hlength, payloadLost_of_header hsocket hleft hheader hlength]
        refine ih rfl ?_ data
        rw [hstream, List.length_append] at hfuel
        change header.length = 8 at hlength
        show s'.stream.length + 2 ≤ fuel
        omega
      · rw [if_neg hlength]
        have hlost : ¬ PayloadLost tr (len - data.length) :=
          not_payloadLost_of_headerLost hsocket hleft hlength
        by_cases hdownloading : tr.downloading = true
        · rw [if_pos hdownloading]
          exact ⟨_, _, rfl, iff_of_true (fun _ => hleft) hlost⟩
        · rw [if_neg hdownloading]
          obtain ⟨fuel, rfl⟩ : ∃ n, fuel = n + 1 := ⟨fuel - 1, by omega⟩
          refine ⟨.got [], { tr with socket := none }, ?_, iff_of_true (fun _ => hleft) hlost⟩
          unfold readLoop
          exact if_pos hleft
    · rw [if_neg hleft]
      obtain ⟨s', hnone, -⟩ | ⟨bytes, s', hbytes, hstream, -, hsome⟩ :=
        s.receiveAll_cases (min (len - data.length) tr.messageBytesLeft)
      · rw [hnone]
        refine ⟨_, _, rfl, iff_of_false (fun h => hleft (h rfl)) (not_not.2 ?_)⟩
        exact .now hsocket hleft hnone
      · rw [hbytes, payloadLost_of_payload hsocket hleft hbytes]
        have hsub : len - data.length - bytes.length = len - (data ++ bytes).length := by
          rw [List.length_append]
          omega
        by_cases hmore : tr.downloading = true ∧ (data ++ bytes).length < len
        · have hlt : bytes.length < len - data.length := by
            have := hmore.2
            rw [List.length_append] at this
            omega
          have hpos : bytes.length ≠ 0 := fun h => hsome (by omega) (List.length_eq_zero_iff.1 h)
          simp only [hmore.1, hmore.2, hlt, and_self, true_and, if_true, hsub]
          refine ih rfl ?_ (data ++ bytes)
          rw [hstream, List.length_append] at hfuel
          omega
        · dsimp only
          rw [if_neg hmore]
          refine ⟨_, _, rfl, iff_of_true (fun h => by cases h) fun h => hmore ⟨h.1.1, ?_⟩⟩
          have := h.1.2
          rw [List.length_append]
          omega

end

theorem read_of_socket_eq_none {tr : TcpTransport} (hsocket : tr.socket = none)
    (hleft : tr.messageBytesLeft = 0) (len : ℕ) : ∃ r, tr.read len = some (r, tr) := by
  unfold read
  split_ifs
  · exact ⟨_, rfl⟩
  · refine ⟨.got [], ?_⟩
    rw [rounds, hsocket]
    unfold readLoop
    simp [hsocket, hleft]

/-! ### The calls of a session -/

/-- A call of the transport, with the outcome of the send of a write. -/
inductive Request
  | read (len : ℕ)
  | write (data : List Byte) (sent : Bool)
  | close
  deriving DecidableEq, Repr

/-- The transport after a call, unless it uses a dropped socket. -/
def serve (tr : TcpTransport) : Request → Option TcpTransport
  | .read len => (tr.read len).map Prod.snd
  | .write data sent => some (tr.write data sent).2
  | .close => some tr.close

/-- The transport after some calls. -/
def serveAll (tr : TcpTransport) (requests : List Request) : Option TcpTransport :=
  requests.foldlM serve tr

/-- If the call loses the connection, then not inside a message: no send fails and no socket is
closed while payload is left, and no receive for payload brings nothing. -/
def LosesBetween (tr : TcpTransport) : Request → Prop
  | .read len => len ≤ kSsizeMax → ¬ PayloadLost tr len
  | .write data sent => tr.socket ≠ none → data.length ≤ kSsizeMax → sent = false →
      tr.messageBytesLeft = 0
  | .close => tr.socket ≠ none → tr.messageBytesLeft = 0

/-- From a state in which a dropped socket leaves nothing, a call does not use a dropped socket; and
it leads to such a state exactly if it loses no connection inside a message. -/
theorem Kept.serve {tr : TcpTransport} (h : tr.Kept) (request : Request) :
    ∃ tr', tr.serve request = some tr' ∧ (tr'.Kept ↔ tr.LosesBetween request) := by
  cases request with
  | close =>
    refine ⟨_, rfl, fun hkept _ => hkept rfl, fun hclose _ => ?_⟩
    by_cases hsocket : tr.socket = none
    · exact h hsocket
    · exact hclose hsocket
  | write data sent =>
    refine ⟨_, rfl, ?_⟩
    unfold write
    by_cases hrefused : tr.socket = none ∨ kSsizeMax < data.length
    · rw [if_pos hrefused]
      refine iff_of_true h fun hsocket hlength => ?_
      obtain hnone | hlong := hrefused
      · exact absurd hnone hsocket
      · omega
    · rw [if_neg hrefused]
      rw [not_or] at hrefused
      cases sent with
      | true =>
        exact iff_of_true (fun hnone => absurd hnone hrefused.1) fun _ _ hsent => by cases hsent
      | false =>
        exact ⟨fun hkept _ _ _ => hkept rfl,
          fun hlost _ => hlost hrefused.1 (not_lt.1 hrefused.2) rfl⟩
  | read len =>
    cases hsocket : tr.socket with
    | none =>
      obtain ⟨r, hread⟩ := read_of_socket_eq_none hsocket (h hsocket) len
      refine ⟨tr, ?_, iff_of_true h fun _ => not_payloadLost_of_socket_eq_none hsocket⟩
      rw [TcpTransport.serve, hread]
      rfl
    | some s =>
      by_cases hlen : kSsizeMax < len
      · refine ⟨tr, ?_, iff_of_true h fun hle => absurd hlen (not_lt.2 hle)⟩
        rw [TcpTransport.serve, read, if_pos hlen]
        rfl
      · obtain ⟨r, tr', hread, hkept⟩ := readLoop_kept hsocket le_rfl len []
        refine ⟨tr', ?_, hkept.trans ⟨fun hlost _ => hlost, fun hlost => hlost (not_lt.1 hlen)⟩⟩
        rw [TcpTransport.serve, read, if_neg hlen, rounds, hsocket, hread]
        rfl

theorem serveAll_concat {tr tr₁ : TcpTransport} {before : List Request}
    (h : tr.serveAll before = some tr₁) (request : Request) :
    tr.serveAll (before ++ [request]) = tr₁.serve request := by
  unfold serveAll at h ⊢
  rw [List.foldlM_append, h]
  cases hserve : tr₁.serve request with
  | none => simp [hserve]
  | some tr' => simp [hserve]

/-- A transport over a connected socket. -/
def connected (s : Socket) : TcpTransport := { socket := some s }

end TcpTransport

end RpiFastbootd
