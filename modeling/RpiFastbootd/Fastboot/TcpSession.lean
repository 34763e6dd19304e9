import RpiFastbootd.Fastboot.SessionSafety
import RpiFastbootd.Fastboot.Tcp

/-!
# Sessions over TCP

The stream of a peer is a sequence of messages.  Whatever a session reads, and however the bytes
arrive, the transport knows where it stands in this sequence: between two messages, or inside one
with a number of bytes left (`Position`).  A command that is read between two messages, from a
message that fits into the buffer and arrives as a whole, is therefore the payload of one message.
-/

namespace RpiFastbootd

open FastbootDevice

/-! ### Messages -/

/-- A message as it is sent: the length in eight bytes, and the payload. -/
structure Message where
  header : List Byte
  payload : List Byte
  length_header : header.length = 8
  announced : extractMessageLength header = payload.length

def Message.bytes (m : Message) : List Byte := m.header ++ m.payload

/-- The first message of a stream has the announced length. -/
theorem Message.length_of_stream {stream rest : List Byte} {m : Message}
    (h : stream = m.bytes ++ rest) :
    extractMessageLength (stream.take 8) = m.payload.length ∧
      8 + m.payload.length ≤ stream.length := by
  have hheader : stream.take 8 = m.header := by
    rw [h, Message.bytes, List.append_assoc, ← m.length_header, List.take_left]
  refine ⟨by rw [hheader, m.announced], ?_⟩
  rw [h, Message.bytes, List.length_append, List.length_append, m.length_header]
  omega

/-- Where a transport stands in the stream of its peer, with `left` bytes left of a message and
`rest` not received. -/
inductive Position (stream : List Byte) : ℕ → List Byte → Prop
  | between {rest : List Byte} (messages : List Message)
      (h : stream = messages.flatMap Message.bytes ++ rest) : Position stream 0 rest
  | inside {rest : List Byte} {left : ℕ} (messages : List Message) (header received : List Byte)
      (hlength : header.length = 8) (hleft : extractMessageLength header = received.length + left)
      (h : stream = messages.flatMap Message.bytes ++ (header ++ received) ++ rest) :
      Position stream left rest

namespace Position

variable {stream rest : List Byte} {left : ℕ}

theorem exists_messages (h : Position stream 0 rest) :
    ∃ messages : List Message, stream = messages.flatMap Message.bytes ++ rest := by
  cases h with
  | between messages h => exact ⟨messages, h⟩
  | inside messages header received hlength hleft h =>
    refine ⟨messages ++ [⟨header, received, hlength, hleft⟩], ?_⟩
    simpa [Message.bytes] using h

theorem header {header : List Byte} (h : Position stream 0 (header ++ rest))
    (hlength : header.length = 8) : Position stream (extractMessageLength header) rest := by
  obtain ⟨messages, h⟩ := h.exists_messages
  refine .inside messages header [] hlength (Nat.zero_add _).symm ?_
  simpa using h

theorem payload {bytes : List Byte} (h : Position stream left (bytes ++ rest))
    (hle : bytes.length ≤ left) : Position stream (left - bytes.length) rest := by
  cases h with
  | between messages h =>
    obtain rfl := List.length_eq_zero_iff.1 (Nat.le_zero.1 hle)
    exact .between messages h
  | inside messages header received hlength hleft h =>
    refine .inside messages header (received ++ bytes) hlength ?_ ?_
    · rw [List.length_append]
      omega
    · simpa using h

end Position

/-- A message that starts where the transport stands between two messages. -/
theorem Position.message {stream header payload rest : List Byte}
    (h : Position stream 0 (header ++ (payload ++ rest))) (hlength : header.length = 8)
    (hannounced : extractMessageLength header = payload.length) :
    ∃ (messages : List Message) (m : Message), m.payload = payload ∧
      stream = messages.flatMap Message.bytes ++ m.bytes ++ rest := by
  obtain ⟨messages, h⟩ := h.exists_messages
  refine ⟨messages, ⟨header, payload, hlength, hannounced⟩, rfl, ?_⟩
  simpa [Message.bytes] using h

/-! ### The transport follows the messages -/

namespace TcpTransport

/-- The position of the transport, as long as it has a socket. -/
def Framed (stream : List Byte) (tr : TcpTransport) : Prop :=
  ∀ s, tr.socket = some s → Position stream tr.messageBytesLeft s.stream

section

variable {stream : List Byte} {tr tr' : TcpTransport} {len fuel : ℕ} {data : List Byte}
  {r : Received}

theorem framed_of_socket_eq_none (h : tr.socket = none) : Framed stream tr := by
  intro s hs
  rw [h] at hs
  cases hs

/-- The transport has read the header of a message. -/
theorem framed_of_header {header : List Byte} {s : Socket}
    (h : Position stream 0 (header ++ s.stream)) (hlength : header.length = 8) :
    Framed stream
      { tr with socket := some s, messageBytesLeft := extractMessageLength header } := by
  intro s' hs'
  cases hs'
  exact h.header hlength

theorem Framed.readLoop (h : Framed stream tr)
    (hread : TcpTransport.readLoop len fuel tr data = some (r, tr')) :
    Framed stream tr' ∧ tr'.downloading = tr.downloading := by
  induction fuel generalizing tr data with
  | zero =>
    cases hread
    exact ⟨h, rfl⟩
  | succ fuel ih =>
    unfold TcpTransport.readLoop at hread
    cases hsocket : tr.socket with
    | none =>
      simp only [hsocket] at hread
      split_ifs at hread
      cases hread
      exact ⟨h, rfl⟩
    | some s =>
      have hposition := h s hsocket
      simp only [hsocket] at hread
      by_cases hleft : tr.messageBytesLeft = 0
      · rw [if_pos hleft] at hread
        rw [hleft] at hposition
        obtain ⟨s', hnone, -⟩ | ⟨header, s', hheader, hstream, -⟩ := s.receiveAll_cases 8
        · simp only [hnone] at hread
          rw [if_neg (by simp)] at hread
          split_ifs at hread
          · cases hread
            exact ⟨framed_of_socket_eq_none rfl, rfl⟩
          · have hrest := ih (framed_of_socket_eq_none rfl) hread
            exact hrest
        · simp only [hheader] at hread
          split_ifs at hread with hlength
          · rw [hstream] at hposition
            have hrest := ih (framed_of_header hposition hlength) hread
            exact hrest
          · cases hread
            exact ⟨framed_of_socket_eq_none rfl, rfl⟩
          · have hrest := ih (framed_of_socket_eq_none rfl) hread
            exact hrest
      · rw [if_neg hleft] at hread
        obtain ⟨s', hnone, -⟩ | ⟨bytes, s', hbytes, hstream, hle, -⟩ :=
          s.receiveAll_cases (min (len - data.length) tr.messageBytesLeft)
        · simp only [hnone] at hread
          cases hread
          exact ⟨framed_of_socket_eq_none rfl, rfl⟩
        · have hframed : Framed stream
              { tr with
                socket := some s'
                messageBytesLeft := tr.messageBytesLeft - bytes.length } := by
            intro s₁ hs₁
            cases hs₁
            rw [hstream] at hposition
            exact hposition.payload (hle.trans (min_le_right _ _))
          simp only [hbytes] at hread
          split_ifs at hread with hmore
          · have hrest := ih hframed hread
            exact hrest
          · cases hread
            exact ⟨hframed, rfl⟩

theorem Framed.read (h : Framed stream tr) (hread : tr.read len = some (r, tr')) :
    Framed stream tr' ∧ tr'.downloading = tr.downloading := by
  unfold TcpTransport.read at hread
  split_ifs at hread
  · cases hread
    exact ⟨h, rfl⟩
  · exact h.readLoop hread

end

end TcpTransport

/-! ### A command that arrives as a whole -/

/-- No receive fails before `n` bytes have come. -/
def Delivers : List Receive → ℕ → Prop
  | _, 0 => True
  | [], _ + 1 => True
  | .error :: _, _ + 1 => False
  | .upTo k :: rest, n + 1 => Delivers rest (n - k)

namespace Socket

/-- The next `n` bytes have been sent and arrive. -/
def Arrives (s : Socket) (n : ℕ) : Prop := n ≤ s.stream.length ∧ Delivers s.receives n

theorem receiveLoop_of_arrives {fuel n : ℕ} {s : Socket} (h : s.Arrives n) (hfuel : n ≤ fuel) :
    (receiveLoop fuel n s).1 = s.stream.take n := by
  induction fuel generalizing n s with
  | zero =>
    obtain rfl := Nat.le_zero.1 hfuel
    rfl
  | succ fuel ih =>
    obtain ⟨hlen, hdelivers⟩ := h
    unfold receiveLoop
    cases n with
    | zero => rfl
    | succ n =>
      rw [if_neg (by omega)]
      obtain ⟨stream, receives⟩ := s
      cases stream with
      | nil => exact absurd hlen (by simp)
      | cons b stream =>
        cases receives with
        | nil =>
          have hrest : (receiveLoop fuel 0 ⟨stream.drop n, []⟩).1 = [] := by
            cases fuel <;> rfl
          have hsub : n + 1 - (b :: stream.take n).length = 0 := by
            simp only [List.length_cons, List.length_take] at hlen ⊢
            omega
          simp only [receive, List.take_succ_cons, List.drop_succ_cons, hsub, hrest,
            List.append_nil]
        | cons outcome rest =>
          cases outcome with
          | error => exact hdelivers.elim
          | upTo k =>
            have hmin : min (k + 1) (n + 1) = min k n + 1 := by omega
            have hlen' : n ≤ stream.length := by simpa using hlen
            have hsub : n + 1 - (b :: stream.take (min k n)).length = n - k := by
              simp only [List.length_cons, List.length_take]
              omega
            have harrives : (⟨stream.drop (min k n), rest⟩ : Socket).Arrives (n - k) := by
              refine ⟨?_, hdelivers⟩
              simp only [List.length_drop]
              omega
            have hrest := ih harrives (by omega)
            simp only [receive, hmin, List.take_succ_cons, List.drop_succ_cons, hsub, hrest,
              List.cons_append]
            congr 1
            have hsplit : n = min k n + (n - k) := by omega
            conv_rhs => rw [hsplit]
            exact List.take_add.symm

theorem receiveAll_of_arrives {n : ℕ} {s : Socket} (h : s.Arrives n) (hn : n ≠ 0) :
    (s.receiveAll n).1 = some (s.stream.take n) := by
  have hloop := receiveLoop_of_arrives h le_rfl
  have hne : s.stream.take n ≠ [] := by
    intro hnil
    have := congrArg List.length hnil
    rw [List.length_take, List.length_nil] at this
    have := h.1
    omega
  unfold receiveAll
  generalize receiveLoop n n s = received at hloop
  obtain ⟨bytes, s'⟩ := received
  change bytes = s.stream.take n at hloop
  subst hloop
  split
  · rename_i hnil
    exact absurd (congrArg Prod.fst hnil) hne
  · rename_i heq
    exact congrArg (fun p => some p.1) heq.symm

/-- The next message that has a payload: its length, and the socket after its header. -/
inductive NextMessage : Socket → ℕ → Socket → Prop
  | here {s s' : Socket} {header : List Byte} (hheader : s.receiveAll 8 = (some header, s'))
      (hlength : header.length = 8) (hsome : extractMessageLength header ≠ 0) :
      NextMessage s (extractMessageLength header) s'
  | skip {s s₁ s' : Socket} {header : List Byte} {length : ℕ}
      (hheader : s.receiveAll 8 = (some header, s₁)) (hlength : header.length = 8)
      (hempty : extractMessageLength header = 0) (h : NextMessage s₁ length s') :
      NextMessage s length s'

end Socket

def kResponseSize : ℕ := 256

namespace TcpTransport

/-- The next command comes as one message: no message is half read, and the next message that has a
payload fits into the buffer and arrives as a whole. -/
structure CommandFits (tr : TcpTransport) : Prop where
  between : tr.messageBytesLeft = 0
  whole : ∀ s, tr.socket = some s → ∀ length s', s.NextMessage length s' →
    length ≤ kResponseSize ∧ s'.Arrives length

section

variable {stream : List Byte} {tr tr' : TcpTransport} {s : Socket} {fuel : ℕ} {bytes : List Byte}

/-- A read without a socket brings nothing. -/
theorem bytes_of_readLoop_dropped {data : List Byte} {len : ℕ} (hsocket : tr.socket = none)
    (hfuel : fuel ≠ 0) (hread : readLoop len fuel tr data = some (.got bytes, tr')) :
    bytes = [] := by
  obtain ⟨fuel, rfl⟩ := Nat.exists_eq_succ_of_ne_zero hfuel
  unfold readLoop at hread
  simp only [hsocket] at hread
  split_ifs at hread
  cases hread
  rfl

/-- The payload of a message that fits and arrives is read in one round. -/
theorem bytes_of_readLoop_payload
    (hread : readLoop kResponseSize fuel tr [] = some (.got bytes, tr'))
    (hsocket : tr.socket = some s) (hfuel : fuel ≠ 0) (hleft : tr.messageBytesLeft ≠ 0)
    (hdownloading : tr.downloading = false) (hle : tr.messageBytesLeft ≤ kResponseSize)
    (harrives : s.Arrives tr.messageBytesLeft) :
    bytes = s.stream.take tr.messageBytesLeft := by
  obtain ⟨fuel, rfl⟩ := Nat.exists_eq_succ_of_ne_zero hfuel
  have hall := Socket.receiveAll_of_arrives harrives hleft
  have hmin : min (kResponseSize - ([] : List Byte).length) tr.messageBytesLeft =
      tr.messageBytesLeft := min_eq_right hle
  unfold readLoop at hread
  simp only [hsocket, if_neg hleft, hmin] at hread
  generalize s.receiveAll tr.messageBytesLeft = received at hall hread
  obtain ⟨received, s'⟩ := received
  change received = some _ at hall
  subst hall
  simp only [hdownloading, Bool.false_eq_true, false_and, if_false, List.nil_append] at hread
  cases hread
  rfl

/-- A command that fits is the payload of one message of the stream. -/
theorem exists_message_of_readLoop (hsocket : tr.socket = some s)
    (hfuel : s.stream.length + 2 ≤ fuel) (hframed : Framed stream tr)
    (hdownloading : tr.downloading = false) (hleft : tr.messageBytesLeft = 0)
    (hfits : ∀ length s', s.NextMessage length s' → length ≤ kResponseSize ∧ s'.Arrives length)
    (hread : readLoop kResponseSize fuel tr [] = some (.got bytes, tr')) (hbytes : bytes ≠ []) :
    ∃ (messages : List Message) (m : Message) (rest : List Byte), m.payload = bytes ∧
      stream = messages.flatMap Message.bytes ++ m.bytes ++ rest := by
  induction fuel generalizing tr s with
  | zero => omega
  | succ fuel ih =>
    have hposition := hframed s hsocket
    unfold readLoop at hread
    simp only [hsocket, if_pos hleft] at hread
    rw [hleft] at hposition
    by_cases hlength : ((s.receiveAll 8).1.getD []).length = 8
    · obtain ⟨s', hnone, -⟩ | ⟨header, s', hheader, hstream, -⟩ := s.receiveAll_cases 8
      · rw [hnone] at hlength
        exact absurd hlength (by simp)
      rw [hheader] at hlength hread
      rw [if_pos hlength] at hread
      change header.length = 8 at hlength
      rw [hstream, List.length_append] at hfuel
      rw [hstream] at hposition
      by_cases hempty : extractMessageLength header = 0
      · exact ih rfl (by omega) (framed_of_header hposition hlength) hdownloading hempty
          (fun length s₁ h => hfits length s₁ (.skip hheader hlength hempty h)) hread
      · obtain ⟨hle, harrives⟩ := hfits _ _ (.here hheader hlength hempty)
        have htake : bytes = s'.stream.take (extractMessageLength header) :=
          bytes_of_readLoop_payload hread rfl (by omega) hempty hdownloading hle harrives
        have hannounced : extractMessageLength header = bytes.length := by
          rw [htake, List.length_take, min_eq_left harrives.1]
        have hsplit : s'.stream = bytes ++ s'.stream.drop bytes.length := by
          conv_lhs => rw [← List.take_append_drop bytes.length s'.stream]
          rw [← hannounced, ← htake]
        rw [hsplit] at hposition
        obtain ⟨messages, m, hpayload, h⟩ := hposition.message hlength hannounced
        exact ⟨messages, m, _, hpayload, h⟩
    · rw [if_neg hlength, if_neg (by simp [hdownloading])] at hread
      exact absurd (bytes_of_readLoop_dropped rfl (by omega) hread) hbytes

theorem CommandFits.exists_message (h : tr.CommandFits) (hframed : Framed stream tr)
    (hdownloading : tr.downloading = false)
    (hread : tr.read kResponseSize = some (.got bytes, tr')) (hbytes : bytes ≠ []) :
    ∃ (messages : List Message) (m : Message) (rest : List Byte), m.payload = bytes ∧
      stream = messages.flatMap Message.bytes ++ m.bytes ++ rest := by
  rw [read, if_neg (by decide)] at hread
  cases hsocket : tr.socket with
  | none =>
    rw [rounds, hsocket] at hread
    exact absurd (bytes_of_readLoop_dropped hsocket (by decide) hread) hbytes
  | some s =>
    rw [rounds, hsocket] at hread
    exact exists_message_of_readLoop hsocket le_rfl hframed hdownloading h.between
      (h.whole s hsocket) hread hbytes

end

end TcpTransport

/-! ### Sessions -/

/-- The four letters in front of a response. -/
def FastbootResult.tag : FastbootResult → String
  | okay => "OKAY"
  | fail => "FAIL"
  | info => "INFO"
  | data => "DATA"

/-- What is handed to `Transport::Write`. -/
def Packet.bytes : Packet → List Byte
  | status r => bytesOf r.result.tag ++ bytesOf r.message
  | data bytes => bytes

namespace TcpTransport

/-- The transport after a read that is answered by `a`. -/
def reads (tr : TcpTransport) (len : ℕ) (a : Received) : Option TcpTransport :=
  match tr.read len with
  | some (a', tr') => if a' = a then some tr' else none
  | none => none

/-- The transport after a call of a session, if this is how it answers. -/
def answers (tr : TcpTransport) : SessionEvent → Option TcpTransport
  | ⟨.readCommand, a⟩ => tr.reads kResponseSize a
  | ⟨.readData size, a⟩ => tr.reads size a
  | ⟨.write p, sent⟩ =>
    if (tr.write p.bytes sent).1 = sent then some (tr.write p.bytes sent).2 else none
  | ⟨.close, _⟩ => some tr.close
  | _ => some tr

/-- The transport after a session. -/
def follow (tr : TcpTransport) (t : List SessionEvent) : Option TcpTransport := t.foldlM answers tr

section

variable {stream : List Byte} {tr tr' : TcpTransport} {len : ℕ} {a : Received} {g : Watch}

theorem read_of_reads (h : tr.reads len a = some tr') : tr.read len = some (a, tr') := by
  unfold reads at h
  split at h
  · rename_i a' tr₁ hread
    split_ifs at h with ha
    cases h
    rw [hread, ha]
  · cases h

theorem follow_concat {t : List SessionEvent} {e : SessionEvent}
    (h : tr.follow (t ++ [e]) = some tr') :
    ∃ tr₁, tr.follow t = some tr₁ ∧ tr₁.answers e = some tr' := by
  unfold follow at h ⊢
  rw [List.foldlM_append] at h
  obtain ⟨tr₁, ht, he⟩ := Option.bind_eq_some_iff.1 h
  refine ⟨tr₁, ht, ?_⟩
  simpa using he

theorem isPrefixOf_tag (r : FastbootResult) (message : List Byte) :
    [0x44, 0x41, 0x54, 0x41].isPrefixOf (bytesOf r.tag ++ message) = (r = .data : Bool) := by
  cases r <;> rfl

/-- What the transport keeps in a session: it knows where it stands, and after a reply that ends a
command it does not take itself to be in a data phase. -/
structure InPlace (stream : List Byte) (tr : TcpTransport) (g : Watch) : Prop where
  framed : Framed stream tr
  phase : tr.downloading = true → g.inData = true

theorem InPlace.reads (h : InPlace stream tr g) (hread : tr.reads len a = some tr') {g' : Watch}
    (hg : g'.inData = g.inData) : InPlace stream tr' g' := by
  obtain ⟨hframed, hdownloading⟩ := h.framed.read (read_of_reads hread)
  refine ⟨hframed, fun hd => hg.trans (h.phase ?_)⟩
  rw [← hdownloading]
  exact hd

theorem InPlace.write (h : InPlace stream tr g) {p : Packet} {sent : Bool}
    (hanswer : tr.answers ⟨.write p, sent⟩ = some tr') (hsafe : g.Safe (.write p)) :
    InPlace stream tr' (g.next (.write p) sent) := by
  change (if (tr.write p.bytes sent).1 = sent then some (tr.write p.bytes sent).2 else none) =
    some tr' at hanswer
  split_ifs at hanswer with hsent
  cases hanswer
  have hlose : (g.next (.write p) false).inData = g.inData := by
    cases p <;> rfl
  unfold TcpTransport.write at hsent ⊢
  by_cases hrefused : tr.socket = none ∨ kSsizeMax < p.bytes.length
  · simp only [if_pos hrefused] at hsent ⊢
    subst hsent
    exact ⟨h.framed, fun hd => hlose.trans (h.phase hd)⟩
  simp only [if_neg hrefused] at hsent ⊢
  cases sent with
  | false => exact ⟨framed_of_socket_eq_none rfl, fun hd => hlose.trans (h.phase hd)⟩
  | true =>
    refine ⟨h.framed, fun hd => ?_⟩
    cases p with
    | data bytes => exact hsafe
    | status r =>
      have hdata : r.result = .data := by
        have := hd
        simp only [Packet.bytes, if_true, isPrefixOf_tag, decide_eq_true_eq] at this
        exact this
      show (g.wrote r.result).inData = true
      rw [hdata]
      rfl

theorem InPlace.next (h : InPlace stream tr g) {e : SessionEvent} (hanswer : tr.answers e = some tr')
    (hsafe : g.Safe e.1) : InPlace stream tr' (g.next e.1 e.2) := by
  obtain ⟨c, a⟩ := e
  cases c with
  | readCommand =>
    refine h.reads hanswer ?_
    match a with
    | .failed _ => rfl
    | .got [] => rfl
    | .got (_ :: _) => rfl
  | readData size =>
    refine h.reads hanswer ?_
    match a with
    | .failed _ => rfl
    | .got bytes =>
      show (if bytes.length = size then _ else _ : Watch).inData = _
      split_ifs <;> rfl
  | write p => exact h.write hanswer hsafe
  | close =>
    cases hanswer
    exact ⟨framed_of_socket_eq_none rfl, h.phase⟩
  | dispatch handler args =>
    cases hanswer
    exact ⟨h.framed, h.phase⟩
  | flashBlockDevice path payload size =>
    cases hanswer
    exact ⟨h.framed, h.phase⟩
  | fork =>
    cases hanswer
    exact ⟨h.framed, h.phase⟩
  | query q =>
    cases hanswer
    refine ⟨h.framed, fun hd => ?_⟩
    cases a with
    | error what => exact h.phase hd
    | ok a =>
      show (g.learn q a).inData = true
      rw [Watch.learn]
      split <;> exact h.phase hd

theorem inPlace_follow {s : Socket} {t : List SessionEvent}
    (hsafe : ∀ t₁ e t₂, t = t₁ ++ e :: t₂ → (watch t₁).Safe e.1)
    (h : (connected s).follow t = some tr) : InPlace s.stream tr (watch t) := by
  induction t using List.reverseRecOn generalizing tr with
  | nil =>
    cases h
    refine ⟨fun s' hs' => ?_, fun hd => by cases hd⟩
    cases hs'
    exact .between [] rfl
  | append_singleton t e ih =>
    obtain ⟨tr₁, hrun, hanswer⟩ := follow_concat h
    rw [watch_concat]
    refine (ih (fun t₁ e' t₂ heq => ?_) hrun).next hanswer (hsafe t e [] rfl)
    exact hsafe t₁ e' (t₂ ++ [e]) (by simp [heq])

theorem exists_follow_of_append {t₁ t₂ : List SessionEvent} (h : tr.follow (t₁ ++ t₂) = some tr') :
    ∃ tr₁, tr.follow t₁ = some tr₁ ∧ tr₁.follow t₂ = some tr' := by
  unfold follow at h ⊢
  rw [List.foldlM_append] at h
  exact Option.bind_eq_some_iff.1 h

end

end TcpTransport

/-! ### A peer for examples -/

/-- A host at the other end of a connection, with the outcomes of the sends, which succeed from then
on. -/
structure TcpHost where
  transport : TcpTransport
  sends : List Bool := []

def TcpHost.read (h : TcpHost) (len : ℕ) : Received × TcpHost :=
  match h.transport.read len with
  | some (a, tr) => (a, { h with transport := tr })
  | none => (.got [], h)

def TcpHost.answer (h : TcpHost) : (c : Call) → c.Answer × TcpHost
  | .readCommand => h.read kResponseSize
  | .readData size => h.read size
  | .write p =>
    let (sent, tr) := h.transport.write p.bytes (h.sends.headD true)
    (sent, ⟨tr, h.sends.tail⟩)
  | .close => ((), { h with transport := h.transport.close })
  | .dispatch .. => ((), h)
  | .flashBlockDevice .. => (none, h)
  | .fork => (false, h)
  | .query q => (sampleSystem q, h)

/-- The session with a peer that sends a stream, for a number of commands. -/
def tcpSession (n : ℕ) (stream : List Byte) (sends : List Bool) :
    List SessionEvent × Except Stop Unit :=
  (executeCommands sampleConfig n).run TcpHost.answer {}
    ⟨TcpTransport.connected { stream := stream }, sends⟩

theorem sessionTrace_tcp (n : ℕ) (stream : List Byte) (sends : List Bool) :
    SessionTrace sampleConfig n (tcpSession n stream sends).1
      (some (tcpSession n stream sends).2) :=
  trace_run TcpHost.answer (executeCommands sampleConfig n) {} _

/-- A short message. -/
def shortMessage (payload : String) : List Byte :=
  [0, 0, 0, 0, 0, 0, 0, BitVec.ofNat 8 payload.length] ++ bytesOf payload

/-- `erase:sda1` whose last byte does not arrive. -/
def cutStream : List Byte := (shortMessage "erase:sda1").dropLast

/-- `unknown` whose last byte does not arrive. -/
def cutUnknown : List Byte := (shortMessage "unknown").dropLast

/-! ### Commands are messages -/

/-- The string is the whole payload of one message of the stream. -/
def IsMessage (stream bytes : List Byte) : Prop :=
  ∃ (messages : List Message) (m : Message) (rest : List Byte), m.payload = bytes ∧
    stream = messages.flatMap Message.bytes ++ m.bytes ++ rest

/-- The events of the session with `set_active` as its only message. -/
def setActiveEvents : List SessionEvent :=
  [⟨.readCommand, .got (bytesOf "set_active")⟩, ⟨.dispatch .setActive ["set_active"], ()⟩,
    ⟨.write (.status ⟨.fail, "Missing slot argument"⟩), true⟩, ⟨.readCommand, .got []⟩]

theorem commandFits_setActive :
    (TcpTransport.connected { stream := shortMessage "set_active" }).CommandFits := by
  have hreceive : (Socket.mk (shortMessage "set_active") []).receiveAll 8 =
      (some [0, 0, 0, 0, 0, 0, 0, 10], ⟨bytesOf "set_active", []⟩) := by
    decide +kernel
  refine ⟨rfl, fun s hs length s' h => ?_⟩
  cases hs
  cases h with
  | here hheader =>
    cases hreceive.symm.trans hheader
    refine ⟨by decide +kernel, by decide +kernel, ?_⟩
    trivial
  | skip hheader _ hempty =>
    cases hreceive.symm.trans hheader
    exact absurd hempty (by decide)

/-- The stream of a command that is cut off holds no message with the part that was received. -/
theorem not_isMessage_cutStream : ¬ IsMessage cutStream (bytesOf "erase:sda") := by
  rintro ⟨messages, m, rest, hpayload, hstream⟩
  have hten : extractMessageLength (cutStream.take 8) = 10 := by decide +kernel
  cases messages with
  | nil =>
    rw [List.flatMap_nil, List.nil_append] at hstream
    obtain ⟨hlength, -⟩ := Message.length_of_stream hstream
    rw [hten, hpayload] at hlength
    exact absurd hlength (by decide +kernel)
  | cons m' messages =>
    rw [List.flatMap_cons, List.append_assoc, List.append_assoc] at hstream
    obtain ⟨hlength, hle⟩ := Message.length_of_stream hstream
    rw [← hlength, hten] at hle
    exact absurd hle (by decide +kernel)

/-- In a run of calls no dropped socket is used and a dropped socket never leaves a message half
read, exactly if no call loses the connection inside a message. -/
theorem dropped_socket_unused_iff (s : Socket) (requests : List TcpTransport.Request) :
    (∀ before after, requests = before ++ after →
      ∃ tr, (TcpTransport.connected s).serveAll before = some tr ∧ tr.Kept) ↔
    ∀ before request after tr, requests = before ++ request :: after →
      (TcpTransport.connected s).serveAll before = some tr → tr.LosesBetween request := by
  constructor
  · intro h before request after tr heq hrun
    obtain ⟨tr₁, hrun₁, hkept⟩ := h before (request :: after) heq
    cases hrun.symm.trans hrun₁
    obtain ⟨tr', hserve, hiff⟩ := hkept.serve request
    obtain ⟨tr₂, hrun₂, hkept₂⟩ := h (before ++ [request]) after (by simp [heq])
    rw [TcpTransport.serveAll_concat hrun, hserve] at hrun₂
    cases hrun₂
    exact hiff.1 hkept₂
  · intro h before
    induction before using List.reverseRecOn with
    | nil => exact fun _ _ => ⟨TcpTransport.connected s, rfl, fun hnone => by cases hnone⟩
    | append_singleton before request ih =>
      intro after heq
      rw [List.append_assoc] at heq
      obtain ⟨tr, hrun, hkept⟩ := ih (request :: after) heq
      obtain ⟨tr', hserve, hiff⟩ := hkept.serve request
      refine ⟨tr', ?_, hiff.2 (h before request after tr heq hrun)⟩
      rw [TcpTransport.serveAll_concat hrun, hserve]

/-- The peer is lost inside an unknown command, whose reply fails, and the next read uses the socket
that was dropped. -/
theorem dropped_socket_used : ∃ t tr,
    SessionTrace sampleConfig 2 (t ++ [⟨.readCommand, .got []⟩]) (some (.ok ())) ∧
      (TcpTransport.connected { stream := cutUnknown }).follow t = some tr ∧
      tr.socket = none ∧ tr.messageBytesLeft = 1 ∧ tr.read kResponseSize = none :=
  ⟨(tcpSession 2 cutUnknown [false]).1.take 2, ⟨none, 1, false⟩,
    sessionTrace_tcp 2 cutUnknown [false], by decide +kernel, rfl, rfl, by decide +kernel⟩

end RpiFastbootd
