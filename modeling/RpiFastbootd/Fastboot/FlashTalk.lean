import RpiFastbootd.Lib.Duplex
import RpiFastbootd.Fastboot.Driver
import RpiFastbootd.Fastboot.FlashFiles
import RpiFastbootd.Fastboot.MacText

/-!
# How the host flashes some pieces

The host announces a piece, sends its bytes in packets of any lengths, and asks for them to be
flashed; each time it waits for the device.  This is a conversation (`flashTalk`), and the driver
keeps to it: whatever it is answered, and however late, it sends nothing else, and it is done only
when every piece has been answered with OKAY (`flashPartitionFiles_within`).
-/

namespace RpiFastbootd

/-! ### The conversation -/

/-- Where a flash of some pieces has come to: the piece at hand, what is left of it to be sent, and
the pieces after it. -/
inductive FlashStage
  | ready (rest : List (List Byte))
  | announced (data : List Byte) (rest : List (List Byte))
  | sending (left data : List Byte) (rest : List (List Byte))
  | staged (data : List Byte) (rest : List (List Byte))
  | flashing (data : List Byte) (rest : List (List Byte))
  | ended
  deriving DecidableEq, Repr

namespace FlashStage

/-- The response that the host waits for, and what comes after it. -/
def awaits : FlashStage → Option (ReplyKind × FlashStage)
  | announced data rest => some (.data, sending data data rest)
  | sending [] data rest => some (.okay, staged data rest)
  | flashing _ rest => some (.okay, ready rest)
  | _ => none

/-- What comes after a packet of the host. -/
def request (partition : String) : FlashStage → List Byte → Option FlashStage
  | ready (data :: rest), bytes =>
    if bytes = bytesOf (FastBootDriver.downloadText data.length) ∧ data.length ≤ kMaxDownloadSize
    then some (announced data rest) else none
  | sending left data rest, bytes =>
    if bytes ≠ [] ∧ bytes <+: left then some (sending (left.drop bytes.length) data rest) else none
  | staged data rest, bytes =>
    if bytes = bytesOf (FastBootDriver.flashText partition) then some (flashing data rest) else none
  | _, _ => none

/-- What comes after a response while `q` waits for one of a kind. -/
def respond (q : FlashStage) (kind : ReplyKind) (after : FlashStage) (bytes : List Byte) :
    Option FlashStage :=
  if kResponseSize < bytes.length then none
  else
    match replyKind (cString bytes) with
    | .info => some q
    | .text => some q
    | .fail => some ended
    | k => if k = kind then some after else none

end FlashStage

/-- The conversation of a host that flashes and the device. -/
def flashTalk (partition : String) : Conversation FlashStage (List Byte) where
  turn q := if q.awaits.isSome then .server else .client
  next q bytes :=
    match q.awaits with
    | some (kind, after) => q.respond kind after bytes
    | none => q.request partition bytes

/-! ### The link of the host -/

/-- The end of a link that the host holds: the packets that it will be sent, when its waits have taken
too long, and what it has sent and received. -/
structure HostLink where
  replies : List (List Byte) := []
  late : List Bool := []
  log : List (Exchange (List Byte)) := []
  deriving DecidableEq

/-- A link that carries whole packets.  What does not fit into a buffer is lost, and a read fails when
nothing comes. -/
def hostTransport : Transport HostLink where
  write st bytes := (some bytes.length, { st with log := st.log ++ [.sent bytes] })
  read st size :=
    match st.replies with
    | [] => (none, st)
    | bytes :: rest =>
      (some (bytes.take size), { st with replies := rest, log := st.log ++ [.received bytes] })
  strerror _ := "Success"
  late st := (st.late.headD false, { st with late := st.late.tail })

@[simp] theorem write_hostTransport (st : HostLink) (bytes : List Byte) :
    hostTransport.write st bytes =
      (some bytes.length, { st with log := st.log ++ [.sent bytes] }) := rfl

@[simp] theorem read_hostTransport_nil (late : List Bool) (log : List (Exchange (List Byte)))
    (size : ℕ) : hostTransport.read ⟨[], late, log⟩ size = (none, ⟨[], late, log⟩) := rfl

@[simp] theorem read_hostTransport_cons (bytes : List Byte) (rest : List (List Byte))
    (late : List Bool) (log : List (Exchange (List Byte))) (size : ℕ) :
    hostTransport.read ⟨bytes :: rest, late, log⟩ size =
      (some (bytes.take size), ⟨rest, late, log ++ [.received bytes]⟩) := rfl

@[simp] theorem late_hostTransport (st : HostLink) :
    hostTransport.late st = (st.late.headD false, { st with late := st.late.tail }) := rfl

section

variable {partition : String} {p q after : FlashStage} {kind : ReplyKind}
  {d d' : FastBootDriver HostLink} {fuel : ℕ} {bytes left data : List Byte}
  {rest : List (List Byte)}

/-- The host keeps to the conversation that started at `p`, and is at `q` if the device has kept to it
too. -/
def At (partition : String) (p : FlashStage) (d : FastBootDriver HostLink) (q : FlashStage) : Prop :=
  (flashTalk partition).Within .client p d.transport.log (· = q)

/-- How a call of the driver ends that is granted by a response: the host keeps to the conversation,
and with a success it has come to `q`. -/
structure Answers (partition : String) (p q : FlashStage) (fuel : ℕ)
    (result : Except HostStop (Reply × FastBootDriver HostLink)) : Prop where
  returns : ∃ reply d', result = .ok (reply, d') ∧ d'.transport.replies.length < fuel ∧
    (flashTalk partition).Keeps .client p d'.transport.log ∧
    (reply.code = .success → At partition p d' q)

theorem At.keeps (h : At partition p d q) :
    (flashTalk partition).Keeps .client p d.transport.log := h.1

theorem turn_of_awaits (h : q.awaits = some (kind, after)) :
    (flashTalk partition).turn q = .server := by
  show (if q.awaits.isSome then _ else _) = _
  rw [h]
  rfl

theorem next_of_awaits (h : q.awaits = some (kind, after)) (bytes : List Byte) :
    (flashTalk partition).next q bytes = q.respond kind after bytes := by
  show (match q.awaits with
    | some (kind, after) => q.respond kind after bytes
    | none => q.request partition bytes) = _
  rw [h]

/-- A packet of the host is sent in its turn. -/
theorem At.send (h : At partition p d q) (hq : q.awaits = none)
    (hrequest : q.request partition bytes = some after) (error : String) (disableChecks : Bool) :
    At partition p
      { transport := (hostTransport.write d.transport bytes).2, error, disableChecks } after := by
  refine Conversation.Within.send h fun q' hq' => ⟨?_, after, ?_, rfl⟩
  · subst hq'
    show (if q'.awaits.isSome then Party.server else .client) = _
    rw [hq]
    rfl
  · subst hq'
    show (match q'.awaits with
      | some (kind, after) => q'.respond kind after bytes
      | none => q'.request partition bytes) = _
    rw [hq]
    exact hrequest

/-- A response is received, and leads on if it may come. -/
theorem At.receive (h : At partition p d q) (hq : q.awaits = some (kind, after)) (bytes : List Byte) :
    (flashTalk partition).Within .client p (d.transport.log ++ [.received bytes])
      fun q' => q.respond kind after bytes = some q' :=
  Conversation.Within.receive h fun q' r hq' _ hnext => by
    subst hq'
    rw [← next_of_awaits hq, hnext]

/-- Where a response leads to, as far as the host looks at it. -/
theorem respond_cases {r : FlashStage} (h : q.respond kind after bytes = some r) :
    match replyKind (cString (bytes.take kResponseSize)) with
    | .info => r = q
    | .text => r = q
    | .fail => r = .ended
    | k => k = kind ∧ r = after := by
  unfold FlashStage.respond at h
  split_ifs at h with hlong
  rw [List.take_of_length_le (not_lt.1 hlong)]
  cases hkind : replyKind (cString bytes) <;> simp only [hkind] at h ⊢
  case info | text | fail => exact (Option.some.inj h).symm
  case okay | data | unknown =>
    split_ifs at h with heq
    exact ⟨heq, (Option.some.inj h).symm⟩

/-- The wait for a response comes to its end. -/
theorem handleResponse_answers (h : At partition p d q) (hq : q.awaits = some (kind, after))
    {rounds : ℕ} (hrounds : d.transport.replies.length < rounds)
    (hfuel : d.transport.replies.length < fuel) (reply : Reply) :
    Answers partition p after fuel
      (FastBootDriver.handleResponse hostTransport rounds reply d) := by
  induction rounds generalizing d reply with
  | zero => omega
  | succ rounds ih =>
    obtain ⟨⟨replies, late, log⟩, error, checks⟩ := d
    unfold FastBootDriver.handleResponse
    simp only [late_hostTransport]
    cases late.headD false with
    | true => exact ⟨_, ⟨⟨replies, late.tail, log⟩, error, checks⟩, rfl, hfuel, h.keeps, by simp⟩
    | false =>
      cases replies with
      | nil =>
        simp only [read_hostTransport_nil]
        exact ⟨_, ⟨⟨[], late.tail, log⟩, _, checks⟩, rfl, hfuel, h.keeps, by simp⟩
      | cons bytes more =>
        simp only [read_hostTransport_cons]
        have hreceive := h.receive hq bytes
        have hless : more.length < fuel := Nat.lt_of_succ_lt hfuel
        cases hkind : replyKind (cString (bytes.take kResponseSize)) with
        | info | text =>
          have hat : At partition p
              ⟨⟨more, late.tail, log ++ [.received bytes]⟩, error, checks⟩ q :=
            hreceive.mono fun r hr => by simpa only [hkind] using respond_cases hr
          exact ih hat (Nat.lt_of_succ_lt_succ hrounds) hless _
        | okay | data =>
          have hat : At partition p
              ⟨⟨more, late.tail, log ++ [.received bytes]⟩, error, checks⟩ after := by
            refine hreceive.mono fun r hr => ?_
            have hcases := respond_cases hr
            simp only [hkind] at hcases
            exact hcases.2
          exact ⟨_, _, rfl, hless, hat.keeps, fun _ => hat⟩
        | fail | unknown =>
          exact ⟨_, ⟨⟨more, late.tail, log ++ [.received bytes]⟩, _, checks⟩, rfl, hless,
            hreceive.1, by simp⟩

theorem length_bytesOf (s : String) : (bytesOf s).length = s.length := by
  rw [bytesOf, List.length_map, String.length_toList]

/-- A command that may be given is answered. -/
theorem rawCommand_answers {r : FlashStage} {cmd : String} (h : At partition p d q)
    (hq : q.awaits = none) (hrequest : q.request partition (bytesOf cmd) = some r)
    (hr : r.awaits = some (kind, after)) (hcmd : cmd.length ≤ kCommandSize)
    (hfuel : d.transport.replies.length < fuel) :
    Answers partition p after fuel (FastBootDriver.rawCommand hostTransport fuel cmd d) := by
  unfold FastBootDriver.rawCommand
  rw [if_neg fun hlong => absurd hcmd (not_le.2 hlong.1), write_hostTransport, length_bytesOf]
  dsimp only
  rw [if_pos rfl]
  exact handleResponse_answers (h.send hq hrequest "" d.disableChecks) hr hfuel hfuel {}

/-! ### Data -/

/-- The driver after a packet. -/
def FastBootDriver.sent (d : FastBootDriver HostLink) (bytes : List Byte) :
    FastBootDriver HostLink :=
  { d with transport := (hostTransport.write d.transport bytes).2 }

theorem sendBuffer_eq (hne : bytes ≠ []) :
    FastBootDriver.sendBuffer hostTransport bytes d = (.success, d.sent bytes) := by
  unfold FastBootDriver.sendBuffer
  rw [if_neg hne, write_hostTransport]
  exact if_pos rfl

theorem awaits_sending (hne : left ≠ []) : (FlashStage.sending left data rest).awaits = none := by
  cases left with
  | nil => exact absurd rfl hne
  | cons b left => rfl

/-- The next bytes of a piece are sent. -/
theorem At.flush {flushed : List Byte}
    (h : At partition p d (.sending (data.drop flushed.length) data rest)) (hne : bytes ≠ [])
    (hpre : flushed ++ bytes <+: data) :
    At partition p (d.sent bytes)
      (.sending (data.drop (flushed ++ bytes).length) data rest) := by
  obtain ⟨more, rfl⟩ := hpre
  have hdrop : (flushed ++ bytes ++ more).drop flushed.length = bytes ++ more := by
    rw [List.append_assoc, List.drop_left]
  refine h.send (awaits_sending ?_) ?_ d.error d.disableChecks
  · rw [hdrop]
    exact fun hnil => hne (List.append_eq_nil_iff.1 hnil).1
  · rw [hdrop, List.drop_left]
    show (if bytes ≠ [] ∧ bytes <+: bytes ++ more then _ else _) = _
    rw [if_pos ⟨hne, List.prefix_append _ _⟩, List.drop_left]

/-- Of what the callback was given, all is sent but the last bytes, as long as it is what the piece
starts with. -/
structure Gathers (partition : String) (p : FlashStage) (data : List Byte) (rest : List (List Byte))
    (replies : List (List Byte)) (sent : List Byte) (d : FastBootDriver HostLink)
    (tpbuf : List Byte) : Prop where
  replies : d.transport.replies = replies
  flushed : sent <+: data → ∃ flushed, sent = flushed ++ tpbuf ∧
    At partition p d (.sending (data.drop flushed.length) data rest)

section

variable {replies : List (List Byte)} {sent tpbuf : List Byte}

theorem Gathers.gather (h : Gathers partition p data rest replies sent d tpbuf)
    (more : List Byte) :
    Gathers partition p data rest replies (sent ++ more) d (tpbuf ++ more) := by
  refine ⟨h.replies, fun hpre => ?_⟩
  obtain ⟨flushed, rfl, hat⟩ := h.flushed ((List.prefix_append _ _).trans hpre)
  exact ⟨flushed, List.append_assoc _ _ _, hat⟩

theorem Gathers.flush (h : Gathers partition p data rest replies sent d tpbuf) (hne : tpbuf ≠ []) :
    FastBootDriver.sendBuffer hostTransport tpbuf d = (.success, d.sent tpbuf) ∧
      Gathers partition p data rest replies sent (d.sent tpbuf) [] := by
  refine ⟨sendBuffer_eq hne, h.replies, fun hpre => ?_⟩
  obtain ⟨flushed, rfl, hat⟩ := h.flushed hpre
  exact ⟨flushed ++ tpbuf, (List.append_nil _).symm, hat.flush hne hpre⟩

/-- Between the calls of the callback fewer bytes than a chunk are kept. -/
def Gathered (partition : String) (p : FlashStage) (data : List Byte) (rest : List (List Byte))
    (replies : List (List Byte)) (sent : List Byte) (st : FastBootDriver HostLink × List Byte) :
    Prop :=
  st.2.length < kTransportChunkSize ∧ Gathers partition p data rest replies sent st.1 st.2

/-- The callback takes all bytes. -/
theorem collects_sparseWriteCallback (partition : String) (p : FlashStage) (data : List Byte)
    (rest : List (List Byte)) (replies : List (List Byte)) :
    Collects (FastBootDriver.sparseWriteCallback hostTransport)
      (Gathered partition p data rest replies) where
  take := by
    rintro sent ⟨d, tpbuf⟩ ⟨hlt, h⟩ bytes
    unfold FastBootDriver.sparseWriteCallback
    dsimp only at hlt h ⊢
    have hchunk : 0 < kTransportChunkSize := by decide
    have htake : (bytes.take (min (kTransportChunkSize - tpbuf.length) bytes.length)).length =
        min (kTransportChunkSize - tpbuf.length) bytes.length :=
      List.length_take_of_le (Nat.min_le_right _ _)
    generalize hn : min (kTransportChunkSize - tpbuf.length) bytes.length = n at htake ⊢
    have hsplit : bytes.take n ++ bytes.drop n = bytes := List.take_append_drop _ _
    by_cases hshort : (tpbuf ++ bytes.take n).length < kTransportChunkSize
    · rw [if_pos hshort]
      have hall : bytes.take n = bytes := by
        rw [List.length_append, htake] at hshort
        exact List.take_of_length_le (by omega)
      rw [hall] at hshort ⊢
      exact ⟨_, rfl, hshort, h.gather bytes⟩
    · rw [if_neg hshort]
      have hne : tpbuf ++ bytes.take n ≠ [] := fun hnil => by
        rw [hnil] at hshort
        exact hshort hchunk
      obtain ⟨hsend, hflushed⟩ := (h.gather (bytes.take n)).flush hne
      rw [hsend]
      dsimp only
      generalize bytes.drop n = more at hsplit ⊢
      have hmod := Nat.mod_add_div more.length kTransportChunkSize
      have hrest := Nat.mod_lt more.length hchunk
      have hsent := hflushed.gather more
      rw [List.append_assoc, hsplit] at hsent
      split_ifs with hzero
      · refine ⟨_, rfl, ?_, hsent⟩
        show more.length < _
        omega
      · generalize hbytes : kTransportChunkSize * (more.length / kTransportChunkSize) = nbytes
          at hmod hzero ⊢
        have hsome : more.take nbytes ≠ [] := fun hnil => by
          have hlength := congrArg List.length hnil
          rw [List.length_take, List.length_nil] at hlength
          omega
        obtain ⟨hsend, hflushed⟩ := (hflushed.gather (more.take nbytes)).flush hsome
        have hsent := hflushed.gather (more.drop nbytes)
        rw [List.append_assoc, List.take_append_drop, List.append_assoc, hsplit] at hsent
        rw [List.nil_append] at hsend
        rw [hsend]
        refine ⟨_, rfl, ?_, hsent⟩
        show (more.drop nbytes).length < _
        rw [List.length_drop]
        omega

end

/-! ### Pieces -/

theorem length_downloadText {n : ℕ} (h : n ≤ kMaxDownloadSize) :
    (FastBootDriver.downloadText n).length = 17 := by
  have hlt : n < 4294967296 := by
    rw [kMaxDownloadSize] at h
    omega
  have hdigits : (hexText 8 n).length = 8 := by
    rw [← String.length_toList, toList_hexText_eight, List.length_flatten]
    simp only [List.map_cons, List.map_nil, List.sum_cons, List.sum_nil]
    rw [length_byteText (by omega), length_byteText (by omega), length_byteText (by omega),
      length_byteText (by omega)]
    rfl
  rw [FastBootDriver.downloadText, String.length_append, hdigits]
  rfl

variable {image : List Byte} {s : FdSparseFile} {total : ℕ}

/-- All bytes of a piece are sent after it was announced, and nothing else. -/
theorem download_answers (hsound : s.Sound image total)
    (hdata : (s.sparseImage image total).bytes = data) (hlt : data.length < 2 ^ 63)
    (h : At partition p d (.ready (data :: rest))) (hfuel : d.transport.replies.length < fuel) :
    Answers partition p (.staged data rest) fuel
      (FastBootDriver.download hostTransport fuel image s d) := by
  have hsize : sparseFileLenSparse image s = .ok (data.length : ℤ) := by
    rw [← hdata] at hlt ⊢
    exact hsound.sparseFileLenSparse_eq hlt
  unfold FastBootDriver.download
  rw [hsize]
  show Answers partition p (.staged data rest) fuel (if _ then _ else _)
  by_cases hbad : (data.length : ℤ) ≤ 0 ∨ (kMaxDownloadSize : ℤ) < data.length
  · rw [if_pos hbad]
    exact ⟨_, _, rfl, hfuel, h.keeps, by simp⟩
  rw [if_neg hbad, Int.toNat_natCast]
  obtain ⟨reply, d₁, hcommand, hfuel₁, hkeeps₁, hat₁⟩ := (rawCommand_answers
    (d := { d with error := "" }) h rfl (if_pos ⟨rfl, by omega⟩) rfl
    (by rw [length_downloadText (by omega)]; decide) hfuel).returns
  rw [FastBootDriver.downloadCommand, hcommand]
  show Answers partition p (.staged data rest) fuel (if reply.code = .success then _ else _)
  split_ifs with hcode
  swap
  · exact ⟨_, _, rfl, hfuel₁, hkeeps₁, fun hsuccess => absurd hsuccess hcode⟩
  have hstart : Gathered partition p data rest d₁.transport.replies [] (d₁, []) :=
    ⟨(by decide : 0 < kTransportChunkSize), rfl, fun _ => ⟨[], rfl, hat₁ hcode⟩⟩
  obtain ⟨⟨d₂, tpbuf⟩, hcallback, -, hgathers⟩ := (collects_sparseWriteCallback partition p data rest
    d₁.transport.replies).sparseFileCallback hsound hstart
  rw [hcallback]
  rw [hdata] at hgathers
  show Answers partition p (.staged data rest) fuel (if tpbuf = [] then _ else _)
  have hdone : ∀ d₃ : FastBootDriver HostLink,
      Gathers partition p data rest d₁.transport.replies data d₃ [] →
      Answers partition p (.staged data rest) fuel
        (FastBootDriver.handleResponse hostTransport fuel {} d₃) := by
    intro d₃ hgathers
    obtain ⟨flushed, hflushed, hat⟩ := hgathers.flushed List.prefix_rfl
    rw [List.append_nil] at hflushed
    rw [← hflushed, List.drop_length] at hat
    rw [← hgathers.replies] at hfuel₁
    exact handleResponse_answers hat rfl hfuel₁ hfuel₁ {}
  split_ifs with hempty
  · subst hempty
    exact hdone d₂ hgathers
  · obtain ⟨hsend, hflushed⟩ := hgathers.flush hempty
    rw [hsend]
    exact hdone _ hflushed

theorem flash_answers (h : At partition p d (.staged data rest)) (hpartition : partition.length ≤ 250)
    (hfuel : d.transport.replies.length < fuel) :
    Answers partition p (.ready rest) fuel
      (FastBootDriver.flash hostTransport fuel partition d) := by
  refine rawCommand_answers h rfl (if_pos rfl) rfl ?_ hfuel
  rw [FastBootDriver.flashText, String.length_append]
  show 6 + partition.length ≤ 4096
  omega

/-- The host keeps to the conversation, and if it is done, so is the conversation. -/
theorem flashPartitionFiles_within {pieces : List FdSparseFile}
    (hsound : ∀ s ∈ pieces, s.Sound image total ∧ (s.sparseImage image total).bytes.length < 2 ^ 63)
    (hpartition : partition.length ≤ 250)
    (h : At partition p d (.ready (pieceBytes image total pieces)))
    (hfuel : d.transport.replies.length < fuel) :
    ∃ ended d', flashPartitionFiles hostTransport fuel image partition pieces d = .ok (ended, d') ∧
      (flashTalk partition).Keeps .client p d'.transport.log ∧
      (ended = .done → At partition p d' (.ready [])) := by
  induction pieces generalizing d with
  | nil => exact ⟨.done, d, rfl, h.keeps, fun _ => h⟩
  | cons s rest ih =>
    rw [List.forall_mem_cons] at hsound
    obtain ⟨⟨hs, hlt⟩, hrest⟩ := hsound
    unfold flashPartitionFiles
    simp only [hs.sparseFileLenSparse_eq hlt, liftFault, ok_bind]
    rw [if_neg (by omega)]
    obtain ⟨reply, d₁, hdownload, hfuel₁, hkeeps₁, hat₁⟩ :=
      (download_answers hs rfl hlt h hfuel).returns
    rw [hdownload, ok_bind]
    dsimp only
    by_cases hcode : reply.code = .success
    swap
    · rw [if_neg hcode]
      exact ⟨_, d₁, rfl, hkeeps₁, by simp⟩
    rw [if_pos hcode]
    obtain ⟨reply₂, d₂, hflash, hfuel₂, hkeeps₂, hat₂⟩ :=
      (flash_answers (hat₁ hcode) hpartition hfuel₁).returns
    rw [hflash, ok_bind]
    dsimp only
    by_cases hcode₂ : reply₂.code = .success
    · rw [if_pos hcode₂]
      exact ih hrest (hat₂ hcode₂) hfuel₂
    · rw [if_neg hcode₂]
      exact ⟨_, d₂, rfl, hkeeps₂, by simp⟩

end

end RpiFastbootd
