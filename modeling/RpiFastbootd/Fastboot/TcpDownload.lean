import RpiFastbootd.Fastboot.TcpSession

/-!
# Downloads over TCP

The payload of a download comes in messages of any lengths, and their bytes in receives of any
sizes.  What follows on a connection is the payload of the rest of the stream, without the headers
(`payloadFrom`); however a peer splits its data into messages, this is the data.  A read in a data
phase brings the bytes that were asked for from there, or fails, and a download that fails ends the
session.
-/

namespace RpiFastbootd

open FastbootDevice

/-! ### The payload of a stream -/

/-- The payload in a stream, with a number of bytes left of the current message, or with a part of
the next header received. -/
def payloadFrom : ℕ → List Byte → List Byte → List Byte
  | _, _, [] => []
  | left + 1, header, b :: rest => b :: payloadFrom left header rest
  | 0, header, b :: rest =>
    if header.length = 7 then payloadFrom (extractMessageLength (header ++ [b])) [] rest
    else payloadFrom 0 (header ++ [b]) rest

theorem payloadFrom_message {left : ℕ} {bytes : List Byte} (h : bytes.length ≤ left)
    (header rest : List Byte) :
    payloadFrom left header (bytes ++ rest) =
      bytes ++ payloadFrom (left - bytes.length) header rest := by
  induction bytes generalizing left with
  | nil => rfl
  | cons b bytes ih =>
    obtain ⟨left, rfl⟩ : ∃ n, left = n + 1 := by
      refine Nat.exists_eq_succ_of_ne_zero ?_
      rintro rfl
      simp at h
    rw [List.cons_append, payloadFrom, ih (by simpa using h), List.length_cons,
      Nat.add_sub_add_right, List.cons_append]

theorem payloadFrom_header {part more : List Byte} (h : part.length + more.length = 8)
    (hmore : more ≠ []) (rest : List Byte) :
    payloadFrom 0 part (more ++ rest) =
      payloadFrom (extractMessageLength (part ++ more)) [] rest := by
  induction more generalizing part with
  | nil => exact absurd rfl hmore
  | cons b more ih =>
    rw [List.length_cons] at h
    rw [List.cons_append, payloadFrom]
    by_cases hlast : part.length = 7
    · obtain rfl : more = [] := List.length_eq_zero_iff.1 (by omega)
      rw [if_pos hlast]
      rfl
    · have hne : more ≠ [] := by
        rintro rfl
        exact hlast (by simpa using h)
      rw [if_neg hlast, ih (by simp; omega) hne, List.append_assoc]
      rfl

/-- The payload of some messages is the same however they split it. -/
theorem payloadFrom_messages (messages : List Message) (rest : List Byte) :
    payloadFrom 0 [] (messages.flatMap Message.bytes ++ rest) =
      messages.flatMap Message.payload ++ payloadFrom 0 [] rest := by
  induction messages with
  | nil => rfl
  | cons m messages ih =>
    have hne : m.header ≠ [] := by
      intro hnil
      have := m.length_header
      rw [hnil] at this
      cases this
    rw [List.flatMap_cons, List.flatMap_cons, Message.bytes, List.append_assoc, List.append_assoc,
      payloadFrom_header (by simp [m.length_header]) hne, List.nil_append, m.announced,
      payloadFrom_message le_rfl, Nat.sub_self, ih, List.append_assoc]

/-! ### A read in a data phase -/

namespace TcpTransport

/-- The payload that follows on a connection. -/
def follows (tr : TcpTransport) : List Byte :=
  match tr.socket with
  | some s => payloadFrom tr.messageBytesLeft [] s.stream
  | none => []

section

variable {tr tr' : TcpTransport} {s : Socket} {len fuel : ℕ} {data : List Byte} {r : Received}

/-- A read in a data phase comes to its end with all the bytes that are missing, the next ones of
the payload that follows, or fails. -/
theorem readLoop_follows (hsocket : tr.socket = some s) (hdownloading : tr.downloading = true)
    (hfuel : s.stream.length + 2 ≤ fuel) (hdata : data.length ≤ len)
    (hread : readLoop len fuel tr data = some (r, tr')) :
    (∃ bytes, r = .failed bytes) ∨
      r = .got (data ++ tr.follows.take (len - data.length)) ∧
        len - data.length ≤ tr.follows.length := by
  induction fuel generalizing tr s data with
  | zero => omega
  | succ fuel ih =>
    have hfollows : tr.follows = payloadFrom tr.messageBytesLeft [] s.stream := by
      rw [follows, hsocket]
    unfold readLoop at hread
    simp only [hsocket] at hread
    by_cases hleft : tr.messageBytesLeft = 0
    · rw [if_pos hleft] at hread
      rw [hleft] at hfollows
      obtain ⟨s', hnone, -⟩ | ⟨header, s', hheader, hstream, -⟩ := s.receiveAll_cases 8
      · simp only [hnone] at hread
        rw [if_neg (by simp), if_pos hdownloading] at hread
        cases hread
        exact .inl ⟨_, rfl⟩
      · simp only [hheader] at hread
        split_ifs at hread with hlength
        · have hne : header ≠ [] := by
            rintro rfl
            cases hlength
          rw [hstream, List.length_append] at hfuel
          rw [hstream, payloadFrom_header (by simpa using hlength) hne] at hfollows
          rw [hfollows]
          change header.length = 8 at hlength
          exact @ih ⟨some s', extractMessageLength header, tr.downloading⟩ s' data rfl hdownloading
            (by omega) hdata hread
        · cases hread
          exact .inl ⟨_, rfl⟩
    · rw [if_neg hleft] at hread
      obtain ⟨s', hnone, -⟩ | ⟨bytes, s', hbytes, hstream, hle, hsome⟩ :=
        s.receiveAll_cases (min (len - data.length) tr.messageBytesLeft)
      · simp only [hnone] at hread
        cases hread
        exact .inl ⟨_, rfl⟩
      · simp only [hbytes, hdownloading, true_and] at hread
        rw [hstream, payloadFrom_message (hle.trans (min_le_right _ _))] at hfollows
        rw [hstream, List.length_append] at hfuel
        rw [hfollows]
        have hroom : bytes.length ≤ len - data.length := hle.trans (min_le_left _ _)
        have hlen : (data ++ bytes).length = data.length + bytes.length := List.length_append
        split_ifs at hread with hmore
        · have hpos : bytes.length ≠ 0 := by
            intro hzero
            exact hsome (by omega) (List.length_eq_zero_iff.1 hzero)
          refine (@ih ⟨some s', tr.messageBytesLeft - bytes.length, true⟩ s' (data ++ bytes) rfl rfl
            (by omega) (by omega) hread).imp_right ?_
          rintro ⟨rfl, hrest⟩
          rw [hlen, ← Nat.sub_sub] at hrest ⊢
          rw [List.take_append, List.take_of_length_le hroom, List.length_append,
            List.append_assoc]
          refine ⟨rfl, ?_⟩
          change _ ≤ (payloadFrom (tr.messageBytesLeft - bytes.length) [] s'.stream).length at hrest
          omega
        · cases hread
          have hall : len - data.length = bytes.length := by omega
          right
          rw [hall, List.take_left, List.length_append]
          exact ⟨rfl, Nat.le_add_right _ _⟩

theorem read_follows (hsocket : tr.socket = some s) (hdownloading : tr.downloading = true)
    (hread : tr.read len = some (r, tr')) :
    (∃ bytes, r = .failed bytes) ∨ r = .got (tr.follows.take len) ∧ len ≤ tr.follows.length := by
  unfold read at hread
  split_ifs at hread
  · cases hread
    exact .inl ⟨_, rfl⟩
  · rw [rounds, hsocket] at hread
    exact readLoop_follows hsocket hdownloading le_rfl (Nat.zero_le _) hread

end

end TcpTransport

/-! ### The download command -/

/-- Whether `HandleData` takes the outcome of its read for the whole of the buffer. -/
def Received.fills (size : ℕ) : Received → Bool
  | got bytes => bytes.length = size
  | failed _ => false

/-- A call of `HandleData` for a number of bytes, with the payload that followed on the connection
when it was made, and its result. -/
structure DataPhase where
  size : ℕ
  follows : List Byte
  complete : Bool

/-- What is known of a connection: the transport, as long as the calls are answered as it answers
them, and the last data phase. -/
structure Connection where
  transport : Option TcpTransport
  phase : Option DataPhase := none

namespace Connection

/-- The data phase that is known after a call. -/
def phaseAfter (g : Connection) : (c : Call) → c.Answer → Option DataPhase
  | .readData size, a =>
    some ⟨size, (g.transport.map TcpTransport.follows).getD [], a.fills size⟩
  | _, _ => g.phase

end Connection

/-- The observer of a connection. -/
def tcpWatcher : Monitor Call Call.Answer Connection where
  safe _ _ := True
  next g c a := ⟨g.transport.bind (·.answers ⟨c, a⟩), g.phaseAfter c a⟩

/-- What has to hold of a data phase: its result is true only with the first bytes that followed in
the buffer, never when fewer followed, and false only with the transport marked as failed. -/
structure DataPhase.Exact (phase : DataPhase) (d : FastbootDevice) : Prop where
  buffer : phase.complete = true → phase.size ≤ phase.follows.length ∧
    d.downloadData = phase.follows.take phase.size
  short : phase.follows.length < phase.size → phase.complete = false
  failed : phase.complete = false → d.transportFailed = true

/-- The last data phase of a connection is exact. -/
def Downloaded (d : FastbootDevice) (g : Connection) : Prop :=
  g.transport.isSome → ∀ phase, g.phase = some phase → phase.Exact d

section

variable {d : FastbootDevice} {g : Connection} {tr : TcpTransport}

theorem isSome_of_isSome_bind {α β : Type} {x : Option α} {f : α → Option β}
    (h : (x.bind f).isSome) : x.isSome := by
  cases x with
  | none => cases h
  | some a => rfl

/-- A reply keeps the buffer, and a failed transport failed. -/
theorem Downloaded.meets_writeStatus (h : Downloaded d g) (result : FastbootResult)
    (message : String) :
    Meets tcpWatcher (writeStatus result message) d g fun r d' g' =>
      Downloaded d' g' ∧ (d.transportFailed = true → d'.transportFailed = true) ∧
        ∃ sent, r = .ok sent := by
  have hexact (d' : FastbootDevice) (hbuffer : d'.downloadData = d.downloadData)
      (hfailed : d.transportFailed = true → d'.transportFailed = true) (p : Packet) (sent : Bool) :
      Downloaded d' (tcpWatcher.next g (.write p) sent) := by
    intro hsome phase hphase
    obtain ⟨hb, hs, hf⟩ := h (isSome_of_isSome_bind hsome) phase hphase
    exact ⟨fun hc => by rw [hbuffer]; exact hb hc, hs, fun hc => hfailed (hf hc)⟩
  refine meets_writeStatus_iff.2
    ⟨trivial, ⟨?_, fun hf => hf, true, rfl⟩, ?_, fun _ => rfl, false, rfl⟩
  · apply hexact
    · rfl
    · exact fun hf => hf
  · apply hexact
    · rfl
    · exact fun _ => rfl

/-- The transport is in a data phase once the DATA response has been sent. -/
theorem answers_data {message : String} {tr' : TcpTransport}
    (h : tr.answers ⟨.write (.status ⟨.data, message⟩), true⟩ = some tr') :
    tr'.downloading = true ∧ ∃ s, tr'.socket = some s := by
  change (if (tr.write (Packet.status ⟨.data, message⟩).bytes true).1 = true then
    some (tr.write (Packet.status ⟨.data, message⟩).bytes true).2 else none) = some tr' at h
  split_ifs at h with hsent
  cases h
  unfold TcpTransport.write at hsent ⊢
  split_ifs at hsent ⊢ with hrefused
  have htag : [0x44, 0x41, 0x54, 0x41].isPrefixOf (Packet.status ⟨.data, message⟩).bytes = true :=
    TcpTransport.isPrefixOf_tag .data (bytesOf message)
  exact ⟨htag, Option.ne_none_iff_exists'.1 (not_or.1 hrefused).1⟩

/-- The data phase that is known after `HandleData` has its result. -/
theorem meets_handleDataRead_complete (d : FastbootDevice) (g : Connection) :
    Meets tcpWatcher handleDataRead d g fun r _ g' =>
      ∃ phase, g'.phase = some phase ∧ phase.size = d.downloadData.length ∧
        r = .ok phase.complete := by
  refine meets_bind.2 (meets_state.2 (meets_bind.2 ⟨trivial, fun a => ?_⟩))
  refine meets_bind.2 (meets_update.2 ?_)
  dsimp only
  cases a with
  | failed bytes => exact meets_bind.2 (meets_update.2 ⟨_, rfl, rfl, rfl⟩)
  | got bytes =>
    dsimp only
    by_cases hlength : bytes.length = d.downloadData.length
    · rw [if_pos hlength]
      exact ⟨_, rfl, rfl, congrArg Except.ok (decide_eq_true hlength).symm⟩
    · rw [if_neg hlength]
      exact meets_bind.2 (meets_update.2
        ⟨_, rfl, rfl, congrArg Except.ok (decide_eq_false hlength).symm⟩)

/-- Every read on a live socket comes to an end. -/
theorem exists_answer_readData {s : Socket} (hsocket : tr.socket = some s) (size : ℕ) :
    ∃ a tr', tr.answers ⟨.readData size, a⟩ = some tr' := by
  obtain ⟨a, tr', hread⟩ : ∃ a tr', tr.read size = some (a, tr') := by
    unfold TcpTransport.read
    split_ifs
    · exact ⟨_, _, rfl⟩
    · rw [TcpTransport.rounds, hsocket]
      obtain ⟨a, tr', hread, -⟩ := TcpTransport.readLoop_kept hsocket le_rfl size []
      exact ⟨a, tr', hread⟩
  refine ⟨a, tr', ?_⟩
  show tr.reads size a = some tr'
  rw [TcpTransport.reads, hread]
  exact if_pos rfl

/-- `HandleData` in a data phase. -/
theorem meets_dataPhase {s : Socket} (hdownloading : tr.downloading = true)
    (hsocket : tr.socket = some s) (phase : Option DataPhase) :
    Meets tcpWatcher handleDataRead d ⟨some tr, phase⟩ fun r d' g' =>
      Downloaded d' g' ∧ ∃ b, r = .ok b := by
  refine meets_bind.2 (meets_state.2 (meets_bind.2 ⟨trivial, fun a => ?_⟩))
  refine meets_bind.2 (meets_update.2 ?_)
  dsimp only
  have hread {tr' : TcpTransport}
      (h : tr.answers ⟨.readData d.downloadData.length, a⟩ = some tr') :
      (∃ bytes, a = .failed bytes) ∨
        a = .got (tr.follows.take d.downloadData.length) ∧
          d.downloadData.length ≤ tr.follows.length :=
    TcpTransport.read_follows hsocket hdownloading (TcpTransport.read_of_reads h)
  cases a with
  | failed bytes =>
    refine meets_bind.2 (meets_update.2 ⟨fun _ phase' hphase' => ?_, false, rfl⟩)
    cases hphase'
    exact ⟨fun hc => absurd hc Bool.false_ne_true, fun _ => rfl, fun _ => rfl⟩
  | got bytes =>
    dsimp only
    by_cases hlength : bytes.length = d.downloadData.length
    · rw [if_pos hlength]
      refine ⟨fun hsome phase' hphase' => ?_, true, rfl⟩
      cases hphase'
      obtain ⟨tr', htr'⟩ := Option.isSome_iff_exists.1 hsome
      obtain ⟨_, hfailed⟩ | ⟨hgot, hle⟩ := hread htr'
      · cases hfailed
      · have hfull : Received.fills d.downloadData.length (.got bytes) = true :=
          decide_eq_true hlength
        refine ⟨fun _ => ⟨hle, ?_⟩, fun hshort => absurd hle (not_le.2 hshort),
          fun hc => absurd (hfull.symm.trans hc) (by decide)⟩
        show fill bytes d.downloadData = tr.follows.take d.downloadData.length
        rw [fill_eq hlength]
        exact Received.got.inj hgot
    · rw [if_neg hlength]
      refine meets_bind.2 (meets_update.2 ⟨fun _ phase' hphase' => ?_, false, rfl⟩)
      cases hphase'
      have hnot : Received.fills d.downloadData.length (.got bytes) = false :=
        decide_eq_false hlength
      exact ⟨fun hc => absurd (hnot.symm.trans hc) (by decide), fun _ => hnot, fun _ => rfl⟩

/-- Without a data phase there is nothing to hold. -/
theorem downloaded_of_phase_eq_none (h : g.phase = none) : Downloaded d g := by
  intro _ phase hphase
  rw [h] at hphase
  cases hphase

/-- So there is once a call is not answered as the transport does. -/
theorem downloaded_of_lost (h : g.transport = none) : Downloaded d g := by
  intro hsome
  rw [h] at hsome
  cases hsome

theorem meets_of_transport_eq_none {α : Type} (m : DeviceM α) (d : FastbootDevice)
    (phase : Option DataPhase) :
    Meets tcpWatcher m d ⟨none, phase⟩ fun _ _ g' => g'.transport = none := by
  induction m generalizing d phase with
  | ret a => rfl
  | stop e => rfl
  | get k ih => exact ih d d phase
  | put s k ih => exact ih s phase
  | call c k ih => exact ⟨trivial, fun a => ih a d _⟩

/-- How the download command ends: with a result or an exception, and its data phase exact. -/
structure DownloadEnds (r : Except Stop Bool) (d : FastbootDevice) (g : Connection) : Prop where
  downloaded : Downloaded d g
  threw : g.transport.isSome → ∀ e, r = .error e → ∃ what, e = .threw what

theorem Downloaded.meets_reply (h : Downloaded d g) (result : FastbootResult) (message : String) :
    Meets tcpWatcher (writeStatus result message) d g DownloadEnds := by
  refine (h.meets_writeStatus result message).mono ?_
  rintro _ d' g' ⟨hd, -, sent, rfl⟩
  exact ⟨hd, fun _ e he => by cases he⟩

/-- The DATA response and the data phase after it. -/
theorem meets_data (transport : Option TcpTransport) (message : String) :
    Meets tcpWatcher (do
        if (← writeStatus .data message) = false then return false
        else if (← handleDataRead) = true then writeOkay ""
        else writeFail "Couldn't download data") d ⟨transport, none⟩ DownloadEnds := by
  refine meets_bind.2 (meets_bind.2 ⟨trivial, fun sent => ?_⟩)
  cases sent with
  | false =>
    exact meets_bind.2 (meets_update.2
      ⟨downloaded_of_phase_eq_none rfl, fun _ e he => by cases he⟩)
  | true =>
    refine meets_bind.2 (meets_update.2 ?_)
    let data : Packet := .status ⟨.data, clip .data message⟩
    have hnext : tcpWatcher.next ⟨transport, none⟩ (.write data) true =
      ⟨transport.bind (·.answers ⟨.write data, true⟩), none⟩ := rfl
    rw [hnext]
    cases hanswer : transport.bind (·.answers ⟨.write data, true⟩) with
    | none =>
      refine (meets_of_transport_eq_none (do
        if (← handleDataRead) = true then writeOkay ""
        else writeFail "Couldn't download data") _ _).mono fun _ _ _ hlost => ?_
      exact ⟨downloaded_of_lost hlost, fun hsome => by rw [hlost] at hsome; cases hsome⟩
    | some tr' =>
      obtain ⟨tr, -, hwrite⟩ := Option.bind_eq_some_iff.1 hanswer
      obtain ⟨hdownloading, s, hsocket⟩ := answers_data hwrite
      refine meets_bind.2 ((meets_dataPhase hdownloading hsocket none).mono ?_)
      rintro _ d' g' ⟨h, b, rfl⟩
      cases b with
      | true => exact h.meets_reply .okay ""
      | false => exact h.meets_reply .fail "Couldn't download data"

/-- The download command leaves its data phase exact. -/
theorem meets_downloadHandler (transport : Option TcpTransport) (args : List String) :
    Meets tcpWatcher (downloadHandler args) d ⟨transport, none⟩ DownloadEnds := by
  have hfail (message : String) :
      Meets tcpWatcher (writeFail message) d ⟨transport, none⟩ DownloadEnds :=
    (downloaded_of_phase_eq_none rfl).meets_reply .fail message
  unfold downloadHandler
  split_ifs with hlen
  · exact hfail _
  · exact hfail _
  · rw [arg_of_lt (not_lt.1 hlen), pure_bind]
    split_ifs
    · exact hfail _
    · split
      · exact hfail _
      · split_ifs
        · exact hfail _
        · refine meets_bind.2 ⟨trivial, fun a => ?_⟩
          cases a with
          | error what =>
            exact ⟨downloaded_of_phase_eq_none rfl,
              fun _ e he => ⟨what, (Except.error.inj he).symm⟩⟩
          | ok a => exact meets_bind.2 (meets_update.2 (meets_data _ _))

/-- How a turn of the loop ends: a failed transport ends the session. -/
structure TurnEnds (r : Except Stop Bool) (d : FastbootDevice) (g : Connection) : Prop where
  downloaded : Downloaded d g
  ends : g.transport.isSome → d.transportFailed = true → r = .ok false

theorem Downloaded.meets_afterCommand (h : Downloaded d g) (b : Bool) :
    Meets tcpWatcher (afterCommand b) d g TurnEnds := by
  refine meets_bind.2 (meets_state.2 ?_)
  dsimp only
  cases hfailed : d.transportFailed with
  | true => exact ⟨h, fun _ _ => rfl⟩
  | false =>
    have hno {r : Except Stop Bool} : d.transportFailed = true → r = .ok false :=
      fun hf => absurd (hfailed.symm.trans hf) Bool.false_ne_true
    cases decideAfterCommand b d.replied false with
    | nextCommand => exact ⟨h, fun _ => hno⟩
    | endSession => exact ⟨h, fun _ => hno⟩
    | replyFailThenNext =>
      refine meets_bind.2 ((h.meets_writeStatus .fail _).mono ?_)
      rintro _ d' g' ⟨hd, -, sent, rfl⟩
      refine meets_bind.2 (meets_state.2 ⟨hd, fun _ hf => ?_⟩)
      rw [hf]
      rfl

/-- One turn of the loop with a download command. -/
theorem meets_dispatch_download (config : SessionConfig) (args : List String)
    (d : FastbootDevice) (tr : TcpTransport) :
    Meets tcpWatcher (dispatch config .download args) d ⟨some tr, none⟩ TurnEnds := by
  refine meets_bind.2 (meets_update.2 (meets_bind.2 ⟨trivial, fun _ => ?_⟩))
  refine meets_bind.2 (meets_rescue.2 (meets_bind.2 ((meets_downloadHandler (some tr) args).mono ?_)))
  rintro r d' g' ⟨hd, hthrew⟩
  cases r with
  | ok b => exact hd.meets_afterCommand b
  | error e =>
    cases e with
    | threw what =>
      refine meets_bind.2 ((hd.meets_writeStatus .fail _).mono ?_)
      rintro _ d₁ g₁ ⟨hd₁, -, sent, rfl⟩
      exact ⟨hd₁, fun _ _ => rfl⟩
    | _ => exact ⟨hd, fun hsome => by obtain ⟨what, hwhat⟩ := hthrew hsome _ rfl; cases hwhat⟩

end

/-- Four bytes in three messages, one of them empty. -/
example : (tcpSession 2 (shortMessage "download:00000004" ++ shortMessage "ab" ++ shortMessage "" ++
    shortMessage "cd") []).1.filterMap SessionEvent.payload = [bytesOf "abcd"] := by
  decide +kernel

end RpiFastbootd
