import RpiFastbootd.Fastboot.UdpLink

/-!
# A session over UDP

Whatever the network does to the packets, a host that has connected and whose writes and reads
succeed has had the conversation with the target that it would have had over a perfect network: the
target has taken what was written, in packets that both ends can hold, once and in order, and each read
has brought the data of the responses (`udp_session`).  When a call fails, what the target has taken
of the data is what was written first (`udp_session_prefix`).
-/

namespace RpiFastbootd

namespace Udp

/-- The packets of some data, with room for a number of bytes in each. -/
def packets (id : Byte) (room : ℕ) (data : List Byte) : List Packet :=
  if 0 < room ∧ room < data.length then
    ⟨id, true, data.take room⟩ :: packets id room (data.drop room)
  else [⟨id, false, data⟩]
  termination_by data.length
  decreasing_by
    rw [List.length_drop]
    omega

/-- The data of the responses that are no errors, as they come out of a buffer. -/
def heard (room : ℕ) (rs : List Packet) : List Byte :=
  rs.flatMap fun r => if r.id = kIdError then [] else r.data.take room

section

variable {τ : Type} (target : Target τ)

/-- The chains of some packets. -/
inductive Talks : τ → List Packet → List Packet → List Packet → τ → Prop
  | nil {s : τ} : Talks s [] [] [] s
  | cons {s s' s'' : τ} {p : Packet} {ps qs qs' rs rs' : List Packet}
    (h : Chain target s p qs rs s') (hrest : Talks s' ps qs' rs' s'') :
    Talks s (p :: ps) (qs ++ qs') (rs ++ rs') s''

/-- A call of the transport. -/
inductive Op
  | write (data : List Byte)
  | read (length : ℕ)
  deriving DecidableEq, Repr

def Op.written : Op → List Byte
  | write data => data
  | read _ => []

/-- The calls over a perfect network: the packets that the target takes, and what the reads bring. -/
inductive Session (room : ℕ) : τ → List Op → List Packet → List (List Byte) → τ → Prop
  | nil {s : τ} : Session room s [] [] [] s
  | write {s s' s'' : τ} {data : List Byte} {ops : List Op} {qs qs' rs : List Packet}
    {out : List (List Byte)}
    (h : Talks target s (packets kIdFastboot room data) qs rs s') (hempty : heard room rs = [])
    (hrest : Session room s' ops qs' out s'') :
    Session room s (.write data :: ops) (qs ++ qs') out s''
  | read {s s' s'' : τ} {length : ℕ} {ops : List Op} {qs qs' rs : List Packet}
    {out : List (List Byte)}
    (h : Talks target s (packets kIdFastboot room []) qs rs s')
    (hfits : (heard room rs).length ≤ length) (hrest : Session room s' ops qs' out s'') :
    Session room s (.read length :: ops) (qs ++ qs') (heard room rs :: out) s''

end

/-- The calls of a host, up to the first one that fails. -/
def perform {σ : Type} (S : Socket σ) (fuel : ℕ) :
    List Op → UdpTransport σ → Except HostStop (Option (List (List Byte)) × UdpTransport σ)
  | [], t => return (some [], t)
  | .write data :: ops, t => do
    match ← t.write S fuel data with
    | (none, t) => return (none, t)
    | (some _, t) => perform S fuel ops t
  | .read length :: ops, t => do
    match ← t.read S fuel length with
    | (none, t) => return (none, t)
    | (some bytes, t) =>
      let (out, t) ← perform S fuel ops t
      return (out.map (bytes :: ·), t)

/-! ### Packets and data -/

theorem flatMap_packets (id : Byte) (room : ℕ) (data : List Byte) :
    (packets id room data).flatMap Packet.data = data := by
  induction data using packets.induct room with
  | case1 data hlong ih =>
    rw [packets, if_pos hlong, List.flatMap_cons, ih]
    exact List.take_append_drop room data
  | case2 data hshort => rw [packets, if_neg hshort, List.flatMap_singleton]

theorem length_le_of_mem_packets {id : Byte} {room : ℕ} {data : List Byte} (hroom : 0 < room)
    {p : Packet} (hp : p ∈ packets id room data) : p.data.length ≤ room := by
  induction data using packets.induct room with
  | case1 data hlong ih =>
    rw [packets, if_pos hlong] at hp
    obtain rfl | hp := List.mem_cons.1 hp
    · exact List.length_take_le _ _
    · exact ih hp
  | case2 data hshort =>
    rw [packets, if_neg hshort] at hp
    obtain rfl := List.mem_singleton.1 hp
    exact not_lt.1 fun hlt => hshort ⟨hroom, hlt⟩

section

variable {τ : Type} {target : Target τ} {s s' : τ} {q : Packet} {ps qs rs : List Packet}
  {room rxLength : ℕ}

theorem Chain.flatMap_data (h : Chain target s q qs rs s') : qs.flatMap Packet.data = q.data := by
  induction h with
  | last => rw [List.flatMap_singleton]
  | more _ _ ih => rw [List.flatMap_cons, ih, List.append_nil]

theorem Chain.length_le (h : Chain target s q qs rs s') {p : Packet} (hp : p ∈ qs) :
    p.data.length ≤ q.data.length := by
  induction h with
  | last =>
    obtain rfl := List.mem_singleton.1 hp
    exact le_rfl
  | more _ _ ih =>
    obtain rfl | hp := List.mem_cons.1 hp
    · exact le_rfl
    · exact (ih hp).trans (Nat.zero_le _)

theorem Talks.flatMap_data (h : Talks target s ps qs rs s') :
    qs.flatMap Packet.data = ps.flatMap Packet.data := by
  induction h with
  | nil => rfl
  | cons h _ ih => rw [List.flatMap_append, List.flatMap_cons, h.flatMap_data, ih]

theorem Talks.length_le (h : Talks target s ps qs rs s') {p : Packet} (hp : p ∈ qs) :
    ∃ q ∈ ps, p.data.length ≤ q.data.length := by
  induction h with
  | nil => exact absurd hp List.not_mem_nil
  | cons h _ ih =>
    obtain hp | hp := List.mem_append.1 hp
    · exact ⟨_, List.mem_cons_self, h.length_le hp⟩
    · obtain ⟨q, hq, hle⟩ := ih hp
      exact ⟨q, List.mem_cons_of_mem _ hq, hle⟩

theorem Session.flatMap_data {ops : List Op} {out : List (List Byte)}
    (h : Session target room s ops qs out s') :
    qs.flatMap Packet.data = ops.flatMap Op.written := by
  induction h with
  | nil => rfl
  | write h _ _ ih =>
    rw [List.flatMap_append, List.flatMap_cons, h.flatMap_data, flatMap_packets, ih]
    rfl
  | read h _ _ ih =>
    rw [List.flatMap_append, List.flatMap_cons, h.flatMap_data, flatMap_packets, ih]
    rfl

theorem Session.length_le {ops : List Op} {out : List (List Byte)} (hroom : 0 < room)
    (h : Session target room s ops qs out s') {p : Packet} (hp : p ∈ qs) :
    p.data.length ≤ room := by
  induction h with
  | nil => exact absurd hp List.not_mem_nil
  | write h _ _ ih | read h _ _ ih =>
    obtain hp | hp := List.mem_append.1 hp
    · obtain ⟨q, hq, hle⟩ := h.length_le hp
      exact hle.trans (length_le_of_mem_packets hroom hq)
    · exact ih hp

theorem Part.flatMap_data (h : Part q qs) : qs.flatMap Packet.data <+: q.data := by
  obtain rfl | ⟨prompts, rfl, hprompts⟩ := h
  · exact List.nil_prefix
  · have hnil : prompts.flatMap Packet.data = [] := List.flatMap_eq_nil_iff.2 hprompts
    rw [List.flatMap_cons, hnil, List.append_nil]

theorem heard_append (rs rs' : List Packet) : heard room (rs ++ rs') = heard room rs ++ heard room rs' :=
  List.flatMap_append

/-- What is gathered from some responses. -/
theorem foldl_hear (rs : List Packet) (g : Gathered) :
    ((rs.map (Packet.cut room)).foldl (Gathered.hear rxLength) g).total =
        g.total + (heard room rs).length ∧
      ((rs.map (Packet.cut room)).foldl (Gathered.hear rxLength) g).rxData =
        g.rxData ++ (heard room rs).take (rxLength - g.rxData.length) := by
  induction rs generalizing g with
  | nil => exact ⟨rfl, by rw [heard, List.flatMap_nil, List.take_nil, List.append_nil]; rfl⟩
  | cons r rs ih =>
    obtain ⟨htotal, hdata⟩ := ih (g.hear rxLength (r.cut room))
    rw [List.map_cons, List.foldl_cons, htotal, hdata]
    by_cases hid : r.id = kIdError
    · have hhear : g.hear rxLength (r.cut room) = { g with error := g.error ++ (r.cut room).data } :=
        if_pos hid
      have hheard : heard room (r :: rs) = heard room rs := by
        rw [heard, List.flatMap_cons, if_pos hid]
        rfl
      rw [hhear, hheard]
      exact ⟨rfl, rfl⟩
    · have hhear : g.hear rxLength (r.cut room) =
          { g with
            total := g.total + (r.data.take room).length
            rxData := g.rxData ++ (r.data.take room).take (rxLength - g.rxData.length) } :=
        if_neg hid
      have hheard : heard room (r :: rs) = r.data.take room ++ heard room rs := by
        rw [heard, List.flatMap_cons, if_neg hid]
        rfl
      rw [hhear, hheard]
      constructor
      · rw [List.length_append, Nat.add_assoc]
      · rw [List.append_assoc, List.take_append, List.length_append, List.length_take]
        congr 3
        omega

theorem gathered (room rxLength : ℕ) (rs : List Packet) :
    ((rs.map (Packet.cut room)).foldl (Gathered.hear rxLength) {}).total = (heard room rs).length ∧
      ((rs.map (Packet.cut room)).foldl (Gathered.hear rxLength) {}).rxData =
        (heard room rs).take rxLength := by
  simpa using foldl_hear rs {}

/-! ### The calls -/

/-- The transport is between two packets. -/
structure Synced (t : UdpTransport (NetSocket τ)) (st : NetSocket τ) : Prop where
  socket : t.socket = some st
  idle : st.net.Idle kSequences
  sequence : t.sequence % kSequences = st.net.expected % kSequences
  size : t.rxPacketSize = t.maxDataLength + kHeaderSize
  room : 0 < t.maxDataLength

/-- After a failure: the target has taken some packets, and their data are the first of some data. -/
def Fails (st : NetSocket τ) (data : List Byte) (t : UdpTransport (NetSocket τ)) : Prop :=
  ∃ st' qs, t.socket = some st' ∧ st'.net.taken = st.net.taken ++ qs ∧
    qs.flatMap Packet.data <+: data

variable {t t' : UdpTransport (NetSocket τ)} {st : NetSocket τ} {id : Byte} {fuel attempts : ℕ}
  {data : List Byte}

theorem Fails.of_taken {st' : NetSocket τ} {more : List Byte} (h : Fails st' more t)
    (htaken : st'.net.taken = st.net.taken ++ qs) (hdata : data = qs.flatMap Packet.data ++ more) :
    Fails st data t := by
  obtain ⟨st'', qs', hsocket, htaken', hprefix⟩ := h
  refine ⟨st'', qs ++ qs', hsocket, ?_, ?_⟩
  · rw [htaken', htaken, List.append_assoc]
  · rw [List.flatMap_append, hdata]
    exact (List.prefix_append_right_inj _).2 hprefix

theorem Fails.append (h : Fails st data t) (more : List Byte) : Fails st (data ++ more) t := by
  obtain ⟨st', qs, hsocket, htaken, hprefix⟩ := h
  exact ⟨st', qs, hsocket, htaken, hprefix.trans (List.prefix_append _ _)⟩

/-- How `SendData` ends. -/
def SendEnds (target : Target τ) (id : Byte) (data : List Byte) (rxLength : ℕ)
    (sofar : ℕ × List Byte) (t : UdpTransport (NetSocket τ)) (st : NetSocket τ)
    (t' : UdpTransport (NetSocket τ)) : Except String (ℕ × List Byte) → Prop
  | .ok (ret, rxData) => ∃ st' qs rs, Synced t' st' ∧ t'.maxDataLength = t.maxDataLength ∧
      Talks target st.net.state (packets id t.maxDataLength data) qs rs st'.net.state ∧
      st'.net.taken = st.net.taken ++ qs ∧
      ret = sofar.1 + (heard t.maxDataLength rs).length ∧
      rxData = sofar.2 ++ (heard t.maxDataLength rs).take rxLength
  | .error _ => Fails st data t'

theorem sendSinglePacketHelper_net {r : Except String Gathered} (h : Synced t st)
    (hid : q.id ≠ kIdDeviceQuery)
    (hrun : t.sendSinglePacketHelper (netSocket target) fuel (Header.set q.id t.sequence q.flag)
      q.data rxLength attempts st = .ok (r, t')) :
    ∃ st' sequence, t' = { t with socket := some st', sequence } ∧
      HelperEnds target t.maxDataLength rxLength st.net q {} st' sequence r := by
  obtain ⟨⟨r', st', sequence⟩, hloop, heq⟩ := bind_eq_ok_iff.1 hrun
  cases heq
  rw [h.size] at hloop
  exact ⟨st', sequence, rfl, sendSinglePacketLoop_net hloop h.idle.waiting hid h.sequence⟩

theorem sendDataLoop_net {sofar : ℕ × List Byte} {r : Except String (ℕ × List Byte)}
    (h : Synced t st) (hid : id ≠ kIdDeviceQuery)
    (hrun : UdpTransport.sendDataLoop (netSocket target) id attempts fuel data rxLength sofar t =
      .ok (r, t')) :
    SendEnds target id data rxLength sofar t st t' r := by
  induction fuel generalizing data rxLength sofar t st with
  | zero => cases hrun
  | succ fuel ih =>
    obtain ⟨ret, rxData⟩ := sofar
    rw [UdpTransport.sendDataLoop, h.socket] at hrun
    dsimp only at hrun
    obtain ⟨⟨r', t₁⟩, hhelper, hrun⟩ := bind_eq_ok_iff.1 hrun
    by_cases hlong : t.maxDataLength < data.length
    · simp only [hlong, ↓reduceIte] at hhelper hrun
      obtain ⟨st₁, sequence, rfl, hends⟩ := sendSinglePacketHelper_net
        (q := ⟨id, true, data.take t.maxDataLength⟩) h hid hhelper
      cases r' with
      | error e =>
        cases hrun
        obtain ⟨qs, htaken, hpart⟩ := hends
        exact ⟨st₁, qs, rfl, htaken, hpart.flatMap_data.trans (List.take_prefix _ _)⟩
      | ok g =>
        obtain ⟨qs, rs, hchain, htaken, hidle, hsequence, rfl⟩ := hends
        dsimp only at hrun
        rw [if_pos (Nat.sub_pos_of_lt hlong)] at hrun
        have hnext : Synced { t with socket := some st₁, sequence } st₁ :=
          ⟨rfl, hidle, hsequence, h.size, h.room⟩
        have hrest := ih hnext hrun
        have hdata : data = qs.flatMap Packet.data ++ data.drop t.maxDataLength := by
          rw [hchain.flatMap_data]
          exact (List.take_append_drop _ _).symm
        cases r with
        | error e => exact hrest.of_taken htaken hdata
        | ok p =>
          obtain ⟨st', qs', rs', hsynced, hmax, htalks, htaken', hret, hrxData⟩ := hrest
          obtain ⟨htotal, hheard⟩ := gathered t.maxDataLength rxLength rs
          refine ⟨st', qs ++ qs', rs ++ rs', hsynced, hmax, ?_, ?_, ?_, ?_⟩
          · rw [packets, if_pos ⟨h.room, hlong⟩]
            exact .cons hchain htalks
          · rw [htaken', htaken, List.append_assoc]
          · rw [hret, htotal, heard_append, List.length_append]
            exact Nat.add_assoc _ _ _
          · rw [hrxData, htotal, hheard, heard_append, List.take_append, List.append_assoc]
    · simp only [hlong, ↓reduceIte] at hhelper hrun
      rw [List.take_length] at hhelper
      obtain ⟨st₁, sequence, rfl, hends⟩ := sendSinglePacketHelper_net
        (q := ⟨id, false, data⟩) h hid hhelper
      cases r' with
      | error e =>
        cases hrun
        obtain ⟨qs, htaken, hpart⟩ := hends
        exact ⟨st₁, qs, rfl, htaken, hpart.flatMap_data⟩
      | ok g =>
        obtain ⟨qs, rs, hchain, htaken, hidle, hsequence, rfl⟩ := hends
        dsimp only at hrun
        rw [if_neg (by omega)] at hrun
        cases hrun
        obtain ⟨htotal, hheard⟩ := gathered t.maxDataLength rxLength rs
        refine ⟨st₁, qs, rs, ⟨rfl, hidle, hsequence, h.size, h.room⟩, rfl, ?_, htaken, ?_, ?_⟩
        · rw [packets, if_neg fun hpos => hlong hpos.2]
          have htalks := Talks.cons hchain .nil
          rwa [List.append_nil, List.append_nil] at htalks
        · rw [htotal]
        · rw [hheard]

/-- How a `Write` ends. -/
def WriteEnds (target : Target τ) (data : List Byte) (t : UdpTransport (NetSocket τ))
    (st : NetSocket τ) (t' : UdpTransport (NetSocket τ)) : Option ℕ → Prop
  | some _ => ∃ st' qs rs, Synced t' st' ∧ t'.maxDataLength = t.maxDataLength ∧
      Talks target st.net.state (packets kIdFastboot t.maxDataLength data) qs rs st'.net.state ∧
      st'.net.taken = st.net.taken ++ qs ∧ heard t.maxDataLength rs = []
  | none => Fails st data t'

theorem write_net {r : Option ℕ} (h : Synced t st)
    (hrun : t.write (netSocket target) fuel data = .ok (r, t')) :
    WriteEnds target data t st t' r := by
  obtain ⟨⟨r', t₁⟩, hsend, hrun⟩ := bind_eq_ok_iff.1 hrun
  have hends := sendDataLoop_net h (by decide) hsend
  cases r' with
  | error e =>
    cases hrun
    exact hends
  | ok p =>
    obtain ⟨ret, rxData⟩ := p
    obtain ⟨st', qs, rs, hsynced, hmax, htalks, htaken, hret, -⟩ := hends
    dsimp only at hrun hret
    split_ifs at hrun with hpos
    · cases hrun
      refine ⟨st', qs, hsynced.socket, htaken, ?_⟩
      rw [htalks.flatMap_data, flatMap_packets]
    · cases hrun
      exact ⟨st', qs, rs, hsynced, hmax, htalks, htaken, List.length_eq_zero_iff.1 (by omega)⟩

/-- How a `Read` ends. -/
def ReadEnds (target : Target τ) (length : ℕ) (t : UdpTransport (NetSocket τ))
    (st : NetSocket τ) (t' : UdpTransport (NetSocket τ)) : Option (List Byte) → Prop
  | some bytes => ∃ st' qs rs, Synced t' st' ∧ t'.maxDataLength = t.maxDataLength ∧
      Talks target st.net.state (packets kIdFastboot t.maxDataLength []) qs rs st'.net.state ∧
      st'.net.taken = st.net.taken ++ qs ∧ (heard t.maxDataLength rs).length ≤ length ∧
      bytes = heard t.maxDataLength rs
  | none => Fails st [] t'

theorem read_net {r : Option (List Byte)} {length : ℕ} (h : Synced t st)
    (hrun : t.read (netSocket target) fuel length = .ok (r, t')) :
    ReadEnds target length t st t' r := by
  obtain ⟨⟨r', t₁⟩, hsend, hrun⟩ := bind_eq_ok_iff.1 hrun
  have hends := sendDataLoop_net h (by decide) hsend
  cases r' with
  | error e =>
    cases hrun
    exact hends
  | ok p =>
    obtain ⟨ret, rxData⟩ := p
    obtain ⟨st', qs, rs, hsynced, hmax, htalks, htaken, hret, hrxData⟩ := hends
    dsimp only at hrun hret hrxData
    split_ifs at hrun with hlong
    · cases hrun
      refine ⟨st', qs, hsynced.socket, htaken, ?_⟩
      rw [htalks.flatMap_data, flatMap_packets]
    · cases hrun
      have hfits : (heard t.maxDataLength rs).length ≤ length := by omega
      refine ⟨st', qs, rs, hsynced, hmax, htalks, htaken, hfits, ?_⟩
      rw [hrxData, List.nil_append, List.take_of_length_le hfits]

/-- How the calls of a host end. -/
def PerformEnds (target : Target τ) (room : ℕ) (ops : List Op) (st : NetSocket τ)
    (t' : UdpTransport (NetSocket τ)) : Option (List (List Byte)) → Prop
  | some out => ∃ st' qs, Synced t' st' ∧
      Session target room st.net.state ops qs out st'.net.state ∧ st'.net.taken = st.net.taken ++ qs
  | none => Fails st (ops.flatMap Op.written) t'

theorem perform_net {ops : List Op} {r : Option (List (List Byte))} (h : Synced t st)
    (hrun : perform (netSocket target) fuel ops t = .ok (r, t')) :
    PerformEnds target t.maxDataLength ops st t' r := by
  induction ops generalizing t st r with
  | nil =>
    cases hrun
    exact ⟨st, [], h, .nil, (List.append_nil _).symm⟩
  | cons op ops ih =>
    cases op with
    | write data =>
      obtain ⟨⟨n, t₁⟩, hwrite, hrun⟩ := bind_eq_ok_iff.1 hrun
      have hends := write_net h hwrite
      cases n with
      | none =>
        cases hrun
        exact hends.append _
      | some n =>
        obtain ⟨st₁, qs, rs, hsynced, hmax, htalks, htaken, hempty⟩ := hends
        have hrest := ih hsynced hrun
        rw [hmax] at hrest
        cases r with
        | none => exact hrest.of_taken htaken (by rw [htalks.flatMap_data, flatMap_packets]; rfl)
        | some out =>
          obtain ⟨st', qs', hsynced', hsession, htaken'⟩ := hrest
          exact ⟨st', qs ++ qs', hsynced', .write htalks hempty hsession,
            by rw [htaken', htaken, List.append_assoc]⟩
    | read length =>
      obtain ⟨⟨bytes, t₁⟩, hread, hrun⟩ := bind_eq_ok_iff.1 hrun
      have hends := read_net h hread
      cases bytes with
      | none =>
        cases hrun
        exact hends.append _
      | some bytes =>
        obtain ⟨st₁, qs, rs, hsynced, hmax, htalks, htaken, hfits, rfl⟩ := hends
        obtain ⟨⟨out, t₂⟩, hperform, hrun⟩ := bind_eq_ok_iff.1 hrun
        cases hrun
        have hrest := ih hsynced hperform
        rw [hmax] at hrest
        cases out with
        | none => exact hrest.of_taken htaken (by rw [htalks.flatMap_data, flatMap_packets]; rfl)
        | some out =>
          obtain ⟨st', qs', hsynced', hsession, htaken'⟩ := hrest
          exact ⟨st', qs ++ qs', hsynced', .read htalks hfits hsession,
            by rw [htaken', htaken, List.append_assoc]⟩

/-! ### The connection -/

/-- Nothing is on the way. -/
def Fresh (N : Net τ Packet Packet) : Prop := N.requests = [] ∧ N.replies = []

theorem Fresh.probing {N : Net τ Packet Packet} (h : Fresh N) : N.Probing kSequences N := by
  refine ⟨⟨rfl, rfl, rfl⟩, fun p hp => ?_, fun p hp => ?_⟩
  · rw [h.1] at hp
    exact absurd hp List.not_mem_nil
  · rw [h.2] at hp
    exact absurd hp List.not_mem_nil

theorem query_net {ret : ℕ} {rxData : List Byte} (hsocket : t.socket = some st)
    (hfresh : Fresh st.net) (hsequence : t.sequence = 0)
    (hsize : t.rxPacketSize = t.maxDataLength + kHeaderSize) (hroom : 2 ≤ t.maxDataLength)
    (hrun : t.sendData (netSocket target) fuel kIdDeviceQuery [] 4 attempts =
      .ok (.ok (ret, rxData), t')) :
    ∃ st' sequence, t' = { t with socket := some st', sequence } ∧
      st'.net.Probing kSequences st.net ∧ rxData = uint16Bytes (st.net.expected % kSequences) := by
  cases fuel with
  | zero => cases hrun
  | succ fuel =>
    rw [UdpTransport.sendData, UdpTransport.sendDataLoop, hsocket] at hrun
    dsimp only at hrun
    have hshort : ¬ t.maxDataLength < ([] : List Byte).length := Nat.not_lt_zero _
    simp only [hshort, ↓reduceIte, hsequence] at hrun
    obtain ⟨⟨r, t₁⟩, hhelper, hrun⟩ := bind_eq_ok_iff.1 hrun
    obtain ⟨⟨_, st', sequence⟩, hloop, heq⟩ := bind_eq_ok_iff.1 hhelper
    cases heq
    rw [hsize] at hloop
    obtain ⟨hprobing, hgathered⟩ := sendSinglePacketLoop_query hloop hfresh.probing
    cases r with
    | error e => cases hrun
    | ok g =>
      cases hrun
      refine ⟨st', sequence, rfl, hprobing, ?_⟩
      rw [hgathered g rfl]
      have hcut : (queryResponse st.net.expected).cut t.maxDataLength =
          queryResponse st.net.expected := by
        have htake : (uint16Bytes (st.net.expected % kSequences)).take t.maxDataLength =
            uint16Bytes (st.net.expected % kSequences) := List.take_of_length_le hroom
        rw [Packet.cut, queryResponse, htake]
      rw [hcut]
      rfl

theorem extractUint16_take (bytes : List Byte) (n : ℕ) :
    extractUint16 ((bytes.take (n + 4)).drop 2) = extractUint16 (bytes.drop 2) := by
  match bytes with
  | [] | [_] | [_, _] | [_, _, _] => rfl
  | _ :: _ :: _ :: _ :: _ => rfl

/-- A connection: the target has taken the initialization packet, and the size of a packet is what
both ends can hold. -/
theorem newTransport_net (hfresh : Fresh st.net)
    (hrun : UdpTransport.newTransport (netSocket target) fuel st = .ok (.ok t)) :
    ∃ st' qs rs, Synced t st' ∧
      Talks target st.net.state (packets kIdInitialization (kMinPacketSize - kHeaderSize)
        UdpTransport.initData) qs rs st'.net.state ∧
      st'.net.taken = st.net.taken ++ qs ∧
      t.maxDataLength + kHeaderSize = min kHostMaxPacketSize
        (extractUint16 ((heard (kMinPacketSize - kHeaderSize) rs).drop 2)) ∧
      kMinPacketSize ≤ t.maxDataLength + kHeaderSize := by
  obtain ⟨ret, rxData, t₁, ret', rxData', t₂, hquery, hsend, hsize, rfl⟩ :=
    UdpTransport.newTransport_ok hrun
  have hroom : 2 ≤ kMinPacketSize - kHeaderSize := by decide
  obtain ⟨st₁, sequence, rfl, hprobing, rfl⟩ := query_net rfl hfresh rfl rfl hroom hquery
  have hstart : extractUint16 (uint16Bytes (st.net.expected % kSequences)) =
      st.net.expected % kSequences :=
    extractUint16_uint16Bytes (Nat.mod_lt _ (by decide)) []
  rw [hstart] at hsend
  have hsynced : Synced (τ := τ) ⟨some st₁, st.net.expected % kSequences,
      kMinPacketSize - kHeaderSize, kMinPacketSize⟩ st₁ := by
    refine ⟨rfl, hprobing.idle, ?_, rfl, Nat.lt_of_lt_of_le Nat.two_pos hroom⟩
    rw [hprobing.same.expected]
    exact Nat.mod_mod _ _
  obtain ⟨st', qs, rs, hsynced', -, htalks, htaken, -, rfl⟩ :=
    sendDataLoop_net hsynced (by decide) hsend
  rw [hprobing.same.state] at htalks
  rw [hprobing.same.taken] at htaken
  have htake : extractUint16 (([] ++ (heard (kMinPacketSize - kHeaderSize) rs).take 4).drop 2) =
      extractUint16 ((heard (kMinPacketSize - kHeaderSize) rs).drop 2) :=
    extractUint16_take _ 0
  dsimp only at hsize ⊢
  rw [htake] at hsize ⊢
  have hmin := le_min (show kMinPacketSize ≤ kHostMaxPacketSize by decide) hsize
  have hheader := hmin.trans_lt' (show kHeaderSize < kMinPacketSize by decide)
  have hcancel := Nat.sub_add_cancel hheader.le
  refine ⟨st', qs, rs, ⟨hsynced'.socket, hsynced'.idle, hsynced'.sequence, hcancel.symm,
    Nat.sub_pos_of_lt hheader⟩, htalks, htaken, hcancel, ?_⟩
  rw [hcancel]
  exact hmin

end

/-- A target that keeps what is written, and answers OKAY to a read. -/
def sampleTarget : Target (List Byte) := fun log q =>
  if q.id = kIdInitialization then (log, { data := [0, 1, 2, 0] })
  else if q.data = [] then (log, { data := [79, 75, 65, 89] })
  else (log ++ q.data, {})

/-- A network that loses the initialization packet once, and delivers packets and responses late and
twice. -/
def sampleSocket : NetSocket (List Byte) where
  net := { state := [], expected := 65535 }
  receives := [([0], .response 0), ([], .nothing), ([0, 1], .response 1), ([0, 0, 1], .response 0),
    ([1, 0], .response 2), ([0], .response 0)]

end Udp

end RpiFastbootd
