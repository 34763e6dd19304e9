import RpiFastbootd.Fastboot.Udp
import RpiFastbootd.Lib.StopWait

/-!
# UDP packets over a network that loses them

The socket of a host whose packets go over a network that loses, repeats and reorders them, to a
target that takes a packet when it has the number that is expected.  What the target does with a
packet is left open.

A packet of the host and the empty packets by which it prompts for the rest of the response are taken
once each and in order, and what the host has gathered are the data of the responses
(`sendSinglePacketLoop_net`).  The number that the host starts with is the one that is expected
(`sendSinglePacketLoop_query`).
-/

namespace RpiFastbootd

namespace Udp

/-- A packet without its number. -/
structure Packet where
  id : Byte
  more : Bool
  data : List Byte
  deriving DecidableEq, Repr

/-- How a target answers a packet: with data or with the text of an error, and whether there is
more. -/
structure Answer where
  failed : Bool := false
  more : Bool := false
  data : List Byte := []
  deriving DecidableEq, Repr

/-- A target that keeps a `τ`. -/
abbrev Target (τ : Type) := τ → Packet → τ × Answer

/-- The number of the packets that are told apart. -/
def kSequences : ℕ := 2 ^ 16

namespace Packet

def flag (p : Packet) : Byte := if p.more then kFlagContinuation else kFlagNone

def bytes (number : ℕ) (p : Packet) : List Byte := (Header.mk p.id p.flag number).bytes ++ p.data

/-- The packet as it comes out of a buffer with room for some data. -/
def cut (room : ℕ) (p : Packet) : Packet := { p with data := p.data.take room }

end Packet

/-- The number of a packet of the host, and the packet if it is no query. -/
def parseRequest : List Byte → Option (ℕ × Option Packet)
  | id :: flag :: high :: low :: data =>
    some (extractUint16 [high, low],
      if id = kIdDeviceQuery then none else some ⟨id, flag &&& kFlagContinuation ≠ 0, data⟩)
  | _ => none

/-- A response has the id of the packet, unless it is an error. -/
def Target.respond {τ : Type} (target : Target τ) (st : τ) (q : Packet) : τ × Packet :=
  let (st, a) := target st q
  (st, ⟨if a.failed then kIdError else q.id, a.more, a.data⟩)

/-- The bytes of a response; the response to a query has the number that is expected. -/
def responseBytes (p : Parcel (ℕ ⊕ Packet)) : List Byte :=
  match p.body with
  | .inl expected => Packet.bytes p.number ⟨kIdDeviceQuery, false, uint16Bytes expected⟩
  | .inr r => r.bytes p.number

/-- What the network brings the host: the response with an index, if it is there. -/
inductive Brought
  | response (i : ℕ)
  | nothing
  | error
  deriving DecidableEq, Repr

/-- The network with the target, and what it does at the sends, which fail or not, and at the
receives: the requests that it delivers, and what it brings the host. -/
structure NetSocket (τ : Type) where
  net : Net τ Packet Packet
  sends : List (List ℕ × Bool) := []
  receives : List (List ℕ × Brought) := []

section

variable {τ : Type} (target : Target τ)

/-- What the network brings. -/
def bring (size : ℕ) (net : Net τ Packet Packet) : Brought → Datagram
  | .response i =>
    match net.reply kSequences i with
    | some p => .got ((responseBytes p).take size)
    | none => .timedOut
  | .nothing => .timedOut
  | .error => .failed

def netSocket : Socket (NetSocket τ) where
  send st bytes :=
    let (delivered, fails) := st.sends.headD ([], false)
    let net := match parseRequest bytes, fails with
      | some (number, body), false => st.net.ask number body
      | _, _ => st.net
    (!fails,
      { st with net := net.deliver kSequences target.respond delivered, sends := st.sends.tail })
  receive st size :=
    let (delivered, brought) := st.receives.headD ([], .nothing)
    let net := st.net.deliver kSequences target.respond delivered
    (bring size net brought, { st with net, receives := st.receives.tail })
  getErrorMessage _ := "Success"
  close _ := 0

/-- The packets that the target takes for a packet of the host, and its responses: the host prompts for
the rest of a response, and the last one is no error. -/
inductive Chain : τ → Packet → List Packet → List Packet → τ → Prop
  | last {st : τ} {q : Packet} (hmore : (target.respond st q).2.more = false)
    (hid : (target.respond st q).2.id ≠ kIdError) :
    Chain st q [q] [(target.respond st q).2] (target.respond st q).1
  | more {st st' : τ} {q : Packet} {qs rs : List Packet}
    (hmore : (target.respond st q).2.more = true)
    (h : Chain (target.respond st q).1 ⟨(target.respond st q).2.id, false, []⟩ qs rs st') :
    Chain st q (q :: qs) ((target.respond st q).2 :: rs) st'

end

/-! ### Bytes of packets -/

theorem extractUint16_uint16Bytes {n : ℕ} (hn : n < 2 ^ 16) (rest : List Byte) :
    extractUint16 (uint16Bytes n ++ rest) = n := by
  show (BitVec.ofNat 8 (n / 256)).toNat * 256 + (BitVec.ofNat 8 n).toNat = n
  simp only [BitVec.toNat_ofNat]
  omega

theorem uint16Bytes_inj {m n : ℕ} (hm : m < 2 ^ 16) (hn : n < 2 ^ 16)
    (h : uint16Bytes m = uint16Bytes n) : m = n := by
  rw [← extractUint16_uint16Bytes hm [], h, extractUint16_uint16Bytes hn]

namespace Packet

variable {p : Packet} {number : ℕ}

theorem take_bytes (room : ℕ) :
    (p.bytes number).take (room + kHeaderSize) = (p.cut room).bytes number := rfl

theorem flag_eq (p : Packet) : p.flag &&& kFlagContinuation ≠ 0 ↔ p.more = true := by
  unfold flag
  cases p.more <;> decide

theorem matches_bytes {header : Header} :
    header.Matches (p.bytes number) ↔ uint16Bytes number = uint16Bytes header.sequence ∧
      (p.id = header.id ∨ p.id = kIdError) := Iff.rfl

theorem parseRequest_bytes (hnumber : number < 2 ^ 16) (hid : p.id ≠ kIdDeviceQuery) :
    parseRequest (p.bytes number) = some (number, some p) := by
  obtain ⟨id, more, data⟩ := p
  have hparse : parseRequest (Packet.bytes number ⟨id, more, data⟩) =
      some (extractUint16 (uint16Bytes number ++ []), if id = kIdDeviceQuery then none
        else some ⟨id, (Packet.mk id more data).flag &&& kFlagContinuation ≠ 0, data⟩) := rfl
  rw [hparse, extractUint16_uint16Bytes hnumber, if_neg hid]
  simp only [flag_eq, Bool.decide_eq_true]

end Packet

/-! ### A packet of the host -/

section

variable {τ : Type} {target : Target τ} {N₀ : Net τ Packet Packet} {q : Packet} {st st' : NetSocket τ}
  {header : Header} {room rxLength : ℕ}

theorem id_respond (target : Target τ) (s : τ) (q : Packet) :
    (target.respond s q).2.id = q.id ∨ (target.respond s q).2.id = kIdError := by
  unfold Target.respond
  dsimp only
  split_ifs
  · exact .inr rfl
  · exact .inl rfl

theorem id_respond_ne {s : τ} (hid : q.id ≠ kIdDeviceQuery) :
    (target.respond s q).2.id ≠ kIdDeviceQuery := by
  obtain h | h := id_respond target s q
  · rw [h]
    exact hid
  · rw [h]
    decide

theorem mem_of_reply {i : ℕ} {p : Parcel (ℕ ⊕ Packet)} {N : Net τ Packet Packet}
    (h : N.reply kSequences i = some p) : p ∈ N.replies := by
  unfold Net.reply at h
  split at h
  · rename_i p' hp
    split_ifs at h
    cases h
    exact List.mem_of_getElem? hp
  · cases h

/-- A send leaves the request under way. -/
theorem send_waiting {number : ℕ} (h : st.net.Waiting kSequences target.respond N₀ q)
    (hid : q.id ≠ kIdDeviceQuery) (hnumber : number % kSequences = N₀.expected % kSequences) :
    ((netSocket target).send st ((Header.set q.id number q.flag).bytes ++ q.data)).2.net.Waiting
      kSequences target.respond N₀ q := by
  have hparse : parseRequest ((Header.set q.id number q.flag).bytes ++ q.data) =
      some (N₀.expected % kSequences, some q) := by
    rw [← hnumber]
    exact Packet.parseRequest_bytes (Nat.mod_lt _ (by decide)) hid
  unfold netSocket
  dsimp only
  rw [hparse]
  cases (st.sends.headD ([], false)).2 with
  | false => exact h.ask.deliver (by decide) _
  | true => exact h.deliver (by decide) _

/-- A receive leaves it under way, and a packet that matches is the response. -/
theorem receive_waiting {number : ℕ} (hid : q.id ≠ kIdDeviceQuery)
    (hnumber : number % kSequences = N₀.expected % kSequences)
    (h : st.net.Waiting kSequences target.respond N₀ q) :
    ((netSocket target).receive st (room + kHeaderSize)).1.After
      (fun packet => (Header.set q.id number q.flag).Matches packet →
        packet = ((target.respond N₀.state q).2.cut room).bytes (N₀.expected % kSequences) ∧
        Net.Took target.respond N₀ q
          ((netSocket target).receive st (room + kHeaderSize)).2.net ∧
        ((netSocket target).receive st (room + kHeaderSize)).2.net.Idle kSequences)
      (((netSocket target).receive st (room + kHeaderSize)).2.net.Waiting kSequences
        target.respond N₀ q) := by
  unfold netSocket
  dsimp only
  have hkept := h.deliver (by decide) (st.receives.headD ([], .nothing)).1
  generalize (st.receives.headD ([], .nothing)).2 = brought
  generalize st.net.deliver kSequences target.respond (st.receives.headD ([], .nothing)).1 = N
    at hkept ⊢
  cases brought with
  | nothing => exact hkept
  | error => exact hkept
  | response i =>
    unfold bring
    dsimp only
    cases hreply : N.reply kSequences i with
    | none => exact hkept
    | some p =>
      refine ⟨hkept, fun hmatches => ?_⟩
      obtain ⟨sent, wire, body⟩ := p
      cases body with
      | inl expected =>
        rw [responseBytes, Packet.take_bytes, Packet.matches_bytes] at hmatches
        obtain hquery | herror := hmatches.2
        · exact absurd hquery.symm hid
        · have hne : kIdDeviceQuery ≠ kIdError := by decide
          exact absurd herror hne
      | inr r =>
        rw [responseBytes, Packet.take_bytes, Packet.matches_bytes] at hmatches
        have hwire : wire < 2 ^ 16 := by
          obtain ⟨m, -, hm, -⟩ := hkept.answered _ (mem_of_reply hreply) r rfl
          dsimp only at hm
          rw [hm]
          exact Nat.mod_lt _ (by decide)
        have heq : wire = N₀.expected % kSequences :=
          (uint16Bytes_inj hwire (Nat.mod_lt _ (by decide)) hmatches.1).trans hnumber
        obtain ⟨rfl, htook, hidle⟩ := hkept.hear hreply heq
        refine ⟨?_, htook, hidle⟩
        rw [responseBytes, Packet.take_bytes, heq]

/-- What is gathered from a response. -/
def Gathered.hear (rxLength : ℕ) (g : Gathered) (p : Packet) : Gathered :=
  if p.id = kIdError then { g with error := g.error ++ p.data }
  else
    { g with
      total := g.total + p.data.length
      rxData := g.rxData ++ p.data.take (rxLength - g.rxData.length) }

theorem add_bytes (g : Gathered) (p : Packet) (number : ℕ) :
    g.add rxLength (p.bytes number) = g.hear rxLength p := rfl

/-- The packets of one packet of the host that is not answered in full: none, or the packet itself
and prompts. -/
def Part (q : Packet) (qs : List Packet) : Prop :=
  qs = [] ∨ ∃ prompts, qs = q :: prompts ∧ ∀ p ∈ prompts, p.data = []

theorem eq_of_increment {sequence sequence' : ℕ} (h : increment sequence = .ok sequence') :
    sequence' = sequence + 1 := by
  unfold increment at h
  split_ifs at h
  exact (Except.ok.inj h).symm

/-- How the helper leaves the network. -/
def HelperEnds (target : Target τ) (room rxLength : ℕ) (N₀ : Net τ Packet Packet) (q : Packet)
    (g : Gathered) (st : NetSocket τ) (sequence : ℕ) : Except String Gathered → Prop
  | .ok g' => ∃ qs rs, Chain target N₀.state q qs rs st.net.state ∧
      st.net.taken = N₀.taken ++ qs ∧ st.net.Idle kSequences ∧
      sequence % kSequences = st.net.expected % kSequences ∧
      g' = (rs.map (Packet.cut room)).foldl (Gathered.hear rxLength) g
  | .error _ => ∃ qs, st.net.taken = N₀.taken ++ qs ∧ Part q qs

theorem helperEnds_error {g : Gathered} {sequence : ℕ} (error : String)
    (h : st.net.Waiting kSequences target.respond N₀ q) :
    HelperEnds target room rxLength N₀ q g st sequence (.error error) := by
  obtain hsame | htook := h.stage
  · exact ⟨[], by rw [hsame.taken, List.append_nil], .inl rfl⟩
  · exact ⟨[q], htook.taken, .inr ⟨[], rfl, fun p hp => absurd hp List.not_mem_nil⟩⟩

/-- A response with a continuation, and what the prompt for it has brought. -/
theorem HelperEnds.prompted {N : Net τ Packet Packet} {g : Gathered} {sequence : ℕ}
    {r : Except String Gathered}
    (h : HelperEnds target room rxLength N ⟨(target.respond N₀.state q).2.id, false, []⟩
      (g.hear rxLength ((target.respond N₀.state q).2.cut room)) st sequence r)
    (hmore : (target.respond N₀.state q).2.more = true) (htook : Net.Took target.respond N₀ q N) :
    HelperEnds target room rxLength N₀ q g st sequence r := by
  have hcons (qs : List Packet) : N.taken ++ qs = N₀.taken ++ q :: qs := by
    rw [htook.taken, List.append_assoc, List.singleton_append]
  cases r with
  | error e =>
    obtain ⟨qs, htaken, hpart⟩ := h
    refine ⟨q :: qs, htaken.trans (hcons qs), .inr ⟨qs, rfl, fun p hp => ?_⟩⟩
    obtain rfl | ⟨prompts, rfl, hprompts⟩ := hpart
    · exact absurd hp List.not_mem_nil
    · obtain rfl | hp := List.mem_cons.1 hp
      · rfl
      · exact hprompts p hp
  | ok g' =>
    obtain ⟨qs, rs, hchain, htaken, hidle, hsequence, hg⟩ := h
    rw [htook.state] at hchain
    exact ⟨q :: qs, _, .more hmore hchain, htaken.trans (hcons qs), hidle, hsequence, hg⟩

/-- A packet of the host is taken once, and so are its prompts. -/
theorem sendSinglePacketLoop_net {attempts fuel attemptsLeft sequence sequence' : ℕ} {g : Gathered}
    {r : Except String Gathered}
    (hrun : sendSinglePacketLoop (netSocket target) (room + kHeaderSize) rxLength attempts fuel
      attemptsLeft (Header.set q.id sequence q.flag) q.data g st sequence = .ok (r, st', sequence'))
    (h : st.net.Waiting kSequences target.respond N₀ q) (hid : q.id ≠ kIdDeviceQuery)
    (hsequence : sequence % kSequences = N₀.expected % kSequences) :
    HelperEnds target room rxLength N₀ q g st' sequence' r := by
  induction fuel generalizing attemptsLeft q N₀ g st sequence with
  | zero => cases hrun
  | succ fuel ih =>
    cases attemptsLeft with
    | zero =>
      cases hrun
      exact helperEnds_error _ h
    | succ left =>
      rw [sendSinglePacketLoop] at hrun
      have hsend := send_waiting h hid hsequence
      split at hrun
      · rename_i st₁ heq
        rw [heq] at hsend
        cases hrun
        exact helperEnds_error _ hsend
      · rename_i st₁ heq
        rw [heq] at hsend
        obtain ⟨⟨heard, st₂⟩, hheard, hrun⟩ := bind_eq_ok_iff.1 hrun
        have hafter := receiveLoop_ends
          (I := fun st => st.net.Waiting kSequences target.respond N₀ q)
          (J := fun packet st =>
            packet = ((target.respond N₀.state q).2.cut room).bytes (N₀.expected % kSequences) ∧
            Net.Took target.respond N₀ q st.net ∧ st.net.Idle kSequences)
          (fun st => receive_waiting hid hsequence) hsend hheard
        cases heard with
        | failed error =>
          cases hrun
          exact helperEnds_error _ hafter
        | timedOut => exact ih hrun hafter hid hsequence
        | response packet =>
          obtain ⟨sequence₁, hincrement, hrun⟩ := bind_eq_ok_iff.1 hrun
          obtain ⟨rfl, htook, hidle⟩ := hafter
          have hnext : sequence₁ % kSequences = st₂.net.expected % kSequences := by
            rw [htook.expected, eq_of_increment hincrement]
            exact Nat.ModEq.add_right 1 hsequence
          have hflag := ((target.respond N₀.state q).2.cut room).flag_eq
          rw [add_bytes] at hrun
          split_ifs at hrun with hmore herror
          · have hprompt := ih (q := ⟨(target.respond N₀.state q).2.id, false, []⟩) hrun
              hidle.waiting (id_respond_ne hid) hnext
            exact hprompt.prompted (hflag.1 hmore) htook
          · cases hrun
            exact ⟨[q], htook.taken, .inr ⟨[], rfl, fun p hp => absurd hp List.not_mem_nil⟩⟩
          · cases hrun
            have hlast := Chain.last (Bool.eq_false_iff.2 (mt hflag.2 hmore)) herror
            rw [← htook.state] at hlast
            exact ⟨_, _, hlast, htook.taken, hidle, hnext, rfl⟩

/-! ### The query -/

/-- The response to a query. -/
def queryResponse (expected : ℕ) : Packet :=
  ⟨kIdDeviceQuery, false, uint16Bytes (expected % kSequences)⟩

theorem send_probing (target : Target τ) (h : st.net.Probing kSequences N₀) :
    ((netSocket target).send st ((Header.set kIdDeviceQuery 0 kFlagNone).bytes ++ [])).2.net.Probing
      kSequences N₀ := by
  have hparse : parseRequest ((Header.set kIdDeviceQuery 0 kFlagNone).bytes ++ []) = some (0, none) :=
    rfl
  unfold netSocket
  dsimp only
  rw [hparse]
  cases (st.sends.headD ([], false)).2 with
  | false => exact (h.ask 0).deliver _
  | true => exact h.deliver _

theorem receive_probing (h : st.net.Probing kSequences N₀) :
    ((netSocket target).receive st (room + kHeaderSize)).1.After
      (fun packet => ∃ number, packet = ((queryResponse N₀.expected).cut room).bytes number)
      (((netSocket target).receive st (room + kHeaderSize)).2.net.Probing kSequences N₀) := by
  unfold netSocket
  dsimp only
  have hkept : (st.net.deliver kSequences target.respond
      (st.receives.headD ([], .nothing)).1).Probing kSequences N₀ := h.deliver _
  generalize (st.receives.headD ([], .nothing)).2 = brought
  generalize st.net.deliver kSequences target.respond (st.receives.headD ([], .nothing)).1 = N
    at hkept ⊢
  cases brought with
  | nothing => exact hkept
  | error => exact hkept
  | response i =>
    unfold bring
    dsimp only
    cases hreply : N.reply kSequences i with
    | none => exact hkept
    | some p =>
      refine ⟨hkept, p.number, ?_⟩
      have hbody := hkept.hear hreply
      rw [responseBytes, hbody, Packet.take_bytes]
      rfl

/-- A query finds out the number that is expected, and leaves the target alone. -/
theorem sendSinglePacketLoop_query {attempts fuel attemptsLeft sequence sequence' : ℕ} {g : Gathered}
    {r : Except String Gathered}
    (hrun : sendSinglePacketLoop (netSocket target) (room + kHeaderSize) rxLength attempts fuel
      attemptsLeft (Header.set kIdDeviceQuery 0 kFlagNone) [] g st sequence = .ok (r, st', sequence'))
    (h : st.net.Probing kSequences N₀) :
    st'.net.Probing kSequences N₀ ∧
      ∀ g', r = .ok g' → g' = g.hear rxLength ((queryResponse N₀.expected).cut room) := by
  induction fuel generalizing attemptsLeft st with
  | zero => cases hrun
  | succ fuel ih =>
    cases attemptsLeft with
    | zero =>
      cases hrun
      exact ⟨h, fun _ hr => by cases hr⟩
    | succ left =>
      rw [sendSinglePacketLoop] at hrun
      have hsend := send_probing target h
      split at hrun
      · rename_i st₁ heq
        rw [heq] at hsend
        cases hrun
        exact ⟨hsend, fun _ hr => by cases hr⟩
      · rename_i st₁ heq
        rw [heq] at hsend
        obtain ⟨⟨heard, st₂⟩, hheard, hrun⟩ := bind_eq_ok_iff.1 hrun
        have hafter := receiveLoop_ends
          (I := fun st => st.net.Probing kSequences N₀)
          (J := fun packet st => st.net.Probing kSequences N₀ ∧
            ∃ number, packet = ((queryResponse N₀.expected).cut room).bytes number)
          (fun st hst => (receive_probing hst).mono fun hkept packet hresponse _ =>
            ⟨hkept, hresponse⟩) hsend hheard
        cases heard with
        | failed error =>
          cases hrun
          exact ⟨hafter, fun _ hr => by cases hr⟩
        | timedOut => exact ih hrun hafter
        | response packet =>
          obtain ⟨sequence₁, -, hrun⟩ := bind_eq_ok_iff.1 hrun
          obtain ⟨hprobing, number, rfl⟩ := hafter
          rw [add_bytes] at hrun
          have hlast : ((((queryResponse N₀.expected).cut room).bytes number).getD 1 0 &&&
            kFlagContinuation) = 0 := show kFlagNone &&& kFlagContinuation = 0 by decide
          have hid : (((queryResponse N₀.expected).cut room).bytes number).getD 0 0 ≠ kIdError :=
            show kIdDeviceQuery ≠ kIdError by decide
          rw [if_neg (not_not.2 hlast), if_neg hid] at hrun
          cases hrun
          exact ⟨hprobing, fun _ hr => (Except.ok.inj hr).symm⟩

end

end Udp

end RpiFastbootd
