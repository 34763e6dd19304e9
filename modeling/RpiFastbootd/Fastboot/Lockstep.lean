import RpiFastbootd.Fastboot.FlashServer

/-!
# A host that flashes and a device

The host of `FlashTalk` and a session run side by side and are connected by a link that carries whole
packets in both directions.  A command is one packet, and the data of a download any number of them;
the link may break, and then carries nothing any more (`Carries`).

Whatever the answers of the system, however the calls of both are interleaved, and wherever they are
cut off, the device flashes the pieces that the host was to send, byte by byte, in their order; when
the host is done, it has flashed all of them, and no flash has failed (`lockstep_flashes`).
-/

namespace RpiFastbootd

open FastbootDevice

/-! ### The link of the device -/

/-- What breaks a link: a read that fails or is short, or a write that fails. -/
def SessionEvent.breaks : SessionEvent → Bool
  | ⟨.readCommand, .failed _⟩ => true
  | ⟨.readData _, .failed _⟩ => true
  | ⟨.readData size, .got bytes⟩ => bytes.length ≠ size
  | ⟨.write _, ok⟩ => !ok
  | _ => false

/-- What is seen of a link that is broken: reads bring nothing, and writes fail. -/
def SessionEvent.silent : SessionEvent → Bool
  | ⟨.readCommand, .got bytes⟩ => bytes = []
  | ⟨.readData _, .got bytes⟩ => bytes = []
  | ⟨.write _, ok⟩ => !ok
  | _ => true

/-- The call uses the link. -/
def SessionEvent.onLink : SessionEvent → Bool
  | ⟨.readCommand, _⟩ => true
  | ⟨.readData _, _⟩ => true
  | ⟨.write _, _⟩ => true
  | _ => false

/-- The packets that a call of the device receives and sends.  `some kept` is a link with bytes of a
packet that has not been read to its end, and `none` a broken one. -/
inductive Carries : Option (List Byte) → SessionEvent → List (Exchange (List Byte)) →
    Option (List Byte) → Prop
  | command {kept bytes left : List Byte} {packets : List (List Byte)}
    (h : kept ++ packets.flatten = bytes ++ left) (hall : left = [] ∨ kResponseSize ≤ bytes.length) :
    Carries (some kept) ⟨.readCommand, .got bytes⟩ (packets.map .received) (some left)
  | data {kept bytes left : List Byte} {packets : List (List Byte)}
    (h : kept ++ packets.flatten = bytes ++ left) :
    Carries (some kept) ⟨.readData bytes.length, .got bytes⟩ (packets.map .received) (some left)
  | write (kept : List Byte) (p : Packet) :
    Carries (some kept) ⟨.write p, true⟩ [.sent p.bytes] (some kept)
  | breaks {kept : List Byte} {e : SessionEvent} (packets : List (List Byte))
    (h : e.breaks = true) : Carries (some kept) e (packets.map .received) none
  | silent {e : SessionEvent} (h : e.silent = true) : Carries none e [] none
  | other {link : Option (List Byte)} {e : SessionEvent} (h : e.onLink = false) :
    Carries link e [] link

/-- A session over a link, and the packets that it has received and sent. -/
inductive Carried : List SessionEvent → List (Exchange (List Byte)) → Option (List Byte) → Prop
  | start : Carried [] [] (some [])
  | step {t : List SessionEvent} {u more : List (Exchange (List Byte))} {e : SessionEvent}
    {link link' : Option (List Byte)} (h : Carried t u link) (he : Carries link e more link') :
    Carried (t ++ [e]) (u ++ more) link'

/-- The flashes of a session. -/
def flashCalls : List SessionEvent → List FlashCall
  | [] => []
  | ⟨.flashBlockDevice path data _, failed⟩ :: t => (path, data, failed.isNone) :: flashCalls t
  | _ :: t => flashCalls t

section

variable {partition : String} {all : List FlashCall} {p : FlashStage}
  {u more : List (Exchange (List Byte))} {g : FlashView} {link link' : Option (List Byte)}
  {e : SessionEvent} {packets : List (List Byte)}

theorem flashed_after (g : FlashView) (t : List SessionEvent) :
    ((follower partition all).after g t).flashed = g.flashed ++ flashCalls t := by
  induction t generalizing g with
  | nil => exact (List.append_nil _).symm
  | cons e t ih =>
    rw [Monitor.after_cons, ih]
    obtain ⟨c, a⟩ := e
    cases c with
    | flashBlockDevice path data size => exact List.append_assoc _ _ _
    | _ => rfl

/-! ### The device keeps to the conversation -/

/-- The device has followed the conversation to `q`, or has lost the link there. -/
def Tied (partition : String) (all : List FlashCall) (g : FlashView) (link : Option (List Byte))
    (q : FlashStage) : Prop :=
  Progress partition all g.flashed q ∧
    (g.place = .at q ∧ link = some [] ∨ g.place = .lost ∧ link = none)

theorem safeAt_of_at {q : FlashStage} {c : Call} (hplace : g.place = .at q)
    (hsafe : (follower partition all).safe g c) : FlashView.SafeAt partition all g q c := by
  have hsafe' : FlashView.Safe partition all g c := hsafe
  rw [FlashView.Safe, hplace] at hsafe'
  exact hsafe'

/-- In the turn of the host the device waits for nothing. -/
theorem awaits_of_turn {q : FlashStage} (hturn : (flashTalk partition).turn q ≠ .server) :
    q.awaits = none := by
  by_contra hne
  obtain ⟨⟨kind, after⟩, hq⟩ := Option.ne_none_iff_exists'.1 hne
  exact hturn (turn_of_awaits hq)

theorem next_of_turn {q : FlashStage} (hturn : (flashTalk partition).turn q ≠ .server)
    (bytes : List Byte) : (flashTalk partition).next q bytes = q.request partition bytes := by
  have hawaits := awaits_of_turn hturn
  simp only [flashTalk, hawaits]

variable {flashed : List FlashCall} {q : FlashStage} {data : List Byte} {rest : List (List Byte)}

/-- Packets of the host flash nothing. -/
theorem within_received
    (h : (flashTalk partition).Within .server p u (Progress partition all flashed)) :
    (flashTalk partition).Within .server p (u ++ packets.map .received)
      (Progress partition all flashed) := by
  induction packets generalizing u with
  | nil =>
    rw [List.map_nil, List.append_nil]
    exact h
  | cons m packets ih =>
    rw [List.map_cons, List.append_cons]
    refine ih (h.receive fun q r hq hturn hnext => ?_)
    rw [next_of_turn hturn] at hnext
    exact hq.request hnext

/-- Packets in a data phase are the next bytes of the data. -/
theorem within_sending {taken : List Byte}
    (h : (flashTalk partition).Within .server p u fun q =>
      ∃ left, data = taken ++ left ∧ q = .sending left data rest) :
    (flashTalk partition).Within .server p (u ++ packets.map .received) fun q =>
      ∃ left, data = taken ++ packets.flatten ++ left ∧ q = .sending left data rest := by
  induction packets generalizing u taken with
  | nil =>
    rw [List.map_nil, List.append_nil, List.flatten_nil, List.append_nil]
    exact h
  | cons m packets ih =>
    rw [List.map_cons, List.append_cons, List.flatten_cons, ← List.append_assoc]
    refine ih (h.receive fun q r hq hturn hnext => ?_)
    obtain ⟨left, hdata, rfl⟩ := hq
    rw [next_of_turn hturn] at hnext
    change (if m ≠ [] ∧ m <+: left then _ else none) = some r at hnext
    split_ifs at hnext with hm
    obtain ⟨-, more, rfl⟩ := hm
    rw [List.drop_left] at hnext
    exact ⟨more, by rw [hdata, List.append_assoc], (Option.some.inj hnext).symm⟩

/-- After a command the host waits. -/
theorem awaits_of_request {r : FlashStage} {bytes : List Byte}
    (hq : ∀ left data rest, q ≠ .sending left data rest)
    (hrequest : q.request partition bytes = some r) : ∃ kind after, r.awaits = some (kind, after) := by
  unfold FlashStage.request at hrequest
  split at hrequest
  · split_ifs at hrequest
    cases hrequest
    exact ⟨_, _, rfl⟩
  · exact absurd rfl (hq _ _ _)
  · split_ifs at hrequest
    cases hrequest
    exact ⟨_, _, rfl⟩
  · cases hrequest

/-- A command of the conversation fits into the buffer. -/
theorem length_of_request (hpartition : partition.length ≤ 250) {r : FlashStage} {bytes : List Byte}
    (hq : ∀ left data rest, q ≠ .sending left data rest)
    (hrequest : q.request partition bytes = some r) :
    bytes ≠ [] ∧ bytes.length ≤ kResponseSize := by
  have hne {s : String} (hs : 0 < s.length) : bytesOf s ≠ [] :=
    List.length_pos_iff.1 (by rwa [length_bytesOf])
  unfold FlashStage.request at hrequest
  split at hrequest
  · split_ifs at hrequest with hcommand
    obtain ⟨rfl, hle⟩ := hcommand
    have hlength := length_downloadText hle
    rw [length_bytesOf, hlength]
    exact ⟨hne (by omega), by decide⟩
  · exact absurd rfl (hq _ _ _)
  · split_ifs at hrequest with hcommand
    subst hcommand
    have hlength : (FastBootDriver.flashText partition).length = 6 + partition.length :=
      String.length_append _ _
    rw [length_bytesOf, hlength]
    refine ⟨hne (by omega), ?_⟩
    show 6 + partition.length ≤ 256
    omega
  · cases hrequest

/-- A command that is read. -/
theorem tied_command (hpartition : partition.length ≤ 250)
    (hat : (flashTalk partition).Within .server p u (· = q))
    (hprogress : Progress partition all g.flashed q) (hplace : g.place = .at q)
    (hq : ∀ left data rest, q ≠ .sending left data rest) {bytes left : List Byte}
    (h : packets.flatten = bytes ++ left) (hall : left = [] ∨ kResponseSize ≤ bytes.length) :
    (flashTalk partition).Within .server p (u ++ packets.map .received)
      (Tied partition all ((follower partition all).next g .readCommand (.got bytes))
        (some left)) := by
  have hnext : (follower partition all).next g .readCommand (.got bytes) =
      ⟨(FlashPlace.at q).heard partition (.got bytes), g.flashed⟩ := by
    rw [← hplace]
    rfl
  rw [hnext]
  cases packets with
  | nil =>
    obtain ⟨rfl, rfl⟩ := List.append_eq_nil_iff.1 h.symm
    rw [List.map_nil, List.append_nil]
    refine hat.mono ?_
    rintro _ rfl
    exact ⟨hprogress, .inl ⟨rfl, rfl⟩⟩
  | cons m packets =>
    rw [List.map_cons, List.append_cons]
    have hfirst : (flashTalk partition).Within .server p (u ++ [.received m])
        fun r => q.request partition m = some r :=
      hat.receive fun _ r heq hturn hm => by
        subst heq
        rwa [next_of_turn hturn] at hm
    cases packets with
    | nil =>
      rw [List.map_nil, List.append_nil]
      refine hfirst.mono fun r hr => ?_
      obtain ⟨hne, hlength⟩ := length_of_request hpartition hq hr
      rw [List.flatten_cons, List.flatten_nil, List.append_nil] at h
      obtain rfl : left = [] := by
        obtain hleft | hfull := hall
        · exact hleft
        · have hsum := congrArg List.length h
          rw [List.length_append] at hsum
          exact List.length_eq_zero_iff.1 (by omega)
      rw [List.append_nil] at h
      subst h
      cases m with
      | nil => exact absurd rfl hne
      | cons b m =>
        refine ⟨hprogress.request hr, .inl ⟨?_, rfl⟩⟩
        show (q.request partition (b :: m)).elim FlashPlace.free .at = _
        rw [hr]
        rfl
    | cons m' packets =>
      -- the device has not answered yet
      rw [List.map_cons, List.append_cons]
      refine Conversation.Within.absurd (Q := fun _ => False) (hfirst.receive
        fun r _ hr hturn _ => ?_) (fun _ h => h) _
      obtain ⟨kind, after, hawaits⟩ := awaits_of_request hq hr
      exact hturn (turn_of_awaits hawaits)

/-- Data that are read. -/
theorem tied_data (hat : (flashTalk partition).Within .server p u (· = .sending data data rest))
    (hprogress : Progress partition all g.flashed (.sending data data rest))
    (hplace : g.place = .at (.sending data data rest)) {bytes left : List Byte}
    (hlength : bytes.length = data.length) (h : packets.flatten = bytes ++ left) :
    (flashTalk partition).Within .server p (u ++ packets.map .received)
      (Tied partition all ((follower partition all).next g (.readData bytes.length) (.got bytes))
        (some left)) := by
  have hstart : (flashTalk partition).Within .server p u fun q =>
      ∃ left, data = [] ++ left ∧ q = .sending left data rest :=
    hat.mono fun q hq => ⟨data, rfl, hq⟩
  refine (within_sending hstart).mono fun q hq => ?_
  obtain ⟨more, hdata, rfl⟩ := hq
  rw [List.nil_append, h, List.append_assoc] at hdata
  have hsum := congrArg List.length hdata
  rw [List.length_append, List.length_append] at hsum
  obtain rfl : left = [] := List.length_eq_zero_iff.1 (by omega)
  obtain rfl : more = [] := List.length_eq_zero_iff.1 (by omega)
  rw [List.append_nil, List.append_nil] at hdata
  subst hdata
  refine ⟨hprogress, .inl ⟨?_, rfl⟩⟩
  show g.place.took data.length (.got data) = _
  rw [hplace, FlashPlace.took, if_neg (not_not.2 rfl), if_pos rfl]

/-- A link that breaks leaves the place of the conversation. -/
theorem place_of_breaks (hplace : g.place = .at q) (hsafe : FlashView.SafeAt partition all g q e.1)
    (h : e.breaks = true) : (follower partition all).next g e.1 e.2 = ⟨.lost, g.flashed⟩ := by
  obtain ⟨place, flashed⟩ := g
  obtain rfl : place = .at q := hplace
  unfold SessionEvent.breaks at h
  split at h
  · rfl
  · obtain ⟨data, rest, rfl, -⟩ := hsafe
    rfl
  · obtain ⟨data, rest, rfl, -⟩ := hsafe
    rename_i size bytes
    have hshort : bytes.length ≠ size := of_decide_eq_true h
    show FlashView.mk (if bytes.length ≠ size then _ else _) _ = _
    rw [if_pos hshort]
  · rename_i p ok
    cases ok with
    | true => cases h
    | false => rfl
  · cases h

/-- On a broken link the place of the conversation does not change. -/
theorem place_of_silent (hplace : g.place = .lost) (hsafe : (follower partition all).safe g e.1)
    (h : e.silent = true ∨ e.onLink = false) :
    (follower partition all).next g e.1 e.2 = ⟨.lost, g.flashed⟩ := by
  obtain ⟨place, flashed⟩ := g
  obtain rfl : place = .lost := hplace
  obtain ⟨c, a⟩ := e
  cases c with
  | readCommand =>
    obtain h | h := h
    · cases a with
      | failed bytes => rfl
      | got bytes =>
        obtain rfl : bytes = [] := of_decide_eq_true h
        rfl
    · cases h
  | readData size =>
    obtain h | h := h
    · cases a with
      | failed bytes => rfl
      | got bytes =>
        obtain rfl : bytes = [] := of_decide_eq_true h
        rfl
    · cases h
  | flashBlockDevice path data size => exact absurd rfl (hsafe path data size)
  | _ => rfl

/-- A call that does not use the link leaves the place of the conversation. -/
theorem progress_of_other (hprogress : Progress partition all g.flashed q) (hplace : g.place = .at q)
    (hsafe : FlashView.SafeAt partition all g q e.1) (h : e.onLink = false) :
    ∃ flashed, (follower partition all).next g e.1 e.2 = ⟨.at q, flashed⟩ ∧
      Progress partition all flashed q := by
  obtain ⟨place, flashed⟩ := g
  obtain rfl : place = .at q := hplace
  obtain ⟨c, a⟩ := e
  cases c with
  | readCommand | readData size | write packet => cases h
  | flashBlockDevice path data size =>
    obtain ⟨rest, rfl, rfl, hall⟩ := hsafe
    refine ⟨_, rfl, ?_⟩
    cases a with
    | none => exact .inr (.inl (hall.trans (by rw [List.append_assoc]; rfl)))
    | some error =>
      refine .inr (.inr (.inr ⟨flashed, data, rfl, flashesOf partition rest, ?_⟩))
      rw [List.append_assoc]
      exact hall.symm
  | _ => exact ⟨_, rfl, hprogress⟩

/-- What one call of the device preserves. -/
theorem tied_step (hpartition : partition.length ≤ 250)
    (hw : (flashTalk partition).Within .server p u (Tied partition all g link))
    (hsafe : (follower partition all).safe g e.1) (he : Carries link e more link') :
    (flashTalk partition).Within .server p (u ++ more)
      (Tied partition all ((follower partition all).next g e.1 e.2) link') := by
  by_cases hex : ∃ q, Tied partition all g link q
  swap
  · exact hw.absurd (not_exists.1 hex) more
  obtain ⟨q, hprogress, ⟨hplace, rfl⟩ | ⟨hplace, rfl⟩⟩ := hex
  · have hat : (flashTalk partition).Within .server p u (· = q) := hw.mono fun q' hq' => by
      obtain ⟨-, ⟨hplace', -⟩ | ⟨-, hlink⟩⟩ := hq'
      · exact FlashPlace.at.inj (hplace'.symm.trans hplace)
      · cases hlink
    have hsafeAt := safeAt_of_at hplace hsafe
    cases he with
    | command h hall => exact tied_command hpartition hat hprogress hplace hsafeAt h hall
    | data h =>
      obtain ⟨data, rest, rfl, -, hlength⟩ := hsafeAt
      exact tied_data hat hprogress hplace hlength h
    | write kept packet =>
      obtain ⟨kind, after, q', hawaits, hrespond, hprogress'⟩ := hsafeAt
      refine hat.send ?_
      rintro _ rfl
      refine ⟨turn_of_awaits hawaits, q', ?_, hprogress', .inl ⟨?_, rfl⟩⟩
      · rw [next_of_awaits hawaits]
        exact hrespond
      · show g.place.said packet true = _
        rw [hplace, FlashPlace.said, hawaits]
        dsimp only
        rw [hrespond]
        rfl
    | breaks packets h =>
      rw [place_of_breaks hplace hsafeAt h]
      have hprogress' : (flashTalk partition).Within .server p u
          (Progress partition all g.flashed) := hat.mono fun q' hq' => by
        rw [hq']
        exact hprogress
      exact (within_received hprogress').mono fun q' hq' => ⟨hq', .inr ⟨rfl, rfl⟩⟩
    | other h =>
      obtain ⟨flashed', hnext, hprogress'⟩ := progress_of_other hprogress hplace hsafeAt h
      rw [hnext, List.append_nil]
      refine hat.mono ?_
      rintro _ rfl
      exact ⟨hprogress', .inl ⟨rfl, rfl⟩⟩
  · have hlost : ∀ {e : SessionEvent}, (follower partition all).safe g e.1 →
        e.silent = true ∨ e.onLink = false →
        (flashTalk partition).Within .server p (u ++ [])
          (Tied partition all ((follower partition all).next g e.1 e.2) none) := by
      intro e hsafe h
      rw [place_of_silent hplace hsafe h, List.append_nil]
      exact hw.mono fun q' hq' => ⟨hq'.1, .inr ⟨rfl, rfl⟩⟩
    cases he with
    | silent h => exact hlost hsafe (.inl h)
    | other h => exact hlost hsafe (.inr h)

/-- What a whole session preserves. -/
theorem Carried.tied (hpartition : partition.length ≤ 250) {t : List SessionEvent}
    (h : Carried t u link) (hstart : Progress partition all g.flashed p) (hplace : g.place = .at p)
    (hsafe : ∀ t₁ e t₂, t = t₁ ++ e :: t₂ →
      (follower partition all).safe ((follower partition all).after g t₁) e.1) :
    (flashTalk partition).Within .server p u
      (Tied partition all ((follower partition all).after g t) link) := by
  induction h with
  | start => exact Conversation.within_nil ⟨hstart, .inl ⟨hplace, rfl⟩⟩
  | step h he ih =>
    rename_i t u more e link link'
    have hprev := ih fun t₁ e₁ t₂ heq => hsafe t₁ e₁ (t₂ ++ [e]) (by rw [heq]; simp)
    rw [Monitor.after_append, Monitor.after_cons, Monitor.after_nil]
    exact tied_step hpartition hprev (hsafe t e [] rfl) he

end

/-! ### Side by side -/

section

variable {partition : String} {payloads : List (List Byte)} {config : SessionConfig} {n : ℕ}
  {t : List SessionEvent} {r : Option (Except Stop Unit)} {u c : List (Exchange (List Byte))}
  {link : Option (List Byte)} {up down : List (List Byte)}

/-- The session keeps to the conversation as long as the host does, with the flashes that belong to
it. -/
theorem SessionTrace.within (haddress : Addressable partition) (ht : SessionTrace config n t r)
    (hcarried : Carried t u link) (payloads : List (List Byte)) :
    (flashTalk partition).Within .server (.ready payloads) u fun q =>
      Progress partition (flashesOf partition payloads) (flashCalls t) q := by
  have hstart : Progress partition (flashesOf partition payloads) [] (.ready payloads) := rfl
  have hmeets := meets_executeCommands_follower haddress (s := {})
    (g := ⟨.at (.ready payloads), []⟩) ⟨hstart, rfl, trivial⟩ config n
  have htied := hcarried.tied (g := ⟨.at (.ready payloads), []⟩) haddress.length hstart rfl
    (hmeets.sound ht).1
  refine htied.mono fun q hq => ?_
  have hprogress := hq.1
  rw [flashed_after] at hprogress
  exact hprogress

/-- The host comes to the end of the pieces only by a response. -/
theorem yours_of_ready {yours : FlashStage} {l : List (List Byte)}
    (h : (flashTalk partition).Speaks .client yours l (.ready [])) : yours = .ready [] := by
  induction l generalizing yours with
  | nil => exact h
  | cons m l ih =>
    obtain ⟨hturn, q, hnext, hrest⟩ := h
    obtain rfl := ih hrest
    have hserver : (flashTalk partition).turn yours ≠ .server := by
      rw [hturn]
      decide
    rw [next_of_turn hserver] at hnext
    unfold FlashStage.request at hnext
    split at hnext
    · split_ifs at hnext
      cases hnext
    · split_ifs at hnext
      cases hnext
    · split_ifs at hnext
      cases hnext
    · cases hnext

/-- Host and session side by side: what is flashed at any time, and at the end. -/
theorem flashed_of_linked (haddress : Addressable partition) (ht : SessionTrace config n t r)
    (hcarried : Carried t u link) (hlinked : Linked c u up down)
    (hkeeps : (flashTalk partition).Keeps .client (.ready payloads) c) :
    Halts partition (flashesOf partition payloads) (flashCalls t) ∧
      ((∀ q, (flashTalk partition).Goes .client (.ready payloads) c q → q = .ready []) →
        flashCalls t = flashesOf partition payloads) := by
  have hwithin := ht.within haddress hcarried payloads
  obtain ⟨mine, yours, hstep⟩ := Conversation.lockstep hlinked hkeeps hwithin.1
  have hprogress := hwithin.2 yours hstep.comes
  refine ⟨hprogress.halts, fun hdone => ?_⟩
  obtain rfl := hdone mine hstep.goes
  have hyours : yours = .ready [] := by
    obtain ⟨-, -, hway⟩ | ⟨-, -, hway⟩ := hstep.ahead
    · exact yours_of_ready hway
    · cases down with
      | nil => exact hway.symm
      | cons m down =>
        have hturn : Party.client = .server := hway.1
        cases hturn
  rw [hyours] at hprogress
  have hall : flashesOf partition payloads = flashCalls t ++ [] := hprogress
  rw [hall, List.append_nil]

end

/-- What a session flashes while a host with a log is at the other end of the link, however the calls
of both are interleaved: at any time the first pieces, in their order and with their bytes, of which
only the last one may have failed; when the host is done, all pieces and nothing else. -/
def FlashesInStep (partition : String) (payloads : List (List Byte)) (ended : Ended)
    (log : List (Exchange (List Byte))) : Prop :=
  ∀ config n t r u link c up down, SessionTrace config n t r → Carried t u link →
    Linked c u up down →
    (c <+: log → Halts partition (flashesOf partition payloads) (flashCalls t)) ∧
      (c = log → ended = .done → flashCalls t = flashesOf partition payloads)

theorem exists_flashesInStep {image : List Byte} {total fuel : ℕ} {pieces : List FdSparseFile}
    {partition : String} {d : FastBootDriver HostLink} (haddress : Addressable partition)
    (hpieces : ∀ s ∈ pieces, s.Sound image total ∧
      (s.sparseImage image total).bytes.length < 2 ^ 63)
    (hlog : d.transport.log = []) (hfuel : d.transport.replies.length < fuel) :
    ∃ ended d', flashPartitionFiles hostTransport fuel image partition pieces d = .ok (ended, d') ∧
      FlashesInStep partition (pieceBytes image total pieces) ended d'.transport.log := by
  have hat : At partition (.ready (pieceBytes image total pieces)) d
      (.ready (pieceBytes image total pieces)) := by
    rw [At, hlog]
    exact Conversation.within_nil rfl
  obtain ⟨ended, d', hrun, hkeeps, hdone⟩ :=
    flashPartitionFiles_within hpieces haddress.length hat hfuel
  refine ⟨ended, d', hrun, fun config n t r u link c up down ht hcarried hlinked =>
    ⟨fun hpre => ?_, fun heq hended => ?_⟩⟩
  · obtain ⟨more, hmore⟩ := hpre
    rw [← hmore] at hkeeps
    exact (flashed_of_linked haddress ht hcarried hlinked hkeeps.of_append).1
  · subst heq
    exact (flashed_of_linked haddress ht hcarried hlinked hkeeps).2 (hdone hended).2

/-- A call on a sound link that receives one packet at most. -/
def SessionEvent.whole : SessionEvent → Bool
  | ⟨.readCommand, .got bytes⟩ => bytes.length ≤ kResponseSize
  | ⟨.readData size, .got bytes⟩ => bytes.length = size
  | ⟨.write _, ok⟩ => ok
  | ⟨.readCommand, .failed _⟩ => false
  | ⟨.readData _, .failed _⟩ => false
  | _ => true

/-- Its packets. -/
def SessionEvent.packets : SessionEvent → List (Exchange (List Byte))
  | ⟨.readCommand, .got (b :: bytes)⟩ => [.received (b :: bytes)]
  | ⟨.readData _, .got bytes⟩ => [.received bytes]
  | ⟨.write p, _⟩ => [.sent p.bytes]
  | _ => []

theorem carries_of_whole {e : SessionEvent} (h : e.whole = true) :
    Carries (some []) e e.packets (some []) := by
  have hone (bytes : List Byte) : [] ++ [bytes].flatten = bytes ++ [] := by simp
  obtain ⟨c, a⟩ := e
  cases c with
  | readCommand =>
    cases a with
    | failed bytes => cases h
    | got bytes =>
      cases bytes with
      | nil => exact @Carries.command [] [] [] [] rfl (.inl rfl)
      | cons b bytes => exact .command (hone (b :: bytes)) (.inl rfl)
  | readData size =>
    cases a with
    | failed bytes => cases h
    | got bytes =>
      obtain rfl : bytes.length = size := of_decide_eq_true h
      exact .data (hone bytes)
  | write p =>
    obtain rfl : a = true := h
    exact .write [] p
  | _ => exact .other rfl

theorem carried_of_whole {t : List SessionEvent} (h : ∀ e ∈ t, e.whole = true) :
    Carried t (t.flatMap SessionEvent.packets) (some []) := by
  induction t using List.reverseRecOn with
  | nil => exact .start
  | append_singleton t e ih =>
    rw [List.flatMap_append, List.flatMap_singleton]
    exact .step (ih fun e' he' => h e' (List.mem_append_left _ he'))
      (carries_of_whole (h e (by simp)))

/-- A session that is sent one small piece. -/
def smallHost : SampleHost where
  commands := ["download:00000048", "flash:sda"]
  data := [(smallFile.sparseImage [9, 5, 6, 7, 8] 3).bytes]

/-- The driver at the other end of the link. -/
def smallDriver : FastBootDriver HostLink where
  transport :=
    { replies := [bytesOf "DATA00000048", bytesOf "OKAY", bytesOf "OKAYFlashing succeeded"] }

/-- The driver when it is done. -/
def smallDone : FastBootDriver HostLink where
  transport :=
    { log := [.sent (bytesOf "download:00000048"), .received (bytesOf "DATA00000048"),
        .sent (smallFile.sparseImage [9, 5, 6, 7, 8] 3).bytes, .received (bytesOf "OKAY"),
        .sent (bytesOf "flash:sda"), .received (bytesOf "OKAYFlashing succeeded")] }

end RpiFastbootd
