import RpiFastbootd.Fastboot.FlashTalk

/-!
# How the device is flashed

The session keeps to the conversation of `FlashTalk` as long as the host does: it answers the commands
of the host in its turn and says nothing else.  In the conversation it flashes the pieces in their
order, each once and with the bytes that the host was to send, and says OKAY only after a flash that
has not failed (`meets_executeCommands_follower`).
-/

namespace RpiFastbootd

open FastbootDevice

/-! ### The commands of the host -/

/-- A character of a command: a byte that is not a control character. -/
def IsPlain (c : Char) : Prop := 32 ≤ c.toNat ∧ c.toNat < 256 ∧ c.toNat ≠ 127

instance (c : Char) : Decidable (IsPlain c) := inferInstanceAs (Decidable (_ ∧ _))

theorem isPlain_of_all {s : String} (h : s.toList.all (fun c => decide (IsPlain c)) = true) :
    ∀ c ∈ s.toList, IsPlain c := fun c hc => of_decide_eq_true (List.all_eq_true.1 h c hc)

/-- The name of a partition that can be sent as a field of a command. -/
structure Addressable (partition : String) : Prop where
  plain : ∀ c ∈ partition.toList, IsPlain c
  field : ':' ∉ partition.toList
  length : partition.length ≤ 250

theorem IsHexDigit.isPlain {c : Char} (h : IsHexDigit c) : IsPlain c := by
  have hlt := h.toNat_lt
  have hall : ∀ n < 128, IsHexDigit (Char.ofNat n) → 32 ≤ n ∧ n ≠ 127 := by decide +kernel
  have hplain := hall c.toNat hlt (by rwa [Char.ofNat_toNat])
  exact ⟨hplain.1, by omega, hplain.2⟩

theorem toNat_bytesOf {c : Char} (h : IsPlain c) : (BitVec.ofNat 8 c.toNat).toNat = c.toNat := by
  rw [BitVec.toNat_ofNat]
  exact Nat.mod_eq_of_lt h.2.1

theorem text_bytesOf {s : String} (h : ∀ c ∈ s.toList, IsPlain c) : text (bytesOf s) = s := by
  rw [text, bytesOf, List.map_map]
  have hid : s.toList.map ((fun b : Byte => Char.ofNat b.toNat) ∘ fun c =>
      BitVec.ofNat 8 c.toNat) = s.toList := by
    refine (List.map_congr_left fun c hc => ?_).trans (List.map_id _)
    rw [Function.comp_apply, toNat_bytesOf (h c hc), Char.ofNat_toNat, id]
  rw [hid, String.ofList_toList]

theorem any_iscntrl_bytesOf {s : String} (h : ∀ c ∈ s.toList, IsPlain c) :
    (bytesOf s).any iscntrl = false := by
  rw [List.any_eq_false, bytesOf]
  intro b hb
  obtain ⟨c, hc, rfl⟩ := List.mem_map.1 hb
  obtain ⟨hlow, -, hdel⟩ := h c hc
  rw [iscntrl, toNat_bytesOf (h c hc)]
  simp only [decide_eq_true_eq]
  omega

/-- A command of two fields. -/
theorem SessionConfig.parse_bytesOf {config : SessionConfig} {name field : String}
    {handler : CommandHandler} (hname : ∀ c ∈ name.toList, IsPlain c) (hsep : ':' ∉ name.toList)
    (hfield : ∀ c ∈ field.toList, IsPlain c) (hsep' : ':' ∉ field.toList)
    (hoem : hasPrefix "oem " (name ++ ":" ++ field) = false)
    (hmap : config.map name = some handler) :
    config.parse (bytesOf (name ++ ":" ++ field)) = .command handler [name, field] := by
  have hlist : (name ++ ":" ++ field).toList = name.toList ++ ':' :: field.toList := by
    rw [String.toList_append, String.toList_append, List.append_assoc]
    rfl
  have hplain : ∀ c ∈ (name ++ ":" ++ field).toList, IsPlain c := by
    rw [hlist]
    intro c hc
    rw [List.mem_append, List.mem_cons] at hc
    obtain hc | rfl | hc := hc
    · exact hname c hc
    · exact ⟨by decide, by decide, by decide⟩
    · exact hfield c hc
  have hsplit : split ':' (name ++ ":" ++ field) = [name, field] := by
    rw [split, hlist, List.splitOn_append_cons_self_of_not_mem hsep,
      List.splitOn_eq_singleton hsep', List.map_cons, List.map_singleton, String.ofList_toList,
      String.ofList_toList]
  rw [SessionConfig.parse, if_neg (by rw [any_iscntrl_bytesOf hplain]; exact Bool.false_ne_true),
    text_bytesOf hplain]
  simp only [commandName, commandArgs, hoem, Bool.false_eq_true, if_false, hsplit,
    List.headD_cons, hmap]

section

variable (config : SessionConfig)

theorem SessionConfig.parse_downloadText (n : ℕ) :
    config.parse (bytesOf (FastBootDriver.downloadText n)) =
      .command .download ["download", hexText 8 n] := by
  have hdigits : ∀ c ∈ (hexText 8 n).toList, IsHexDigit c := by
    rw [hexText_eq, String.toList_ofList]
    exact fun c => isHexDigit_of_mem_padded
  have hmap : config.map "download" = some .download := by
    unfold SessionConfig.map
    split_ifs <;> rfl
  have htext : FastBootDriver.downloadText n = "download" ++ ":" ++ hexText 8 n :=
    congrArg (· ++ hexText 8 n) (by decide : "download:" = "download" ++ ":")
  rw [htext]
  refine SessionConfig.parse_bytesOf (isPlain_of_all (by decide)) (by decide)
    (fun c hc => (hdigits c hc).isPlain) (fun hc => absurd (hdigits _ hc) (by decide)) ?_ hmap
  rw [hasPrefix, String.toList_append, String.toList_append]
  rfl

theorem SessionConfig.parse_flashText {partition : String} (h : Addressable partition) :
    config.parse (bytesOf (FastBootDriver.flashText partition)) =
      .command .flash ["flash", partition] := by
  have hmap : config.map "flash" = some .flash := by
    unfold SessionConfig.map
    split_ifs <;> rfl
  have htext : FastBootDriver.flashText partition = "flash" ++ ":" ++ partition :=
    congrArg (· ++ partition) (by decide : "flash:" = "flash" ++ ":")
  rw [htext]
  refine SessionConfig.parse_bytesOf (isPlain_of_all (by decide)) (by decide) h.plain h.field ?_ hmap
  rw [hasPrefix, String.toList_append, String.toList_append]
  rfl

end

/-- The size of a download is read as it was announced. -/
theorem parseUint_hexText (max width n : ℕ) :
    parseUint max ("0x" ++ hexText width n) = if n ≤ max then some n else none := by
  have hlist : ("0x" ++ hexText width n).toList = '0' :: 'x' :: padded 16 width n := by
    have hdigits : (hexText width n).toList = padded 16 width n := String.toList_ofList
    rw [String.toList_append, hdigits]
    rfl
  have hspace : isSpace '0' = false := by decide
  rw [parseUint, hlist, List.dropWhile_cons_of_neg (by rw [hspace]; exact Bool.false_ne_true)]
  simp only [number_padded]
  split_ifs with hle <;> simp [Option.filter, hle]

/-! ### Responses of the device -/

/-- The kind that the host takes a response for. -/
def FastbootResult.kind : FastbootResult → ReplyKind
  | okay => .okay
  | fail => .fail
  | info => .info
  | data => .data

theorem replyKind_status (r : Response) :
    replyKind (cString (Packet.status r).bytes) = r.result.kind := by
  obtain ⟨result, message⟩ := r
  have htag : ∀ b ∈ bytesOf result.tag, decide (b ≠ 0) = true := by
    cases result <;> decide
  have hkind : ∀ rest, replyKind (bytesOf result.tag ++ rest) = result.kind := by
    cases result <;> exact fun _ => rfl
  rw [Packet.bytes, cString, List.takeWhile_append_of_pos htag]
  exact hkind _

theorem length_clip (result : FastbootResult) (message : String) :
    (clip result message).length ≤ kMaxMessageSize := by
  have htake : ∀ l : List Char, (l.take kMaxMessageSize).length ≤ kMaxMessageSize :=
    fun l => List.length_take_le _ _
  unfold clip
  split_ifs with hlength
  · exact hlength
  · rw [String.length_append, String.length_ofList, List.length_take]
    have := htake message.toList
    have hdots : "...".length = 3 := rfl
    rw [kMaxMessageSize] at this ⊢
    omega
  · rw [String.length_ofList]
    exact htake _

theorem length_status (result : FastbootResult) (message : String) :
    (Packet.status ⟨result, clip result message⟩).bytes.length ≤ kResponseSize := by
  have hclip := length_clip result message
  have htag : (bytesOf result.tag).length = 4 := by
    cases result <;> rfl
  rw [Packet.bytes, List.length_append, htag, length_bytesOf]
  exact Nat.add_le_add_left hclip 4

/-! ### What is remembered of a session -/

/-- Where the conversation has come to, as far as the device can see; `lost` stands for a broken
link, and `free` for a host that has said something else. -/
inductive FlashPlace
  | at (q : FlashStage)
  | lost
  | free

/-- A flash: the path, the payload, and whether it has succeeded. -/
abbrev FlashCall := String × List Byte × Bool

/-- The place of the conversation, and the flashes so far. -/
structure FlashView where
  place : FlashPlace
  flashed : List FlashCall

/-- The flashes of some pieces on a partition. -/
def flashesOf (partition : String) (pieces : List (List Byte)) : List FlashCall :=
  pieces.map fun data => ("/dev/" ++ partition, data, true)

/-- Some pieces are flashed, in their order, and the flash of one more may have failed. -/
def Halts (partition : String) (all flashed : List FlashCall) : Prop :=
  flashed <+: all ∨ ∃ before data, flashed = before ++ [("/dev/" ++ partition, data, false)] ∧
    before ++ flashesOf partition [data] <+: all

/-- Of all pieces, those before the place of the conversation are flashed; the one at hand is flashed
when this is answered with OKAY at the latest. -/
def Progress (partition : String) (all flashed : List FlashCall) : FlashStage → Prop
  | .ready rest => all = flashed ++ flashesOf partition rest
  | .announced data rest => all = flashed ++ flashesOf partition (data :: rest)
  | .sending _ data rest => all = flashed ++ flashesOf partition (data :: rest)
  | .staged data rest => all = flashed ++ flashesOf partition (data :: rest)
  | .flashing data rest =>
    all = flashed ++ flashesOf partition (data :: rest) ∨
      all = flashed ++ flashesOf partition rest ∨ Halts partition all flashed
  | .ended => Halts partition all flashed

section

variable {partition : String} {all flashed : List FlashCall} {q q' : FlashStage}
  {bytes : List Byte}

theorem Progress.halts (h : Progress partition all flashed q) : Halts partition all flashed := by
  cases q with
  | ended => exact h
  | flashing data rest =>
    obtain rfl | rfl | h := h
    · exact .inl (List.prefix_append _ _)
    · exact .inl (List.prefix_append _ _)
    · exact h
  | ready rest | announced data rest | sending left data rest | staged data rest =>
    obtain rfl := h
    exact .inl (List.prefix_append _ _)

/-- A packet of the host flashes nothing. -/
theorem Progress.request (h : Progress partition all flashed q)
    (hrequest : q.request partition bytes = some q') : Progress partition all flashed q' := by
  unfold FlashStage.request at hrequest
  split at hrequest
  · split_ifs at hrequest
    cases hrequest
    exact h
  · split_ifs at hrequest
    cases hrequest
    exact h
  · split_ifs at hrequest
    cases hrequest
    exact .inl h
  · cases hrequest

end

namespace FlashPlace

variable (partition : String)

/-- After a read of a command. -/
def heard : FlashPlace → Received → FlashPlace
  | .at q, .got [] => .at q
  | .at q, .got bytes => (q.request partition bytes).elim free .at
  | .at _, .failed _ => lost
  | lost, .got (_ :: _) => free
  | lost, _ => lost
  | free, _ => free

/-- After a read of data. -/
def took (size : ℕ) : FlashPlace → Received → FlashPlace
  | .at (.sending _ data rest), .got bytes =>
    if bytes.length ≠ size then lost
    else if bytes = data then .at (.sending [] data rest)
    else free
  | .at _, _ => lost
  | lost, .got (_ :: _) => free
  | lost, _ => lost
  | free, _ => free

/-- After a write. -/
def said (p : Packet) : FlashPlace → Bool → FlashPlace
  | .at q, true =>
    match q.awaits with
    | some (kind, after) => (q.respond kind after p.bytes).elim free .at
    | none => free
  | .at _, false => lost
  | lost, _ => lost
  | free, _ => free

end FlashPlace

namespace FlashView

variable (partition : String)

def next (g : FlashView) : (c : Call) → c.Answer → FlashView
  | .readCommand, r => { g with place := g.place.heard partition r }
  | .readData size, r => { g with place := g.place.took size r }
  | .write p, ok => { g with place := g.place.said p ok }
  | .flashBlockDevice path data _, failed =>
    { g with flashed := g.flashed ++ [(path, data, failed.isNone)] }
  | _, _ => g

/-- What the device may do in the conversation. -/
def SafeAt (all : List FlashCall) (g : FlashView) (q : FlashStage) : Call → Prop
  | .readCommand => ∀ left data rest, q ≠ .sending left data rest
  | .readData size => ∃ data rest, q = .sending data data rest ∧ data ≠ [] ∧ size = data.length
  | .write p => ∃ kind after q', q.awaits = some (kind, after) ∧
      q.respond kind after p.bytes = some q' ∧ Progress partition all g.flashed q'
  | .flashBlockDevice path data _ => ∃ rest, path = "/dev/" ++ partition ∧ q = .flashing data rest ∧
      all = g.flashed ++ flashesOf partition (data :: rest)
  | _ => True

/-- On a broken link nothing is flashed. -/
def Safe (all : List FlashCall) (g : FlashView) (c : Call) : Prop :=
  match g.place with
  | .at q => SafeAt partition all g q c
  | .lost => ∀ path data size, c ≠ .flashBlockDevice path data size
  | .free => True

end FlashView

/-- The observer of a session that is flashed. -/
def follower (partition : String) (all : List FlashCall) :
    Monitor Call Call.Answer FlashView where
  safe := FlashView.Safe partition all
  next := FlashView.next partition

section

variable {partition : String} {all flashed : List FlashCall} {q after : FlashStage}
  {kind : ReplyKind} {s : FastbootDevice} {ε α : Type}

/-- Once the host has said something else, nothing is asked of the device. -/
theorem meets_free (m : Prog FastbootDevice Call Call.Answer ε α) (s : FastbootDevice)
    (flashed : List FlashCall) :
    Meets (follower partition all) m s ⟨.free, flashed⟩ fun _ _ g => g.place = .free := by
  induction m generalizing s flashed with
  | ret a => rfl
  | stop e => rfl
  | get k ih => exact ih s s flashed
  | put s' k ih => exact ih s' flashed
  | call c k ih =>
    refine ⟨trivial, fun a => ?_⟩
    have hnext : ∃ flashed', (follower partition all).next ⟨.free, flashed⟩ c a =
        ⟨.free, flashed'⟩ := by
      cases c with
      | _ => exact ⟨_, rfl⟩
    obtain ⟨flashed', hnext⟩ := hnext
    rw [hnext]
    exact ih a s flashed'

/-- A query leaves the view as it is. -/
theorem meets_ask_follower {c : Query} {place : FlashPlace}
    {Q : Except Stop c.Answer → FastbootDevice → FlashView → Prop}
    (hok : ∀ a, Q (.ok a) s ⟨place, flashed⟩)
    (hthrow : ∀ what, Q (.error (.threw what)) s ⟨place, flashed⟩) :
    Meets (follower partition all) (ask c) s ⟨place, flashed⟩ Q := by
  refine meets_ask_iff.2 ⟨?_, hok, hthrow⟩
  cases place with
  | «at» q => trivial
  | lost => exact fun path data size h => by cases h
  | free => trivial

/-- A response that the host waits for, or a FAIL. -/
theorem meets_writeStatus_follower {result : FastbootResult} {message : String} {q' : FlashStage}
    {Q : Except Stop Bool → FastbootDevice → FlashView → Prop}
    (hq : q.awaits = some (kind, after))
    (hresult : result = .fail ∧ q' = .ended ∨
      (result = .okay ∨ result = .data) ∧ result.kind = kind ∧ q' = after)
    (hprogress : Progress partition all flashed q')
    (hsaid : Q (.ok true) { s with replied := s.replied || decide (result = .okay ∨ result = .fail) }
      ⟨.at q', flashed⟩)
    (hlost : Q (.ok false) { s with transportFailed := true } ⟨.lost, flashed⟩) :
    Meets (follower partition all) (writeStatus result message) s ⟨.at q, flashed⟩ Q := by
  have hrespond : q.respond kind after
      (Packet.status ⟨result, clip result message⟩).bytes = some q' := by
    rw [FlashStage.respond, if_neg (not_lt.2 (length_status result message)), replyKind_status]
    obtain ⟨rfl, rfl⟩ | ⟨rfl | rfl, rfl, rfl⟩ := hresult
    · rfl
    · exact if_pos rfl
    · exact if_pos rfl
  refine meets_writeStatus_iff.2 ⟨⟨kind, after, q', hq, hrespond, hprogress⟩, ?_, hlost⟩
  have hnext : (follower partition all).next ⟨.at q, flashed⟩
      (.write (.status ⟨result, clip result message⟩)) true = ⟨.at q', flashed⟩ := by
    show FlashView.mk ((FlashPlace.at q).said _ true) flashed = _
    rw [FlashPlace.said, hq]
    dsimp only
    rw [hrespond]
    rfl
  rw [hnext]
  exact hsaid

/-! ### The handlers -/

/-- The device has what the host has sent. -/
def Rested (s : FastbootDevice) : FlashStage → Prop
  | .ready _ => True
  | .staged data _ => s.downloadData = data
  | .ended => True
  | _ => False

/-- What holds between two commands. -/
structure Resting (partition : String) (all flashed : List FlashCall)
    (s : FastbootDevice) (q : FlashStage) : Prop where
  progress : Progress partition all flashed q
  alive : s.transportFailed = false
  rested : Rested s q

/-- What holds after a handler. -/
def Handled (partition : String) (all : List FlashCall) (r : Except Stop Bool)
    (s : FastbootDevice) (g : FlashView) : Prop :=
  match g.place, r with
  | .at q, .ok _ => Resting partition all g.flashed s q ∧ s.replied = true
  | .at q, .error _ => q.awaits.isSome = true ∧ Halts partition all g.flashed
  | .lost, .ok _ => s.transportFailed = true
  | .lost, .error _ => True
  | .free, _ => True

theorem handled_free {r : Except Stop Bool} {g : FlashView} (h : g.place = .free) :
    Handled partition all r s g := by
  unfold Handled
  rw [h]
  trivial

/-- A handler may fail where the host waits for it. -/
theorem meets_writeFail_handled (hq : q.awaits = some (kind, after)) (hhalts : Halts partition all flashed)
    (halive : s.transportFailed = false) (message : String) :
    Meets (follower partition all) (writeFail message) s ⟨.at q, flashed⟩
      (Handled partition all) :=
  meets_writeStatus_follower hq (.inl ⟨rfl, rfl⟩) hhalts
    ⟨⟨hhalts, halive, trivial⟩, Bool.or_true _⟩ rfl

theorem meets_writeOkay_handled (hq : q.awaits = some (.okay, after))
    (hprogress : Progress partition all flashed after) (halive : s.transportFailed = false)
    (hrested : Rested s after) (message : String) :
    Meets (follower partition all) (writeOkay message) s ⟨.at q, flashed⟩
      (Handled partition all) := by
  refine meets_writeStatus_follower hq (.inr ⟨.inl rfl, rfl, rfl⟩) hprogress
    ⟨⟨hprogress, halive, ?_⟩, Bool.or_true _⟩ rfl
  cases after <;> exact hrested

/-- On a broken link the answer does not matter. -/
theorem meets_writeFail_lost (hlost : s.transportFailed = true) (message : String) :
    Meets (follower partition all) (writeFail message) s ⟨.lost, flashed⟩
      (Handled partition all) :=
  meets_writeStatus_iff.2 ⟨fun _ _ _ h => (by cases h), hlost, rfl⟩

variable {data : List Byte} {rest : List (List Byte)}

theorem length_resize (size : ℕ) (buffer : List Byte) : (resize size buffer).length = size := by
  rw [resize, List.length_append, List.length_take, List.length_replicate]
  omega

theorem fill_of_length {bytes buffer : List Byte} (h : bytes.length = buffer.length) :
    fill bytes buffer = bytes := by
  rw [fill, h, List.drop_length, List.append_nil, ← h, List.take_length]

/-- The data of a download is what the host was to send, or the host has said something else, or the
link is broken. -/
theorem meets_handleDataRead_follower {Q : Except Stop Bool → FastbootDevice → FlashView → Prop}
    (hlength : s.downloadData.length = data.length) (hne : data ≠ [])
    (hsent : Q (.ok true) { s with downloadData := data } ⟨.at (.sending [] data rest), flashed⟩)
    (hfree : ∀ b s', Q (.ok b) s' ⟨.free, flashed⟩)
    (hlost : ∀ s' : FastbootDevice, s'.transportFailed = true →
      Q (.ok false) s' ⟨.lost, flashed⟩) :
    Meets (follower partition all) handleDataRead s ⟨.at (.sending data data rest), flashed⟩ Q := by
  refine meets_bind.2 (meets_state.2 (meets_bind.2 ⟨⟨data, rest, rfl, hne, hlength⟩, fun r => ?_⟩))
  refine meets_bind.2 (meets_update.2 ?_)
  cases r with
  | failed bytes => exact meets_bind.2 (meets_update.2 (hlost _ rfl))
  | got bytes =>
    dsimp only
    have htook : (follower partition all).next ⟨.at (.sending data data rest), flashed⟩
        (.readData s.downloadData.length) (.got bytes) =
        ⟨if bytes.length ≠ s.downloadData.length then .lost
          else if bytes = data then .at (.sending [] data rest) else .free, flashed⟩ := rfl
    by_cases hshort : bytes.length = s.downloadData.length
    · rw [if_pos hshort]
      by_cases hdata : bytes = data
      · subst hdata
        rw [if_neg (not_not.2 hshort), if_pos rfl] at htook
        show Q (.ok true) { s with downloadData := fill bytes s.downloadData } _
        rw [htook, fill_of_length hshort]
        exact hsent
      · rw [if_neg (not_not.2 hshort), if_neg hdata] at htook
        rw [htook]
        exact hfree true _
    · rw [if_neg hshort]
      rw [if_pos hshort] at htook
      rw [htook]
      exact meets_bind.2 (meets_update.2 (hlost _ rfl))

theorem meets_downloadHandler_follower {digits : String} (hdigits : hexText 8 data.length = digits)
    (hprogress : Progress partition all flashed (.announced data rest))
    (halive : s.transportFailed = false) :
    Meets (follower partition all) (downloadHandler ["download", digits]) s
      ⟨.at (.announced data rest), flashed⟩ (Handled partition all) := by
  have hfail (message : String) : Meets (follower partition all) (writeFail message) s
      ⟨.at (.announced data rest), flashed⟩ (Handled partition all) :=
    meets_writeFail_handled rfl hprogress.halts halive message
  have harg : arg ["download", digits] 1 = pure digits := rfl
  unfold downloadHandler
  rw [if_neg (by simp), if_neg (by decide), harg, pure_bind]
  by_cases height : digits.length ≠ 8
  · rw [if_pos height]
    exact hfail _
  rw [if_neg height, ← hdigits, parseUint_hexText]
  split_ifs with hmax
  swap
  · exact hfail _
  dsimp only
  by_cases hempty : data.length = 0
  · rw [if_pos hempty]
    exact hfail _
  have hne : data ≠ [] := fun hnil => hempty (congrArg List.length hnil)
  rw [if_neg hempty]
  refine meets_bind.2 (meets_ask_follower (fun _ => ?_) fun what => ⟨rfl, hprogress.halts⟩)
  refine meets_bind.2 (meets_update.2 (meets_bind.2 (meets_writeStatus_follower rfl
    (.inr ⟨.inr rfl, rfl, rfl⟩) hprogress ?_ rfl)))
  show Meets _ (handleDataRead >>= _) _ _ _
  refine meets_bind.2 (meets_handleDataRead_follower ?_ hne ?_ ?_ ?_)
  · exact length_resize _ _
  · show Meets (follower partition all) (writeOkay "") _
      ⟨.at (.sending [] data rest), flashed⟩ _
    have hstaged : Progress partition all flashed (.staged data rest) := hprogress
    exact meets_writeOkay_handled (by rfl) hstaged (by exact halive) (by rfl) _
  · intro b s'
    dsimp only
    split_ifs
    · exact (meets_free _ s' flashed).mono fun r s g h => handled_free h
    · exact (meets_free _ s' flashed).mono fun r s g h => handled_free h
  · exact fun s' hlost => meets_writeFail_lost hlost _

theorem path_openPartition {writable : String → Bool} {name : String} {handle : PartitionHandle}
    (h : openPartition writable ("/dev/" ++ name) = some handle) : handle.path = "/dev/" ++ name := by
  obtain ⟨path, hpath, rfl⟩ := Option.map_eq_some_iff.1 h
  have hdev : hasPrefix "/dev" ("/dev/" ++ name) = true := by
    rw [hasPrefix, String.toList_append]
    rfl
  unfold findPhysicalPartition at hpath
  rw [hdev, if_pos rfl] at hpath
  dsimp only at hpath
  split_ifs at hpath
  exact (Option.some.inj hpath).symm

/-- How a flash ends: it may have failed after the device was written, and if it has not, the piece
is flashed. -/
def FlashEnded (partition : String) (all : List FlashCall) (data : List Byte)
    (rest : List (List Byte)) (r : Except Stop (Option String)) (s : FastbootDevice)
    (g : FlashView) : Prop :=
  g.place = .at (.flashing data rest) ∧ s.transportFailed = false ∧
    Progress partition all g.flashed (.flashing data rest) ∧
    (r = .ok none → Progress partition all g.flashed (.ready rest))

theorem meets_flash_follower (hbuffer : s.downloadData = data)
    (hprogress : Progress partition all flashed (.staged data rest))
    (halive : s.transportFailed = false) :
    Meets (follower partition all) (FastbootDevice.flash partition) s
      ⟨.at (.flashing data rest), flashed⟩ (FlashEnded partition all data rest) := by
  have hended {r : Except Stop (Option String)} {s' : FastbootDevice}
      (hr : r ≠ .ok none) (hs : s'.transportFailed = false) :
      FlashEnded partition all data rest r s' ⟨.at (.flashing data rest), flashed⟩ :=
    ⟨rfl, hs, .inl hprogress, fun h => absurd h hr⟩
  unfold FastbootDevice.flash
  refine meets_bind.2 (meets_ask_follower (fun _ => ?_) fun what => hended (by simp) halive)
  refine meets_bind.2 (meets_ask_follower (fun writable => ?_) fun what => hended (by simp) halive)
  dsimp only
  cases hopen : openPartition writable ("/dev/" ++ partition) with
  | none => exact hended (by simp) halive
  | some handle =>
    dsimp only
    refine meets_bind.2 (meets_ask_follower (fun opened => ?_) fun what => hended (by simp) halive)
    cases opened with
    | error error => exact hended (by simp) halive
    | ok _ =>
      refine meets_bind.2 (meets_state.2 (meets_bind.2 (meets_update.2 ?_)))
      dsimp only
      split_ifs with hempty
      · exact hended (by simp) halive
      refine meets_bind.2 (meets_ask_follower (fun size => ?_) fun what => hended (by simp) halive)
      dsimp only
      split_ifs with hlarge
      · exact hended (by simp) halive
      rw [hbuffer]
      refine meets_bind.2 ⟨⟨rest, path_openPartition hopen, rfl, hprogress⟩, fun failed => ?_⟩
      cases failed with
      | some error =>
        have hnext : (follower partition all).next ⟨.at (.flashing data rest), flashed⟩
            (.flashBlockDevice handle.path data size) (some error) =
            ⟨.at (.flashing data rest), flashed ++ [("/dev/" ++ partition, data, false)]⟩ := by
          rw [path_openPartition hopen]
          rfl
        rw [hnext]
        refine ⟨rfl, halive, .inr (.inr (.inr ⟨flashed, data, rfl, ?_⟩)), fun h => by cases h⟩
        exact ⟨flashesOf partition rest, by rw [List.append_assoc]; exact hprogress.symm⟩
      | none =>
        have hnext : (follower partition all).next ⟨.at (.flashing data rest), flashed⟩
            (.flashBlockDevice handle.path data size) none =
            ⟨.at (.flashing data rest), flashed ++ flashesOf partition [data]⟩ := by
          rw [path_openPartition hopen]
          rfl
        rw [hnext]
        have hflashed : Progress partition all (flashed ++ flashesOf partition [data])
            (.ready rest) := hprogress.trans (by rw [List.append_assoc]; rfl)
        have hdone {r : Except Stop (Option String)} {s' : FastbootDevice}
            (hs : s'.transportFailed = false) :
            FlashEnded partition all data rest r s'
              ⟨.at (.flashing data rest), flashed ++ flashesOf partition [data]⟩ :=
          ⟨rfl, hs, .inr (.inl hflashed), fun _ => hflashed⟩
        refine meets_bind.2 (meets_ask_follower (fun whole => ?_) fun what => hdone halive)
        dsimp only
        split_ifs with hwhole
        · exact hdone halive
        refine meets_bind.2 (meets_ask_follower (fun reread => ?_) fun what => hdone halive)
        cases reread with
        | none => exact hdone halive
        | some error => exact hdone halive

theorem meets_flashHandler_follower (hbuffer : s.downloadData = data)
    (hprogress : Progress partition all flashed (.staged data rest))
    (halive : s.transportFailed = false) :
    Meets (follower partition all) (flashHandler ["flash", partition]) s
      ⟨.at (.flashing data rest), flashed⟩ (Handled partition all) := by
  have harg : arg ["flash", partition] 1 = pure partition := rfl
  unfold flashHandler
  rw [if_neg (by simp), if_neg (by decide), harg, pure_bind]
  refine meets_bind.2 ((meets_flash_follower hbuffer hprogress halive).mono fun r s' g hended => ?_)
  obtain ⟨place, flashed'⟩ := g
  obtain ⟨rfl, halive', hprogress', hdone⟩ := hended
  cases r with
  | error e => exact ⟨rfl, hprogress'.halts⟩
  | ok failed =>
    cases failed with
    | some error => exact meets_writeFail_handled rfl hprogress'.halts halive' error
    | none => exact meets_writeOkay_handled rfl (hdone rfl) halive' trivial _

/-! ### The loop -/

/-- What holds between two commands. -/
def Head (partition : String) (all : List FlashCall) (s : FastbootDevice)
    (g : FlashView) : Prop :=
  match g.place with
  | .at q => Resting partition all g.flashed s q
  | .lost => False
  | .free => True

/-- How one turn of the loop ends. -/
def GoesOn (partition : String) (all : List FlashCall) (r : Except Stop Bool)
    (s : FastbootDevice) (g : FlashView) : Prop := r = .ok true → Head partition all s g

theorem meets_free_goesOn (m : DeviceM Bool) (s : FastbootDevice)
    (flashed : List FlashCall) :
    Meets (follower partition all) m s ⟨.free, flashed⟩ (GoesOn partition all) :=
  (meets_free m s flashed).mono fun r s g h _ => by
    unfold Head
    rw [h]
    trivial

/-- A response after a handler that has ended the session. -/
theorem meets_writeStatus_ends {g : FlashView} {message : String}
    (hend : match g.place with
      | .at q => q.awaits.isSome = true ∧ Halts partition all g.flashed
      | _ => True) :
    Meets (follower partition all) (do let _ ← writeStatus .fail message; return false) s g
      (GoesOn partition all) := by
  obtain ⟨place, flashed⟩ := g
  have hstop {s' : FastbootDevice} {g' : FlashView} :
      GoesOn partition all (.ok false) s' g' := fun h => by cases h
  cases place with
  | free => exact meets_free_goesOn _ s flashed
  | lost => exact meets_bind.2 (meets_writeStatus_iff.2 ⟨fun _ _ _ h => (by cases h), hstop, hstop⟩)
  | «at» q =>
    obtain ⟨⟨kind, after⟩, hq⟩ := Option.isSome_iff_exists.1 hend.1
    exact meets_bind.2 (meets_writeStatus_follower hq (.inl ⟨rfl, rfl⟩) hend.2 hstop hstop)

theorem meets_afterCommand_follower {b : Bool} {g : FlashView}
    (h : Handled partition all (.ok b) s g) :
    Meets (follower partition all) (afterCommand b) s g (GoesOn partition all) := by
  obtain ⟨place, flashed⟩ := g
  cases place with
  | free => exact meets_free_goesOn _ s flashed
  | lost =>
    refine meets_bind.2 (meets_state.2 ?_)
    have hfailed : s.transportFailed = true := h
    dsimp only
    rw [decideAfterCommand, if_pos hfailed]
    exact fun hgo => by cases hgo
  | «at» q =>
    obtain ⟨hresting, hreplied⟩ : Resting partition all flashed s q ∧ s.replied = true := h
    refine meets_bind.2 (meets_state.2 ?_)
    dsimp only
    rw [decideAfterCommand, if_neg (by simp [hresting.alive]), if_neg (by simp [hreplied])]
    exact fun _ => hresting

/-- A command of the conversation. -/
theorem meets_dispatch_follower {config : SessionConfig} {handler : CommandHandler}
    {args : List String}
    (h : Meets (follower partition all) (handler.run config.build args) { s with replied := false }
      ⟨.at q, flashed⟩ (Handled partition all)) :
    Meets (follower partition all) (dispatch config handler args) s ⟨.at q, flashed⟩
      (GoesOn partition all) := by
  refine meets_bind.2 (meets_update.2 (meets_bind.2 ⟨trivial, fun _ => ?_⟩))
  refine meets_bind.2 (meets_rescue.2 (meets_bind.2 (h.mono fun r s' g hr => ?_)))
  cases r with
  | ok b => exact meets_afterCommand_follower hr
  | error e =>
    cases e with
    | threw what =>
      refine meets_writeStatus_ends ?_
      obtain ⟨place, flashed'⟩ := g
      cases place with
      | «at» q' => exact hr
      | lost | free => trivial
    | _ => exact fun hgo => by cases hgo

theorem meets_executeCommand_follower (haddress : Addressable partition) {g : FlashView}
    (h : Head partition all s g) (config : SessionConfig) :
    Meets (follower partition all) (executeCommand config) s g (GoesOn partition all) := by
  obtain ⟨place, flashed⟩ := g
  cases place with
  | free => exact meets_free_goesOn _ s flashed
  | lost => exact h.elim
  | «at» q =>
    have hresting : Resting partition all flashed s q := h
    have hrested := hresting.rested
    refine meets_bind.2 ⟨fun left data rest hq => by rw [hq] at hrested; exact hrested,
      fun received => ?_⟩
    cases received with
    | failed bytes => exact fun hgo => by cases hgo
    | got command =>
      cases command with
      | nil => exact fun hgo => by cases hgo
      | cons b bytes =>
        have hnext : (follower partition all).next ⟨.at q, flashed⟩ .readCommand (.got (b :: bytes)) =
          ⟨(q.request partition (b :: bytes)).elim .free .at, flashed⟩ := rfl
        rw [hnext]
        cases hrequest : q.request partition (b :: bytes) with
        | none => exact meets_free_goesOn _ s flashed
        | some q' =>
          have hprogress := hresting.progress
          unfold FlashStage.request at hrequest
          split at hrequest
          · split_ifs at hrequest with hcommand
            cases hrequest
            refine meets_pure.2 ?_
            dsimp only
            rw [hcommand.1, SessionConfig.parse_downloadText]
            generalize hdigits : hexText 8 _ = digits
            exact meets_dispatch_follower (meets_downloadHandler_follower hdigits hprogress
              hresting.alive)
          · exact hrested.elim
          · split_ifs at hrequest with hcommand
            cases hrequest
            refine meets_pure.2 ?_
            dsimp only
            rw [hcommand, SessionConfig.parse_flashText config haddress]
            exact meets_dispatch_follower (meets_flashHandler_follower hrested hprogress
              hresting.alive)
          · cases hrequest

/-- A session keeps to the conversation as long as the host does. -/
theorem meets_executeCommands_follower (haddress : Addressable partition) {g : FlashView}
    (h : Head partition all s g) (config : SessionConfig) (n : ℕ) :
    Meets (follower partition all) (executeCommands config n) s g fun _ _ _ => True := by
  induction n generalizing s g with
  | zero => trivial
  | succ n ih =>
    refine meets_bind.2 ((meets_executeCommand_follower haddress h config).mono
      fun r s' g' hr => ?_)
    match r with
    | .ok true => exact ih (hr rfl)
    | .ok false => trivial
    | .error e => trivial

end

end RpiFastbootd
