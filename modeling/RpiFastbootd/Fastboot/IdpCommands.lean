import RpiFastbootd.Fastboot.Types
import RpiFastbootd.Idp.Provision

/-!
# The provisioning commands

`oem idpinit`, `idpwrite`, `idpgetblk` and `idpdone` over the provisioning device of a session.  A
host calls `idpgetblk` until a reply carries no block device; after a write that can be trusted it
has then learnt the device of every image, once and in the order of the description.
-/

namespace RpiFastbootd

/-- The provisioning device of a session and its cookie. -/
structure IdpSession where
  idp : Option IDPdevice := none
  cookie : IDPcookie := {}

namespace IdpSession

/-- `oem idpinit` with the staged `data` and a new device; `none` when the process dies. -/
def oemCmdIdpInit (s : IdpSession) (data : String) (reader : String → Except String Json.Doc)
    (m : Machine) (fresh : IDPdevice) : Option (Response × IdpSession) :=
  if data = "" then some (⟨.fail, "IDP:No data. Check description was staged"⟩, s)
  else if s.idp.isSome then some (⟨.fail, "IDP:already initialised"⟩, s)
  else match fresh.initialise reader data with
    | (.error (.threw what), _) =>
      some (⟨.fail, "IDP:invalid description: " ++ what⟩, { s with idp := none })
    | (.error (.refused reason), _) =>
      some (⟨.fail, "IDP:invalid description: " ++ reason⟩, { s with idp := none })
    | (.error .outOfFuel, _) => none
    | (.ok (), d) => do
      match ← d.canProvision m with
      | (.error reason, _) =>
        return (⟨.fail, "IDP:cannot provision: " ++ reason⟩, { s with idp := none })
      | (.ok (), d) => return (⟨.okay, "IDP:ready"⟩, { idp := some d, cookie := d.createCookie })

/-- `oem idpwrite`; `none` when the process dies. -/
def oemCmdIdpWrite (s : IdpSession) (env : Step → Bool) : Option (Response × IdpSession) :=
  match s.idp with
  | none => some (⟨.fail, "IDP:not initialised"⟩, s)
  | some d => do
    let r ← d.startProvision env ""
    let s := { s with idp := some r.device }
    if r.ok then return (⟨.okay, "IDP:ok"⟩, s)
    else return (⟨.fail, "IDP:failed to start provisioning: " ++ r.reason⟩, s)

/-- The device without its directory, and the image. -/
def blkInfo (b : IDPblockDevice) : String :=
  let blk := b.blockDev.toList
  (if "/dev/".toList.isPrefixOf blk then String.ofList (blk.drop "/dev/".length) else b.blockDev) ++
    ":" ++ b.simg

/-- The replies to `oem idpgetblk` that carry a block device, or none. -/
def blkReplies (bd : Option IDPblockDevice) : List Response :=
  bd.toList.map (fun b => ⟨.info, blkInfo b⟩) ++ [⟨.okay, "IDP:done"⟩]

def oemCmdIdpGetblk (s : IdpSession) : List Response × IdpSession :=
  match s.idp with
  | none => ([⟨.fail, "IDP:not initialised"⟩], s)
  | some d =>
    if d.state ≠ .partitioned then
      ([⟨.fail, "IDP:not partitioned (state " ++ toString d.state.toNat ++ ")"⟩], s)
    else
      let (bd, cookie) := d.getNextBlockDevice s.cookie
      (blkReplies bd, { s with cookie })

def oemCmdIdpDone (s : IdpSession) : Response × IdpSession :=
  match s.idp with
  | none => (⟨.okay, "IDP:not initialised"⟩, s)
  | some d =>
    let (result, d) := d.endProvision
    if result then (⟨.okay, "IDP:done"⟩, { s with idp := none })
    else (⟨.fail, "IDP:error finalising (state " ++ toString d.state.toNat ++ ")"⟩,
      { s with idp := none })

/-- The replies to repeated `oem idpgetblk`. -/
def getblkReplies : ℕ → IdpSession → List (List Response)
  | 0, _ => []
  | n + 1, s => s.oemCmdIdpGetblk.1 :: getblkReplies n s.oemCmdIdpGetblk.2

end IdpSession

/-! ### What a host learns -/

/-- What `getNextBlockDevice` has to say about a partition. -/
def report (p : IDPpartition) : Option IDPblockDevice :=
  if p.isCryptContainer then none else some ⟨p.getBlockDev, p.simg.getD ""⟩

/-- The partition is a container, or has an image and a device. -/
def Deliverable (p : IDPpartition) : Prop :=
  p.isCryptContainer ∨ p.simg.isSome ∧ p.getBlockDev ≠ ""

/-- The loop delivers the first partition that is no container, and stops behind it. -/
theorem nextBlockDevice_spec {ps : List IDPpartition} (h : ∀ p ∈ ps, Deliverable p) (n : ℕ) :
    ∃ m, IDPdevice.nextBlockDevice ps n = ((ps.filterMap report).head?, n + m) ∧
      (ps.drop m).filterMap report = (ps.filterMap report).tail := by
  induction ps generalizing n with
  | nil => exact ⟨0, rfl, rfl⟩
  | cons p ps ih =>
    rw [List.forall_mem_cons] at h
    rw [IDPdevice.nextBlockDevice, List.filterMap_cons, report]
    by_cases hc : p.isCryptContainer
    · obtain ⟨m, hm, hdrop⟩ := ih h.2 (n + 1)
      rw [if_pos hc, if_pos hc]
      exact ⟨m + 1, by rw [hm, Nat.add_assoc, Nat.add_comm 1], hdrop⟩
    · obtain ⟨hs, hb⟩ := h.1.resolve_left hc
      obtain ⟨simg, hs⟩ := Option.isSome_iff_exists.1 hs
      rw [if_neg hc, if_neg hc, hs]
      exact ⟨1, by simp [hb], rfl⟩

section

variable {d : IDPdevice} (hstate : d.state = .partitioned)
  (h : ∀ p ∈ d.partitions, Deliverable p)

include hstate h

theorem oemCmdIdpGetblk_spec {cookie : IDPcookie} (hid : cookie.sessionId = d.sessionId) :
    ∃ m, IdpSession.oemCmdIdpGetblk ⟨some d, cookie⟩ =
      (IdpSession.blkReplies ((d.partitions.drop cookie.index).filterMap report).head?,
        ⟨some d, { cookie with index := cookie.index + m }⟩) ∧
      (d.partitions.drop (cookie.index + m)).filterMap report =
        ((d.partitions.drop cookie.index).filterMap report).tail := by
  obtain ⟨m, hm, hdrop⟩ := nextBlockDevice_spec
    (fun p (hp : p ∈ d.partitions.drop cookie.index) => h p (List.mem_of_mem_drop hp)) cookie.index
  refine ⟨m, ?_, by rw [← List.drop_drop, hdrop]⟩
  simp [IdpSession.oemCmdIdpGetblk, hstate, IDPdevice.getNextBlockDevice, hid, hm]

/-- From a cookie on, the host learns the remaining devices in order and then no more. -/
theorem getblkReplies_eq {bs : List IDPblockDevice} {cookie : IDPcookie}
    (hid : cookie.sessionId = d.sessionId)
    (hbs : (d.partitions.drop cookie.index).filterMap report = bs) :
    IdpSession.getblkReplies (bs.length + 1) ⟨some d, cookie⟩ =
      (bs.map some ++ [none]).map IdpSession.blkReplies := by
  induction bs generalizing cookie with
  | nil =>
    obtain ⟨m, hreply, -⟩ := oemCmdIdpGetblk_spec hstate h hid
    rw [hbs] at hreply
    rw [List.length_nil, IdpSession.getblkReplies, hreply]
    rfl
  | cons b bs ih =>
    obtain ⟨m, hreply, hrest⟩ := oemCmdIdpGetblk_spec hstate h hid
    rw [hbs] at hreply hrest
    rw [List.length_cons, IdpSession.getblkReplies, hreply,
      @ih { cookie with index := cookie.index + m } hid hrest]
    rfl

end

/-! ### Trusting a reported success -/

/-- The provisioning `r` has done what the description of `d` requires: its steps have been
performed and succeeded, the partitions are those of the description, each image has a device, and
with the cookie of the session a host learns them all, once and in order. -/
structure Provisioned (env : Step → Bool) (d : IDPdevice) (r : Provision) : Prop where
  steps : ∀ s ∈ plan d.image d.partitions, s ∈ r.log ∧ env s
  kept : r.device.partitions.map (fun p => { p with blkdev := none }) = d.partitions
  blkdev : ∀ p ∈ r.device.partitions, p.img.isSome → p.getBlockDev ≠ ""
  reports : IdpSession.getblkReplies ((r.device.partitions.filter (·.img.isSome)).length + 1)
      ⟨some r.device, d.createCookie⟩ =
    ((r.device.partitions.filter (·.img.isSome)).map fun p =>
        [⟨.info, IdpSession.blkInfo ⟨p.getBlockDev, p.simg.getD ""⟩⟩, ⟨.okay, "IDP:done"⟩]) ++
      [[⟨.okay, "IDP:done"⟩]]

theorem filterMap_report {ps : List IDPpartition}
    (h : ∀ p ∈ ps, p.img.isSome ↔ ¬ p.isCryptContainer) :
    ps.filterMap report =
      (ps.filter (·.img.isSome)).map fun p => ⟨p.getBlockDev, p.simg.getD ""⟩ := by
  induction ps with
  | nil => rfl
  | cons p ps ih =>
    rw [List.forall_mem_cons] at h
    rw [List.filterMap_cons, report, List.filter_cons, ih h.2]
    by_cases hc : p.isCryptContainer
    · rw [if_pos hc, if_neg fun hi => h.1.1 hi hc]
    · rw [if_neg hc, if_pos (h.1.2 hc)]
      rfl

theorem img_iff_of_layout {image : IDPimage} {l : List IDPpartition} (h : Layout image l)
    {p : IDPpartition} (hp : p ∈ l) : p.img.isSome ↔ ¬ p.isCryptContainer := by
  rw [IDPpartition.isCryptContainer]
  cases hl : p.luks with
  | none => simp [(h.plain p hp hl).1]
  | some k => simp [(h.luks p hp k hl).2.2]

/-- A device whose partitions have the devices of the layout. -/
theorem provisioned_of_steps {env : Step → Bool} {d : IDPdevice} {r : Provision}
    (h : Layout d.image d.partitions) (hstate : r.device.state = .partitioned)
    (hid : r.device.sessionId = d.sessionId)
    (hparts : r.device.partitions =
      d.partitions.map fun p => p.setBlockDev (deviceOf d.image d.partitions p))
    (hsteps : ∀ s ∈ plan d.image d.partitions, s ∈ r.log ∧ env s) : Provisioned env d r := by
  have hnone {q : IDPpartition} (hq : q ∈ r.device.partitions) :
      ∃ p ∈ d.partitions, q = p.setBlockDev (deviceOf d.image d.partitions p) := by
    rw [hparts] at hq
    obtain ⟨p, hp, rfl⟩ := List.mem_map.1 hq
    exact ⟨p, hp, rfl⟩
  have hblk {q : IDPpartition} (hq : q ∈ r.device.partitions) : q.getBlockDev ≠ "" := by
    obtain ⟨p, hp, rfl⟩ := hnone hq
    exact deviceOf_ne_empty h hp
  have himg : ∀ q ∈ r.device.partitions, q.img.isSome ↔ ¬ q.isCryptContainer := by
    intro q hq
    obtain ⟨p, hp, rfl⟩ := hnone hq
    have hiff := img_iff_of_layout h hp
    exact hiff
  have hdeliver : ∀ q ∈ r.device.partitions, Deliverable q := by
    intro q hq
    by_cases hc : q.isCryptContainer
    · exact .inl hc
    · refine .inr ⟨?_, hblk hq⟩
      obtain ⟨p, hp, rfl⟩ := hnone hq
      have hplain : p.luks = none := by
        cases hl : p.luks with
        | none => rfl
        | some k => exact (hc (Option.isSome_of_eq_some hl)).elim
      exact (h.plain p hp hplain).2.1
  refine ⟨hsteps, ?_, fun q hq _ => hblk hq, ?_⟩
  · have hkept : d.partitions.map ((fun p => { p with blkdev := none }) ∘ fun p =>
        p.setBlockDev (deviceOf d.image d.partitions p)) = d.partitions.map id :=
      List.map_congr_left fun p hp => by
        have := h.blkdev p hp
        cases p
        cases this
        rfl
    rw [hparts, List.map_map, hkept, List.map_id]
  · have hstart : r.device.partitions.drop d.createCookie.index = r.device.partitions := rfl
    have hreplies := @getblkReplies_eq r.device hstate hdeliver _ d.createCookie hid.symm rfl
    rw [hstart, filterMap_report himg, List.length_map] at hreplies
    rw [hreplies]
    simp [IdpSession.blkReplies]

/-- A reported success can be trusted exactly when every required step succeeds, or the step that
ends the run is not one inside a container: those end it with success. -/
theorem startProvision_sound_iff (reader : String → Except String Json.Doc) (text : String)
    (d₀ d₁ d : IDPdevice) (m : Machine) (hinit : d₀.initialise reader text = (.ok (), d₁))
    (hready : d₁.canProvision m = some (.ok (), d)) (env : Step → Bool) (reason : String) :
    (∃ r, d.startProvision env reason = some r ∧ (r.ok = true → Provisioned env d r)) ↔
      (∀ s ∈ plan d.image d.partitions, env s) ∨
        ∃ s, firstFatal env (plan d.image d.partitions) = some s ∧ s.swallowed = false := by
  obtain ⟨hstate, hlayout, hwritable⟩ := ready_of_accepted hinit hready
  obtain ⟨j, hrun, -, hdone⟩ :=
    @follows_prepareStorage env _ _ hwritable ⟨⟨d.partitions, reason⟩, []⟩
  rw [IDPdevice.startProvision, if_neg (not_not.2 hstate)]
  simp only [hrun, Option.bind_eq_bind, Option.bind_some, pure, Option.some.injEq,
    exists_eq_left']
  constructor
  · intro h
    by_contra hcond
    rw [not_or] at hcond
    refine hcond.1 fun s hs => ((h ?_).steps s hs).2
    cases hf : firstFatal env (plan d.image d.partitions) with
    | none => rfl
    | some s =>
      have := fun hs => hcond.2 ⟨s, hf, hs⟩
      simpa using this
  · rintro (hall | ⟨s, hf, hs⟩) hok
    · obtain ⟨hlog, hst⟩ := hdone (List.all_eq_true.2 hall)
      refine provisioned_of_steps hlayout ?_ rfl ?_ fun s hs => ⟨hlog hs, hall s hs⟩
      · simp only [hok, if_true]
      · rw [hst]
        exact partitions_attachAll hlayout reason
    · simp [hf, hs] at hok

/-- Everything succeeds but opening the table inside the container at position 0. -/
def closedContainer : Step → Bool
  | .openDevice (.container _) _ _ => false
  | _ => true

/-- The table inside the container cannot be opened: provisioning reports success, the image in
the container has no device, and the first `idpgetblk` tells the host that there is none at all. -/
theorem unopened_container_succeeds :
    (accept cryptDoc).1 = .ok () ∧
    ((accept cryptDoc).2.canProvision sampleMachine).map (·.1) = some (.ok ()) ∧
    ((ready cryptDoc).startProvision closedContainer "").map (·.ok) = some true ∧
    Step.openDevice (.container 0) "/dev/mapper/crypt" 1024 ∈
      plan (ready cryptDoc).image (ready cryptDoc).partitions ∧
    closedContainer (.openDevice (.container 0) "/dev/mapper/crypt" 1024) = false ∧
    ((ready cryptDoc).startProvision closedContainer "").map (fun r =>
      (r.device.partitions.filter (·.img.isSome)).map (·.getBlockDev)) =
        some ["", "/dev/mmcblk0p2"] ∧
    ((ready cryptDoc).startProvision closedContainer "").map (fun r =>
      IdpSession.getblkReplies 1 ⟨some r.device, (ready cryptDoc).createCookie⟩) =
        some [[⟨.okay, "IDP:done"⟩]] := by
  decide +kernel

/-- With every step granted the two images get their devices. -/
theorem provisioned_cryptDoc :
    ∃ r, (ready cryptDoc).startProvision (fun _ => true) "" = some r ∧
      (r.ok = true → Provisioned (fun _ => true) (ready cryptDoc) r) := by
  have hinit : (accept cryptDoc).1 = .ok () := by decide +kernel
  have hready : ((accept cryptDoc).2.canProvision sampleMachine).map (·.1) = some (.ok ()) := by
    decide +kernel
  unfold ready
  generalize hd : accept cryptDoc = c at hinit hready ⊢
  obtain ⟨_, d₁⟩ := c
  obtain rfl : _ = _ := hinit
  dsimp only at hready ⊢
  generalize hc : d₁.canProvision sampleMachine = c at hready ⊢
  obtain ⟨⟨_, d⟩, rfl, rfl⟩ := Option.map_eq_some_iff.1 hready
  exact (startProvision_sound_iff (fun _ => .ok cryptDoc) "json" _ d₁ d sampleMachine hd hc
    (fun _ => true) "").2 (.inl fun _ _ => rfl)

end RpiFastbootd
