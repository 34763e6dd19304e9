import RpiFastbootd.Fastboot.Flashing

/-!
# Writing through a partition handle

`FlashRawDataChunk` writes a payload piece by piece.  Before a piece that does not end with a page,
`PartitionHandle::Reset` closes the device, opens it again without `O_DIRECT` and seeks back.  The
handle is followed call by call here, and does what `FlashTarget` says in one step (`Follows`).
-/

namespace RpiFastbootd

inductive AccessMode
  | rdonly
  | wronly
  | rdwr
  deriving DecidableEq, Repr

/-- The flags of `open` that the daemon uses. -/
structure OpenFlags where
  access : AccessMode
  direct : Bool := false
  excl : Bool := false
  cloexec : Bool := false
  deriving DecidableEq, Repr

/-- The flags that `PartitionHandle::Open` adds. -/
def OpenFlags.forHandle (flags : OpenFlags) : OpenFlags :=
  { flags with excl := true, cloexec := true }

def oWronly : OpenFlags := { access := .wronly }

def oWronlyDirect : OpenFlags := { access := .wronly, direct := true }

/-- A handle: the position of its descriptor, if one is open, and the flags of the last open, with
the device that its path names, the text of the first error, and the outcomes of the calls still to
come (an error or none, an error or at most a number of bytes).  All calls succeed after these. -/
structure FlashHandle where
  path : String
  fd : Option ℕ := none
  flags : OpenFlags := oWronly
  size : ℕ
  content : ℕ → Byte
  err : String := ""
  buffers : List Bool := []
  opens : List (Option String) := []
  seeks : List (Option String) := []
  writes : List (Except String ℕ) := []

/-! ### One round of the loop over a target -/

namespace FlashTarget

variable {d d₁ d₂ : FlashTarget} {data : List Byte}

@[simp] theorem setErr_content (d : FlashTarget) (message : String) :
    (d.setErr message).content = d.content := by
  unfold setErr
  split_ifs <;> rfl

theorem writeLoop_of_not_ready (fuel : ℕ) (hne : data ≠ [])
    (hready : (if min kMaxWriteSize data.length % 4096 ≠ 0 then d.reset else (true, d)) =
      (false, d₁)) :
    ∃ message, writeLoop (fuel + 1) d data = (.eio, d₁.setErr message) := by
  rw [writeLoop, if_neg hne]
  dsimp only
  rw [hready]
  exact ⟨_, rfl⟩

theorem writeLoop_of_error (fuel : ℕ) (hne : data ≠ []) {e : String}
    (hready : (if min kMaxWriteSize data.length % 4096 ≠ 0 then d.reset else (true, d)) =
      (true, d₁))
    (hwrite : d₁.write (data.take (min kMaxWriteSize data.length)) = (.error e, d₂)) :
    ∃ message, writeLoop (fuel + 1) d data = (.errno e, d₂.setErr message) := by
  rw [writeLoop, if_neg hne]
  dsimp only
  rw [hready]
  dsimp only
  rw [if_neg (by simp), hwrite]
  exact ⟨_, rfl⟩

theorem writeLoop_of_ok (fuel : ℕ) (hne : data ≠ []) {n : ℕ}
    (hready : (if min kMaxWriteSize data.length % 4096 ≠ 0 then d.reset else (true, d)) =
      (true, d₁))
    (hwrite : d₁.write (data.take (min kMaxWriteSize data.length)) = (.ok n, d₂)) :
    writeLoop (fuel + 1) d data = writeLoop fuel d₂ (data.drop n) := by
  rw [writeLoop, if_neg hne]
  dsimp only
  rw [hready]
  dsimp only
  rw [if_neg (by simp), hwrite]

end FlashTarget

namespace FlashHandle

def setErr (h : FlashHandle) (message : String) : FlashHandle :=
  if h.err = "" then { h with err := message } else h

/-- `lseek`, to a place that may depend on the present one. -/
def lseek (h : FlashHandle) (target : ℕ → ℕ) : Except String ℕ × FlashHandle :=
  match h.fd with
  | none => (.error "Bad file descriptor", h)
  | some offset =>
    match h.seeks.headD none with
    | some e => (.error e, { h with seeks := h.seeks.tail })
    | none => (.ok (target offset), { h with fd := some (target offset), seeks := h.seeks.tail })

/-- `PartitionHandle::Open`: an open descriptor is closed first. -/
def openDevice (h : FlashHandle) (flags : OpenFlags) : Bool × FlashHandle :=
  match h.opens.headD none with
  | some _ => (false, { h with fd := none, opens := h.opens.tail })
  | none => (true, { h with fd := some 0, flags := flags.forHandle, opens := h.opens.tail })

/-- `PartitionHandle::Reset`. -/
def reset (h : FlashHandle) (flags : OpenFlags) : Bool × FlashHandle :=
  if h.fd.isSome ∧ flags.forHandle = h.flags then (true, h)
  else
    match if h.fd.isSome then h.lseek id else (.ok 0, h) with
    | (.error _, h) => (false, h)
    | (.ok offset, h) =>
      match h.openDevice flags with
      | (false, h) => (false, h)
      | (true, h) =>
        match h.lseek fun _ => offset with
        | (.error _, h) => (false, h)
        | (.ok _, h) => (true, h)

/-- `write`: an error, or the number of bytes written, which end with the device. -/
def write (h : FlashHandle) (bytes : List Byte) : Except String ℕ × FlashHandle :=
  match h.fd with
  | none => (.error "Bad file descriptor", h)
  | some offset =>
    match h.writes.headD (.ok bytes.length) with
    | .error e => (.error e, { h with writes := h.writes.tail })
    | .ok n =>
      if h.size ≤ offset then
        (.error "No space left on device", { h with writes := h.writes.tail })
      else
        let written := bytes.take (min n (h.size - offset))
        (.ok written.length,
          { h with
            fd := some (offset + written.length)
            content := overwrite h.content offset written
            writes := h.writes.tail })

/-- Before a piece of the loop: one that does not end with a page is written without `O_DIRECT`. -/
def prepare (h : FlashHandle) (thisLen : ℕ) : Bool × FlashHandle :=
  if thisLen % 4096 ≠ 0 then h.reset oWronly else (true, h)

/-- The loop of `FlashRawDataChunk` over the data that is left, unless the fuel runs out. -/
def chunkLoop : ℕ → FlashHandle → List Byte → Option (Code × FlashHandle)
  | 0, _, _ => none
  | fuel + 1, h, data =>
    if data = [] then some (.ok, h)
    else
      let thisLen := min FlashTarget.kMaxWriteSize data.length
      let (ready, h) := h.prepare thisLen
      if ready = false then
        some (.eio, h.setErr ("failed to drop O_DIRECT on " ++ h.path ++ " for unaligned tail write"))
      else
        let (offset, h) := h.lseek id
        match h.write (data.take thisLen) with
        | (.error e, h') =>
          some (.errno e, h'.setErr ("write(" ++ toString thisLen ++ "B) to " ++ h.path ++
            " at offset " ++ toString (offset.toOption.elim (-1) Int.ofNat) ++ " failed: " ++ e))
        | (.ok n, h') => chunkLoop fuel h' (data.drop n)

/-- `FlashRawDataChunk`: each round takes the outcome of a write or writes a byte, so that the fuel
does not run out (`chunkLoop_isSome`). -/
def flashRawDataChunk (h : FlashHandle) (data : List Byte) : Code × FlashHandle :=
  if h.buffers.headD true = false then
    (.errno "Cannot allocate memory", { h with buffers := h.buffers.tail }.setErr
      ("posix_memalign of " ++ toString FlashTarget.kMaxWriteSize ++ "B write buffer failed"))
  else
    (chunkLoop (h.writes.length + data.length + 1) { h with buffers := h.buffers.tail } data).getD
      (.errno "", h)

/-- `WriteCallback`. -/
def writeCallback (h : FlashHandle) (blockDeviceSize : ℕ) : OutputPiece → Code × FlashHandle
  | .skip len =>
    let (before, h) := h.lseek id
    match h.lseek (· + len) with
    | (.error e, h) =>
      (.errno e, h.setErr ("sparse skip: lseek to offset " ++
        toString (before.toOption.elim (-1) fun n => Int.ofNat (n + len)) ++ " on " ++ h.path ++
        " (size " ++ toString blockDeviceSize ++ ") failed: " ++ e))
    | (.ok _, h) => (.ok, h)
  | .data bytes => h.flashRawDataChunk bytes

/-- `FlashSparseData`, as `FlashTarget.flashSparseData`. -/
def flashSparseData (h : FlashHandle) (data : List Byte) (blockDeviceSize : ℕ) :
    Except Fault (Code × FlashHandle) :=
  match sparseFileImportBuf data with
  | .error .rejected =>
    return (.einval, h.setErr ("not a valid sparse image (sparse_file_import_buf failed on " ++
      toString data.length ++ "B payload)"))
  | .error fault => throw fault
  | .ok file => do
    let expanded ← sparseFileLen file
    if 0 < expanded ∧ (blockDeviceSize : ℤ) < expanded then
      return (.efbig, h.setErr ("sparse image expands to " ++ toString expanded ++
        "B but partition " ++ h.path ++ " is only " ++ toString blockDeviceSize ++ "B"))
    else writeAllBlocks (fun h => h.writeCallback blockDeviceSize) file h

/-- The magic number of a sparse image is in front. -/
def HasSparseMagic (data : List Byte) : Prop :=
  4 ≤ data.length ∧ (le32 data 0).toNat = kSparseHeaderMagic

instance (data : List Byte) : Decidable (HasSparseMagic data) :=
  inferInstanceAs (Decidable (_ ∧ _))

/-- `FlashBlockDevice`, which does not look at what its `lseek64` returns. -/
def flashBlockDevice (h : FlashHandle) (data : List Byte) (blockDeviceSize : ℕ) :
    Except Fault (Code × FlashHandle) :=
  let h := (h.lseek fun _ => 0).2
  if HasSparseMagic data then h.flashSparseData data blockDeviceSize
  else return h.flashRawDataChunk data

section

variable {h h₁ h' : FlashHandle} {d : FlashTarget} {offset : ℕ}

@[simp] theorem setErr_content (h : FlashHandle) (message : String) :
    (h.setErr message).content = h.content := by
  unfold setErr
  split_ifs <;> rfl

@[simp] theorem setErr_seeks (h : FlashHandle) (message : String) :
    (h.setErr message).seeks = h.seeks := by
  unfold setErr
  split_ifs <;> rfl

/-! ### Calls that write nothing -/

/-- What they leave alone. -/
structure Unwritten (h h' : FlashHandle) : Prop where
  size : h'.size = h.size
  content : h'.content = h.content
  writes : h'.writes = h.writes
  seeks : h'.seeks <:+ h.seeks

theorem Unwritten.refl (h : FlashHandle) : Unwritten h h := ⟨rfl, rfl, rfl, List.suffix_refl _⟩

theorem Unwritten.trans (hfirst : Unwritten h h₁) (hsecond : Unwritten h₁ h') : Unwritten h h' where
  size := hsecond.size.trans hfirst.size
  content := hsecond.content.trans hfirst.content
  writes := hsecond.writes.trans hfirst.writes
  seeks := hsecond.seeks.trans hfirst.seeks

theorem unwritten_lseek (h : FlashHandle) (target : ℕ → ℕ) :
    Unwritten h (h.lseek target).2 := by
  unfold lseek
  split
  · exact .refl h
  · split
    · exact ⟨rfl, rfl, rfl, List.tail_suffix _⟩
    · exact ⟨rfl, rfl, rfl, List.tail_suffix _⟩

theorem unwritten_openDevice (h : FlashHandle) (flags : OpenFlags) :
    Unwritten h (h.openDevice flags).2 := by
  unfold openDevice
  split
  · exact ⟨rfl, rfl, rfl, List.suffix_refl _⟩
  · exact ⟨rfl, rfl, rfl, List.suffix_refl _⟩

theorem lseek_flags (h : FlashHandle) (target : ℕ → ℕ) :
    (h.lseek target).2.flags = h.flags := by
  unfold lseek
  split
  · rfl
  · split <;> rfl

/-- Asking for the position does not change it. -/
theorem lseek_id_fd (h : FlashHandle) : (h.lseek id).2.fd = h.fd := by
  unfold lseek
  split
  · rfl
  · rename_i hfd
    split
    · rfl
    · exact hfd.symm

/-- A seek that succeeds gives the place at which the descriptor then is. -/
theorem lseek_ok {target : ℕ → ℕ} {n : ℕ} (hfd : h.fd = some offset)
    (hok : h.lseek target = (.ok n, h')) : n = target offset ∧ h'.fd = some n := by
  unfold lseek at hok
  simp only [hfd] at hok
  split at hok
  · cases hok
  · cases hok
    exact ⟨rfl, rfl⟩

theorem openDevice_true {flags : OpenFlags} (hok : h.openDevice flags = (true, h')) :
    h'.fd = some 0 ∧ h'.flags = flags.forHandle := by
  unfold openDevice at hok
  split at hok
  · cases hok
  · cases hok
    exact ⟨rfl, rfl⟩

theorem unwritten_reset (h : FlashHandle) (flags : OpenFlags) :
    Unwritten h (h.reset flags).2 := by
  unfold reset
  by_cases hsame : h.fd.isSome ∧ flags.forHandle = h.flags
  · rw [if_pos hsame]
    exact .refl h
  rw [if_neg hsame]
  generalize hask : (if h.fd.isSome then h.lseek id else (.ok 0, h)) = asked
  have hasked : Unwritten h asked.2 := by
    rw [← hask]
    split_ifs
    · exact unwritten_lseek h id
    · exact .refl h
  obtain ⟨e | n, h₁⟩ := asked
  · exact hasked
  have hopened := hasked.trans (unwritten_openDevice h₁ flags)
  dsimp only at hopened ⊢
  rcases hopen : h₁.openDevice flags with ⟨ready, h₂⟩
  rw [hopen] at hopened
  cases ready with
  | false => exact hopened
  | true =>
    have hsought := hopened.trans (unwritten_lseek h₂ fun _ => n)
    dsimp only at hsought ⊢
    rcases hseek : h₂.lseek fun _ => n with ⟨e | m, h₃⟩
    · rw [hseek] at hsought
      exact hsought
    · rw [hseek] at hsought
      exact hsought

/-- `Reset` comes back to the position, with the flags that were asked for. -/
theorem reset_true {flags : OpenFlags} (hfd : h.fd = some offset)
    (hok : h.reset flags = (true, h')) : h'.fd = some offset ∧ h'.flags = flags.forHandle := by
  unfold reset at hok
  by_cases hsame : h.fd.isSome ∧ flags.forHandle = h.flags
  · rw [if_pos hsame] at hok
    cases hok
    exact ⟨hfd, hsame.2.symm⟩
  rw [if_neg hsame, if_pos (by rw [hfd]; rfl)] at hok
  rcases hask : h.lseek id with ⟨e | n, h₁⟩
  · rw [hask] at hok
    cases hok
  rw [hask] at hok
  dsimp only at hok
  have hn : n = offset := (lseek_ok hfd hask).1
  rcases hopen : h₁.openDevice flags with ⟨_ | _, h₂⟩
  · rw [hopen] at hok
    cases hok
  rw [hopen] at hok
  dsimp only at hok
  obtain ⟨hzero, hflags⟩ := openDevice_true hopen
  rcases hseek : h₂.lseek fun _ => n with ⟨e | m, h₃⟩
  · rw [hseek] at hok
    cases hok
  rw [hseek] at hok
  cases hok
  obtain ⟨hm, hback⟩ := lseek_ok hzero hseek
  refine ⟨hback.trans (congrArg some (hm.trans hn)), ?_⟩
  rw [← hflags, ← lseek_flags h₂ fun _ => n, hseek]

theorem unwritten_prepare (h : FlashHandle) (thisLen : ℕ) :
    Unwritten h (h.prepare thisLen).2 := by
  unfold prepare
  split_ifs
  · exact unwritten_reset h oWronly
  · exact .refl h

/-! ### The fuel is enough -/

theorem write_ok {bytes : List Byte} {n : ℕ} (hne : bytes ≠ [])
    (hok : h.write bytes = (.ok n, h')) :
    h'.writes.length < h.writes.length ∨ h'.writes.length = h.writes.length ∧ 0 < n := by
  have hpos := List.length_pos_iff.2 hne
  unfold write at hok
  split at hok
  · cases hok
  · cases hwrites : h.writes with
    | cons r rest =>
      left
      simp only [hwrites, List.headD_cons, List.tail_cons] at hok
      split at hok
      · cases hok
      · split_ifs at hok
        · cases hok
        · cases hok
          exact Nat.lt_succ_self _
    | nil =>
      right
      simp only [hwrites, List.headD_nil, List.tail_nil] at hok
      split_ifs at hok
      · cases hok
      · cases hok
        refine ⟨rfl, ?_⟩
        rw [List.length_take]
        omega

/-- The loop with the data that is there: the rounds with what they do before the write. -/
theorem chunkLoop_isSome {fuel : ℕ} {data : List Byte}
    (hfuel : h.writes.length + data.length < fuel) : ∃ r, chunkLoop fuel h data = some r := by
  induction fuel generalizing h data with
  | zero => exact absurd hfuel (Nat.not_lt_zero _)
  | succ fuel ih =>
    unfold chunkLoop
    by_cases hempty : data = []
    · rw [if_pos hempty]
      exact ⟨_, rfl⟩
    rw [if_neg hempty]
    dsimp only
    have hready := unwritten_prepare h (min FlashTarget.kMaxWriteSize data.length)
    rcases hok : h.prepare (min FlashTarget.kMaxWriteSize data.length) with ⟨_ | _, h₁⟩
    · exact ⟨_, rfl⟩
    rw [if_neg (by simp)]
    rw [hok] at hready
    have hwrites := (hready.trans (unwritten_lseek h₁ id)).writes
    rcases hask : h₁.lseek id with ⟨offset, h₂⟩
    rw [hask] at hwrites
    dsimp only at hwrites ⊢
    rcases hwrite : h₂.write (data.take (min FlashTarget.kMaxWriteSize data.length)) with
      ⟨e | n, h₃⟩
    · exact ⟨_, rfl⟩
    · refine ih ?_
      have hpos := List.length_pos_iff.2 hempty
      have htake : data.take (min FlashTarget.kMaxWriteSize data.length) ≠ [] := by
        rw [Ne, List.take_eq_nil_iff, not_or]
        exact ⟨(lt_min (by decide) hpos).ne', hempty⟩
      have hless := write_ok htake hwrite
      rw [hwrites] at hless
      rw [List.length_drop]
      omega

/-! ### The handle and the target -/

/-- An open handle does what a target does: if the target is not direct, the flags of the handle
are those with which the loop reopens the device. -/
structure Follows (h : FlashHandle) (d : FlashTarget) : Prop where
  fd : h.fd = some d.offset
  size : h.size = d.size
  content : h.content = d.content
  writes : h.writes = d.writes
  direct : d.direct = false → h.flags = oWronly.forHandle

theorem Follows.lseek_id (hf : Follows h d) : Follows (h.lseek id).2 d where
  fd := (lseek_id_fd h).trans hf.fd
  size := (unwritten_lseek h id).size.trans hf.size
  content := (unwritten_lseek h id).content.trans hf.content
  writes := (unwritten_lseek h id).writes.trans hf.writes
  direct hd := (lseek_flags h id).trans (hf.direct hd)

/-- The calls of `Reset` have the outcome of one reset of the target. -/
theorem Follows.reset {ready : Bool} (hf : Follows h d) (hok : h.reset oWronly = (ready, h')) :
    ∃ first d', (∀ rest, FlashTarget.reset { d with resets := first ++ rest } =
        (ready, { d' with resets := rest })) ∧
      h'.content = d'.content ∧ (ready = true → Follows h' d') := by
  have hkept := unwritten_reset h oWronly
  rw [hok] at hkept
  cases hd : d.direct with
  | false =>
    have hsame : h.reset oWronly = (true, h) :=
      if_pos ⟨by rw [hf.fd]; rfl, (hf.direct hd).symm⟩
    rw [hsame] at hok
    cases hok
    refine ⟨[], d, fun rest => ?_, hf.content, fun _ => hf⟩
    unfold FlashTarget.reset
    simp [hd]
  | true =>
    cases ready with
    | false =>
      refine ⟨[false], d, fun rest => ?_, hkept.content.trans hf.content, fun h => (by cases h)⟩
      unfold FlashTarget.reset
      simp [hd]
    | true =>
      refine ⟨[true], { d with direct := false }, fun rest => ?_, hkept.content.trans hf.content,
        fun _ => ?_⟩
      · unfold FlashTarget.reset
        simp
      · obtain ⟨hfd, hflags⟩ := reset_true hf.fd hok
        exact ⟨hfd, hkept.size.trans hf.size, hkept.content.trans hf.content,
          hkept.writes.trans hf.writes, fun _ => hflags⟩

theorem Follows.write (hf : Follows h d) (bytes : List Byte) :
    (h.write bytes).1 = (d.write bytes).1 ∧ Follows (h.write bytes).2 (d.write bytes).2 := by
  simp only [FlashHandle.write, FlashTarget.write, hf.fd, hf.writes, hf.size]
  cases d.writes.headD (.ok bytes.length) with
  | error e => exact ⟨rfl, rfl, rfl, hf.content, rfl, hf.direct⟩
  | ok n =>
    dsimp only
    split_ifs
    · exact ⟨rfl, rfl, rfl, hf.content, rfl, hf.direct⟩
    · refine ⟨rfl, rfl, rfl, ?_, rfl, hf.direct⟩
      rw [hf.content]
      rfl

theorem write_resets (d : FlashTarget) (resets : List Bool) (bytes : List Byte) :
    FlashTarget.write { d with resets } bytes =
      ((d.write bytes).1, { (d.write bytes).2 with resets }) := by
  unfold FlashTarget.write
  dsimp only
  split
  · rfl
  · split_ifs <;> rfl

theorem seeks_write (h : FlashHandle) (bytes : List Byte) :
    (h.write bytes).2.seeks = h.seeks := by
  unfold FlashHandle.write
  split
  · rfl
  · split
    · rfl
    · split_ifs <;> rfl

theorem Follows.prepare {thisLen : ℕ} {ready : Bool} (hf : Follows h d)
    (hok : h.prepare thisLen = (ready, h')) :
    ∃ first d', (∀ rest, (if thisLen % 4096 ≠ 0 then
        FlashTarget.reset { d with resets := first ++ rest }
          else (true, { d with resets := first ++ rest })) = (ready, { d' with resets := rest })) ∧
      h'.content = d'.content ∧ (ready = true → Follows h' d') := by
  unfold FlashHandle.prepare at hok
  split_ifs at hok ⊢
  · exact hf.reset hok
  · cases hok
    exact ⟨[], d, fun _ => rfl, hf.content, fun _ => hf⟩

/-- The loop over the calls on the handle is that over the target, for outcomes of the resets. -/
theorem Follows.chunkLoop {fuel : ℕ} {data : List Byte} {code : Code} (hf : Follows h d)
    (hrun : FlashHandle.chunkLoop fuel h data = some (code, h')) :
    h'.seeks <:+ h.seeks ∧ ∃ resets d',
      FlashTarget.writeLoop fuel { d with resets } data = (code, d') ∧ h'.content = d'.content ∧
        (code = .ok → Follows h' d') := by
  induction fuel generalizing h d data with
  | zero => cases hrun
  | succ fuel ih =>
    unfold FlashHandle.chunkLoop at hrun
    by_cases hempty : data = []
    · rw [if_pos hempty] at hrun
      cases hrun
      exact ⟨List.suffix_refl _, d.resets, d, if_pos hempty, hf.content, fun _ => hf⟩
    rw [if_neg hempty] at hrun
    dsimp only at hrun
    have hkept := unwritten_prepare h (min FlashTarget.kMaxWriteSize data.length)
    rcases hok : h.prepare (min FlashTarget.kMaxWriteSize data.length) with ⟨ready, h₁⟩
    obtain ⟨first, d₁, hfirst, hcontent, hf₁⟩ := hf.prepare hok
    rw [hok] at hrun hkept
    dsimp only at hrun hkept
    cases ready with
    | false =>
      cases hrun
      obtain ⟨message, hloop⟩ := FlashTarget.writeLoop_of_not_ready fuel hempty (hfirst [])
      refine ⟨by simpa using hkept.seeks, _, _, hloop, ?_, fun h => (by cases h)⟩
      rw [setErr_content, FlashTarget.setErr_content]
      exact hcontent
    | true =>
      rw [if_neg (by simp)] at hrun
      have hf₂ := (hf₁ rfl).lseek_id
      have hsought := hkept.trans (unwritten_lseek h₁ id)
      rcases hask : h₁.lseek id with ⟨offset, h₂⟩
      rw [hask] at hrun hf₂ hsought
      dsimp only at hrun hf₂ hsought
      obtain ⟨hsame, hf₃⟩ := hf₂.write (data.take (min FlashTarget.kMaxWriteSize data.length))
      have hseeks := seeks_write h₂ (data.take (min FlashTarget.kMaxWriteSize data.length))
      have hresets := fun rest => write_resets d₁ rest
        (data.take (min FlashTarget.kMaxWriteSize data.length))
      rcases hput : d₁.write (data.take (min FlashTarget.kMaxWriteSize data.length)) with ⟨r, d₂⟩
      rcases hwrite : h₂.write (data.take (min FlashTarget.kMaxWriteSize data.length)) with ⟨r', h₃⟩
      rw [hput] at hsame hf₃ hresets
      rw [hwrite] at hsame hf₃ hseeks hrun
      dsimp only at hsame hf₃ hseeks hrun hresets
      subst hsame
      cases r' with
      | error e =>
        cases hrun
        obtain ⟨message, hloop⟩ :=
          FlashTarget.writeLoop_of_error fuel hempty (hfirst []) (hresets [])
        refine ⟨?_, _, _, hloop, ?_, fun h => (by cases h)⟩
        · rw [setErr_seeks, hseeks]
          exact hsought.seeks
        · rw [setErr_content, FlashTarget.setErr_content]
          exact hf₃.content
      | ok n =>
        obtain ⟨hrest, resets, d', hloop, hdone⟩ := ih hf₃ hrun
        rw [hseeks] at hrest
        refine ⟨hrest.trans hsought.seeks, first ++ resets, d', ?_, hdone⟩
        rw [FlashTarget.writeLoop_of_ok fuel hempty (hfirst resets) (hresets resets), hloop]

/-! ### Payloads -/

/-- The target that an open handle follows. -/
theorem follows_target (h : FlashHandle) (hfd : h.fd = some offset) :
    Follows h { path := h.path, size := h.size, content := h.content, offset, writes := h.writes } :=
  ⟨hfd, rfl, rfl, rfl, fun h => (by cases h)⟩

/-- The loop in `FlashRawDataChunk` comes to an end. -/
theorem flashRawDataChunk_cases (h : FlashHandle) (data : List Byte) :
    (h.buffers.headD true = false ∧ (h.flashRawDataChunk data).1 = .errno "Cannot allocate memory") ∨
      chunkLoop (h.writes.length + data.length + 1) { h with buffers := h.buffers.tail } data =
        some (h.flashRawDataChunk data) := by
  unfold flashRawDataChunk
  by_cases hbuffer : h.buffers.headD true = false
  · rw [if_pos hbuffer]
    exact .inl ⟨hbuffer, rfl⟩
  · rw [if_neg hbuffer]
    obtain ⟨r, hr⟩ := chunkLoop_isSome (h := { h with buffers := h.buffers.tail })
      (Nat.lt_succ_self (h.writes.length + data.length))
    right
    rw [hr]
    rfl

theorem wrote_of_flashRawDataChunk {data : List Byte} (hfd : h.fd = some offset)
    (hok : h.flashRawDataChunk data = (.ok, h')) :
    h'.content = overwrite h.content offset data ∧ h'.fd = some (offset + data.length) ∧
      h'.seeks <:+ h.seeks := by
  obtain ⟨-, hfail⟩ | hrun := h.flashRawDataChunk_cases data
  · rw [hok] at hfail
    cases hfail
  rw [hok] at hrun
  obtain ⟨hseeks, resets, d', hloop, hcontent, hdone⟩ :=
    (follows_target { h with buffers := h.buffers.tail } hfd).chunkLoop hrun
  have hwrote := FlashTarget.wrote_of_writeLoop hloop
  refine ⟨hcontent.trans hwrote.content, (hdone rfl).fd.trans ?_, hseeks⟩
  rw [hwrote.offset]

/-- Bytes are in their place, and the others are as they were. -/
structure PlacedAt (offset : ℕ) (data : List Byte) (old new : ℕ → Byte) : Prop where
  placed : ∀ i (hi : i < data.length), new (offset + i) = data[i]
  others : ∀ p, p < offset ∨ offset + data.length ≤ p → new p = old p

theorem placedAt_overwrite (old : ℕ → Byte) (offset : ℕ) (data : List Byte) :
    PlacedAt offset data old (overwrite old offset data) where
  placed i hi := by
    rw [overwrite, if_pos (by omega), Nat.add_sub_cancel_left, List.getD_eq_getElem _ _ hi]
  others p hp := by
    rw [overwrite, if_neg (by omega)]

/-- If `FlashRawDataChunk` returns 0, the payload is on the device from the position on, nothing else
has changed, and the position is behind it. -/
theorem flashRawDataChunk_exact (h : FlashHandle) (hfd : h.fd = some offset) (data : List Byte)
    (hok : (h.flashRawDataChunk data).1 = .ok) :
    PlacedAt offset data h.content (h.flashRawDataChunk data).2.content ∧
      (h.flashRawDataChunk data).2.fd = some (offset + data.length) := by
  obtain ⟨hcontent, hposition, -⟩ := wrote_of_flashRawDataChunk hfd (Prod.ext hok rfl)
  refine ⟨?_, hposition⟩
  rw [hcontent]
  exact placedAt_overwrite h.content offset data

/-- A handle as `Flash` opens it, and then at a place of its own, whose first write is short. -/
def sampleHandle : FlashHandle where
  path := "/dev/sda"
  fd := some 2
  flags := oWronlyDirect.forHandle
  size := 8
  content := fun _ => 0
  writes := [.ok 1]

theorem flashRawDataChunk_three :
    PlacedAt 2 [1, 2, 3] sampleHandle.content
        (sampleHandle.flashRawDataChunk [1, 2, 3]).2.content ∧
      (sampleHandle.flashRawDataChunk [1, 2, 3]).2.fd = some 5 :=
  sampleHandle.flashRawDataChunk_exact rfl [1, 2, 3] (by decide +kernel)

/-! ### Many payloads through one handle -/

/-- The handle stands at a position, and its device differs from what it was by a layer. -/
structure Stands (old : ℕ → Byte) (pos : ℕ) (layer : Layer) (h : FlashHandle) : Prop where
  fd : h.fd = some pos
  content : ∀ p, h.content p = (layer p).getD (old p)
  seeks : ∀ e ∈ h.seeks, e = none

/-- Where no seek fails, it succeeds. -/
theorem lseek_of_none (hfd : h.fd = some offset) (hseeks : ∀ e ∈ h.seeks, e = none)
    (target : ℕ → ℕ) :
    h.lseek target = (.ok (target offset),
      { h with fd := some (target offset), seeks := h.seeks.tail }) := by
  have hnext : h.seeks.headD none = none := by
    cases hh : h.seeks with
    | nil => rfl
    | cons e rest => exact hseeks e (by simp [hh])
  unfold lseek
  simp only [hfd, hnext]

/-- The callback of the sparse writer keeps track of the position over its calls. -/
theorem places_writeCallback (old : ℕ → Byte) (blockDeviceSize : ℕ) :
    Places (fun h => FlashHandle.writeCallback h blockDeviceSize) (Stands old) where
  skip := by
    intro pos layer h hst n
    have htail : ∀ e ∈ h.seeks.tail, e = none := fun e he => hst.seeks e (List.mem_of_mem_tail he)
    refine ⟨{ h with fd := some (pos + n), seeks := h.seeks.tail.tail }, ?_, rfl, hst.content,
      fun e he => htail e (List.mem_of_mem_tail he)⟩
    unfold FlashHandle.writeCallback
    rw [lseek_of_none hst.fd hst.seeks]
    dsimp only
    rw [lseek_of_none rfl htail]
    rfl
  data := by
    intro pos layer h bytes h' hst hwrite
    obtain ⟨hcontent, hposition, hseeks⟩ := wrote_of_flashRawDataChunk hst.fd hwrite
    refine ⟨hposition, fun p => ?_, fun e he => hst.seeks e (hseeks.subset he)⟩
    rw [hcontent]
    simp only [overwrite, Layer.put]
    split_ifs
    · rfl
    · exact hst.content p

/-- A payload without the magic number is on the device from its start on, whatever becomes of the
seek, if the handle stands there as `Flash` opens it. -/
theorem flashBlockDevice_raw {data : List Byte} {blockDeviceSize : ℕ} (hfd : h.fd = some 0)
    (hraw : ¬ HasSparseMagic data) (hok : h.flashBlockDevice data blockDeviceSize = .ok (.ok, h')) :
    PlacedAt 0 data h.content h'.content := by
  have hstart : (h.lseek fun _ => 0).2.fd = some 0 := by
    unfold lseek
    simp only [hfd]
    split <;> rfl
  unfold flashBlockDevice at hok
  rw [if_neg hraw] at hok
  obtain ⟨hcontent, -⟩ := wrote_of_flashRawDataChunk hstart (Except.ok.inj hok)
  rw [hcontent, (unwritten_lseek h _).content]
  exact placedAt_overwrite h.content 0 data

/-- A regular image is flashed through the handle as it is on the target. -/
theorem flashBlockDevice_sparse {data : List Byte} (hfd : h.fd = some offset)
    (hseeks : ∀ e ∈ h.seeks, e = none) (hsparse : HasSparseMagic data) (hregular : Regular data)
    (blockDeviceSize : ℕ) :
    ∃ code h', h.flashBlockDevice data blockDeviceSize = .ok (code, h') ∧
      (code = .ok → ∃ chunks, WellFormed data chunks ∧
        (sparseHeader data).totalBlks * (sparseHeader data).blkSz ≤ blockDeviceSize ∧
        Expands (sparseHeader data).blkSz h.content h'.content 0 chunks) := by
  unfold flashBlockDevice
  rw [if_pos hsparse, lseek_of_none hfd hseeks]
  unfold FlashHandle.flashSparseData
  obtain herr | ⟨s, hok, -⟩ := yields_sparseFileImportBuf hregular
  · rw [herr]
    exact ⟨_, _, rfl, fun h => (by cases h)⟩
  have hstands : Stands h.content 0 (fun _ => none)
      { h with fd := some 0, seeks := h.seeks.tail } :=
    ⟨rfl, fun _ => rfl, fun e he => hseeks e (List.mem_of_mem_tail he)⟩
  obtain ⟨chunks, hwell, hexpanded, hlen, code, h', hwrite, hdone⟩ :=
    written_of_imported (places_writeCallback h.content blockDeviceSize) hstands hregular hok
  rw [hok]
  simp only [hexpanded, bind, Except.bind]
  by_cases hbig : 0 < (s.len : ℤ) ∧ (blockDeviceSize : ℤ) < s.len
  · rw [if_pos hbig]
    exact ⟨_, _, rfl, fun h => (by cases h)⟩
  rw [if_neg hbig]
  refine ⟨code, h', hwrite, fun hcode => ⟨chunks, hwell, ?_, ?_⟩⟩
  · rw [← hlen]
    omega
  · exact expands_of_painted (fun _ _ => rfl) (hdone hcode).content

end

end FlashHandle

end RpiFastbootd
