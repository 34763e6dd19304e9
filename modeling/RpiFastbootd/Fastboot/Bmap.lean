import RpiFastbootd.Lib.Bytes
import RpiFastbootd.Lib.Runs
import RpiFastbootd.Fastboot.Partition
import RpiFastbootd.Fastboot.Otp

/-!
# Block maps

`oem bmap-load` takes a block map from the download buffer: a header and ranges of blocks, each with
the SHA-256 of its bytes.  `oem bmap-verify` reads every range of the loaded map from the device and
compares the digests.  The number of blocks of a range is computed in 32 bits, so the one range that
has all the 2^32 blocks counts as empty; without that range a verification that succeeds has seen
all the bytes of the map (`bmapVerify_sound`).
-/

namespace RpiFastbootd

def bmapMagic : Word := 0x50414D42
def bmapHeaderSize : ℕ := 16
def bmapRangeSize : ℕ := 40

structure BmapRange where
  startBlock : Word
  endBlock : Word
  sha256 : List Byte
  deriving DecidableEq, Repr

structure BmapState where
  blockDevice : String := ""
  blockSize : Word := 0
  ranges : List BmapRange := []
  deriving DecidableEq, Repr

/-- The range at index `i` of a buffer. -/
def bmapRangeAt (buf : List Byte) (i : ℕ) : BmapRange :=
  let pos := bmapHeaderSize + i * bmapRangeSize
  ⟨le32 buf pos, le32 buf (pos + 4), slice buf (pos + 8) 32⟩

def bmapRanges (buf : List Byte) : List BmapRange :=
  (List.range (le32 buf 8).toNat).map (bmapRangeAt buf)

/-- `oem bmap-load` with the staged buffer. -/
def oemCmdBmapLoad (s : BmapState) (args : List String) (buf : List Byte) : Response × BmapState :=
  if args.length < 3 then (⟨.fail, "Usage: oem bmap-load <block_device>"⟩, s)
  else
    let blockDevice := args.getD 2 ""
    if buf.length < bmapHeaderSize then
      (⟨.fail, "bmap-load: download buffer too small for header"⟩, s)
    else if le32 buf 0 ≠ bmapMagic then (⟨.fail, "bmap-load: bad magic"⟩, s)
    else
      let blockSize := le32 buf 4
      if blockSize = 0 ∨ blockSize &&& (blockSize - 1) ≠ 0 then
        (⟨.fail, "bmap-load: block_size must be a power of two"⟩, s)
      else if buf.length < bmapHeaderSize + (le32 buf 8).toNat * bmapRangeSize then
        (⟨.fail, "bmap-load: download buffer too small for declared ranges"⟩, s)
      else
        let ranges := bmapRanges buf
        match ranges.zipIdx.find? fun (r, _) => r.endBlock.toNat < r.startBlock.toNat with
        | some (r, i) =>
          (⟨.fail, "bmap-load: range " ++ toString i ++ " ends at block " ++
            toString r.endBlock.toNat ++ ", before it starts at " ++
            toString r.startBlock.toNat⟩, s)
        | none =>
          (⟨.okay, "bmap loaded: " ++ toString ranges.length ++ " ranges, block_size=" ++
            toString blockSize.toNat ++ ", device=" ++ blockDevice⟩,
            { blockDevice := "/dev/" ++ blockDevice, blockSize, ranges })

/-- What a verification finds: the nodes, the bytes of the device, errors of the calls before the
reads, and what the reads make of their requests: an error, or at most so many bytes. -/
structure BmapIO where
  writable : String → Bool
  opened : Bool
  fdatasync : Option String
  fadvise : Option String
  seek : ℕ → Option String
  context : ℕ → Bool
  read : ℕ → Except String ℕ
  contents : List Byte

def kReadBuf : ℕ := 1024 * 1024

/-- The reads of a range, from read number `k` on: the bytes and the next read number.  A range
that the device does not have ends in a read of 0 bytes. -/
def readRange (io : BmapIO) (remaining pos k : ℕ) : Except (Option String) (List Byte × ℕ) :=
  if remaining = 0 then .ok ([], k)
  else
    match io.read k with
    | .error e => .error (some e)
    | .ok most =>
      let n := min most (min (min remaining kReadBuf) (io.contents.length - pos))
      if n = 0 then .error none
      else do
        let (bytes, k) ← readRange io (remaining - n) (pos + n) (k + 1)
        return (slice io.contents pos n ++ bytes, k)
  termination_by remaining
  decreasing_by omega

/-- The number of bytes of a range: the blocks are counted in 32 bits, the bytes in 64, and the
product does not wrap. -/
def BmapRange.bytes (r : BmapRange) (blockSize : Word) : ℕ :=
  (r.endBlock - r.startBlock + 1).toNat * blockSize.toNat

def hexBytes (bytes : List Byte) : String := String.join (bytes.map fun b => hexText 2 b.toNat)

/-- The loop over the ranges from index `i` on; the replies to it. -/
def verifyRanges (sha256 : List Byte → List Byte) (io : BmapIO) (s : BmapState) :
    List BmapRange → ℕ → ℕ → List Response
  | [], _, _ => [⟨.okay, "verified " ++ toString s.ranges.length ++ " ranges ok"⟩]
  | r :: rest, i, k =>
    ⟨.info, "verifying range " ++ toString i ++ "/" ++ toString s.ranges.length ++ " (blocks " ++
      toString r.startBlock.toNat ++ "-" ++ toString r.endBlock.toNat ++ ")"⟩ ::
    match io.seek i with
    | some e =>
      [⟨.fail, "bmap-verify: seek failed for range " ++ toString i ++ ": " ++ e⟩]
    | none =>
      if !io.context i then [⟨.fail, "bmap-verify: failed to allocate hash context"⟩]
      else
        match readRange io (r.bytes s.blockSize) (r.startBlock.toNat * s.blockSize.toNat) k with
        | .error none =>
          [⟨.fail, "bmap-verify: range " ++ toString i ++ " runs past the end of " ++
            s.blockDevice⟩]
        | .error (some e) =>
          [⟨.fail, "bmap-verify: read error at range " ++ toString i ++ ": " ++ e⟩]
        | .ok (bytes, k) =>
          if sha256 bytes ≠ r.sha256 then
            [⟨.fail, toString i ++ ":" ++ hexBytes r.sha256 ++ ":" ++ hexBytes (sha256 bytes)⟩]
          else verifyRanges sha256 io s rest (i + 1) k

/-- `oem bmap-verify`. -/
def oemCmdBmapVerify (sha256 : List Byte → List Byte) (io : BmapIO) (s : BmapState)
    (args : List String) : List Response :=
  if args.length < 3 then [⟨.fail, "Usage: oem bmap-verify <block_device>"⟩]
  else
    let blockDevice := "/dev/" ++ args.getD 2 ""
    if s.ranges = [] then [⟨.fail, "bmap-verify: no bmap loaded; run oem bmap-load first"⟩]
    else if s.blockDevice ≠ blockDevice then
      [⟨.fail, "bmap-verify: loaded bmap is for " ++ s.blockDevice ++ ", not " ++ blockDevice⟩]
    else match openPartition io.writable blockDevice with
      | none => [⟨.fail, "bmap-verify: cannot access " ++ blockDevice⟩]
      | some _ =>
        if !io.opened then [⟨.fail, "bmap-verify: cannot open " ++ blockDevice⟩]
        else match io.fdatasync with
          | some e => [⟨.fail, "bmap-verify: cannot flush " ++ blockDevice ++ ": " ++ e⟩]
          | none =>
            match io.fadvise with
            | some e =>
              [⟨.fail, "bmap-verify: cannot drop cached pages of " ++ blockDevice ++ ": " ++ e⟩]
            | none => verifyRanges sha256 io s s.ranges 0 0

/-! ### What a verification has seen -/

/-- A range is read in order, whatever the sizes of the reads. -/
theorem readRange_spec {io : BmapIO} {remaining pos k k' : ℕ} {bytes : List Byte}
    (h : readRange io remaining pos k = .ok (bytes, k')) :
    bytes = slice io.contents pos remaining ∧
      (remaining = 0 ∨ pos + remaining ≤ io.contents.length) := by
  induction remaining using Nat.strongRecOn generalizing pos k bytes with
  | ind remaining ih =>
    rw [readRange] at h
    split_ifs at h with hzero
    · cases h
      exact ⟨by rw [hzero, slice, List.take_zero], .inl hzero⟩
    · split at h
      · cases h
      next most _ =>
        dsimp only at h
        generalize hn : min most (min (min remaining kReadBuf) (io.contents.length - pos)) = n at h
        have hle : n ≤ remaining ∧ n ≤ io.contents.length - pos := by omega
        split_ifs at h with hn0
        cases hrec : readRange io (remaining - n) (pos + n) (k + 1) with
        | error e =>
          rw [hrec] at h
          cases h
        | ok r =>
          rw [hrec] at h
          cases h
          obtain ⟨hbytes, hlen⟩ := ih (remaining - n) (by omega) hrec
          refine ⟨?_, .inr (by omega)⟩
          -- The first `n` bytes and then the rest.
          have hsplit : remaining = n + (remaining - n) := by omega
          rw [hbytes, slice, slice, slice]
          conv_rhs => rw [hsplit, List.take_add, List.drop_drop]

/-- The range covers all the blocks that there can be. -/
def BmapRange.Full (r : BmapRange) : Prop := r.startBlock = 0 ∧ r.endBlock = 0xffffffff

/-- The device has the blocks of the range, and their digest is that of the map. -/
def RangeHolds (sha256 : List Byte → List Byte) (contents : List Byte) (blockSize : Word)
    (r : BmapRange) : Prop :=
  (r.endBlock.toNat + 1) * blockSize.toNat ≤ contents.length ∧
    sha256 (slice contents (r.startBlock.toNat * blockSize.toNat)
      ((r.endBlock.toNat + 1 - r.startBlock.toNat) * blockSize.toNat)) = r.sha256

/-- Only the range with all the blocks has a count that does not fit in 32 bits. -/
theorem blocks_of_not_full {r : BmapRange} (hle : r.startBlock.toNat ≤ r.endBlock.toNat)
    (hfull : ¬ r.Full) :
    (r.endBlock - r.startBlock + 1).toNat = r.endBlock.toNat + 1 - r.startBlock.toNat := by
  have hs := r.startBlock.isLt
  have he := r.endBlock.isLt
  have hne : ¬ (r.startBlock.toNat = 0 ∧ r.endBlock.toNat = 4294967295) := by
    rintro ⟨h₀, h₁⟩
    exact hfull ⟨BitVec.eq_of_toNat_eq h₀, BitVec.eq_of_toNat_eq h₁⟩
  have hone : (1 : Word).toNat = 1 := rfl
  rw [BitVec.toNat_add, BitVec.toNat_sub, hone]
  omega

section

variable {sha256 : List Byte → List Byte} {io : BmapIO} {s : BmapState}

theorem verifyRanges_sound (hsize : s.blockSize ≠ 0) {rs : List BmapRange} {i k : ℕ}
    (hrs : ∀ r ∈ rs, r.startBlock.toNat ≤ r.endBlock.toNat ∧ ¬ r.Full)
    (h : okay (verifyRanges sha256 io s rs i k)) :
    ∀ r ∈ rs, RangeHolds sha256 io.contents s.blockSize r := by
  induction rs generalizing i k with
  | nil => exact fun r hr => by cases hr
  | cons r rs ih =>
    rw [List.forall_mem_cons] at hrs ⊢
    rw [verifyRanges, okay, List.any_cons] at h
    simp only [reduceCtorEq, decide_false, Bool.false_or] at h
    split at h
    · simp at h
    · split_ifs at h
      · simp at h
      · split at h
        · simp at h
        · simp at h
        next bytes k' hread =>
          split_ifs at h with hsha
          · simp at h
          · refine ⟨?_, ih hrs.2 h⟩
            obtain ⟨hbytes, hlen⟩ := readRange_spec hread
            have hblocks := blocks_of_not_full hrs.1.1 hrs.1.2
            rw [BmapRange.bytes, hblocks] at hbytes hlen
            rw [hbytes, not_not] at hsha
            refine ⟨?_, hsha⟩
            have hpos : 0 < s.blockSize.toNat := by
              rw [Nat.pos_iff_ne_zero]
              exact fun h0 => hsize (BitVec.eq_of_toNat_eq h0)
            have hle := hrs.1.1
            obtain hzero | hlen := hlen
            · have := (Nat.mul_eq_zero.1 hzero).resolve_right (Nat.pos_iff_ne_zero.1 hpos)
              omega
            · rwa [← Nat.add_mul, Nat.add_sub_cancel' (by omega)] at hlen

/-! ### Runs -/

/-- A command with what it finds: the staged buffer, or the device. -/
inductive BmapCommand
  | load (args : List String) (buf : List Byte)
  | verify (args : List String) (io : BmapIO)

variable (sha256) in
def BmapState.execute (s : BmapState) : BmapCommand → Option (List Response × BmapState)
  | .load args buf =>
    let (reply, s) := oemCmdBmapLoad s args buf
    some ([reply], s)
  | .verify args io => some (oemCmdBmapVerify sha256 io s args, s)

abbrev BmapEvent := Event BmapState BmapCommand (List Response)

/-- The block size and the ranges of the last map that was loaded for the device `name`. -/
def lastLoaded (name : String) (h : List BmapEvent) : Option (Word × List BmapRange) :=
  h.foldl (fun map e => match e.input with
    | .load args buf =>
      if okay e.output ∧ args.getD 2 "" = name then some (le32 buf 4, bmapRanges buf) else map
    | .verify _ _ => map) none

/-- No map that has been loaded has the range of all the blocks. -/
def NoFullRange (h : List BmapEvent) : Prop :=
  ∀ e ∈ h, ∀ args buf, e.input = .load args buf → okay e.output → ∀ r ∈ bmapRanges buf, ¬ r.Full

/-- Where a map is loaded, it is the last one of its device and its ranges are in order. -/
def BmapTracks (h : List BmapEvent) (s : BmapState) : Prop :=
  s.ranges ≠ [] → s.blockSize ≠ 0 ∧
    (∃ name, s.blockDevice = "/dev/" ++ name ∧
      lastLoaded name h = some (s.blockSize, s.ranges)) ∧
    ∀ r ∈ s.ranges, r.startBlock.toNat ≤ r.endBlock.toNat ∧ ¬ r.Full

theorem lastLoaded_append (name : String) (h : List BmapEvent) (e : BmapEvent) :
    lastLoaded name (h ++ [e]) = match e.input with
      | .load args buf =>
        if okay e.output ∧ args.getD 2 "" = name then some (le32 buf 4, bmapRanges buf)
        else lastLoaded name h
      | .verify _ _ => lastLoaded name h := by
  rw [lastLoaded, List.foldl_append]
  rfl

/-- A load is refused and changes nothing, or it takes over a map in order. -/
theorem oemCmdBmapLoad_cases (s : BmapState) (args : List String) (buf : List Byte) :
    ((oemCmdBmapLoad s args buf).1.result = .fail ∧ (oemCmdBmapLoad s args buf).2 = s) ∨
      ((oemCmdBmapLoad s args buf).1.result = .okay ∧
        (oemCmdBmapLoad s args buf).2 =
          ⟨"/dev/" ++ args.getD 2 "", le32 buf 4, bmapRanges buf⟩ ∧ le32 buf 4 ≠ 0 ∧
        ∀ r ∈ bmapRanges buf, r.startBlock.toNat ≤ r.endBlock.toNat) := by
  unfold oemCmdBmapLoad
  dsimp only
  split_ifs with _ _ _ hsize
  · exact .inl ⟨rfl, rfl⟩
  · exact .inl ⟨rfl, rfl⟩
  · exact .inl ⟨rfl, rfl⟩
  · exact .inl ⟨rfl, rfl⟩
  · exact .inl ⟨rfl, rfl⟩
  · split
    · exact .inl ⟨rfl, rfl⟩
    next hnone =>
      refine .inr ⟨rfl, rfl, fun h0 => hsize (.inl h0), fun r hr => ?_⟩
      obtain ⟨i, hi⟩ := List.mem_iff_getElem?.1 hr
      have := List.find?_eq_none.1 hnone (r, i) (List.mk_mem_zipIdx_iff_getElem?.2 hi)
      simpa using this

theorem bmapTracks_step {h : List BmapEvent} {s s' : BmapState} {c : BmapCommand}
    {replies : List Response} (hs : BmapTracks h s)
    (hc : s.execute sha256 c = some (replies, s'))
    (hfull : NoFullRange [⟨s, c, replies, s'⟩]) : BmapTracks (h ++ [⟨s, c, replies, s'⟩]) s' := by
  cases c with
  | load args buf =>
    have hreply : [(oemCmdBmapLoad s args buf).1] = replies :=
      (Prod.mk.inj (Option.some.inj hc)).1
    have hs' : (oemCmdBmapLoad s args buf).2 = s' := (Prod.mk.inj (Option.some.inj hc)).2
    obtain ⟨hr, hsame⟩ | ⟨hr, hnew, hsize, hle⟩ := oemCmdBmapLoad_cases s args buf
    · have hokay : okay replies = false := by
        rw [← hreply, okay]
        simp [hr]
      rw [show s' = s from hs'.symm.trans hsame]
      intro hne
      obtain ⟨h₁, ⟨name, hdev, hlast⟩, h₃⟩ := hs hne
      refine ⟨h₁, ⟨name, hdev, ?_⟩, h₃⟩
      rw [lastLoaded_append]
      simp [hokay, hlast]
    · have hokay : okay replies = true := by
        rw [← hreply, okay]
        simp [hr]
      rw [show s' = _ from hs'.symm.trans hnew]
      intro _
      refine ⟨hsize, ⟨args.getD 2 "", rfl, ?_⟩, fun r hr => ⟨hle r hr, ?_⟩⟩
      · rw [lastLoaded_append]
        simp [hokay]
      · exact hfull _ (List.mem_singleton_self _) args buf rfl hokay r hr
  | verify args io =>
    cases hc
    intro hne
    obtain ⟨h₁, ⟨name, hdev, hlast⟩, h₃⟩ := hs hne
    refine ⟨h₁, ⟨name, hdev, ?_⟩, h₃⟩
    rw [lastLoaded_append]
    exact hlast

/-- A verification that succeeds was for the device of the loaded map, and saw its ranges. -/
theorem oemCmdBmapVerify_sound {args : List String} (hsize : s.blockSize ≠ 0)
    (hrs : ∀ r ∈ s.ranges, r.startBlock.toNat ≤ r.endBlock.toNat ∧ ¬ r.Full)
    (h : okay (oemCmdBmapVerify sha256 io s args)) :
    s.ranges ≠ [] ∧ s.blockDevice = "/dev/" ++ args.getD 2 "" ∧
      ∀ r ∈ s.ranges, RangeHolds sha256 io.contents s.blockSize r := by
  unfold oemCmdBmapVerify at h
  dsimp only at h
  by_cases hargs : args.length < 3
  · simp [hargs, okay] at h
  by_cases hempty : s.ranges = []
  · simp [hargs, hempty, okay] at h
  by_cases hdev : s.blockDevice = "/dev/" ++ args.getD 2 ""
  · rw [if_neg hargs, if_neg hempty, if_neg (not_not.2 hdev)] at h
    split at h
    · simp [okay] at h
    · by_cases hopened : io.opened
      · rw [if_neg (by simp [hopened])] at h
        split at h
        · simp [okay] at h
        · split at h
          · simp [okay] at h
          · exact ⟨hempty, hdev, verifyRanges_sound hsize hrs h⟩
      · simp [hopened, okay] at h
  · rw [if_neg hargs, if_neg hempty, if_pos hdev] at h
    simp [okay] at h

theorem oemCmdBmapVerify_empty {args : List String} (h : s.ranges = []) :
    okay (oemCmdBmapVerify sha256 io s args) = false := by
  unfold oemCmdBmapVerify
  by_cases hargs : args.length < 3
  · simp [hargs, okay]
  · simp [hargs, h, okay]

variable (sha256) in
/-- A verification that replies OKAY means that every range of the last map of its device holds. -/
def VerifySound (earlier : List BmapEvent) (e : BmapEvent) : Prop :=
  ∀ args io, e.input = .verify args io → okay e.output →
    ∃ blockSize ranges, lastLoaded (args.getD 2 "") earlier = some (blockSize, ranges) ∧
      ∀ r ∈ ranges, RangeHolds sha256 io.contents blockSize r

/-- In every run in which no loaded map has the range of all the blocks, the verifications that
reply OKAY are sound, and a load that fails changes nothing. -/
theorem bmapVerify_sound (sha256 : List Byte → List Byte) (commands : List BmapCommand)
    (hfull : NoFullRange (runs (BmapState.execute sha256) {} commands))
    (earlier : List BmapEvent) (e : BmapEvent) (later : List BmapEvent)
    (hrun : runs (BmapState.execute sha256) {} commands = earlier ++ e :: later) :
    VerifySound sha256 earlier e ∧
    (∀ args buf, e.input = .load args buf → okay e.output = false → e.after = e.before) := by
  rw [hrun] at hfull
  have hearlier : NoFullRange earlier := fun e' he' => hfull e' (List.mem_append_left _ he')
  obtain ⟨htracks, hstep⟩ :=
    @runs_invariant _ _ _ (BmapState.execute sha256)
      (fun h s => NoFullRange h → BmapTracks h s)
      (fun h s i o s' hs hi hnf => bmapTracks_step
        (hs fun e' he' => hnf e' (List.mem_append_left _ he')) hi
        (fun e' he' => hnf e' (List.mem_append_right _ he')))
      commands _ (fun _ hne => (hne rfl).elim) earlier e later hrun
  constructor
  · intro args io hin hokay
    rw [hin] at hstep
    have hout : oemCmdBmapVerify sha256 io e.before args = e.output :=
      (Prod.mk.inj (Option.some.inj hstep)).1
    rw [← hout] at hokay
    by_cases hne : e.before.ranges = []
    · rw [oemCmdBmapVerify_empty hne] at hokay
      cases hokay
    · obtain ⟨hsize, ⟨name, hdev, hlast⟩, hrs⟩ := htracks hearlier hne
      obtain ⟨-, hdev', hholds⟩ := oemCmdBmapVerify_sound hsize hrs hokay
      have hname : name = args.getD 2 "" := by
        have := congrArg String.toList (hdev.symm.trans hdev')
        rw [String.toList_append, String.toList_append, List.append_cancel_left_eq] at this
        exact String.toList_inj.1 this
      rw [← hname]
      exact ⟨e.before.blockSize, e.before.ranges, hlast, hholds⟩
  · intro args buf hin hokay
    rw [hin] at hstep
    have hreply : [(oemCmdBmapLoad e.before args buf).1] = e.output :=
      (Prod.mk.inj (Option.some.inj hstep)).1
    have hafter : (oemCmdBmapLoad e.before args buf).2 = e.after :=
      (Prod.mk.inj (Option.some.inj hstep)).2
    obtain ⟨-, hsame⟩ | ⟨hr, -⟩ := oemCmdBmapLoad_cases e.before args buf
    · rw [← hafter, hsame]
    · rw [← hreply, okay] at hokay
      simp [hr] at hokay

end

/-! ### The range of all the blocks -/

/-- SHA-256 of nothing. -/
def sha256Empty : List Byte :=
  [0xe3, 0xb0, 0xc4, 0x42, 0x98, 0xfc, 0x1c, 0x14, 0x9a, 0xfb, 0xf4, 0xc8, 0x99, 0x6f, 0xb9, 0x24,
    0x27, 0xae, 0x41, 0xe4, 0x64, 0x9b, 0x93, 0x4c, 0xa4, 0x95, 0x99, 0x1b, 0x78, 0x52, 0xb8, 0x55]

/-- SHA-256 of the letter a. -/
def sha256OfA : List Byte :=
  [0xca, 0x97, 0x81, 0x12, 0xca, 0x1b, 0xbd, 0xca, 0xfa, 0xc2, 0x31, 0xb3, 0x9a, 0x23, 0xdc, 0x4d,
    0xa7, 0x86, 0xef, 0xf8, 0x14, 0x7c, 0x4e, 0x72, 0xb9, 0x80, 0x77, 0x85, 0xaf, 0xee, 0x48, 0xbb]

/-- A digest that is right for the inputs of the runs below. -/
def sampleSha256 (bytes : List Byte) : List Byte :=
  if bytes = [] then sha256Empty else if bytes = [0x61] then sha256OfA else []

/-- A map of one range with blocks of one byte. -/
def sampleMap (startBlock endBlock sha256 : List Byte) : List Byte :=
  [0x42, 0x4d, 0x41, 0x50, 1, 0, 0, 0, 1, 0, 0, 0, 0, 0, 0, 0] ++ startBlock ++ endBlock ++ sha256

/-- A device on which every call succeeds and every read gives all that there is. -/
def sampleReads (contents : List Byte) : BmapIO where
  writable _ := true
  opened := true
  fdatasync := none
  fadvise := none
  seek _ := none
  context _ := true
  read _ := .ok kReadBuf
  contents := contents

def sampleRun (map contents : List Byte) : List BmapEvent :=
  runs (BmapState.execute sampleSha256) {} [.load ["oem", "bmap-load", "mmcblk0"] map,
    .verify ["oem", "bmap-verify", "mmcblk0"] (sampleReads contents)]

/-- The events of a sample run that is not cut short. -/
theorem sampleRun_events {map contents : List Byte} {outputs : List (List Response)}
    (h : (sampleRun map contents).map (·.output) = outputs) (hlen : outputs.length = 2) :
    ∃ e₀ e₁, sampleRun map contents = [e₀, e₁] ∧ outputs = [e₀.output, e₁.output] ∧
      e₀.input = .load ["oem", "bmap-load", "mmcblk0"] map ∧
      e₁.input = .verify ["oem", "bmap-verify", "mmcblk0"] (sampleReads contents) := by
  have hinputs : (sampleRun map contents).map (·.input) <+:
      [.load ["oem", "bmap-load", "mmcblk0"] map,
        .verify ["oem", "bmap-verify", "mmcblk0"] (sampleReads contents)] := runs_inputs_prefix _ _
  generalize sampleRun map contents = run at h hinputs ⊢
  subst h
  rw [List.length_map] at hlen
  match run, hlen with
  | [e₀, e₁], _ =>
    have := hinputs.eq_of_length rfl
    simp only [List.map_cons, List.map_nil, List.cons.injEq, and_true] at this
    exact ⟨e₀, e₁, rfl, rfl, this.1, this.2⟩

/-- The range from block 0 to the last block that a word can number, and a device without a single
block: the verification succeeds. -/
theorem fullRange_verified :
    ¬ (∀ earlier e later,
      sampleRun (sampleMap [0, 0, 0, 0] [0xff, 0xff, 0xff, 0xff] sha256Empty) [] =
        earlier ++ e :: later → VerifySound sampleSha256 earlier e) := by
  have hout : (sampleRun (sampleMap [0, 0, 0, 0] [0xff, 0xff, 0xff, 0xff] sha256Empty) []).map
      (·.output) = [[⟨.okay, "bmap loaded: 1 ranges, block_size=1, device=mmcblk0"⟩],
        [⟨.info, "verifying range 0/1 (blocks 0-4294967295)"⟩,
          ⟨.okay, "verified 1 ranges ok"⟩]] := by decide +kernel
  obtain ⟨e₀, e₁, hrun, houts, hin₀, hin₁⟩ := sampleRun_events hout rfl
  simp only [List.cons.injEq, and_true] at houts
  intro hall
  obtain ⟨blockSize, ranges, hlast, hholds⟩ :=
    hall [e₀] e₁ [] hrun _ _ hin₁ (by rw [← houts.2]; decide)
  have hmap : lastLoaded "mmcblk0" [e₀] = some (1, [⟨0, 0xffffffff, sha256Empty⟩]) := by
    rw [lastLoaded, List.foldl_cons, List.foldl_nil, hin₀, ← houts.1]
    decide
  change lastLoaded "mmcblk0" [e₀] = _ at hlast
  rw [hmap] at hlast
  cases hlast
  have := (hholds _ (List.mem_singleton_self _)).1
  exact absurd this (by decide)

/-- A range of one block that holds an a. -/
theorem bmapVerify_sound_letter : ∃ e₀ e₁,
    sampleRun (sampleMap [0, 0, 0, 0] [0, 0, 0, 0] sha256OfA) [0x61] = [e₀, e₁] ∧
      okay e₁.output ∧ VerifySound sampleSha256 [e₀] e₁ := by
  have hout : (sampleRun (sampleMap [0, 0, 0, 0] [0, 0, 0, 0] sha256OfA) [0x61]).map
      (·.output) = [[⟨.okay, "bmap loaded: 1 ranges, block_size=1, device=mmcblk0"⟩],
        [⟨.info, "verifying range 0/1 (blocks 0-0)"⟩, ⟨.okay, "verified 1 ranges ok"⟩]] := by
    decide +kernel
  obtain ⟨e₀, e₁, hrun, houts, hin₀, hin₁⟩ := sampleRun_events hout rfl
  simp only [List.cons.injEq, and_true] at houts
  refine ⟨e₀, e₁, hrun, by rw [← houts.2]; decide, ?_⟩
  refine (bmapVerify_sound sampleSha256 _ ?_ [e₀] e₁ [] hrun).1
  change NoFullRange (sampleRun _ _)
  rw [hrun]
  intro e he args buf hin _ r hr
  rw [List.mem_cons, List.mem_singleton] at he
  obtain rfl | rfl := he
  · rw [hin₀] at hin
    cases hin
    have hranges : bmapRanges (sampleMap [0, 0, 0, 0] [0, 0, 0, 0] sha256OfA) =
      [⟨0, 0, sha256OfA⟩] := by decide
    rw [hranges, List.mem_singleton] at hr
    subst hr
    exact fun hfull => absurd hfull.2 (by decide)
  · rw [hin₁] at hin
    cases hin

end RpiFastbootd
