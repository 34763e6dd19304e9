import RpiFastbootd.Fastboot.FlashHandle
import RpiFastbootd.Libsparse.Pieces
import RpiFastbootd.Libsparse.Room

/-!
# Flashing an image in pieces

An image that is too long for one download is read by the host as blocks, split into pieces, and each
piece is written in the sparse format and flashed.  The device has no memory of the pieces before:
every flash opens the device anew and starts at its first block.

The bytes that are written for a file are imported by the device, and give to it what the blocks of
the file stand for (`flashBlockDevice_written`); all pieces together give it the bytes of the image
(`exists_loadSparseFiles`).
-/

namespace RpiFastbootd

/-- `sparse_file_import_auto` of a file that is not a sparse image, and `load_sparse_files`. -/
def loadSparseFiles (image : List Byte) (maxSize fuel : ℕ) :
    Except Fault (Option (List (Option FdSparseFile))) := do
  let s ← sparseFileImportRaw image
  return resparseFile image s maxSize fuel

section

variable {image : List Byte} {s : FdSparseFile} {total : ℕ}

theorem SparseImage.hasSparseMagic_bytes (image : SparseImage) :
    FlashHandle.HasSparseMagic image.bytes := by
  have hmagic : (le32 image.bytes 0).toNat = kSparseHeaderMagic := 
    le32_leBytes (by decide : kSparseHeaderMagic < 2 ^ 32)
  refine ⟨?_, hmagic⟩
  rw [SparseImage.bytes, List.length_append, SparseHeader.length_bytes]
  exact (by decide : 4 ≤ kSparseHeaderLen).trans (Nat.le_add_right _ _)

/-- What is expanded on a device is what the chunks give to it. -/
theorem Expands.painted {blkSz start : ℕ} {old new : ℕ → Byte} {chunks : List SparseChunk}
    (h : Expands blkSz old new start chunks) (layer : Layer)
    (hlayer : ∀ p, start * blkSz ≤ p → layer p = none) :
    ∀ p, start * blkSz ≤ p → new p = (paintChunks blkSz start chunks layer p).getD (old p) := by
  induction chunks generalizing start layer with
  | nil =>
    intro p hp
    rw [paintChunks, hlayer p hp]
    exact h p hp
  | cons c chunks ih =>
    obtain ⟨hregion, hrest⟩ := h
    intro p hp
    rw [paintChunks]
    by_cases hlt : p < (start + c.blocks) * blkSz
    · rw [paintChunks_of_lt hlt]
      rw [Nat.add_mul] at hlt
      have hbyte := hregion (p - start * blkSz) (by omega)
      rw [Nat.add_sub_cancel' hp] at hbyte
      rw [hbyte, SparseChunk.byte]
      cases c.backing with
      | none =>
        dsimp only
        rw [hlayer p hp]
        rfl
      | some backing =>
        dsimp only [Layer.put]
        rw [if_pos (by omega)]
        rfl
    · refine ih hrest _ (fun q hq => ?_) p (not_lt.1 hlt)
      rw [Nat.add_mul] at hq
      cases c.backing with
      | none => exact hlayer q (by omega)
      | some backing =>
        dsimp only [Layer.put]
        rw [if_neg (by omega)]
        exact hlayer q (by omega)

/-! ### One piece -/

/-- The device has what the blocks of the file stand for, and is otherwise as it was. -/
def Holds (image : List Byte) (s : FdSparseFile) (old new : ℕ → Byte) : Prop :=
  ∀ p, new p = (paintFile image s.blockSize s.dataBlocks (fun _ => none) p).getD (old p)

/-- What is written of a file is flashed without a failed assertion where no seek fails, and if no
error is reported, the file has found room on the device, which holds it. -/
theorem FdSparseFile.Sound.flashBlockDevice (h : s.Sound image total) {handle : FlashHandle}
    {offset : ℕ} (hfd : handle.fd = some offset) (hseeks : ∀ e ∈ handle.seeks, e = none)
    (size : ℕ) :
    ∃ code handle', handle.flashBlockDevice (s.sparseImage image total).bytes size =
        .ok (code, handle') ∧
      (code = .ok → s.len ≤ size ∧ Holds image s handle.content handle'.content) := by
  have hsound := h.sparseImage
  obtain ⟨code, handle', hflash, hdone⟩ := FlashHandle.flashBlockDevice_sparse hfd hseeks
    (SparseImage.hasSparseMagic_bytes _) hsound.regular size
  refine ⟨code, handle', hflash, fun hcode => ?_⟩
  obtain ⟨chunks, hwell, hsize, hexpands⟩ := hdone hcode
  obtain rfl := hwell.unique hsound.wellFormed_bytes
  rw [hsound.sparseHeader_bytes] at hsize hexpands
  have hcount := h.laid.blockCount_fileChunks
  refine ⟨?_, fun p => ?_⟩
  · rw [h.len, ← hcount]
    exact hsize
  · rw [hexpands.painted (fun _ => none) (fun _ _ => rfl) p (by simp)]
    exact congrArg (fun layer : Layer => (layer p).getD _) h.laid.paintChunks_fileChunks

end

/-! ### All pieces -/

/-- Payloads are flashed one after the other, each through a handle of its own, and no flash reports an
error; calls may be short or fail, but for the seeks. -/
inductive Flashes : (ℕ → Byte) → List (List Byte) → (ℕ → Byte) → Prop
  | done (content : ℕ → Byte) : Flashes content [] content
  | next {data : List Byte} {rest : List (List Byte)} {handle handle' : FlashHandle}
    {size offset : ℕ} {new : ℕ → Byte} :
    handle.fd = some offset → (∀ e ∈ handle.seeks, e = none) →
    handle.flashBlockDevice data size = .ok (.ok, handle') →
    Flashes handle'.content rest new → Flashes handle.content (data :: rest) new

section

variable {image : List Byte} {total maxLen : ℕ} {s : FdSparseFile} {old new : ℕ → Byte}

/-- A layer over what has a layer already. -/
theorem getD_paintFile {blockSize : ℕ} {l : List FileBlock} {layer : Layer} {p : ℕ} :
    (paintFile image blockSize l (fun _ => none) p).getD ((layer p).getD (old p)) =
      (paintFile image blockSize l layer p).getD (old p) := by
  induction l using List.reverseRecOn generalizing layer with
  | nil => rfl
  | append_singleton l bb ih =>
    rw [paintFile_append, paintFile_append]
    simp only [paintFile, List.map_cons, List.map_nil, List.foldl_cons, List.foldl_nil,
      BackedBlock.paint, Layer.put]
    split_ifs
    · rfl
    · exact ih

/-- The bytes of the pieces. -/
def pieceBytes (image : List Byte) (total : ℕ) (pieces : List FdSparseFile) : List (List Byte) :=
  pieces.map fun s => (s.sparseImage image total).bytes

/-- What the pieces give to a device is laid over what it has been given before. -/
theorem Flashes.painted {pieces : List FdSparseFile}
    (h : Flashes old (pieceBytes image total pieces) new)
    {blockSize : ℕ} (hsize : ∀ p ∈ pieces, p.blockSize = blockSize)
    (hsound : ∀ p ∈ pieces, p.Sound image total) {first : ℕ → Byte} (layer : Layer)
    (hlayer : ∀ p, old p = (layer p).getD (first p)) (p : ℕ) :
    new p = (pieces.foldl (fun layer p => paintFile image blockSize p.dataBlocks layer)
      layer p).getD (first p) := by
  induction pieces generalizing old layer with
  | nil =>
    cases h
    exact hlayer p
  | cons s rest ih =>
    rw [List.forall_mem_cons] at hsize hsound
    cases h with
    | next hfd hseeks hflash hrest =>
      obtain ⟨code, handle', hflash', hdone⟩ := hsound.1.flashBlockDevice hfd hseeks _
      rw [hflash] at hflash'
      cases hflash'
      obtain ⟨-, hholds⟩ := hdone rfl
      rw [List.foldl_cons]
      refine ih hrest hsize.2 hsound.2 _ fun q => ?_
      rw [hholds q, hlayer q, getD_paintFile, hsize.1]

end

/-! ### A device without failures -/

namespace FlashHandle

/-- The handle stands at a position of a device of a size, and no call on it fails. -/
structure Healthy (size pos : ℕ) (h : FlashHandle) : Prop where
  fd : h.fd = some pos
  size : h.size = size
  buffers : h.buffers = []
  opens : h.opens = []
  seeks : h.seeks = []
  writes : h.writes = []

variable {h : FlashHandle} {size pos : ℕ} {data : List Byte}

theorem Healthy.lseek (hh : Healthy size pos h) (target : ℕ → ℕ) :
    ∃ h', h.lseek target = (.ok (target pos), h') ∧ Healthy size (target pos) h' := by
  unfold FlashHandle.lseek
  simp only [hh.fd, hh.seeks, List.headD_nil, List.tail_nil]
  exact ⟨_, rfl, rfl, hh.size, hh.buffers, hh.opens, rfl, hh.writes⟩

theorem Healthy.reset (hh : Healthy size pos h) (flags : OpenFlags) :
    ∃ h', h.reset flags = (true, h') ∧ Healthy size pos h' := by
  unfold FlashHandle.reset
  split_ifs with hsame
  · exact ⟨h, rfl, hh⟩
  · rename_i hopen
    obtain ⟨h₁, hask, hh₁⟩ := hh.lseek id
    rw [hask]
    dsimp only
    unfold openDevice
    rw [hh₁.opens]
    simp only [List.headD_nil, List.tail_nil]
    have hh₂ : Healthy size 0 { h₁ with fd := some 0, flags := flags.forHandle, opens := [] } :=
      ⟨rfl, hh₁.size, hh₁.buffers, rfl, hh₁.seeks, hh₁.writes⟩
    obtain ⟨h₃, hseek, hh₃⟩ := hh₂.lseek fun _ => pos
    exact ⟨h₃, by rw [id_eq, hseek], hh₃⟩
  · rename_i hclosed
    exact absurd (by rw [hh.fd]; rfl) hclosed

theorem Healthy.prepare (hh : Healthy size pos h) (thisLen : ℕ) :
    ∃ h', h.prepare thisLen = (true, h') ∧ Healthy size pos h' := by
  unfold FlashHandle.prepare
  split_ifs
  · exact hh.reset oWronly
  · exact ⟨h, rfl, hh⟩

theorem Healthy.write (hh : Healthy size pos h) (hne : data ≠ [])
    (hroom : pos + data.length ≤ size) :
    ∃ h', h.write data = (.ok data.length, h') ∧ Healthy size (pos + data.length) h' := by
  have hpos := List.length_pos_iff.2 hne
  have hsize := hh.size
  have htake : data.take (min data.length (h.size - pos)) = data := by
    rw [List.take_of_length_le]
    omega
  unfold FlashHandle.write
  simp only [hh.fd, hh.writes, List.headD_nil, List.tail_nil]
  rw [if_neg (by omega), htake]
  exact ⟨_, rfl, rfl, hh.size, hh.buffers, hh.opens, hh.seeks, rfl⟩

theorem Healthy.chunkLoop {fuel : ℕ} (hh : Healthy size pos h) (hroom : pos + data.length ≤ size)
    (hfuel : data.length < fuel) :
    ∃ h', FlashHandle.chunkLoop fuel h data = some (.ok, h') ∧
      Healthy size (pos + data.length) h' := by
  induction fuel generalizing h pos data with
  | zero => omega
  | succ fuel ih =>
    unfold FlashHandle.chunkLoop
    by_cases hempty : data = []
    · subst hempty
      exact ⟨h, rfl, hh⟩
    rw [if_neg hempty]
    dsimp only
    have hpos := List.length_pos_iff.2 hempty
    have hmax : 0 < FlashTarget.kMaxWriteSize := by decide
    obtain ⟨h₁, hprepare, hh₁⟩ := hh.prepare (min FlashTarget.kMaxWriteSize data.length)
    rw [hprepare]
    dsimp only
    rw [if_neg (by simp)]
    obtain ⟨h₂, hask, hh₂⟩ := hh₁.lseek id
    rw [hask]
    dsimp only
    have hlength : (data.take (min FlashTarget.kMaxWriteSize data.length)).length =
        min FlashTarget.kMaxWriteSize data.length :=
      List.length_take_of_le (Nat.min_le_right _ _)
    have hsome : data.take (min FlashTarget.kMaxWriteSize data.length) ≠ [] :=
      List.length_pos_iff.1 (by omega)
    obtain ⟨h₃, hwrite, hh₃⟩ := hh₂.write hsome (by rw [hlength, id_eq]; omega)
    rw [hwrite]
    dsimp only
    rw [hlength] at hh₃ ⊢
    have hdrop : (data.drop (min FlashTarget.kMaxWriteSize data.length)).length =
        data.length - min FlashTarget.kMaxWriteSize data.length := List.length_drop
    obtain ⟨h₄, hloop, hh₄⟩ := ih hh₃ (by rw [hdrop, id_eq]; omega) (by rw [hdrop]; omega)
    refine ⟨h₄, hloop, ?_⟩
    have hend : id pos + min FlashTarget.kMaxWriteSize data.length +
        (data.drop (min FlashTarget.kMaxWriteSize data.length)).length = pos + data.length := by
      rw [hdrop, id_eq]
      omega
    rw [hend] at hh₄
    exact hh₄

/-- The callback of the sparse writer takes everything up to the size of the device. -/
theorem takes_writeCallback (size blockDeviceSize : ℕ) :
    Takes (fun h => FlashHandle.writeCallback h blockDeviceSize) (Healthy size) size where
  take := by
    intro pos h hh p hroom
    cases p with
    | skip n =>
      obtain ⟨h₁, hask, hh₁⟩ := hh.lseek id
      obtain ⟨h₂, hseek, hh₂⟩ := hh₁.lseek (· + n)
      refine ⟨h₂, ?_, hh₂⟩
      unfold FlashHandle.writeCallback
      rw [hask]
      dsimp only
      rw [hseek]
    | data bytes =>
      obtain ⟨h', hloop, hh'⟩ := hh.chunkLoop hroom (Nat.lt_succ_self _)
      have hbuffers : { h with buffers := h.buffers.tail } = h := by
        rw [hh.buffers, List.tail_nil, ← hh.buffers]
      refine ⟨h', ?_, hh'⟩
      unfold FlashHandle.writeCallback flashRawDataChunk
      dsimp only
      rw [if_neg (by rw [hh.buffers]; simp), hbuffers, hh.writes, List.length_nil, Nat.zero_add,
        hloop]
      rfl

end FlashHandle

/-! ### The whole image -/

/-- Payloads are flashed on a device whose calls do not fail: the code of the first flash that reports
an error, and what is then on the device. -/
def flashEach (path : String) (size : ℕ) :
    (ℕ → Byte) → List (List Byte) → Except Fault (Code × (ℕ → Byte))
  | content, [] => return (.ok, content)
  | content, data :: rest => do
    let handle : FlashHandle :=
      { path, fd := some 0, flags := oWronlyDirect.forHandle, size, content }
    match ← handle.flashBlockDevice data size with
    | (.ok, handle) => flashEach path size handle.content rest
    | (code, handle) => return (code, handle.content)

section

variable {image data : List Byte} {s : FdSparseFile} {total n maxSize fuel : ℕ}
  {old new : ℕ → Byte}

/-- An imported file has its blocks within its length. -/
theorem ordered_of_imported {file : SparseFile} (hregular : Regular data)
    (hok : sparseFileImportBuf data = .ok file) :
    Ordered file.blockSize 0 file.backedBlockList.dataBlocks (sparseHeader data).totalBlks ∧
      file.len = (sparseHeader data).totalBlks * file.blockSize ∧ 0 < file.blockSize ∧
      file.blockSize < 2 ^ 32 ∧ (sparseHeader data).totalBlks < 2 ^ 32 ∧ file.len < 2 ^ 63 ∧
      file.blockSize = (sparseHeader data).blkSz := by
  obtain herr | ⟨file', hok', chunks, hwell, rest, hreading⟩ := yields_sparseFileImportBuf hregular
  · rw [herr] at hok
    cases hok
  obtain rfl : file = file' := Except.ok.inj (hok.symm.trans hok')
  have hvalid := hwell.header
  have hlen : file.len = (sparseHeader data).totalBlks * file.blockSize := by
    rw [hreading.len, hreading.blockSize]
  refine ⟨?_, hlen, ?_, ?_, hreading.lt, ?_, hreading.blockSize⟩
  · rw [hreading.blockSize]
    exact hreading.ordered
  · rw [hreading.blockSize]
    exact Nat.pos_of_ne_zero hvalid.blkSz
  · rw [hreading.blockSize]
    exact blkSz_lt data
  · rw [hreading.len]
    exact hregular.expansion hvalid

/-- What is written of a file is flashed without an error if there is room for the file and no call
fails. -/
theorem FdSparseFile.Sound.flashBlockDevice_ok (h : s.Sound image total) {handle : FlashHandle}
    {offset size : ℕ} (hhealthy : handle.Healthy size offset) (hroom : s.len ≤ size) :
    ∃ handle', handle.flashBlockDevice (s.sparseImage image total).bytes size =
      .ok (.ok, handle') := by
  have hsound := h.sparseImage
  obtain ⟨file, hok⟩ := hsound.readableImage.exists_import hsound.regular
  obtain ⟨hord, hlen, hpos, hsize, hlt, h63, hblk⟩ := ordered_of_imported hsound.regular hok
  have hfile : file.len = s.len := by
    rw [hlen, hblk, hsound.sparseHeader_bytes, h.len]
    exact congrArg (· * s.blockSize) h.laid.blockCount_fileChunks
  obtain ⟨handle₁, hseek, hhandle₁⟩ := hhealthy.lseek fun _ => 0
  have hstart : FlashHandle.Stands handle₁.content 0 (fun _ => none) handle₁ :=
    ⟨hhandle₁.fd, fun _ => rfl, fun e he => by rw [hhandle₁.seeks] at he; cases he⟩
  obtain ⟨-, -, hexpanded, -⟩ := written_of_imported
    (FlashHandle.places_writeCallback handle₁.content size) hstart hsound.regular hok
  obtain ⟨handle₂, hwrite, -⟩ := (FlashHandle.takes_writeCallback size size).writeAllBlocks hhandle₁
    hord hlen hpos hsize hlt h63 (hfile.trans_le hroom)
  refine ⟨handle₂, ?_⟩
  unfold FlashHandle.flashBlockDevice
  rw [if_pos (SparseImage.hasSparseMagic_bytes _), hseek]
  unfold FlashHandle.flashSparseData
  rw [hok]
  simp only [hexpanded, bind, Except.bind]
  rw [if_neg (by omega)]
  exact hwrite

/-- On such a device all pieces are flashed. -/
theorem flashes_of_flashEach (path : String) {pieces : List FdSparseFile} {size : ℕ}
    (hsound : ∀ p ∈ pieces, p.Sound image total) (hroom : ∀ p ∈ pieces, p.len ≤ size)
    (old : ℕ → Byte) :
    ∃ new, flashEach path size old (pieceBytes image total pieces) = .ok (.ok, new) ∧
      Flashes old (pieceBytes image total pieces) new := by
  induction pieces generalizing old with
  | nil => exact ⟨old, rfl, .done old⟩
  | cons s rest ih =>
    rw [List.forall_mem_cons] at hsound hroom
    have hhealthy : FlashHandle.Healthy size 0
        { path, fd := some 0, flags := oWronlyDirect.forHandle, size, content := old } :=
      ⟨rfl, rfl, rfl, rfl, rfl, rfl⟩
    obtain ⟨handle', hflash⟩ := hsound.1.flashBlockDevice_ok hhealthy hroom.1
    obtain ⟨new, hrest, hflashes⟩ := ih hsound.2 hroom.2 handle'.content
    refine ⟨new, ?_, .next rfl (fun e he => by cases he) hflash hflashes⟩
    rw [pieceBytes, List.map_cons, flashEach, hflash, ok_bind]
    exact hrest

/-- The pieces of an image of whole blocks. -/
theorem exists_loadSparseFiles (hlength : image.length = n * kRawBlockSize) (hpos : 0 < n)
    (hlt : n < 2 ^ 31) (hroomy : Roomy kRawBlockSize maxSize) (hfuel : n + 1 ≤ fuel) :
    ∃ pieces : List FdSparseFile,
      loadSparseFiles image maxSize fuel = .ok (some (pieces.map some)) ∧
      (∀ p ∈ pieces, p.Sound image n ∧ p.blockSize = kRawBlockSize ∧ p.len = image.length ∧
        (p.sparseImage image n).bytes.length ≤ maxSize) ∧
      ∀ old new, Flashes old (pieceBytes image n pieces) new →
        FlashHandle.PlacedAt 0 image old new := by
  have hbytes : n * kRawBlockSize < 2 ^ 63 := by
    rw [kRawBlockSize]
    omega
  have hgeometry : Geometry kRawBlockSize n :=
    ⟨by decide, by decide, by decide, hpos, hlt, hbytes⟩
  obtain ⟨s, hread, hsize, hlen, hupto⟩ := sparseFileReadNormal_paints hgeometry.aligned
    hgeometry.blockSize_pos hlength (by omega) hbytes
  rw [← hsize] at hgeometry hroomy hlen
  obtain ⟨pieces, hresparse, hpieces⟩ := exists_piecesOf hgeometry hroomy hupto.laid hlen hfuel
  refine ⟨pieces, ?_, fun p hp => ⟨hpieces.sound p hp, (hpieces.blockSize p hp).trans hsize, ?_,
    hpieces.short p hp⟩, fun old new hflashes => ?_⟩
  · rw [loadSparseFiles, sparseFileImportRaw, hlength, hread, ok_bind, hresparse]
    rfl
  · rw [hpieces.len p hp, hlen, hsize, hlength]
  · have hnew : ∀ p, new p =
        (Layer.put (fun _ => none) 0 image.length (image.getD · 0) p).getD (old p) := by
      intro p
      rw [hflashes.painted hpieces.blockSize hpieces.sound (fun _ => none) (fun _ => rfl) p,
         hpieces.painted, hupto.painted, hsize, hlength]
    simp only [Layer.put] at hnew
    refine ⟨fun i hi => ?_, fun p hp => ?_⟩
    · rw [hnew, Nat.zero_add, if_pos (by omega), Nat.sub_zero, List.getD_eq_getElem _ _ hi]
      rfl
    · rw [hnew, if_neg (by omega)]
      rfl

end

/-- Ten blocks, whose words are not all the same. -/
def tenBlocks : List Byte := (List.range 40960).map (BitVec.ofNat 8)

theorem length_tenBlocks : tenBlocks.length = 10 * kRawBlockSize := by
  rw [tenBlocks, List.length_map, List.length_range, kRawBlockSize]

theorem roomy_tenBlocks : Roomy kRawBlockSize 32824 := ⟨by decide, by decide, by decide⟩

end RpiFastbootd
