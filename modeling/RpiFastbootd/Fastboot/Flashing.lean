import Mathlib.Data.List.GetD
import RpiFastbootd.Libsparse.Import
import RpiFastbootd.Libsparse.Output

/-!
# Flashing a sparse image

`FlashSparseData` imports the image, compares the length of its expansion with the size of the
device, and writes it out with `WriteCallback`: data is written in pieces of at most a megabyte, and
a region is skipped with `lseek`.  Seeks, writes and the reopening of the device may fail, and a
write may be short.
-/

namespace RpiFastbootd

/-- An open block device with the text of the first error, and the outcomes of the calls on it: of
the seeks that skip a region (an error or none), of reopening it without `O_DIRECT`, and of the
writes (an error, or at most a number of bytes).  All calls succeed after these. -/
structure FlashTarget where
  path : String
  size : ℕ
  content : ℕ → Byte
  offset : ℕ := 0
  direct : Bool := true
  err : String := ""
  seeks : List (Option String) := []
  resets : List Bool := []
  writes : List (Except String ℕ) := []

/-- Bytes in the place of others. -/
def overwrite (content : ℕ → Byte) (start : ℕ) (bytes : List Byte) : ℕ → Byte := fun p =>
  if start ≤ p ∧ p < start + bytes.length then bytes.getD (p - start) 0 else content p

namespace FlashTarget

def setErr (d : FlashTarget) (message : String) : FlashTarget :=
  if d.err = "" then { d with err := message } else d

/-- `PartitionHandle::Reset`: the device is reopened at the same offset. -/
def reset (d : FlashTarget) : Bool × FlashTarget :=
  if d.direct = false then (true, d)
  else if d.resets.headD true = true then
    (true, { d with direct := false, resets := d.resets.tail })
  else (false, { d with resets := d.resets.tail })

/-- The device with bytes written at its offset. -/
def put (d : FlashTarget) (bytes : List Byte) : FlashTarget :=
  { d with
    content := overwrite d.content d.offset bytes
    offset := d.offset + bytes.length }

/-- `write`: an error, or the number of bytes written, which end with the device. -/
def write (d : FlashTarget) (bytes : List Byte) : Except String ℕ × FlashTarget :=
  match d.writes.headD (.ok bytes.length) with
  | .error e => (.error e, { d with writes := d.writes.tail })
  | .ok n =>
    if d.size ≤ d.offset then
      (.error "No space left on device", { d with writes := d.writes.tail })
    else
      let written := bytes.take (min n (d.size - d.offset))
      (.ok written.length, { d.put written with writes := d.writes.tail })

def kMaxWriteSize : ℕ := 1048576

/-- The loop of `FlashRawDataChunk` over the data that is left. -/
def writeLoop : ℕ → FlashTarget → List Byte → Code × FlashTarget
  | 0, d, _ => (.errno "", d)
  | fuel + 1, d, data =>
    if data = [] then (.ok, d)
    else
      let thisLen := min kMaxWriteSize data.length
      let (ready, d) := if thisLen % 4096 ≠ 0 then d.reset else (true, d)
      if ready = false then
        (.eio, d.setErr ("failed to drop O_DIRECT on " ++ d.path ++ " for unaligned tail write"))
      else
        match d.write (data.take thisLen) with
        | (.error e, d') =>
          (.errno e, d'.setErr ("write(" ++ toString thisLen ++ "B) to " ++ d.path ++
            " at offset " ++ toString d.offset ++ " failed: " ++ e))
        | (.ok n, d') => writeLoop fuel d' (data.drop n)

/-- `FlashRawDataChunk`: each round takes the outcome of a write or writes a byte. -/
def flashRawDataChunk (d : FlashTarget) (data : List Byte) : Code × FlashTarget :=
  writeLoop (d.writes.length + data.length + 1) d data

def writeCallback (d : FlashTarget) : OutputPiece → Code × FlashTarget
  | .skip len =>
    match d.seeks.headD none with
    | some e =>
      (.errno e, { d with seeks := d.seeks.tail }.setErr ("sparse skip: lseek to offset " ++
        toString (d.offset + len) ++ " on " ++ d.path ++ " (size " ++ toString d.size ++
        ") failed: " ++ e))
    | none => (.ok, { d with seeks := d.seeks.tail, offset := d.offset + len })
  | .data bytes => d.flashRawDataChunk bytes

/-- `FlashSparseData`: its return code, unless an assertion fails or a product overflows. -/
def flashSparseData (d : FlashTarget) (data : List Byte) : Except Fault (Code × FlashTarget) :=
  match sparseFileImportBuf data with
  | .error .rejected =>
    return (.einval, d.setErr ("not a valid sparse image (sparse_file_import_buf failed on " ++
      toString data.length ++ "B payload)"))
  | .error fault => throw fault
  | .ok file => do
    let expanded ← sparseFileLen file
    if 0 < expanded ∧ (d.size : ℤ) < expanded then
      return (.efbig, d.setErr ("sparse image expands to " ++ toString expanded ++
        "B but partition " ++ d.path ++ " is only " ++ toString d.size ++ "B"))
    else writeAllBlocks writeCallback file d

/-! ### Writing data -/

section

variable {d d' : FlashTarget} {data : List Byte} {fuel : ℕ}

/-- Data that is written in two parts. -/
theorem overwrite_append (content : ℕ → Byte) (start : ℕ) (a b : List Byte) :
    overwrite (overwrite content start a) (start + a.length) b =
      overwrite content start (a ++ b) := by
  funext p
  simp only [overwrite, List.length_append]
  by_cases hb : start + a.length ≤ p ∧ p < start + a.length + b.length
  · rw [if_pos hb, if_pos (by omega), List.getD_append_right _ _ _ _ (by omega)]
    congr 1
    omega
  · rw [if_neg hb]
    by_cases ha : start ≤ p ∧ p < start + a.length
    · rw [if_pos ha, if_pos (by omega), List.getD_append _ _ _ _ (by omega)]
    · rw [if_neg ha, if_neg (by omega)]

/-- What the calls on a device leave alone, or change in the one way that is theirs. -/
structure Wrote (d : FlashTarget) (bytes : List Byte) (d' : FlashTarget) : Prop where
  content : d'.content = overwrite d.content d.offset bytes
  offset : d'.offset = d.offset + bytes.length
  seeks : d'.seeks = d.seeks

theorem wrote_nil {d d' : FlashTarget} (hcontent : d'.content = d.content)
    (hoffset : d'.offset = d.offset) (hseeks : d'.seeks = d.seeks) : Wrote d [] d' := by
  refine ⟨?_, hoffset, hseeks⟩
  funext p
  rw [hcontent]
  exact (if_neg (by simp)).symm

theorem Wrote.append {a b : List Byte} {d₁ : FlashTarget} (h : Wrote d a d₁) (h' : Wrote d₁ b d') :
    Wrote d (a ++ b) d' := by
  refine ⟨?_, ?_, h'.seeks.trans h.seeks⟩
  · rw [h'.content, h.content, h.offset, overwrite_append]
  · rw [h'.offset, h.offset, List.length_append, Nat.add_assoc]

theorem wrote_reset (d : FlashTarget) : Wrote d [] d.reset.2 := by
  unfold reset
  split_ifs
  · exact wrote_nil rfl rfl rfl
  · exact wrote_nil rfl rfl rfl
  · exact wrote_nil rfl rfl rfl

theorem write_cases (d : FlashTarget) (bytes : List Byte) :
    (∃ e d', d.write bytes = (.error e, d')) ∨
      ∃ n d', d.write bytes = (.ok n, d') ∧ n ≤ bytes.length ∧ Wrote d (bytes.take n) d' := by
  unfold write
  split
  · exact .inl ⟨_, _, rfl⟩
  · rename_i n _
    split_ifs
    · exact .inl ⟨_, _, rfl⟩
    · have htake := List.prefix_iff_eq_take.1 (List.take_prefix (min n (d.size - d.offset)) bytes)
      refine .inr ⟨_, _, rfl, List.length_take_le' _ _, ?_⟩
      rw [← htake]
      exact ⟨rfl, rfl, rfl⟩

/-- The loop that reports no error has written all the data where it stood. -/
theorem wrote_of_writeLoop (h : writeLoop fuel d data = (.ok, d')) : Wrote d data d' := by
  induction fuel generalizing d data with
  | zero => cases h
  | succ fuel ih =>
    unfold writeLoop at h
    by_cases hempty : data = []
    · rw [if_pos hempty] at h
      cases h
      subst hempty
      exact wrote_nil rfl rfl rfl
    rw [if_neg hempty] at h
    dsimp only at h
    generalize hreset : (if min kMaxWriteSize data.length % 4096 ≠ 0 then d.reset else (true, d)) =
      ready at h
    have hready : Wrote d [] ready.2 := by
      rw [← hreset]
      split_ifs
      · exact wrote_reset d
      · exact wrote_nil rfl rfl rfl
    obtain ⟨ready, d₁⟩ := ready
    dsimp only at h hready
    cases ready with
    | false => cases h
    | true =>
      rw [if_neg (by simp)] at h
      obtain ⟨e, d₂, hwrite⟩ | ⟨n, d₂, hwrite, hn, hwrote⟩ :=
        d₁.write_cases (data.take (min kMaxWriteSize data.length))
      · rw [hwrite] at h
        cases h
      · rw [hwrite] at h
        dsimp only at h
        have hle : n ≤ min kMaxWriteSize data.length := hn.trans (List.length_take_le _ _)
        rw [List.take_take, min_eq_left hle] at hwrote
        have hall := (hready.append hwrote).append (ih h)
        rw [List.nil_append, List.take_append_drop] at hall
        exact hall

/-- The device stands at a position, and differs from what it was by a layer. -/
structure Stands (old : ℕ → Byte) (pos : ℕ) (layer : Layer) (d : FlashTarget) : Prop where
  offset : d.offset = pos
  content : ∀ p, d.content p = (layer p).getD (old p)
  seeks : ∀ e ∈ d.seeks, e = none

/-- Where no seek fails, the callback writes at the place where it stands. -/
theorem places_writeCallback (old : ℕ → Byte) : Places writeCallback (Stands old) where
  skip := by
    intro pos layer d h n
    have hseek : d.seeks.headD none = none := by
      cases hseeks : d.seeks with
      | nil => rfl
      | cons e rest => exact h.seeks e (by simp [hseeks])
    refine ⟨{ d with seeks := d.seeks.tail, offset := d.offset + n }, ?_, ?_, h.content,
      fun e he => h.seeks e (List.mem_of_mem_tail he)⟩
    · rw [writeCallback, hseek]
    · rw [h.offset]
  data := by
    intro pos layer d bytes d' h hwrite
    have hwrote := wrote_of_writeLoop hwrite
    refine ⟨?_, fun p => ?_, ?_⟩
    · rw [hwrote.offset, h.offset]
    · rw [hwrote.content, h.offset]
      simp only [overwrite, Layer.put]
      split_ifs
      · rfl
      · exact h.content p
    · rw [hwrote.seeks]
      exact h.seeks

end

end FlashTarget

/-! ### The expansion of an image -/

/-- The byte that a chunk puts at a place of its region, if it puts any. -/
def SparseChunk.byte (c : SparseChunk) (i : ℕ) : Option Byte := c.backing.map fun b => b.byte i

/-- From a block on, `new` has the regions of the chunks with content and is unchanged elsewhere. -/
def Expands (blkSz : ℕ) (old new : ℕ → Byte) : ℕ → List SparseChunk → Prop
  | start, [] => ∀ p, start * blkSz ≤ p → new p = old p
  | start, c :: chunks =>
    (∀ i < c.blocks * blkSz,
      new (start * blkSz + i) = (c.byte i).getD (old (start * blkSz + i))) ∧
      Expands blkSz old new (start + c.blocks) chunks

/-- Later chunks do not reach back. -/
theorem paintChunks_of_lt {blkSz start p : ℕ} {chunks : List SparseChunk} {layer : Layer}
    (h : p < start * blkSz) : paintChunks blkSz start chunks layer p = layer p := by
  induction chunks generalizing start layer with
  | nil => rfl
  | cons c chunks ih =>
    have hlt : p < (start + c.blocks) * blkSz := by
      rw [Nat.add_mul]
      omega
    rw [paintChunks, ih hlt]
    cases c.backing with
    | none => rfl
    | some backing => exact if_neg (by omega)

theorem expands_of_painted {blkSz start : ℕ} {old new : ℕ → Byte} {chunks : List SparseChunk}
    {layer : Layer} (hlayer : ∀ p, start * blkSz ≤ p → layer p = none)
    (h : ∀ p, new p = (paintChunks blkSz start chunks layer p).getD (old p)) :
    Expands blkSz old new start chunks := by
  induction chunks generalizing start layer with
  | nil =>
    intro p hp
    rw [h p, paintChunks, hlayer p hp]
    rfl
  | cons c chunks ih =>
    rw [paintChunks] at h
    refine ⟨fun i hi => ?_, ih (fun p hp => ?_) h⟩
    · rw [h, paintChunks_of_lt (by rw [Nat.add_mul]; omega), SparseChunk.byte]
      cases c.backing with
      | none =>
        dsimp only
        rw [hlayer _ (Nat.le_add_right _ _)]
        rfl
      | some backing =>
        dsimp only [Layer.put]
        rw [if_pos (by omega), Nat.add_sub_cancel_left]
        rfl
    · rw [Nat.add_mul] at hp
      cases c.backing with
      | none => exact hlayer p (by omega)
      | some backing =>
        dsimp only [Layer.put]
        rw [if_neg (by omega)]
        exact hlayer p (by omega)

/-! ### Images for examples -/

/-- The header of an image with blocks of four bytes. -/
def imageHeader (totalBlks totalChunks : Byte) : List Byte :=
  [0x3a, 0xff, 0x26, 0xed, 1, 0, 0, 0, 28, 0, 12, 0, 4, 0, 0, 0, totalBlks, 0, 0, 0,
    totalChunks, 0, 0, 0, 0, 0, 0, 0]

/-- The header of a chunk, by the low bytes of its fields. -/
def chunkBytes (type chunkSz totalSz : Byte) : List Byte :=
  [type, 0xca, 0, 0, chunkSz, 0, 0, 0, totalSz, 0, 0, 0]

/-- One block to be left alone, and one filled. -/
def skipFillImage : List Byte :=
  imageHeader 2 2 ++ (chunkBytes 0xc3 1 12 ++ (chunkBytes 0xc2 1 16 ++ [1, 2, 3, 4]))

/-- A chunk of an unknown type, and a block to be left alone. -/
def unknownImage : List Byte := imageHeader 1 2 ++ (chunkBytes 0xc5 0 12 ++ chunkBytes 0xc3 1 12)

/-- A fill without blocks, and a filled block. -/
def emptyFillImage : List Byte :=
  imageHeader 1 2 ++ (chunkBytes 0xc2 0 16 ++ [1, 2, 3, 4] ++ (chunkBytes 0xc2 1 16 ++ [1, 2, 3, 4]))

def sampleTarget : FlashTarget where
  path := "/dev/sda"
  size := 8
  content := fun _ => 0

theorem begins_skipFillImage :
    Begins skipFillImage [] (skipFillImage.drop 28) ∧
      Begins skipFillImage [.dontCare 1] (skipFillImage.drop 40) := by
  have hbegins : Begins skipFillImage []
      (chunkBytes 0xc3 1 12 ++ [] ++ ([] ++ skipFillImage.drop 40)) := .header (by decide +kernel)
  exact ⟨hbegins, hbegins.chunk rfl (by decide +kernel) (by decide +kernel)
    (.dontCare (by decide +kernel))⟩

theorem regular_skipFillImage : Regular skipFillImage := by
  refine ⟨fun _ => by decide +kernel, fun chunks rest hbegins hlength _ => ?_⟩
  have htwo : chunks.length < 2 := hlength
  obtain h | h : chunks.length = 0 ∨ chunks.length = 1 := by omega
  · obtain ⟨rfl, rfl⟩ := hbegins.unique begins_skipFillImage.1 h
    exact ⟨by decide +kernel, by decide +kernel, by decide +kernel, by decide +kernel⟩
  · obtain ⟨rfl, rfl⟩ := hbegins.unique begins_skipFillImage.2 h
    exact ⟨by decide +kernel, by decide +kernel, by decide +kernel, by decide +kernel⟩

/-! ### Flashed images -/

/-- The image is well formed, its expansion fits into the device, and the device has it. -/
def Flashed (data : List Byte) (d d' : FlashTarget) : Prop :=
  ∃ chunks, WellFormed data chunks ∧
    (sparseHeader data).totalBlks * (sparseHeader data).blkSz ≤ d.size ∧
    Expands (sparseHeader data).blkSz d.content d'.content 0 chunks

/-- A regular image that is imported is well formed, has the length of its expansion, and is written
out without a failed assertion by every callback that puts data where it stands. -/
theorem written_of_imported {σ : Type} {write : σ → OutputPiece → Code × σ}
    {I : ℕ → Layer → σ → Prop} {st : σ} {data : List Byte} {s : SparseFile} (h : Places write I)
    (hst : I 0 (fun _ => none) st) (hregular : Regular data)
    (hok : sparseFileImportBuf data = .ok s) :
    ∃ chunks, WellFormed data chunks ∧ sparseFileLen s = .ok (s.len : ℤ) ∧
      s.len = (sparseHeader data).totalBlks * (sparseHeader data).blkSz ∧
      ∃ code st', writeAllBlocks write s st = .ok (code, st') ∧
        (code = .ok →
          I s.len (paintChunks (sparseHeader data).blkSz 0 chunks fun _ => none) st') := by
  obtain herr | ⟨s', hok', chunks, himported⟩ := yields_sparseFileImportBuf hregular
  · rw [herr] at hok
    cases hok
  obtain rfl : s = s' := Except.ok.inj (hok.symm.trans hok')
  obtain ⟨hwell, rest, hreading⟩ := himported
  have hvalid := hwell.header
  have hpos : 0 < s.blockSize := by
    rw [hreading.blockSize]
    exact Nat.pos_of_ne_zero hvalid.blkSz
  have hfour : 4 ∣ s.blockSize := by
    rw [hreading.blockSize]
    exact Nat.dvd_of_mod_eq_zero hvalid.aligned
  have hsize : s.blockSize < 2 ^ 32 := by
    rw [hreading.blockSize]
    exact blkSz_lt data
  have hlength : s.len = (sparseHeader data).totalBlks * s.blockSize := by
    rw [hreading.len, hreading.blockSize]
  have hlen : s.len < 2 ^ 63 := by
    rw [hreading.len]
    exact hregular.expansion hvalid
  have hord : Ordered s.blockSize 0 s.backedBlockList.dataBlocks (sparseHeader data).totalBlks := by
    rw [hreading.blockSize]
    exact hreading.ordered
  refine ⟨chunks, hwell, sparseFileLen_eq hord hlength hpos hfour hsize hreading.lt hlen,
    hreading.len, ?_⟩
  obtain ⟨code, st', hwrite, hdone⟩ := h.writeAllBlocks (fun _ => none) hst hord hlength hpos hfour
    hsize hreading.lt hlen
  refine ⟨code, st', hwrite, fun hcode => ?_⟩
  have hdone' := hdone hcode
  rw [hreading.blockSize, hreading.painted] at hdone'
  exact hdone'

/-- The code of a flash and what is then on the first eight bytes of the device. -/
def flashOutcome (d : FlashTarget) (data : List Byte) : Except Fault (Code × List Byte) :=
  (d.flashSparseData data).map fun r => (r.1, (List.range 8).map r.2.content)

/-- No chunks are read where there is one of an unknown type. -/
theorem not_wellFormed_unknownImage (chunks : List SparseChunk) :
    ¬ WellFormed unknownImage chunks := by
  intro h
  have hbegins : Begins unknownImage [] (unknownImage.drop 28) := .header (by decide +kernel)
  have htwo : chunks.length = 2 := h.length
  obtain ⟨rest, hchunks⟩ := h.begins
  obtain ⟨rfl, -⟩ | ⟨before, c₂, _, _, _, rfl, hbefore, -⟩ := hchunks.cases
  · cases htwo
  obtain ⟨rfl, -⟩ | ⟨first, c₁, header, extra, payload, rfl, hfirst, hheader, -, hencodes⟩ :=
    hbefore.cases
  · cases htwo
  have hnil : first.length = 0 := by simpa using htwo
  obtain ⟨-, hrest⟩ := hbegins.unique hfirst hnil.symm
  have hbytes : header = chunkBytes 0xc5 0 12 := by
    have := congrArg (List.take kChunkHeaderLen) hrest
    rw [List.append_assoc, ← hheader, List.take_left] at this
    rw [← this, hheader]
    rfl
  rw [hbytes] at hencodes
  cases hencodes with
  | raw htype => exact absurd htype (by decide +kernel)
  | fill htype => exact absurd htype (by decide +kernel)
  | dontCare htype => exact absurd htype (by decide +kernel)
  | crc32 htype => exact absurd htype (by decide +kernel)

end RpiFastbootd
