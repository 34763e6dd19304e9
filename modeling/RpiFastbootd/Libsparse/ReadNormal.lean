import RpiFastbootd.Lib.Outcome
import RpiFastbootd.Libsparse.FileBlock

/-!
# Reading an image that is not sparse

`sparse_file_read_normal` reads a file block by block.  A block whose words are all the same is added
as a fill, any other block as a region of the file.  The blocks of a file that is a number of whole
blocks stand for its bytes (`sparseFileReadNormal_paints`).
-/

namespace RpiFastbootd

/-- Whether all words of a block are the first one. -/
def sameWords (buf : List Byte) (blockSize : ℕ) : Bool :=
  (List.range (blockSize / 4)).all fun i => slice buf (4 * i) 4 = slice buf 0 4

/-- What is added for the bytes that were read. -/
def backingOf (buf : List Byte) (blockSize offset : ℕ) : FileBacking :=
  if buf.length = blockSize ∧ sameWords buf blockSize then .fill (slice buf 0 4) else .fd offset

/-- The loop of `do_sparse_file_read_normal`, each round of which reads something. -/
def readNormalLoop (image : List Byte) :
    ℕ → FdSparseFile → (offset remain block : ℕ) → Except Fault FdSparseFile
  | 0, s, _, _, _ => return s
  | fuel + 1, s, offset, remain, block =>
    if remain = 0 then return s
    else
      let toRead := min remain s.blockSize
      if image.length < offset + toRead then throw .rejected
      else do
        let buf := slice image offset toRead
        let s ← s.add (backingOf buf s.blockSize offset) toRead block
        readNormalLoop image fuel s (offset + toRead) (remain - toRead) ((block + 1) % 2 ^ 32)

/-- `sparse_file_read_normal`. -/
def sparseFileReadNormal (image : List Byte) (s : FdSparseFile) : Except Fault FdSparseFile :=
  readNormalLoop image s.len s 0 s.len 0

def kRawBlockSize : ℕ := 4096

/-- `sparse_file_import_auto`, for a file that is not a sparse image. -/
def sparseFileImportRaw (image : List Byte) : Except Fault FdSparseFile :=
  sparseFileReadNormal image { blockSize := kRawBlockSize, len := image.length }

/-! ### One block -/

section

variable {image buf : List Byte} {blockSize : ℕ}

theorem length_slice {pos len : ℕ} (h : pos + len ≤ image.length) :
    (slice image pos len).length = len := by
  rw [slice, List.length_take, List.length_drop]
  omega

theorem getD_slice {pos len i : ℕ} (h : i < len) :
    (slice image pos len).getD i 0 = image.getD (pos + i) 0 := by
  simp only [slice, List.getD_eq_getElem?_getD, List.getElem?_take_of_lt h, List.getElem?_drop]

/-- A block whose words are all the same has the bytes of its first word over and over. -/
theorem getD_of_sameWords (hsame : sameWords buf blockSize = true) (hfour : 4 ∣ blockSize) {i : ℕ}
    (hi : i < blockSize) : buf.getD i 0 = (slice buf 0 4).getD (i % 4) 0 := by
  have hmod : i % 4 < 4 := Nat.mod_lt _ (by decide)
  have hword : slice buf (4 * (i / 4)) 4 = slice buf 0 4 := by
    have hall := List.all_eq_true.1 hsame (i / 4) (List.mem_range.2 (by omega))
    exact of_decide_eq_true hall
  have hbyte := @getD_slice buf (4 * (i / 4)) 4 _ hmod
  rw [hword, Nat.div_add_mod] at hbyte
  exact hbyte.symm

/-- A painted region that goes on. -/
theorem put_put {layer : Layer} {m n : ℕ} {f g : ℕ → Byte} (h : ∀ i < n, g i = f (m + i)) :
    (layer.put 0 m f).put m n g = layer.put 0 (m + n) f := by
  funext p
  simp only [Layer.put]
  by_cases hsecond : m ≤ p ∧ p < m + n
  · rw [if_pos hsecond, if_pos (by omega), h _ (by omega), Nat.sub_zero, Nat.add_sub_cancel' hsecond.1]
  · rw [if_neg hsecond]
    by_cases hfirst : p < m
    · rw [if_pos (by omega), if_pos (by omega)]
    · rw [if_neg (by omega), if_neg (by omega)]

/-- What is added for one block: it is whole, and has the bytes of the file. -/
theorem backingOf_spec (hfour : 4 ∣ blockSize) (hpos : 0 < blockSize) {offset : ℕ} (block : ℕ)
    (hinside : offset + blockSize ≤ image.length) :
    let new : FileBlock := ⟨block, blockSize,
      backingOf (slice image offset blockSize) blockSize offset⟩
    new.Sound ∧ (new.load image).Whole blockSize ∧
      ∀ i < blockSize, (new.load image).backing.byte i = image.getD (offset + i) 0 := by
  intro new
  have hlength : (slice image offset blockSize).length = blockSize := length_slice hinside
  by_cases hsame : sameWords (slice image offset blockSize) blockSize = true
  · have hnew : new.backing = .fill (slice (slice image offset blockSize) 0 4) :=
      if_pos ⟨hlength, hsame⟩
    refine ⟨⟨hpos, fun val hval => ?_⟩, ⟨dvd_rfl, fun bytes hdata => ?_⟩, fun i hi => ?_⟩
    · rw [hnew] at hval
      cases hval
      have := Nat.le_of_dvd hpos hfour
      exact length_slice (by omega)
    · simp [FileBlock.load, hnew] at hdata
    · simp only [FileBlock.load, hnew, Backing.byte]
      rw [← getD_of_sameWords hsame hfour hi, getD_slice hi]
  · have hnew : new.backing = .fd offset := if_neg fun h => hsame h.2
    refine ⟨⟨hpos, fun val hval => ?_⟩, ⟨dvd_rfl, fun bytes hdata => ?_⟩, fun i hi => ?_⟩
    · rw [hnew] at hval
      cases hval
    · simp only [FileBlock.load, hnew, Backing.data.injEq] at hdata
      rw [← hdata]
      exact hlength
    · simp only [FileBlock.load, hnew, Backing.byte]
      exact getD_slice hi

end

/-! ### The loop -/

/-- The first `k` blocks of the file have been read. -/
structure ReadUpTo (image : List Byte) (s : FdSparseFile) (k : ℕ) : Prop where
  laid : Laid image s.blockSize 0 s.dataBlocks k
  painted : ∀ layer, paintFile image s.blockSize s.dataBlocks layer =
    layer.put 0 (k * s.blockSize) (image.getD · 0)

section

variable {image : List Byte} {s : FdSparseFile} {k n : ℕ}

/-- One block more is read. -/
theorem ReadUpTo.step (h : ReadUpTo image s k) (hfour : 4 ∣ s.blockSize) (hpos : 0 < s.blockSize)
    (hlength : image.length = n * s.blockSize) (hk : k < n) (hn : n < 2 ^ 32)
    (hbytes : n * s.blockSize < 2 ^ 63) :
    ∃ s', s.add (backingOf (slice image (k * s.blockSize) s.blockSize) s.blockSize
        (k * s.blockSize)) s.blockSize k = .ok s' ∧
      s'.blockSize = s.blockSize ∧ s'.len = s.len ∧ ReadUpTo image s' (k + 1) := by
  have hle : (k + 1) * s.blockSize ≤ n * s.blockSize := Nat.mul_le_mul_right _ hk
  have hsucc : (k + 1) * s.blockSize = k * s.blockSize + s.blockSize := Nat.succ_mul _ _
  obtain ⟨hsound, hwhole, hbyte⟩ :=
    @backingOf_spec image s.blockSize hfour hpos (k * s.blockSize) k (by omega)
  obtain ⟨l, used, hadd, hlaid, hpaint⟩ := FdSparseFile.add_laid h.laid le_rfl hsound hwhole hfour
    hpos (hk.trans hn) (by omega) (by omega)
  rw [Nat.div_self hpos] at hlaid
  refine ⟨_, hadd, rfl, rfl, hlaid, fun layer => ?_⟩
  rw [hpaint layer, h.painted layer, hsucc]
  exact put_put hbyte

theorem ReadUpTo.readNormalLoop (h : ReadUpTo image s k) (hfour : 4 ∣ s.blockSize)
    (hpos : 0 < s.blockSize) (hlength : image.length = n * s.blockSize) (hn : n < 2 ^ 32)
    (hbytes : n * s.blockSize < 2 ^ 63) {m fuel : ℕ} (hm : k + m = n) (hfuel : m ≤ fuel) :
    ∃ s', RpiFastbootd.readNormalLoop image fuel s (k * s.blockSize) (m * s.blockSize) k = .ok s' ∧
      s'.blockSize = s.blockSize ∧ s'.len = s.len ∧ ReadUpTo image s' n := by
  induction fuel generalizing s k m with
  | zero =>
    obtain rfl : m = 0 := by omega
    obtain rfl : k = n := by omega
    exact ⟨s, rfl, rfl, rfl, h⟩
  | succ fuel ih =>
    cases m with
    | zero =>
      obtain rfl : k = n := by omega
      refine ⟨s, ?_, rfl, rfl, h⟩
      rw [RpiFastbootd.readNormalLoop, Nat.zero_mul, if_pos rfl]
      rfl
    | succ m =>
      obtain ⟨s', hadd, hsize, hlen, hnext⟩ := h.step hfour hpos hlength (by omega) hn hbytes
      have hmul : (m + 1) * s.blockSize = m * s.blockSize + s.blockSize := Nat.succ_mul _ _
      have hmin : min ((m + 1) * s.blockSize) s.blockSize = s.blockSize := by
        rw [hmul]
        exact min_eq_right (Nat.le_add_left _ _)
      have hle : (k + 1) * s.blockSize ≤ n * s.blockSize := Nat.mul_le_mul_right _ (by omega)
      have hsucc : (k + 1) * s.blockSize = k * s.blockSize + s.blockSize := Nat.succ_mul _ _
      obtain ⟨s'', hloop, hsize', hlen', hread⟩ := ih hnext (by rw [hsize]; exact hfour)
        (by rw [hsize]; exact hpos) (by rw [hsize]; exact hlength) (by rw [hsize]; exact hbytes)
        (by omega : k + 1 + m = n) (by omega)
      refine ⟨s'', ?_, hsize'.trans hsize, hlen'.trans hlen, hread⟩
      rw [RpiFastbootd.readNormalLoop, if_neg (by omega)]
      dsimp only
      rw [hmin, if_neg (by omega), hadd, ok_bind, Nat.mod_eq_of_lt (by omega), ← hsucc,
        hmul, Nat.add_sub_cancel, ← hsize]
      exact hloop

end

/-- The blocks that are read from a file of whole blocks lie one after the other, and stand for the
bytes of the file. -/
theorem sparseFileReadNormal_paints {image : List Byte} {blockSize n : ℕ} (hfour : 4 ∣ blockSize)
    (hpos : 0 < blockSize) (hlength : image.length = n * blockSize) (hn : n < 2 ^ 32)
    (hbytes : n * blockSize < 2 ^ 63) :
    ∃ s, sparseFileReadNormal image { blockSize := blockSize, len := n * blockSize } = .ok s ∧
      s.blockSize = blockSize ∧ s.len = n * blockSize ∧ ReadUpTo image s n := by
  have hempty : ReadUpTo image { blockSize := blockSize, len := n * blockSize } 0 := by
    refine ⟨⟨le_rfl, fun bb hbb => by cases hbb⟩, fun layer => ?_⟩
    funext p
    exact (if_neg (by omega)).symm
  have hloop := hempty.readNormalLoop hfour hpos hlength hn hbytes (Nat.zero_add n)
    (Nat.le_mul_of_pos_right n hpos)
  rw [Nat.zero_mul] at hloop
  exact hloop

end RpiFastbootd
