import RpiFastbootd.Libsparse.Reader

/-!
# Writing out a sparse file

`write_all_blocks` goes through the blocks of a file in their order and calls a callback for each
region: with data, or with nothing to skip it.  An error of the callback ends the loop where data is
written, and is lost where a region is skipped.  `sparse_file_len` counts the bytes in this way, and
`sparse_file_callback` writes them.
-/

namespace RpiFastbootd

/-- What a callback is called with: data, or the length of a region to skip. -/
inductive OutputPiece
  | data (bytes : List Byte)
  | skip (len : ℕ)
  deriving DecidableEq, Repr

/-- A return code; an error number is given by its text. -/
inductive Code
  | ok
  | einval
  | efbig
  | eio
  | errno (text : String)
  deriving DecidableEq, Repr

/-- The lengths in which `n` bytes are taken, at most `max` at a time. -/
def pieces (max n : ℕ) : List ℕ :=
  List.replicate (n / max) max ++ if n % max = 0 then [] else [n % max]

def kIntMax : ℕ := 2 ^ 31 - 1

def kFillZeroBufSize : ℕ := 2 * 1024 * 1024

/-- The buffer of a fill chunk. -/
def fillBytes (val : List Byte) (n : ℕ) : List Byte :=
  (List.range n).map (Backing.fill val).byte

section

variable {σ : Type} (write : σ → OutputPiece → Code × σ)

/-- Calls one after the other, up to the first error. -/
def writeEach : List OutputPiece → σ → Code × σ
  | [], st => (.ok, st)
  | p :: rest, st =>
    match write st p with
    | (.ok, st) => writeEach rest st
    | (e, st) => (e, st)

/-- `callback_file_skip`. -/
def callbackFileSkip (off : ℕ) (st : σ) : Code × σ :=
  writeEach write ((pieces kIntMax off).map .skip) st

/-- `DIV_ROUND_UP` of a 64-bit length. -/
def divRoundUp (len blockSize : ℕ) : ℕ := wrap (len + blockSize - 1) / blockSize

/-- `write_normal_data_chunk`. -/
def writeNormalDataChunk (blockSize : ℕ) (bytes : List Byte) (len : ℕ) (st : σ) : Code × σ :=
  match write st (.data bytes) with
  | (.ok, st) =>
    if len < blockSize * divRoundUp len blockSize then
      callbackFileSkip write (blockSize * divRoundUp len blockSize - len) st
    else (.ok, st)
  | (e, st) => (e, st)

/-- `write_normal_fill_chunk`. -/
def writeNormalFillChunk (val : List Byte) (len : ℕ) (st : σ) : Code × σ :=
  writeEach write ((pieces kFillZeroBufSize len).map fun n => .data (fillBytes val n)) st

/-- `sparse_file_write_block`. -/
def sparseFileWriteBlock (blockSize : ℕ) (bb : BackedBlock) (st : σ) : Code × σ :=
  match bb.backing with
  | .data bytes => writeNormalDataChunk write blockSize bytes bb.len st
  | .fill val => writeNormalFillChunk write val bb.len st

/-- The skip before a block, whose code `write_all_blocks` does not look at. -/
def skipGap (blockSize lastBlock block : ℕ) (st : σ) : Except Fault σ :=
  if lastBlock < block then do
    let off ← signedProduct (block - lastBlock) blockSize
    return (callbackFileSkip write off st).2
  else return st

/-- The loop of `write_all_blocks`: the code, the state and the block after the last one. -/
def writeBlocks (blockSize : ℕ) :
    List BackedBlock → ℕ → σ → Except Fault (Code × σ × ℕ)
  | [], lastBlock, st => return (.ok, st, lastBlock)
  | bb :: rest, lastBlock, st => do
    let st ← skipGap write blockSize lastBlock bb.block st
    match sparseFileWriteBlock write blockSize bb st with
    | (.ok, st) =>
      writeBlocks blockSize rest ((bb.block + divRoundUp bb.len blockSize) % 2 ^ 32) st
    | (e, st) => return (e, st, lastBlock)

/-- `write_all_blocks`. -/
def writeAllBlocks (s : SparseFile) (st : σ) : Except Fault (Code × σ) := do
  match ← writeBlocks write s.blockSize s.backedBlockList.dataBlocks 0 st with
  | (.ok, st, lastBlock) =>
    let used ← signedProduct lastBlock s.blockSize
    if s.len < used then throw .assertion
    else if used < s.len then return (.ok, (callbackFileSkip write (s.len - used) st).2)
    else return (.ok, st)
  | (e, st, _) => return (e, st)

end

def OutputPiece.length : OutputPiece → ℕ
  | data bytes => bytes.length
  | skip len => len

/-- `out_counter_write`. -/
def outCounterWrite (count : ℕ) (p : OutputPiece) : Code × ℕ := (.ok, wrap (count + p.length))

/-- `sparse_file_len` of the expansion; -1 for an error. -/
def sparseFileLen (s : SparseFile) : Except Fault ℤ := do
  match ← writeAllBlocks outCounterWrite s 0 with
  | (.ok, count) => return (BitVec.ofNat 64 count).toInt
  | (_, _) => return -1

/-! ### A callback that follows the output

`I pos layer st` stands for: the callback has come to the position `pos`, and what has been written
so far is `layer`. -/

/-- A callback whose skips do not fail and whose data goes where it stands. -/
structure Places {σ : Type} (write : σ → OutputPiece → Code × σ) (I : ℕ → Layer → σ → Prop) :
    Prop where
  skip : ∀ {pos layer st}, I pos layer st → ∀ n,
    ∃ st', write st (.skip n) = (.ok, st') ∧ I (pos + n) layer st'
  data : ∀ {pos layer st bytes st'}, I pos layer st → write st (.data bytes) = (.ok, st') →
    I (pos + bytes.length) (layer.put pos bytes.length (bytes.getD · 0)) st'

theorem sum_pieces (max n : ℕ) : (pieces max n).sum = n := by
  have hdiv := Nat.div_add_mod n max
  unfold pieces
  rw [List.sum_append, List.sum_replicate_nat, Nat.mul_comm]
  split_ifs with h
  · simpa [h] using hdiv
  · simpa using hdiv

theorem four_dvd_of_mem_pieces {max n m : ℕ} (hmax : 4 ∣ max) (hn : 4 ∣ n) (h : m ∈ pieces max n) :
    4 ∣ m := by
  unfold pieces at h
  obtain h | h := List.mem_append.1 h
  · rw [List.eq_of_mem_replicate h]
    exact hmax
  · split_ifs at h
    · cases h
    · rw [List.mem_singleton.1 h]
      exact (Nat.dvd_mod_iff hmax).2 hn

/-- A fill goes on with its pattern behind a whole number of words. -/
theorem put_fill_put {layer : Layer} {val : List Byte} {pos m n : ℕ} (h : 4 ∣ m) :
    (layer.put pos m (Backing.fill val).byte).put (pos + m) n (Backing.fill val).byte =
      layer.put pos (m + n) (Backing.fill val).byte := by
  funext p
  simp only [Layer.put]
  by_cases hsecond : pos + m ≤ p ∧ p < pos + m + n
  · rw [if_pos hsecond, if_pos (by omega)]
    have hmod : (p - (pos + m)) % 4 = (p - pos) % 4 := by
      omega
    simp only [Backing.byte, hmod]
  · rw [if_neg hsecond]
    by_cases hfirst : pos ≤ p ∧ p < pos + m
    · rw [if_pos hfirst, if_pos (by omega)]
    · rw [if_neg hfirst, if_neg (by omega)]

theorem put_fillBytes {layer : Layer} {val : List Byte} {pos n : ℕ} :
    layer.put pos (fillBytes val n).length ((fillBytes val n).getD · 0) =
      layer.put pos n (Backing.fill val).byte := by
  have hlength : (fillBytes val n).length = n := by simp [fillBytes]
  funext p
  simp only [Layer.put, hlength]
  by_cases h : pos ≤ p ∧ p < pos + n
  · rw [if_pos h, if_pos h]
    have hlt : p - pos < n := by omega
    simp [fillBytes, List.getD_eq_getElem?_getD, List.getElem?_map, List.getElem?_range hlt]
  · rw [if_neg h, if_neg h]

section

variable {σ : Type} {write : σ → OutputPiece → Code × σ} {I : ℕ → Layer → σ → Prop} {pos : ℕ}
  {layer : Layer} {st st' : σ}

theorem Places.skips (h : Places write I) (hst : I pos layer st) (lens : List ℕ) :
    ∃ st', writeEach write (lens.map .skip) st = (.ok, st') ∧ I (pos + lens.sum) layer st' := by
  induction lens generalizing pos st with
  | nil => exact ⟨st, rfl, hst⟩
  | cons n lens ih =>
    obtain ⟨st₁, hskip, hst₁⟩ := h.skip hst n
    obtain ⟨st₂, hrest, hst₂⟩ := ih hst₁
    refine ⟨st₂, ?_, ?_⟩
    · rw [List.map_cons, writeEach, hskip]
      exact hrest
    · rw [List.sum_cons, ← Nat.add_assoc]
      exact hst₂

theorem Places.callbackFileSkip (h : Places write I) (hst : I pos layer st) (off : ℕ) :
    ∃ st', RpiFastbootd.callbackFileSkip write off st = (.ok, st') ∧ I (pos + off) layer st' := by
  obtain ⟨st', hskip, hst'⟩ := h.skips hst (pieces kIntMax off)
  rw [sum_pieces] at hst'
  exact ⟨st', hskip, hst'⟩

theorem Places.fills (h : Places write I) (hst : I pos layer st) {val : List Byte}
    {lens : List ℕ} (hfour : ∀ n ∈ lens, 4 ∣ n)
    (hok : writeEach write (lens.map fun n => .data (fillBytes val n)) st = (.ok, st')) :
    I (pos + lens.sum) (layer.put pos lens.sum (Backing.fill val).byte) st' := by
  induction lens generalizing pos layer st with
  | nil =>
    cases hok
    have hempty : layer.put pos 0 (Backing.fill val).byte = layer := by
      funext p
      exact if_neg (by omega)
    rw [List.sum_nil, hempty]
    exact hst
  | cons n lens ih =>
    rw [List.forall_mem_cons] at hfour
    rw [List.map_cons, writeEach] at hok
    split at hok
    · rename_i st₁ hwrite
      have hst₁ := h.data hst hwrite
      rw [put_fillBytes, fillBytes, List.length_map, List.length_range] at hst₁
      have hrest := ih hst₁ hfour.2 hok
      rw [put_fill_put hfour.1, Nat.add_assoc, ← List.sum_cons] at hrest
      exact hrest
    · rename_i hne _
      exact absurd (congrArg Prod.fst hok) hne

/-- The blocks of a length that is a number of whole blocks. -/
theorem divRoundUp_of_dvd {blockSize len : ℕ} (hdvd : blockSize ∣ len) (hpos : 0 < blockSize)
    (hlt : len + blockSize < 2 ^ 64) : divRoundUp len blockSize = len / blockSize := by
  obtain ⟨k, rfl⟩ := hdvd
  rw [divRoundUp, wrap_of_lt (by omega), Nat.add_sub_assoc hpos, Nat.mul_add_div hpos,
    Nat.div_eq_of_lt (Nat.sub_lt hpos Nat.one_pos), Nat.add_zero, Nat.mul_div_cancel_left _ hpos]

theorem Places.writeBlock (h : Places write I) (hst : I pos layer st) {blockSize : ℕ}
    {bb : BackedBlock} (hwhole : bb.Whole blockSize) (hpos : 0 < blockSize) (hfour : 4 ∣ blockSize)
    (hlt : bb.len + blockSize < 2 ^ 64)
    (hok : sparseFileWriteBlock write blockSize bb st = (.ok, st')) :
    I (pos + bb.len) (layer.put pos bb.len bb.backing.byte) st' := by
  unfold sparseFileWriteBlock at hok
  cases hbacking : bb.backing with
  | data bytes =>
    simp only [hbacking, writeNormalDataChunk] at hok
    rw [divRoundUp_of_dvd hwhole.1 hpos hlt, Nat.mul_div_cancel' hwhole.1] at hok
    have hlength := hwhole.2 bytes hbacking
    split at hok
    · rename_i st₁ hwrite
      rw [if_neg (lt_irrefl _)] at hok
      cases hok
      rw [← hlength]
      exact h.data hst hwrite
    · rename_i hne _
      exact absurd (congrArg Prod.fst hok) hne
  | fill val =>
    simp only [hbacking, writeNormalFillChunk] at hok
    have hmem : ∀ n ∈ pieces kFillZeroBufSize bb.len, 4 ∣ n := fun n hn =>
      four_dvd_of_mem_pieces (by decide) (hfour.trans hwhole.1) hn
    have hfills := h.fills hst hmem hok
    rw [sum_pieces] at hfills
    exact hfills

theorem Places.skipGap (h : Places write I) {blockSize lastBlock block : ℕ}
    (hst : I (lastBlock * blockSize) layer st) (hle : lastBlock ≤ block)
    (hlt : block * blockSize < 2 ^ 63) :
    ∃ st', RpiFastbootd.skipGap write blockSize lastBlock block st = .ok st' ∧
      I (block * blockSize) layer st' := by
  unfold RpiFastbootd.skipGap
  by_cases hgap : lastBlock < block
  · have hproduct : (block - lastBlock) * blockSize < 2 ^ 63 :=
      lt_of_le_of_lt (Nat.mul_le_mul_right _ (Nat.sub_le _ _)) hlt
    obtain ⟨st', hskip, hst'⟩ := h.callbackFileSkip hst ((block - lastBlock) * blockSize)
    rw [← Nat.add_mul, Nat.add_sub_cancel' hle] at hst'
    refine ⟨st', ?_, hst'⟩
    rw [if_pos hgap, signedProduct, if_pos hproduct]
    show Except.ok (RpiFastbootd.callbackFileSkip write _ st).2 = _
    rw [hskip]
  · obtain rfl : lastBlock = block := by omega
    exact ⟨st, if_neg hgap, hst⟩

/-- The loop writes the blocks at their places, one after the other. -/
theorem Places.writeBlocks (h : Places write I) {blockSize lastBlock hi : ℕ}
    {l : List BackedBlock} (hst : I (lastBlock * blockSize) layer st)
    (hord : Ordered blockSize lastBlock l hi) (hpos : 0 < blockSize) (hfour : 4 ∣ blockSize)
    (hsize : blockSize < 2 ^ 32) (hhi : hi < 2 ^ 32) (hlen : hi * blockSize < 2 ^ 63) :
    ∃ code st' last, RpiFastbootd.writeBlocks write blockSize l lastBlock st =
        .ok (code, st', last) ∧
      (code = .ok → last ≤ hi ∧
        I (last * blockSize) (l.foldl (BackedBlock.paint blockSize) layer) st') := by
  induction l generalizing lastBlock layer st with
  | nil => exact ⟨.ok, st, lastBlock, rfl, fun _ => ⟨hord, hst⟩⟩
  | cons bb l ih =>
    obtain ⟨hle, hwhole, hrest⟩ := hord
    have hend : bb.block + bb.len / blockSize ≤ hi := hrest.le
    have hbytes : bb.block * blockSize + bb.len = (bb.block + bb.len / blockSize) * blockSize := by
      rw [Nat.add_mul, Nat.div_mul_cancel hwhole.1]
    have hbound : bb.block * blockSize + bb.len < 2 ^ 63 := by
      rw [hbytes]
      exact lt_of_le_of_lt (Nat.mul_le_mul_right _ hend) hlen
    obtain ⟨st₁, hskip, hst₁⟩ := h.skipGap hst hle (by omega)
    rw [RpiFastbootd.writeBlocks, hskip]
    simp only [bind, Except.bind]
    split
    · rename_i st₂ hwrite
      have hst₂ := h.writeBlock hst₁ hwhole hpos hfour (by omega) hwrite
      rw [hbytes] at hst₂
      rw [divRoundUp_of_dvd hwhole.1 hpos (by omega), Nat.mod_eq_of_lt (by omega)]
      exact ih hst₂ hrest
    · rename_i code st₂ hne _
      exact ⟨code, st₂, lastBlock, rfl, fun hok => absurd hok hne⟩

/-- A file whose blocks lie within its length is written out without a failed assertion, and if no
error is reported, its blocks have been written at their places. -/
theorem Places.writeAllBlocks (h : Places write I) {s : SparseFile} {total : ℕ} (layer : Layer)
    (hst : I 0 layer st) (hord : Ordered s.blockSize 0 s.backedBlockList.dataBlocks total)
    (hlength : s.len = total * s.blockSize) (hpos : 0 < s.blockSize) (hfour : 4 ∣ s.blockSize)
    (hsize : s.blockSize < 2 ^ 32) (htotal : total < 2 ^ 32) (hlen : s.len < 2 ^ 63) :
    ∃ code st', RpiFastbootd.writeAllBlocks write s st = .ok (code, st') ∧
      (code = .ok →
        I s.len (s.backedBlockList.dataBlocks.foldl (BackedBlock.paint s.blockSize) layer) st') := by
  rw [hlength] at hlen
  have hst₀ : I (0 * s.blockSize) layer st := by
    rw [Nat.zero_mul]
    exact hst
  obtain ⟨code, st₁, last, hblocks, hok⟩ :=
    h.writeBlocks hst₀ hord hpos hfour hsize htotal hlen
  unfold RpiFastbootd.writeAllBlocks
  rw [hblocks]
  simp only [bind, Except.bind]
  split
  · rename_i st₂ last' heq
    cases heq
    obtain ⟨hlast, hst₁⟩ := hok rfl
    have hle : last * s.blockSize ≤ s.len := by
      rw [hlength]
      exact Nat.mul_le_mul_right _ hlast
    rw [signedProduct, if_pos (by omega)]
    dsimp only
    rw [if_neg (by omega)]
    by_cases hpad : last * s.blockSize < s.len
    · obtain ⟨st₂, hskip, hst₂⟩ := h.callbackFileSkip hst₁ (s.len - last * s.blockSize)
      rw [if_pos hpad, hskip]
      refine ⟨.ok, st₂, rfl, fun _ => ?_⟩
      rw [Nat.add_sub_cancel' hle] at hst₂
      exact hst₂
    · rw [if_neg hpad]
      refine ⟨.ok, st₁, rfl, fun _ => ?_⟩
      have heq : last * s.blockSize = s.len := by omega
      rw [← heq]
      exact hst₁
  · rename_i code' st₂ last' hne heq
    cases heq
    exact ⟨code, st₁, rfl, fun hcode => absurd hcode hne⟩

/-! ### A callback without errors -/

theorem writeEach_fst (h : ∀ st p, (write st p).1 = .ok) (l : List OutputPiece) (st : σ) :
    (writeEach write l st).1 = .ok := by
  induction l generalizing st with
  | nil => rfl
  | cons p l ih =>
    rw [writeEach]
    split
    · exact ih _
    · rename_i hne heq
      exact absurd ((congrArg Prod.fst heq).symm.trans (h st p)) hne

theorem sparseFileWriteBlock_fst (h : ∀ st p, (write st p).1 = .ok) (blockSize : ℕ)
    (bb : BackedBlock) (st : σ) : (sparseFileWriteBlock write blockSize bb st).1 = .ok := by
  unfold sparseFileWriteBlock
  split
  · unfold writeNormalDataChunk
    split
    · split_ifs
      · exact writeEach_fst h _ _
      · rfl
    · rename_i hne heq
      exact absurd ((congrArg Prod.fst heq).symm.trans (h st _)) hne
  · exact writeEach_fst h _ _

theorem writeBlocks_fst (h : ∀ st p, (write st p).1 = .ok) {blockSize lastBlock last : ℕ}
    {l : List BackedBlock} {code : Code}
    (hok : RpiFastbootd.writeBlocks write blockSize l lastBlock st = .ok (code, st', last)) :
    code = .ok := by
  induction l generalizing lastBlock st with
  | nil =>
    cases hok
    rfl
  | cons bb l ih =>
    rw [RpiFastbootd.writeBlocks] at hok
    cases hskip : RpiFastbootd.skipGap write blockSize lastBlock bb.block st with
    | error fault =>
      rw [hskip] at hok
      cases hok
    | ok st₁ =>
      rw [hskip] at hok
      simp only [bind, Except.bind] at hok
      split at hok
      · exact ih hok
      · rename_i hne heq
        exact absurd ((congrArg Prod.fst heq).symm.trans
          (sparseFileWriteBlock_fst h blockSize bb st₁)) hne

theorem writeAllBlocks_fst (h : ∀ st p, (write st p).1 = .ok) {s : SparseFile} {code : Code}
    (hok : RpiFastbootd.writeAllBlocks write s st = .ok (code, st')) : code = .ok := by
  unfold RpiFastbootd.writeAllBlocks at hok
  cases hblocks : RpiFastbootd.writeBlocks write s.blockSize s.backedBlockList.dataBlocks 0 st with
  | error fault =>
    rw [hblocks] at hok
    cases hok
  | ok result =>
    obtain ⟨code', st₁, last⟩ := result
    obtain rfl := writeBlocks_fst h hblocks
    rw [hblocks] at hok
    simp only [bind, Except.bind] at hok
    unfold signedProduct at hok
    by_cases hproduct : last * s.blockSize < 2 ^ 63
    · rw [if_pos hproduct] at hok
      dsimp only at hok
      split_ifs at hok
      · cases hok
        rfl
      · cases hok
        rfl
    · rw [if_neg hproduct] at hok
      cases hok

/-- The counter adds up the lengths. -/
theorem places_outCounterWrite :
    Places outCounterWrite fun pos _ count => count = wrap pos where
  skip hst n := ⟨_, rfl, by rw [hst, OutputPiece.length, wrap_wrap_add]⟩
  data hst hwrite := by
    cases hwrite
    rw [hst, OutputPiece.length, wrap_wrap_add]

end

/-- The length of a file whose blocks lie within it. -/
theorem sparseFileLen_eq {s : SparseFile} {total : ℕ}
    (hord : Ordered s.blockSize 0 s.backedBlockList.dataBlocks total)
    (hlength : s.len = total * s.blockSize) (hpos : 0 < s.blockSize) (hfour : 4 ∣ s.blockSize)
    (hsize : s.blockSize < 2 ^ 32) (htotal : total < 2 ^ 32) (hlen : s.len < 2 ^ 63) :
    sparseFileLen s = .ok (s.len : ℤ) := by
  obtain ⟨code, count, hwrite, hcount⟩ :=
    places_outCounterWrite.writeAllBlocks (fun _ => none) (rfl : 0 = wrap 0) hord hlength hpos
      hfour hsize htotal hlen
  obtain rfl := writeAllBlocks_fst (fun _ _ => rfl) hwrite
  obtain rfl := hcount rfl
  rw [sparseFileLen, hwrite, wrap_of_lt (by omega)]
  show Except.ok _ = _
  congr 1
  rw [BitVec.toInt_eq_toNat_of_lt] <;> rw [BitVec.toNat_ofNat, Nat.mod_eq_of_lt (by omega)]
  omega

end RpiFastbootd
