import RpiFastbootd.Fastboot.OemReplies

/-!
# Staging a file

`oem upload-file` cuts the length of the file to an `int`, and its loop goes on while `fread` gives
nothing.  It stages the whole file if the length fits into an `int` and `fread` gives all of it; it
refuses a file whose length is cut to zero (`upload_file_exact_iff`).
-/

namespace RpiFastbootd

open FastbootDevice

/-- The length of a file as the handler has it. -/
def intSize (contents : List Byte) : ℤ := (contents.length : ℤ).bmod (2 ^ 32)

/-- Results of `fread` on a file: its bytes one after the other, and no more than are asked for.  A
call may give nothing, at the end of the file or on an error. -/
structure FreadResults (contents : List Byte) where
  chunks : List (List Byte)
  pieces : chunks.flatten <+: contents.take (intSize contents).toNat

/-- What has been seen of a run: that the answers are those of the file, and that OKAY was sent. -/
structure UploadSeen where
  asFile : Prop := True
  okay : Bool := false

/-- The answers about the file have its length and the results of `fread`, and nothing throws. -/
def fileMonitor (contents : List Byte) (chunks : List (List Byte)) :
    Monitor Call Call.Answer UploadSeen where
  safe _ _ := True
  next g
    | .query (.ftell _), .ok position => { g with asFile := g.asFile ∧ position = contents.length }
    | .query (.freads ..), .ok read => { g with asFile := g.asFile ∧ read = chunks }
    | .query _, .error _ => { g with asFile := False }
    | .write (.status r), _ => { g with okay := g.okay || decide (r.result = .okay) }
    | _, _ => g

/-- The command has returned, and if it has sent OKAY the staged buffer is the file. -/
def StagesWhole (contents : List Byte) (r : Except Stop Bool) (d : FastbootDevice)
    (g : UploadSeen) : Prop :=
  g.asFile → (∃ b, r = .ok b) ∧ (g.okay = true → d.downloadData = contents)

def UploadsExactly (contents : List Byte) (results : FreadResults contents) (path : String)
    (rest : List String) : Prop :=
  ∀ d, Meets (fileMonitor contents results.chunks)
    (oemCmdUploadFile ("oem" :: "upload-file" :: path :: rest)) d {} (StagesWhole contents)

/-- The command from where it has the length. -/
def stageFile (path : String) (size : ℤ) : DeviceM Bool := do
  if size = 0 then writeFail "Filesize zero. Will not upload empty file"
  else do
    ask (.allocate size)
    if size < 0 then Prog.stop (.threw "vector::_M_default_append")
    else do
      Prog.update fun d => { d with downloadData := resize size.toNat d.downloadData }
      match freadLoop size.toNat [] (← ask (.freads path size.toNat)) with
      | none => Prog.stop .hangs
      | some bytes => do
        Prog.update fun d => { d with downloadData := bytes }
        writeOkay "Write Successful!"

theorem oemCmdUploadFile_eq (path : String) (rest : List String) :
    oemCmdUploadFile ("oem" :: "upload-file" :: path :: rest) = (do
      match ← ask (.fopen path) with
      | .error errno => writeFail ("Error opening file, ERRNO: " ++ toString errno)
      | .ok () => stageFile path ((← ask (.ftell path)).bmod (2 ^ 32))) := by
  unfold oemCmdUploadFile
  rw [if_neg (by simp), arg_of_lt (by simp), pure_bind]
  rfl

section

variable {size : ℕ} {read : List Byte} {chunks : List (List Byte)} {contents : List Byte}

/-- The loop reads up to the size, or hangs. -/
theorem freadLoop_eq (hle : read.length + chunks.flatten.length ≤ size) :
    freadLoop size read chunks =
      if size ≤ read.length + chunks.flatten.length then some (read ++ chunks.flatten) else none := by
  induction chunks generalizing read with
  | nil =>
    rw [freadLoop, List.flatten_nil, List.append_nil]
    rfl
  | cons chunk rest ih =>
    rw [List.flatten_cons, List.length_append] at hle ⊢
    rw [freadLoop]
    by_cases hfull : size ≤ read.length
    · have hchunk : chunk = [] := List.eq_nil_of_length_eq_zero (by omega)
      have hrest : rest.flatten = [] := List.eq_nil_of_length_eq_zero (by omega)
      rw [if_pos hfull, if_pos (by omega), hchunk, hrest, List.append_nil, List.append_nil]
    · rw [if_neg hfull, List.take_of_length_le (by omega),
        ih (by rw [List.length_append]; omega), List.length_append, List.append_assoc,
        Nat.add_assoc]

/-! ### Runs on a file -/

variable {d : FastbootDevice} {g : UploadSeen} {path : String} {rest : List String}

theorem next_fopen (answer : Except ℕ Unit) :
    (fileMonitor contents chunks).next g (.query (.fopen path)) (.ok answer) = g := rfl

theorem next_ftell (position : ℤ) :
    (fileMonitor contents chunks).next g (.query (.ftell path)) (.ok position) =
      { g with asFile := g.asFile ∧ position = contents.length } := rfl

theorem next_allocate (size : ℤ) :
    (fileMonitor contents chunks).next g (.query (.allocate size)) (.ok ()) = g := rfl

theorem next_freads (read : List (List Byte)) :
    (fileMonitor contents chunks).next g (.query (.freads path size)) (.ok read) =
      { g with asFile := g.asFile ∧ read = chunks } := rfl

theorem next_error (q : Query) (what : String) :
    ¬ ((fileMonitor contents chunks).next g (.query q) (.error what)).asFile := by
  cases q <;> exact id

/-- Runs with other answers do not matter. -/
theorem meets_of_not_asFile {m : DeviceM Bool} (h : ¬ g.asFile) :
    Meets (fileMonitor contents chunks) m d g (StagesWhole contents) := by
  induction m generalizing d g with
  | ret a => exact fun hfile => absurd hfile h
  | stop e => exact fun hfile => absurd hfile h
  | get k ih => exact ih d h
  | put d' k ih => exact ih h
  | call c k ih =>
    refine ⟨trivial, fun a => ih a ?_⟩
    unfold fileMonitor
    dsimp only
    split
    · exact fun hfile => h hfile.1
    · exact fun hfile => h hfile.1
    · exact id
    · exact h
    · exact h

theorem meets_writeStatus_stages {result : FastbootResult} {message : String} (hfile : g.asFile)
    (hokay : g.okay = false) :
    Meets (fileMonitor contents chunks) (writeStatus result message) d g (StagesWhole contents) ↔
      (result = .okay → d.downloadData = contents) := by
  have hnext : ∀ b, ((fileMonitor contents chunks).next g
      (.write (.status ⟨result, clip result message⟩)) b).okay = decide (result = .okay) := by
    intro b
    change (g.okay || decide (result = .okay)) = decide (result = .okay)
    rw [hokay, Bool.false_or]
  rw [meets_writeStatus_iff]
  constructor
  · intro h hresult
    exact (h.2.1 hfile).2 ((hnext true).trans (decide_eq_true hresult))
  · intro h
    exact ⟨trivial, fun _ => ⟨⟨true, rfl⟩, fun hsent => h (of_decide_eq_true (hnext true ▸ hsent))⟩,
      fun _ => ⟨⟨false, rfl⟩, fun hsent => h (of_decide_eq_true (hnext false ▸ hsent))⟩⟩

theorem meets_stageFile_iff {size : ℤ} (hfile : g.asFile) (hokay : g.okay = false) :
    Meets (fileMonitor contents chunks) (stageFile path size) d g (StagesWhole contents) ↔
      size = 0 ∨ 0 < size ∧ freadLoop size.toNat [] chunks = some contents := by
  unfold stageFile
  by_cases hzero : size = 0
  · rw [if_pos hzero]
    exact iff_of_true ((meets_writeStatus_stages hfile hokay).2 fun h => (by cases h)) (.inl hzero)
  rw [if_neg hzero, meets_bind, meets_ask_iff]
  by_cases hneg : size < 0
  · refine iff_of_false (fun h => ?_) (fun h => by omega)
    have hroom := h.2.1 ()
    dsimp only at hroom
    rw [if_pos hneg] at hroom
    obtain ⟨⟨b, hb⟩, -⟩ := hroom hfile
    cases hb
  · have hpos : 0 < size := by omega
    rw [or_iff_right hzero, and_iff_right hpos]
    constructor
    · intro h
      have hroom := h.2.1 ()
      dsimp only at hroom
      rw [if_neg hneg, meets_bind, meets_update] at hroom
      dsimp only at hroom
      rw [meets_bind] at hroom
      have hread := (meets_ask_iff.1 hroom).2.1 chunks
      have hfile' : g.asFile ∧ chunks = chunks := ⟨hfile, rfl⟩
      rw [next_allocate, next_freads] at hread
      dsimp only at hread
      cases hloop : freadLoop size.toNat [] chunks with
      | none =>
        rw [hloop] at hread
        obtain ⟨⟨b, hb⟩, -⟩ := hread hfile'
        cases hb
      | some bytes =>
        rw [hloop] at hread
        dsimp only at hread
        rw [meets_bind, meets_update] at hread
        have hwhole := (meets_writeStatus_stages
          (g := { g with asFile := g.asFile ∧ chunks = chunks }) hfile' hokay).1 hread rfl
        exact congrArg some hwhole
    · intro hloop
      refine ⟨trivial, fun _ => ?_, fun what hfile => absurd hfile (next_error _ what)⟩
      dsimp only
      rw [if_neg hneg, meets_bind, meets_update]
      dsimp only
      rw [meets_bind]
      refine meets_ask_iff.2 ⟨trivial, fun read => ?_,
        fun what hfile => absurd hfile (next_error _ what)⟩
      rw [next_allocate, next_freads]
      by_cases hread : read = chunks
      · subst hread
        have hfile' : g.asFile ∧ read = read := ⟨hfile, rfl⟩
        dsimp only
        rw [hloop]
        dsimp only
        rw [meets_bind, meets_update]
        exact (meets_writeStatus_stages (g := { g with asFile := g.asFile ∧ read = read })
          hfile' hokay).2 fun _ => rfl
      · exact meets_of_not_asFile fun hfile' => hread hfile'.2

theorem uploadsExactly_iff {results : FreadResults contents} :
    UploadsExactly contents results path rest ↔
      intSize contents = 0 ∨ 0 < intSize contents ∧
        freadLoop (intSize contents).toNat [] results.chunks = some contents := by
  unfold UploadsExactly
  rw [oemCmdUploadFile_eq]
  unfold intSize
  generalize hposition : (contents.length : ℤ) = position
  have hstart : ({} : UploadSeen).asFile ∧ position = contents.length := ⟨trivial, hposition.symm⟩
  constructor
  · intro h
    have hopened := (meets_ask_iff.1 (meets_bind.1 (h {}))).2.1 (.ok ())
    dsimp only at hopened
    rw [meets_bind, next_fopen] at hopened
    have hstage := (meets_ask_iff.1 hopened).2.1 position
    rw [next_ftell] at hstage
    exact (meets_stageFile_iff hstart rfl).1 hstage
  · intro h d
    rw [meets_bind]
    refine meets_ask_iff.2 ⟨trivial, fun answer => ?_,
      fun what hfile => absurd hfile (next_error _ what)⟩
    rw [next_fopen]
    cases answer with
    | error errno => exact (meets_writeStatus_stages trivial rfl).2 fun h => (by cases h)
    | ok =>
      dsimp only
      rw [meets_bind]
      refine meets_ask_iff.2 ⟨trivial, fun position' => ?_,
        fun what hfile => absurd hfile (next_error _ what)⟩
      rw [next_ftell]
      by_cases hsame : position' = contents.length
      · rw [hsame, hposition]
        exact (meets_stageFile_iff (And.intro trivial rfl) rfl).2 h
      · exact meets_of_not_asFile fun hfile => hsame hfile.2

/-- The length that the handler has, and what the loop can read of the file. -/
theorem intSize_of_lt (h : contents.length < 2 ^ 31) : intSize contents = contents.length := by
  unfold intSize
  rw [Int.bmod_def]
  omega

theorem intSize_eq_zero_iff : intSize contents = 0 ↔ contents.length % 2 ^ 32 = 0 := by
  unfold intSize
  rw [Int.bmod_def]
  omega

theorem intSize_lt (contents : List Byte) : intSize contents < 2 ^ 31 := by
  unfold intSize
  rw [Int.bmod_def]
  omega

theorem loop_whole_iff {results : FreadResults contents} :
    0 < intSize contents ∧
        freadLoop (intSize contents).toNat [] results.chunks = some contents ↔
      0 < intSize contents ∧ contents.length < 2 ^ 31 ∧
        contents.length ≤ results.chunks.flatten.length := by
  refine and_congr_right fun hpos => ?_
  have hlt := intSize_lt contents
  have hle : results.chunks.flatten.length ≤ (intSize contents).toNat :=
    results.pieces.length_le.trans (List.length_take_le _ _)
  rw [freadLoop_eq (by rw [List.length_nil, Nat.zero_add]; exact hle)]
  rw [List.length_nil, Nat.zero_add, List.nil_append]
  constructor
  · intro h
    split_ifs at h
    have hwhole : results.chunks.flatten = contents := Option.some.inj h
    rw [hwhole] at hle ⊢
    exact ⟨by omega, le_rfl⟩
  · rintro ⟨hsmall, hall⟩
    have hsize := intSize_of_lt hsmall
    rw [if_pos (by omega)]
    have hpieces := results.pieces
    rw [hsize, Int.toNat_natCast, List.take_length] at hpieces
    exact congrArg some (hpieces.eq_of_length_le hall)

end

/-- On a file, `oem upload-file` returns and stages all of it before an OKAY exactly if the length is
a multiple of 2^32, or below 2^31 and `fread` gives all the bytes. -/
theorem upload_file_exact_iff (contents : List Byte) (results : FreadResults contents)
    (path : String) (rest : List String) :
    UploadsExactly contents results path rest ↔
      contents.length % 2 ^ 32 = 0 ∨
        contents.length < 2 ^ 31 ∧ contents.length ≤ results.chunks.flatten.length := by
  rw [uploadsExactly_iff, loop_whole_iff, intSize_eq_zero_iff]
  by_cases hzero : contents.length % 2 ^ 32 = 0
  · exact iff_of_true (.inl hzero) (.inl hzero)
  · rw [or_iff_right hzero, or_iff_right hzero, and_iff_right_iff_imp]
    rintro ⟨hsmall, -⟩
    rw [intSize_of_lt hsmall]
    omega

/-- The results for a file of which `fread` gives what is asked for at once. -/
def wholeResults (contents : List Byte) : FreadResults contents where
  chunks := [contents.take (intSize contents).toNat]
  pieces := by simp

/-- A file of one byte of which `fread` gives nothing. -/
def noResults (contents : List Byte) : FreadResults contents where
  chunks := []
  pieces := List.nil_prefix

/-- A file of 2^32 + 5 bytes is staged as 5 bytes, one of 2^31 bytes throws, and a read that gives
nothing does not end. -/
theorem file_not_uploaded :
    ¬ UploadsExactly (List.replicate (2 ^ 32 + 5) 0) (wholeResults _) "/root/a" [] ∧
    ¬ UploadsExactly (List.replicate (2 ^ 31) 0) (wholeResults _) "/root/a" [] ∧
    ¬ UploadsExactly [0] (noResults _) "/root/a" [] := by
  refine ⟨fun h => ?_, fun h => ?_, fun h => ?_⟩
  · rw [uploadsExactly_iff, loop_whole_iff, intSize_eq_zero_iff, List.length_replicate] at h
    omega
  · rw [uploadsExactly_iff, loop_whole_iff, intSize_eq_zero_iff, List.length_replicate] at h
    omega
  · rw [uploadsExactly_iff, loop_whole_iff, intSize_eq_zero_iff] at h
    obtain h | ⟨-, -, h⟩ := h
    · cases h
    · exact absurd h (by decide)

end RpiFastbootd
