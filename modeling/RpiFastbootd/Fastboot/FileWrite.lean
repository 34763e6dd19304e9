import RpiFastbootd.Fastboot.Oem

/-!
# Writing a staged file

`file_write::WriteFile` opens a file with truncation, sets a mode and reads it back, writes the
staged data in as many calls as it takes, and syncs and closes the file.  If it reports success, the
file has the data and the mode; a device node, which an open does not truncate, has the data over
its start (`write_file_sound`).
-/

namespace RpiFastbootd

open FastbootDevice

inductive FileKind
  | regular
  | device
  deriving DecidableEq, Repr

structure File where
  kind : FileKind := .regular
  content : List Byte
  mode : ℕ
  deriving DecidableEq, Repr

abbrev FileSystem := String → Option File

/-- Bytes in the place of others. -/
def File.put (file : File) (pos : ℕ) (bytes : List Byte) : File :=
  { file with content := file.content.take pos ++ bytes ++ file.content.drop (pos + bytes.length) }

inductive WriteResult
  | wrote (n : ℕ)
  | interrupted
  | failed (error : String)

/-- What becomes of the calls of `WriteFile`.  A file system gives a mode to a file that it creates,
and keeps one that it is asked for, or another, or refuses it; an error of `fsync` comes with
whether it is `EINVAL`. -/
structure WriteCalls where
  openFile : Except ℕ Unit := .ok ()
  createMode : ℕ → ℕ := id
  fchmod : ℕ → Option ℕ := some
  fstat : Bool := true
  results : List WriteResult
  fsync : Option (Bool × String) := none
  close : Option String := none

namespace WriteCalls

/-- The file behind the descriptor of `open` with `O_CREAT` and `O_TRUNC`. -/
def opened (calls : WriteCalls) (mode : Option ℕ) : Option File → File
  | none => { content := [], mode := calls.createMode (mode.getD 0o666) }
  | some file =>
    match file.kind with
    | .regular => { file with content := [] }
    | .device => file

/-- Whether the file has the mode that was asked for, with the file. -/
def setMode (calls : WriteCalls) (file : File) : Option ℕ → Bool × File
  | none => (true, file)
  | some mode =>
    match calls.fchmod mode with
    | none => (false, file)
    | some kept => (calls.fstat && decide (kept % 0o10000 = mode), { file with mode := kept })

/-- The loop of `WriteFile`, unless it has not ended with the results. -/
def writeLoop (path : String) (data : List Byte) :
    List WriteResult → ℕ → File → Option (Except String Unit × File)
  | results, done, file =>
    if data.length ≤ done then some (.ok (), file)
    else
      match results with
      | [] => none
      | .interrupted :: rest => writeLoop path data rest done file
      | .failed error :: _ => some (.error ("Write failed on " ++ path ++ ": " ++ error), file)
      | .wrote n :: rest =>
        let bytes := (data.drop done).take n
        if bytes = [] then
          some (.error ("Write failed on " ++ path ++ ": Input/output error"), file)
        else writeLoop path data rest (done + bytes.length) (file.put done bytes)

/-- `fsync` and `close`. -/
def finish (calls : WriteCalls) (path : String) : Except String Unit :=
  match calls.fsync with
  | some (false, error) => .error ("Sync failed on " ++ path ++ ": " ++ error)
  | _ =>
    match calls.close with
    | some error => .error ("Close failed on " ++ path ++ ": " ++ error)
    | none => .ok ()

/-- `WriteFile`. -/
def writeFile (calls : WriteCalls) (fs : FileSystem) (path : String) (data : List Byte)
    (mode : Option ℕ) : Option (Except String Unit × FileSystem) :=
  if data = [] then
    some (.error "Buffer size zero. Check file was successfully staged", fs)
  else
    match calls.openFile with
    | .error errno => some (.error ("Error opening file, ERRNO: " ++ toString errno), fs)
    | .ok () =>
      match calls.setMode (calls.opened mode (fs path)) mode with
      | (false, file) =>
        some (.error ("Cannot set mode on " ++ path ++ ": the filesystem does not keep it"),
          Function.update fs path (some file))
      | (true, file) =>
        match writeLoop path data calls.results 0 file with
        | none => none
        | some (.error error, file) => some (.error error, Function.update fs path (some file))
        | some (.ok (), file) =>
          some (calls.finish path, Function.update fs path (some file))

end WriteCalls

/-- What a file keeps behind the data that is written over its start. -/
def keptBehind (data : List Byte) : Option File → List Byte
  | some ⟨.device, content, _⟩ => content.drop data.length
  | _ => []

/-- The file at the path has been replaced, and no other. -/
structure Replaced (fs fs' : FileSystem) (path : String) (data : List Byte) (mode : Option ℕ) :
    Prop where
  file : ∃ file, fs' path = some file ∧ file.content = data ++ keptBehind data (fs path) ∧
    ∀ m ∈ mode, file.mode % 0o10000 = m
  others : ∀ p, p ≠ path → fs' p = fs p

section

variable {calls : WriteCalls} {fs fs' : FileSystem} {path : String} {data : List Byte}
  {mode : Option ℕ} {file file' : File} {old : List Byte} {done : ℕ}

theorem put_over {n : ℕ} (hdone : done ≤ data.length)
    (hcontent : file.content = data.take done ++ old.drop done) :
    (file.put done ((data.drop done).take n)).content =
      data.take (done + ((data.drop done).take n).length) ++
        old.drop (done + ((data.drop done).take n).length) := by
  have hlen : (data.take done).length = done := List.length_take_of_le hdone
  have htake := (List.prefix_iff_eq_take.1 (List.take_prefix n (data.drop done))).symm
  unfold File.put
  dsimp only
  generalize (data.drop done).take n = bytes at htake ⊢
  have hskip : (data.take done ++ old.drop done).drop (done + bytes.length) =
      old.drop (done + bytes.length) := by
    rw [← List.drop_drop, List.drop_left' hlen, List.drop_drop]
  rw [hcontent, List.take_left' hlen, hskip, List.take_add, htake]

/-- The loop that ends well has written the data over the start of what was there. -/
theorem content_of_writeLoop {results : List WriteResult} (hdone : done ≤ data.length)
    (hcontent : file.content = data.take done ++ old.drop done)
    (h : WriteCalls.writeLoop path data results done file = some (.ok (), file')) :
    file'.content = data ++ old.drop data.length ∧ file'.mode = file.mode := by
  induction results generalizing done file with
  | nil =>
    unfold WriteCalls.writeLoop at h
    split_ifs at h with hall
    cases h
    obtain rfl : done = data.length := le_antisymm hdone hall
    rw [hcontent, List.take_length]
    exact ⟨rfl, rfl⟩
  | cons result rest ih =>
    unfold WriteCalls.writeLoop at h
    by_cases hall : data.length ≤ done
    · rw [if_pos hall] at h
      cases h
      obtain rfl : done = data.length := le_antisymm hdone hall
      rw [hcontent, List.take_length]
      exact ⟨rfl, rfl⟩
    rw [if_neg hall] at h
    cases result with
    | interrupted => exact ih hdone hcontent h
    | failed error => cases h
    | wrote n =>
      dsimp only at h
      split_ifs at h
      · cases h
      · refine @ih (file.put done _) _ ?_ (put_over hdone hcontent) h
        rw [List.length_take, List.length_drop]
        omega

theorem setMode_true (h : calls.setMode file mode = (true, file')) :
    file'.content = file.content ∧ ∀ m ∈ mode, file'.mode % 0o10000 = m := by
  unfold WriteCalls.setMode at h
  cases mode with
  | none =>
    cases h
    exact ⟨rfl, fun m hm => (by cases hm)⟩
  | some mode =>
    dsimp only at h
    cases hkept : calls.fchmod mode with
    | none =>
      rw [hkept] at h
      cases h
    | some kept =>
      rw [hkept] at h
      dsimp only at h
      rw [Prod.mk.injEq, Bool.and_eq_true, decide_eq_true_eq] at h
      obtain ⟨⟨-, hsame⟩, rfl⟩ := h
      refine ⟨rfl, fun m hm => ?_⟩
      rw [← Option.mem_some_iff.1 hm]
      exact hsame

theorem opened_content (calls : WriteCalls) (mode : Option ℕ) (file : Option File)
    (data : List Byte) :
    (calls.opened mode file).content.drop data.length = keptBehind data file := by
  obtain _ | ⟨_ | _, content, _⟩ := file
  · exact List.drop_nil
  · exact List.drop_nil
  · rfl

/-- A success of `WriteFile` has replaced the file. -/
theorem replaced_of_writeFile (h : calls.writeFile fs path data mode = some (.ok (), fs')) :
    Replaced fs fs' path data mode := by
  unfold WriteCalls.writeFile at h
  by_cases hempty : data = []
  · rw [if_pos hempty] at h
    cases h
  rw [if_neg hempty] at h
  cases hopen : calls.openFile with
  | error errno =>
    rw [hopen] at h
    cases h
  | ok =>
    rw [hopen] at h
    dsimp only at h
    rcases hmode : calls.setMode (calls.opened mode (fs path)) mode with ⟨_ | _, file⟩
    · rw [hmode] at h
      cases h
    · rw [hmode] at h
      dsimp only at h
      obtain ⟨hcontent, hkept⟩ := setMode_true hmode
      rcases hloop : WriteCalls.writeLoop path data calls.results 0 file with
        _ | ⟨error | _, file'⟩
      · rw [hloop] at h
        cases h
      · rw [hloop] at h
        cases h
      · rw [hloop] at h
        dsimp only at h
        have hstart : file.content = data.take 0 ++ file.content.drop 0 := rfl
        obtain ⟨hwritten, hsame⟩ := content_of_writeLoop (Nat.zero_le _) hstart hloop
        obtain ⟨-, rfl⟩ := Prod.mk.inj (Option.some.inj h)
        refine ⟨⟨file', Function.update_self .., ?_, ?_⟩, fun p hp => Function.update_of_ne hp ..⟩
        · rw [hwritten, hcontent, opened_content]
        · rw [hsame]
          exact hkept

/-- Without data nothing is opened. -/
theorem writeFile_nil (calls : WriteCalls) (fs : FileSystem) (path : String) (mode : Option ℕ) :
    calls.writeFile fs path [] mode =
      some (.error "Buffer size zero. Check file was successfully staged", fs) := rfl

/-! ### The command -/

/-- Whether a `WriteFile` of the staged payload, and nothing else may be written, has succeeded. -/
def writeFileMonitor (payload : List Byte) : Monitor Call Call.Answer Bool where
  safe _ c := ∀ path data mode, c = .query (.writeFile path data mode) → data = payload
  next g
    | .query (.writeFile ..), .ok (.ok ()) => true
    | _, _ => g

/-- The staged data is there unless a `WriteFile` has succeeded. -/
def KeepsStaged (payload : List Byte) (_ : Except Stop Bool) (d : FastbootDevice)
    (written : Bool) : Prop :=
  d.downloadData = payload ∨ written = true

variable {d : FastbootDevice} {written : Bool} {payload : List Byte}

theorem meets_writeStatus_keeps {result : FastbootResult} {message : String}
    (h : d.downloadData = payload ∨ written = true) :
    Meets (writeFileMonitor payload) (writeStatus result message) d written (KeepsStaged payload) :=
  meets_writeStatus_iff.2 ⟨fun _ _ _ h => (by cases h), h, h⟩

theorem exists_argIf {c : Prop} [Decidable c] {args : List String} {i : ℕ}
    (hi : c → i < args.length) : ∃ word, argIf c args i = pure word := by
  unfold argIf
  split_ifs with hc
  · rw [arg_of_lt (hi hc)]
    exact ⟨_, map_pure ..⟩
  · exact ⟨none, rfl⟩

/-- `oem download-file` drops the staged data only after a `WriteFile` of it has succeeded. -/
theorem meets_oemCmdDownloadFile (args : List String) (d : FastbootDevice) :
    Meets (writeFileMonitor d.downloadData) (oemCmdDownloadFile args) d false
      (KeepsStaged d.downloadData) := by
  have hsame : d.downloadData = d.downloadData ∨ false = true := .inl rfl
  unfold oemCmdDownloadFile
  by_cases hlen : args.length < 3
  · rw [if_pos hlen]
    exact meets_writeStatus_keeps hsame
  obtain ⟨given, hgiven⟩ := @exists_argIf (4 ≤ args.length) _ args 3 fun h => h
  rw [if_neg hlen, hgiven, pure_bind]
  dsimp only
  by_cases hmode : given.isSome ∧ given.bind parseMode = none
  · rw [if_pos hmode]
    exact meets_writeStatus_keeps hsame
  rw [if_neg hmode, meets_bind, meets_state]
  dsimp only
  rw [arg_of_lt (by omega), pure_bind, meets_bind]
  refine meets_ask_iff.2 ⟨fun _ _ _ h => ?_, fun answer => ?_, fun _ => hsame⟩
  · cases h
    rfl
  · cases answer with
    | error error => exact meets_writeStatus_keeps hsame
    | ok => exact meets_bind.2 (meets_update.2 (meets_writeStatus_keeps (.inr rfl)))

end

/-- A device of four bytes, and the calls for a payload of two bytes that is written byte by byte. -/
def sampleFiles : FileSystem := fun path =>
  if path = "/dev/mtd0" then some { kind := .device, content := [1, 2, 3, 4], mode := 0o600 }
  else none

def sampleCalls : WriteCalls where
  results := [.wrote 1, .interrupted, .wrote 1]

example : (sampleCalls.writeFile sampleFiles "/root/key" [8, 9] (some 0o600)).map
    (fun r => (r.1.toBool, r.2 "/root/key")) =
      some (true, some { content := [8, 9], mode := 0o600 }) := by
  decide +kernel

end RpiFastbootd
