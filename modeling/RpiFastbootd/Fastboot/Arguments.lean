import RpiFastbootd.Fastboot.SessionSafety

/-!
# The arguments of a command

A command is split at its colons, and the command line of `oem` at its spaces; the handlers then read
single fields.  Each of them checks the number of the fields before it reads one, but for the name
of the `oem` command: the handler is also found for an `oem` that stands alone or before a colon.
-/

namespace RpiFastbootd

open FastbootDevice

/-! ### The fields of a command -/

/-- The first field is all there is, or ends at a separator. -/
theorem headD_split_eq_iff {sep : Char} {s first : String} (hfirst : sep ∉ first.toList) :
    (split sep s).headD "" = first ↔
      s = first ∨ hasPrefix (first ++ String.singleton sep) s = true := by
  have hlist : hasPrefix (first ++ String.singleton sep) s = true ↔
      ∃ rest, s.toList = first.toList ++ sep :: rest := by
    rw [hasPrefix_iff, String.toList_append, String.toList_singleton]
    constructor
    · rintro ⟨rest, hrest⟩
      exact ⟨rest, by rw [← hrest, List.append_assoc, List.singleton_append]⟩
    · rintro ⟨rest, hrest⟩
      exact ⟨rest, by rw [hrest, List.append_assoc, List.singleton_append]⟩
  rw [hlist, split]
  by_cases hsep : sep ∈ s.toList
  · obtain ⟨before, rest, hs, hbefore⟩ := List.eq_append_cons_of_mem hsep
    rw [hs, List.splitOn_append_cons_self_of_not_mem hbefore, List.map_cons, List.headD_cons]
    constructor
    · rintro rfl
      exact .inr ⟨rest, by rw [String.toList_ofList]⟩
    · rw [← hs]
      rintro (rfl | ⟨rest', heq⟩)
      · exact absurd hsep hfirst
      · have hsplit := congrArg (List.splitOn sep) (hs.symm.trans heq)
        rw [List.splitOn_append_cons_self_of_not_mem hbefore,
          List.splitOn_append_cons_self_of_not_mem hfirst] at hsplit
        rw [(List.cons.inj hsplit).1, String.ofList_toList]
  · rw [List.splitOn_eq_singleton hsep, List.map_singleton, List.headD_cons, String.ofList_toList]
    refine ⟨.inl, ?_⟩
    rintro (rfl | ⟨rest, heq⟩)
    · rfl
    · exact absurd (by rw [heq]; simp) hsep

/-- A text with a separator has two fields at least. -/
theorem two_le_length_split {sep : Char} {s pre : String}
    (h : hasPrefix (pre ++ String.singleton sep) s = true) : 2 ≤ (split sep s).length := by
  obtain ⟨rest, hrest⟩ := hasPrefix_iff.1 h
  rw [String.toList_append, String.toList_singleton, List.append_assoc,
    List.singleton_append] at hrest
  rw [split, List.length_map, ← hrest, List.splitOn_append_cons_self, List.length_append]
  have hbefore := List.length_pos_iff.2 (List.splitOn_ne_nil sep pre.toList)
  have hafter := List.length_pos_iff.2 (List.splitOn_ne_nil sep rest)
  omega

namespace SessionConfig

variable {config : SessionConfig} {bytes : List Byte}

/-- The bytes are `oem` alone or before a colon, and are taken for a command of the full map. -/
def Nameless (config : SessionConfig) (bytes : List Byte) : Prop :=
  bytes.any iscntrl = false ∧ config.dataPlaneOnly = false ∧
    (text bytes = "oem" ∨ hasPrefix "oem:" (text bytes) = true)

theorem commandMap_eq_oem {name : String} (h : commandMap name = some .oem) : name = "oem" := by
  unfold commandMap at h
  split at h <;> first | rfl | cases h

theorem map_eq_oem_iff {name : String} :
    config.map name = some .oem ↔ config.dataPlaneOnly = false ∧ name = "oem" := by
  unfold SessionConfig.map
  cases config.dataPlaneOnly with
  | false => exact ⟨fun h => ⟨rfl, commandMap_eq_oem h⟩, by rintro ⟨-, rfl⟩; rfl⟩
  | true =>
    refine ⟨fun h => ?_, fun h => absurd h.1 (by decide)⟩
    simp only [if_true] at h
    unfold dataPlaneCommandMap at h
    split at h <;> cases h

theorem not_hasPrefix_space {s : String} (h : s = "oem" ∨ hasPrefix "oem:" s = true) :
    hasPrefix "oem " s = false := by
  refine Bool.eq_false_iff.2 fun hspace => ?_
  obtain ⟨rest, hrest⟩ := hasPrefix_iff.1 hspace
  rcases h with rfl | hcolon
  · exact absurd (congrArg (·[3]?) hrest) (Option.some_ne_none ' ')
  · obtain ⟨rest', hrest'⟩ := hasPrefix_iff.1 hcolon
    have hthird : some ' ' = some ':' := congrArg (·[3]?) (hrest.trans hrest'.symm)
    exact absurd hthird (by decide)

theorem troublesome_oem_iff {args : List String} :
    CommandHandler.oem.troublesome args = true ↔ (split ' ' (field args 0)).length < 2 :=
  decide_eq_true_iff

/-- The handler of `oem` is found for a command without a name exactly if it is nameless. -/
theorem nameless_iff : config.Nameless bytes ↔ ∃ args,
    config.parse bytes = .command .oem args ∧ CommandHandler.oem.troublesome args = true := by
  have hhead : (split ':' (text bytes)).headD "" = "oem" ↔
      text bytes = "oem" ∨ hasPrefix "oem:" (text bytes) = true := headD_split_eq_iff (by decide)
  unfold SessionConfig.Nameless SessionConfig.parse
  cases hctrl : bytes.any iscntrl with
  | true => exact ⟨fun h => absurd h.1 (by decide), fun ⟨_, h, _⟩ => (by cases h)⟩
  | false =>
    constructor
    · rintro ⟨-, hplane, hcommand⟩
      have hspace := not_hasPrefix_space hcommand
      have hname := hhead.2 hcommand
      refine ⟨split ':' (text bytes), ?_, ?_⟩
      · simp only [commandName, commandArgs, hspace, hname, map_eq_oem_iff.2 ⟨hplane, rfl⟩,
          Bool.false_eq_true, if_false]
      · have hfield : field (split ':' (text bytes)) 0 = "oem" := by
          rw [← hname, field, List.headD_eq_head?_getD, List.getD_eq_getElem?_getD,
            List.head?_eq_getElem?]
        rw [troublesome_oem_iff, hfield]
        decide
    · rintro ⟨args, hparse, htrouble⟩
      simp only [Bool.false_eq_true, if_false] at hparse
      split at hparse
      · cases hparse
      · rename_i handler hmap
        cases hparse
        obtain ⟨hplane, hname⟩ := map_eq_oem_iff.1 hmap
        refine ⟨rfl, hplane, ?_⟩
        unfold commandName at hname
        unfold commandArgs at htrouble
        cases hspace : hasPrefix "oem " (text bytes) with
        | false =>
          rw [hspace, if_neg Bool.false_ne_true] at hname
          exact hhead.1 hname
        | true =>
          rw [hspace, if_pos rfl] at htrouble
          have htwo : 2 ≤ (split ' ' (text bytes)).length := @two_le_length_split _ _ "oem" hspace
          exact absurd (troublesome_oem_iff.1 htrouble) (not_lt.2 htwo)

end SessionConfig

/-! ### Reads out of range -/

/-- What a turn of the loop does with the bytes of a command reads no argument that is not there. -/
def ReadsInRange (config : SessionConfig) (bytes : List Byte) : Prop :=
  ∀ d t, ¬ Trace (executeCommand config) d (⟨.readCommand, .got bytes⟩ :: t)
    (some (.error .outOfRange))

/-- A program that does not end by such a read. -/
def EndsInRange {α : Type} (r : Except Stop α) (_ : FastbootDevice) (_ : Watch) : Prop :=
  r ≠ .error .outOfRange

section

variable {s : FastbootDevice} {g : Watch}

theorem endsInRange_ok {α : Type} {a : α} : EndsInRange (.ok a) s g := fun h => (by cases h)

/-- The replies of the loop itself. -/
theorem meets_writeStatus_bind_inRange (result : FastbootResult) (message : String) (b : Bool) :
    Meets watcher (do let _ ← writeStatus result message; return b) s g EndsInRange :=
  meets_bind.2 (meets_writeStatus.2 ⟨endsInRange_ok, endsInRange_ok⟩)

theorem meets_afterCommand_inRange (b : Bool) : Meets watcher (afterCommand b) s g EndsInRange := by
  refine meets_bind.2 (meets_state.2 ?_)
  dsimp only
  cases decideAfterCommand b s.replied s.transportFailed with
  | nextCommand => exact endsInRange_ok
  | endSession => exact endsInRange_ok
  | replyFailThenNext =>
    exact meets_bind.2 (meets_writeStatus.2
      ⟨meets_bind.2 (meets_state.2 endsInRange_ok), meets_bind.2 (meets_state.2 endsInRange_ok)⟩)

/-- Every handler reads within the fields that it has checked, but for a name that is not there. -/
theorem meets_dispatch_inRange (h : Between s g) (config : SessionConfig)
    {handler : CommandHandler} {args : List String}
    (hname : handler = .oem → handler.troublesome args = false) :
    Meets watcher (dispatch config handler args) s
      { g with read := true, dispatched := false, terminals := 0, pending := none }
      EndsInRange := by
  refine meets_bind.2 (meets_update.2 (meets_bind.2 ⟨h.rejected, fun _ => ?_⟩))
  have hready : Ready { s with replied := false }
      { g with
        read := true, dispatched := true, terminals := 0, pending := none
        trouble := g.trouble || handler.troublesome args } :=
    ⟨⟨h.sync, h.lost, h.buffer, h.phase⟩, rfl, rfl, rfl⟩
  refine meets_bind.2 (meets_rescue.2 (meets_bind.2 ?_))
  refine (meets_run config.build handler args hready hname fun ht => by simp [ht]).mono
    fun r s' g' hr => ?_
  cases r with
  | ok b => exact meets_afterCommand_inRange b
  | error e =>
    cases e with
    | threw what => exact meets_writeStatus_bind_inRange _ _ _
    | outOfRange => exact hr.elim
    | paused | hangs | undefined | outOfFuel => exact fun he => (by cases he)

/-- What an observer may remember of a device between two commands. -/
theorem exists_between (s : FastbootDevice) : ∃ g, Between s g :=
  ⟨{ lost := s.transportFailed, writeLost := s.transportFailed, rejectLost := s.transportFailed
     staged := some s.downloadData },
    ⟨rfl, rfl, .inr rfl, rfl⟩, fun h => h, fun h => (by cases h)⟩

end

theorem not_trace_of_meets {m : DeviceM Bool} {s : FastbootDevice} {g : Watch}
    {t : List SessionEvent} (h : Meets watcher m s g EndsInRange) :
    ¬ Trace m s t (some (.error .outOfRange)) := by
  intro ht
  obtain ⟨_, hend⟩ := (h.sound ht).2 _ rfl
  exact hend rfl

/-- A turn of the loop reads out of range exactly where an `oem` command has no name. -/
theorem reads_in_range_iff (config : SessionConfig) (bytes : List Byte) :
    ReadsInRange config bytes ↔ ¬ config.Nameless bytes := by
  constructor
  · intro h hnameless
    obtain ⟨args, hparse, htrouble⟩ := SessionConfig.nameless_iff.1 hnameless
    cases bytes with
    | nil => exact absurd hnameless.2.2 (by decide)
    | cons b bytes =>
      refine h {} [⟨.dispatch .oem args, ()⟩] (trace_ask_bind.2 ?_)
      dsimp only
      rw [hparse]
      refine .get (.put (.call ?_))
      show Trace (attempt (oemCmdHandler config.build args) >>= _) _ _ _
      rw [oemCmdHandler_of_nameless config.build htrouble]
      exact .stop _ _
  · intro hnamed d t ht
    have ht := trace_ask_bind.1 ht
    obtain ⟨g, hg⟩ := exists_between d
    cases bytes with
    | nil => cases ht
    | cons b bytes =>
      dsimp only at ht
      cases hparse : config.parse (b :: bytes) with
      | controlCharacter =>
        rw [hparse] at ht
        exact not_trace_of_meets (@meets_writeStatus_bind_inRange _ g _ _ _) ht
      | unrecognized args =>
        rw [hparse] at ht
        dsimp only at ht
        rw [arg_of_lt (SessionConfig.length_args_pos hparse), pure_bind] at ht
        exact not_trace_of_meets (@meets_writeStatus_bind_inRange _ g _ _ _) ht
      | command handler args =>
        rw [hparse] at ht
        refine not_trace_of_meets (meets_dispatch_inRange hg config fun hoem => ?_) ht
        subst hoem
        exact Bool.eq_false_iff.2 fun htrouble =>
          hnamed (SessionConfig.nameless_iff.2 ⟨args, hparse, htrouble⟩)

/-- `oem` without a name, alone and before a colon. -/
theorem nameless_oem_out_of_range :
    ¬ ReadsInRange sampleConfig (bytesOf "oem") ∧ ¬ ReadsInRange sampleConfig (bytesOf "oem:led") := by
  have hout (command : String) (h : command = "oem" ∨ command = "oem:led") :
      ¬ ReadsInRange sampleConfig (bytesOf command) := by
    intro hin
    refine hin {} [⟨.dispatch .oem (split ':' command), ()⟩] (trace_ask_bind.2 ?_)
    rcases h with rfl | rfl
    · exact .get (.put (.call (.stop _ _)))
    · exact .get (.put (.call (.stop _ _)))
  exact ⟨hout _ (.inl rfl), hout _ (.inr rfl)⟩

end RpiFastbootd
