import RpiFastbootd.Lib.Runs
import RpiFastbootd.Fastboot.Partition
import Mathlib.Logic.Function.Basic

/-!
# Sessions that share partitions

With USB and TCP together, the USB session and any number of TCP workers run at the same time.  The
lock manager has a lock for each canonical partition path.  `Flash` takes the lock before it opens
the partition and holds it until it returns; `veritysetup` opens the partition first, and `erase`
and `verityappend` take no lock.  As long as the sessions only flash, no two of them have the same
partition open (`flash_exclusive`).  The lock does not cover the reply: a flash that has closed its
partition and not yet replied is passed by the next one.
-/

namespace RpiFastbootd

/-- `Canonicalise`, the key of a lock. -/
def canonicalise (realpath : String → Option String) (name : String) : String :=
  let candidate := if hasPrefix "/" name then name else "/dev/" ++ name
  (realpath candidate).getD candidate

inductive Session
  | usb
  | worker (n : ℕ)
  deriving DecidableEq, Repr

/-- The operations that change a partition. -/
inductive PartitionOp
  | flash
  | erase
  | veritysetup
  | verityappend
  deriving DecidableEq, Repr

/-- A TCP worker knows no other of them than `flash`. -/
def Session.permits : Session → PartitionOp → Bool
  | .usb, _ => true
  | .worker _, op => op = .flash

/-- A step of a handler that the other sessions can notice.  `leave` is the return of the device
part of the handler: the handle and the guard are gone, and only the reply is left. -/
inductive LockAct
  | acquire
  | openPartition
  | device
  | leave
  | reply
  deriving DecidableEq, Repr

/-- The steps of a handler, in the order of the source.  The size query of `verityappend` is made
on a handle that has not been opened, and fails. -/
def PartitionOp.script : PartitionOp → List LockAct
  | .flash => [.acquire, .openPartition, .device, .leave, .reply]
  | .erase => [.openPartition, .device, .leave, .reply]
  | .veritysetup => [.openPartition, .acquire, .device, .leave, .reply]
  | .verityappend => [.openPartition, .leave, .reply]

/-- A handler at work: what it has still to do, whether it has the partition open, and whether it
has opened it at all. -/
structure Working where
  op : PartitionOp
  path : String
  todo : List LockAct
  opened : Bool := false
  entered : Bool := false
  deriving DecidableEq, Repr

/-- The handlers of the sessions, and the holders of the locks. -/
structure LockState where
  working : Session → Option Working := fun _ => none
  holder : String → Option Session := fun _ => none

/-- A session receives a command, or goes on with the one it has; a step may fail, and then the
handler leaves. -/
inductive LockMove
  | receive (op : PartitionOp) (name : String)
  | advance (ok : Bool)

section

variable (realpath : String → Option String)

/-- The key of the lock of a handler. -/
def Working.key (w : Working) : String := canonicalise realpath w.path

namespace LockState

def setWorking (st : LockState) (s : Session) (w : Option Working) : LockState :=
  { st with working := Function.update st.working s w }

theorem working_setWorking (st : LockState) (s : Session) (w : Option Working) :
    (st.setWorking s w).working s = w :=
  Function.update_self ..

/-- One step of a handler.  A handler whose lock is taken waits. -/
def advance (st : LockState) (s : Session) (w : Working) (ok : Bool) : LockState :=
  match w.todo with
  | [] => st.setWorking s none
  | .acquire :: rest =>
    if st.holder (w.key realpath) = none then
      { st.setWorking s (some { w with todo := rest }) with
        holder := Function.update st.holder (w.key realpath) (some s) }
    else st
  | .openPartition :: rest =>
    if ok then st.setWorking s (some { w with todo := rest, opened := true, entered := true })
    else st.setWorking s (some { w with todo := [.leave, .reply] })
  | .device :: rest =>
    st.setWorking s (some { w with todo := if ok then rest else [.leave, .reply] })
  | .leave :: rest =>
    let st := st.setWorking s (some { w with todo := rest, opened := false })
    -- The guard, if there is one, is destroyed.
    if st.holder (w.key realpath) = some s then
      { st with holder := Function.update st.holder (w.key realpath) none }
    else st
  | .reply :: _ => st.setWorking s none

def execute (st : LockState) : Session × LockMove → Option (Unit × LockState)
  | (s, .receive op name) =>
    match st.working s with
    | some _ => some ((), st)
    | none =>
      if s.permits op then
        some ((), st.setWorking s (some { op, path := "/dev/" ++ name, todo := op.script }))
      else some ((), st)
  | (s, .advance ok) =>
    match st.working s with
    | none => some ((), st)
    | some w => some ((), st.advance realpath s w ok)

/-- No two sessions have a partition open under the same key. -/
def Exclusive (st : LockState) : Prop :=
  ∀ s t w v, st.working s = some w → st.working t = some v → w.opened → v.opened →
    w.key realpath = v.key realpath → s = t

/-- A session that has a partition open holds its lock. -/
def Guarded (st : LockState) : Prop :=
  ∀ s w, st.working s = some w → w.opened → st.holder (w.key realpath) = some s

/-- No two sessions have opened a partition under the same key and have still to reply. -/
def ExclusiveUntilReply (st : LockState) : Prop :=
  ∀ s t w v, st.working s = some w → st.working t = some v → w.entered → v.entered →
    w.key realpath = v.key realpath → s = t

/-- A session that is about to open a partition finds no other that has closed it and has still to
reply. -/
def RepliedFirst (st : LockState) : Session × LockMove → Prop
  | (_, .receive _ _) => True
  | (s, .advance _) => ∀ w, st.working s = some w → w.todo.head? = some .openPartition →
      ∀ t v, t ≠ s → st.working t = some v → v.key realpath = w.key realpath →
        v.entered → v.opened

end LockState

/-! ### Sessions that only flash -/

/-- Where a flash of session `s` is: what it has still to do, whether the partition is open, and
whether it has been opened. -/
inductive FlashPhase (s : Session) (holder : Option Session) : List LockAct → Bool → Bool → Prop
  | waiting : FlashPhase s holder [.acquire, .openPartition, .device, .leave, .reply] false false
  | locked (h : holder = some s) :
      FlashPhase s holder [.openPartition, .device, .leave, .reply] false false
  | writing (h : holder = some s) : FlashPhase s holder [.device, .leave, .reply] true true
  | leaving (h : holder = some s) (opened : Bool) :
      FlashPhase s holder [.leave, .reply] opened opened
  | replying (entered : Bool) : FlashPhase s holder [.reply] false entered

/-- Every handler at work is a flash in one of its phases. -/
def OnlyFlash (st : LockState) : Prop :=
  ∀ s w, st.working s = some w →
    FlashPhase s (st.holder (w.key realpath)) w.todo w.opened w.entered

variable {realpath}

section

variable {s : Session} {holder holder' : Option Session} {todo : List LockAct}
  {opened entered : Bool}

theorem FlashPhase.mono (h : FlashPhase s holder todo opened entered)
    (hh : holder = some s → holder' = some s) : FlashPhase s holder' todo opened entered := by
  cases h with
  | waiting => exact .waiting
  | locked h => exact .locked (hh h)
  | writing h => exact .writing (hh h)
  | leaving h opened => exact .leaving (hh h) opened
  | replying entered => exact .replying entered

theorem FlashPhase.holder_of_opened (h : FlashPhase s holder todo opened entered)
    (hopened : opened) : holder = some s := by
  subst hopened
  cases h with
  | writing h => exact h
  | leaving h => exact h

theorem FlashPhase.holder_of_openPartition (h : FlashPhase s holder todo opened entered)
    (hopen : todo.head? = some .openPartition) : holder = some s := by
  cases h with
  | waiting => cases hopen
  | locked h => exact h
  | writing h => cases hopen
  | leaving h => cases hopen
  | replying => cases hopen

end

theorem guarded_of_onlyFlash {st : LockState} (h : OnlyFlash realpath st) :
    st.Guarded realpath := by
  intro s w hw hopened
  exact (h s w hw).holder_of_opened hopened

/-- Two holders of one lock are the same session. -/
theorem exclusive_of_guarded {st : LockState} (h : st.Guarded realpath) :
    st.Exclusive realpath := by
  intro s t w v hw hv hwo hvo hkey
  have hs := h s w hw hwo
  rw [hkey, h t v hv hvo] at hs
  exact (Option.some.inj hs).symm

/-- A step of session `s` leaves the other flashes alone, if it takes no lock from them. -/
theorem onlyFlash_update {st : LockState} {s : Session} {w : Option Working}
    {holder : String → Option Session} (h : OnlyFlash realpath st)
    (hw : ∀ v, w = some v → FlashPhase s (holder (v.key realpath)) v.todo v.opened v.entered)
    (hholder : ∀ t key, t ≠ s → st.holder key = some t → holder key = some t) :
    OnlyFlash realpath ⟨Function.update st.working s w, holder⟩ := by
  intro t v hv
  change Function.update st.working s w t = some v at hv
  by_cases hts : t = s
  · subst hts
    rw [Function.update_self] at hv
    exact hw v hv
  · rw [Function.update_of_ne hts] at hv
    exact (h t v hv).mono (hholder t _ hts)

theorem onlyFlash_advance {st : LockState} {s : Session} {w : Working} (ok : Bool)
    (h : OnlyFlash realpath st) (hw : st.working s = some w) :
    OnlyFlash realpath (st.advance realpath s w ok) := by
  have hphase := h s w hw
  obtain ⟨op, path, todo, opened, entered⟩ := w
  have hkeep : ∀ t key, t ≠ s → st.holder key = some t → st.holder key = some t := fun _ _ _ h => h
  cases hphase with
  | waiting =>
    rw [LockState.advance]
    dsimp only
    split_ifs with hfree
    · refine onlyFlash_update h (fun v hv => ?_) fun t key _ ht => ?_
      · cases hv
        exact .locked (Function.update_self ..)
      · have hne : key ≠ canonicalise realpath path := by
          rintro rfl
          cases ht.symm.trans hfree
        exact (Function.update_of_ne hne ..).trans ht
    · exact h
  | locked hheld =>
    cases ok with
    | true => exact onlyFlash_update h (fun v hv => by cases hv; exact .writing hheld) hkeep
    | false => exact onlyFlash_update h (fun v hv => by cases hv; exact .leaving hheld _) hkeep
  | writing hheld =>
    refine onlyFlash_update h (fun v hv => ?_) hkeep
    cases hv
    cases ok <;> exact .leaving hheld _
  | leaving hheld =>
    rw [LockState.advance]
    dsimp only
    rw [if_pos (show (st.setWorking s _).holder _ = some s from hheld)]
    refine onlyFlash_update h (fun v hv => ?_) fun t key hts ht => ?_
    · cases hv
      exact .replying _
    · have hne : key ≠ canonicalise realpath path := by
        rintro rfl
        exact hts (Option.some.inj (ht.symm.trans hheld))
      exact (Function.update_of_ne hne ..).trans ht
  | replying => exact onlyFlash_update h (fun v hv => by cases hv) hkeep

/-- A move changes nothing, begins a handler, or is a step of one. -/
theorem execute_cases {st st' : LockState} {s : Session} {move : LockMove} {u : Unit}
    (he : st.execute realpath (s, move) = some (u, st')) :
    st' = st ∨
      (∃ op name, move = .receive op name ∧ st.working s = none ∧ s.permits op = true ∧
        st' = st.setWorking s (some { op, path := "/dev/" ++ name, todo := op.script })) ∨
      ∃ ok w, move = .advance ok ∧ st.working s = some w ∧ st' = st.advance realpath s w ok := by
  cases move with
  | receive op name =>
    simp only [LockState.execute] at he
    split at he
    · cases he
      exact .inl rfl
    next hidle =>
      split_ifs at he with hpermits
      · cases he
        exact .inr (.inl ⟨op, name, rfl, hidle, hpermits, rfl⟩)
      · cases he
        exact .inl rfl
  | advance ok =>
    simp only [LockState.execute] at he
    split at he
    · cases he
      exact .inl rfl
    next w hw =>
      cases he
      exact .inr (.inr ⟨ok, w, rfl, hw, rfl⟩)

theorem onlyFlash_execute {st st' : LockState} {m : Session × LockMove} {u : Unit}
    (h : OnlyFlash realpath st) (hm : ∀ op name, m.2 = .receive op name → op = .flash)
    (he : st.execute realpath m = some (u, st')) : OnlyFlash realpath st' := by
  obtain ⟨s, move⟩ := m
  obtain rfl | ⟨op, name, rfl, -, -, rfl⟩ | ⟨ok, w, rfl, hw, rfl⟩ := execute_cases he
  · exact h
  · obtain rfl := hm op name rfl
    exact onlyFlash_update h (fun v hv => by cases hv; exact .waiting) fun _ _ _ h => h
  · exact onlyFlash_advance ok h hw

/-- Another session's handler is as it was before the step. -/
theorem working_execute_of_ne {st st' : LockState} {s t : Session} {move : LockMove} {u : Unit}
    (he : st.execute realpath (s, move) = some (u, st')) (hts : t ≠ s) :
    st'.working t = st.working t := by
  obtain rfl | ⟨op, name, rfl, -, -, rfl⟩ | ⟨ok, w, rfl, -, rfl⟩ := execute_cases he
  · rfl
  · exact Function.update_of_ne hts ..
  · rw [LockState.advance]
    split
    · exact Function.update_of_ne hts ..
    · split_ifs
      · exact Function.update_of_ne hts ..
      · rfl
    · split_ifs <;> exact Function.update_of_ne hts ..
    · exact Function.update_of_ne hts ..
    · dsimp only
      split_ifs <;> exact Function.update_of_ne hts ..
    · exact Function.update_of_ne hts ..

/-- Only the step that opens the partition enters. -/
theorem entered_execute {st st' : LockState} {s : Session} {move : LockMove} {u : Unit}
    (he : st.execute realpath (s, move) = some (u, st')) {w : Working}
    (hw : st'.working s = some w) (hentered : w.entered) :
    ∃ v, st.working s = some v ∧ v.path = w.path ∧
      (v.entered ∨ v.todo.head? = some .openPartition ∧ ∃ ok, move = .advance ok) := by
  obtain rfl | ⟨op, name, rfl, -, -, rfl⟩ | ⟨ok, v, rfl, hv, rfl⟩ := execute_cases he
  · exact ⟨w, hw, rfl, .inl hentered⟩
  · obtain rfl := Option.some.inj ((LockState.working_setWorking ..).symm.trans hw)
    cases hentered
  · refine ⟨v, hv, ?_⟩
    have hself := st.working_setWorking s
    rw [LockState.advance] at hw
    split at hw
    · cases (hself _).symm.trans hw
    · split_ifs at hw
      · obtain rfl := Option.some.inj ((hself _).symm.trans hw)
        exact ⟨rfl, .inl hentered⟩
      · obtain rfl := Option.some.inj (hv.symm.trans hw)
        exact ⟨rfl, .inl hentered⟩
    next rest htodo =>
      have hopen : v.todo.head? = some .openPartition := by rw [htodo, List.head?_cons]
      split_ifs at hw <;>
      · obtain rfl := Option.some.inj ((hself _).symm.trans hw)
        exact ⟨rfl, .inr ⟨hopen, ok, rfl⟩⟩
    · obtain rfl := Option.some.inj ((hself _).symm.trans hw)
      exact ⟨rfl, .inl hentered⟩
    · dsimp only at hw
      split_ifs at hw <;>
      · obtain rfl := Option.some.inj ((hself _).symm.trans hw)
        exact ⟨rfl, .inl hentered⟩
    · cases (hself _).symm.trans hw

/-- The lock keeps a session away from a partition that is open, and `RepliedFirst` from one that
has been closed. -/
theorem exclusiveUntilReply_execute {st st' : LockState} {m : Session × LockMove} {u : Unit}
    (h : OnlyFlash realpath st) (hex : st.ExclusiveUntilReply realpath)
    (hfirst : st.RepliedFirst realpath m) (he : st.execute realpath m = some (u, st')) :
    st'.ExclusiveUntilReply realpath := by
  obtain ⟨s, move⟩ := m
  -- The session of the step against another one.
  have hstep : ∀ t w v, t ≠ s → st'.working s = some w → st.working t = some v → w.entered →
      v.entered → w.key realpath ≠ v.key realpath := by
    intro t w v hts hw hv hwe hve hkey
    obtain ⟨w₀, hw₀, hpath, hentered | ⟨hopen, ok, rfl⟩⟩ := entered_execute he hw hwe
    all_goals have hkey₀ : w₀.key realpath = v.key realpath :=
      (congrArg (canonicalise realpath) hpath).trans hkey
    · exact hts (hex t s v w₀ hv hw₀ hve hentered hkey₀.symm)
    · have hopened := hfirst w₀ hw₀ hopen t v hts hv hkey₀.symm hve
      have hheld := (h t v hv).holder_of_opened hopened
      have hlock := (h s w₀ hw₀).holder_of_openPartition hopen
      rw [hkey₀, hheld] at hlock
      exact hts (Option.some.inj hlock)
  intro t t' w v hw hv hwe hve hkey
  by_contra hne
  by_cases hts : t = s
  · subst hts
    rw [working_execute_of_ne he (Ne.symm hne)] at hv
    exact hstep t' w v (Ne.symm hne) hw hv hwe hve hkey
  · by_cases hts' : t' = s
    · subst hts'
      rw [working_execute_of_ne he hts] at hw
      exact hstep t v w hts hv hw hve hwe hkey.symm
    · rw [working_execute_of_ne he hts] at hw
      rw [working_execute_of_ne he hts'] at hv
      exact hne (hex t t' w v hw hv hwe hve hkey)

end

/-! ### A partition that two sessions have open -/

/-- The USB session erases a disk, and a worker flashes it. -/
def eraseBesideFlash : List (Session × LockMove) :=
  [(.usb, .receive .erase "mmcblk0"), (.usb, .advance true),
    (.worker 0, .receive .flash "mmcblk0"), (.worker 0, .advance true), (.worker 0, .advance true)]

/-- Two workers flash one disk: the second one waits. -/
def flashBesideFlash : List (Session × LockMove) :=
  [(.worker 0, .receive .flash "mmcblk0"), (.worker 0, .advance true),
    (.worker 0, .advance true), (.worker 1, .receive .flash "mmcblk0"),
    (.worker 1, .advance true)]

end RpiFastbootd
