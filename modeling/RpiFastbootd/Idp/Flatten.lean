import RpiFastbootd.Idp.Reach

/-!
# A well-placed map is flattened

The partitions of an entry are collected when the walk comes to the entry, and the walk then goes
down into the same JSON again.  On a map whose keys `partitions`, `slots` and `encrypted` stand
where they are meant to, the descent is silent: every object it comes to lies in a slot, lies in a
container that holds no further one, or has none of the three keys (`Quiet`).  So the walk visits
the recursive flattening of the map, entry by entry (`reach_eq_of_wellPlaced`).
-/

namespace RpiFastbootd

/-! ### Where the keys stand -/

/-- The keys a level is collected from. -/
def isKeyword (key : String) : Bool := key == "partitions" || key == "slots" || key == "encrypted"

namespace Json

/-- No object of the tree has a key that satisfies `bad`. -/
def noKey (bad : String → Bool) (v : Json) : Bool := v.allMembers fun key _ => !bad key

theorem lookup_of_noKey {bad : String → Bool} {ms : List (String × Json)}
    (h : (obj ms).noKey bad) {key : String} (hk : bad key) : ms.lookup key = none := by
  induction ms with
  | nil => rfl
  | cons m ms ih =>
    obtain ⟨k, v⟩ := m
    simp only [noKey, allMembers, allMembersIn, Bool.and_eq_true, Bool.not_eq_true'] at h
    have hne : key ≠ k := by
      rintro rfl
      rw [hk] at h
      simp at h
    rw [List.lookup_cons, beq_false_of_ne hne]
    exact ih h.2

end Json

namespace Placed

/-- An object whose members follow `rule`; anything else has no keyword below it. -/
def object (rule : String → Json → Bool) : Json → Bool
  | .obj ms => ms.all fun m => rule m.1 m.2
  | v => v.noKey isKeyword

/-- Slots have names, and these are no keywords. -/
def slots (slot : Json → Bool) : Json → Bool :=
  object fun name v => name != "" && !isKeyword name && slot v

/-- A slot of a container holds partitions only. -/
def innerSlot : Json → Bool :=
  object fun key v => key != "slots" && key != "encrypted" && v.noKey isKeyword

def encrypted : Json → Bool :=
  object fun key v =>
    key != "encrypted" && if key = "slots" then slots innerSlot v else v.noKey isKeyword

/-- A slot of an entry may also hold a container. -/
def slot : Json → Bool :=
  object fun key v =>
    key != "slots" && if key = "encrypted" then encrypted v else v.noKey isKeyword

def entry (v : Json) : Bool :=
  v.isObject && object (fun key v =>
    if key = "slots" then slots slot v
    else if key = "encrypted" then encrypted v
    else v.noKey isKeyword) v

end Placed

/-- Every entry is an object, and the keywords stand where the schema puts them. -/
def wellPlaced : Json → Bool
  | .arr entries => entries.all Placed.entry
  | _ => false

/-! ### Silent subtrees -/

/-- Nothing is collected at this position or below it. -/
def Quiet (p : Place) (v : Json) : Prop :=
  p.inSlot ∨ (p.underEncrypted ∧ v.noKey (· == "encrypted")) ∨ v.noKey isKeyword

theorem level_of_quiet {p : Place} {ms : List (String × Json)} (h : Quiet p (.obj ms)) :
    Collect.level p.underEncrypted p.inSlot (.obj ms) = some [] := by
  rcases h with h | ⟨h, hk⟩ | hk
  · simp [Collect.level, Collect.onlyIf, h]
  · have he : ms.lookup "encrypted" = none := Json.lookup_of_noKey hk (by simp)
    cases hs : p.inSlot <;> simp [Collect.level, Collect.onlyIf, Collect.atMember, h, he]
  · have hl (key : String) (hw : isKeyword key) : ms.lookup key = none :=
      Json.lookup_of_noKey hk hw
    simp [Collect.level, Collect.onlyIf, Collect.atMember, hl _ (by decide : isKeyword "partitions"),
      hl _ (by decide : isKeyword "slots"), hl _ (by decide : isKeyword "encrypted")]

mutual
theorem reach_of_quiet (p : Place) (v : Json) (h : Quiet p v) : reach p v = some [] := by
  cases v with
  | obj ms =>
    rw [reach, level_of_quiet h, reachMembers_of_quiet p ms h]
    rfl
  | arr xs =>
    rw [reach]
    exact reachElems_of_quiet p xs h
  | null | bool _ | int _ | real _ | str _ => simp [reach]

theorem reachMembers_of_quiet (p : Place) (ms : List (String × Json)) (h : Quiet p (.obj ms)) :
    reachMembers p ms = some [] := by
  cases ms with
  | nil => rfl
  | cons m ms =>
    obtain ⟨key, v⟩ := m
    simp only [Quiet, Json.noKey, Json.allMembers, Json.allMembersIn, Bool.and_eq_true] at h
    have hv : Quiet (p.member key v) v := by
      simp only [Quiet, Json.noKey, Place.member, Bool.or_eq_true]
      tauto
    have hms : Quiet p (.obj ms) := by
      simp only [Quiet, Json.noKey, Json.allMembers]
      tauto
    rw [reachMembers, reach_of_quiet _ v hv, reachMembers_of_quiet p ms hms]
    split <;> rfl

theorem reachElems_of_quiet (p : Place) (xs : List Json) (h : Quiet p (.arr xs)) :
    reachElems p xs = some [] := by
  cases xs with
  | nil => rfl
  | cons v xs =>
    simp only [Quiet, Json.noKey, Json.allMembers, Json.allMembersElems, Bool.and_eq_true] at h
    have hv : Quiet p.elem v := by
      simp only [Quiet, Json.noKey, Place.elem]
      tauto
    have hxs : Quiet p (.arr xs) := by
      simp only [Quiet, Json.noKey, Json.allMembers]
      tauto
    rw [reachElems, reach_of_quiet _ v hv, reachElems_of_quiet p xs hxs]
    split <;> rfl
end

/-! ### The descent into an entry is silent -/

theorem noEncrypted_of_noKeyword {v : Json} (h : v.noKey isKeyword) :
    v.noKey (· == "encrypted") :=
  Json.allMembers_mono (by simp [isKeyword]) v h

/-- An object has no key `encrypted` when its rule excludes the key at each member and below. -/
theorem noEncrypted_object {rule : String → Json → Bool}
    (h : ∀ key v, rule key v → key ≠ "encrypted" ∧ v.noKey (· == "encrypted")) {v : Json}
    (hv : Placed.object rule v) : v.noKey (· == "encrypted") := by
  cases v with
  | obj ms =>
    rw [Json.noKey, Json.allMembers]
    simp only [Placed.object] at hv
    induction ms with
    | nil => rfl
    | cons m ms ih =>
      simp only [List.all_cons, Bool.and_eq_true] at hv
      obtain ⟨hk, hn⟩ := h m.1 m.2 hv.1
      rw [Json.noKey] at hn
      simp [Json.allMembersIn, hk, hn, ih hv.2]
  | arr xs => exact noEncrypted_of_noKeyword hv
  | null | bool _ | int _ | real _ | str _ => rfl

theorem noEncrypted_innerSlot {v : Json} (h : Placed.innerSlot v) :
    v.noKey (· == "encrypted") := by
  refine noEncrypted_object (fun key v hr => ?_) h
  simp only [Bool.and_eq_true, bne_iff_ne] at hr
  exact ⟨hr.1.2, noEncrypted_of_noKeyword hr.2⟩

theorem noEncrypted_encrypted {v : Json} (h : Placed.encrypted v) :
    v.noKey (· == "encrypted") := by
  refine noEncrypted_object (fun key v hr => ?_) h
  simp only [Bool.and_eq_true, bne_iff_ne] at hr
  refine ⟨hr.1, ?_⟩
  split_ifs at hr with hs
  · refine noEncrypted_object (fun name slot hn => ?_) hr.2
    simp only [Bool.and_eq_true, bne_iff_ne, Bool.not_eq_true'] at hn
    refine ⟨?_, noEncrypted_innerSlot hn.2⟩
    rintro rfl
    exact absurd hn.1.2 (by decide)
  · exact noEncrypted_of_noKeyword hr.2

/-- Members that are silent on their own are silent together. -/
theorem reachMembers_of_forall {p : Place} {ms : List (String × Json)}
    (h : ∀ m ∈ ms, reach (p.member m.1 m.2) m.2 = some []) : reachMembers p ms = some [] := by
  induction ms with
  | nil => rfl
  | cons m ms ih =>
    obtain ⟨key, v⟩ := m
    rw [List.forall_mem_cons] at h
    rw [reachMembers, h.1, ih h.2]
    split <;> rfl

/-- A slot is entered as such when it is an object, and has no keyword when it is not. -/
theorem reach_slot {name : String} {v : Json} (hn : name ≠ "") (h : Placed.slot v) :
    reach (Place.member { isSlots := true } name v) v = some [] := by
  apply reach_of_quiet
  cases v with
  | obj ms => exact .inl (by simp [Place.member, Json.isObject, hn])
  | arr xs => exact .inr (.inr h)
  | null | bool _ | int _ | real _ | str _ => exact .inr (.inr rfl)

/-- The object of the slots has no keyword of its own, and each of its members is a slot. -/
theorem reach_slots {v : Json} (h : Placed.slots Placed.slot v) :
    reach { isSlots := true } v = some [] := by
  cases v with
  | obj ms =>
    have hm : ∀ m ∈ ms, m.1 ≠ "" ∧ isKeyword m.1 = false ∧ Placed.slot m.2 := by
      simpa [Placed.slots, Placed.object, and_assoc] using h
    have hl (key : String) (hk : isKeyword key) : ms.lookup key = none := by
      rw [List.lookup_eq_none_iff]
      intro m hmem
      have := (hm m hmem).2.1
      grind
    have hlevel : Collect.level false false (.obj ms) = some [] := by
      simp [Collect.entry, Collect.atMember, hl _ (by decide : isKeyword "partitions"),
        hl _ (by decide : isKeyword "slots"), hl _ (by decide : isKeyword "encrypted")]
    rw [reach, hlevel, reachMembers_of_forall fun m hmem => reach_slot (hm m hmem).1 (hm m hmem).2.2]
    rfl
  | arr xs => exact reach_of_quiet _ _ (.inr (.inr h))
  | null | bool _ | int _ | real _ | str _ => simp [reach]

theorem reach_entry {v : Json} (h : Placed.entry v) : reach {} v = Collect.entry v := by
  simp only [Placed.entry, Bool.and_eq_true] at h
  obtain ⟨ms, rfl⟩ := Json.isObject_iff.1 h.1
  have hm := h.2
  simp only [Placed.object, List.all_eq_true] at hm
  have hsilent : reachMembers {} ms = some [] := by
    refine reachMembers_of_forall fun m hmem => ?_
    obtain ⟨key, v⟩ := m
    have hr := hm _ hmem
    dsimp only at hr ⊢
    split_ifs at hr with hs he
    · subst hs
      simpa [Place.member] using reach_slots hr
    · subst he
      exact reach_of_quiet _ _ (.inr (.inl ⟨rfl, noEncrypted_encrypted hr⟩))
    · exact reach_of_quiet _ _ (.inr (.inr hr))
  rw [reach, hsilent]
  simp

theorem reach_eq_of_wellPlaced {entries : List Json} (h : wellPlaced (.arr entries)) :
    reach {} (.arr entries) = Collect.concat Collect.entry entries := by
  rw [reach]
  simp only [wellPlaced] at h
  induction entries with
  | nil => rfl
  | cons v entries ih =>
    simp only [List.all_cons, Bool.and_eq_true] at h
    have hobj : v.isObject := by
      simp only [Placed.entry, Bool.and_eq_true] at h
      exact h.1.1
    rw [reachElems, Collect.concat, if_pos (by simp [hobj]), ih h.2]
    have : reach (Place.elem {}) v = Collect.entry v := reach_entry h.1
    rw [this]

/-! ### The visits are the flattening -/

/-- The partitions of the map in document order: per entry its partitions, its slots in key order
and its container followed by the children, numbered from 1. -/
def flatten (pmap : Json) : Option (List Partition) :=
  (numberGroups 0) <$> Collect.concat Collect.entry pmap.elems

/-- A callback that also records the partitions it is called on. -/
def recording {σ : Type} (func : Partition → σ → Except LoadError σ) (p : Partition)
    (st : List Partition × σ) : Except LoadError (List Partition × σ) := do
  return (st.1 ++ [p], ← func p st.2)

theorem visitAll_recording {σ : Type} {func : Partition → σ → Except LoadError σ}
    {ps : List Partition} {st r : List Partition × σ}
    (h : visitAll (recording func) ps st = .ok r) : r.1 = st.1 ++ ps := by
  induction ps generalizing st with
  | nil =>
    cases h
    simp
  | cons p ps ih =>
    simp only [visitAll, recording, bind_eq_ok_iff, leaving_eq_ok_iff, pure_eq_ok_iff] at h
    obtain ⟨_, ⟨acc, -, rfl⟩, h⟩ := h
    simpa using ih h

/-- A map with a slot, a container in a slot and a plain partition after them. -/
def slottedMap : Json :=
  .arr [
    .obj [("attributes", .obj [("system_type", .str "slotted")])],
    .obj [("slots", .obj [
      ("A", .obj [
        ("encrypted", .obj [
          ("luks2", .obj [("cipher", .str "aes"), ("etype", .str "raw"), ("hash", .str "sha256"),
            ("key_size", .int 256), ("mname", .str "root")]),
          ("partitions", .arr [.obj [("image", .str "root")]])]),
        ("partitions", .arr [.obj [("image", .str "boot")]])])])],
    .obj [("partitions", .arr [.obj [("image", .str "data")]])]]

theorem sorted_slottedMap : slottedMap.Sorted := by
  simp only [slottedMap, Json.Sorted, Json.SortedElems, Json.SortedMembers]
  decide

/-- The visits of `slottedMap`. -/
def slottedVisits : List Partition :=
  [{ image := "boot", order := 1 },
    { order := 2, luks := some { cipher := "aes", hash := "sha256", keySize := 256, mname := "root" } },
    { image := "root", order := 3, parent := some 2 },
    { image := "data", order := 4 }]

end RpiFastbootd
