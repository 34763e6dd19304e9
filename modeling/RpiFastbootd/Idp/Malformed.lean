import RpiFastbootd.Idp.Accept

/-!
# Malformed maps

A map is malformed when an entry is not an object, a container lies inside another one, or a slot
has no name.  None of the three is looked for.  The only malformed maps that are noticed as such
are those with an entry that is neither an object nor null before the first entry with a system
type, where the search for that type raises; every other one is accepted when what the walk comes
to is in order (`malformed_rejected_iff`).
-/

namespace RpiFastbootd

/-! ### Malformed maps -/

/-- An object under the key `encrypted`. -/
def isContainer (key : String) (v : Json) : Bool := key == "encrypted" && v.isObject

/-- Some container of the tree has a container inside it. -/
def nestedContainer (v : Json) : Bool :=
  !v.allMembers fun key w => !(isContainer key w && !w.allMembers fun k x => !isContainer k x)

/-- Some object under the key `slots` has a member without a name. -/
def namelessSlot (v : Json) : Bool :=
  !v.allMembers fun key w => !(key == "slots" && (w.members.lookup "").isSome)

/-- The map of a description. -/
def provisionMap (root : Json) : Json := getJSON root ["layout", "provisionmap"]

def malformed (pmap : Json) : Bool :=
  (pmap.elems.any fun e => !e.isObject) || nestedContainer pmap || namelessSlot pmap

/-! ### The search for the system type -/

/-- The entry holds `attributes.system_type`. -/
def hasSystemType (entry : Json) : Bool :=
  match entry.members.lookup "attributes" with
  | some attrs => (attrs.members.lookup "system_type").isSome
  | none => false

/-- The entries the search passes before its first hit. -/
def entriesBefore (entries : List Json) : List Json := entries.takeWhile fun e => !hasSystemType e

/-- What the search of the navigator makes of the entries, when the attribute check has found the
type `type` in them. -/
def SearchResult (entries : List Json) (type : String) : Prop :=
  (findSystemType entries = .ok (some type) ∧
      ∀ e ∈ entriesBefore entries, e.isObject ∨ e.isNull) ∨
    (∃ what, findSystemType entries = .error what) ∧
      ∃ e ∈ entriesBefore entries, ¬ (e.isObject ∨ e.isNull)

theorem SearchResult.skip {e : Json} {entries : List Json} {type : String}
    (h : SearchResult entries type) (he : e.isObject ∨ e.isNull) (ht : hasSystemType e = false)
    (hf : findSystemType (e :: entries) = findSystemType entries) :
    SearchResult (e :: entries) type := by
  have hb : entriesBefore (e :: entries) = e :: entriesBefore entries := by
    simp [entriesBefore, ht]
  unfold SearchResult
  rw [hf, hb]
  rcases h with ⟨h, hall⟩ | ⟨h, x, hx, hn⟩
  · exact .inl ⟨h, List.forall_mem_cons.2 ⟨he, hall⟩⟩
  · exact .inr ⟨h, x, List.mem_cons_of_mem e hx, hn⟩

/-- The search finds the type too, unless it has to ask a value that has no members. -/
theorem searchResult_of_nestedString {entries : List Json} {type : String}
    (h : JCHK.nestedString "attributes" "system_type" entries = .ok type) :
    SearchResult entries type := by
  induction entries with
  | nil => exact (refuse_ne_ok h).elim
  | cons e entries ih =>
    cases e with
    | obj ms =>
      cases ha : ms.lookup "attributes" with
      | none =>
        refine (ih ?_).skip (.inl rfl) (by simp [hasSystemType, Json.members, ha]) ?_
        · simpa [JCHK.nestedString, Json.isObject, ha, raises] using h
        · simp [findSystemType, ha]
      | some attrs =>
        simp only [JCHK.nestedString, Json.isObject, if_true, Json.isMember_obj, Json.get_obj, ha,
          Option.isSome_some, Option.getD_some, raises, ok_bind] at h
        cases attrs with
        | obj as =>
          cases hs : as.lookup "system_type" with
          | none =>
            simp only [Json.isMember_obj, hs, Option.isSome_none, ok_bind] at h
            refine (ih h).skip (.inl rfl) (by simp [hasSystemType, Json.members, ha, hs]) ?_
            simp [findSystemType, ha, hs]
          | some t =>
            simp only [Json.isMember_obj, hs, Option.isSome_some, ok_bind, if_true] at h
            have hget := (JCHK.get_of_string h).1
            rw [Json.get_obj, hs] at hget
            refine .inl ⟨?_, by simp [entriesBefore, hasSystemType, Json.members, ha, hs]⟩
            simp_all [findSystemType, Json.asString]
        | null =>
          refine (ih h).skip (.inl rfl) (by simp [hasSystemType, Json.members, ha]) ?_
          simp only [findSystemType, Json.isMember_obj, Json.get_obj, ha]
          rfl
        | bool _ | int _ | real _ | str _ | arr _ => cases h
    | null => exact (ih h).skip (.inr rfl) rfl rfl
    | bool _ | int _ | real _ | str _ | arr _ =>
      exact .inr ⟨⟨_, rfl⟩, _, List.mem_cons_self, by simp [Json.isObject, Json.isNull]⟩

/-! ### Descriptions that are otherwise in order -/

/-- The map and its system type are where the attribute checks look for them. -/
def MapFound (root pmap : Json) : Prop :=
  ∃ layout type, JCHK.tree root "layout" = .ok layout ∧
    JCHK.array layout "provisionmap" = .ok pmap ∧
    JCHK.nestedInArray pmap "attributes" "system_type" = .ok type ∧
    (type = "flat" ∨ type = "slotted")

/-- Everything the loader reads of a description is in order, the navigator's search for the
system type apart: the version, the header, the levels the walk comes to and the images of the
partitions it visits. -/
def Readable (root : Json) : Prop :=
  ∃ image pmap gs, IDPparser.igVersion root = .ok () ∧ HeaderChecks root image ∧
    MapFound root pmap ∧ reach {} pmap = some gs ∧ Described root image (numberGroups 0 gs)

theorem create_ok_iff {entries : List Json} {type : String}
    (h : JCHK.nestedString "attributes" "system_type" entries = .ok type)
    (ht : type = "flat" ∨ type = "slotted") :
    (∃ stack, PartitionNavigator.create (.arr entries) = .ok (some stack)) ↔
      ∀ e ∈ entriesBefore entries, e.isObject ∨ e.isNull := by
  rcases searchResult_of_nestedString h with ⟨hf, hall⟩ | ⟨⟨what, hf⟩, x, hx, hn⟩
  · refine iff_of_true ⟨rootStack (.arr entries), ?_⟩ hall
    have hne : ¬ (type ≠ "flat" ∧ type ≠ "slotted") := by tauto
    simp [PartitionNavigator.create, Json.isArray, Json.elems, hf, hne, pure, Except.pure]
  · refine iff_of_false ?_ fun hall => hn (hall x hx)
    rintro ⟨stack, hs⟩
    simp [PartitionNavigator.create, Json.isArray, Json.elems, hf] at hs

theorem parsePMAPv1_ok_iff {root pmap : Json} :
    parsePMAPv1 root = .ok pmap ↔
      MapFound root pmap ∧ ∀ e ∈ entriesBefore pmap.elems, e.isObject ∨ e.isNull := by
  simp only [parsePMAPv1, MapFound, bind_eq_ok_iff]
  constructor
  · rintro ⟨layout, hl, m, hm, type, ht, h⟩
    split_ifs at h with hf
    · exact (refuse_ne_ok h).elim
    simp only [bind_eq_ok_iff, raises_eq_ok_iff] at h
    obtain ⟨nav, hc, h⟩ := h
    cases nav with
    | none => exact (refuse_ne_ok h).elim
    | some stack =>
      obtain rfl := pure_eq_ok_iff.1 h
      obtain ⟨entries, rfl⟩ := Json.isArray_iff.1 (JCHK.get_of_array hm).2
      have htype : type = "flat" ∨ type = "slotted" := by tauto
      have hn : JCHK.nestedString "attributes" "system_type" entries = .ok type := by
        simpa [JCHK.nestedInArray, Json.isArray, Json.elems] using ht
      exact ⟨⟨layout, type, hl, hm, ht, htype⟩, (create_ok_iff hn htype).1 ⟨stack, hc⟩⟩
  · rintro ⟨⟨layout, type, hl, hm, ht, htype⟩, hall⟩
    obtain ⟨entries, rfl⟩ := Json.isArray_iff.1 (JCHK.get_of_array hm).2
    have hn : JCHK.nestedString "attributes" "system_type" entries = .ok type := by
      simpa [JCHK.nestedInArray, Json.isArray, Json.elems] using ht
    obtain ⟨stack, hc⟩ := (create_ok_iff hn htype).2 hall
    refine ⟨layout, hl, _, hm, type, ht, ?_⟩
    rw [if_neg (by tauto), hc]
    rfl

theorem provisionMap_eq {root pmap : Json} (h : MapFound root pmap) : provisionMap root = pmap := by
  obtain ⟨layout, -, hl, hp, -⟩ := h
  obtain ⟨hp, ha⟩ := JCHK.get_of_array hp
  have hpn : pmap.isNull = false := by
    cases pmap <;> simp_all [Json.isArray, Json.isNull]
  have hln : layout.isNull = false := by
    cases layout with
    | null =>
      cases hp
      cases ha
    | _ => rfl
  rw [provisionMap, getJSON_of_get (JCHK.get_of_tree hl) hln, getJSON_of_get hp hpn, getJSON]

/-- A malformed map is rejected exactly when, everything else being in order, an entry that is
neither an object nor null stands before the first entry with a system type. -/
theorem malformed_rejected_iff (reader : String → Except String Json.Doc) (text : String)
    (doc : Json.Doc) (hd : reader text = .ok doc) (p : IDPparser) :
    (malformed (provisionMap doc.root) → (p.loadJSON reader text).1 ≠ .ok ()) ↔
      (malformed (provisionMap doc.root) → Readable doc.root →
        ∃ e ∈ entriesBefore (provisionMap doc.root).elems, ¬ (e.isObject ∨ e.isNull)) := by
  have haccept : (∃ image pmap gs, Loads doc.root image pmap gs) ↔ Readable doc.root ∧
      ∀ e ∈ entriesBefore (provisionMap doc.root).elems, e.isObject ∨ e.isNull := by
    constructor
    · rintro ⟨image, pmap, gs, hv, hh, hr, hdesc⟩
      obtain ⟨hf, hall⟩ := parsePMAPv1_ok_iff.1 hh.map
      rw [provisionMap_eq hf]
      exact ⟨⟨image, pmap, gs, hv, hh.toHeaderChecks, hf, hr, hdesc⟩, hall⟩
    · rintro ⟨⟨image, pmap, gs, hv, hh, hf, hr, hdesc⟩, hall⟩
      rw [provisionMap_eq hf] at hall
      exact ⟨image, pmap, gs, hv, ⟨hh, parsePMAPv1_ok_iff.2 ⟨hf, hall⟩⟩, hr, hdesc⟩
  rw [ne_eq, IDPparser.loadJSON_fst_ok_iff hd, haccept]
  simp only [not_and, not_forall, exists_prop]

/-! ### Maps that pass -/

/-- A partition after a scalar entry. -/
def truncatedMap : List Json := [plainEntry ["boot"], .int 0, plainEntry ["root"]]

/-- A container inside a container. -/
def nestedMap : List Json :=
  [.obj [("encrypted", .obj [
    ("encrypted", .obj [("luks2", luksNode "raw" "inner"), ("partitions", .arr [])]),
    ("luks2", luksNode "raw" "outer"),
    ("partitions", .arr [.obj [("image", .str "root")]])])]]

/-- A slot without a name. -/
def namelessMap : List Json :=
  [.obj [("slots", .obj [("", plainEntry ["root"])])]]

/-- A description with one of these maps. -/
def malformedDoc (entries : List Json) : Json :=
  describe "1M" [("boot", imageNode 1), ("root", imageNode 1)] entries

theorem sorted_malformedDoc {entries : List Json} (h : Json.SortedElems entries) :
    (malformedDoc entries).Sorted := by
  refine sorted_describe "1M" ?_ h
  simp only [Json.Sorted, Json.SortedMembers, sorted_imageNode, List.map_cons, List.map_nil]
  decide

def truncatedDoc : Json.Doc where
  root := malformedDoc truncatedMap
  sorted := sorted_malformedDoc (by
    simp only [truncatedMap, Json.SortedElems, Json.Sorted, sorted_plainEntry]
    decide)

def nestedDoc : Json.Doc where
  root := malformedDoc nestedMap
  sorted := sorted_malformedDoc (by
    simp only [nestedMap, Json.SortedElems, Json.Sorted, Json.SortedMembers, sorted_luksNode]
    decide)

def namelessDoc : Json.Doc where
  root := malformedDoc namelessMap
  sorted := sorted_malformedDoc (by
    simp only [namelessMap, Json.SortedElems, Json.Sorted, Json.SortedMembers, sorted_plainEntry]
    decide)

/-- Container or not, position and parent of the partitions of a parser. -/
def shape (p : IDPparser) : List (Bool × ℤ × ℤ) :=
  p.partitions.map fun q => (q.isCryptContainer, q.index, q.parentIndex)

/-- The three kinds of malformed maps load: without the partition after the scalar, with the
inner container at the top level, with the partition of the nameless slot twice. -/
theorem malformed_maps_load :
    (malformed (provisionMap truncatedDoc.root) ∧ (loadDoc truncatedDoc).1 = .ok () ∧
      shape (loadDoc truncatedDoc).2 = [(false, 0, -1)]) ∧
    (malformed (provisionMap nestedDoc.root) ∧ (loadDoc nestedDoc).1 = .ok () ∧
      shape (loadDoc nestedDoc).2 = [(true, 0, -1), (false, 1, 0), (true, 2, -1)]) ∧
    malformed (provisionMap namelessDoc.root) ∧ (loadDoc namelessDoc).1 = .ok () ∧
      shape (loadDoc namelessDoc).2 = [(false, 0, -1), (false, 1, -1)] := by
  decide +kernel

/-- The map with a scalar entry passes because nothing before its system type is odd. -/
theorem malformed_truncatedDoc_unnoticed :
    ¬ (malformed (provisionMap truncatedDoc.root) → Readable truncatedDoc.root →
      ∃ e ∈ entriesBefore (provisionMap truncatedDoc.root).elems, ¬ (e.isObject ∨ e.isNull)) := by
  intro h
  have hreject := (malformed_rejected_iff (fun _ => .ok truncatedDoc) "" truncatedDoc rfl {}).2 h
  exact hreject (by decide +kernel) (by decide +kernel)

end RpiFastbootd
