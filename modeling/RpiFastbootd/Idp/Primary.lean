import RpiFastbootd.Idp.Attributes

/-!
# The limit on primary partitions

On a DOS partition table the parser refuses the fifth partition it visits.  The order it looks at
counts every partition of the map, so containers and their children count like the top-level ones,
although a child is created in the table of its container.  A description that nothing else stands
against is refused exactly when it has more than four partitions in all (`refused_iff`).
-/

namespace RpiFastbootd

/-- The same image with a GPT, which has no limit. -/
def IDPimage.withGpt (image : IDPimage) : IDPimage :=
  { image with deviceStorage.ptableType := .gpt }

/-- A description with a DOS partition table whose version, header, levels and images are all in
order: only the limit on primary partitions can stand against it. -/
def OtherwiseValid (root : Json) : Prop :=
  ∃ image pmap gs, IDPparser.igVersion root = .ok () ∧ Header root image pmap ∧
    image.deviceStorage.ptableType = .dos ∧ reach {} pmap = some gs ∧
    Described root image.withGpt (numberGroups 0 gs)

/-- The top-level partitions among those the walk visits. -/
def topLevel (root : Json) : List Partition := (visited root).filter fun q => q.parent.isNone

/-- What the load reports when the limit is exceeded. -/
def primaryLimit : String :=
  "Partition processing failed: MBR support restricted to primary partitions only"

/-! ### One partition -/

theorem partitionBody_within {root : Json} {image : IDPimage} {q : Partition} (h : q.order ≤ 4) :
    partitionBody root image q = partitionBody root image.withGpt q := by
  have hn : ¬ (image.deviceStorage.ptableType = .dos ∧ q.order > 4) := by omega
  have hg : ¬ (image.withGpt.deviceStorage.ptableType = .dos ∧ q.order > 4) := by omega
  simp only [partitionBody, if_neg hn, if_neg hg]
  rfl

theorem partitionBody_beyond {root : Json} {image : IDPimage} {q : Partition} {e : IDPpartition}
    (hdos : image.deviceStorage.ptableType = .dos) (h : 4 < q.order)
    (hb : partitionBody root image.withGpt q = .ok e) :
    partitionBody root image q = refuse "MBR support restricted to primary partitions only" := by
  have hlimit : image.deviceStorage.ptableType = .dos ∧ q.order > 4 := ⟨hdos, h⟩
  simp only [partitionBody, if_pos hlimit] at hb ⊢
  -- the image of a plain partition has been looked up before the limit is
  by_cases hc : q.isCryptContainer
  · rw [if_pos hc]
    rfl
  · rw [if_neg hc, bind_eq_ok_iff] at hb
    obtain ⟨attrs, ha, -⟩ := hb
    rw [if_neg hc, ha]
    rfl

/-! ### The visits -/

/-- The visits up to the fourth are described, the fifth is refused. -/
theorem visitAll_dos {root : Json} {image : IDPimage}
    (hdos : image.deviceStorage.ptableType = .dos) {n : ℕ} (hn : n ≤ 4) {ps : List Partition}
    (hd : Described root image.withGpt ps) (hnum : Numbered n ps) (st : Collected) :
    (n + ps.length ≤ 4 ∧ ∃ st', visitAll (addPartition root image) ps st = .ok st') ∨
      4 < n + ps.length ∧ ∃ st', visitAll (addPartition root image) ps st =
        .error (.refused "MBR support restricted to primary partitions only", st') := by
  induction ps generalizing n st with
  | nil => exact .inl ⟨hn, st, rfl⟩
  | cons q ps ih =>
    obtain ⟨⟨e, he⟩, hps⟩ := List.forall_mem_cons.1 hd
    have ho : q.order = n + 1 := by simpa using hnum.order 0 q rfl
    rw [visitAll, List.length_cons]
    by_cases h4 : q.order ≤ 4
    · obtain ⟨mid, hm⟩ : ∃ mid, addPartition root image q st = .ok mid := by
        rw [addPartition, partitionBody_within h4, he]
        exact ⟨_, rfl⟩
      rw [hm]
      have := ih (by omega) hps hnum.tail mid
      rw [Nat.add_assoc, Nat.add_comm 1] at this
      exact this
    · refine .inr ⟨by omega, st, ?_⟩
      rw [addPartition, partitionBody_beyond hdos (by omega) he]
      rfl

/-! ### The load -/

section

variable {reader : String → Except String Json.Doc} {text : String} {doc : Json.Doc}
  {p : IDPparser}

/-- A description in order is accepted with up to four partitions and refused with more. -/
theorem load_dos (hd : reader text = .ok doc) (h : OtherwiseValid doc.root) :
    ((visited doc.root).length ≤ 4 ∧ (p.loadJSON reader text).1 = .ok ()) ∨
      4 < (visited doc.root).length ∧ (p.loadJSON reader text).1 = refuse primaryLimit := by
  obtain ⟨image, pmap, gs, hv, hh, hdos, hr, hdesc⟩ := h
  rw [visited_eq doc.sorted hh hr]
  have hvisits := visitAll_dos hdos (Nat.zero_le 4) hdesc (numbered_numberGroups gs) {}
  rw [Nat.zero_add] at hvisits
  unfold IDPparser.loadJSON IDPparser.igValidate IDPparser.parseIGv2 IDPparser.collectPartitions
  rw [hd]
  dsimp only
  rw [hv, parseImage_ok_iff.2 hh]
  dsimp only
  rw [foreachPartition_eq_visitAll (hh.sorted doc.sorted) hr]
  refine hvisits.imp ?_ ?_
  · rintro ⟨hlen, st, hst⟩
    rw [hst]
    exact ⟨hlen, rfl⟩
  · rintro ⟨hlen, st, hst⟩
    rw [hst]
    exact ⟨hlen, rfl⟩

theorem refused_iff (hd : reader text = .ok doc) (h : OtherwiseValid doc.root) :
    (p.loadJSON reader text).1 = refuse primaryLimit ↔ 4 < (visited doc.root).length := by
  rcases @load_dos reader text doc p hd h with ⟨hlen, hok⟩ | ⟨hlen, hrefused⟩
  · rw [hok]
    exact iff_of_false (by simp [refuse]) (by omega)
  · exact iff_of_true hrefused hlen

end

/-- The limit is one on the top-level partitions exactly where it is met by all partitions
together or exceeded by the top-level ones alone. -/
theorem primary_limit_iff (reader : String → Except String Json.Doc) (text : String)
    (doc : Json.Doc) (hd : reader text = .ok doc) (p : IDPparser) (h : OtherwiseValid doc.root) :
    ((p.loadJSON reader text).1 = refuse primaryLimit ↔ 4 < (topLevel doc.root).length) ↔
      (visited doc.root).length ≤ 4 ∨ 4 < (topLevel doc.root).length := by
  have hle : (topLevel doc.root).length ≤ (visited doc.root).length :=
    List.length_filter_le _ _
  rw [refused_iff hd h]
  omega

/-! ### Children -/

/-- A DOS partition table with one container. -/
def crowdedDoc (children : List String) : Json.Doc where
  root := describeTable "dos" "1M" [("a", imageNode 1)] [.obj [("encrypted", .obj [
    ("luks2", luksNode "partitioned" "crypt"),
    ("partitions", .arr (children.map fun image => .obj [("image", .str image)]))])]]
  sorted := by
    refine sorted_describeTable "dos" "1M" ?_ ?_
    · simp only [Json.Sorted, Json.SortedMembers, sorted_imageNode, List.map_cons, List.map_nil]
      decide
    · simp only [Json.SortedElems, Json.Sorted, Json.SortedMembers, sorted_luksNode,
        sortedElems_images, List.map_cons, List.map_nil]
      decide

/-- Its image attributes. -/
def crowdedImage : IDPimage where
  deviceClass := "cm5"
  deviceVariant := "none"
  version := "1"
  name := "image"
  size := 1
  deviceStorage.type := .sd
  deviceStorage.sectorSize := 512
  deviceStorage.ptableType := .dos
  deviceStorage.ptableAlign := 2 ^ 20

theorem otherwiseValid_of {root : Json} (hs : root.Sorted) {image : IDPimage}
    (hv : IDPparser.igVersion root = .ok ())
    (hi : (parseImage root {}).toOption.map (·.1) = some image)
    (hdos : image.deviceStorage.ptableType = .dos)
    (hr : (reach {} (provisionMap root)).isSome)
    (hd : ∀ q ∈ visited root, (partitionBody root image.withGpt q).toOption.isSome) :
    OtherwiseValid root := by
  obtain ⟨⟨_, pmap⟩, hparse, rfl⟩ := Option.map_eq_some_iff.1 hi
  have hh := parseImage_ok_iff.1 (toOption_eq_some_iff.1 hparse)
  rw [provisionMap_eq (parsePMAPv1_ok_iff.1 hh.map).1] at hr
  obtain ⟨gs, hgs⟩ := Option.isSome_iff_exists.1 hr
  refine ⟨_, pmap, gs, hv, hh, hdos, hgs, fun q hq => ?_⟩
  rw [← visited_eq hs hh hgs] at hq
  obtain ⟨body, hb⟩ := Option.isSome_iff_exists.1 (hd q hq)
  exact ⟨body, toOption_eq_some_iff.1 hb⟩

/-- Four children of one container are refused for the limit on primary partitions. -/
theorem children_exceed_primary_limit :
    OtherwiseValid (crowdedDoc ["a", "a", "a", "a"]).root ∧
      (topLevel (crowdedDoc ["a", "a", "a", "a"]).root).length = 1 ∧
      (loadDoc (crowdedDoc ["a", "a", "a", "a"])).1 = refuse primaryLimit := by
  refine ⟨?_, by decide +kernel, by decide +kernel⟩
  exact @otherwiseValid_of _ (crowdedDoc _).sorted crowdedImage (by decide +kernel)
    (by decide +kernel) (by decide) (by decide +kernel) (by decide +kernel)

/-- Three of them are not. -/
theorem primary_limit_three :
    ((loadDoc (crowdedDoc ["a", "a", "a"])).1 = refuse primaryLimit ↔
        4 < (topLevel (crowdedDoc ["a", "a", "a"]).root).length) ↔
      (visited (crowdedDoc ["a", "a", "a"]).root).length ≤ 4 ∨
        4 < (topLevel (crowdedDoc ["a", "a", "a"]).root).length := by
  have hvalid : OtherwiseValid (crowdedDoc ["a", "a", "a"]).root :=
    @otherwiseValid_of _ (crowdedDoc _).sorted crowdedImage (by decide +kernel) (by decide +kernel)
      (by decide) (by decide +kernel) (by decide +kernel)
  generalize crowdedDoc ["a", "a", "a"] = doc at hvalid ⊢
  exact primary_limit_iff (fun _ => .ok doc) "" doc rfl {} hvalid

end RpiFastbootd
