import RpiFastbootd.Lib.Path
import RpiFastbootd.Fastboot.Partition

/-!
# Where the name of a partition leads

`FindPhysicalPartition` puts `/dev/` in front of a name that does not begin with `/dev`, and turns
names down in which two dots stand between separators.  A name can still end with two dots, be a
dot or nothing, or go on after `/dev` without a separator (`partition_below_dev_iff`).
-/

namespace RpiFastbootd

/-- The check for an attempted traversal. -/
def Traverses (name : String) : Prop :=
  hasPrefix "../" name = true ∨ hasInfix "/../" name = true

instance (name : String) : Decidable (Traverses name) := by unfold Traverses; infer_instance

/-- The path that is looked up for a name. -/
def devPath (name : String) : String := if hasPrefix "/dev" name then name else "/dev/" ++ name

/-- What the name adds to `/dev/`. -/
def afterDev (name : String) : List Char :=
  if hasPrefix "/dev" name then name.toList.drop 5 else name.toList

/-- The name is turned down, or has names after `/dev/`, enough for two dots at the end. -/
def StaysInDev (name : String) : Prop :=
  Traverses name ∨
    ((hasPrefix "/dev" name = true → hasPrefix "/dev/" name = true) ∧
      Descends (components (afterDev name)))

theorem findPhysicalPartition_eq_some_iff {writable : String → Bool} {name path : String} :
    findPhysicalPartition writable name = some path ↔
      ¬ Traverses name ∧ writable (devPath name) = true ∧ path = devPath name := by
  unfold findPhysicalPartition
  simp only [Bool.or_eq_true]
  show (if Traverses name then none else if writable (devPath name) = true then some (devPath name)
    else none) = some path ↔ _
  split_ifs with htraverses hwritable
  · simp [htraverses]
  · simp [htraverses, hwritable, eq_comm]
  · simp [hwritable]

def dev : List Char := "dev".toList

/-- The path of a name that keeps to the separator. -/
theorem toList_devPath {name : String}
    (h : hasPrefix "/dev" name = true → hasPrefix "/dev/" name = true) :
    (devPath name).toList = '/' :: dev ++ '/' :: afterDev name := by
  unfold devPath afterDev
  split_ifs with hdev
  · obtain ⟨rest, hrest⟩ := hasPrefix_iff.1 (h hdev)
    rw [← hrest]
    rfl
  · rw [String.toList_append]
    rfl

theorem components_dev (rest : List Char) :
    components ('/' :: dev ++ '/' :: rest) = [] :: dev :: components rest := by
  unfold components
  rw [List.cons_append, ← List.nil_append ('/' :: _),
    List.splitOn_append_cons_self_of_not_mem (List.not_mem_nil),
    List.splitOn_append_cons_self_of_not_mem (by decide)]

theorem normalize_dev (rest : List Char) :
    normalize ('/' :: dev ++ '/' :: rest) = resolve [dev] (components rest) := by
  rw [normalize, components_dev]
  rfl

/-- What is not turned down has two dots at the end only. -/
theorem parent_not_mem_afterDev {name : String} (hno : ¬ Traverses name)
    (h : hasPrefix "/dev" name = true → hasPrefix "/dev/" name = true) :
    parent ∉ (components (afterDev name)).dropLast := by
  intro hmem
  refine hno ?_
  unfold afterDev at hmem
  split_ifs at hmem with hdev
  · obtain ⟨rest, hrest⟩ := hasPrefix_iff.1 (h hdev)
    rw [← hrest] at hmem
    refine .inr (hasInfix_iff.2 ?_)
    rw [← hrest]
    obtain ⟨tail, htail⟩ | hin := parent_mem_dropLast hmem
    · refine ⟨"/dev".toList, tail, ?_⟩
      change _ = rest at htail
      rw [← htail]
      rfl
    · exact hin.trans (List.suffix_append _ _).isInfix
  · obtain hpre | hin := parent_mem_dropLast hmem
    · exact .inl (hasPrefix_iff.2 hpre)
    · exact .inr (hasInfix_iff.2 hin)

/-- A name that goes on after `/dev` without a separator leads elsewhere. -/
theorem not_below_of_joined {name : String} (hno : ¬ Traverses name)
    (hdev : hasPrefix "/dev" name = true) (hsep : ¬ hasPrefix "/dev/" name = true) :
    ¬ Below [dev] (devPath name).toList := by
  obtain ⟨t, ht⟩ := hasPrefix_iff.1 hdev
  have hpath : (devPath name).toList = '/' :: (dev ++ t) := by
    rw [devPath, if_pos hdev, ← ht]
    rfl
  obtain ⟨b, cs, hcs⟩ := List.exists_cons_of_ne_nil (List.splitOn_ne_nil '/' t)
  have hcomponents : components (dev ++ t) = (dev ++ b) :: cs := by
    show components ('d' :: 'e' :: 'v' :: t) = _
    simp [components, List.splitOn_cons_eq_if_modifyHead, hcs, dev]
  have hnormal : normalize (devPath name).toList = resolve [dev ++ b] cs := by
    have hsplit : components ('/' :: (dev ++ t)) = [] :: (dev ++ b) :: cs := by
      rw [← hcomponents]
      exact List.splitOn_append_cons_self_of_not_mem (List.not_mem_nil) (dev ++ t)
    rw [hpath, normalize, hsplit]
    show resolve (enter (enter [] []) (dev ++ b)) cs = _
    simp [enter, isName, parent, dev]
  have hlast : parent ∉ cs.dropLast := by
    intro hmem
    have hne : cs ≠ [] := by
      rintro rfl
      cases hmem
    obtain ⟨tail, htail⟩ | hin := @parent_mem_dropLast (dev ++ t) (by
      rw [hcomponents, List.dropLast_cons_of_ne_nil hne]
      exact List.mem_cons_of_mem _ hmem)
    · have hhead : some '.' = some 'd' := congrArg (List.head? ·) htail
      exact absurd hhead (by decide)
    · refine hno (.inr (hasInfix_iff.2 (hin.trans ?_)))
      rw [← ht]
      exact ⟨['/'], [], by rw [List.append_nil]; rfl⟩
  rintro ⟨c, rest, hrest⟩
  rw [hnormal] at hrest
  cases t with
  | nil =>
    obtain ⟨rfl, rfl⟩ : b = [] ∧ cs = [] := by simpa using hcs.symm
    cases hrest
  | cons a t =>
    refine not_resolve_below ?_ hlast _ hrest
    have ha : a ≠ '/' := by
      rintro rfl
      refine hsep (hasPrefix_iff.2 ⟨t, ?_⟩)
      rw [← ht]
      rfl
    rw [List.splitOn_cons_eq_if_modifyHead, if_neg (by simpa using ha)] at hcs
    obtain ⟨b', cs', hcs'⟩ := List.exists_cons_of_ne_nil (List.splitOn_ne_nil '/' t)
    rw [hcs', List.modifyHead_cons] at hcs
    rw [← (List.cons.inj hcs).1]
    simp

/-- Every name that is not turned down leads below `/dev/` exactly if it keeps to the separator and
descends. -/
theorem partition_below_dev_iff (name : String) :
    (∀ writable path, findPhysicalPartition writable name = some path →
        Below [dev] path.toList) ↔ StaysInDev name := by
  unfold StaysInDev
  by_cases hno : Traverses name
  · refine iff_of_true (fun writable path h => ?_) (.inl hno)
    exact absurd hno (findPhysicalPartition_eq_some_iff.1 h).1
  have hfind : (∀ writable path, findPhysicalPartition writable name = some path →
      Below [dev] path.toList) ↔ Below [dev] (devPath name).toList := by
    simp only [findPhysicalPartition_eq_some_iff]
    exact ⟨fun h => h (fun _ => true) _ ⟨hno, rfl, rfl⟩, fun h _ path hpath => hpath.2.2 ▸ h⟩
  rw [hfind, or_iff_right hno]
  by_cases hsep : hasPrefix "/dev" name = true → hasPrefix "/dev/" name = true
  · rw [and_iff_right hsep, toList_devPath hsep, Below, normalize_dev]
    exact resolve_below_iff (parent_not_mem_afterDev hno hsep)
  · rw [Classical.not_imp] at hsep
    exact iff_of_false (not_below_of_joined hno hsep.1 hsep.2) fun h => hsep.2 (h.1 hsep.1)

/-- Two dots and a dot lead to the root and to `/dev` itself, and a name can go on after `/dev`. -/
theorem partition_outside_dev :
    findPhysicalPartition (fun _ => true) ".." = some "/dev/.." ∧
      normalize "/dev/..".toList = [] ∧
    findPhysicalPartition (fun _ => true) "." = some "/dev/." ∧
      normalize "/dev/.".toList = [dev] ∧
    findPhysicalPartition (fun _ => true) "/devices/disk" = some "/devices/disk" ∧
      normalize "/devices/disk".toList = ["devices".toList, "disk".toList] ∧
    ¬ ∀ name writable path, findPhysicalPartition writable name = some path →
      Below [dev] path.toList := by
  refine ⟨by decide +kernel, by decide +kernel, by decide +kernel, by decide +kernel,
    by decide +kernel, by decide +kernel, fun h => ?_⟩
  obtain ⟨c, rest, hnormal⟩ := h ".." (fun _ => true) "/dev/.." (by decide +kernel)
  rw [show normalize "/dev/..".toList = [] by decide +kernel] at hnormal
  cases hnormal

end RpiFastbootd
