import RpiFastbootd.Idp.Device

/-!
# What a provisioning run has done

The steps a description asks of the writer are its `plan`.  Most of them end the run when they
fail; the table inside a container is different.  Its `ret` is not that of the loop around it, so
that a table that cannot be opened or created leaves the loop with success, and a failed append or
commit is not seen at all.  `startProvision_sound_iff` says exactly when a reported success can be
trusted.
-/

namespace RpiFastbootd

/-! ### The plan -/

section

variable (image : IDPimage) (all : List IDPpartition)

/-- The device a root partition gets. -/
def rootAssign (x : IDPpartition × ℕ) : Option (ℕ × String) :=
  if x.1.parentIndex = -1 then some (x.2, image.deviceStorage.blockDev (some x.1.num)) else none

/-- The device a child of the container `part` gets. -/
def childAssign (part : IDPpartition) (luks : IDPluks) (x : IDPpartition × ℕ) :
    Option (ℕ × String) :=
  if childOf all part x.1 then some (x.2, luks.blockDev (some x.1.num)) else none

def probeSteps : Option (ℕ × String) → List Step
  | none => []
  | some (i, dev) => [.waitUdevBlockDev i dev, .blockDevReady i dev]

def appendRootSteps (x : IDPpartition × ℕ) : List Step :=
  if x.1.parentIndex = -1 then
    ((tableAttributes image.deviceStorage x.1 (x.1.getSize true all)).map
      (.appendPartition .disk x.2)).toList
  else []

def appendChildSteps (part : IDPpartition) (i : ℕ) (x : IDPpartition × ℕ) : List Step :=
  if childOf all part x.1 then
    ((tableAttributes image.deviceStorage x.1 (x.1.getSize false all)).map
      (.appendPartition (.container i) x.2)).toList
  else []

/-- The table of the disk. -/
def writePlan : List Step :=
  let storage := image.deviceStorage
  [.openDevice .disk (storage.blockDev none) (storage.ptableAlign / 1024)] ++
    ([.createPartitionTable .disk storage.ptableType.text (storage.ptableId.filter (· ≠ ""))] ++
      (all.zipIdx.flatMap (appendRootSteps image all) ++ [.commit .disk]))

/-- The table of the disk and the devices of the root partitions. -/
def physicalPlan : List Step :=
  writePlan image all ++ ([.rereadPartitionTable (image.deviceStorage.blockDev none)] ++
    all.zipIdx.flatMap fun x => probeSteps (rootAssign image x))

/-- The table inside a partitioned container. -/
def tablePlan (part : IDPpartition) (i : ℕ) (luks : IDPluks) : List Step :=
  [.openDevice (.container i) (luks.blockDev (some 0)) (image.deviceStorage.ptableAlign / 1024)] ++
    ([.createPartitionTable (.container i) "GPT" none] ++
      (all.zipIdx.flatMap (appendChildSteps image all part i) ++ [.commit (.container i)]))

/-- What a container with children needs once it is open. -/
def innerPlan (part : IDPpartition) (i : ℕ) (luks : IDPluks) : List Step :=
  (if luks.etype = .partitioned then tablePlan image all part i luks else []) ++
    all.zipIdx.flatMap fun x => probeSteps (childAssign all part luks x)

def containerPlan (part : IDPpartition) (i : ℕ) (luks : IDPluks) : List Step :=
  let cdev := image.deviceStorage.blockDev (some part.num)
  [.luksCreate i cdev] ++ ([.luksOpen i cdev] ++
    (if part.hasChildren all then innerPlan image all part i luks else []))

def cryptSteps (x : IDPpartition × ℕ) : List Step :=
  match x.1.luks with
  | none => []
  | some luks => containerPlan image all x.1 x.2 luks

/-- Every step that the description requires, in the order of the writer. -/
def plan : List Step := physicalPlan image all ++ all.zipIdx.flatMap (cryptSteps image all)

end

/-- A failure of this step is not seen by the writer. -/
def Step.unseen : Step → Bool
  | .appendPartition (.container _) _ _ | .commit (.container _) => true
  | _ => false

/-- A failure of this step ends the run with success. -/
def Step.swallowed : Step → Bool
  | .openDevice (.container _) _ _ | .createPartitionTable (.container _) _ _ => true
  | _ => false

/-- The step at which the run ends before the end of the plan. -/
def firstFatal (env : Step → Bool) (p : List Step) : Option Step :=
  p.find? fun s => !s.unseen && !env s

section

variable {env : Step → Bool} {p q : List Step} {s : Step}

theorem firstFatal_append : firstFatal env (p ++ q) = (firstFatal env p).or (firstFatal env q) :=
  List.find?_append

theorem firstFatal_singleton (h : s.unseen = false) :
    firstFatal env [s] = if env s then none else some s := by
  cases he : env s <;> simp [firstFatal, h, he]

theorem firstFatal_of_all (h : p.all env) : firstFatal env p = none := by
  rw [firstFatal, List.find?_eq_none]
  intro s hs
  simp [List.all_eq_true.1 h s hs]

theorem firstFatal_of_unseen (h : ∀ s ∈ p, s.unseen) : firstFatal env p = none := by
  rw [firstFatal, List.find?_eq_none]
  intro s hs
  simp [h s hs]

/-- Steps whose failure the writer reports. -/
def Step.reported (s : Step) : Bool := !s.unseen && !s.swallowed

theorem firstFatal_of_reported (h : ∀ s ∈ p, s.reported) :
    (firstFatal env p).map Step.swallowed = if p.all env then none else some false := by
  split_ifs with hall
  · rw [firstFatal_of_all hall, Option.map_none]
  · obtain ⟨s, hs, hfail⟩ : ∃ s ∈ p, env s = false := by simpa using hall
    have hsome : (firstFatal env p).isSome := by
      rw [firstFatal, List.find?_isSome]
      have := h s hs
      exact ⟨s, hs, by simp_all [Step.reported]⟩
    obtain ⟨t, ht⟩ := Option.isSome_iff_exists.1 hsome
    have := h t (List.mem_of_find?_eq_some ht)
    simp_all [Step.reported]

end

/-! ### The writer follows its plan -/

/-- Attach devices to the partitions at the given positions. -/
def attachAll (as : List (ℕ × String)) (st : WriterState) : WriterState :=
  as.foldl (fun st a =>
    { st with partitions := st.partitions.modify a.1 (·.setBlockDev a.2) }) st

theorem attachAll_append (as bs : List (ℕ × String)) :
    attachAll bs ∘ attachAll as = attachAll (as ++ bs) :=
  funext fun _ => List.foldl_append.symm

section

variable {env : Step → Bool} {image : IDPimage} {all : List IDPpartition}

theorem follows_failWith (reason : String) :
    Follows env (failWith reason) [] false (fun st => { st with reason }) :=
  follows_update _ false

theorem follows_check (s : Step) :
    Follows env (perform env s : WriterM Bool) [s] ([s].all env) id := by
  simpa using follows_perform s

theorem follows_setPartBlockDev {i : ℕ} {dev : String} (h : dev ≠ "") :
    Follows env (setPartBlockDev env i dev) (probeSteps (some (i, dev)))
      ((probeSteps (some (i, dev))).all env) (attachAll [(i, dev)]) := by
  rw [setPartBlockDev, if_neg h]
  exact (follows_check _).andThen
    ((follows_check _).andThen (follows_update _ true) (follows_pure false)) (follows_pure false)

/-- The writer computes the attributes of every partition, and every container has a mapper
name. -/
structure Writable (image : IDPimage) (all : List IDPpartition) : Prop where
  root : ∀ x ∈ all.zipIdx, x.1.parentIndex = -1 →
    (tableAttributes image.deviceStorage x.1 (x.1.getSize true all)).isSome
  child : ∀ x ∈ all.zipIdx, ∀ part, childOf all part x.1 →
    (tableAttributes image.deviceStorage x.1 (x.1.getSize false all)).isSome
  mname : ∀ x ∈ all.zipIdx, ∀ k, x.1.luks = some k → k.mname ≠ ""

theorem IDPstorage.blockDev_ne_empty (s : IDPstorage) (n : Option ℕ) : s.blockDev n ≠ "" := by
  intro h
  have := congrArg String.length h
  cases hs : s.type <;> cases n <;>
    simp only [IDPstorage.blockDev, hs] at this <;> revert this <;> (try split_ifs) <;>
    simp [String.length_append]

theorem IDPluks.blockDev_ne_empty {k : IDPluks} (h : k.mname ≠ "") (n : Option ℕ) :
    k.blockDev n ≠ "" := by
  intro he
  have := congrArg String.length he
  cases hk : k.etype <;> cases n <;>
    simp only [IDPluks.blockDev, hk, if_neg h] at this <;> revert this <;> (try split_ifs) <;>
    simp [String.length_append]

theorem follows_appendRoot (h : Writable image all) {x : IDPpartition × ℕ} (hx : x ∈ all.zipIdx) :
    Follows env (appendRoot env image all x) (appendRootSteps image all x)
      ((appendRootSteps image all x).all env) (attachAll []) := by
  rw [appendRoot, appendRootSteps]
  split_ifs with hroot
  · obtain ⟨attrs, ha⟩ := Option.isSome_iff_exists.1 (h.root x hx hroot)
    rw [ha]
    exact (follows_require rfl).bind
      ((follows_check _).andThen (follows_pure true) (follows_failWith _))
  · exact follows_pure true

theorem follows_appendChild (h : Writable image all) (part : IDPpartition) (i : ℕ) (luks : IDPluks)
    {x : IDPpartition × ℕ} (hx : x ∈ all.zipIdx) :
    Follows env (appendChild env image all part i luks x) (appendChildSteps image all part i x)
      ((appendChildSteps image all part i x).all env) (attachAll []) := by
  rw [appendChild, appendChildSteps]
  split_ifs with hchild
  · obtain ⟨attrs, ha⟩ := Option.isSome_iff_exists.1 (h.child x hx part hchild)
    rw [ha]
    exact (follows_require rfl).bind
      ((follows_check _).andThen (follows_pure true) (follows_failWith _))
  · exact follows_pure true

/-- A loop over the partitions, each of which may get a device. -/
theorem follows_loop {body : IDPpartition × ℕ → WriterM Bool} {steps : IDPpartition × ℕ → List Step}
    {assign : IDPpartition × ℕ → Option (ℕ × String)} {xs : List (IDPpartition × ℕ)}
    (h : ∀ x ∈ xs, Follows env (body x) (steps x) ((steps x).all env)
      (attachAll (assign x).toList)) :
    Follows env (xs.allM body) (xs.flatMap steps) ((xs.flatMap steps).all env)
      (attachAll (xs.filterMap assign)) := by
  have hchange : (fun st => xs.foldl (fun st x => attachAll (assign x).toList st) st) =
      attachAll (xs.filterMap assign) := by
    clear h
    funext st
    induction xs generalizing st with
    | nil => rfl
    | cons x xs ih =>
      rw [List.foldl_cons, ih]
      rw [← Function.comp_apply (f := attachAll _), attachAll_append, List.filterMap_cons]
      cases assign x <;> rfl
  rw [← hchange]
  exact follows_allM h

theorem follows_append {body : IDPpartition × ℕ → WriterM Bool}
    {steps : IDPpartition × ℕ → List Step} {xs : List (IDPpartition × ℕ)}
    (h : ∀ x ∈ xs, Follows env (body x) (steps x) ((steps x).all env) (attachAll [])) :
    Follows env (xs.allM body) (xs.flatMap steps) ((xs.flatMap steps).all env) (attachAll []) := by
  simpa using @follows_loop env body steps (fun _ => none) xs h

theorem follows_probeRoot (x : IDPpartition × ℕ) :
    Follows env (probeRoot env image x) (probeSteps (rootAssign image x))
      ((probeSteps (rootAssign image x)).all env) (attachAll (rootAssign image x).toList) := by
  rw [probeRoot, rootAssign]
  split_ifs with hroot
  · have hset := @follows_setPartBlockDev env x.2 _
      (image.deviceStorage.blockDev_ne_empty (some x.1.num))
    have := hset.andThen (follows_pure true) (follows_failWith
      ("block device not found: " ++ image.deviceStorage.blockDev (some x.1.num)))
    simpa using this
  · exact follows_pure true

theorem follows_probeChild {part : IDPpartition} {luks : IDPluks} (hm : luks.mname ≠ "")
    (x : IDPpartition × ℕ) :
    Follows env (probeChild env all part luks x) (probeSteps (childAssign all part luks x))
      ((probeSteps (childAssign all part luks x)).all env)
      (attachAll (childAssign all part luks x).toList) := by
  rw [probeChild, childAssign]
  split_ifs with hchild
  · have hset := @follows_setPartBlockDev env x.2 _ (IDPluks.blockDev_ne_empty hm (some x.1.num))
    have := hset.andThen (follows_pure true) (follows_failWith
      ("LUKS child block device not found: " ++ luks.blockDev (some x.1.num)))
    simpa using this
  · exact follows_pure true

theorem follows_writePhysicalPartitions (h : Writable image all) :
    Follows env (writePhysicalPartitions env image all) (writePlan image all)
      ((writePlan image all).all env) (attachAll []) := by
  have hloop := follows_append fun x hx => @follows_appendRoot env image all h x hx
  exact (follows_check _).andThen ((follows_check _).andThen (hloop.andThen
    ((follows_check _).andThen (follows_pure true) (follows_failWith _)) (follows_pure false))
    (follows_failWith _)) (follows_failWith _)

theorem follows_initPhysicalPartitions (h : Writable image all) :
    Follows env (initPhysicalPartitions env image all) (physicalPlan image all)
      ((physicalPlan image all).all env) (attachAll (all.zipIdx.filterMap (rootAssign image))) :=
  (follows_writePhysicalPartitions h).andThen
    ((follows_check _).andThen (follows_loop fun x _ => follows_probeRoot x) (follows_failWith _))
    (follows_pure false)

theorem unseen_of_mem_appendChild {part : IDPpartition} {i : ℕ} {s : Step}
    (h : s ∈ all.zipIdx.flatMap (appendChildSteps image all part i)) : s.unseen := by
  obtain ⟨x, -, hs⟩ := List.mem_flatMap.1 h
  unfold appendChildSteps at hs
  split_ifs at hs
  · cases ha : tableAttributes image.deviceStorage x.1 (x.1.getSize false all) with
    | none => simp [ha] at hs
    | some attrs =>
      obtain rfl : s = _ := by simpa [ha] using hs
      rfl
  · cases hs

theorem unseen_or_swallowed {part : IDPpartition} {i : ℕ} {luks : IDPluks} {s : Step}
    (h : s ∈ tablePlan image all part i luks) : s.unseen ∨ s.swallowed := by
  simp only [tablePlan, List.mem_append, List.mem_singleton] at h
  rcases h with rfl | rfl | h | rfl
  · exact .inr rfl
  · exact .inr rfl
  · exact .inl (unseen_of_mem_appendChild h)
  · exact .inl rfl

/-- The table inside a container fails only where it cannot be opened or created. -/
theorem follows_partitionContainer (h : Writable image all) (part : IDPpartition) (i : ℕ)
    (luks : IDPluks) :
    Follows env (partitionContainer env image all part i luks) (tablePlan image all part i luks)
      (firstFatal env (tablePlan image all part i luks)).isNone (attachAll []) := by
  have hloop := follows_append fun x hx => @follows_appendChild env image all h part i luks x hx
  have hrest : firstFatal env (all.zipIdx.flatMap (appendChildSteps image all part i) ++
      [.commit (.container i)]) = none :=
    firstFatal_of_unseen fun s hs => by
      rcases List.mem_append.1 hs with hs | hs
      · exact unseen_of_mem_appendChild hs
      · obtain rfl := List.mem_singleton.1 hs
        rfl
  rw [partitionContainer, tablePlan, firstFatal_append, firstFatal_append, hrest,
    firstFatal_singleton rfl, firstFatal_singleton rfl]
  generalize Step.openDevice (.container i) _ _ = openStep
  generalize Step.createPartitionTable (.container i) _ _ = createStep
  have hopen := @follows_perform Step WriterState env openStep
  have hcreate := @follows_perform Step WriterState env createStep
  cases ho : env openStep with
  | false =>
    rw [ho] at hopen
    exact (hopen.bind (follows_failWith _)).fail (by simp [ho])
  | true =>
    cases hc : env createStep with
    | false =>
      rw [ho] at hopen
      rw [hc] at hcreate
      exact (hopen.bind (hcreate.bind (follows_failWith _))).fail (by simp [hc])
    | true =>
      rw [ho] at hopen
      rw [hc] at hcreate
      cases ha : (all.zipIdx.flatMap (appendChildSteps image all part i)).all env with
      | true =>
        rw [ha] at hloop
        exact (hopen.bind (hcreate.bind (hloop.bind ((follows_perform _).bind
          ((follows_ignored _).bind (follows_pure true)))))).congr rfl rfl
      | false =>
        rw [ha] at hloop
        exact (hopen.bind (hcreate.bind (hloop.bind (follows_pure true)))).fail (by
          simp only [List.all_append, ha, Bool.false_and, Bool.and_false])

theorem reported_of_mem_probe {assign : IDPpartition × ℕ → Option (ℕ × String)}
    {xs : List (IDPpartition × ℕ)} {s : Step}
    (h : s ∈ xs.flatMap fun x => probeSteps (assign x)) : s.reported := by
  obtain ⟨x, -, hs⟩ := List.mem_flatMap.1 h
  cases hx : assign x with
  | none => simp [hx, probeSteps] at hs
  | some a =>
    rw [hx] at hs
    rcases List.mem_pair.1 hs with rfl | rfl <;> rfl

theorem follows_initChildren (h : Writable image all) (part : IDPpartition) (i : ℕ)
    {luks : IDPluks} (hm : luks.mname ≠ "") :
    Follows env (initChildren env image all part i luks) (innerPlan image all part i luks)
      ((firstFatal env (innerPlan image all part i luks)).map Step.swallowed)
      (attachAll (all.zipIdx.filterMap (childAssign all part luks))) := by
  have htable : Follows env
      (if luks.etype = .partitioned then partitionContainer env image all part i luks
        else return true)
      (if luks.etype = .partitioned then tablePlan image all part i luks else [])
      (firstFatal env
        (if luks.etype = .partitioned then tablePlan image all part i luks else [])).isNone
      (attachAll []) := by
    split_ifs
    · exact follows_partitionContainer h part i luks
    · exact follows_pure true
  have hswallowed : ∀ s ∈ firstFatal env
      (if luks.etype = .partitioned then tablePlan image all part i luks else []),
      s.swallowed := by
    intro s hs
    have hmem := List.mem_of_find?_eq_some hs
    have hseen := List.find?_some hs
    split_ifs at hmem
    · rcases unseen_or_swallowed hmem with hu | hu
      · simp [hu] at hseen
      · exact hu
    · cases hmem
  have hprobe := @follows_loop env _ _ _ all.zipIdx
    fun x _ => @follows_probeChild env all part luks hm x
  have hreport := @firstFatal_of_reported env
    (all.zipIdx.flatMap fun x => probeSteps (childAssign all part luks x))
    fun s hs => reported_of_mem_probe hs
  rw [initChildren, innerPlan, firstFatal_append]
  revert htable hswallowed
  generalize (if luks.etype = .partitioned then tablePlan image all part i luks else []) = table
  intro htable hswallowed
  cases hf : firstFatal env table with
  | some s =>
    rw [hf] at htable
    rw [Option.some_or, Option.map_some, hswallowed s hf]
    refine (htable.bind (follows_pure (some true))).fail ?_
    rw [List.all_append, Bool.and_eq_false_iff]
    exact .inl (Bool.eq_false_iff.2 fun hall => by simp [firstFatal_of_all hall] at hf)
  | none =>
    rw [hf] at htable
    rw [Option.none_or, hreport]
    cases hall : (all.zipIdx.flatMap fun x => probeSteps (childAssign all part luks x)).all env with
    | true =>
      rw [hall] at hprobe
      exact (htable.bind (hprobe.bind (follows_pure none))).congr (by simp) rfl
    | false =>
      rw [hall] at hprobe
      exact (htable.bind (hprobe.bind (follows_pure (some false)))).fail (by
        rw [List.all_append, hall, Bool.and_false])

/-- The devices the children of a container get. -/
def containerAssign (all : List IDPpartition) (part : IDPpartition) (luks : IDPluks) :
    List (ℕ × String) :=
  if part.hasChildren all then all.zipIdx.filterMap (childAssign all part luks) else []

theorem follows_initContainer (h : Writable image all) (part : IDPpartition) (i : ℕ)
    {luks : IDPluks} (hm : luks.mname ≠ "") :
    Follows env (initContainer env image all part i luks) (containerPlan image all part i luks)
      ((firstFatal env (containerPlan image all part i luks)).map Step.swallowed)
      (attachAll (containerAssign all part luks)) := by
  have hinner : Follows env
      (if part.hasChildren all then initChildren env image all part i luks else return none)
      (if part.hasChildren all then innerPlan image all part i luks else [])
      ((firstFatal env (if part.hasChildren all then innerPlan image all part i luks
        else [])).map Step.swallowed)
      (attachAll (containerAssign all part luks)) := by
    unfold containerAssign
    split_ifs
    · exact follows_initChildren h part i hm
    · exact follows_pure none
  rw [initContainer, containerPlan, firstFatal_append, firstFatal_append,
    firstFatal_singleton rfl, firstFatal_singleton rfl]
  have hcreate := @follows_perform Step WriterState env
    (.luksCreate i (image.deviceStorage.blockDev (some part.num)))
  have hopen := @follows_perform Step WriterState env
    (.luksOpen i (image.deviceStorage.blockDev (some part.num)))
  cases hc : env (.luksCreate i (image.deviceStorage.blockDev (some part.num))) with
  | false =>
    rw [hc] at hcreate
    exact (hcreate.bind ((follows_failWith _).bind (follows_pure (some false)))).fail
      (by simp [hc])
  | true =>
    rw [hc] at hcreate
    cases ho : env (.luksOpen i (image.deviceStorage.blockDev (some part.num))) with
    | false =>
      rw [ho] at hopen
      exact (hcreate.bind (hopen.bind ((follows_failWith _).bind (follows_pure (some false))))).fail
        (by simp [ho])
    | true =>
      rw [ho] at hopen
      exact (hcreate.bind (hopen.bind hinner)).congr rfl rfl

/-- The devices the children of the containers get. -/
def cryptAssign (all : List IDPpartition) (x : IDPpartition × ℕ) : List (ℕ × String) :=
  match x.1.luks with
  | none => []
  | some luks => containerAssign all x.1 luks

theorem follows_initCryptLoop (h : Writable image all) {xs : List (IDPpartition × ℕ)}
    (hxs : ∀ x ∈ xs, x ∈ all.zipIdx) :
    Follows env (initCryptLoop env image all xs) (xs.flatMap (cryptSteps image all))
      (((firstFatal env (xs.flatMap (cryptSteps image all))).map Step.swallowed).getD true)
      (attachAll (xs.flatMap (cryptAssign all))) := by
  induction xs with
  | nil => exact follows_pure true
  | cons x xs ih =>
    rw [List.forall_mem_cons] at hxs
    obtain ⟨part, i⟩ := x
    have ih := ih hxs.2
    rw [List.flatMap_cons, List.flatMap_cons, firstFatal_append, initCryptLoop, cryptSteps,
      cryptAssign]
    cases hl : part.luks with
    | none =>
      exact ih
    | some luks =>
      have hbody := @follows_initContainer env image all h part i luks (h.mname _ hxs.1 luks hl)
      dsimp only
      cases hf : firstFatal env (containerPlan image all part i luks) with
      | none =>
        rw [hf] at hbody
        exact (hbody.bind ih).congr rfl (attachAll_append _ _)
      | some s =>
        rw [hf] at hbody
        refine (hbody.bind (follows_pure s.swallowed)).fail ?_
        rw [List.all_append, Bool.and_eq_false_iff]
        exact .inl (Bool.eq_false_iff.2 fun hall => by simp [firstFatal_of_all hall] at hf)

/-- The devices the partitions get. -/
def assignment (image : IDPimage) (all : List IDPpartition) : List (ℕ × String) :=
  all.zipIdx.filterMap (rootAssign image) ++ all.zipIdx.flatMap (cryptAssign all)

theorem reported_of_mem_physicalPlan {s : Step} (h : s ∈ physicalPlan image all) : s.reported := by
  simp only [physicalPlan, writePlan, List.mem_append, List.mem_singleton] at h
  rcases h with (rfl | rfl | h | rfl) | rfl | h
  · rfl
  · rfl
  · obtain ⟨x, -, hs⟩ := List.mem_flatMap.1 h
    unfold appendRootSteps at hs
    split_ifs at hs
    · cases ha : tableAttributes image.deviceStorage x.1 (x.1.getSize true all) with
      | none => simp [ha] at hs
      | some attrs =>
        obtain rfl : s = _ := by simpa [ha] using hs
        rfl
    · cases hs
  · rfl
  · rfl
  · exact reported_of_mem_probe h

/-- The writer fails exactly when the step that ends the run is one it reports. -/
theorem follows_prepareStorage (h : Writable image all) :
    Follows env (prepareStorage env image all) (plan image all)
      (((firstFatal env (plan image all)).map Step.swallowed).getD true)
      (attachAll (assignment image all)) := by
  have hphys := @follows_initPhysicalPartitions env image all h
  have hcrypt := @follows_initCryptLoop env image all h all.zipIdx fun _ hx => hx
  have hreport := @firstFatal_of_reported env (physicalPlan image all)
    fun s hs => reported_of_mem_physicalPlan hs
  rw [prepareStorage, plan, firstFatal_append]
  cases hall : (physicalPlan image all).all env with
  | true =>
    rw [hall] at hphys
    rw [firstFatal_of_all hall, Option.none_or]
    exact (hphys.bind hcrypt).congr rfl (attachAll_append _ _)
  | false =>
    rw [hall] at hphys hreport
    obtain ⟨s, hs, hswallowed⟩ := Option.map_eq_some_iff.1 hreport
    rw [hs, Option.some_or, Option.map_some, hswallowed, Option.getD_some]
    have hfail : (physicalPlan image all ++ all.zipIdx.flatMap (cryptSteps image all)).all env =
        false := by rw [List.all_append, hall, Bool.false_and]
    exact (hphys.bind (k := fun ok => if ok then initCryptPartitions env image all else pure false)
      (follows_pure false)).fail hfail

end

/-! ### The devices of the partitions -/

/-- The device of a partition: a number of the disk, or of the mapper name of its container. -/
def deviceOf (image : IDPimage) (all : List IDPpartition) (p : IDPpartition) : String :=
  if p.parentIndex = -1 then image.deviceStorage.blockDev (some p.num)
  else match all[p.parentIndex.toNat]?.bind (·.luks) with
    | some luks => luks.blockDev (some p.num)
    | none => ""

theorem getElem?_attachAll {dev : ℕ → String} {as : List (ℕ × String)}
    (h : ∀ a ∈ as, a.2 = dev a.1) (st : WriterState) (i : ℕ) :
    (attachAll as st).partitions[i]? = st.partitions[i]?.map fun p =>
      if i ∈ as.map Prod.fst then p.setBlockDev (dev i) else p := by
  induction as generalizing st with
  | nil => simp [attachAll]
  | cons a as ih =>
    rw [List.forall_mem_cons] at h
    rw [attachAll, List.foldl_cons, ← attachAll, ih h.2]
    rw [List.getElem?_modify]
    cases st.partitions[i]? with
    | none => rfl
    | some p =>
      by_cases hi : a.1 = i
      · subst hi
        simp [h.1, IDPpartition.setBlockDev]
      · have hmem : i ∈ (a :: as).map Prod.fst ↔ i ∈ as.map Prod.fst := by
          simp [-List.mem_map, Ne.symm hi]
        simp only [Option.map_eq_map, Option.map_some, hi, if_false, hmem]

section

variable {image : IDPimage} {l : List IDPpartition}

theorem mem_rootAssign_iff {a : ℕ × String} :
    a ∈ l.zipIdx.filterMap (rootAssign image) ↔
      ∃ p, l[a.1]? = some p ∧ p.parentIndex = -1 ∧
        a.2 = image.deviceStorage.blockDev (some p.num) := by
  simp only [List.mem_filterMap, rootAssign, Option.ite_none_right_eq_some, Option.some.injEq]
  constructor
  · rintro ⟨⟨p, i⟩, hx, hroot, rfl⟩
    exact ⟨p, List.mem_zipIdx_iff_getElem?.1 hx, hroot, rfl⟩
  · rintro ⟨p, hp, hroot, hdev⟩
    exact ⟨(p, a.1), List.mem_zipIdx_iff_getElem?.2 hp, hroot, Prod.ext rfl hdev.symm⟩

theorem mem_cryptAssign_iff {a : ℕ × String} :
    a ∈ l.zipIdx.flatMap (cryptAssign l) ↔
      ∃ c ∈ l, ∃ luks p, c.luks = some luks ∧ l[a.1]? = some p ∧ childOf l c p ∧
        a.2 = luks.blockDev (some p.num) := by
  rw [List.mem_flatMap]
  constructor
  · rintro ⟨⟨c, j⟩, hc, ha⟩
    unfold cryptAssign at ha
    cases hl : c.luks with
    | none =>
      simp only [hl] at ha
      cases ha
    | some luks =>
      simp only [hl, containerAssign] at ha
      split_ifs at ha
      · simp only [List.mem_filterMap, childAssign, Option.ite_none_right_eq_some,
          Option.some.injEq] at ha
        obtain ⟨⟨p, i⟩, hx, hchild, rfl⟩ := ha
        exact ⟨c, List.mem_of_getElem? (List.mem_zipIdx_iff_getElem?.1 hc), luks, p, hl,
          List.mem_zipIdx_iff_getElem?.1 hx, hchild, rfl⟩
      · cases ha
  · rintro ⟨c, hc, luks, p, hl, hp, hchild, hdev⟩
    obtain ⟨j, hj⟩ := List.getElem?_of_mem hc
    refine ⟨(c, j), List.mem_zipIdx_iff_getElem?.2 hj, ?_⟩
    have hchildren : c.hasChildren l := by
      rw [IDPpartition.hasChildren, List.any_eq_true]
      rw [childOf, Bool.and_eq_true] at hchild
      exact ⟨p, List.mem_of_getElem? hp, hchild.1⟩
    simp only [cryptAssign, hl, containerAssign, if_pos hchildren, List.mem_filterMap, childAssign,
      Option.ite_none_right_eq_some, Option.some.injEq]
    exact ⟨(p, a.1), List.mem_zipIdx_iff_getElem?.2 hp, hchild, Prod.ext rfl hdev.symm⟩

/-- Every partition gets its device, and no other one. -/
theorem mem_assignment_iff (h : Layout image l) {a : ℕ × String} :
    a ∈ assignment image l ↔ ∃ p, l[a.1]? = some p ∧ a.2 = deviceOf image l p := by
  rw [assignment, List.mem_append, mem_rootAssign_iff, mem_cryptAssign_iff]
  constructor
  · rintro (⟨p, hp, hroot, hdev⟩ | ⟨c, hc, luks, p, hl, hp, hchild, hdev⟩)
    · exact ⟨p, hp, by rw [hdev, deviceOf, if_pos hroot]⟩
    · obtain ⟨j, hj⟩ := List.getElem?_of_mem hc
      rw [childOf, Bool.and_eq_true, beq_iff_eq, h.forest.index j c hj] at hchild
      refine ⟨p, hp, ?_⟩
      rw [deviceOf, if_neg (by omega), hchild.1, Int.toNat_natCast, hj, Option.bind_some, hl]
      exact hdev
  · rintro ⟨p, hp, hdev⟩
    rcases h.forest.parent a.1 p hp with hroot | ⟨j, c, -, hpj, hj, hcc, -⟩
    · exact .inl ⟨p, hp, hroot, by rw [hdev, deviceOf, if_pos hroot]⟩
    · obtain ⟨luks, hl⟩ := Option.isSome_iff_exists.1 hcc
      refine .inr ⟨c, List.mem_of_getElem? hj, luks, p, hl, hp, ?_, ?_⟩
      · have hlt : j < l.length := (List.getElem?_eq_some_iff.1 hj).1
        have hrange : ¬ (p.parentIndex < 0 ∨ p.parentIndex ≥ l.length) := by omega
        rw [childOf, h.forest.index j c hj, hpj, beq_self_eq_true, Bool.true_and,
          IDPpartition.isEncrypted, if_neg hrange, hpj, Int.toNat_natCast, hj]
        exact hcc
      · rw [hdev, deviceOf, if_neg (by omega), hpj, Int.toNat_natCast, hj, Option.bind_some, hl]

/-- After a run in which no step fails every partition has its device. -/
theorem partitions_attachAll (h : Layout image l) (reason : String) :
    (attachAll (assignment image l) ⟨l, reason⟩).partitions =
      l.map fun p => p.setBlockDev (deviceOf image l p) := by
  have hdev : ∀ a ∈ assignment image l,
      a.2 = (l[a.1]?.map (deviceOf image l)).getD "" := by
    intro a ha
    obtain ⟨p, hp, hd⟩ := (mem_assignment_iff h).1 ha
    rw [hp, hd]
    rfl
  refine List.ext_getElem? fun i => ?_
  rw [@getElem?_attachAll (fun i => (l[i]?.map (deviceOf image l)).getD "") _ hdev,
    List.getElem?_map]
  cases hp : l[i]? with
  | none => rfl
  | some p =>
    have hmem : i ∈ (assignment image l).map Prod.fst :=
      List.mem_map.2 ⟨(i, _), (mem_assignment_iff h).2 ⟨p, hp, rfl⟩, rfl⟩
    simp [if_pos hmem]

theorem deviceOf_ne_empty (h : Layout image l) {p : IDPpartition} (hp : p ∈ l) :
    deviceOf image l p ≠ "" := by
  obtain ⟨i, hi⟩ := List.getElem?_of_mem hp
  rw [deviceOf]
  split_ifs with hroot
  · exact image.deviceStorage.blockDev_ne_empty _
  · rcases h.forest.parent i p hi with hr | ⟨j, c, -, hpj, hj, hcc, -⟩
    · exact (hroot hr).elim
    · obtain ⟨luks, hl⟩ := Option.isSome_iff_exists.1 hcc
      rw [hpj, Int.toNat_natCast, hj, Option.bind_some, hl]
      exact IDPluks.blockDev_ne_empty (h.luks c (List.mem_of_getElem? hj) luks hl).1.mname _

/-! ### A device that is ready -/

theorem getSize_of_addRoots {all parts : List IDPpartition} {a n : ℕ}
    (h : addRoots all parts a = some n) :
    ∀ p ∈ parts, p.parentIndex = -1 → (p.getSize true all).isSome := by
  induction parts generalizing a with
  | nil => simp
  | cons q parts ih =>
    rw [addRoots] at h
    rw [List.forall_mem_cons]
    split_ifs at h with hq
    · obtain ⟨size, hsize, hrest⟩ := Option.bind_eq_some_iff.1 h
      exact ⟨fun _ => Option.isSome_of_eq_some hsize, ih hrest⟩
    · exact ⟨fun hroot => (hq hroot).elim, ih h⟩

theorem tableAttributes_isSome {storage : IDPstorage} {p : IDPpartition} {size : Option ℕ}
    (hp : p.typecode.isSome) (hs : size.isSome) : (tableAttributes storage p size).isSome := by
  obtain ⟨code, hcode⟩ := Option.isSome_iff_exists.1 hp
  obtain ⟨n, rfl⟩ := Option.isSome_iff_exists.1 hs
  rw [tableAttributes, hcode]
  cases p.expandToFit <;> cases storage.ptableType <;> rfl

theorem luks_of_childOf (h : Layout image l) {part p : IDPpartition} (hp : p ∈ l)
    (hc : childOf l part p) : p.luks = none := by
  rw [childOf, Bool.and_eq_true, IDPpartition.isEncrypted] at hc
  obtain ⟨-, hc⟩ := hc
  split_ifs at hc with hrange
  rw [← Option.not_isSome_iff_eq_none]
  intro hl
  have := h.forest.container p hp hl
  omega

theorem writable_of_fits (h : Layout image l) {capacity : Option ℕ}
    (hfits : validateDeviceStorage image l capacity = some true) : Writable image l := by
  have hsizes : ∃ n, addRoots l l 0 = some n := by
    cases capacity with
    | none => cases hfits
    | some cap =>
      obtain ⟨isize, hi, -⟩ := Option.bind_eq_some_iff.1 hfits
      obtain ⟨n, hn, -⟩ := Option.bind_eq_some_iff.1 hi
      exact ⟨n, hn⟩
  obtain ⟨n, hn⟩ := hsizes
  have hmem {x : IDPpartition × ℕ} (hx : x ∈ l.zipIdx) : x.1 ∈ l :=
    List.mem_of_getElem? (List.mem_zipIdx_iff_getElem?.1 hx)
  refine ⟨fun x hx hroot => ?_, fun x hx part hc => ?_, fun x hx k hk => ?_⟩
  · exact tableAttributes_isSome (h.typecode _ (hmem hx))
      (getSize_of_addRoots hn _ (hmem hx) hroot)
  · have hl := luks_of_childOf h (hmem hx) hc
    refine tableAttributes_isSome (h.typecode _ (hmem hx)) ?_
    rw [getSize_plain h (hmem hx) hl]
    rfl
  · exact (h.luks _ (hmem hx) k hk).1.mname

/-- An accepted description gives the device the image and the partitions of the parser. -/
theorem initialise_ok {reader : String → Except String Json.Doc} {text : String}
    {d d' : IDPdevice} (h : d.initialise reader text = (.ok (), d')) :
    ∃ parser : IDPparser, d.parser.loadJSON reader text = (.ok (), parser) ∧
      d'.image = parser.image ∧ d'.partitions = parser.partitions ∧ d'.state = .config := by
  unfold IDPdevice.initialise at h
  split_ifs at h
  · cases h
  · cases h
  · split at h
    · cases h
    · rename_i parser hload
      dsimp only at h
      split at h
      · cases h
      · rename_i image himage
        split_ifs at h
        · cases h
        · cases h
          refine ⟨parser, hload, ?_, rfl, rfl⟩
          unfold IDPparser.getImage at himage
          split_ifs at himage
          exact (Option.some.inj himage).symm

theorem layout_of_initialise {reader : String → Except String Json.Doc} {text : String}
    {d d' : IDPdevice} (h : d.initialise reader text = (.ok (), d')) :
    Layout d'.image d'.partitions := by
  obtain ⟨parser, hload, himage, hpartitions, -⟩ := initialise_ok h
  rw [himage, hpartitions]
  exact layout_of_loadJSON hload

/-- Only the figures of the storage are new. -/
theorem measureStorage_frame {d d' : IDPdevice} {capacity : Option ℕ}
    (h : d.measureStorage capacity = some d') :
    d'.state = d.state ∧ d'.image = d.image ∧ d'.partitions = d.partitions := by
  unfold IDPdevice.measureStorage at h
  split at h
  · cases h
    exact ⟨rfl, rfl, rfl⟩
  · obtain ⟨size, -, h⟩ := Option.bind_eq_some_iff.1 h
    cases h
    exact ⟨rfl, rfl, rfl⟩

theorem ready_of_canProvision {d d' : IDPdevice} {m : Machine}
    (h : d.canProvision m = some (.ok (), d')) :
    d'.state = .ready ∧ d'.image = d.image ∧ d'.partitions = d.partitions ∧
      ∃ capacity, validateDeviceStorage d.image d.partitions capacity = some true := by
  unfold IDPdevice.canProvision at h
  split_ifs at h
  · cases h
  · cases h
  · cases h
  · obtain ⟨fits, hfits, h⟩ := Option.bind_eq_some_iff.1 h
    obtain ⟨e, he, h⟩ := Option.bind_eq_some_iff.1 h
    obtain ⟨-, himage, hpartitions⟩ := measureStorage_frame he
    split_ifs at h with hf
    · cases h
    · cases h
    · cases h
      obtain rfl : fits = true := by simpa using hf
      exact ⟨rfl, himage, hpartitions, _, hfits⟩

/-- A device that has accepted a description and passed the checks. -/
theorem ready_of_accepted {reader : String → Except String Json.Doc} {text : String}
    {d₀ d₁ d : IDPdevice} {m : Machine} (hinit : d₀.initialise reader text = (.ok (), d₁))
    (hready : d₁.canProvision m = some (.ok (), d)) :
    d.state = .ready ∧ Layout d.image d.partitions ∧ Writable d.image d.partitions := by
  obtain ⟨hstate, himage, hparts, capacity, hfits⟩ := ready_of_canProvision hready
  have hlayout := layout_of_initialise hinit
  rw [himage, hparts]
  exact ⟨hstate, hlayout, writable_of_fits hlayout hfits⟩

end

/-! ### A description and a machine -/

/-- A partitioned container with one child, and a plain partition behind it. -/
def cryptDoc : Json.Doc where
  root := describe "1M" [("boot", imageNode 1), ("root", imageNode 1)]
    [.obj [("encrypted", .obj [("luks2", luksNode "partitioned" "crypt"),
      ("partitions", .arr [.obj [("image", .str "root")]])])], plainEntry ["boot"]]
  sorted := by
    refine sorted_describe "1M" ?_ ?_
    · simp only [Json.Sorted, Json.SortedMembers, sorted_imageNode, List.map_cons, List.map_nil]
      decide
    · simp only [Json.SortedElems, Json.Sorted, Json.SortedMembers, sorted_luksNode,
        sorted_plainEntry]
      decide

/-- A machine with a card of 16 GiB that passes every check. -/
def sampleMachine : Machine where
  model := some "Raspberry Pi Compute Module 5 Rev 1.0"
  node := fun _ => true
  file := fun path =>
    if path = "/sys/block/mmcblk0/size" then some "33554432\n"
    else if path = "/sys/block/mmcblk0/queue/logical_block_size" then some "512\n"
    else none
  waitBlockDev := fun _ => true
  rereadPartitionTable := fun _ => true
  waitUdevBlockDev := fun _ => true
  firmwareCrypto := true

/-- The outcome of `Initialise` of a new device. -/
def accept (doc : Json.Doc) : Except LoadError Unit × IDPdevice :=
  IDPdevice.initialise { sessionId := 1, dcap := 0, isize := 0 } (fun _ => .ok doc) "json"

/-- The device on the machine that passes every check. -/
def ready (doc : Json.Doc) : IDPdevice :=
  (((accept doc).2.canProvision sampleMachine).map (·.2)).getD (accept doc).2

end RpiFastbootd
