import Photon.DiskPlacementSpec
/-!
# DiskPlacementPossible — when the engine for constraints finds a datastore

The schedulers read a constraint as satisfied by any of its values, or, if it is negative, by none.  The engine reads
the first value of every constraint, as if it were positive: all of them have to lead to one placeable datastore
(`Leads`).  Where they do not, the engine refuses the disk or raises (`Raises`), and this matters only for disks it
comes to (`Reaches`).
-/
namespace Photon.Agent.DiskPlacement

open List
open Keyed (LinkedMap)
open Fallible (mapM_cases mapM_eq_error mapM_ok ok_bind)

def Names (manager : DatastoreManager) (c : ResourceConstraint) (datastoreId : String) : Prop :=
  ∃ value, c.values.head? = some value ∧ manager.normalize value = some datastoreId

/-- The first values of the constraints lead to the datastore: it is named by every `DATASTORE`, and has the tag of
every `DATASTORE_TAG` constraint. -/
structure Leads (manager : DatastoreManager) (constraints : List ResourceConstraint) (datastoreId : String) : Prop where
  storage : ∃ c ∈ constraints, isStorage c = true
  placeable : datastoreId ∈ manager.placeableDatastores
  named : ∀ c ∈ constraints, c.type = .datastore → Names manager c datastoreId
  tagged : ∃ ds ∈ manager.datastores, ds.id = datastoreId ∧
    ∀ c ∈ constraints, c.type = .datastoreTag → ∃ tag, c.values.head? = some tag ∧ tag ∈ ds.tags

/-- What raises: the first `DATASTORE` constraint that names no datastore has no value; or all name one, and a
`DATASTORE_TAG` constraint has no value; or there is no `DATASTORE` constraint, and no placeable datastore has the
tags. -/
inductive Raises (manager : DatastoreManager) (constraints : List ResourceConstraint) : Prop where
  | datastore (pre : List ResourceConstraint) (c : ResourceConstraint) (post : List ResourceConstraint)
    (split : constraints.filter (fun c => decide (c.type = .datastore)) = pre ++ c :: post)
    (names : ∀ b ∈ pre, ∃ id, Names manager b id) (values : c.values = [])
  | tag (names : ∀ c ∈ constraints, c.type = .datastore → ∃ id, Names manager c id)
    (c : ResourceConstraint) (mem : c ∈ constraints) (type : c.type = .datastoreTag) (values : c.values = [])
  | choice (none : ∀ c ∈ constraints, c.type ≠ .datastore) (leads : ¬∃ id, Leads manager constraints id)

section

variable {manager : DatastoreManager} {chance : Chance} {n : Nat} {constraints : List ResourceConstraint} {id : String}

/-! ## The values of a constraint -/

variable {c : ResourceConstraint}

theorem firstValue_ok_iff {value : String} : firstValue c = .ok value ↔ c.values.head? = some value := by
  unfold firstValue
  split <;> rename_i hvalues <;> rw [hvalues]
  · constructor <;> intro h <;> cases h
  · rw [head?_cons, Except.ok.injEq, Option.some.injEq]

variable {e : ConstraintError}

theorem firstValue_error (h : firstValue c = .error e) : e = .raised ∧ c.values = [] := by
  unfold firstValue at h
  split at h
  · rename_i hvalues
    cases h
    exact ⟨rfl, hvalues⟩
  · cases h

theorem firstValue_nil (h : c.values = []) : firstValue c = .error .raised := by
  unfold firstValue
  rw [h]

theorem namedDatastore_ok_iff : namedDatastore manager c = .ok id ↔ Names manager c id := by
  constructor
  · intro h
    unfold namedDatastore at h
    split at h
    · cases h
    · rename_i value hvalue
      split at h
      · cases h
      · rename_i hid
        cases h
        exact ⟨value, firstValue_ok_iff.1 hvalue, hid⟩
  · intro h
    obtain ⟨value, hvalue, hid⟩ := h
    unfold namedDatastore
    rw [firstValue_ok_iff.2 hvalue]
    simp only [hid]

theorem namedDatastore_raised (h : namedDatastore manager c = .error .raised) : c.values = [] := by
  unfold namedDatastore at h
  split at h
  · rename_i e he
    exact (firstValue_error he).2
  · split at h <;> cases h

/-! ## The datastores -/

theorem exists_of_placeable (h : id ∈ manager.placeableDatastores) : ∃ ds ∈ manager.datastores, ds.id = id := by
  rcases mem_append.1 h with h | h
  · obtain ⟨ds, hds, rfl⟩ := mem_map.1 (mem_filter.1 h).1
    exact ⟨ds, hds, rfl⟩
  · obtain ⟨option, -, hnormalize⟩ := mem_filterMap.1 h
    obtain ⟨ds, hfind, rfl⟩ := Option.map_eq_some_iff.1 hnormalize
    exact ⟨ds, mem_of_find?_eq_some hfind, rfl⟩

variable {tags : List String}

theorem mem_findDatastoresWithTags_iff : id ∈ manager.findDatastoresWithTags tags ↔
    id ∈ manager.placeableDatastores ∧ ∃ ds ∈ manager.datastores, ds.id = id ∧ ∀ tag ∈ tags, tag ∈ ds.tags := by
  unfold DatastoreManager.findDatastoresWithTags
  simp only [mem_dedup, mem_map, mem_filter, Bool.and_eq_true, all_eq_true, decide_eq_true_eq]
  constructor
  · intro h
    obtain ⟨ds, ⟨hds, hplaceable, htags⟩, rfl⟩ := h
    exact ⟨hplaceable, ds, hds, rfl, htags⟩
  · intro h
    obtain ⟨hplaceable, ds, hds, rfl, htags⟩ := h
    exact ⟨ds, ⟨hds, hplaceable, htags⟩, rfl⟩

theorem dedup_eq_singleton {l : List String} (hne : l ≠ []) (h : ∀ a ∈ l, a = id) : l.dedup = [id] := by
  have hall : ∀ a ∈ l.dedup, a = id := fun a ha => h a (mem_dedup.1 ha)
  have hnodup := nodup_dedup l
  cases hdedup : l.dedup with
  | nil =>
    obtain ⟨a, ha⟩ := exists_mem_of_ne_nil l hne
    have := mem_dedup.2 ha
    rw [hdedup] at this
    cases this
  | cons a rest =>
    rw [hdedup] at hall hnodup
    obtain rfl := hall a mem_cons_self
    cases rest with
    | nil => rfl
    | cons b rest =>
      obtain rfl := hall b (mem_cons_of_mem _ mem_cons_self)
      exact absurd mem_cons_self (nodup_cons.1 hnodup).1

/-! ## Where the constraints lead -/

theorem mem_datastore :
    c ∈ constraints.filter (fun c => decide (c.type = .datastore)) ↔ c ∈ constraints ∧ c.type = .datastore := by
  rw [mem_filter, decide_eq_true_eq]

theorem mem_datastoreTag :
    c ∈ constraints.filter (fun c => decide (c.type = .datastoreTag)) ↔ c ∈ constraints ∧ c.type = .datastoreTag := by
  rw [mem_filter, decide_eq_true_eq]

variable {datastores : List String}

theorem getDatastoreConstraint_eq
    (hds : (constraints.filter (fun c => decide (c.type = .datastore))).mapM (namedDatastore manager) = .ok datastores)
    (htags : (constraints.filter (fun c => decide (c.type = .datastoreTag))).mapM firstValue = .ok tags) :
    getDatastoreConstraint manager chance n constraints = chooseDatastore manager chance n datastores tags := by
  unfold getDatastoreConstraint
  rw [hds, ok_bind, htags, ok_bind]

theorem leads_of_getDatastoreConstraint (h : getDatastoreConstraint manager chance n constraints = .ok id)
    (hplaceable : id ∈ manager.placeableDatastores) : Leads manager constraints id := by
  obtain ⟨datastores, tags, hds, htags, hone, hmem⟩ := chosen_of_getDatastoreConstraint h
  refine ⟨?_, hplaceable, ?_, ?_⟩
  · by_contra hnone
    have hnil : datastores = [] ∧ tags = [] := by
      constructor
      · refine eq_nil_iff_forall_not_mem.2 fun b hb => ?_
        obtain ⟨c, hc, -⟩ := (mapM_ok hds).2 b hb
        obtain ⟨hc, htype⟩ := mem_datastore.1 hc
        exact hnone ⟨c, hc, by simp only [isStorage, htype, decide_true, Bool.true_or]⟩
      · refine eq_nil_iff_forall_not_mem.2 fun tag htag => ?_
        obtain ⟨c, hc, -⟩ := (mapM_ok htags).2 tag htag
        obtain ⟨hc, htype⟩ := mem_datastoreTag.1 hc
        exact hnone ⟨c, hc, by simp only [isStorage, htype, decide_true, Bool.or_true]⟩
    rw [getDatastoreConstraint_eq hds htags, hnil.1, hnil.2] at h
    cases h
  · intro c hc htype
    obtain ⟨b, hb, hnamed⟩ := (mapM_ok hds).1 c (mem_datastore.2 ⟨hc, htype⟩)
    obtain rfl := hone b hb
    exact namedDatastore_ok_iff.1 hnamed
  · by_cases htagsNil : tags = []
    · obtain ⟨ds, hds', hid⟩ := exists_of_placeable hplaceable
      refine ⟨ds, hds', hid, fun c hc htype => ?_⟩
      obtain ⟨tag, htag, -⟩ := (mapM_ok htags).1 c (mem_datastoreTag.2 ⟨hc, htype⟩)
      rw [htagsNil] at htag
      cases htag
    · obtain ⟨-, ds, hds', hid, hall⟩ := mem_findDatastoresWithTags_iff.1 (hmem htagsNil)
      refine ⟨ds, hds', hid, fun c hc htype => ?_⟩
      obtain ⟨tag, htag, hfirst⟩ := (mapM_ok htags).1 c (mem_datastoreTag.2 ⟨hc, htype⟩)
      exact ⟨tag, firstValue_ok_iff.1 hfirst, hall tag htag⟩

/-- **How far the engine comes**: to a `DATASTORE` constraint that names no datastore, to a `DATASTORE_TAG` constraint
without values, or to its choice. -/
theorem getDatastoreConstraint_cases (manager : DatastoreManager) (chance : Chance) (n : Nat)
    (constraints : List ResourceConstraint) :
    (∃ pre c post e, constraints.filter (fun c => decide (c.type = .datastore)) = pre ++ c :: post ∧
      (∀ b ∈ pre, ∃ id, Names manager b id) ∧ namedDatastore manager c = .error e ∧
      getDatastoreConstraint manager chance n constraints = .error e) ∨
    ∃ datastores, (constraints.filter (fun c => decide (c.type = .datastore))).mapM (namedDatastore manager) =
      .ok datastores ∧ ((∃ c ∈ constraints, c.type = .datastoreTag ∧ c.values = [] ∧
        getDatastoreConstraint manager chance n constraints = .error .raised) ∨
      ∃ tags, (constraints.filter (fun c => decide (c.type = .datastoreTag))).mapM firstValue = .ok tags ∧
        getDatastoreConstraint manager chance n constraints = chooseDatastore manager chance n datastores tags) := by
  rcases mapM_cases (f := namedDatastore manager) (constraints.filter (fun c => decide (c.type = .datastore))) with
    ⟨datastores, hds⟩ | ⟨pre, c, post, e, hsplit, hpre, herror⟩
  · refine .inr ⟨datastores, hds, ?_⟩
    rcases mapM_cases (f := firstValue) (constraints.filter (fun c => decide (c.type = .datastoreTag))) with
      ⟨tags, htags⟩ | ⟨pre, c, post, e, hsplit, hpre, herror⟩
    · exact .inr ⟨tags, htags, getDatastoreConstraint_eq hds htags⟩
    · obtain ⟨hc, htype⟩ := mem_datastoreTag.1 (hsplit ▸ mem_append_right pre mem_cons_self)
      obtain ⟨rfl, hvalues⟩ := firstValue_error herror
      refine .inl ⟨c, hc, htype, hvalues, ?_⟩
      rw [getDatastoreConstraint, hds, ok_bind, hsplit, mapM_eq_error herror post hpre]
      rfl
  · refine .inl ⟨pre, c, post, e, hsplit, fun b hb => (hpre b hb).imp fun _ => namedDatastore_ok_iff.1, herror, ?_⟩
    rw [getDatastoreConstraint, hsplit, mapM_eq_error herror post hpre]
    rfl

/-- **Where the constraints lead to a datastore, the engine finds one**, and the very one if it is chosen. -/
theorem Leads.getDatastoreConstraint (h : Leads manager constraints id) (chance : Chance) (n : Nat) :
    ∃ id', getDatastoreConstraint manager chance n constraints = .ok id' ∧ Leads manager constraints id' ∧
      ((∀ l, id ∈ l → chance.choice n l = some id) → id' = id) := by
  obtain ⟨ds, hds, hid, htagged⟩ := h.tagged
  rcases getDatastoreConstraint_cases manager chance n constraints with
    ⟨pre, c, post, e, hsplit, -, herror, -⟩ | ⟨datastores, hdatastores, ⟨c, hc, htype, hvalues, -⟩ | ⟨tags, htags, heq⟩⟩
  · obtain ⟨hc, htype⟩ := mem_datastore.1 (hsplit ▸ mem_append_right pre mem_cons_self)
    cases (namedDatastore_ok_iff.2 (h.named c hc htype)).symm.trans herror
  · obtain ⟨tag, htag, -⟩ := htagged c hc htype
    rw [hvalues] at htag
    cases htag
  have hone : ∀ b ∈ datastores, b = id := by
    intro b hb
    obtain ⟨c, hc, hnamed⟩ := (mapM_ok hdatastores).2 b hb
    obtain ⟨hc, htype⟩ := mem_datastore.1 hc
    rw [namedDatastore_ok_iff.2 (h.named c hc htype)] at hnamed
    exact (Except.ok.inj hnamed).symm
  have hmem : id ∈ manager.findDatastoresWithTags tags := by
    refine mem_findDatastoresWithTags_iff.2 ⟨h.placeable, ds, hds, hid, fun tag htag => ?_⟩
    obtain ⟨c, hc, hfirst⟩ := (mapM_ok htags).2 tag htag
    obtain ⟨hc, htype⟩ := mem_datastoreTag.1 hc
    obtain ⟨tag', htag', hmem⟩ := htagged c hc htype
    rw [firstValue_ok_iff] at hfirst
    cases hfirst.symm.trans htag'
    exact hmem
  rw [heq]
  by_cases hnil : datastores = []
  · -- only tags: the choice is among the datastores that have them
    subst hnil
    have htagsNe : tags ≠ [] := by
      obtain ⟨c, hc, hstorage⟩ := h.storage
      simp only [isStorage, Bool.or_eq_true, decide_eq_true_eq] at hstorage
      rcases hstorage with htype | htype
      · obtain ⟨b, hb, -⟩ := (mapM_ok hdatastores).1 c (mem_datastore.2 ⟨hc, htype⟩)
        cases hb
      · obtain ⟨tag, htag, -⟩ := (mapM_ok htags).1 c (mem_datastoreTag.2 ⟨hc, htype⟩)
        exact ne_nil_of_mem htag
    obtain ⟨id', hchoice⟩ := Option.isSome_iff_exists.1 (chance.choice_isSome n _ (ne_nil_of_mem hmem))
    have hresult : chooseDatastore manager chance n [] tags = .ok id' := by
      simp only [chooseDatastore, dedup_nil, htagsNe, if_false, hchoice]
    have hplaceable := (mem_findDatastoresWithTags_iff.1 (chance.choice_mem n _ id' hchoice)).1
    refine ⟨id', hresult, leads_of_getDatastoreConstraint (heq.trans hresult) hplaceable, ?_⟩
    intro hchosen
    rw [hchosen _ hmem] at hchoice
    exact (Option.some.inj hchoice).symm
  · refine ⟨id, ?_, h, fun _ => rfl⟩
    simp only [chooseDatastore, dedup_eq_singleton hnil hone, hmem, if_true, ite_self]

theorem chooseDatastore_raised (h : chooseDatastore manager chance n datastores tags = .error .raised) :
    datastores = [] := by
  unfold chooseDatastore at h
  split at h
  · cases h
  · split at h
    · cases h
    · split at h <;> cases h
  · rename_i hdedup
    exact (dedup_eq_nil _).1 hdedup

/-- **What the engine raises for.** -/
theorem getDatastoreConstraint_raised_iff :
    getDatastoreConstraint manager chance n constraints = .error .raised ↔ Raises manager constraints := by
  constructor
  · intro h
    rcases getDatastoreConstraint_cases manager chance n constraints with
      ⟨pre, c, post, e, hsplit, hnames, herror, heq⟩ | ⟨datastores, hds,
        ⟨c, hc, htype, hvalues, -⟩ | ⟨tags, htags, heq⟩⟩
    · cases heq.symm.trans h
      exact .datastore pre c post hsplit hnames (namedDatastore_raised herror)
    · refine .tag (fun b hb hbtype => ?_) c hc htype hvalues
      obtain ⟨id, -, hnamed⟩ := (mapM_ok hds).1 b (mem_datastore.2 ⟨hb, hbtype⟩)
      exact ⟨id, namedDatastore_ok_iff.1 hnamed⟩
    · -- the values are there: only a choice from nothing is left
      have hnil := chooseDatastore_raised (heq.symm.trans h)
      refine .choice (fun c hc htype => ?_) fun hleads => ?_
      · obtain ⟨b, hb, -⟩ := (mapM_ok hds).1 c (mem_datastore.2 ⟨hc, htype⟩)
        rw [hnil] at hb
        cases hb
      · obtain ⟨id, hid⟩ := hleads
        obtain ⟨id', hok, -⟩ := hid.getDatastoreConstraint chance n
        cases h.symm.trans hok
  · intro h
    cases h with
    | datastore pre c post split names values =>
      have hpre : ∀ b ∈ pre, ∃ id, namedDatastore manager b = .ok id :=
        fun b hb => (names b hb).imp fun _ => namedDatastore_ok_iff.2
      rw [getDatastoreConstraint, split, mapM_eq_error (by unfold namedDatastore; rw [firstValue_nil values]) post hpre]
      rfl
    | tag names c mem type values =>
      rcases getDatastoreConstraint_cases manager chance n constraints with
        ⟨pre, b, post, e, hsplit, -, herror, -⟩ | ⟨datastores, hds, ⟨-, -, -, -, heq⟩ | ⟨tags, htags, -⟩⟩
      · obtain ⟨hb, hbtype⟩ := mem_datastore.1 (hsplit ▸ mem_append_right pre mem_cons_self)
        obtain ⟨id, hid⟩ := names b hb hbtype
        cases (namedDatastore_ok_iff.2 hid).symm.trans herror
      · exact heq
      · obtain ⟨tag, -, htag⟩ := (mapM_ok htags).1 c (mem_datastoreTag.2 ⟨mem, type⟩)
        cases (firstValue_nil values).symm.trans htag
    | choice none leads =>
      rcases getDatastoreConstraint_cases manager chance n constraints with
        ⟨pre, b, post, e, hsplit, -⟩ | ⟨datastores, hds, ⟨-, -, -, -, heq⟩ | ⟨tags, htags, heq⟩⟩
      · obtain ⟨hb, hbtype⟩ := mem_datastore.1 (hsplit ▸ mem_append_right pre mem_cons_self)
        exact absurd hbtype (none b hb)
      · exact heq
      · have hempty : datastores = [] := by
          refine eq_nil_iff_forall_not_mem.2 fun b hb => ?_
          obtain ⟨c, hc, -⟩ := (mapM_ok hds).2 b hb
          exact none c (mem_datastore.1 hc).1 (mem_datastore.1 hc).2
        subst hempty
        by_cases hnil : tags = []
        · simp only [heq, chooseDatastore, dedup_nil, hnil, if_true]
        · cases hchoice : chance.choice n (manager.findDatastoresWithTags tags) with
          | none => simp only [heq, chooseDatastore, dedup_nil, hnil, if_false, hchoice]
          | some id =>
            have hplaceable := (mem_findDatastoresWithTags_iff.1 (chance.choice_mem n _ id hchoice)).1
            refine absurd ⟨id, leads_of_getDatastoreConstraint (heq.trans ?_) hplaceable⟩ leads
            simp only [chooseDatastore, dedup_nil, hnil, if_false, hchoice]

theorem getDatastoreConstraint_refused (hraises : ¬Raises manager constraints)
    (hleads : ¬∃ id, Leads manager constraints id) :
    getDatastoreConstraint manager chance n constraints = .error .datastoreNotFound ∨
      getDatastoreConstraint manager chance n constraints = .error .conflicted ∨
      ∃ id, getDatastoreConstraint manager chance n constraints = .ok id ∧ id ∉ manager.placeableDatastores := by
  cases hresult : getDatastoreConstraint manager chance n constraints with
  | ok id =>
    refine .inr (.inr ⟨id, rfl, fun hplaceable => hleads ⟨id, ?_⟩⟩)
    exact leads_of_getDatastoreConstraint hresult hplaceable
  | error e =>
    cases e with
    | datastoreNotFound => exact .inl rfl
    | conflicted => exact .inr (.inl rfl)
    | raised => exact absurd (getDatastoreConstraint_raised_iff.1 hresult) hraises

/-! ## One disk -/

variable {disk : Disk} {disks unplaced : List Disk} {selector : DatastoreSelector} {list : List AgentResourcePlacement}

def Disk.constraintList (disk : Disk) : List ResourceConstraint := disk.constraints.getD []

theorem constraintLoop_unconstrained (h : disk.constraintList = []) :
    constraintLoop manager chance (disk :: disks) unplaced selector list =
      constraintLoop manager chance disks (unplaced ++ [disk]) selector list := by
  rw [Disk.constraintList] at h
  simp only [constraintLoop, h]

theorem constraintLoop_raises (h : Raises manager disk.constraintList) (hne : disk.constraintList ≠ []) :
    constraintLoop manager chance (disk :: disks) unplaced selector list = .raised := by
  obtain ⟨c, constraints, hconstraints⟩ := exists_cons_of_ne_nil hne
  have hraised : getDatastoreConstraint manager chance disks.length disk.constraintList = .error .raised :=
    getDatastoreConstraint_raised_iff.2 h
  rw [hconstraints] at hraised
  rw [Disk.constraintList] at hconstraints
  simp only [constraintLoop, hconstraints, hraised]

theorem constraintLoop_refused (hraises : ¬Raises manager disk.constraintList) (hleads : ¬∃ id,
    Leads manager disk.constraintList id) (hne : disk.constraintList ≠ []) :
      constraintLoop manager chance (disk :: disks) unplaced selector list = .noSuchResource := by
  obtain ⟨c, constraints, hconstraints⟩ := exists_cons_of_ne_nil hne
  have hrefused := @getDatastoreConstraint_refused manager chance disks.length _ hraises hleads
  rw [hconstraints] at hrefused
  rw [Disk.constraintList] at hconstraints
  rcases hrefused with hrefused | hrefused | ⟨id, hid, hplaceable⟩
  · simp only [constraintLoop, hconstraints, hrefused]
  · simp only [constraintLoop, hconstraints, hrefused]
  · simp only [constraintLoop, hconstraints, hid, hplaceable, if_false]

theorem constraintLoop_of_ok {free : ℚ}
    (hid : getDatastoreConstraint manager chance disks.length disk.constraintList = .ok id)
    (hplaceable : id ∈ manager.placeableDatastores) (hne : disk.constraintList ≠ [])
    (hfree : selector.datastoreFree.get id = some free) :
      constraintLoop manager chance (disk :: disks) unplaced selector list =
      if free < disk.capacity then .notEnoughDatastoreCapacity none
      else constraintLoop manager chance disks unplaced ⟨selector.datastoreFree.put id (free - disk.capacity)⟩
        (list ++ [placeOn id disk]) := by
  obtain ⟨c, constraints, hconstraints⟩ := exists_cons_of_ne_nil hne
  rw [hconstraints] at hid
  rw [Disk.constraintList] at hconstraints
  simp only [constraintLoop, hconstraints, hid, hplaceable, if_true, DatastoreSelector.consumeDatastoreSpace, hfree]
  by_cases hroom : free < disk.capacity <;> simp only [hroom, if_true, if_false]

end

/-! ## The disks the engine comes to -/

/-- The constrained disks can be put, one after the other, on datastores their constraints lead to, each with room for
it. -/
inductive Reaches (manager : DatastoreManager) : List Disk → List Placed → Prop where
  | start : Reaches manager [] []
  | leave {pre : List Disk} {placed : List Placed} (disk : Disk) (before : Reaches manager pre placed)
    (unconstrained : disk.constraintList = []) : Reaches manager (pre ++ [disk]) placed
  | place {pre : List Disk} {placed : List Placed} (disk : Disk) (id : String) (before : Reaches manager pre placed)
    (constrained : disk.constraintList ≠ []) (leads : Leads manager disk.constraintList id)
    (room : placedOn placed id + disk.capacity ≤ freeSpace manager id) :
      Reaches manager (pre ++ [disk]) (placed ++ [(disk, id)])

def Possible (manager : DatastoreManager) (disks : List Disk) : Prop :=
  ∃ placed : List Placed, placed.map Prod.fst = disks.filter (fun disk => disk.constraintList ≠ []) ∧
    (∀ p ∈ placed, p.2 ∈ manager.placeableDatastores ∧ Allowed manager p.1 p.2) ∧
    ∀ id ∈ manager.placeableDatastores, placedOn placed id ≤ freeSpace manager id

/-- The engine does not raise for a constrained disk that it comes to, and does not refuse it if the disks can be
placed. -/
def Handled (manager : DatastoreManager) (disks : List Disk) : Prop :=
  ∀ pre disk post placed, disks = pre ++ disk :: post → disk.constraintList ≠ [] → Reaches manager pre placed →
    ¬Raises manager disk.constraintList ∧ (Possible manager disks → ∃ id, Leads manager disk.constraintList id)

def PlacesWhenPossible (manager : DatastoreManager) (disks : List Disk) (result : PlaceResult) : Prop :=
  result ≠ .raised ∧ (Possible manager disks → result ≠ .noSuchResource)

section

variable {manager : DatastoreManager}

def Spent (manager : DatastoreManager) (selector : DatastoreSelector) (placed : List Placed) : Prop :=
  ∀ id ∈ manager.placeableDatastores, selector.datastoreFree.get id = some (freeSpace manager id - placedOn placed id)

theorem spent_init (manager : DatastoreManager) : Spent manager (.init manager manager.placeableDatastores) [] := by
  intro id hid
  rw [get_init, if_pos hid]
  simp [placedOn]

variable {placed : List Placed}

theorem Spent.put {selector : DatastoreSelector} {disk : Disk} {id : String} (h : Spent manager selector placed) :
    Spent manager ⟨selector.datastoreFree.put id (freeSpace manager id - placedOn placed id - disk.capacity)⟩
    (placed ++ [(disk, id)]) := by
  intro j hj
  simp only
  rw [LinkedMap.get_put, placedOn_append]
  by_cases hid : j = id
  · simp [placedOn, Placed.amount, hid, sub_sub]
  · simp [placedOn, Placed.amount, hid]
    exact h j hj

theorem not_lt_iff_room {free placed capacity : ℚ} : ¬free - placed < capacity ↔ placed + capacity ≤ free := by
  rw [not_lt, le_sub_iff_add_le, add_comm]

theorem constraintLoop_placesWhenPossible {chance : Chance} {all : List Disk} (hhandled : Handled manager all) :
    ∀ (disks pre unplaced : List Disk) (placed : List Placed) (selector : DatastoreSelector)
      (list : List AgentResourcePlacement),
    all = pre ++ disks → Reaches manager pre placed → Spent manager selector placed →
    PlacesWhenPossible manager all (constraintLoop manager chance disks unplaced selector list)
  | [], _, _, _, _, _, _, _, _ => by
    refine ⟨?_, fun _ => ?_⟩ <;> intro h <;> cases h
  | disk :: disks, pre, unplaced, placed, selector, list, hall, hreaches, hspent => by
    have happend : all = (pre ++ [disk]) ++ disks := by
      rw [hall, append_assoc, singleton_append]
    by_cases hne : disk.constraintList = []
    · rw [constraintLoop_unconstrained hne]
      exact constraintLoop_placesWhenPossible hhandled disks _ _ placed selector list happend
        (.leave disk hreaches hne) hspent
    · obtain ⟨hraises, hleads⟩ := hhandled pre disk disks placed hall hne hreaches
      by_cases hled : ∃ id, Leads manager disk.constraintList id
      · obtain ⟨id, hid⟩ := hled
        obtain ⟨id', hok, hid', -⟩ := hid.getDatastoreConstraint chance disks.length
        rw [constraintLoop_of_ok hok hid'.placeable hne (hspent id' hid'.placeable)]
        split
        · refine ⟨?_, fun _ => ?_⟩ <;> intro h <;> cases h
        · rename_i hroom
          exact constraintLoop_placesWhenPossible hhandled disks _ _ _ _ _ happend
            (.place disk id' hreaches hne hid' (not_lt_iff_room.1 hroom)) hspent.put
      · rw [constraintLoop_refused hraises hled hne]
        refine ⟨?_, fun hpossible => absurd (hleads hpossible) hled⟩
        intro h
        cases h

/-- The same, but for one call of `choice`, which takes the datastore if it can. -/
def Chance.choosing (chance : Chance) (k : Nat) (id : String) : Chance :=
  { chance with
    choice := fun n l => if n = k ∧ id ∈ l then some id else chance.choice n l
    choice_mem := by
      intro n l id' h
      split at h
      · rename_i hmem
        cases h
        exact hmem.2
      · exact chance.choice_mem n l id' h
    choice_isSome := by
      intro n l h
      split
      · rfl
      · exact chance.choice_isSome n l h }

theorem Chance.choosing_same (chance : Chance) {k : Nat} {id : String} {l : List String} (h : id ∈ l) :
    (chance.choosing k id).choice k l = some id := if_pos ⟨rfl, h⟩

theorem Chance.choosing_other (chance : Chance) {n k : Nat} {id : String} (h : n ≠ k) (l : List String) :
    (chance.choosing k id).choice n l = chance.choice n l := if_neg fun hn => h hn.1

/-- **What can be reached is reached by chance**: whatever the choices are after those for the disks in question. -/
theorem Reaches.constraintLoop {pre : List Disk} (h : Reaches manager pre placed) : ∀ post : List Disk,
    ∃ chance : Chance, ∀ chance' : Chance, (∀ n, post.length ≤ n → chance'.choice n = chance.choice n) →
      ∃ unplaced selector list, Spent manager selector placed ∧
        constraintLoop manager chance' (pre ++ post) [] (.init manager manager.placeableDatastores) [] =
          constraintLoop manager chance' post unplaced selector list := by
  induction h with
  | start => exact fun post => ⟨.first, fun chance' _ => ⟨[], _, [], spent_init manager, rfl⟩⟩
  | leave disk _ unconstrained ih =>
    intro post
    obtain ⟨chance, hchance⟩ := ih (disk :: post)
    refine ⟨chance, fun chance' hsame => ?_⟩
    obtain ⟨unplaced, selector, list, hspent, hloop⟩ := hchance chance' fun n hn => hsame n (Nat.le_of_succ_le hn)
    refine ⟨unplaced ++ [disk], selector, list, hspent, ?_⟩
    rw [append_assoc, singleton_append, hloop, constraintLoop_unconstrained unconstrained]
  | @place pre placed disk id _ constrained leads room ih =>
    intro post
    obtain ⟨chance, hchance⟩ := ih (disk :: post)
    refine ⟨chance.choosing post.length id, fun chance' hsame => ?_⟩
    have hearlier : ∀ n, (disk :: post).length ≤ n → chance'.choice n = chance.choice n := by
      intro n hn
      rw [hsame n (Nat.le_of_succ_le hn)]
      exact funext fun l => chance.choosing_other (Nat.ne_of_gt hn) l
    obtain ⟨unplaced, selector, list, hspent, hloop⟩ := hchance chance' hearlier
    obtain ⟨id', hok, -, hchosen⟩ := leads.getDatastoreConstraint chance' post.length
    obtain rfl := hchosen fun l hl => by rw [hsame _ (Nat.le_refl _), chance.choosing_same hl]
    refine ⟨unplaced, _, list ++ [placeOn id' disk], hspent.put, ?_⟩
    rw [append_assoc, singleton_append, hloop,
      constraintLoop_of_ok hok leads.placeable constrained (hspent id' leads.placeable),
      if_neg (not_lt_iff_room.2 room)]

theorem Reaches.exists_chance {pre : List Disk} (h : Reaches manager pre placed) (post : List Disk) :
    ∃ (chance : Chance) (unplaced : List Disk) (selector : DatastoreSelector) (list : List AgentResourcePlacement),
      DiskPlacement.constraintLoop manager chance (pre ++ post) [] (.init manager manager.placeableDatastores) [] =
        DiskPlacement.constraintLoop manager chance post unplaced selector list := by
  obtain ⟨chance, hchance⟩ := h.constraintLoop post
  obtain ⟨unplaced, selector, list, -, hloop⟩ := hchance chance fun _ _ => rfl
  exact ⟨chance, unplaced, selector, list, hloop⟩

/-- **Constrained disks are placed when possible.**  Whatever is chosen, the engine does not raise, and does not answer
`NO_SUCH_RESOURCE` where every constrained disk can have a datastore that satisfies its constraints, if and only if the
first values of the constraints lead to a datastore for the disks it comes to. -/
theorem constrainedDisks_placed_iff (manager : DatastoreManager) (disks : List Disk) :
    (∀ chance : Chance, PlacesWhenPossible manager disks
      (Engine.place manager chance ⟨disks, .init manager manager.placeableDatastores, []⟩ .constraint).1) ↔
    Handled manager disks := by
  constructor
  · intro h pre disk post placed hdisks hne hreaches
    obtain ⟨chance, unplaced, selector, list, hloop⟩ := hreaches.exists_chance (disk :: post)
    rw [← hdisks] at hloop
    obtain ⟨hnotRaised, hnotRefused⟩ := h chance
    rw [Engine.place, hloop] at hnotRaised hnotRefused
    have hraises : ¬Raises manager disk.constraintList := fun hraises => hnotRaised (constraintLoop_raises hraises hne)
    refine ⟨hraises, fun hpossible => ?_⟩
    by_contra hled
    exact hnotRefused hpossible (constraintLoop_refused hraises hled hne)
  · intro h chance
    exact constraintLoop_placesWhenPossible h disks [] [] [] _ [] rfl .start (spent_init manager)

def either : Disk := ⟨"disk", 10, none, some [⟨.datastore, ["datastore9", "datastore1"], none⟩]⟩

def untagged : Disk := ⟨"disk", 10, none, some [⟨.datastoreTag, ["NFS"], none⟩]⟩

/-- The first is refused, though there is room for it on the other datastore; the second makes the engine raise. -/
theorem constrainedDisks_refused :
    (Possible twoDatastores [either] ∧ (Engine.place twoDatastores .first
      ⟨[either], .init twoDatastores twoDatastores.placeableDatastores, []⟩ .constraint).1 = .noSuchResource) ∧
    (Engine.place twoDatastores .first
      ⟨[untagged], .init twoDatastores twoDatastores.placeableDatastores, []⟩ .constraint).1 = .raised := by
  refine ⟨⟨⟨[(either, "id-1")], by decide +kernel, ?_, ?_⟩, rfl⟩, rfl⟩
  · intro p hp
    obtain rfl := mem_singleton.1 hp
    refine ⟨by decide +kernel, fun c hc _ => ?_⟩
    obtain rfl := mem_singleton.1 hc
    exact ⟨fun _ => rfl, fun _ => ⟨"datastore1", by decide, by decide +kernel⟩⟩
  · decide +kernel

end
end Photon.Agent.DiskPlacement
