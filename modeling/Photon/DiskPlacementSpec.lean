import Mathlib.Data.List.MinMax
import Mathlib.Tactic.Linarith
import Photon.DiskPlacement
import Photon.Fallible
import Photon.Ledger
/-!
# DiskPlacementSpec — every disk once, within the free space, and where its constraints allow

What an engine adds to a placement is a list of disks with their datastores.  `Fills` says what such a list takes from
the selector; it composes, so each engine is treated by itself.  The engine for constraints takes no notice of whether a
constraint is negative, so a disk is where its constraints allow if and only if none of them is.
-/
namespace Photon.Agent.DiskPlacement

open List
open Keyed (LinkedMap)
open Ledger (total)
open DatastoreSelector (consumeDatastoreSpace init)

abbrev Placed : Type := Disk × String

def Placed.entry (p : Placed) : AgentResourcePlacement := placeOn p.2 p.1

def Placed.amount (p : Placed) (datastoreId : String) : ℚ := if datastoreId = p.2 then p.1.capacity else 0

def placedOn (placed : List Placed) (datastoreId : String) : ℚ := total (placed.map Placed.amount) datastoreId

theorem placedOn_append (as bs : List Placed) (id : String) :
    placedOn (as ++ bs) id = placedOn as id + placedOn bs id := by
  rw [placedOn, map_append, Ledger.total_append]
  rfl

theorem placedOn_same (id j : String) : ∀ disks : List Disk,
    placedOn (disks.map (fun disk => (disk, id))) j = if j = id then disksCapacityGb disks else 0
  | [] => by
    split <;> rfl
  | disk :: disks => by
    have hcons : placedOn ((disk :: disks).map (fun disk => (disk, id))) j =
        Placed.amount (disk, id) j + placedOn (disks.map (fun disk => (disk, id))) j := rfl
    rw [hcons, placedOn_same id j disks, Placed.amount]
    split
    · rfl
    · exact add_zero 0

def Solvent (selector : DatastoreSelector) : Prop := ∀ id free, selector.datastoreFree.get id = some free → 0 ≤ free

/-- What is placed is taken from the free space, which is enough. -/
structure Fills (selector selector' : DatastoreSelector) (placed : List Placed) : Prop where
  free : ∀ id, selector'.datastoreFree.get id =
    (selector.datastoreFree.get id).map (fun free => free - placedOn placed id)
  solvent : Solvent selector → Solvent selector'
  known : ∀ p ∈ placed, (selector.datastoreFree.get p.2).isSome = true

theorem Fills.nil (selector : DatastoreSelector) : Fills selector selector [] where
  free id := by simp [placedOn]
  solvent h := h
  known _ hp := nomatch hp

variable {s s' : DatastoreSelector}

theorem Fills.trans {s'' : DatastoreSelector} {as bs : List Placed} (h : Fills s s' as) (h' : Fills s' s'' bs) :
    Fills s s'' (as ++ bs) where
  free id := by
    rw [h'.free, h.free, Option.map_map]
    refine congrArg (fun f => Option.map f _) (funext fun free => ?_)
    simp only [Function.comp_apply, placedOn_append]
    exact sub_sub _ _ _
  solvent hs := h'.solvent (h.solvent hs)
  known p hp := by
    rcases mem_append.1 hp with hp | hp
    · exact h.known p hp
    · have hsome := h'.known p hp
      rw [h.free, Option.isSome_map] at hsome
      exact hsome

variable {id : String} {disks : List Disk}

theorem Fills.consume (h : s.consumeDatastoreSpace id (disksCapacityGb disks) = .ok s') :
    Fills s s' (disks.map (fun disk => (disk, id))) := by
  unfold consumeDatastoreSpace at h
  split at h
  · cases h
  · rename_i free hfree
    split at h
    · cases h
    · rename_i hroom
      cases h
      refine ⟨fun j => ?_, fun hs j f hj => ?_, fun p hp => ?_⟩
      · rw [placedOn_same, LinkedMap.get_put]
        split
        · rename_i hj
          rw [hj, hfree]
          rfl
        · simp
      · rcases LinkedMap.get_put_cases hj with ⟨-, rfl⟩ | ⟨-, hj⟩
        · linarith [not_lt.1 hroom]
        · exact hs j f hj
      · obtain ⟨disk, _, rfl⟩ := mem_map.1 hp
        rw [hfree]
        rfl

variable {disk : Disk}

theorem Fills.consumeOne (h : s.consumeDatastoreSpace id disk.capacity = .ok s') : Fills s s' [(disk, id)] := by
  have hsum : disksCapacityGb [disk] = disk.capacity := by
    rw [disksCapacityGb, map_singleton, sum_singleton]
  rw [← hsum] at h
  exact Fills.consume h

/-! ## Constraints -/

/-- The constraint names the datastore, or a tag it has. -/
def Matches (manager : DatastoreManager) (datastoreId : String) (c : ResourceConstraint) : Prop :=
  match c.type with
  | .datastore => ∃ value ∈ c.values, manager.normalize value = some datastoreId
  | .datastoreTag => ∃ value ∈ c.values, ∃ ds ∈ manager.datastores, ds.id = datastoreId ∧ value ∈ ds.tags
  | _ => True

def isStorage (c : ResourceConstraint) : Bool := decide (c.type = .datastore) || decide (c.type = .datastoreTag)

/-- The datastore is allowed by the constraints of the disk: it matches the positive ones and none of the negative. -/
def Allowed (manager : DatastoreManager) (disk : Disk) (datastoreId : String) : Prop :=
  ∀ c ∈ disk.constraints.getD [], isStorage c = true → (Matches manager datastoreId c ↔ c.isNegative = false)

def OnlyPositive (disk : Disk) : Prop :=
  ∀ c ∈ disk.constraints.getD [], isStorage c = true → c.isNegative = false

variable {c : ResourceConstraint}

theorem firstValue_ok {value : String} (h : firstValue c = .ok value) : value ∈ c.values := by
  unfold firstValue at h
  split at h
  · cases h
  · rename_i hvalues
    cases h
    rw [hvalues]
    exact mem_cons_self

variable {manager : DatastoreManager}

theorem namedDatastore_ok (h : namedDatastore manager c = .ok id) :
    ∃ value ∈ c.values, manager.normalize value = some id := by
  unfold namedDatastore at h
  split at h
  · cases h
  · rename_i value hvalue
    split at h
    · cases h
    · rename_i hid
      cases h
      exact ⟨value, firstValue_ok hvalue, hid⟩

theorem mem_findDatastoresWithTags {tags : List String}
    (h : id ∈ manager.findDatastoresWithTags tags) : ∃ ds ∈ manager.datastores, ds.id = id ∧ ∀ tag ∈ tags,
    tag ∈ ds.tags := by
  unfold DatastoreManager.findDatastoresWithTags at h
  obtain ⟨ds, hds, hid⟩ := mem_map.1 (mem_dedup.1 h)
  obtain ⟨hmem, htags⟩ := mem_filter.1 hds
  simp only [Bool.and_eq_true, all_eq_true, decide_eq_true_eq] at htags
  exact ⟨ds, hmem, hid, htags.2⟩

theorem chosen_of_chooseDatastore {chance : Chance} {n : Nat} {datastores tags : List String}
    (h : chooseDatastore manager chance n datastores tags = .ok id) :
    (∀ b ∈ datastores, b = id) ∧ (tags ≠ [] → id ∈ manager.findDatastoresWithTags tags) := by
  unfold chooseDatastore at h
  split at h
  · cases h
  · rename_i datastore hdedup
    have hone : ∀ b ∈ datastores, b = datastore := fun b hb =>
      mem_singleton.1 (hdedup ▸ mem_dedup.2 hb)
    split at h
    · rename_i hnil
      cases h
      exact ⟨hone, fun hne => absurd hnil hne⟩
    · split at h
      · rename_i hmem
        cases h
        exact ⟨hone, fun _ => hmem⟩
      · cases h
  · rename_i hdedup
    split at h
    · cases h
    · split at h
      · cases h
      · rename_i datastore hchoice
        cases h
        refine ⟨fun b hb => ?_, fun _ => chance.choice_mem _ _ _ hchoice⟩
        have hb' : b ∈ datastores.dedup := mem_dedup.2 hb
        rw [hdedup] at hb'
        cases hb'

theorem chosen_of_getDatastoreConstraint {chance : Chance} {n : Nat} {constraints : List ResourceConstraint}
    (h : getDatastoreConstraint manager chance n constraints = .ok id) : ∃ datastores tags,
      (constraints.filter (fun c => decide (c.type = .datastore))).mapM (namedDatastore manager) = .ok datastores ∧
      (constraints.filter (fun c => decide (c.type = .datastoreTag))).mapM firstValue = .ok tags ∧
      (∀ b ∈ datastores, b = id) ∧ (tags ≠ [] → id ∈ manager.findDatastoresWithTags tags) := by
  unfold getDatastoreConstraint at h
  cases hds : (constraints.filter (fun c => decide (c.type = .datastore))).mapM (namedDatastore manager) with
  | error error =>
    rw [hds] at h
    cases h
  | ok datastores =>
    rw [hds] at h
    cases htags : (constraints.filter (fun c => decide (c.type = .datastoreTag))).mapM firstValue with
    | error error =>
      rw [htags] at h
      cases h
    | ok tags =>
      rw [htags] at h
      exact ⟨datastores, tags, rfl, rfl, chosen_of_chooseDatastore h⟩

/-- **The datastore found for a disk matches each of its constraints**, be it negative or not. -/
theorem matches_of_getDatastoreConstraint {chance : Chance} {n : Nat} {constraints : List ResourceConstraint}
    (h : getDatastoreConstraint manager chance n constraints = .ok id) (hc : c ∈ constraints)
    (hstorage : isStorage c = true) : Matches manager id c := by
  obtain ⟨datastores, tags, hds, htags, hone, hmem⟩ := chosen_of_getDatastoreConstraint h
  simp only [isStorage, Bool.or_eq_true, decide_eq_true_eq] at hstorage
  rcases hstorage with htype | htype
  · obtain ⟨b, hb, hnamed⟩ := (Fallible.mapM_ok hds).1 c (mem_filter.2 ⟨hc, decide_eq_true htype⟩)
    simp only [Matches, htype]
    obtain rfl := hone b hb
    exact namedDatastore_ok hnamed
  · obtain ⟨tag, htag, hfirst⟩ := (Fallible.mapM_ok htags).1 c (mem_filter.2 ⟨hc, decide_eq_true htype⟩)
    obtain ⟨ds, hds', hid, hall⟩ := mem_findDatastoresWithTags (hmem (ne_nil_of_mem htag))
    simp only [Matches, htype]
    exact ⟨tag, firstValue_ok hfirst, ds, hds', hid, hall tag htag⟩

def Matched (manager : DatastoreManager) (p : Placed) : Prop :=
  ∀ c ∈ p.1.constraints.getD [], isStorage c = true → Matches manager p.2 c

theorem Matched.allowed_iff {p : Placed} (h : Matched manager p) : Allowed manager p.1 p.2 ↔ OnlyPositive p.1 := by
  constructor
  · intro hallowed c hc hstorage
    exact (hallowed c hc hstorage).1 (h c hc hstorage)
  · intro hpositive c hc hstorage
    exact ⟨fun _ => hpositive c hc hstorage, fun _ => h c hc hstorage⟩

/-! ## The engines -/

/-- What an engine adds to a placement: disks on datastores that match their constraints. -/
structure Adds (manager : DatastoreManager) (selector selector' : DatastoreSelector)
    (list list' : List AgentResourcePlacement) (placed : List Placed) : Prop where
  list : list' = list ++ placed.map Placed.entry
  fills : Fills selector selector' placed
  matched : ∀ p ∈ placed, Matched manager p

theorem Adds.nil (manager : DatastoreManager) (selector : DatastoreSelector) (list : List AgentResourcePlacement) :
    Adds manager selector selector list list [] :=
  ⟨(append_nil _).symm, .nil selector, fun _ hp => nomatch hp⟩

theorem Adds.trans {s s' s'' : DatastoreSelector} {l l' l'' : List AgentResourcePlacement}
    {as bs : List Placed} (h : Adds manager s s' l l' as) (h' : Adds manager s' s'' l' l'' bs) :
    Adds manager s s'' l l'' (as ++ bs) where
  list := by rw [h'.list, h.list, map_append, append_assoc]
  fills := h.fills.trans h'.fills
  matched p hp := by
    rcases mem_append.1 hp with hp | hp
    · exact h.matched p hp
    · exact h'.matched p hp

theorem Adds.one (hconsume : s.consumeDatastoreSpace id disk.capacity = .ok s') (hmatched : Matched manager (disk, id))
    (list : List AgentResourcePlacement) : Adds manager s s' list (list ++ [placeOn id disk]) [(disk, id)] where
  list := rfl
  fills := .consumeOne hconsume
  matched p hp := by
    obtain rfl := mem_singleton.1 hp
    exact hmatched

def Disk.Unconstrained (disk : Disk) : Prop := disk.constraints.getD [] = []

theorem Disk.Unconstrained.matched (h : disk.Unconstrained) (manager : DatastoreManager) (id : String) :
    Matched manager (disk, id) := by
  intro c hc
  rw [h] at hc
  cases hc

variable {manager : DatastoreManager} {chance : Chance}

/-- **The engine for constraints**: the disks with constraints are placed, and the others are left. -/
theorem constraintLoop_ok : ∀ (disks unplaced : List Disk) (selector : DatastoreSelector)
    (list : List AgentResourcePlacement) (result : DisksPlacement),
    constraintLoop manager chance disks unplaced selector list = .ok result → (∀ disk ∈ unplaced, disk.Unconstrained) →
    ∃ placed, Adds manager selector result.selector list result.placementList placed ∧
      (placed.map Prod.fst ++ result.disks).Perm (unplaced ++ disks) ∧ ∀ disk ∈ result.disks, disk.Unconstrained
  | [], unplaced, selector, list, result, h, hun => by
    cases h
    exact ⟨[], .nil manager selector list, by simp, hun⟩
  | disk :: disks, unplaced, selector, list, result, h, hun => by
    unfold constraintLoop at h
    split at h
    · rename_i hnone
      have hun' : ∀ d ∈ unplaced ++ [disk], d.Unconstrained := by
        intro d hd
        rcases mem_append.1 hd with hd | hd
        · exact hun d hd
        · obtain rfl := mem_singleton.1 hd
          exact hnone
      obtain ⟨placed, hadds, hperm, hrest⟩ := constraintLoop_ok disks _ selector list result h hun'
      exact ⟨placed, hadds, by simpa using hperm, hrest⟩
    · rename_i c constraints hconstraints
      split at h
      · cases h
      · cases h
      · cases h
      · rename_i id hid
        split at h
        · split at h
          · cases h
          · cases h
          · rename_i selector' hconsume
            obtain ⟨placed, hadds, hperm, hrest⟩ := constraintLoop_ok disks unplaced selector' _ result h hun
            have hmatched : Matched manager (disk, id) := by
              intro c' hc' hstorage
              rw [hconstraints] at hc'
              exact matches_of_getDatastoreConstraint hid hc' hstorage
            refine ⟨_, (Adds.one hconsume hmatched list).trans hadds, ?_, hrest⟩
            exact (hperm.cons disk).trans perm_middle.symm
        · cases h

variable {placement result : DisksPlacement}

/-- **The optimal engine** puts all the disks on one datastore. -/
theorem optimalPlace_ok (manager : DatastoreManager) (h : optimalPlace chance placement = .ok result)
    (hun : ∀ disk ∈ placement.disks, disk.Unconstrained) :
    ∃ placed, Adds manager placement.selector result.selector placement.placementList result.placementList placed ∧
      placed.map Prod.fst = placement.disks := by
  unfold optimalPlace at h
  split at h
  · cases h
  · rename_i id _
    split at h
    · cases h
    · cases h
    · rename_i selector hconsume
      cases h
      refine ⟨placement.disks.map (fun disk => (disk, id)), ⟨?_, .consume hconsume, fun p hp => ?_⟩, ?_⟩
      · rw [map_map]
        rfl
      · obtain ⟨disk, hdisk, rfl⟩ := mem_map.1 hp
        exact (hun disk hdisk).matched manager id
      · rw [map_map]
        exact map_id _

theorem bestEffortLoop_ok {allDisks : List Disk} :
    ∀ (disks : List Disk) (optimal : String) (selector : DatastoreSelector)
    (list : List AgentResourcePlacement) (result : DisksPlacement),
    bestEffortLoop chance allDisks disks optimal selector list = .ok result → (∀ disk ∈ disks, disk.Unconstrained) →
    ∃ placed, Adds manager selector result.selector list result.placementList placed ∧ placed.map Prod.fst = disks
  | [], _, selector, list, result, h, _ => by
    cases h
    exact ⟨[], .nil manager selector list, rfl⟩
  | disk :: disks, optimal, selector, list, result, h, hun => by
    unfold bestEffortLoop at h
    split at h
    · cases h
    · rename_i id _
      split at h
      · cases h
      · cases h
      · rename_i selector' hconsume
        obtain ⟨placed, hadds, hfst⟩ :=
          bestEffortLoop_ok disks id selector' _ result h (fun d hd => hun d (mem_cons_of_mem _ hd))
        have hmatched := (hun disk mem_cons_self).matched manager id
        exact ⟨_, (Adds.one hconsume hmatched list).trans hadds, by rw [← hfst]; rfl⟩

theorem bestEffortPlace_ok (h : bestEffortPlace chance placement = .ok result)
    (hun : ∀ disk ∈ placement.disks, disk.Unconstrained) :
    ∃ placed, Adds manager placement.selector result.selector placement.placementList result.placementList placed ∧
      (placed.map Prod.fst).Perm placement.disks := by
  unfold bestEffortPlace at h
  split at h
  · cases h
  · rename_i id _
    have hperm := perm_insertionSort (fun a b : Disk => a.capacity ≥ b.capacity) placement.disks
    obtain ⟨placed, hadds, hfst⟩ :=
      bestEffortLoop_ok _ id _ _ result h (fun disk hdisk => hun disk (hperm.subset hdisk))
    exact ⟨placed, hadds, hfst ▸ hperm⟩

theorem optimalPlace_handsBack {placement' : DisksPlacement}
    (h : optimalPlace chance placement = .notEnoughDatastoreCapacity (some placement')) : placement' = placement := by
  unfold optimalPlace at h
  split at h
  · cases h
  · split at h
    · cases h
      rfl
    · cases h
    · cases h

theorem placeUnconstrained_ok (h : placeUnconstrained manager chance placement = .ok result)
    (hun : ∀ disk ∈ placement.disks, disk.Unconstrained) :
    ∃ placed, Adds manager placement.selector result.selector placement.placementList result.placementList placed ∧
      (placed.map Prod.fst).Perm placement.disks := by
  simp only [placeUnconstrained, Engine.place] at h
  cases hoptimal : optimalPlace chance placement with
  | ok placed =>
    rw [hoptimal] at h
    cases h
    obtain ⟨placed, hadds, hfst⟩ := optimalPlace_ok manager hoptimal hun
    exact ⟨placed, hadds, hfst ▸ List.Perm.refl _⟩
  | noSuchResource | raised =>
    rw [hoptimal] at h
    cases h
  | notEnoughDatastoreCapacity back =>
    rw [hoptimal] at h
    cases back with
    | none => cases h
    | some placement' =>
      obtain rfl := optimalPlace_handsBack hoptimal
      exact bestEffortPlace_ok h hun

/-! ## The whole placement -/

def freeSpace (manager : DatastoreManager) (id : String) : ℚ := (manager.info id).total - (manager.info id).used

theorem get_init (manager : DatastoreManager) (id : String) :
    (init manager manager.placeableDatastores).datastoreFree.get id =
      if id ∈ manager.placeableDatastores then some (freeSpace manager id) else none := by
  have hkeys : (manager.placeableDatastores.map (fun id => (id, freeSpace manager id))).map Prod.fst =
      manager.placeableDatastores := by
    rw [map_map]
    exact map_id _
  split
  · rename_i hmem
    obtain ⟨free, hfree, hget⟩ := LinkedMap.get_putAll_of_mem _ LinkedMap.empty (hkeys.symm ▸ hmem)
    obtain ⟨j, _, hj⟩ := mem_map.1 hfree
    obtain ⟨rfl, rfl⟩ := Prod.mk.inj hj
    exact hget
  · rename_i hmem
    exact LinkedMap.get_putAll_of_not_mem id _ _ (hkeys.symm ▸ hmem)

theorem solvent_init (manager : DatastoreManager) : Solvent (init manager manager.placeableDatastores) := by
  intro id free hget
  rw [get_init] at hget
  split at hget
  · cases hget
    exact sub_nonneg.2 (manager.info id).used_le
  · cases hget

def placementListOf : Option DisksPlacement → List AgentResourcePlacement
  | none => []
  | some placement => placement.placementList

/-- What a successful placement is: every disk once, on a placeable datastore, and the free space taken exactly. -/
structure Correct (manager : DatastoreManager) (disks : List Disk) (result : Option DisksPlacement)
    (placed : List Placed) : Prop where
  disks : (placed.map Prod.fst).Perm disks
  list : placementListOf result = placed.map Placed.entry
  placeable : ∀ p ∈ placed, p.2 ∈ manager.placeableDatastores
  within : ∀ id ∈ manager.placeableDatastores, placedOn placed id ≤ freeSpace manager id
  free : ∀ placement, result = some placement → ∀ id ∈ manager.placeableDatastores,
    placement.selector.datastoreFree.get id = some (freeSpace manager id - placedOn placed id)

theorem Adds.correct {placed : List Placed}
    (h : Adds manager (init manager manager.placeableDatastores) result.selector [] result.placementList
      placed) (hperm : (placed.map Prod.fst).Perm disks) : Correct manager disks (some result) placed := by
  have hfree : ∀ id ∈ manager.placeableDatastores,
      result.selector.datastoreFree.get id = some (freeSpace manager id - placedOn placed id) := by
    intro id hid
    rw [h.fills.free, get_init, if_pos hid]
    rfl
  refine ⟨hperm, h.list, fun p hp => ?_, fun id hid => ?_, fun placement hplacement => ?_⟩
  · have hknown := h.fills.known p hp
    rw [get_init] at hknown
    by_contra hmem
    rw [if_neg hmem] at hknown
    cases hknown
  · exact sub_nonneg.1 (h.fills.solvent (solvent_init manager) id _ (hfree id hid))
  · cases hplacement
    exact hfree

theorem ok_of_toExcept {result : PlaceResult} (h : result.toExcept = .ok placement) : result = .ok placement := by
  cases result with
  | ok p =>
    cases h
    rfl
  | _ => cases h

theorem computeStorageScore_ok {result : Option DisksPlacement}
    (h : computeStorageScore manager chance disks = .ok result) :
    ∃ placed, Correct manager disks result placed ∧ ∀ p ∈ placed, Matched manager p := by
  unfold computeStorageScore at h
  split at h
  · rename_i hnil
    cases h
    subst hnil
    refine ⟨[], ⟨List.Perm.refl _, rfl, nofun, fun id _ => ?_, nofun⟩, nofun⟩
    exact sub_nonneg.2 (manager.info id).used_le
  · split at h
    · cases h
    · dsimp only at h
      split at h
      · cases h
      · rename_i placement hconstraint
        split at h
        · cases h
        · rename_i placement' hrest
          cases h
          obtain ⟨placed, hadds, hperm, hun⟩ :=
            constraintLoop_ok disks [] _ [] placement (ok_of_toExcept hconstraint) (fun _ hd => nomatch hd)
          obtain ⟨placed', hadds', hperm'⟩ := placeUnconstrained_ok (ok_of_toExcept hrest) hun
          have hall := hadds.trans hadds'
          refine ⟨placed ++ placed', hall.correct ?_, hall.matched⟩
          rw [map_append]
          exact (hperm'.append_left _).trans hperm

/-- **Disk placement respects capacity, and constraints that are not negative.**  Whenever the placement succeeds, every
disk is placed once, within the free space of the datastores, which is taken exactly; every disk is on a datastore that
its constraints allow if and only if none of them is negative.  And an engine that fails leaves the object of its caller
alone. -/
theorem diskPlacement_correct_iff (manager : DatastoreManager) (chance : Chance) :
    (∀ disks result, computeStorageScore manager chance disks = .ok result → ∃ placed : List Placed,
      Correct manager disks result placed ∧
      ((∀ p ∈ placed, Allowed manager p.1 p.2) ↔ ∀ disk ∈ disks, OnlyPositive disk)) ∧
    ∀ engine placement, (Engine.place manager chance placement engine).1.isOk = false →
      (Engine.place manager chance placement engine).2 = placement := by
  constructor
  · intro disks result h
    obtain ⟨placed, hcorrect, hmatched⟩ := computeStorageScore_ok h
    refine ⟨placed, hcorrect, ?_⟩
    constructor
    · intro hallowed disk hdisk
      obtain ⟨p, hp, rfl⟩ := mem_map.1 (hcorrect.disks.symm.subset hdisk)
      exact (hmatched p hp).allowed_iff.1 (hallowed p hp)
    · intro hpositive p hp
      exact (hmatched p hp).allowed_iff.2 (hpositive p.1 (hcorrect.disks.subset (mem_map_of_mem hp)))
  · intro engine placement hfailed
    cases engine with
    | constraint | bestEffort => rfl
    | optimal =>
      simp only [Engine.place] at hfailed ⊢
      split
      · rename_i placed hok
        rw [hok] at hfailed
        cases hfailed
      · rfl

def Chance.first : Chance where
  choice _ l := l.head?
  choice_mem _ _ _ h := List.mem_of_mem_head? h
  choice_isSome _ l h := by
    cases l with
    | nil => exact absurd rfl h
    | cons id l => rfl
  largest _ m := (m.entries.argmax Prod.snd).map Prod.fst
  largest_max _ m id h := by
    obtain ⟨e, he, rfl⟩ := Option.map_eq_some_iff.1 h
    refine ⟨e.2, LinkedMap.mem_entries_iff.1 (List.argmax_mem he), fun j g hj => ?_⟩
    exact List.le_of_mem_argmax (LinkedMap.mem_entries_iff.2 hj) he
  largest_isSome _ m id h := by
    obtain ⟨free, hfree⟩ := Option.isSome_iff_exists.1 h
    have hmem := LinkedMap.mem_entries_iff.2 hfree
    cases hmax : m.entries.argmax Prod.snd with
    | none =>
      rw [List.argmax_eq_none.1 hmax] at hmem
      cases hmem
    | some e => rfl

def twoDatastores : DatastoreManager where
  datastores := [⟨"id-1", "datastore1", ["LOCAL"]⟩, ⟨"id-2", "datastore2", ["SHARED"]⟩]
  imageDatastores := []
  info _ := ⟨100, 0, by norm_num⟩
  imageOptions := []

-- a disk with a tag, and two more that need both datastores
example : ((computeStorageScore twoDatastores .first [⟨"a", 30, none, some [⟨.datastoreTag, ["SHARED"], none⟩]⟩,
    ⟨"b", 60, none, none⟩, ⟨"c", 80, none, none⟩]).toOption.map placementListOf) =
    some [⟨"a", "id-2"⟩, ⟨"c", "id-1"⟩, ⟨"b", "id-2"⟩] := by
  decide +kernel

def elsewhere : Disk := ⟨"disk", 10, none, some [⟨.datastore, ["datastore1"], some true⟩]⟩

/-- It is placed there. -/
theorem negative_constraint_ignored :
    ((computeStorageScore twoDatastores .first [elsewhere]).toOption.map placementListOf) = some [⟨"disk", "id-1"⟩] ∧
      ¬ Allowed twoDatastores elsewhere "id-1" := by
  refine ⟨by decide +kernel, fun hallowed => ?_⟩
  have hiff := hallowed ⟨.datastore, ["datastore1"], some true⟩ mem_cons_self rfl
  cases hiff.1 ⟨"datastore1", mem_cons_self, by decide +kernel⟩

/-! ## Best effort after optimal -/

theorem disksCapacityGb_cons (disk : Disk) (disks : List Disk) :
    disksCapacityGb (disk :: disks) = disk.capacity + disksCapacityGb disks := sum_cons

theorem disksCapacityGb_nonneg (h : ∀ disk ∈ disks, 0 ≤ disk.capacity) : 0 ≤ disksCapacityGb disks := by
  induction disks with
  | nil => exact le_rfl
  | cons disk disks ih =>
    rw [forall_mem_cons] at h
    rw [disksCapacityGb_cons]
    exact add_nonneg h.1 (ih h.2)

theorem Disk.capacity_nonneg (h : 0 ≤ disk.capacityGb) : 0 ≤ disk.capacity := by
  unfold Disk.capacity
  split
  · exact h
  · split
    · exact le_rfl
    · exact h

/-- **The loop stays on a datastore that has room for all the disks**, and takes from it what they count together. -/
theorem bestEffortLoop_stays (chance : Chance) (allDisks : List Disk) (optimal : String) : ∀ (disks : List Disk)
    (selector : DatastoreSelector) (placementList : List AgentResourcePlacement) (free : ℚ),
    (∀ disk ∈ disks, 0 ≤ disk.capacity) → selector.datastoreFree.get optimal = some free →
      disksCapacityGb disks ≤ free →
    ∃ selector', bestEffortLoop chance allDisks disks optimal selector placementList =
        .ok ⟨allDisks, selector', placementList ++ disks.map (placeOn optimal)⟩ ∧ ∀ id, selector'.datastoreFree.get id =
        if id = optimal then some (free - disksCapacityGb disks) else selector.datastoreFree.get id
  | [], selector, placementList, free, _, hget, _ => by
    refine ⟨selector, by simp [bestEffortLoop], fun id => ?_⟩
    split
    · rename_i hid
      rw [hid, hget]
      exact congrArg some (sub_zero free).symm
    · rfl
  | disk :: disks, selector, placementList, free, hpos, hget, hfit => by
    rw [forall_mem_cons] at hpos
    have hrest := disksCapacityGb_nonneg hpos.2
    rw [disksCapacityGb_cons] at hfit
    have hroom : ¬ free < disk.capacity := by linarith
    obtain ⟨selector', hloop, hfree⟩ := bestEffortLoop_stays chance allDisks optimal disks
      ⟨selector.datastoreFree.put optimal (free - disk.capacity)⟩ (placementList ++ [placeOn optimal disk])
      (free - disk.capacity) hpos.2 (by simp) (by linarith)
    refine ⟨selector', ?_, fun id => ?_⟩
    · simp only [bestEffortLoop, roomFor, hget, hroom, if_false, consumeDatastoreSpace, hloop,
        append_assoc, map_cons, singleton_append]
    · rw [hfree, disksCapacityGb_cons]
      split
      · rw [sub_sub]
      · rename_i hid
        exact (LinkedMap.get_put _ _ _ _).trans (if_neg hid)

def twoDisks : DisksPlacement :=
  ⟨[⟨"a", 30, none, none⟩, ⟨"b", 50, some ⟨"image", .copyOnWrite⟩, none⟩], .init twoDatastores ["id-1", "id-2"], []⟩

/-- **Where the optimal engine succeeds the best effort engine does the same**: every disk on the same datastore, the
same entries up to their order, and the same free space, if ties for the largest free space are broken alike. -/
theorem bestEffort_extends_optimal (chance : Chance) (placement result : DisksPlacement)
    (hsize : ∀ disk ∈ placement.disks, 0 ≤ disk.capacityGb)
    (hties : chance.largest placement.disks.length placement.selector.datastoreFree =
      chance.largest (placement.disks.length + 1) placement.selector.datastoreFree)
    (h : optimalPlace chance placement = .ok result) :
    ∃ result' datastore added added', bestEffortPlace chance placement = .ok result' ∧
      result.placementList = placement.placementList ++ added ∧ result'.placementList =
      placement.placementList ++ added' ∧
      added'.Perm added ∧ (∀ disk ∈ placement.disks, placeOn datastore disk ∈ added ∧ placeOn datastore disk ∈ added') ∧
      (∀ entry ∈ added ++ added', entry.containerId = datastore) ∧
      ∀ id, result'.selector.datastoreFree.get id = result.selector.datastoreFree.get id := by
  unfold optimalPlace at h
  split at h
  · cases h
  · rename_i optimal hlargest
    have hsorted := perm_insertionSort (fun a b : Disk => a.capacity ≥ b.capacity) placement.disks
    have htotal : disksCapacityGb (placement.disks.insertionSort fun a b => a.capacity ≥ b.capacity) =
        disksCapacityGb placement.disks := (hsorted.map Disk.capacity).sum_eq
    unfold consumeDatastoreSpace at h
    cases hget : placement.selector.datastoreFree.get optimal with
    | none => simp [hget] at h
    | some free =>
      simp only [hget] at h
      split at h
      · cases h
      · cases h
      · rename_i selector hconsume
        split at hconsume
        · cases hconsume
        · rename_i hroom
          obtain rfl := Except.ok.inj hconsume
          obtain rfl := PlaceResult.ok.inj h
          obtain ⟨selector', hloop, hfree⟩ := bestEffortLoop_stays chance placement.disks optimal
            (placement.disks.insertionSort fun a b => a.capacity ≥ b.capacity) placement.selector
            placement.placementList free
            (fun disk hdisk => Disk.capacity_nonneg (hsize disk (hsorted.mem_iff.1 hdisk))) hget
              (by rw [htotal]; exact not_lt.1 hroom)
          refine ⟨_, optimal, _, _, by rw [bestEffortPlace, hties, hlargest]; exact hloop, rfl, rfl,
            hsorted.map _, ?_, ?_, ?_⟩
          · exact fun disk hdisk => ⟨mem_map_of_mem hdisk, mem_map_of_mem (hsorted.mem_iff.2 hdisk)⟩
          · intro entry hentry
            rcases mem_append.1 hentry with hentry | hentry
            all_goals
              obtain ⟨disk, -, rfl⟩ := mem_map.1 hentry
              rfl
          · intro id
            rw [hfree, htotal, LinkedMap.get_put]

/-- Both engines place the full copy and the linked clone on one datastore. -/
theorem bestEffort_extends_optimal_two : ∃ result result', optimalPlace .first twoDisks = .ok result ∧
    bestEffortPlace .first twoDisks = .ok result' ∧
      ∀ id, result'.selector.datastoreFree.get id = result.selector.datastoreFree.get id := by
  have hok : (optimalPlace .first twoDisks).isOk = true := by decide +kernel
  cases h : optimalPlace .first twoDisks with
  | ok result =>
    obtain ⟨result', -, -, -, hbest, -, -, -, -, -, hfree⟩ :=
      bestEffort_extends_optimal .first twoDisks result (by decide +kernel) rfl h
    exact ⟨result, result', rfl, hbest, hfree⟩
  | noSuchResource | notEnoughDatastoreCapacity placement | raised => rw [h] at hok; cases hok

end Photon.Agent.DiskPlacement
