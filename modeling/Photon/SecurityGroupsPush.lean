import Mathlib.Data.List.Nodup
import Photon.SecurityGroups
/-!
# SecurityGroupsPush — what the steps leave

The steps that end normally leave a store in which every tenant has the groups of the deployment handed down to it and
every project those of its tenant (`propagate_advances`).  What is handed down is a fixed point of the merge, so that
the steps change nothing when they run again.
-/
namespace Photon.ApiFrontend.SecurityGroups

open List
open Programs (Prog seq skip raise update forEach wp Keeps Advances advances_skip advances_raise)
open DeploymentPush (pushPages pushTenants)
open Option (bind_some getD_some isSome_iff_exists map_eq_some_iff map_some)

/-! ## The merge -/

def inheritedNames (groups : List SecurityGroup) : List String := (groups.filter fun g => g.inherited).map (·.name)

def selfNames (groups : List SecurityGroup) : List String := (groups.filter fun g => !g.inherited).map (·.name)

def handedDown (parents : List String) (existing : List SecurityGroup) : List SecurityGroup :=
  parents.map (fun g => ⟨g, true⟩) ++ (existing.filter fun g => !g.inherited).filter fun g => g.name ∉ parents

def removed (parents : List String) (existing : List SecurityGroup) : List String :=
  (selfNames existing).filter fun name => name ∈ parents

theorem foldl_mergeSelf (parents : List String) :
    ∀ (l : List SecurityGroup) (merged : List SecurityGroup × List String), l.foldl (mergeSelf parents) merged =
      (merged.1 ++ l.filter (fun g => g.name ∉ parents), merged.2 ++ (l.map (·.name)).filter fun name => name ∈ parents)
  | [], merged => by simp only [foldl_nil, filter_nil, map_nil, append_nil]
  | g :: l, merged => by
    rw [foldl_cons, foldl_mergeSelf parents l, mergeSelf]
    by_cases h : g.name ∈ parents <;> simp [h]

variable (parents : List String) (existing : List SecurityGroup)

theorem merge_eq (parents : List String) :
    merge existing parents = (handedDown parents existing, removed parents existing) := by
  rw [merge, foldl_mergeSelf, nil_append]
  rfl

theorem inheritedNames_handedDown : inheritedNames (handedDown parents existing) = parents := by
  have hself : ((existing.filter fun g => !g.inherited).filter fun g => g.name ∉ parents).filter
      (fun g => g.inherited) = [] := by
    rw [filter_eq_nil_iff]
    intro g hg
    have hg := (mem_filter.1 (mem_filter.1 hg).1).2
    simpa using hg
  rw [inheritedNames, handedDown, filter_append, hself, append_nil, filter_map, map_map]
  simp [Function.comp_def]

theorem selfGroups_handedDown : (handedDown parents existing).filter (fun g => !g.inherited) =
      (existing.filter fun g => !g.inherited).filter fun g => g.name ∉ parents := by
  have hparents : (parents.map fun g => (⟨g, true⟩ : SecurityGroup)).filter (fun g => !g.inherited) = [] := by
    rw [filter_eq_nil_iff]
    intro g hg
    obtain ⟨name, -, rfl⟩ := mem_map.1 hg
    exact Bool.false_ne_true
  rw [handedDown, filter_append, hparents, nil_append, filter_eq_self]
  intro g hg
  exact (mem_filter.1 (mem_filter.1 hg).1).2

theorem selfNames_handedDown :
    selfNames (handedDown parents existing) = (selfNames existing).filter fun name => name ∉ parents := by
  rw [selfNames, selfGroups_handedDown, selfNames, filter_map]
  rfl

/-- **What is handed down is a fixed point of the merge.** -/
theorem handedDown_handedDown : handedDown parents (handedDown parents existing) = handedDown parents existing := by
  rw [handedDown, selfGroups_handedDown, filter_filter]
  simp only [Bool.and_self]
  rfl

theorem removed_handedDown : removed parents (handedDown parents existing) = [] := by
  rw [removed, selfNames_handedDown, filter_filter, filter_eq_nil_iff]
  intro name _
  by_cases h : name ∈ parents <;> simp [h]

/-! ## The store after some documents were written -/

def Task.tenantGroups (s : Task) (id : String) : List SecurityGroup := ((s.tenants id).bind (·.securityGroups)).getD []

def Task.projectGroups (s : Task) (id : String) : List SecurityGroup :=
    ((s.projects id).bind (·.securityGroups)).getD []

def Task.tenantNames (s : Task) (id : String) : List String := (s.tenantGroups id).map (·.name)

def Task.parentNames (s : Task) (id : String) :
    List String := ((s.projects id).map fun project => s.tenantNames project.tenantId).getD []

def reports (names : List (List String)) : List (List String) := names.filter fun names => !names.isEmpty

def Task.report (s : Task) (names : List String) : Task := { s with warnings := s.warnings ++ reports [names] }

def Task.handTenants (s : Task) (parents : List String) (done : List String) : Task where
  tenants id := if id ∈ done then (s.tenants id).map fun _ => ⟨some (handedDown parents (s.tenantGroups id))⟩
    else s.tenants id
  projects := s.projects
  warnings := s.warnings ++ reports (done.map fun id => removed parents (s.tenantGroups id))

def Task.handProjects (s : Task) (done : List String) : Task where
  tenants := s.tenants
  projects id :=
    if id ∈ done then
      (s.projects id).map fun project =>
        { project with securityGroups := some (handedDown (s.parentNames id) (s.projectGroups id)) }
    else s.projects id
  warnings := s.warnings ++ reports (done.map fun id => removed (s.parentNames id) (s.projectGroups id))

theorem reports_append (l l' : List (List String)) : reports (l ++ l') = reports l ++ reports l' := filter_append ..

open SecurityGroups.Task (handProjects handTenants mk parentNames projectGroups report tenantGroups)

theorem handTenants_nil (s : Task) (parents : List String) : s.handTenants parents [] = s := by
  simp [handTenants, reports]

theorem handProjects_nil (s : Task) : s.handProjects [] = s := by
  simp [handProjects, reports]

section

variable {s : Task} {parents : List String} {done : List String} {id : String}

theorem ite_mem_concat {α : Type} {docs : String → Option α} {doc : α} (hid : docs id = some doc)
    (f : String → α → α) : (fun x => if x ∈ done ++ [id] then (docs x).map (f x) else docs x) =
      Function.update (fun x => if x ∈ done then (docs x).map (f x) else docs x) id (some (f id doc)) := by
  funext x
  by_cases hx : x = id
  · subst hx
    rw [if_pos (mem_append_right _ mem_cons_self), hid, Function.update_self, map_some]
  · rw [Function.update_of_ne hx]
    simp only [mem_append, mem_singleton, hx, or_false]

theorem handTenants_concat {tenant : Tenant} (hid : s.tenants id = some tenant) : s.handTenants parents (done ++ [id]) =
      report { s.handTenants parents done with
        tenants := Function.update (s.handTenants parents done).tenants id
          (some ⟨some (handedDown parents (s.tenantGroups id))⟩) }
        (removed parents (s.tenantGroups id)) := by
  simp only [handTenants, report, map_append, map_cons, map_nil, reports_append, append_assoc, mk.injEq, and_true]
  exact ite_mem_concat hid fun x _ => ⟨some (handedDown parents (s.tenantGroups x))⟩

theorem handProjects_concat {project : Project} (hid : s.projects id = some project) : s.handProjects (done ++ [id]) =
      report { s.handProjects done with
        projects := Function.update (s.handProjects done).projects id
          (some { project with securityGroups := some (handedDown (s.parentNames id) (s.projectGroups id)) }) }
        (removed (s.parentNames id) (s.projectGroups id)) := by
  simp only [handProjects, report, map_append, map_cons, map_nil, reports_append, append_assoc, mk.injEq,
    true_and, and_true]
  exact ite_mem_concat hid fun x project =>
    { project with securityGroups := some (handedDown (s.parentNames x) (s.projectGroups x)) }

end

/-! ## One document -/

section

variable {write : String → List SecurityGroup → Prog Task Failure} {parents : List String}
  {existing : List SecurityGroup} {id : String} {s s' : Task} {Q : Task → Prop} {E : Failure → Task → Prop}

theorem wp_push (hwrite : write id (handedDown parents existing) s = (none, s'))
    (hQ : Q (s'.report (removed parents existing))) : wp (push write (some parents) (id, some existing)) Q E s := by
  simp only [push, mergeParentSecurityGroups, merge_eq]
  refine Programs.wp_seq ?_
  unfold wp
  rw [hwrite]
  simp only
  cases hr : removed parents existing with
  | nil =>
    rw [hr] at hQ
    have hs' : s'.report [] = s' := by simp [report, reports]
    rw [hs'] at hQ
    exact hQ
  | cons name names =>
    rw [hr] at hQ
    exact hQ

end

/-! ## The first step -/

section

variable {s : Task} {parents : Option (List String)} {items : List String} {bad : Prop}

theorem handTenants_tenants {names done : List String} {id : String} (hid : id ∉ done) :
    (s.handTenants names done).tenants id = s.tenants id := if_neg hid

theorem advances_push_tenant {id : String} {tenant : Tenant} (hid : s.tenants id = some tenant)
    (hnull : parents = none ∨ tenant.securityGroups = none → bad) :
    Advances (s.handTenants (parents.getD [])) (fun _ _ => bad) List.Nodup
      (push setSecurityGroups parents (id, tenant.securityGroups)) [id] := by
  intro done hdone
  have hnotin : id ∉ done := fun h => (nodup_append.1 hdone).2.2 id h id mem_cons_self rfl
  cases parents with
  | none => cases hgroups : tenant.securityGroups <;> exact hnull (.inl rfl)
  | some parents =>
    cases hgroups : tenant.securityGroups with
    | none => exact hnull (.inr hgroups)
    | some existing =>
      have hexisting : s.tenantGroups id = existing := by
        simp only [tenantGroups, hid, bind_some, hgroups, getD_some]
      have hwrite : setSecurityGroups id (handedDown parents existing) (s.handTenants parents done) =
          (none, { s.handTenants parents done with
            tenants := Function.update (s.handTenants parents done).tenants id
              (some ⟨some (handedDown parents existing)⟩) }) := by
        simp only [setSecurityGroups, handTenants_tenants hnotin, hid]
        rfl
      refine wp_push hwrite ?_
      rw [getD_some, handTenants_concat hid, hexisting]

theorem listTenants_of_notMem {names done : List String} (h : ∀ id ∈ items, id ∉ done) :
    (s.handTenants names done).listTenants items = s.listTenants items := by
  refine filterMap_congr fun id hid => ?_
  rw [handTenants_tenants (h id hid)]

theorem listTenants_ids : ∀ {items : List String}, (∀ id ∈ items, (s.tenants id).isSome) →
    (s.listTenants items).flatMap (fun doc => [doc.1]) = items
  | [], _ => rfl
  | id :: items, h => by
    obtain ⟨tenant, ht⟩ := isSome_iff_exists.1 (h id mem_cons_self)
    have ih := listTenants_ids fun x hx => h x (mem_cons_of_mem _ hx)
    simp only [Task.listTenants, filterMap_cons, ht, map_some, flatMap_cons, singleton_append] at ih ⊢
    rw [ih]

theorem nodup_of_append (l l' : List String) (h : (l ++ l').Nodup) : l.Nodup := (nodup_append.1 h).1

theorem advances_pushTenants (hitems : ∀ id ∈ items, (s.tenants id).isSome)
    (hnull : ∀ id tenant, s.tenants id = some tenant → parents = none ∨ tenant.securityGroups = none → bad) :
    Advances (s.handTenants (parents.getD [])) (fun _ _ => bad) List.Nodup (pushTenants parents items) items := by
  intro done hdone
  have hloop : Advances (s.handTenants (parents.getD [])) (fun _ _ => bad) List.Nodup
      (forEach (push setSecurityGroups parents) (s.listTenants items))
      ((s.listTenants items).flatMap fun doc => [doc.1]) := by
    refine Advances.forEach nodup_of_append fun doc hdoc => ?_
    obtain ⟨id, -, hid⟩ := mem_filterMap.1 hdoc
    obtain ⟨tenant, htenant, rfl⟩ := map_eq_some_iff.1 hid
    exact advances_push_tenant htenant (hnull id tenant htenant)
  rw [listTenants_ids hitems] at hloop
  have hrun := hloop done hdone
  unfold wp at hrun ⊢
  rw [pushTenants, listTenants_of_notMem]
  · exact hrun
  · intro id hid hmem
    exact (nodup_append.1 hdone).2.2 id hmem id hid rfl

/-- **The first step** hands the groups of the deployment down to the tenants of all pages. -/
theorem advances_pushPages : ∀ {tenants : Listing}, (∀ pageLink ∈ tenants.links, pageLink ≠ "") →
    (∀ id ∈ tenants.ids, (s.tenants id).isSome) →
    (∀ id tenant, s.tenants id = some tenant → parents = none ∨ tenant.securityGroups = none → bad) →
    (∀ pageLink, tenants.lastLink = some pageLink → pageLink ≠ "" → bad) →
    Advances (s.handTenants (parents.getD [])) (fun _ _ => bad) List.Nodup (pushPages parents tenants) tenants.ids
  | .page items nextPageLink, _, hitems, hnull, hlast => by
    have hend : ∀ x, Advances (s.handTenants (parents.getD [])) (fun _ _ => bad) List.Nodup x [] →
        Advances (s.handTenants (parents.getD [])) (fun _ _ => bad) List.Nodup
          (seq (pushTenants parents items) x) items := by
      intro x hx
      have hpage := (advances_pushTenants hitems hnull).seq nodup_of_append hx
      rwa [append_nil] at hpage
    refine hend _ ?_
    cases nextPageLink with
    | none => exact advances_skip
    | some pageLink =>
      by_cases hempty : pageLink = ""
      · rw [hempty]
        exact advances_skip
      · simp only [String.isEmpty_iff, hempty, if_false]
        exact advances_raise fun _ => hlast pageLink rfl hempty
  | .linked items nextPageLink next, hlinks, hitems, hnull, hlast => by
    have hlink : nextPageLink ≠ "" := hlinks nextPageLink mem_cons_self
    have hnext := advances_pushPages (fun l hl => hlinks l (mem_cons_of_mem _ hl))
      (fun id hid => hitems id (mem_append_right _ hid)) hnull hlast
    simp only [pushPages, Listing.ids, String.isEmpty_iff, hlink, if_false]
    exact (advances_pushTenants (fun id hid => hitems id (mem_append_left _ hid)) hnull).seq nodup_of_append hnext

end

/-! ## The steps that follow -/

section

variable {s : Task} {items : List String} {isWhitespace : Char → Bool} {bad : Prop}

theorem handProjects_projects {done : List String} {id : String} (hid : id ∉ done) :
    (s.handProjects done).projects id = s.projects id := if_neg hid

theorem advances_push_project {id : String} {project : Project} (hid : s.projects id = some project) :
    Advances s.handProjects (fun _ _ => bad) List.Nodup
      (push replaceSecurityGroups (some (s.tenantNames project.tenantId)) (id, some (project.securityGroups.getD [])))
      [id] := by
  intro done hdone
  have hnotin : id ∉ done := fun h => (nodup_append.1 hdone).2.2 id h id mem_cons_self rfl
  have hgroups : s.projectGroups id = project.securityGroups.getD [] := by
    simp only [projectGroups, hid, bind_some]
  have hparents : s.parentNames id = s.tenantNames project.tenantId := by
    simp only [parentNames, hid, map_some, getD_some]
  rw [← hgroups, ← hparents]
  have hwrite : replaceSecurityGroups id (handedDown (s.parentNames id) (s.projectGroups id)) (s.handProjects done) =
      (none, { s.handProjects done with
        projects := Function.update (s.handProjects done).projects id
          (some { project with securityGroups := some (handedDown (s.parentNames id) (s.projectGroups id)) }) }) := by
    simp only [replaceSecurityGroups, handProjects_projects hnotin, hid]
    rfl
  refine wp_push hwrite ?_
  rw [handProjects_concat hid]

theorem listProjects_of_notMem {done : List String} (h : ∀ id ∈ items, id ∉ done) :
    (s.handProjects done).listProjects items = s.listProjects items := by
  refine filterMap_congr fun id hid => ?_
  rw [handProjects_projects (h id hid)]

theorem listProjects_ids : ∀ {items : List String}, (∀ id ∈ items, (s.projects id).isSome) →
    (s.listProjects items).flatMap (fun doc => [doc.1]) = items
  | [], _ => rfl
  | id :: items, h => by
    obtain ⟨project, hp⟩ := isSome_iff_exists.1 (h id mem_cons_self)
    have ih := listProjects_ids fun x hx => h x (mem_cons_of_mem _ hx)
    simp only [Task.listProjects, filterMap_cons, hp, map_some, flatMap_cons, singleton_append] at ih ⊢
    rw [ih]

theorem collect_cases : ∀ {projects : Listing}, (∀ pageLink ∈ projects.links, isNotBlank isWhitespace pageLink = true) →
    TenantPush.collect isWhitespace projects = .ok projects.ids ∨
      ∃ pageLink, projects.lastLink = some pageLink ∧ isNotBlank isWhitespace pageLink = true ∧
        TenantPush.collect isWhitespace projects = .error (.pageExpired pageLink)
  | .page items none, _ => .inl rfl
  | .page items (some pageLink), _ => by
    cases hblank : isNotBlank isWhitespace pageLink with
    | true => exact .inr ⟨pageLink, rfl, hblank, by simp only [TenantPush.collect, hblank, if_true]⟩
    | false =>
      left
      simp only [TenantPush.collect, hblank, Bool.false_eq_true, if_false, Listing.ids]
  | .linked items nextPageLink next, hlinks => by
    have hlink := hlinks nextPageLink mem_cons_self
    simp only [TenantPush.collect, hlink, if_true, Listing.ids]
    rcases collect_cases fun l hl => hlinks l (mem_cons_of_mem _ hl) with hnext | ⟨pageLink, hlast, hblank, hnext⟩
    · left
      rw [hnext]
      rfl
    · exact .inr ⟨pageLink, hlast, hblank, by rw [hnext]; rfl⟩

variable {projects : String → Listing}

theorem advances_pushTenant {tenantId : String} (htenant : (s.tenants tenantId).isSome)
    (hlinks : ∀ pageLink ∈ (projects tenantId).links, isNotBlank isWhitespace pageLink = true)
    (hprojects : ∀ id ∈ (projects tenantId).ids, ∃ project, s.projects id = some project ∧ project.tenantId = tenantId)
    (hlast : ∀ pageLink, (projects tenantId).lastLink = some pageLink → isNotBlank isWhitespace pageLink = true → bad) :
    Advances s.handProjects (fun _ _ => bad) List.Nodup (TenantPush.pushTenant isWhitespace projects tenantId)
      (projects tenantId).ids := by
  obtain ⟨tenant, ht⟩ := isSome_iff_exists.1 htenant
  have hnames : (tenant.securityGroups.getD []).map (·.name) = s.tenantNames tenantId := by
    simp only [Task.tenantNames, tenantGroups, ht, bind_some]
  have hloop : Advances s.handProjects (fun _ _ => bad) List.Nodup
      (forEach (push replaceSecurityGroups (some (s.tenantNames tenantId))) (s.listProjects (projects tenantId).ids))
      ((s.listProjects (projects tenantId).ids).flatMap fun doc => [doc.1]) := by
    refine Advances.forEach nodup_of_append fun doc hdoc => ?_
    obtain ⟨id, hmem, hid⟩ := mem_filterMap.1 hdoc
    obtain ⟨project, hproject, rfl⟩ := map_eq_some_iff.1 hid
    obtain ⟨project', hproject', rfl⟩ := hprojects id hmem
    cases hproject.symm.trans hproject'
    exact advances_push_project hproject
  rw [listProjects_ids fun id hid => by obtain ⟨project, hproject, -⟩ := hprojects id hid; rw [hproject]; rfl] at hloop
  intro done hdone
  have hstate : (s.handProjects done).tenants tenantId = some tenant := ht
  rcases collect_cases hlinks with hcollect | ⟨pageLink, hlink, hblank, hcollect⟩
  · have hrun := hloop done hdone
    unfold wp at hrun ⊢
    simp only [TenantPush.pushTenant, hstate, hcollect, hnames]
    rw [listProjects_of_notMem]
    · exact hrun
    · intro id hid hmem
      exact (nodup_append.1 hdone).2.2 id hmem id hid rfl
  · unfold wp
    simp only [TenantPush.pushTenant, hstate, hcollect]
    exact hlast pageLink hlink hblank

end

/-! ## All steps -/

section

variable {s : Task} {isWhitespace : Char → Bool} {deployment : Deployment}

def Delivery.projectIds (d : Delivery isWhitespace s) : List String :=
  d.pushes.flatten.flatMap fun tenantId => (d.projects tenantId).ids

theorem Delivery.flatMap_pushes (d : Delivery isWhitespace s) :
    (d.pushes.flatMap fun tenantList => tenantList.flatMap fun tenantId => (d.projects tenantId).ids) =
    d.projectIds := by
  rw [projectIds, ← flatMap_id, flatMap_assoc]
  rfl

theorem Delivery.nodup_projectIds (d : Delivery isWhitespace s) : d.projectIds.Nodup := by
  refine nodup_flatMap.2 ⟨fun tenantId _ => d.nodup_projects tenantId, d.nodup_pushes.imp ?_⟩
  intro tenantId tenantId' hne id hid hid'
  obtain ⟨project, hproject, htenant⟩ := (d.mem_projects tenantId id).1 hid
  obtain ⟨project', hproject', htenant'⟩ := (d.mem_projects tenantId' id).1 hid'
  cases hproject.symm.trans hproject'
  exact hne (htenant.symm.trans htenant')

variable {id : String}

theorem Delivery.mem_projectIds (d : Delivery isWhitespace s) :
    id ∈ d.projectIds ↔ ∃ project, s.projects id = some project ∧ (s.tenants project.tenantId).isSome := by
  constructor
  · intro h
    obtain ⟨tenantId, htenant, hid⟩ := mem_flatMap.1 h
    obtain ⟨project, hproject, rfl⟩ := (d.mem_projects tenantId id).1 hid
    exact ⟨project, hproject, (d.mem_pushes _).1 htenant⟩
  · intro h
    obtain ⟨project, hproject, htenant⟩ := h
    exact mem_flatMap.2 ⟨project.tenantId, (d.mem_pushes _).2 htenant, (d.mem_projects _ id).2 ⟨project, hproject, rfl⟩⟩

/-- Nothing stands in the way of the steps: there are groups to hand down and to merge with, the last pages have no link
that leads on, and no step is without a tenant. -/
structure Ready (deployment : Deployment) (d : Delivery isWhitespace s) : Prop where
  parents : deployment.oauthSecurityGroups.isSome
  existing : ∀ id tenant, s.tenants id = some tenant → tenant.securityGroups.isSome
  lastTenants : ∀ pageLink, d.tenants.lastLink = some pageLink → pageLink = ""
  lastProjects : ∀ tenantId pageLink, (d.projects tenantId).lastLink = some pageLink →
    isNotBlank isWhitespace pageLink = false
  pushes : ∀ tenantList ∈ d.pushes, tenantList ≠ []

def handedStore (deployment : Deployment) (d : Delivery isWhitespace s) : Task :=
  (s.handTenants (deployment.oauthSecurityGroups.getD []) d.tenants.ids).handProjects d.projectIds

variable {parents : List String}

theorem isSome_handTenants {done : List String} :
    ((s.handTenants parents done).tenants id).isSome = (s.tenants id).isSome := by
  simp only [handTenants]
  split
  · rw [Option.isSome_map]
  · rfl

variable {d : Delivery isWhitespace s}

theorem advances_execute {bad : Prop} {s' : Task}
    (htenants : ∀ id, (s'.tenants id).isSome = (s.tenants id).isSome) (hprojects : s'.projects = s.projects)
    (hbad : ¬Ready deployment d → bad) {tenantList : List String} (hlist : tenantList ∈ d.pushes) :
    Advances s'.handProjects (fun _ _ => bad) List.Nodup (TenantPush.execute isWhitespace d.projects tenantList)
      (tenantList.flatMap fun tenantId => (d.projects tenantId).ids) := by
  unfold TenantPush.execute
  split
  · rename_i hempty
    refine advances_raise fun _ => hbad fun hready => ?_
    exact hready.pushes tenantList hlist (isEmpty_iff.1 hempty)
  · refine Advances.forEach nodup_of_append fun tenantId htenant => ?_
    refine advances_pushTenant ?_ (d.linked_projects tenantId) ?_ ?_
    · rw [htenants]
      exact (d.mem_pushes tenantId).1 (mem_flatten.2 ⟨tenantList, hlist, htenant⟩)
    · intro id hid
      rw [hprojects]
      exact (d.mem_projects tenantId id).1 hid
    · intro pageLink hlast hblank
      refine hbad fun hready => ?_
      rw [hready.lastProjects tenantId pageLink hlast] at hblank
      cases hblank

/-- **The steps leave the store with everything handed down**, or raise where they are not ready. -/
theorem wp_propagate (deployment : Deployment) (d : Delivery isWhitespace s) :
    wp (propagate deployment d) (fun s' => s' = handedStore deployment d) (fun _ _ => ¬Ready deployment d) s := by
  refine Programs.wp_seq ?_
  have hfirst : Advances (s.handTenants (deployment.oauthSecurityGroups.getD []))
      (fun _ _ => ¬Ready deployment d) List.Nodup
      (pushPages deployment.oauthSecurityGroups d.tenants) d.tenants.ids := by
    refine advances_pushPages (fun pageLink hlink hempty => by cases hempty ▸ d.linked_tenants pageLink hlink)
      (fun id hid => (d.mem_tenants id).1 hid) ?_ ?_
    · intro id tenant hid hnull hready
      rcases hnull with hnull | hnull
      · have hparents := hready.parents
        rw [hnull] at hparents
        cases hparents
      · have hexisting := hready.existing id tenant hid
        rw [hnull] at hexisting
        cases hexisting
    · intro pageLink hlast hne hready
      exact hne (hready.lastTenants pageLink hlast)
  have htenants := hfirst [] d.nodup_tenants
  rw [handTenants_nil, nil_append] at htenants
  refine Programs.wp.mono htenants ?_ (fun _ _ h => h)
  intro s' hs'
  subst hs'
  have hpushes : Advances (s.handTenants (deployment.oauthSecurityGroups.getD []) d.tenants.ids).handProjects
        (fun _ _ => ¬Ready deployment d) List.Nodup (forEach (TenantPush.execute isWhitespace d.projects) d.pushes)
        (d.pushes.flatMap fun tenantList => tenantList.flatMap fun tenantId => (d.projects tenantId).ids) :=
      Advances.forEach nodup_of_append fun tenantList hlist =>
        advances_execute (fun _ => isSome_handTenants) rfl (fun h => h) hlist
  rw [d.flatMap_pushes] at hpushes
  have hrun := hpushes [] d.nodup_projectIds
  rw [handProjects_nil, nil_append] at hrun
  exact hrun

/-- The groups of a document before and after those of its parent were handed down to it. -/
structure Inherits (parents : List String) (before after : List SecurityGroup) : Prop where
  inherited : inheritedNames after = parents
  apart : ∀ name ∈ selfNames after, name ∉ inheritedNames after
  self : selfNames after = (selfNames before).filter fun name => name ∉ parents

def lost (before after : List SecurityGroup) : List String :=
    (selfNames before).filter fun name => name ∉ selfNames after

theorem inherits_handedDown (parents : List String) (existing : List SecurityGroup) :
    Inherits parents existing (handedDown parents existing) where
  inherited := inheritedNames_handedDown parents existing
  apart name hname := by
    rw [selfNames_handedDown] at hname
    rw [inheritedNames_handedDown]
    exact of_decide_eq_true (mem_filter.1 hname).2
  self := selfNames_handedDown parents existing

theorem lost_handedDown (parents : List String) (existing : List SecurityGroup) :
    lost existing (handedDown parents existing) = removed parents existing := by
  refine filter_congr fun name hname => ?_
  rw [decide_eq_decide, selfNames_handedDown, mem_filter]
  by_cases h : name ∈ parents <;> simp [h, hname]

structure Propagated (deployment : Deployment) (d : Delivery isWhitespace s) (after : Task) : Prop where
  tenants : ∀ id, (s.tenants id).isSome →
    (after.tenants id).isSome ∧ Inherits (deployment.oauthSecurityGroups.getD []) (s.tenantGroups id)
    (after.tenantGroups id)
  projects : ∀ id project, s.projects id = some project → (s.tenants project.tenantId).isSome →
    (∃ project', after.projects id = some project' ∧ project'.tenantId = project.tenantId) ∧
      Inherits (after.tenantNames project.tenantId) (s.projectGroups id) (after.projectGroups id)
  reported : after.warnings = s.warnings ++
    reports (d.tenants.ids.map fun id => lost (s.tenantGroups id) (after.tenantGroups id)) ++
    reports (d.projectIds.map fun id => lost (s.projectGroups id) (after.projectGroups id))

theorem handedStore_tenants (deployment : Deployment) (d : Delivery isWhitespace s) (hid : (s.tenants id).isSome) :
    (handedStore deployment d).tenants id =
      some ⟨some (handedDown (deployment.oauthSecurityGroups.getD []) (s.tenantGroups id))⟩ := by
  obtain ⟨tenant, ht⟩ := isSome_iff_exists.1 hid
  simp only [handedStore, handProjects, handTenants, (d.mem_tenants id).2 hid, if_true, ht, map_some]

theorem handedStore_projects (deployment : Deployment) (d : Delivery isWhitespace s) {project : Project}
    (hid : s.projects id = some project) (htenant : (s.tenants project.tenantId).isSome) :
    (handedStore deployment d).projects id = some ⟨project.tenantId,
      some (handedDown ((handedStore deployment d).tenantNames project.tenantId) (s.projectGroups id))⟩ := by
  simp only [handedStore, handProjects, d.mem_projectIds.2 ⟨project, hid, htenant⟩, if_true, handTenants, hid, map_some,
    parentNames, getD_some, projectGroups]
  rfl

variable {groups : List SecurityGroup}

theorem tenantGroups_of_eq (h : s.tenants id = some ⟨some groups⟩) : s.tenantGroups id = groups := by
  simp only [tenantGroups, h, bind_some, getD_some]

variable {tenantId : String}

theorem projectGroups_of_eq (h : s.projects id = some ⟨tenantId, some groups⟩) : s.projectGroups id = groups := by
  simp only [projectGroups, h, bind_some, getD_some]

theorem propagated_handedStore (d : Delivery isWhitespace s) : Propagated deployment d (handedStore deployment d) where
  tenants id hid := by
    have hafter := handedStore_tenants deployment d hid
    rw [tenantGroups_of_eq hafter, hafter]
    exact ⟨rfl, inherits_handedDown _ _⟩
  projects id project hid htenant := by
    have hafter := handedStore_projects deployment d hid htenant
    rw [projectGroups_of_eq hafter, hafter]
    exact ⟨⟨_, rfl, rfl⟩, inherits_handedDown _ _⟩
  reported := by
    have htenants : (d.tenants.ids.map fun id => lost (s.tenantGroups id)
        ((handedStore deployment d).tenantGroups id)) =
        d.tenants.ids.map fun id => removed (deployment.oauthSecurityGroups.getD []) (s.tenantGroups id) := by
      refine map_congr_left fun id hid => ?_
      rw [tenantGroups_of_eq (handedStore_tenants deployment d ((d.mem_tenants id).1 hid)), lost_handedDown]
    have hprojects : (d.projectIds.map fun id => lost (s.projectGroups id)
        ((handedStore deployment d).projectGroups id)) = d.projectIds.map fun id =>
          removed ((s.handTenants (deployment.oauthSecurityGroups.getD []) d.tenants.ids).parentNames id)
            (s.projectGroups id) := by
      refine map_congr_left fun id hid => ?_
      obtain ⟨project, hproject, htenant⟩ := d.mem_projectIds.1 hid
      rw [projectGroups_of_eq (handedStore_projects deployment d hproject htenant), lost_handedDown]
      simp only [parentNames, handTenants, hproject, map_some, getD_some]
      rfl
    rw [htenants, hprojects]
    rfl

/-! ## Running the steps again -/

/-- Every tenant has the groups of the deployment handed down to it, and every project those of its tenant. -/
structure Settled (parents : List String) (s : Task) : Prop where
  tenants : ∀ id tenant, s.tenants id = some tenant → ∃ existing,
    tenant.securityGroups = some (handedDown parents existing)
  projects : ∀ id project, s.projects id = some project → (s.tenants project.tenantId).isSome →
    ∃ existing, project.securityGroups = some (handedDown (s.tenantNames project.tenantId) existing)

theorem push_unchanged {write : String → List SecurityGroup → Prog Task Failure}
    {existing : List SecurityGroup} (hwrite : write id (handedDown parents existing) s = (none, s)) :
    (push write (some parents) (id, some (handedDown parents existing)) s).2 = s := by
  have hwrite' : write id (handedDown parents (handedDown parents existing)) s = (none, s) := by
    rw [handedDown_handedDown, hwrite]
  have hend : wp (push write (some parents) (id, some (handedDown parents existing))) (fun s' => s' = s) (fun _ s' =>
    s' = s) s := by
    refine wp_push hwrite' ?_
    rw [removed_handedDown]
    simp [report, reports]
  exact hend.final

theorem Settled.pushTenants {parents : Option (List String)} (h : Settled (parents.getD []) s) (items : List String) :
    (pushTenants parents items s).2 = s := by
  refine Programs.forEach_unchanged fun doc hdoc => ?_
  obtain ⟨id, -, hid⟩ := mem_filterMap.1 hdoc
  obtain ⟨tenant, htenant, rfl⟩ := map_eq_some_iff.1 hid
  obtain ⟨existing, hexisting⟩ := h.tenants id tenant htenant
  cases parents with
  | none => cases hgroups : tenant.securityGroups <;> rfl
  | some parents =>
    have hsame : s.tenants id = some ⟨some (handedDown parents existing)⟩ := by
      rw [htenant]
      exact congrArg (fun groups => some (Tenant.mk groups)) hexisting
    rw [hexisting]
    refine push_unchanged ?_
    simp only [setSecurityGroups, hsame, update]
    rw [Function.update_eq_self_iff.2 hsame.symm]

theorem Settled.pushPages {parents : Option (List String)} (h : Settled (parents.getD []) s) :
    ∀ tenants : Listing, (pushPages parents tenants s).2 = s
  | .page items nextPageLink => by
    refine Programs.seq_unchanged (h.pushTenants items) ?_
    cases nextPageLink with
    | none => rfl
    | some pageLink =>
      simp only
      split <;> rfl
  | .linked items nextPageLink next => by
    refine Programs.seq_unchanged (h.pushTenants items) ?_
    split
    · rfl
    · exact h.pushPages next

theorem Settled.pushTenant (h : Settled parents s) {projects : String → Listing}
    (hlinks : ∀ pageLink ∈ (projects tenantId).links, isNotBlank isWhitespace pageLink = true)
    (hprojects : ∀ id ∈ (projects tenantId).ids, ∃ project, s.projects id = some project ∧
      project.tenantId = tenantId) :
    (TenantPush.pushTenant isWhitespace projects tenantId s).2 = s := by
  cases htenant : s.tenants tenantId with
  | none => simp only [TenantPush.pushTenant, htenant, raise]
  | some tenant =>
    have hnames : (tenant.securityGroups.getD []).map (·.name) = s.tenantNames tenantId := by
      simp only [Task.tenantNames, tenantGroups, htenant, bind_some]
    rcases collect_cases hlinks with hcollect | ⟨pageLink, -, -, hcollect⟩
    · simp only [TenantPush.pushTenant, htenant, hcollect, hnames]
      refine Programs.forEach_unchanged fun doc hdoc => ?_
      obtain ⟨id, hmem, hid⟩ := mem_filterMap.1 hdoc
      obtain ⟨project, hproject, rfl⟩ := map_eq_some_iff.1 hid
      obtain ⟨project', hproject', rfl⟩ := hprojects id hmem
      cases hproject.symm.trans hproject'
      obtain ⟨existing, hexisting⟩ := h.projects id project hproject (by rw [htenant]; rfl)
      have hsame : s.projects id =
          some ⟨project.tenantId, some (handedDown (s.tenantNames project.tenantId) existing)⟩ := by
        rw [hproject, ← hexisting]
      rw [hexisting]
      refine push_unchanged ?_
      simp only [replaceSecurityGroups, hsame, update]
      rw [Function.update_eq_self_iff.2 hsame.symm]
    · simp only [TenantPush.pushTenant, htenant, hcollect, raise]

theorem Settled.propagate (h : Settled (deployment.oauthSecurityGroups.getD []) s) :
    (propagate deployment d s).2 = s := by
  refine Programs.seq_unchanged (h.pushPages d.tenants) (Programs.forEach_unchanged fun tenantList _ => ?_)
  unfold TenantPush.execute
  split
  · rfl
  · refine Programs.forEach_unchanged fun tenantId _ => ?_
    exact h.pushTenant (d.linked_projects tenantId) fun id hid => (d.mem_projects tenantId id).1 hid

theorem exists_of_handedStore {project : Project} (h : (handedStore deployment d).projects id = some project) :
    ∃ before, s.projects id = some before ∧ before.tenantId = project.tenantId := by
  simp only [handedStore, handProjects] at h
  split at h
  · obtain ⟨before, hbefore, rfl⟩ := map_eq_some_iff.1 h
    exact ⟨before, hbefore, rfl⟩
  · exact ⟨project, h, rfl⟩

theorem settled_handedStore (deployment : Deployment) (d : Delivery isWhitespace s) :
    Settled (deployment.oauthSecurityGroups.getD []) (handedStore deployment d) where
  tenants id tenant htenant := by
    have hid : (s.tenants id).isSome := by
      rw [← isSome_handTenants]
      exact isSome_iff_exists.2 ⟨tenant, htenant⟩
    rw [handedStore_tenants deployment d hid] at htenant
    cases htenant
    exact ⟨_, rfl⟩
  projects id project hproject htenant := by
    obtain ⟨before, hbefore, hsame⟩ := exists_of_handedStore hproject
    have hid : (s.tenants before.tenantId).isSome := by
      rw [← isSome_handTenants, hsame]
      exact htenant
    rw [handedStore_projects deployment d hbefore hid] at hproject
    cases hproject
    exact ⟨_, rfl⟩

/-- **Security groups are handed down.**  When the steps have ended normally, every tenant inherits exactly the groups
of the deployment and every project exactly those of its tenant; no name is both inherited and self-owned; the
self-owned groups are the former ones whose names are not inherited, and the names that were lost are those in the
warnings, document by document.  Running the steps again, over any pages and however they end, changes nothing. -/
theorem propagate_handsDown (deployment : Deployment) (d : Delivery isWhitespace s)
    (h : (propagate deployment d s).1 = none) : Propagated deployment d (propagate deployment d s).2 ∧
      ∀ again : Delivery isWhitespace (propagate deployment d s).2,
        (propagate deployment again (propagate deployment d s).2).2 = (propagate deployment d s).2 := by
  have hstore : (propagate deployment d s).2 = handedStore deployment d := (wp_propagate deployment d).of_normal h
  rw [hstore]
  exact ⟨propagated_handedStore d, fun again => (settled_handedStore deployment d).propagate⟩

def twoTenants : Task where
  tenants id :=
    if id = "t1" then some ⟨some [⟨"admins", false⟩, ⟨"users", false⟩]⟩ else if id = "t2" then some ⟨some []⟩ else none
  projects id := if id = "p1" then some ⟨"t1", some [⟨"users", false⟩, ⟨"guests", true⟩, ⟨"testers", false⟩]⟩ else none
  warnings := []

def twoPages : Delivery (fun c => c = ' ') twoTenants where
  tenants := .linked ["t1"] "/page" (.page ["t2"] none)
  projects tenantId := if tenantId = "t1" then .page ["p1"] (some "") else .page [] none
  pushes := [["t1", "t2"]]
  linked_tenants := by decide
  nodup_tenants := by decide
  mem_tenants id := by
    simp only [Listing.ids, twoTenants]
    by_cases h₁ : id = "t1" <;> by_cases h₂ : id = "t2" <;> simp [h₁, h₂]
  linked_projects tenantId := by split <;> decide
  nodup_projects tenantId := by split <;> decide
  mem_projects tenantId id := by
    simp only [twoTenants]
    by_cases hid : id = "p1" <;> by_cases htenant : tenantId = "t1" <;> simp [hid, htenant, Listing.ids, eq_comm]
  nodup_pushes := by decide
  mem_pushes id := by
    simp only [twoTenants]
    by_cases h₁ : id = "t1" <;> by_cases h₂ : id = "t2" <;> simp [h₁, h₂]

theorem propagate_handsDown_twoPages :
    (propagate ⟨some ["admins"]⟩ twoPages twoTenants).1 = none ∧
      Propagated ⟨some ["admins"]⟩ twoPages (propagate ⟨some ["admins"]⟩ twoPages twoTenants).2 :=
  ⟨rfl, (propagate_handsDown ⟨some ["admins"]⟩ twoPages rfl).1⟩

example : (propagate ⟨some ["admins"]⟩ twoPages twoTenants).2.warnings = [["admins"], ["users"]] := rfl

end
end Photon.ApiFrontend.SecurityGroups
