import Photon.ManagerRoles
import Photon.DictionaryOps
/-!
# DictionaryRuns — what managers that share `/roles` can do to each other

The version of `/roles` and those the managers go by move as in `Versioned`, whose theorem says which managers may still
commit.  The other half is what a transaction is built from: for as long as its manager may commit, nobody has written
since the keys were listed and looked up, so that the transaction fits the nodes there are.
-/
namespace Photon.Chairman

open Keyed (LinkedMap)
open Versioned (Act View Undisturbed)

/-! ## Transactions -/

namespace DataDictionary

variable {dict : DataDictionary}

theorem foldlM_opsFor {content : LinkedMap String Roles} {entry : String × Option Roles}
    (h : content.get entry.1 = dict.content.get entry.1) :
    (dict.opsFor entry).foldlM ZkOp.apply content = some (match entry.2 with
      | none => content.remove entry.1
      | some value => content.put entry.1 value) := by
  unfold opsFor
  rw [← h]
  cases hg : content.get entry.1 with
  | none => cases entry.2 <;> simp [ZkOp.apply, hg, LinkedMap.remove_of_absent]
  | some v => cases entry.2 <;> simp [ZkOp.apply, hg]

theorem foldlM_flatMap_opsFor : ∀ (entries : List (String × Option Roles)) (content : LinkedMap String Roles),
    (entries.map Prod.fst).Nodup → (∀ e ∈ entries, content.get e.1 = dict.content.get e.1) →
    (entries.flatMap dict.opsFor).foldlM ZkOp.apply content = some (entries.foldl (fun content e => match e.2 with
      | none => content.remove e.1
      | some value => content.put e.1 value) content)
  | [], _, _, _ => rfl
  | entry :: entries, content, hnd, h => by
    rw [List.map_cons, List.nodup_cons] at hnd
    rw [List.flatMap_cons, List.foldlM_append, foldlM_opsFor (h entry (by simp)), List.foldl_cons]
    refine foldlM_flatMap_opsFor entries _ hnd.2 (fun e he => ?_)
    have hne : e.1 ≠ entry.1 := fun heq => hnd.1 (heq ▸ List.mem_map_of_mem he)
    rw [← h e (by simp [he])]
    cases entry.2 <;> simp [hne]

/-- **A transaction that fits the nodes makes the changes of its change set.** -/
theorem commit_opsFor (changes : LinkedMap String (Option Roles)) {version : Int} (hv : version = dict.version) :
    dict.commit (changes.entries.flatMap dict.opsFor) version =
      some ⟨Hierarchy.applyChanges dict.content changes, dict.version + 1⟩ := by
  unfold commit
  rw [foldlM_flatMap_opsFor _ _ changes.nodup_keys (fun _ _ => rfl)]
  simp only [Option.bind_eq_bind, Option.bind_some]
  exact if_pos (.inr hv)

theorem commit_eq_some {transaction : List ZkOp} {version : Int} {dict' : DataDictionary}
    (h : dict.commit transaction version = some dict') :
    (version = -1 ∨ version = dict.version) ∧ dict'.version = dict.version + 1 := by
  obtain ⟨content, -, h⟩ := Option.bind_eq_some_iff.1 h
  split at h
  · rename_i hv
    cases h
    exact ⟨hv, rfl⟩
  · cases h

end DataDictionary

namespace System

variable {ι : Type}

/-! ## The invariant -/

/-- The transaction of a manager is the one its hierarchy asks for, and fits the nodes there are for as long as the
version it goes by is the current one. -/
def Prepared (dict : DataDictionary) (m : SharedManager) (todo : List (String × Option Roles))
    (transaction : List ZkOp) : Prop :=
  ∃ keys roles done, m.tree.leafSchedulers.values.mapM m.tree.leafRoles = some roles ∧
    (Hierarchy.changeSet keys roles).entries = done ++ todo ∧
    (m.hierarchyVersion = dict.version → (∀ key ∈ dict.content.keys, key ∈ keys) ∧
      transaction = done.flatMap dict.opsFor)

structure Sound (dict : DataDictionary) (m : SharedManager) : Prop where
  version : m.hierarchyVersion = invalidVersion ∨ 0 ≤ m.hierarchyVersion
  known : m.hierarchyVersion ≤ dict.version
  prepared : ∀ todo transaction, m.phase = .writing todo transaction → Prepared dict m todo transaction

structure Inv (s : System ι) : Prop where
  version : 0 ≤ s.rolesDict.version
  sound : ∀ i, Sound s.rolesDict (s.manager i)

variable {s : System ι} {i : ι} {m : SharedManager} {dict dict' : DataDictionary}

theorem Sound.of_idle (h : Sound dict m) {m' : SharedManager} (hv : m'.hierarchyVersion = m.hierarchyVersion)
    (hp : ∀ todo transaction, m'.phase ≠ .writing todo transaction) : Sound dict m' where
  version := by
    rw [hv]
    exact h.version
  known := by
    rw [hv]
    exact h.known
  prepared := fun todo transaction hphase => absurd hphase (hp todo transaction)

theorem Sound.outdated (h : Sound dict m) (hv : dict'.version = dict.version + 1) : Sound dict' m where
  version := h.version
  known := by
    have := h.known
    omega
  prepared := by
    intro todo transaction hphase
    obtain ⟨keys, roles, done, hroles, hentries, -⟩ := h.prepared todo transaction hphase
    refine ⟨keys, roles, done, hroles, hentries, fun heq => ?_⟩
    have := h.known
    omega

theorem Sound.persistDirtyHosts (h : Sound dict m) : Sound dict (m.persistDirtyHosts dict) := by
  unfold SharedManager.persistDirtyHosts
  split
  · cases hroles : m.tree.leafSchedulers.values.mapM m.tree.leafRoles with
    | none => exact h
    | some roles =>
      simp only
      split
      · exact h
      · refine ⟨h.version, h.known, fun todo transaction hphase => ?_⟩
        obtain ⟨rfl, rfl⟩ := Phase.writing.inj hphase
        exact ⟨dict.getKeys, roles, [], hroles, rfl, fun _ => ⟨fun key hk => hk, rfl⟩⟩
  · exact h

theorem Sound.checkExists (h : Sound dict m) : Sound dict (m.checkExists dict) := by
  unfold SharedManager.checkExists
  split
  · rename_i entry todo transaction hwriting
    refine ⟨h.version, h.known, fun todo' transaction' hphase => ?_⟩
    obtain ⟨rfl, rfl⟩ := Phase.writing.inj hphase
    obtain ⟨keys, roles, done, hroles, hentries, hfits⟩ := h.prepared _ _ hwriting
    refine ⟨keys, roles, done ++ [entry], hroles, by simp [hentries], fun heq => ?_⟩
    obtain ⟨hkeys, rfl⟩ := hfits heq
    exact ⟨hkeys, by simp⟩
  · exact h

theorem Sound.abandon (h : Sound dict m) : Sound dict m.abandon := by
  unfold SharedManager.abandon
  split
  · exact h.of_idle rfl nofun
  · exact h

def Commits (s : System ι) (i : ι) : Prop := ((s.manager i).committed s.rolesDict).isSome = true

theorem committed_eq_some (h : s.Inv) (hc : (s.manager i).committed s.rolesDict = some dict) :
    ∃ transaction, (s.manager i).phase = .writing [] transaction ∧
      s.rolesDict.commit transaction (s.manager i).hierarchyVersion = some dict ∧
      (s.manager i).hierarchyVersion = s.rolesDict.version ∧ dict.version = s.rolesDict.version + 1 := by
  unfold SharedManager.committed at hc
  split at hc
  · rename_i transaction hphase
    obtain ⟨hv, hnext⟩ := DataDictionary.commit_eq_some hc
    have hversion := (h.sound i).version
    have hinvalid : invalidVersion = -2 := rfl
    have hnonneg := h.version
    exact ⟨transaction, hphase, hc, by omega, hnext⟩
  · cases hc

theorem committed_of_current (h : s.Inv) {transaction : List ZkOp}
    (hphase : (s.manager i).phase = .writing [] transaction)
    (hv : (s.manager i).hierarchyVersion = s.rolesDict.version) :
    ∃ keys roles, (s.manager i).tree.leafSchedulers.values.mapM (s.manager i).tree.leafRoles = some roles ∧
      (∀ key ∈ s.rolesDict.content.keys, key ∈ keys) ∧
      (s.manager i).committed s.rolesDict = some ⟨Hierarchy.applyChanges s.rolesDict.content
        (Hierarchy.changeSet keys roles), s.rolesDict.version + 1⟩ := by
  obtain ⟨keys, roles, done, hroles, hentries, hfits⟩ := (h.sound i).prepared _ _ hphase
  obtain ⟨hkeys, rfl⟩ := hfits hv
  refine ⟨keys, roles, hroles, hkeys, ?_⟩
  unfold SharedManager.committed
  rw [hphase]
  simp only
  rw [List.append_nil] at hentries
  rw [← hentries]
  exact DataDictionary.commit_opsFor _ hv

theorem Fresh.inv (h : s.Fresh) : s.Inv where
  version := h.version
  sound := by
    intro i
    obtain ⟨hv, hphase⟩ := h.manager i
    have hnonneg := h.version
    refine ⟨.inl hv, ?_, fun todo transaction hwriting => ?_⟩
    · rw [hv, invalidVersion]
      omega
    · rw [hphase] at hwriting
      cases hwriting

variable [DecidableEq ι]

theorem Inv.set (h : s.Inv) (hm : Sound s.rolesDict m) : (s.set i m).Inv where
  version := h.version
  sound := by
    intro j
    simp only [System.set, Function.update_apply]
    split
    · exact hm
    · exact h.sound j

/-- **Every access keeps the invariant.** -/
theorem Inv.step (h : s.Inv) (e : SharedEvent ι) : (s.step e).Inv := by
  cases e with
  | change i tree =>
    simp only [System.step]
    split
    · rename_i hidle
      refine h.set ((h.sound i).of_idle rfl fun _ _ hphase => ?_)
      rw [SharedManager.isIdle, hphase] at hidle
      cases hidle
    · exact h
  | readVersion i =>
    simp only [System.step]
    split
    · exact h.set ⟨.inr h.version, le_refl _, fun _ _ hphase => by cases hphase⟩
    · exact h
  | readRoles i zkHosts answers =>
    simp only [System.step]
    split
    · rename_i hphase
      refine h.set ?_
      unfold SharedManager.readRoles
      split
      · exact h.sound i
      · exact (h.sound i).of_idle rfl nofun
    · exact h
  | persistDirtyHosts i =>
    simp only [System.step]
    split
    · exact h.set (h.sound i).persistDirtyHosts
    · exact h
  | checkExists i => exact h.set (h.sound i).checkExists
  | commit i =>
    simp only [System.step]
    cases hc : (s.manager i).committed s.rolesDict with
    | none => exact h.set (h.sound i).abandon
    | some dict =>
      obtain ⟨transaction, -, -, hv, hnext⟩ := committed_eq_some h hc
      have hnonneg := h.version
      refine ⟨by simp only; omega, fun j => ?_⟩
      simp only [System.set, Function.update_apply]
      split
      · exact ⟨.inr (by simp only; omega), by simp only; omega, fun _ _ hphase => by cases hphase⟩
      · exact (h.sound j).outdated hnext

theorem Inv.run : ∀ (events : List (SharedEvent ι)) {s : System ι}, s.Inv → (s.run events).Inv
  | [], _, h => h
  | e :: events, _, h => Inv.run events (h.step e)

/-! ## Versions -/

theorem view_set (hv : m.hierarchyVersion = (s.manager i).hierarchyVersion) : (s.set i m).view = s.view := by
  unfold view System.set
  congr 1
  funext j
  simp only [Function.update_apply]
  split
  · rename_i hj
    rw [hj, hv]
  · rfl

/-- **The versions move as in a versioned cell**, along what the log records. -/
theorem reaches_step (h : s.Inv) (e : SharedEvent ι) : s.view.Reaches (s.act e) (s.step e).view := by
  have hstay : ∀ {m : SharedManager} {i : ι}, m.hierarchyVersion = (s.manager i).hierarchyVersion →
      s.view.Reaches [] (s.set i m).view := by
    intro m i hv
    rw [view_set hv]
    exact .nil
  cases e with
  | change i tree =>
    simp only [System.step, act]
    split
    · exact hstay rfl
    · exact .nil
  | readVersion i =>
    simp only [System.step, act]
    split
    · have hview : (s.set i ((s.manager i).readVersion s.rolesDict)).view = s.view.apply (.synced i) := by
        unfold view System.set View.apply
        congr 1
        funext j
        simp only [Function.update_apply]
        split <;> rfl
      rw [hview]
      exact .one _ trivial
    · exact .nil
  | readRoles i zkHosts answers =>
    simp only [System.step, act]
    split
    · refine hstay ?_
      unfold SharedManager.readRoles
      split <;> rfl
    · exact .nil
  | persistDirtyHosts i =>
    simp only [System.step, act]
    split
    · refine hstay ?_
      unfold SharedManager.persistDirtyHosts
      split
      · split
        · rfl
        · split <;> rfl
      · rfl
    · exact .nil
  | checkExists i =>
    refine hstay ?_
    unfold SharedManager.checkExists
    split <;> rfl
  | commit i =>
    simp only [System.step, act]
    cases hc : (s.manager i).committed s.rolesDict with
    | none =>
      refine hstay ?_
      unfold SharedManager.abandon
      split <;> rfl
    | some dict =>
      obtain ⟨transaction, -, -, hv, hnext⟩ := committed_eq_some h hc
      simp only [Option.isSome_some, if_true]
      have hview : ({ s.set i { s.manager i with
            hierarchyVersion := (s.manager i).hierarchyVersion + 1
            phase := .idle } with
          rolesDict := dict } : System ι).view = s.view.apply (.committed i) := by
        unfold view System.set View.apply
        simp only [hnext]
        congr 1
        funext j
        simp only [Function.update_apply]
        split
        · rw [hv]
        · rfl
      rw [hview]
      exact .one _ hv

theorem reaches_run : ∀ (events : List (SharedEvent ι)) {s : System ι}, s.Inv →
    s.view.Reaches (s.log events) (s.run events).view
  | [], _, _ => .nil
  | e :: events, _, h => (reaches_step h e).trans (reaches_run events (h.step e))

/-! ## The hand-over -/

structure HandsOver (s : System ι) (log : List (Act ι)) : Prop where
  /-- A commit goes through only if nobody else committed since the manager last read the version or committed. -/
  exclusive : ∀ i, s.Commits i → Undisturbed i log
  /-- Right after it there is a node for every host that owns a leaf, and no other. -/
  nodes : ∀ i, s.Commits i → ∀ key,
    (∃ value, (s.step (.commit i)).rolesDict.content.get key = some value) ↔ (s.manager i).tree.OwnsLeaf key
  roles : ∀ i, s.Commits i → ∀ key value, (s.step (.commit i)).rolesDict.content.get key = some value →
    ∃ l, (s.manager i).tree.IsLeaf l ∧ (s.manager i).tree.leafRoles l = some (key, value)
  /-- While nobody else writes, the version a manager goes by is the current one, -/
  current : ∀ i, Undisturbed i log → (s.manager i).hierarchyVersion = s.rolesDict.version
  /-- and its writes go through. -/
  admitted : ∀ i, Undisturbed i log → ∀ transaction, (s.manager i).phase = .writing [] transaction → s.Commits i

theorem content_commit (h : s.Inv) (hc : s.Commits i) : ∃ roles,
    (s.manager i).tree.leafSchedulers.values.mapM (s.manager i).tree.leafRoles = some roles ∧ ∀ key,
      (key ∈ roles.map Prod.fst → ∃ value, (s.step (.commit i)).rolesDict.content.get key = some value) ∧
      ∀ value, (s.step (.commit i)).rolesDict.content.get key = some value → (key, value) ∈ roles := by
  obtain ⟨dict, hdict⟩ := Option.isSome_iff_exists.1 hc
  obtain ⟨transaction, hphase, -, hv, -⟩ := committed_eq_some h hdict
  obtain ⟨keys, roles, hroles, hkeys, hcommitted⟩ := committed_of_current h hphase hv
  refine ⟨roles, hroles, fun key => ?_⟩
  simp only [System.step, hcommitted]
  exact Hierarchy.get_written (fun key hk => .inl (hkeys key hk)) key

/-- **No hand-over loses an update**, whatever the managers do and in whatever order. -/
theorem handsOver_run (s : System ι) (hs : s.Fresh) (events : List (SharedEvent ι)) :
    (s.run events).HandsOver (s.log events) := by
  have h : (s.run events).Inv := Inv.run events hs.inv
  have hiff : ∀ i, ((s.run events).manager i).hierarchyVersion = (s.run events).rolesDict.version ↔
      Undisturbed i (s.log events) := by
    intro i
    refine (reaches_run events hs.inv).known_eq_iff (fun j => ?_) i
    have hinvalid : s.view.known j = -2 := (hs.manager j).1
    have hnonneg : 0 ≤ s.view.version := hs.version
    omega
  generalize s.run events = t at h hiff
  constructor
  · intro i hc
    obtain ⟨dict, hdict⟩ := Option.isSome_iff_exists.1 hc
    obtain ⟨-, -, -, hv, -⟩ := committed_eq_some h hdict
    exact (hiff i).1 hv
  · intro i hc key
    obtain ⟨roles, hroles, hcontent⟩ := content_commit h hc
    rw [← Hierarchy.mem_leafRoles_keys hroles]
    refine ⟨fun ⟨value, hvalue⟩ => ?_, (hcontent key).1⟩
    exact List.mem_map_of_mem (f := Prod.fst) ((hcontent key).2 value hvalue)
  · intro i hc key value hvalue
    obtain ⟨roles, hroles, hcontent⟩ := content_commit h hc
    exact (Hierarchy.mem_leafRoles hroles _).1 ((hcontent key).2 value hvalue)
  · exact fun i hu => (hiff i).2 hu
  · intro i hu transaction hphase
    obtain ⟨keys, roles, -, -, hcommitted⟩ := committed_of_current h hphase ((hiff i).2 hu)
    rw [Commits, hcommitted]
    rfl

def oneHost : Hierarchy :=
  ((Hierarchy.new 1 1).addToHierarchy "a" (HostConfig.plain "zone" "x")).scan Uuid.unary Chance.first

def twoManagers : System Bool := ⟨⟨LinkedMap.empty, 0⟩, fun _ => ⟨Hierarchy.new 1 1, invalidVersion, .idle⟩⟩

def race : List (SharedEvent Bool) :=
  [.readVersion true, .readVersion false, .readRoles true LinkedMap.empty (fun _ => true),
    .readRoles false LinkedMap.empty (fun _ => true), .change true oneHost, .change false oneHost,
    .persistDirtyHosts true, .persistDirtyHosts false, .checkExists true, .checkExists false, .commit true]

/-- The other one's write is refused. -/
theorem handsOver_run_race : twoManagers.Fresh ∧ (twoManagers.run race).HandsOver (twoManagers.log race) ∧
    (twoManagers.run race).rolesDict.getKeys = ["a"] ∧ ¬ (twoManagers.run race).Commits false := by
  have hfresh : twoManagers.Fresh := ⟨le_refl _, fun _ => ⟨rfl, rfl⟩⟩
  exact ⟨hfresh, handsOver_run twoManagers hfresh race, by decide +kernel, by rw [Commits]; decide +kernel⟩

end System
end Photon.Chairman
