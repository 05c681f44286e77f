import Photon.ManagerRead
/-!
# ManagerInit — a manager that starts from what is stored

`init` rebuilds the hierarchy from `/hosts` and `/roles`.  A host that was built from its stored configuration and the
one a notification about the same configuration would register differ in one thing, the networks: a notification keeps
those for virtual machines only.
-/
namespace Photon.Chairman

open Keyed (KeyedList LinkedMap)

theorem Heap.Alike.data {H H' : Heap} (h : H.Alike H') (x : HostRef) : (H'.host x).data = (H.host x).data := by
  obtain ⟨d, c, m, hx⟩ := h.host x
  rw [hx]
  rfl

namespace Hierarchy

variable {s : Hierarchy}

/-! ## Putting leaves under the root -/

theorem foldl_put_of_get {key : HostRef → String} : ∀ (rs : List HostRef) (m : LinkedMap String HostRef),
    (∀ r ∈ rs, m.get (key r) = some r) → rs.foldl (fun m r => m.put (key r) r) m = m
  | [], _, _ => rfl
  | r :: rs, m, h => by
    rw [List.foldl_cons, LinkedMap.put_of_get m _ _ (h r (by simp))]
    exact foldl_put_of_get rs m (fun x hx => h x (List.mem_cons_of_mem _ hx))

theorem foldl_addLeaf_eq : ∀ (ls : List SchedulerRef) (s : Hierarchy),
    (∀ l ∈ ls, ∀ j r, (s.scheduler l).hosts.get j = some r → s.hosts.get (s.host r).id = some r) →
    ls.foldl (fun s leaf =>
      ({ s with hosts := (s.scheduler leaf).hosts.values.foldl (fun m r => m.put (s.host r).id r) s.hosts }).insertLeaf
        leaf) s = ls.foldl insertLeaf s
  | [], _, _ => rfl
  | leaf :: ls, s, h => by
    have hsame : (s.scheduler leaf).hosts.values.foldl (fun m r => m.put (s.host r).id r) s.hosts = s.hosts := by
      refine foldl_put_of_get _ _ (fun r hr => ?_)
      obtain ⟨j, hj⟩ := LinkedMap.mem_values_iff.1 hr
      exact h leaf (by simp) j r hj
    rw [List.foldl_cons, List.foldl_cons, hsame]
    refine foldl_addLeaf_eq ls (s.insertLeaf leaf) (fun l hl j r hr => ?_)
    have hshape := s.shape_insertLeaf leaf
    rw [show ((s.insertLeaf leaf).scheduler l).hosts = (s.scheduler l).hosts from congrArg (fun t => t.members l)
      hshape] at hr
    rw [show ((s.insertLeaf leaf).host r).id = (s.host r).id from congrArg (fun t => t.hostId r) hshape]
    exact h l (List.mem_cons_of_mem _ hl) j r hr

theorem foldl_insertLeaf_keeps (x : HostRef) : ∀ (ls : List SchedulerRef) (s : Hierarchy),
    (ls.foldl insertLeaf s).hosts = s.hosts ∧ (ls.foldl insertLeaf s).leafFanout = s.leafFanout ∧
      ((ls.foldl insertLeaf s).host x).data = (s.host x).data
  | [], _ => ⟨rfl, rfl, rfl⟩
  | l :: ls, s => by
    obtain ⟨h1, h2, h3⟩ := foldl_insertLeaf_keeps x ls (s.insertLeaf l)
    rw [List.foldl_cons]
    exact ⟨h1, h2, h3.trans ((s.heap.addChild_kept s.rootScheduler l).data x)⟩

/-! ## Flags -/

theorem alike_setAllHostsNotConfigured (s : Hierarchy) : s.heap.Alike s.setAllHostsNotConfigured.heap :=
  Heap.Alike.foldl (fun H r => Heap.Alike.modifyHost H r _ (fun k => ⟨k.dirty, false, k.missing, rfl⟩)) _ _

/-! ## A configuration that is delivered again -/

theorem compareDatastoresWithTags_self (set : DatastoreSet) : compareDatastoresWithTags set set = true := by
  unfold compareDatastoresWithTags
  rw [if_neg (by simp), List.all_eq_true]
  intro ds hds
  rw [(set.find_eq_some_iff ds.id ds).2 ⟨hds, rfl⟩]
  simp

theorem equals_of_data {k k' : Host} (h : k.data = k'.data) : k.equals k' = true := by
  simp only [Host.data, Prod.mk.injEq] at h
  obtain ⟨h1, h2, h3, h4, h5, h6, h7⟩ := h
  simp [Host.equals, h1, h2, h3, h4, h5, h6, h7, KeyedList.setEquals_refl]

theorem addToHierarchy_known {id : String} {config : HostConfig} {r : HostRef} (hr : s.hosts.get id = some r)
    (hd : (s.host r).data = (readHost id config).data) (hvm : getVmNetwork (getNetworks config) = getNetworks config) :
    ∃ H, s.heap.Alike H ∧ s.addToHierarchy id config = { s with heap := H } := by
  have hds : (s.host r).datastores = getDatastores config := congrArg (fun d => d.2.2.1) hd
  have heq := equals_of_data hd
  unfold readHost at heq
  refine ⟨_, Heap.Alike.modifyHost s.heap r (fun k => { k with configured := false, missing := false })
    (fun k => ⟨k.dirty, false, false, rfl⟩), ?_⟩
  unfold addToHierarchy addHost
  rw [hr, hvm]
  simp only
  rw [if_pos heq, hds, if_pos (compareDatastoresWithTags_self _)]

end Hierarchy

namespace Manager

open Hierarchy

variable {tree : Hierarchy} {zkHosts : LinkedMap String HostConfig} {zkRoles : LinkedMap String Roles}
  {answers : HostRef → Bool} {m : Manager}

/-! ## What `init` builds -/

def loaded (tree : Hierarchy) (hosts : LinkedMap String HostRef) (read : LinkedMap String SchedulerRef × Heap) :
    Hierarchy :=
  ({ tree.clear with heap := read.2 }.addHosts hosts).addLeaves read.1

def started (tree : Hierarchy) (hosts : LinkedMap String HostRef) (read : LinkedMap String SchedulerRef × Heap) :
    Hierarchy :=
  ((loaded tree hosts read).setAllHostsNotConfigured).setAllHostsDirty false

theorem init_eq_some (h : init tree zkHosts zkRoles answers = some m) :
    ∃ read, (tree.clear.heap.readHostsFromZk zkHosts).2.readSchedulersFromZk
        (tree.clear.heap.readHostsFromZk zkHosts).1 zkRoles = some read ∧
      m.roles = zkRoles ∧ ∃ rs,
        (started tree (tree.clear.heap.readHostsFromZk zkHosts).1 read).configureHosts answers rs = some m.tree := by
  unfold init at h
  simp only [Option.bind_eq_bind] at h
  obtain ⟨read, hread, h⟩ := Option.bind_eq_some_iff.1 h
  obtain ⟨s, hs, h⟩ := Option.bind_eq_some_iff.1 h
  cases h
  exact ⟨read, hread, rfl, _, hs⟩

theorem loaded_eq {read : LinkedMap String SchedulerRef × Heap}
    (h : (tree.clear.heap.readHostsFromZk zkHosts).2.readSchedulersFromZk (tree.clear.heap.readHostsFromZk zkHosts).1
      zkRoles = some read) : ({ tree.clear with heap := (tree.clear.heap.readHostsFromZk zkHosts).2 } :
        Hierarchy).Reading (tree.clear.heap.readHostsFromZk zkHosts).1 (storedRoles zkRoles) read ∧
      loaded tree (tree.clear.heap.readHostsFromZk zkHosts).1 read = read.1.values.foldl insertLeaf
        { tree.clear with heap := read.2, hosts := (tree.clear.heap.readHostsFromZk zkHosts).1 } := by
  generalize hread : tree.clear.heap.readHostsFromZk zkHosts = hosts at h
  have hids : ∀ j r, hosts.1.get j = some r → (hosts.2.host r).id = j := by
    intro j r hr
    rw [← hread] at hr ⊢
    exact Heap.readHostsFromZk_id _ hr
  have hreading := reading_readSchedulersFromZk { tree.clear with heap := hosts.2 } hids h
  refine ⟨hreading, ?_⟩
  have hhosts : ({ tree.clear with heap := read.2 } : Hierarchy).addHosts hosts.1 =
      { tree.clear with heap := read.2, hosts := hosts.1 } := by
    unfold addHosts
    rw [show ({ tree.clear with heap := read.2 } : Hierarchy).hosts = LinkedMap.empty from rfl]
    exact congrArg (fun hosts => ({ tree.clear with heap := read.2, hosts := hosts } : Hierarchy))
      (LinkedMap.putAll_entries hosts.1)
  rw [loaded, hhosts]
  refine foldl_addLeaf_eq _ _ (fun l hl j r hr => ?_)
  obtain ⟨i, hi⟩ := LinkedMap.mem_values_iff.1 hl
  obtain ⟨p, -, -, hleaf⟩ := hreading.leaf i l hi
  obtain ⟨children, -, hmembers⟩ := hleaf.members
  have hget : hosts.1.get j = some r := by
    have hj : (read.2.scheduler l).hosts.get j = if j ∈ children then hosts.1.get j else none := hmembers j
    rw [show (read.2.scheduler l).hosts.get j = some r from hr] at hj
    split at hj
    · exact hj.symm
    · cases hj
  have hid : (read.2.host r).id = j := (congrArg Prod.fst (hreading.data r)).trans (hids j r hget)
  show hosts.1.get (read.2.host r).id = some r
  rw [hid, hget]

variable {id : String} {config : HostConfig}

/-- **After `init` every stored configuration has a host with its data.** -/
theorem init_hosts (h : init tree zkHosts zkRoles answers = some m) (hc : zkHosts.get id = some config) :
    ∃ r, m.tree.hosts.get id = some r ∧ (m.tree.host r).data = (readHost id config).data := by
  obtain ⟨read, hread, -, rs, hconf⟩ := init_eq_some h
  obtain ⟨hreading, hloaded⟩ := loaded_eq hread
  obtain ⟨heq, halike, -⟩ := configureHosts_keeps answers rs _ m.tree hconf
  obtain ⟨r, hr, hhost⟩ := tree.clear.heap.readHostsFromZk_get hc
  obtain ⟨hhosts, -, hdata⟩ := foldl_insertLeaf_keeps r read.1.values
    { tree.clear with heap := read.2, hosts := (tree.clear.heap.readHostsFromZk zkHosts).1 }
  rw [← hloaded] at hhosts hdata
  refine ⟨r, ?_, ?_⟩
  · rw [heq]
    exact (congrArg (fun hosts => hosts.get id) hhosts).trans hr
  · rw [← hhost]
    exact (halike.data r).trans ((((alike_setAllHostsNotConfigured _).trans (Heap.Alike.setDirty _ _ _)).data r).trans
      (hdata.trans (hreading.data r)))

/-! ## Both ways of building agree -/

def VmOnly (config : HostConfig) : Prop := ∀ network ∈ (getNetworks config).elems, isVmNetwork network = true

theorem getVmNetwork_of_vmOnly (h : VmOnly config) : getVmNetwork (getNetworks config) = getNetworks config :=
  KeyedList.ext (List.filter_eq_self.2 h)

theorem addToHierarchy_unknown {s : Hierarchy} (config : HostConfig) (hid : s.hosts.get id = none) :
    (s.addToHierarchy id config).hosts.get id = some s.heap.nextHost ∧
        (s.addToHierarchy id config).host s.heap.nextHost =
        { readHost id config with networks := getVmNetwork (getNetworks config) } := by
  unfold addToHierarchy addHost
  rw [hid]
  simp only [registerHost, host, Heap.host_allocHost, if_true]
  exact ⟨by simp [Host.new], rfl⟩

/-- The hosts read from `/hosts` are those the notifications would register, and so are their constraints; and after a
start from `/hosts` and any `/roles`, notifications that repeat what is stored leave all links as they are. -/
structure RestartAgrees (zkHosts : LinkedMap String HostConfig) : Prop where
  host : ∀ (H : Heap) (s : Hierarchy) (id : String) (config : HostConfig), zkHosts.get id = some config →
    s.hosts.get id = none → ∃ r r', (H.readHostsFromZk zkHosts).1.get id = some r ∧
      (s.addToHierarchy id config).hosts.get id = some r' ∧
      ((H.readHostsFromZk zkHosts).2.host r).equals ((s.addToHierarchy id config).host r') = true ∧
      getHostConstraints ((H.readHostsFromZk zkHosts).2.host r) =
        getHostConstraints ((s.addToHierarchy id config).host r')
  tree : ∀ (tree : Hierarchy) (zkRoles : LinkedMap String Roles) (answers : HostRef → Bool) (m : Manager),
    init tree zkHosts zkRoles answers = some m → ∀ (u : Uuid) (deliveries : List (String × HostConfig)),
      (∀ e ∈ deliveries, zkHosts.get e.1 = some e.2) →
      ∃ m', m.run u (deliveries.map (fun e => .onHostAdded e.1 e.2)) = some m' ∧ m'.tree.shape = m.tree.shape

theorem run_redelivered (u : Uuid) (hvm : ∀ id config, zkHosts.get id = some config → VmOnly config) :
    ∀ (deliveries : List (String × HostConfig)) (m : Manager), (∀ e ∈ deliveries, zkHosts.get e.1 = some e.2) →
      (∀ id config, zkHosts.get id = some config →
        ∃ r, m.tree.hosts.get id = some r ∧ (m.tree.host r).data = (readHost id config).data) →
      ∃ m', m.run u (deliveries.map (fun e => .onHostAdded e.1 e.2)) = some m' ∧ m'.tree.shape = m.tree.shape
  | [], m, _, _ => ⟨m, rfl, rfl⟩
  | e :: deliveries, m, hall, hhosts => by
    have he := hall e (by simp)
    obtain ⟨r, hr, hd⟩ := hhosts e.1 e.2 he
    obtain ⟨H, halike, heq⟩ := addToHierarchy_known hr hd (getVmNetwork_of_vmOnly (hvm e.1 e.2 he))
    obtain ⟨m', hrun, hshape⟩ := run_redelivered u hvm deliveries { m with tree := { m.tree with heap := H } }
      (fun e' he' => hall e' (List.mem_cons_of_mem _ he')) (fun id config hc => by
        obtain ⟨x, hx, hxd⟩ := hhosts id config hc
        exact ⟨x, hx, (halike.data x).trans hxd⟩)
    refine ⟨m', ?_, hshape.trans (shape_of_alike halike)⟩
    rw [List.map_cons, run, List.foldlM_cons]
    simp only [handle, heq]
    exact hrun

theorem RestartAgrees.vmOnly (h : RestartAgrees zkHosts) (hc : zkHosts.get id = some config) : VmOnly config := by
  obtain ⟨r, r', hr, hr', heq, -⟩ := h.host Heap.empty (new 1 1) id config hc rfl
  obtain ⟨hr₁, hhost₁⟩ := addToHierarchy_unknown (s := new 1 1) config (show (new 1 1).hosts.get id = none from rfl)
  obtain ⟨r₂, hr₂, hhost₂⟩ := Heap.empty.readHostsFromZk_get hc
  rw [hr₁] at hr'
  rw [hr₂] at hr
  cases hr'
  cases hr
  rw [hhost₁, hhost₂] at heq
  simp only [Host.equals, Bool.and_eq_true] at heq
  have hnetworks := heq.1.1.1.2
  simp only [KeyedList.setEquals, Bool.and_eq_true, beq_iff_eq] at hnetworks
  exact List.length_filter_eq_length_iff.1 hnetworks.1.symm

/-- **A restart agrees with the notifications exactly when every stored network is for virtual machines.** -/
theorem restartAgrees_iff (zkHosts : LinkedMap String HostConfig) :
    RestartAgrees zkHosts ↔ ∀ id config, zkHosts.get id = some config → VmOnly config := by
  constructor
  · exact fun h id config hc => h.vmOnly hc
  · intro hvm
    constructor
    · intro H s id config hc hid
      obtain ⟨hr', hhost'⟩ := addToHierarchy_unknown config hid
      obtain ⟨r, hr, hhost⟩ := H.readHostsFromZk_get hc
      have hsame : (H.readHostsFromZk zkHosts).2.host r = (s.addToHierarchy id config).host s.heap.nextHost := by
        rw [hhost, hhost', getVmNetwork_of_vmOnly (hvm id config hc)]
        rfl
      exact ⟨r, _, hr, hr', by rw [hsame]; exact equals_of_data rfl, by rw [hsame]⟩
    · intro tree zkRoles answers m hinit u deliveries hall
      exact run_redelivered u hvm deliveries m hall (fun id config hc => init_hosts hinit hc)

def storageHost : HostConfig := ⟨"zone", [], "x", 8835, some [⟨"storage", some [.vsan]⟩], none⟩

def oneLeafRoles : LinkedMap String Roles :=
  LinkedMap.empty.put "h" ⟨some [⟨"leaf", "ROOT", none, [], some ["h"], [⟨"h", some "x", 8835, none, none, none⟩]⟩]⟩

/-- **A network that is not for virtual machines costs a host its leaf** when its configuration is repeated. -/
theorem restart_loses_leaf :
    ¬ RestartAgrees (LinkedMap.empty.put "h" storageHost) ∧
      (init (new 1 1) (LinkedMap.empty.put "h" storageHost) oneLeafRoles (fun _ => true)).map
          (fun m => (m.tree.leafView "leaf", (m.tree.addToHierarchy "h" storageHost).leafView "leaf")) =
        some (some (some "h", {"h"}), some (none, ∅)) := by
  refine ⟨fun h => ?_, by decide +kernel⟩
  have hvm : VmOnly storageHost :=
    h.vmOnly (show (LinkedMap.empty.put "h" storageHost).get "h" = some storageHost from rfl)
  exact absurd (hvm ⟨"storage", some [.vsan]⟩ (by decide +kernel)) (by decide)

end Manager
end Photon.Chairman
