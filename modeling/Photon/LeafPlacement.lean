import Mathlib.Data.Finset.Sort
import Mathlib.Data.String.Basic
import Photon.Strategy
import Photon.LeafDrain
/-!
# LeafPlacement — which hosts a leaf scheduler asks for a placement

`place` keeps the hosts that satisfy the constraints, shuffles them, cuts the list to the fan-out, and only then leaves
out the hosts that are known as missing.  A cut that is full of missing hosts leaves nobody to ask.
-/
namespace Photon.LeafScheduler

open List

structure ChildInfo where
  id : String
  address : String
  port : Int
  constraints : List ResourceConstraint
  deriving DecidableEq

/-- What is to be placed: the constraints of the VM and those of the disks, each of which may be unset. -/
structure Resource where
  vm : Option (List ResourceConstraint)
  disks : List (Option (List ResourceConstraint))
  deriving DecidableEq

/-- The parameters a request may set for the fan-out; `ρ` are the doubles. -/
structure PlaceParams (ρ : Type) where
  fanoutRatio : Option ρ
  minFanoutCount : Option Int
  maxFanoutCount : Option Int

structure PlaceRequest (ρ : Type) where
  resource : Option Resource
  leafSchedulerParams : Option (PlaceParams ρ)

structure RandomSubsetStrategy (ρ : Type) where
  fanoutRatio : ρ
  minFanout : Int
  maxFanout : Option Int

inductive PlaceResultCode
  | ok | noSuchResource | notEnoughCpuResource | notEnoughMemoryResource | notEnoughDatastoreCapacity | systemError
  | other
  deriving DecidableEq

structure Shuffle where
  apply : List ChildInfo → List ChildInfo
  perm : ∀ hosts, (apply hosts).Perm hosts

/-- What is left to others: the product of a length and a ratio, rounded up, the answers of the hosts, and the response
the scorer prefers. -/
structure World (ρ : Type) where
  ceilTimes : Nat → ρ → Int
  /-- The result of a place request, or none where the call raises. -/
  answer : ChildInfo → Option PlaceResultCode
  score : List ChildInfo → Option ChildInfo

structure Scheduler where
  hosts : List ChildInfo
  /-- The missing hosts of the health checker, if there is one. -/
  missing : Option (Finset String)
  configured : ConfigStates

variable {ρ : Type}

namespace RandomSubsetStrategy

def getPlaceParams (strategy : RandomSubsetStrategy ρ) (request : PlaceRequest ρ) : ρ × Int × Option Int :=
  match request.leafSchedulerParams with
  | none => (strategy.fanoutRatio, strategy.minFanout, strategy.maxFanout)
  | some params => (params.fanoutRatio.getD strategy.fanoutRatio, params.minFanoutCount.getD strategy.minFanout,
      params.maxFanoutCount.or strategy.maxFanout)

def fanoutSize (strategy : RandomSubsetStrategy ρ) (world : World ρ) (request : PlaceRequest ρ)
    (children : Nat) : Int :=
  let (fanoutRatio, minFanoutCount, maxFanoutCount) := strategy.getPlaceParams request
  let size := max (world.ceilTimes children fanoutRatio) minFanoutCount
  match strategy.maxFanout, maxFanoutCount with
  | some own, some most => if own = 0 then size else min size most
  | _, _ => size

def slice (hosts : List ChildInfo) (n : Int) : List ChildInfo :=
  if 0 ≤ n then hosts.take n.toNat else hosts.take (hosts.length - n.natAbs)

def filterChild (strategy : RandomSubsetStrategy ρ) (world : World ρ) (shuffle : Shuffle) (children : List ChildInfo)
    (request : PlaceRequest ρ) (constraints : List ResourceConstraint) : List ChildInfo :=
  let result := if constraints.length = 0 then children
    else children.filter (fun child => satisfy child.constraints constraints)
  slice (shuffle.apply result) (strategy.fanoutSize world request children.length)

end RandomSubsetStrategy

/-- The values become a `frozenset`, listed here in increasing order. -/
def makeConstraintsHashable (thriftConstraints : List ResourceConstraint) : List ResourceConstraint :=
  thriftConstraints.map fun constraint => { constraint with values := constraint.values.toFinset.sort (· ≤ ·) }

/-- `_collect_constraints`: a constraint that is asked for twice is listed once. -/
def collectConstraints (resource : Option Resource) : List ResourceConstraint :=
  match resource with
  | none => []
  | some resource => (makeConstraintsHashable (resource.vm.getD []) ++
      resource.disks.flatMap fun disk => makeConstraintsHashable (disk.getD [])).dedup

def ChildInfo.coalesced (order : SetOrder) (host : ChildInfo) : ChildInfo :=
  { host with constraints := coalesceResources order host.constraints }

def configure (order : SetOrder) (hosts : List ChildInfo) (missing : Option (Finset String)) : Scheduler :=
  ⟨hosts.map (ChildInfo.coalesced order), missing, .initialized⟩

def placementHosts (strategy : RandomSubsetStrategy ρ) (world : World ρ) (shuffle : Shuffle) (s : Scheduler)
    (request : PlaceRequest ρ) : List ChildInfo :=
  strategy.filterChild world shuffle s.hosts request (collectConstraints request.resource)

def filterMissingHosts (s : Scheduler) (selected : List ChildInfo) : List ChildInfo :=
  match s.missing with
  | none => selected
  | some missing => selected.filter (fun host => decide (host.id ∉ missing))

/-- The answer of `place` to the results of the hosts it asked. -/
def bestResult (world : World ρ) (asked : List ChildInfo) : PlaceResultCode :=
  let gave := fun code => asked.any (fun host => world.answer host = some code)
  match world.score (asked.filter (fun host => world.answer host = some .ok)) with
  | some _ => .ok
  | none =>
    if gave .notEnoughCpuResource then .notEnoughCpuResource
    else if gave .notEnoughMemoryResource then .notEnoughMemoryResource
    else if gave .notEnoughDatastoreCapacity then .notEnoughDatastoreCapacity
    else if gave .noSuchResource then .noSuchResource
    else .systemError

/-- `place`: the hosts that are sent a place request, one after the other, and the result.  There is none for a
scheduler that is not configured, which raises `InvalidScheduler`. -/
def place (strategy : RandomSubsetStrategy ρ) (world : World ρ) (shuffle : Shuffle) (s : Scheduler)
    (request : PlaceRequest ρ) : Option (List ChildInfo × PlaceResultCode) :=
  match s.configured with
  | .uninitialized => none
  | .initialized =>
    match placementHosts strategy world shuffle s request with
    | [] => some ([], .noSuchResource)
    | selected =>
      let asked := filterMissingHosts s selected
      some (asked, bestResult world asked)

/-! ## Who is asked -/

def RandomSubsetStrategy.FansOut (strategy : RandomSubsetStrategy ρ) (request : PlaceRequest ρ) : Prop :=
  1 ≤ (strategy.getPlaceParams request).2.1 ∧ ∀ most ∈ (strategy.getPlaceParams request).2.2, 1 ≤ most

/-- The host is not missing and what it reports admits every constraint of the request. -/
def Usable (missing : Option (Finset String)) (request : PlaceRequest ρ) (host : ChildInfo) : Prop :=
  host.id ∉ missing.getD ∅ ∧ ∀ c ∈ collectConstraints request.resource, Admits host.constraints c

def missingMatch (order : SetOrder) (missing : Option (Finset String)) (request : PlaceRequest ρ)
    (host : ChildInfo) : Bool :=
  decide (host.id ∈ missing.getD ∅) && satisfy (coalesceResources order host.constraints)
    (collectConstraints request.resource)

theorem RandomSubsetStrategy.one_le_fanoutSize {strategy : RandomSubsetStrategy ρ} {request : PlaceRequest ρ}
    (h : strategy.FansOut request) (world : World ρ) (children : Nat) :
    1 ≤ strategy.fanoutSize world request children := by
  obtain ⟨hmin, hmax⟩ := h
  have hsize : 1 ≤ max (world.ceilTimes children (strategy.getPlaceParams request).1)
    (strategy.getPlaceParams request).2.1 :=
    le_max_of_le_right hmin
  unfold fanoutSize
  dsimp only
  split
  · rename_i own most hown hmost
    split
    · exact hsize
    · exact le_min hsize (hmax most hmost)
  · exact hsize

/-- **A cut of a shuffled list keeps an element with a property, whatever the shuffle, exactly if fewer elements than it
keeps are without it.** -/
theorem exists_mem_take_iff {α : Type} (p : α → Bool) (l : List α) (k : Nat) (hp : ∃ x ∈ l, p x = true) :
    (∀ l' : List α, l'.Perm l → ∃ x ∈ l'.take k, p x = true) ↔ l.countP (fun x => !p x) < k := by
  constructor
  · intro h
    by_contra hk
    -- the elements without the property first
    have hperm : (l.filter (fun x => !p x) ++ l.filter p).Perm l := by
      have := filter_append_perm (fun x => !p x) l
      simpa using this
    obtain ⟨x, hx, hpx⟩ := h _ hperm
    rw [take_append_of_le_length (by rw [← countP_eq_length_filter]; omega)] at hx
    simpa [hpx] using (mem_filter.1 (mem_of_mem_take hx)).2
  · intro hk l' hperm
    by_contra hnone
    have hall : ∀ x ∈ l'.take k, (!p x) = true := by
      intro x hx
      by_contra hpx
      exact hnone ⟨x, hx, by simpa using hpx⟩
    have hlen : (l'.take k).length ≤ l.countP (fun x => !p x) := by
      rw [← hperm.countP_eq, ← countP_eq_length.2 hall]
      exact (take_sublist k l').countP_le
    rw [length_take] at hlen
    obtain ⟨x, hx, hpx⟩ := hp
    refine hnone ⟨x, ?_, hpx⟩
    rw [take_of_length_le (by omega)]
    exact hperm.mem_iff.2 hx

section

variable (strategy : RandomSubsetStrategy ρ) (world : World ρ) (order : SetOrder) (hosts : List ChildInfo)
  (missing : Option (Finset String)) (request : PlaceRequest ρ)

def matching : List ChildInfo :=
  (hosts.map (ChildInfo.coalesced order)).filter
    (fun host => satisfy host.constraints (collectConstraints request.resource))

theorem place_configured (shuffle : Shuffle) :
      ∃ code, place strategy world shuffle (configure order hosts missing) request =
      some (filterMissingHosts (configure order hosts missing) (RandomSubsetStrategy.slice
        (shuffle.apply (matching order hosts request)) (strategy.fanoutSize world request hosts.length)), code) := by
  have hselected : placementHosts strategy world shuffle (configure order hosts missing) request =
      RandomSubsetStrategy.slice
      (shuffle.apply (matching order hosts request)) (strategy.fanoutSize world request hosts.length) := by
    unfold placementHosts RandomSubsetStrategy.filterChild matching configure
    dsimp only
    rw [length_map]
    split
    · rename_i hnone
      rw [length_eq_zero_iff] at hnone
      rw [hnone]
      simp only [satisfy, filter_true]
    · rfl
  unfold place
  simp only [configure] at hselected ⊢
  rw [hselected]
  cases RandomSubsetStrategy.slice (shuffle.apply (matching order hosts request))
      (strategy.fanoutSize world request hosts.length) with
  | nil => exact ⟨.noSuchResource, by cases missing <;> rfl⟩
  | cons host rest => exact ⟨_, rfl⟩

theorem mem_filterMissingHosts {s : Scheduler} {selected : List ChildInfo} {host : ChildInfo} :
    host ∈ filterMissingHosts s selected ↔ host ∈ selected ∧ host.id ∉ s.missing.getD ∅ := by
  unfold filterMissingHosts
  cases s.missing <;> simp

theorem exists_usable_iff (listed : List ChildInfo) (hlisted : listed ⊆ matching order hosts request) :
    (∃ host ∈ hosts, Usable missing request host ∧ host.coalesced order ∈ listed) ↔
      ∃ x ∈ listed, decide (x.id ∉ missing.getD ∅) = true := by
  simp only [decide_eq_true_eq]
  constructor
  · rintro ⟨host, -, husable, hmem⟩
    exact ⟨_, hmem, husable.1⟩
  · rintro ⟨x, hx, hlive⟩
    obtain ⟨hx', hsat⟩ := mem_filter.1 (hlisted hx)
    obtain ⟨host, hhost, rfl⟩ := mem_map.1 hx'
    exact ⟨host, hhost, ⟨hlive, (satisfy_eq_true_iff order host.constraints _).1 hsat⟩, hx⟩

theorem countP_matching : (matching order hosts request).countP (fun x => !decide (x.id ∉ missing.getD ∅)) =
    hosts.countP (missingMatch order missing request) := by
  unfold matching missingMatch
  rw [countP_filter, countP_map]
  refine countP_congr (fun host _ => ?_)
  simp only [Function.comp_apply, ChildInfo.coalesced, decide_not, Bool.not_not, Bool.and_eq_true, decide_eq_true_eq]
  exact and_congr_left (fun _ => decide_eq_true_iff)

end

def placeStrategy (placeFanOutRatio : ρ) : RandomSubsetStrategy ρ := ⟨placeFanOutRatio, 2, some 4⟩

def Shuffle.refl : Shuffle := ⟨fun hosts => hosts, fun _ => List.Perm.refl _⟩

/-- A world in which the ratio is rounded up to one host, and every host answers with success. -/
def World.agreeing : World Unit := ⟨fun _ _ => 1, fun _ => some .ok, fun hosts => hosts.head?⟩

def bare (id : String) : ChildInfo := ⟨id, "address", 8835, []⟩

noncomputable def SetOrder.listed : SetOrder := ⟨Finset.toList, fun _ _ => Finset.mem_toList⟩

section

variable (strategy : RandomSubsetStrategy ρ) (world : World ρ) (order : SetOrder) (hosts : List ChildInfo)
  (missing : Option (Finset String)) (request : PlaceRequest ρ)

/-- **A leaf scheduler asks a usable host if there is one, whatever the shuffle, exactly if fewer hosts than the fan-out
satisfy the constraints and are missing.** -/
theorem place_asks_usable_iff (h : strategy.FansOut request) :
    (∀ shuffle, (∃ host ∈ hosts, Usable missing request host) →
      ∃ asked code, place strategy world shuffle (configure order hosts missing) request = some (asked, code) ∧
        ∃ host ∈ hosts, Usable missing request host ∧ host.coalesced order ∈ asked) ↔
    ((∃ host ∈ hosts, Usable missing request host) →
      (hosts.countP (missingMatch order missing request) : Int) < strategy.fanoutSize world request hosts.length) := by
  have hsize := RandomSubsetStrategy.one_le_fanoutSize h world hosts.length
  rw [forall_comm]
  refine forall_congr' (fun husable => ?_)
  obtain ⟨host, hhost, huse⟩ := husable
  have hexists := exists_mem_take_iff (fun x : ChildInfo => decide (x.id ∉ missing.getD ∅))
    (matching order hosts request) (strategy.fanoutSize world request hosts.length).toNat
    ⟨_, mem_filter.2 ⟨mem_map_of_mem hhost, (satisfy_eq_true_iff order host.constraints _).2 huse.2⟩,
      decide_eq_true huse.1⟩
  rw [countP_matching] at hexists
  rw [show ((hosts.countP (missingMatch order missing request) : Int) <
    strategy.fanoutSize world request hosts.length) ↔
    hosts.countP (missingMatch order missing request) < (strategy.fanoutSize world request hosts.length).toNat by omega,
    ← hexists]
  -- one shuffle is one permutation of the matching hosts
  have hone : ∀ shuffle : Shuffle, (∃ asked code,
      place strategy world shuffle (configure order hosts missing) request = some (asked, code) ∧
        ∃ host ∈ hosts, Usable missing request host ∧ host.coalesced order ∈ asked) ↔
      ∃ x ∈ (shuffle.apply (matching order hosts request)).take (strategy.fanoutSize world request hosts.length).toNat,
        decide (x.id ∉ missing.getD ∅) = true := by
    intro shuffle
    obtain ⟨code, hplace⟩ := place_configured strategy world order hosts missing request shuffle
    have hsub : (shuffle.apply (matching order hosts request)).take
        (strategy.fanoutSize world request hosts.length).toNat ⊆ matching order hosts request :=
      fun x hx => (shuffle.perm _).subset (mem_of_mem_take hx)
    rw [hplace, ← exists_usable_iff order hosts missing request _ hsub, RandomSubsetStrategy.slice, if_pos (by omega)]
    constructor
    · rintro ⟨asked, code', heq, host, hhost, huse, hmem⟩
      obtain ⟨rfl, -⟩ := Prod.mk.inj (Option.some.inj heq)
      exact ⟨host, hhost, huse, (mem_filterMissingHosts.1 hmem).1⟩
    · rintro ⟨host, hhost, huse, hmem⟩
      exact ⟨_, _, rfl, host, hhost, huse, mem_filterMissingHosts.2 ⟨hmem, huse.1⟩⟩
  simp only [hone]
  constructor
  · intro hall l' hperm
    have := hall ⟨fun l => if l = matching order hosts request then l' else l, fun l => by
      split
      · rename_i heq
        rw [heq]
        exact hperm
      · exact List.Perm.refl _⟩
    simpa using this
  · exact fun hall shuffle => hall _ (shuffle.perm _)

end

/-- Two of three hosts are asked, and one is missing. -/
theorem place_asks_usable_three :
    ∃ asked code, place (placeStrategy ()) World.agreeing Shuffle.refl
        (configure SetOrder.listed [bare "a", bare "b", bare "c"] (some {"a"})) ⟨none, none⟩ = some (asked, code) ∧
      ∃ host ∈ [bare "a", bare "b", bare "c"], Usable (some {"a"}) (⟨none, none⟩ : PlaceRequest Unit) host ∧
        host.coalesced SetOrder.listed ∈ asked :=
  (place_asks_usable_iff (placeStrategy ()) World.agreeing SetOrder.listed [bare "a", bare "b", bare "c"] (some {"a"})
    ⟨none, none⟩ (by simp [RandomSubsetStrategy.FansOut, RandomSubsetStrategy.getPlaceParams, placeStrategy])).2
    (fun _ => by decide) Shuffle.refl ⟨bare "b", by simp, by simp [bare], by simp [collectConstraints]⟩

/-- Two of three hosts are asked, the first two are missing, and the third, which is usable, is asked by nobody. -/
theorem place_asks_nobody :
    (∃ host ∈ [bare "a", bare "b", bare "c"], Usable (some {"a", "b"}) (⟨none, none⟩ : PlaceRequest Unit) host) ∧
      place (placeStrategy ()) World.agreeing Shuffle.refl
        (configure SetOrder.listed [bare "a", bare "b", bare "c"] (some {"a", "b"})) ⟨none, none⟩ =
          some ([], .systemError) := by
  refine ⟨⟨bare "c", by simp, by simp [bare], by simp [collectConstraints]⟩, ?_⟩
  decide

end Photon.LeafScheduler
