import Mathlib.Tactic.FieldSimp
import Mathlib.Tactic.Linarith
import Photon.Keyed
import Photon.Ledger
import Photon.Runs
/-!
# TicketService — the quota of a resource ticket

A resource ticket (`ResourceTicketService`) has limits and usage, each an item per key with an amount in some unit.  A
patch consumes a cost, item by item and in whatever units, or returns one.  Amounts are read as rationals.

What the items are worth is compared in normalised units: `amountOf` is the amount of a map of items as a function of
the key, nothing where there is no item.  In these terms a ticket is a `Ledger`: `Balanced` is what every run of patches
keeps.
-/
namespace Photon.CloudStore

open List
open Keyed (LinkedMap)
open Ledger (Balanced total)
open Runs (Always Meets)

/-! ## Items -/

inductive QuotaUnit where
  | gb | mb | kb | b | count
  deriving DecidableEq

structure QuotaLineItem where
  key : String
  value : ℚ
  unit : QuotaUnit
  deriving DecidableEq

def bytesPerKb : ℚ := 1024

def bytesPerMb : ℚ := bytesPerKb * 1024

def bytesPerGb : ℚ := bytesPerMb * 1024

def normalize (val : QuotaLineItem) : ℚ :=
  match val.unit with
  | .gb => val.value * bytesPerGb
  | .mb => val.value * bytesPerMb
  | .kb => val.value * bytesPerKb
  | .b => val.value
  | .count => val.value

def convert (key : String) (val : ℚ) (unit : QuotaUnit) : QuotaLineItem where
  key := key
  value := match unit with
    | .gb => val / bytesPerGb
    | .mb => val / bytesPerMb
    | .kb => val / bytesPerKb
    | .b => val
    | .count => val
  unit := unit

inductive OpCode where
  | add | sub
  deriving DecidableEq

def operate (op : OpCode) (val1 val2 : QuotaLineItem) : QuotaLineItem :=
  let normalizedResult := match op with
    | .add => normalize val1 + normalize val2
    | .sub => normalize val1 - normalize val2
  convert val1.key normalizedResult val1.unit

def add (val1 val2 : QuotaLineItem) : QuotaLineItem := operate .add val1 val2

def subtract (val1 val2 : QuotaLineItem) : QuotaLineItem := operate .sub val1 val2

def compare (val1 val2 : QuotaLineItem) : Int :=
  let normalizedResult := normalize val1 - normalize val2
  if normalizedResult < 0 then -1 else if normalizedResult = 0 then 0 else 1

variable (val1 : QuotaLineItem) (key : String) (val2 : QuotaLineItem)

@[simp] theorem normalize_convert (val : ℚ) (unit : QuotaUnit) : normalize (convert key val unit) = val := by
  cases unit <;> simp [normalize, convert, bytesPerGb, bytesPerMb, bytesPerKb]

@[simp] theorem normalize_add : normalize (add val1 val2) = normalize val1 + normalize val2 :=
  normalize_convert _ _ _

@[simp] theorem normalize_subtract :
    normalize (subtract val1 val2) = normalize val1 - normalize val2 := normalize_convert _ _ _

@[simp] theorem key_add : (add val1 val2).key = val1.key := rfl

theorem normalize_zero (unit : QuotaUnit) : normalize ⟨key, 0, unit⟩ = 0 := by
  cases unit <;> simp [normalize]

theorem normalize_nonneg {val : QuotaLineItem} (h : 0 ≤ val.value) : 0 ≤ normalize val := by
  unfold normalize
  cases val.unit <;> simp only [bytesPerGb, bytesPerMb, bytesPerKb] <;> linarith

theorem compare_neg_iff : compare val1 val2 < 0 ↔ normalize val1 < normalize val2 := by
  simp only [compare]
  split
  · rename_i h
    simpa using sub_neg.1 h
  · rename_i h
    have hle : ¬ normalize val1 < normalize val2 := fun hlt => h (sub_neg.2 hlt)
    split <;> simp [hle]

/-! ## Tickets -/

/-- A map from a key to an item, as the limits, the usage and a cost are. -/
abbrev Items : Type := LinkedMap String QuotaLineItem

/-- `ResourceTicketService.State`; a tenant's ticket has no parent. -/
structure ResourceTicket where
  parentId : Option String
  limitMap : Items
  usageMap : Items

structure QuotaErrorResponse where
  limit : QuotaLineItem
  usage : Option QuotaLineItem
  newUsage : QuotaLineItem

def computeUsage : Items → List (String × QuotaLineItem) → Items × List QuotaLineItem
  | usageMap, [] => (usageMap, [])
  | usageMap, (key, cost) :: rest =>
    let (usageMap, current) := match usageMap.get key with
      | some usage => (usageMap, usage)
      | none => (usageMap.put key ⟨key, 0, cost.unit⟩, ⟨key, 0, cost.unit⟩)
    let computedUsage := add ⟨key, current.value, current.unit⟩ cost
    let (usageMap, newUsage) := computeUsage usageMap rest
    (usageMap, computedUsage :: newUsage)

def overLimit (limitMap : Items) (usageMap : Items) (newUsage : List QuotaLineItem) :
    Option QuotaErrorResponse :=
  newUsage.findSome? (fun qli =>
    match limitMap.get qli.key with
    | none => none
    | some limit =>
      if compare limit qli < 0 then some ⟨limit, usageMap.get qli.key, qli⟩ else none)

def commitUsage (usageMap : Items) (newUsage : List QuotaLineItem) : Items :=
  newUsage.foldl (fun usageMap qli => usageMap.put qli.key qli) usageMap

/-- `USAGE_CONSUME`: the ticket, and the error where the patch is rejected.  The entries the first loop makes stay. -/
def ResourceTicket.consumeQuota (ticket : ResourceTicket) (cost : Items) : ResourceTicket × Option QuotaErrorResponse :=
  let (usageMap, newUsage) := computeUsage ticket.usageMap cost.entries
  match overLimit ticket.limitMap usageMap newUsage with
  | some error => ({ ticket with usageMap := usageMap }, some error)
  | none => ({ ticket with usageMap := commitUsage usageMap newUsage }, none)

def subtractUsage : Items → List (String × QuotaLineItem) → Option Items
  | usageMap, [] => some usageMap
  | usageMap, (key, cost) :: rest =>
    match usageMap.get key with
    | some usage => subtractUsage (usageMap.put key (subtract usage cost)) rest
    | none => none

def ResourceTicket.returnUsage (ticket : ResourceTicket) (cost : Items) : Option ResourceTicket :=
  (subtractUsage ticket.usageMap cost.entries).map (fun usageMap => { ticket with usageMap := usageMap })

/-! ## Amounts -/

def amountOf (items : Items) (key : String) : ℚ := ((items.get key).map normalize).getD 0

def ResourceTicket.usage (ticket : ResourceTicket) : String → ℚ := amountOf ticket.usageMap

def ResourceTicket.limitOf (ticket : ResourceTicket) (key : String) : Option ℚ :=
    (ticket.limitMap.get key).map normalize

/-- Every item passes the check of `QuotaLineItem.value` (`@Min(0)`). -/
def NonNeg (items : Items) : Prop := ∀ key item, items.get key = some item → 0 ≤ item.value

theorem NonNeg.amountOf_nonneg {items : Items} (h : NonNeg items) (key : String) : 0 ≤ amountOf items key := by
  unfold amountOf
  cases hget : items.get key with
  | none => simp
  | some item => exact normalize_nonneg (h key item hget)

theorem amountOf_put (items : Items) (key : String) (item : QuotaLineItem) (k : String) :
    amountOf (items.put key item) k = if k = key then normalize item else amountOf items k := by
  unfold amountOf
  rw [LinkedMap.get_put]
  split <;> rfl

def amountIn (entries : List (String × QuotaLineItem)) (key : String) : ℚ :=
  ((entries.find? (fun e => decide (e.1 = key))).map (fun e => normalize e.2)).getD 0

theorem amountIn_entries (cost : Items) (key : String) : amountIn cost.entries key = amountOf cost key := by
  have hfind : cost.entries.find? (fun e => decide (e.1 = key)) = (cost.get key).map (fun q => (key, q)) :=
    cost.find_eq key
  unfold amountIn amountOf
  rw [hfind]
  cases cost.get key <;> rfl

theorem amountIn_cons (cost : QuotaLineItem) (rest : List (String × QuotaLineItem)) (k : String) :
    amountIn ((key, cost) :: rest) k = if key = k then normalize cost else amountIn rest k := by
  unfold amountIn
  rw [find?_cons]
  by_cases hk : key = k <;> simp [hk]

theorem amountIn_of_not_mem {entries : List (String × QuotaLineItem)} {k : String} (h : k ∉ entries.map Prod.fst) :
    amountIn entries k = 0 := by
  have hnone : entries.find? (fun e => decide (e.1 = k)) = none := by
    rw [find?_eq_none]
    intro e he heq
    exact h (mem_map.2 ⟨e, he, of_decide_eq_true heq⟩)
  simp [amountIn, hnone]

/-! ## Consuming -/

def worth (qli : QuotaLineItem) : String × ℚ := (qli.key, normalize qli)

/-- **The first loop** changes no amount, makes an entry for every key of the cost and computes the new amounts. -/
theorem computeUsage_spec : ∀ (entries : List (String × QuotaLineItem)) (usageMap : Items),
    let result := computeUsage usageMap entries
    (∀ k, amountOf result.1 k = amountOf usageMap k) ∧
    (∀ k, (result.1.get k).isSome = true ↔ (usageMap.get k).isSome = true ∨ k ∈ entries.map Prod.fst) ∧
    result.2.map worth = entries.map (fun e => (e.1, amountOf usageMap e.1 + normalize e.2))
  | [], usageMap => by simp [computeUsage]
  | (key, cost) :: rest, usageMap => by
    cases hkey : usageMap.get key with
    | some usage =>
      obtain ⟨hamount, hsome, hnew⟩ := computeUsage_spec rest usageMap
      simp only [computeUsage, hkey]
      refine ⟨hamount, fun k => ?_, ?_⟩
      · rw [hsome, map_cons, mem_cons]
        by_cases hk : k = key
        · simp [hk, hkey]
        · simp [hk]
      · have hworth : normalize ⟨key, usage.value, usage.unit⟩ = amountOf usageMap key := by
          simp [amountOf, hkey, normalize]
        rw [map_cons, map_cons, hnew, worth, normalize_add, key_add, hworth]
    | none =>
      obtain ⟨hamount, hsome, hnew⟩ := computeUsage_spec rest (usageMap.put key ⟨key, 0, cost.unit⟩)
      have hsame : ∀ k, amountOf (usageMap.put key ⟨key, 0, cost.unit⟩) k = amountOf usageMap k := by
        intro k
        rw [amountOf_put, normalize_zero]
        split
        · rename_i hk
          simp [hk, amountOf, hkey]
        · rfl
      simp only [hsame] at hamount hnew
      simp only [computeUsage, hkey]
      refine ⟨hamount, fun k => ?_, ?_⟩
      · rw [hsome, map_cons, mem_cons, LinkedMap.get_put]
        by_cases hk : k = key
        · simp [hk]
        · simp [hk]
      · have hworth : amountOf usageMap key = 0 := by simp [amountOf, hkey]
        rw [map_cons, map_cons, hnew, worth, normalize_add, key_add, normalize_zero, hworth]

theorem overLimit_isSome_iff (limitMap : Items) (usageMap : Items) (newUsage : List QuotaLineItem) :
    (overLimit limitMap usageMap newUsage).isSome = true ↔ ∃ w ∈ newUsage.map worth, ∃ limit,
      limitMap.get w.1 = some limit ∧ normalize limit < w.2 := by
  unfold overLimit
  rw [findSome?_isSome_iff]
  simp only [mem_map, exists_exists_and_eq_and, worth]
  refine exists_congr (fun qli => and_congr_right (fun _ => ?_))
  cases limitMap.get qli.key with
  | none => simp
  | some limit =>
    simp only [Option.some.injEq, exists_eq_left', ← compare_neg_iff]
    split <;> simp_all

theorem commitUsage_spec (usageMap : Items) (newUsage : List QuotaLineItem) (k : String) :
    (k ∉ (newUsage.map worth).map Prod.fst ∧ (commitUsage usageMap newUsage).get k = usageMap.get k) ∨
      ∃ qli, (commitUsage usageMap newUsage).get k = some qli ∧ (k, normalize qli) ∈ newUsage.map worth := by
  have hputAll : commitUsage usageMap newUsage = usageMap.putAll (newUsage.map (fun qli => (qli.key, qli))) := by
    unfold commitUsage LinkedMap.putAll
    rw [foldl_map]
  have hkeys : (newUsage.map (fun qli => (qli.key, qli))).map Prod.fst = (newUsage.map worth).map Prod.fst := by
    simp [worth, Function.comp_def]
  rw [hputAll, ← hkeys]
  by_cases hk : k ∈ (newUsage.map (fun qli => (qli.key, qli))).map Prod.fst
  · obtain ⟨qli, hqli, hget⟩ := LinkedMap.get_putAll_of_mem _ usageMap hk
    refine .inr ⟨qli, hget, ?_⟩
    obtain ⟨q, hq, heq⟩ := mem_map.1 hqli
    obtain ⟨rfl, rfl⟩ := Prod.mk.inj heq
    exact mem_map_of_mem hq
  · exact .inl ⟨hk, LinkedMap.get_putAll_of_not_mem k _ usageMap hk⟩

namespace ResourceTicket

variable (ticket : ResourceTicket) (cost : Items)

def Exceeds : Prop := ∃ key limit, ticket.limitOf key = some limit ∧ limit < ticket.usage key + amountOf cost key

def Covers : Prop := ∀ key ∈ cost.keys, (ticket.usageMap.get key).isSome = true

theorem amountOf_of_not_mem {key : String} (h : key ∉ cost.keys) : amountOf cost key = 0 := by
  unfold amountOf
  cases hget : cost.get key with
  | none => rfl
  | some q => exact absurd (LinkedMap.mem_keys_iff.2 ⟨q, hget⟩) h

theorem amountOf_of_mem {e : String × QuotaLineItem} (h : e ∈ cost.entries) :
    amountOf cost e.1 = normalize e.2 := by
  have hget := LinkedMap.mem_entries_iff.1 h
  simp [amountOf, hget]

/-- **A consume is rejected exactly if some key of its cost would exceed its limit.** -/
theorem consumeQuota_rejected_iff : (ticket.consumeQuota cost).2.isSome = true ↔
    ∃ key ∈ cost.keys, ∃ limit, ticket.limitOf key = some limit ∧ limit < ticket.usage key + amountOf cost key := by
  obtain ⟨_, _, hnew⟩ := computeUsage_spec cost.entries ticket.usageMap
  have hover := overLimit_isSome_iff ticket.limitMap (computeUsage ticket.usageMap cost.entries).1
    (computeUsage ticket.usageMap cost.entries).2
  rw [hnew] at hover
  have hresult : (ticket.consumeQuota cost).2 = overLimit ticket.limitMap (computeUsage ticket.usageMap cost.entries).1
      (computeUsage ticket.usageMap cost.entries).2 := by
    unfold consumeQuota
    simp only
    split <;> simp_all
  rw [hresult, hover]
  simp only [mem_map, exists_exists_and_eq_and, limitOf, Option.map_eq_some_iff]
  constructor
  · rintro ⟨e, he, limit, hlimit, hlt⟩
    refine ⟨e.1, mem_map_of_mem he, limit, hlimit, ?_⟩
    rwa [amountOf_of_mem cost he]
  · rintro ⟨key, hkey, limit, hlimit, hlt⟩
    obtain ⟨e, he, rfl⟩ := mem_map.1 hkey
    refine ⟨e, he, limit, hlimit, ?_⟩
    rwa [amountOf_of_mem cost he] at hlt

section

variable (hwithin : ∀ key limit, ticket.limitOf key = some limit → ticket.usage key ≤ limit)
include hwithin

/-- **With the usage within the limits, it is rejected exactly if some limited key would exceed its limit**: no other
key than those of the cost can come to. -/
theorem consumeQuota_rejected_iff_exceeds :
    (ticket.consumeQuota cost).2.isSome = true ↔ ticket.Exceeds cost := by
  rw [consumeQuota_rejected_iff]
  constructor
  · intro hkey
    obtain ⟨key, _, limit, hlimit, hlt⟩ := hkey
    exact ⟨key, limit, hlimit, hlt⟩
  · intro hkey
    obtain ⟨key, limit, hlimit, hlt⟩ := hkey
    refine ⟨key, ?_, limit, hlimit, hlt⟩
    by_contra hnot
    rw [amountOf_of_not_mem cost hnot, add_zero] at hlt
    exact absurd (hwithin key limit hlimit) (not_le.2 hlt)

theorem fits_of_accepted
    (h : (ticket.consumeQuota cost).2 = none) (key : String) (limit : ℚ) (hlimit : ticket.limitOf key = some limit) :
    ticket.usage key + amountOf cost key ≤ limit := by
  have hnot : ¬ ticket.Exceeds cost := by
    rw [← consumeQuota_rejected_iff_exceeds ticket cost hwithin, h]
    simp
  exact not_lt.1 (fun hlt => hnot ⟨key, limit, hlimit, hlt⟩)

end

/-- **A rejected consume changes no amount and no limit**, and takes no entry away. -/
theorem consumeQuota_rejected (h : (ticket.consumeQuota cost).2.isSome = true) :
    (∀ key, (ticket.consumeQuota cost).1.usage key = ticket.usage key) ∧
    (ticket.consumeQuota cost).1.limitMap = ticket.limitMap ∧
    ∀ key, (ticket.usageMap.get key).isSome = true → ((ticket.consumeQuota cost).1.usageMap.get key).isSome = true := by
  obtain ⟨hamount, hsome, _⟩ := computeUsage_spec cost.entries ticket.usageMap
  unfold consumeQuota at h ⊢
  simp only at h ⊢
  split
  · exact ⟨hamount, rfl, fun key hkey => (hsome key).2 (.inl hkey)⟩
  · rename_i hnone
    simp [hnone] at h

/-- **An accepted consume adds its cost**, leaves the limits alone and has an entry for each of its keys afterwards. -/
theorem consumeQuota_accepted (h : (ticket.consumeQuota cost).2 = none) :
    (∀ key, (ticket.consumeQuota cost).1.usage key = ticket.usage key + amountOf cost key) ∧
    (ticket.consumeQuota cost).1.limitMap = ticket.limitMap ∧
    ∀ key, (ticket.usageMap.get key).isSome = true ∨ key ∈ cost.keys →
      ((ticket.consumeQuota cost).1.usageMap.get key).isSome = true := by
  obtain ⟨hamount, hsome, hnew⟩ := computeUsage_spec cost.entries ticket.usageMap
  unfold consumeQuota at h ⊢
  simp only at h ⊢
  split
  · rename_i error herror
    simp [herror] at h
  · have hcommit := commitUsage_spec (computeUsage ticket.usageMap cost.entries).1
      (computeUsage ticket.usageMap cost.entries).2
    rw [hnew] at hcommit
    refine ⟨fun key => ?_, rfl, fun key hkey => ?_⟩
    · rcases hcommit key with ⟨hnot, hget⟩ | ⟨qli, hget, hmem⟩
      · have hkey : key ∉ cost.keys := by simpa [LinkedMap.keys, Function.comp_def] using hnot
        rw [amountOf_of_not_mem cost hkey, add_zero]
        refine Eq.trans ?_ (hamount key)
        simp only [usage, amountOf, hget]
      · obtain ⟨e, he, heq⟩ := mem_map.1 hmem
        obtain ⟨rfl, hworth⟩ := Prod.mk.inj heq
        rw [amountOf_of_mem cost he]
        simp only [usage, amountOf, hget, Option.map_some, Option.getD_some]
        exact hworth.symm
    · rcases hcommit key with ⟨_, hget⟩ | ⟨qli, hget, _⟩
      · rw [hget]
        exact (hsome key).2 hkey
      · rw [hget]
        rfl

end ResourceTicket

/-! ## Returning -/

/-- **The loop of a return** succeeds where there is an entry for every key, and takes the amounts off. -/
theorem subtractUsage_spec :
    ∀ (entries : List (String × QuotaLineItem)) (usageMap : Items), (entries.map Prod.fst).Nodup →
    (∀ key ∈ entries.map Prod.fst, (usageMap.get key).isSome = true) →
    ∃ usageMap', subtractUsage usageMap entries = some usageMap' ∧
      (∀ k, amountOf usageMap' k = amountOf usageMap k - amountIn entries k) ∧
      ∀ k, (usageMap.get k).isSome = true → (usageMap'.get k).isSome = true
  | [], usageMap, _, _ => ⟨usageMap, rfl, by simp [amountIn], fun _ h => h⟩
  | (key, cost) :: rest, usageMap, hnodup, hall => by
    rw [map_cons, nodup_cons] at hnodup
    obtain ⟨usage, husage⟩ := Option.isSome_iff_exists.1 (hall key (by simp))
    have hput : ∀ k, (usageMap.get k).isSome = true →
        ((usageMap.put key (subtract usage cost)).get k).isSome = true := by
      intro k hk
      rw [LinkedMap.get_put]
      split <;> simp [hk]
    obtain ⟨usageMap', hrest, hamount, hsome⟩ := subtractUsage_spec rest
      (usageMap.put key (subtract usage cost)) hnodup.2
      (fun k hk => hput k (hall k (by simp only [map_cons, mem_cons, hk, or_true])))
    refine ⟨usageMap', by simp only [subtractUsage, husage, hrest], fun k => ?_, fun k hk => hsome k (hput k hk)⟩
    rw [hamount, amountOf_put, amountIn_cons]
    by_cases hk : k = key
    · subst hk
      rw [amountIn_of_not_mem hnodup.1]
      simp [amountOf, husage]
    · rw [if_neg hk, if_neg (Ne.symm hk)]

/-- **A return of a cost whose keys have entries succeeds and takes it off.** -/
theorem ResourceTicket.returnUsage_spec (ticket : ResourceTicket) (cost : Items) (h : ticket.Covers cost) :
    ∃ ticket', ticket.returnUsage cost = some ticket' ∧
      (∀ key, ticket'.usage key = ticket.usage key - amountOf cost key) ∧ ticket'.limitMap = ticket.limitMap ∧
      ∀ key, (ticket.usageMap.get key).isSome = true → (ticket'.usageMap.get key).isSome = true := by
  obtain ⟨usageMap', hsub, hamount, hsome⟩ := subtractUsage_spec cost.entries ticket.usageMap cost.nodup_keys h
  refine ⟨{ ticket with usageMap := usageMap' }, by simp [returnUsage, hsub], fun key => ?_, rfl, hsome⟩
  rw [← amountIn_entries]
  exact hamount key

/-! ## Runs of patches -/

structure Charge where
  cost : Items
  nonneg : NonNeg cost

def Charge.amount (charge : Charge) : String → ℚ := amountOf charge.cost

inductive Patch where
  | usageConsume (charge : Charge)
  | usageReturn (charge : Charge)

structure Account where
  ticket : ResourceTicket
  accepted : List Charge
  returned : List Charge

structure NewTicket extends ResourceTicket where
  limits_nonneg : NonNeg limitMap
  unused : ∀ key, toResourceTicket.usage key = 0

namespace Account

def start (ticket : NewTicket) : Account := ⟨ticket.toResourceTicket, [], []⟩

def handlePatch (account : Account) : Patch → Account
  | .usageConsume charge =>
    match account.ticket.consumeQuota charge.cost with
    | (ticket, none) => { account with ticket := ticket, accepted := charge :: account.accepted }
    | (ticket, some _) => { account with ticket := ticket }
  | .usageReturn charge =>
    match account.ticket.returnUsage charge.cost with
    | some ticket => { account with ticket := ticket, returned := charge :: account.returned }
    | none => account

theorem handlePatch_of_accepted {account : Account} {charge : Charge}
    (h : (account.ticket.consumeQuota charge.cost).2 = none) : account.handlePatch (.usageConsume charge) =
      ⟨(account.ticket.consumeQuota charge.cost).1, charge :: account.accepted, account.returned⟩ := by
  simp only [handlePatch]
  split
  · rename_i heq
    rw [heq]
  · rename_i heq
    rw [heq] at h
    cases h

theorem handlePatch_of_rejected {account : Account} {charge : Charge}
    (h : (account.ticket.consumeQuota charge.cost).2.isSome = true) : account.handlePatch (.usageConsume charge) =
      ⟨(account.ticket.consumeQuota charge.cost).1, account.accepted, account.returned⟩ := by
  simp only [handlePatch]
  split
  · rename_i heq
    rw [heq] at h
    cases h
  · rename_i heq
    rw [heq]

/-- A return repeats a consume that was accepted and has not been returned yet. -/
def Repeats (account : Account) : Patch → Prop
  | .usageConsume _ => True
  | .usageReturn charge => (charge :: account.returned).Subperm account.accepted

/-- What every run keeps: the ticket is a balanced ledger, and has an entry for whatever may be returned. -/
structure Inv (limitMap : Items) (account : Account) : Prop where
  limits : account.ticket.limitMap = limitMap
  balanced : Balanced account.ticket.limitOf account.ticket.usage (account.accepted.map Charge.amount)
    (account.returned.map Charge.amount)
  covers : ∀ charge ∈ account.accepted, account.ticket.Covers charge.cost

theorem inv_start (ticket : NewTicket) : Inv ticket.limitMap (start ticket) where
  limits := rfl
  balanced := by
    refine Balanced.start ticket.unused (fun key limit hlimit => ?_)
    obtain ⟨item, hitem, rfl⟩ := Option.map_eq_some_iff.1 hlimit
    exact normalize_nonneg (ticket.limits_nonneg key item hitem)
  covers charge hcharge := by cases hcharge

theorem limitOf_congr {ticket ticket' : ResourceTicket} (h : ticket'.limitMap = ticket.limitMap) :
    ticket'.limitOf = ticket.limitOf := by
  funext key
  simp only [ResourceTicket.limitOf, h]

variable {limitMap : Items} {account : Account}

theorem Inv.handlePatch (h : Inv limitMap account) (patch : Patch) (hrepeats : account.Repeats patch) :
    Inv limitMap (account.handlePatch patch) := by
  cases patch with
  | usageConsume charge =>
    cases hresult : (account.ticket.consumeQuota charge.cost).2 with
    | none =>
      obtain ⟨hamount, hlimits, hsome⟩ := account.ticket.consumeQuota_accepted charge.cost hresult
      have hfits := account.ticket.fits_of_accepted charge.cost h.balanced.within hresult
      rw [handlePatch_of_accepted hresult]
      refine ⟨hlimits.trans h.limits, ?_, ?_⟩
      · rw [limitOf_congr hlimits]
        exact h.balanced.charge charge.nonneg.amountOf_nonneg hfits hamount
      · rw [forall_mem_cons]
        exact ⟨fun key hkey => hsome key (.inr hkey),
          fun c hc key hkey => hsome key (.inl (h.covers c hc key hkey))⟩
    | some error =>
      have hrejected : (account.ticket.consumeQuota charge.cost).2.isSome = true := by rw [hresult]; rfl
      obtain ⟨hamount, hlimits, hsome⟩ := account.ticket.consumeQuota_rejected charge.cost hrejected
      rw [handlePatch_of_rejected hrejected]
      refine ⟨hlimits.trans h.limits, ?_, fun c hc key hkey => hsome key (h.covers c hc key hkey)⟩
      rw [limitOf_congr hlimits]
      exact h.balanced.congr hamount
  | usageReturn charge =>
    have hcovers := h.covers charge (hrepeats.subset mem_cons_self)
    obtain ⟨ticket, hreturn, hamount, hlimits, hsome⟩ := account.ticket.returnUsage_spec charge.cost hcovers
    simp only [Account.handlePatch, hreturn]
    refine ⟨hlimits.trans h.limits, ?_, fun c hc key hkey => hsome key (h.covers c hc key hkey)⟩
    rw [limitOf_congr hlimits]
    exact h.balanced.refund (Ledger.subperm_map Charge.amount hrepeats) hamount

structure Exact (limitMap : Items) (account : Account) : Prop where
  usage : ∀ key, account.ticket.usage key =
    total (account.accepted.map Charge.amount) key - total (account.returned.map Charge.amount) key
  nonneg : ∀ key, 0 ≤ account.ticket.usage key
  within : ∀ key limit, account.ticket.limitOf key = some limit → account.ticket.usage key ≤ limit
  limits : account.ticket.limitMap = limitMap
  rejects : ∀ cost, (account.ticket.consumeQuota cost).2.isSome = true ↔ account.ticket.Exceeds cost
  unchanged : ∀ cost, (account.ticket.consumeQuota cost).2.isSome = true →
    (∀ key, (account.ticket.consumeQuota cost).1.usage key = account.ticket.usage key) ∧
      (account.ticket.consumeQuota cost).1.limitMap = account.ticket.limitMap
  returns : ∀ charge, account.Repeats (.usageReturn charge) → (account.ticket.returnUsage charge.cost).isSome = true

theorem Inv.exact (h : Inv limitMap account) : Exact limitMap account where
  usage := h.balanced.exact
  nonneg := h.balanced.usage_nonneg
  within := h.balanced.within
  limits := h.limits
  rejects cost := account.ticket.consumeQuota_rejected_iff_exceeds cost h.balanced.within
  unchanged cost hrejected := by
    obtain ⟨hamount, hlimits, _⟩ := account.ticket.consumeQuota_rejected cost hrejected
    exact ⟨hamount, hlimits⟩
  returns charge hrepeats := by
    have hcovers := h.covers charge (hrepeats.subset mem_cons_self)
    obtain ⟨ticket, hreturn, _⟩ := account.ticket.returnUsage_spec charge.cost hcovers
    rw [hreturn]
    rfl

end Account

end Photon.CloudStore
