import Photon.TicketBackend
/-!
# TicketRuns — the quota of a tenant is conserved

What the interleaved calls keep is in two parts.  `Accounts` is about the tickets: the usage of the tenant's ticket is
what the charged project tickets are limited to, with what was charged directly, and within the limits.  `Owners` is
about the calls: a project ticket that is not charged yet belongs to exactly one `subdivide` in progress, and one whose
quota is returned to a deletion of its project (`Discarded`).  When no call is in progress there are none, and all
together say that the quota is conserved.
-/
namespace Photon.ApiFrontend

open Keyed (LinkedMap)
open CloudStore (QuotaLineItem Items ResourceTicket Charge amountOf amountOf_put normalize_zero normalize_nonneg
  NonNeg)
open Ledger (total)
open Runs (Always Meets)
open Keyed.LinkedMap (get_of_get_remove get_put get_putAll_of_mem get_put_cases get_remove mem_keys_iff mem_values_iff)

/-! ## Maps of items -/

def WellKeyed (items : Items) : Prop := ∀ key qli, items.get key = some qli → qli.key = key

variable {limits : List QuotaLineItem}

theorem mem_of_get_quotaCost {key : String} {qli : QuotaLineItem}
    (h : (quotaCost limits).get key = some qli) : qli ∈ limits ∧ qli.key = key := by
  by_cases hkey : key ∈ (limits.map (fun qli => (qli.key, qli))).map Prod.fst
  · obtain ⟨q, hq, hget⟩ := get_putAll_of_mem _ LinkedMap.empty hkey
    cases hget.symm.trans h
    obtain ⟨x, hx, heq⟩ := List.mem_map.1 hq
    obtain ⟨rfl, rfl⟩ := Prod.mk.inj heq
    exact ⟨hx, rfl⟩
  · rw [quotaCost, LinkedMap.get_putAll_of_not_mem key _ _ hkey] at h
    cases h

theorem wellKeyed_quotaCost (limits : List QuotaLineItem) : WellKeyed (quotaCost limits) :=
  fun _ _ h => (mem_of_get_quotaCost h).2

theorem nonNeg_quotaCost (h : ∀ qli ∈ limits, 0 ≤ qli.value) : NonNeg (quotaCost limits) :=
  fun _ qli hget => h qli (mem_of_get_quotaCost hget).1

theorem get_quotaCost_values {items : Items} (h : WellKeyed items) (key : String) :
    (quotaCost items.values).get key = items.get key := by
  cases hget : items.get key with
  | some qli =>
    have hmem : key ∈ (items.values.map (fun q => (q.key, q))).map Prod.fst := by
      simp only [List.map_map, List.mem_map, Function.comp_apply]
      exact ⟨qli, mem_values_iff.2 ⟨key, hget⟩, h key qli hget⟩
    obtain ⟨q, hq, hput⟩ := get_putAll_of_mem _ LinkedMap.empty hmem
    obtain ⟨x, hx, heq⟩ := List.mem_map.1 hq
    obtain ⟨rfl, rfl⟩ := Prod.mk.inj heq
    obtain ⟨k, hk⟩ := mem_values_iff.1 hx
    obtain rfl := h k x hk
    rw [hk] at hget
    cases hget
    exact hput
  | none =>
    cases hcost : (quotaCost items.values).get key with
    | none => rfl
    | some qli =>
      obtain ⟨hmem, hkey⟩ := mem_of_get_quotaCost hcost
      obtain ⟨k, hk⟩ := mem_values_iff.1 hmem
      rw [← (h k qli hk).symm.trans hkey, hk] at hget
      cases hget

theorem nonneg_shareOf {ticket : ResourceTicket} (h : NonNeg ticket.limitMap) {percent : ℚ} (hpercent : 0 ≤ percent) :
    ∀ qli ∈ shareOf ticket percent, 0 ≤ qli.value := by
  intro qli hqli
  obtain ⟨e, he, rfl⟩ := List.mem_map.1 hqli
  have hget := LinkedMap.mem_entries_iff.1 he
  obtain ⟨k, hk⟩ := mem_values_iff.1 (mem_of_get_quotaCost hget).1
  exact mul_nonneg (h k e.2 hk) (div_nonneg hpercent (by norm_num))

theorem amountOf_congr {items items' : Items} (h : ∀ key, items.get key = items'.get key) (key : String) :
    amountOf items key = amountOf items' key := by
  simp only [amountOf, h key]

/-! ## The books -/

def Project.share (p : Project) (key : String) : ℚ := if p.quota = .charged then amountOf p.ticket.limitMap key else 0

variable {p : Project}

theorem Project.share_of_ne (h : p.quota ≠ .charged) (key : String) : p.share key = 0 := if_neg h

/-- What has been charged directly and not given back. -/
def directUse (accepted returned : List Charge) (key : String) : ℚ :=
  total (accepted.map Charge.amount) key - total (returned.map Charge.amount) key

/-- The tenant's ticket accounts for the charged projects and for what was charged directly. -/
structure Accounts (ticket : ResourceTicket) (projects : LinkedMap Nat Project) (accepted returned : List Charge) :
    Prop where
  exact : ∀ key, ticket.usage key = projects.sum (fun p => p.share key) + directUse accepted returned key
  within : ∀ key limit, ticket.limitOf key = some limit → ticket.usage key ≤ limit
  nonneg : NonNeg ticket.limitMap
  coversProject : ∀ id p, projects.get id = some p → p.quota = .charged → ticket.Covers p.ticket.limitMap
  coversDirect : ∀ charge ∈ accepted, ticket.Covers charge.cost

theorem usage_newTicket (parentId : Option String) (limits : List QuotaLineItem) (key : String) :
    (newTicket parentId limits).usage key = 0 := by
  have hfold : ∀ (limits : List QuotaLineItem) (usageMap : Items), (∀ key, amountOf usageMap key = 0) → ∀ key,
      amountOf (limits.foldl (fun usageMap qli => if (usageMap.get qli.key).isSome then usageMap
        else usageMap.put qli.key ⟨qli.key, 0, qli.unit⟩) usageMap) key = 0 := by
    intro limits
    induction limits with
    | nil => exact fun usageMap h => h
    | cons qli limits ih =>
      intro usageMap h
      refine ih _ (fun k => ?_)
      dsimp only
      split
      · exact h k
      · rw [amountOf_put]
        split
        · exact normalize_zero _ _
        · exact h k
  exact hfold limits .empty (fun _ => rfl) key

namespace Accounts

theorem newTicket (parentId : Option String) (spec : TicketSpec) :
    Accounts (newTicket parentId spec.limits) .empty [] [] where
  exact key := by
    rw [usage_newTicket]
    simp [directUse]
  within key limit hlimit := by
    obtain ⟨item, hitem, rfl⟩ := Option.map_eq_some_iff.1 hlimit
    rw [usage_newTicket]
    exact normalize_nonneg (nonNeg_quotaCost spec.nonneg key item hitem)
  nonneg := nonNeg_quotaCost spec.nonneg
  coversProject _ _ hp := nomatch hp
  coversDirect _ hcharge := nomatch hcharge

variable {ticket ticket' : ResourceTicket} {projects projects' : LinkedMap Nat Project}
  {accepted accepted' returned returned' : List Charge}

variable {cost : Items}

theorem covers_mono (hsome : ∀ key, (ticket.usageMap.get key).isSome = true →
    (ticket'.usageMap.get key).isSome = true) (h : ticket.Covers cost) : ticket'.Covers cost :=
  fun key hkey => hsome key (h key hkey)

theorem update (h : Accounts ticket projects accepted returned) (hlimits : ticket'.limitMap = ticket.limitMap)
    (hsome : ∀ key, (ticket.usageMap.get key).isSome = true → (ticket'.usageMap.get key).isSome = true)
    (hexact : ∀ key, ticket'.usage key = projects'.sum (fun p => p.share key) + directUse accepted' returned' key)
    (hwithin : ∀ key limit, ticket.limitOf key = some limit → ticket'.usage key ≤ limit)
    (hprojects : ∀ id p, projects'.get id = some p → p.quota = .charged →
      (∃ q, projects.get id = some q ∧ q.quota = .charged ∧ q.ticket = p.ticket) ∨ ticket'.Covers p.ticket.limitMap)
    (hdirect : ∀ charge ∈ accepted', charge ∈ accepted ∨ ticket'.Covers charge.cost) :
    Accounts ticket' projects' accepted' returned' where
  exact := hexact
  within key limit hlimit := hwithin key limit (by simpa only [ResourceTicket.limitOf, hlimits] using hlimit)
  nonneg := hlimits ▸ h.nonneg
  coversProject id p hp hcharged := by
    rcases hprojects id p hp hcharged with ⟨q, hq, hqc, heq⟩ | hcovers
    · exact heq ▸ covers_mono hsome (h.coversProject id q hq hqc)
    · exact hcovers
  coversDirect charge hcharge := by
    rcases hdirect charge hcharge with hmem | hcovers
    · exact covers_mono hsome (h.coversDirect charge hmem)
    · exact hcovers

theorem rejected (h : Accounts ticket projects accepted returned)
    (hrejected : (ticket.consumeQuota cost).2.isSome = true) :
    Accounts (ticket.consumeQuota cost).1 projects accepted returned := by
  obtain ⟨hamount, hlimits, hsome⟩ := ticket.consumeQuota_rejected cost hrejected
  refine h.update hlimits hsome (fun key => (hamount key).trans (h.exact key)) ?_
    (fun id p hp hcharged => .inl ⟨p, hp, hcharged, rfl⟩) (fun _ => .inl)
  intro key limit hlimit
  rw [hamount]
  exact h.within key limit hlimit

variable {id : Nat} {p : Project}

variable (h : Accounts ticket projects accepted returned)
include h

theorem chargeProject (hp : projects.get id = some p) (hpending : p.quota = .pending)
    (haccepted : (ticket.consumeQuota p.ticket.limitMap).2 = none) :
    Accounts (ticket.consumeQuota p.ticket.limitMap).1 (projects.put id { p with quota := .charged }) accepted
      returned := by
  obtain ⟨hamount, hlimits, hsome⟩ := ticket.consumeQuota_accepted p.ticket.limitMap haccepted
  refine h.update hlimits (fun key hkey => hsome key (.inl hkey)) (fun key => ?_) ?_ ?_ (fun _ => .inl)
  · have hsum := projects.sum_put_of_present id p { p with quota := .charged } (fun p => p.share key) hp
    have hold : p.share key = 0 := p.share_of_ne (by rw [hpending]; decide) key
    have hnew : Project.share { p with quota := .charged } key = amountOf p.ticket.limitMap key := if_pos rfl
    rw [hamount, h.exact]
    linarith
  · intro key limit hlimit
    rw [hamount]
    exact ticket.fits_of_accepted p.ticket.limitMap h.within haccepted key limit hlimit
  · intro j q hq hcharged
    rcases get_put_cases hq with ⟨-, rfl⟩ | ⟨-, hq⟩
    · exact .inr (fun key hkey => hsome key (.inr hkey))
    · exact .inl ⟨q, hq, hcharged, rfl⟩

theorem chargeDirect {charge : Charge} (haccepted : (ticket.consumeQuota charge.cost).2 = none) :
    Accounts (ticket.consumeQuota charge.cost).1 projects (charge :: accepted) returned := by
  obtain ⟨hamount, hlimits, hsome⟩ := ticket.consumeQuota_accepted charge.cost haccepted
  refine h.update hlimits (fun key hkey => hsome key (.inl hkey)) (fun key => ?_) ?_
    (fun id p hp hcharged => .inl ⟨p, hp, hcharged, rfl⟩) ?_
  · rw [hamount, h.exact]
    simp only [directUse, List.map_cons, Ledger.total_cons, Charge.amount]
    linarith
  · intro key limit hlimit
    rw [hamount]
    exact ticket.fits_of_accepted charge.cost h.within haccepted key limit hlimit
  · intro c hc
    rcases List.mem_cons.1 hc with rfl | hc
    · exact .inr (fun key hkey => hsome key (.inr hkey))
    · exact .inl hc

theorem returnProject (hp : projects.get id = some p) (hcharged : p.quota = .charged)
    (hlimits : NonNeg p.ticket.limitMap)
    (hcost : ∀ key, cost.get key = p.ticket.limitMap.get key) : ∃ ticket', ticket.returnUsage cost = some ticket' ∧
      Accounts ticket' (projects.put id { p with quota := .returned }) accepted returned := by
  have hcovers : ticket.Covers cost := by
    intro key hkey
    obtain ⟨qli, hqli⟩ := mem_keys_iff.1 hkey
    exact h.coversProject id p hp hcharged key (mem_keys_iff.2 ⟨qli, (hcost key).symm.trans hqli⟩)
  obtain ⟨ticket', hreturn, hamount, hsame, hsome⟩ := ticket.returnUsage_spec cost hcovers
  have hshare : ∀ key, p.share key = amountOf cost key := fun key => (if_pos hcharged).trans
    (amountOf_congr hcost key).symm
  refine ⟨ticket', hreturn, h.update hsame hsome (fun key => ?_) ?_ ?_ (fun _ => .inl)⟩
  · have hsum := projects.sum_put_of_present id p { p with quota := .returned } (fun p => p.share key) hp
    have hnew : Project.share { p with quota := .returned } key = 0 := Project.share_of_ne (by simp) key
    rw [hamount, h.exact, ← hshare]
    linarith
  · intro key limit hlimit
    have hpos : 0 ≤ amountOf cost key := by
      rw [amountOf_congr hcost]
      exact hlimits.amountOf_nonneg key
    rw [hamount]
    linarith [h.within key limit hlimit]
  · intro j q hq hqc
    rcases get_put_cases hq with ⟨-, rfl⟩ | ⟨-, hq⟩
    · cases hqc
    · exact .inl ⟨q, hq, hqc, rfl⟩

theorem giveBack {charge : Charge}
    (hout : (charge :: returned).Subperm accepted) : ∃ ticket', ticket.returnUsage charge.cost = some ticket' ∧
      Accounts ticket' projects accepted (charge :: returned) := by
  obtain ⟨ticket', hreturn, hamount, hsame, hsome⟩ :=
    ticket.returnUsage_spec charge.cost (h.coversDirect charge (hout.subset List.mem_cons_self))
  refine ⟨ticket', hreturn, h.update hsame hsome (fun key => ?_) ?_
    (fun id p hp hcharged => .inl ⟨p, hp, hcharged, rfl⟩) (fun _ => .inl)⟩
  · rw [hamount, h.exact]
    simp only [directUse, List.map_cons, Ledger.total_cons, Charge.amount]
    linarith
  · intro key limit hlimit
    rw [hamount]
    linarith [h.within key limit hlimit, charge.nonneg.amountOf_nonneg key]

theorem addProject
    (habsent : projects.get id = none) (hp : p.quota ≠ .charged) :
    Accounts ticket (projects.put id p) accepted returned := by
  refine h.update rfl (fun _ hkey => hkey) (fun key => ?_) h.within ?_ (fun _ => .inl)
  · rw [projects.sum_put_of_absent id p _ habsent, p.share_of_ne hp, add_zero]
    exact h.exact key
  · intro j q hq hqc
    rcases get_put_cases hq with ⟨-, rfl⟩ | ⟨-, hq⟩
    · exact absurd hqc hp
    · exact .inl ⟨q, hq, hqc, rfl⟩

theorem removeProject (hp : projects.get id = some p) (hne : p.quota ≠ .charged) :
    Accounts ticket (projects.remove id) accepted returned := by
  refine h.update rfl (fun _ hkey => hkey) (fun key => ?_) h.within ?_ (fun _ => .inl)
  · have hsum := projects.sum_remove id p (fun p => p.share key) hp
    rw [p.share_of_ne hne, zero_add] at hsum
    rw [← hsum]
    exact h.exact key
  · exact fun j q hq hqc => .inl ⟨q, get_of_get_remove hq, hqc, rfl⟩

end Accounts

/-! ## The calls -/

/-- The project ticket a call has created and not charged yet. -/
def Call.owns : Call → Option Nat
  | .charge _ project => some project
  | .compensate project _ => some project
  | _ => none

def CallOk (projects : LinkedMap Nat Project) (nextId : Nat) : Call → Prop
  | .subdividePercent percent => 1 ≤ percent ∧ percent ≤ 100
  | .subdivide limits => ∀ qli ∈ limits, 0 ≤ qli.value
  | .post limits => ∀ qli ∈ limits, 0 ≤ qli.value
  | .charge limits project =>
    ∃ p, projects.get project = some p ∧ p.quota = .pending ∧ p.ticket.limitMap = quotaCost limits
  | .compensate project _ => ∃ p, projects.get project = some p ∧ p.quota = .pending
  | .returnProject project cost _ =>
    project < nextId ∧ ∀ p, projects.get project = some p → ∀ key, cost.get key = p.ticket.limitMap.get key
  | .discard project _ => project < nextId ∧ ∀ p, projects.get project = some p → p.quota = .returned
  | _ => True

/-- Every project ticket that is not charged belongs to one call in progress. -/
structure Owners (projects : LinkedMap Nat Project) (nextId : Nat) (calls : LinkedMap Nat Call) : Prop where
  ids : ∀ project p, projects.get project = some p → project < nextId
  ok : ∀ id call, calls.get id = some call → CallOk projects nextId call
  one : ∀ i j a b project, calls.get i = some a → calls.get j = some b → a.owns = some project →
    b.owns = some project → i = j
  owned : ∀ project p, projects.get project = some p → p.quota = .pending →
    ∃ id call, calls.get id = some call ∧ call.owns = some project

variable {call : Call} {project : Nat}

theorem pending_of_owns {projects : LinkedMap Nat Project} {nextId : Nat}
    (hok : CallOk projects nextId call) (howns : call.owns = some project) :
    ∃ p, projects.get project = some p ∧ p.quota = .pending := by
  cases call with
  | charge limits c =>
    cases howns
    obtain ⟨p, hp, hpending, _⟩ := hok
    exact ⟨p, hp, hpending⟩
  | compensate c found =>
    cases howns
    exact hok
  | _ => cases howns

theorem CallOk.frame {projects projects' : LinkedMap Nat Project} {nextId nextId' : Nat}
    (h : CallOk projects nextId call) (hle : nextId ≤ nextId')
    (howned : ∀ project, call.owns = some project → projects'.get project = projects.get project)
    (hlimits : ∀ project p', project < nextId → projects'.get project = some p' →
      ∃ p, projects.get project = some p ∧ p'.ticket = p.ticket ∧ (p.quota = .returned → p'.quota = .returned)) :
    CallOk projects' nextId' call := by
  cases call with
  | charge limits project =>
    obtain ⟨p, hp, hrest⟩ := h
    exact ⟨p, (howned project rfl).trans hp, hrest⟩
  | compensate project found =>
    obtain ⟨p, hp, hpending⟩ := h
    exact ⟨p, (howned project rfl).trans hp, hpending⟩
  | returnProject project cost deletes =>
    refine ⟨h.1.trans_le hle, fun p' hp' key => ?_⟩
    obtain ⟨p, hp, heq, -⟩ := hlimits project p' h.1 hp'
    rw [heq]
    exact h.2 p hp key
  | discard project next =>
    refine ⟨h.1.trans_le hle, fun p' hp' => ?_⟩
    obtain ⟨p, hp, -, hkept⟩ := hlimits project p' h.1 hp'
    exact hkept (h.2 p hp)
  | _ => exact h

namespace Owners

variable {projects : LinkedMap Nat Project} {nextId : Nat} {calls : LinkedMap Nat Call} {id : Nat}

theorem start : Owners .empty 0 .empty := by
  constructor <;> intros <;> simp_all

section

variable (h : Owners projects nextId calls)
include h

theorem finish (hcall : calls.get id = some call) (hno : call.owns = none) :
    Owners projects nextId (calls.remove id) where
  ids := h.ids
  ok i c hc := h.ok i c (get_of_get_remove hc)
  one i j a b project ha hb := h.one i j a b project (get_of_get_remove ha) (get_of_get_remove hb)
  owned project p hp hpending := by
    obtain ⟨i, c, hc, howns⟩ := h.owned project p hp hpending
    refine ⟨i, c, ?_, howns⟩
    rw [get_remove, if_neg]
    · exact hc
    · rintro rfl
      cases hcall.symm.trans hc
      cases hno.symm.trans howns

theorem goOn (hok : CallOk projects nextId call)
    (hsame : call.owns = (calls.get id).bind Call.owns) : Owners projects nextId (calls.put id call) where
  ids := h.ids
  ok i c hc := by
    rcases get_put_cases hc with ⟨-, rfl⟩ | ⟨-, hc⟩
    · exact hok
    · exact h.ok i c hc
  one i j a b project ha hb hown hown' := by
    have hback : ∀ k c, (calls.put id call).get k = some c → c.owns = some project →
        ∃ c', calls.get k = some c' ∧ c'.owns = some project := by
      intro k c hk howns
      rcases get_put_cases hk with ⟨rfl, rfl⟩ | ⟨-, hk⟩
      · rw [hsame] at howns
        exact Option.bind_eq_some_iff.1 howns
      · exact ⟨c, hk, howns⟩
    obtain ⟨a', ha', howna⟩ := hback i a ha hown
    obtain ⟨b', hb', hownb⟩ := hback j b hb hown'
    exact h.one i j a' b' project ha' hb' howna hownb
  owned project p hp hpending := by
    obtain ⟨i, c, hc, howns⟩ := h.owned project p hp hpending
    by_cases hi : i = id
    · refine ⟨id, call, by rw [get_put, if_pos rfl], ?_⟩
      rw [hsame, ← hi, hc]
      exact howns
    · exact ⟨i, c, by rw [get_put, if_neg hi]; exact hc, howns⟩

theorem post (hcall : calls.get id = some call) (hno : call.owns = none) (hpending : p.quota = .pending)
    (hlimits : p.ticket.limitMap = quotaCost limits) :
    Owners (projects.put nextId p) (nextId + 1) (calls.put id (.charge limits nextId)) where
  ids project q hq := by
    rcases get_put_cases hq with ⟨rfl, -⟩ | ⟨-, hq⟩
    · exact Nat.lt_succ_self project
    · exact (h.ids project q hq).trans (Nat.lt_succ_self nextId)
  ok i c hc := by
    rcases get_put_cases hc with ⟨-, rfl⟩ | ⟨-, hc⟩
    · exact ⟨p, by rw [get_put, if_pos rfl], hpending, hlimits⟩
    · refine (h.ok i c hc).frame (Nat.le_succ nextId) (fun project howns => ?_) (fun project q hlt hq => ?_)
      · obtain ⟨q, hq, _⟩ := pending_of_owns (h.ok i c hc) howns
        rw [get_put, if_neg (h.ids project q hq).ne]
      · rw [get_put, if_neg hlt.ne] at hq
        exact ⟨q, hq, rfl, fun hreturned => hreturned⟩
  one i j a b project ha hb hown hown' := by
    -- the new call owns the new ticket, every other call an older one
    have hcases : ∀ k c, (calls.put id (.charge limits nextId)).get k = some c → c.owns = some project →
        k = id ∧ project = nextId ∨ calls.get k = some c ∧ project < nextId := by
      intro k c hc howns
      rcases get_put_cases hc with ⟨hk, rfl⟩ | ⟨-, hc⟩
      · exact .inl ⟨hk, (Option.some.inj howns).symm⟩
      · obtain ⟨q, hq, _⟩ := pending_of_owns (h.ok k c hc) howns
        exact .inr ⟨hc, h.ids project q hq⟩
    rcases hcases i a ha hown with ⟨hi, hnew⟩ | ⟨hi, hlt⟩ <;> rcases hcases j b hb hown' with ⟨hj, hnew'⟩ | ⟨hj, hlt'⟩
    · exact hi.trans hj.symm
    · omega
    · omega
    · exact h.one i j a b project hi hj hown hown'
  owned project q hq hqp := by
    rcases get_put_cases hq with ⟨rfl, -⟩ | ⟨-, hq⟩
    · exact ⟨id, .charge limits project, by rw [get_put, if_pos rfl], rfl⟩
    · obtain ⟨i, c, hc, howns⟩ := h.owned project q hq hqp
      refine ⟨i, c, ?_, howns⟩
      rw [get_put, if_neg]
      · exact hc
      · rintro rfl
        cases hcall.symm.trans hc
        cases hno.symm.trans howns

end

/-- Only the ticket of one project changes, which is gone or not pending after it. -/
structure Settles (project : Nat) (projects projects' : LinkedMap Nat Project) : Prop where
  other : ∀ c, c ≠ project → projects'.get c = projects.get c
  this : ∀ p', projects'.get project = some p' → p'.quota ≠ .pending ∧
    ∃ p, projects.get project = some p ∧ p'.ticket = p.ticket ∧ (p.quota = .returned → p'.quota = .returned)

variable {project : Nat} {projects' : LinkedMap Nat Project} {calls' : LinkedMap Nat Call} {p : Project} {call : Call}

theorem settles_put (hp : projects.get project = some p) (quota : QuotaState) (hquota : quota ≠ .pending)
    (hkept : p.quota = .returned → quota = .returned) :
    Settles project projects (projects.put project { p with quota := quota }) where
  other c hc := (get_put _ _ _ _).trans (if_neg hc)
  this p' hp' := by
    cases hp'.symm.trans ((get_put _ _ _ _).trans (if_pos rfl))
    exact ⟨hquota, p, hp, rfl, hkept⟩

theorem settles_remove : Settles project projects (projects.remove project) where
  other c hc := (get_remove _ _ _).trans (if_neg hc)
  this p' hp' := by cases hp'.symm.trans ((get_remove _ _ _).trans (if_pos rfl))

variable (h : Owners projects nextId calls)
include h

theorem settled (hsettles : Settles project projects projects')
    (hfree : ∀ i c, calls'.get i = some c → calls.get i = some c ∧ c.owns ≠ some project)
    (hkept : ∀ i c, calls.get i = some c → c.owns ≠ some project → calls'.get i = some c) :
      Owners projects' nextId calls' where
  ids c q hq := by
    by_cases hc : c = project
    · subst hc
      obtain ⟨_, p, hp, _⟩ := hsettles.this q hq
      exact h.ids c p hp
    · exact h.ids c q (hsettles.other c hc ▸ hq)
  ok i c hc := by
    obtain ⟨hc, hnot⟩ := hfree i c hc
    refine (h.ok i c hc).frame (Nat.le_refl nextId) (fun d hd => hsettles.other d fun hdp => hnot (hdp ▸ hd))
      (fun d p' _ hp' => ?_)
    by_cases hd : d = project
    · subst hd
      exact (hsettles.this p' hp').2
    · exact ⟨p', hsettles.other d hd ▸ hp', rfl, fun hq => hq⟩
  one i j a b c ha hb := h.one i j a b c (hfree i a ha).1 (hfree j b hb).1
  owned c q hq hpending := by
    by_cases hc : c = project
    · subst hc
      exact absurd hpending (hsettles.this q hq).1
    · obtain ⟨i, d, hd, hdowns⟩ := h.owned c q (hsettles.other c hc ▸ hq) hpending
      exact ⟨i, d, hkept i d hd fun hd' => hc (Option.some.inj (hdowns.symm.trans hd')), hdowns⟩

theorem settle (hcall : calls.get id = some call) (howns : call.owns = some project)
    (hsettles : Settles project projects projects') : Owners projects' nextId (calls.remove id) := by
  refine h.settled hsettles (fun i c hc => ?_) (fun i c hc hnot => ?_)
  · rw [get_remove] at hc
    split at hc
    · cases hc
    · rename_i hi
      exact ⟨hc, fun hd => hi (h.one i id c call project hc hcall hd howns)⟩
  · rw [get_remove, if_neg]
    · exact hc
    · rintro rfl
      cases hcall.symm.trans hc
      exact hnot howns

theorem change (hp : projects.get project = some p) (hne : p.quota ≠ .pending)
    (hsettles : Settles project projects projects') : Owners projects' nextId calls := by
  refine h.settled hsettles (fun i c hc => ⟨hc, fun hd => ?_⟩) (fun _ _ hc _ => hc)
  obtain ⟨q, hq, hpending⟩ := pending_of_owns (h.ok i c hc) hd
  cases hp.symm.trans hq
  exact hne hpending

end Owners

def Call.discards : Call → Option Nat
  | .discard project _ => some project
  | _ => none

/-- Every project ticket whose quota is returned belongs to a deletion of its project. -/
def Discarded (projects : LinkedMap Nat Project) (calls : LinkedMap Nat Call) : Prop :=
  ∀ project p, projects.get project = some p → p.quota = .returned →
    ∃ id call, calls.get id = some call ∧ call.discards = some project

namespace Discarded

variable {projects projects' : LinkedMap Nat Project} {calls calls' : LinkedMap Nat Call} {id : Nat}

variable (h : Discarded projects calls)
include h

/-- Only the call with the id changes; a ticket that it discarded is gone then, or is discarded still. -/
theorem update (hcalls : ∀ i, i ≠ id → calls'.get i = calls.get i)
    (hkept : ∀ project p', projects'.get project = some p' → p'.quota = .returned →
      (∃ call, calls'.get id = some call ∧ call.discards = some project) ∨
      (∃ p, projects.get project = some p ∧ p.quota = .returned) ∧
        ∀ call, calls.get id = some call → call.discards ≠ some project) : Discarded projects' calls' := by
  intro project p' hp' hreturned
  rcases hkept project p' hp' hreturned with ⟨call, hcall, hdiscards⟩ | ⟨⟨p, hp, hquota⟩, hnot⟩
  · exact ⟨id, call, hcall, hdiscards⟩
  · obtain ⟨i, c, hc, hdiscards⟩ := h project p hp hquota
    have hi : i ≠ id := by
      rintro rfl
      exact hnot c hc hdiscards
    exact ⟨i, c, (hcalls i hi).trans hc, hdiscards⟩

theorem finish (hcall : calls.get id = some call)
    (hgone : ∀ project p, call.discards = some project → projects'.get project = some p → p.quota ≠ .returned)
    (hback : ∀ project p', projects'.get project = some p' → p'.quota = .returned →
      ∃ p, projects.get project = some p ∧ p.quota = .returned) : Discarded projects' (calls.remove id) := by
  refine h.update (fun i hi => (get_remove _ _ _).trans (if_neg hi)) (fun project p' hp' hreturned => .inr ⟨?_, ?_⟩)
  · exact hback project p' hp' hreturned
  · intro c hc hdiscards
    cases hcall.symm.trans hc
    exact hgone project p' hdiscards hp' hreturned

theorem goOn (hdiscards : ∀ project, (calls.get id).bind Call.discards = some project → call.discards = some project) :
    Discarded projects (calls.put id call) := by
  refine h.update (fun i hi => (get_put _ _ _ _).trans (if_neg hi)) (fun project p hp hreturned => ?_)
  by_cases hd : call.discards = some project
  · exact .inl ⟨call, by rw [get_put, if_pos rfl], hd⟩
  · refine .inr ⟨⟨p, hp, hreturned⟩, fun c hc hdc => hd (hdiscards project ?_)⟩
    rw [hc]
    exact hdc

end Discarded

/-! ## What the backend makes of an answer -/

/-- **What `consumeQuota` can do.** -/
theorem consumeQuota_cases (ticket : Option ResourceTicket) (cost : Items) (answer : Answer) :
    (∃ t, ticket = some t ∧ answer = .served ∧ (t.consumeQuota cost).2 = none ∧
      consumeQuota ticket cost answer = (some (t.consumeQuota cost).1, .ok ())) ∨
    (∃ t e, ticket = some t ∧ (t.consumeQuota cost).2.isSome = true ∧
      consumeQuota ticket cost answer = (some (t.consumeQuota cost).1, .error e)) ∨
    (answer = .failed .xenon ∧ consumeQuota ticket cost answer = (ticket, .ok ())) ∨
    ∃ e, consumeQuota ticket cost answer = (ticket, .error e) := by
  cases answer with
  | served =>
    cases ticket with
    | none => exact .inr (.inr (.inr ⟨_, rfl⟩))
    | some t =>
      cases hresult : (t.consumeQuota cost).2 with
      | none =>
        have hpair : t.consumeQuota cost = ((t.consumeQuota cost).1, none) := Prod.ext rfl hresult
        refine .inl ⟨t, rfl, rfl, hresult, ?_⟩
        simp only [consumeQuota]
        rw [hpair]
      | some response =>
        have hpair : t.consumeQuota cost = ((t.consumeQuota cost).1, some response) := Prod.ext rfl hresult
        refine .inr (.inl ⟨t, .quota response, rfl, by rw [hresult]; rfl, ?_⟩)
        simp only [consumeQuota]
        rw [hpair]
  | failed failure =>
    cases failure with
    | xenon => exact .inr (.inr (.inl ⟨rfl, rfl⟩))
    | other => exact .inr (.inr (.inr ⟨_, rfl⟩))

/-- **What `returnQuota` can do.** -/
theorem returnQuota_cases (ticket : Option ResourceTicket) (cost : Items) (answer : Answer) :
    (∃ t t', ticket = some t ∧ t.returnUsage cost = some t' ∧ returnQuota ticket cost answer = (some t', .ok ())) ∨
      ∃ e, returnQuota ticket cost answer = (ticket, .error e) := by
  cases answer with
  | served =>
    cases ticket with
    | none => exact .inr ⟨_, rfl⟩
    | some t =>
      cases hresult : t.returnUsage cost with
      | none => exact .inr ⟨.failed, by simp only [returnQuota, hresult]⟩
      | some t' => exact .inl ⟨t, t', rfl, hresult, by simp only [returnQuota, hresult]⟩
  | failed failure => exact .inr ⟨_, rfl⟩

namespace Tenancy

/-! ## Steps -/

structure Inv (s : Tenancy) : Prop where
  subperm : s.returned.Subperm s.accepted
  limits : ∀ project p, s.projects.get project = some p → NonNeg p.ticket.limitMap ∧ WellKeyed p.ticket.limitMap
  accounts : ∀ ticket, s.tenant = some ticket → Accounts ticket s.projects s.accepted s.returned
  owners : Owners s.projects s.nextId s.calls
  discarded : Discarded s.projects s.calls

/-- The step is one the backend and its clients cope with: a percentage between 1 and 100; no charge fails with the
exception that `consumeQuota` drops; the tickets `subdivide` compensates for can be deleted; the quota of a project is
returned while it is charged, by the deletion of the project, and all that this deletion does after that is served;
nobody else deletes the ticket before its quota is returned; what is given back was charged directly and is still
out. -/
def Careful (s : Tenancy) : Event → Prop
  | .start _ (.subdividePercent percentOfLimit) => 1 ≤ percentOfLimit ∧ percentOfLimit ≤ 100
  | .start _ _ => True
  | .advance id answer =>
    match s.calls.get id with
    | some (.charge _ _) => answer ≠ .failed .xenon
    | some (.consume _) => answer ≠ .failed .xenon
    | some (.compensate _ _) => answer = .served
    | some (.returnProject project _ deletes) =>
      deletes = true ∧ ∃ p, s.projects.get project = some p ∧ p.quota = .charged
    | some (.discard _ _) => answer = .served
    | some (.delete project true) => ∀ p, s.projects.get project = some p → p.quota = .returned
    | some (.giveBack charge) => (charge :: s.returned).Subperm s.accepted
    | _ => True

variable {s : Tenancy} {id : Nat}

theorem setQuota_eq (hp : s.projects.get project = some p) (quota : QuotaState) :
    s.setQuota project quota = { s with projects := s.projects.put project { p with quota := quota } } := by
  simp only [setQuota, hp]

namespace Inv

theorem finish (h : Inv s) (hcall : s.calls.get id = some call) (hno : call.owns = none)
    (hgone : ∀ project, call.discards = some project → s.projects.get project = none) : Inv (s.finish id) where
  __ := h
  owners := h.owners.finish hcall hno
  discarded := h.discarded.finish hcall
    (fun project p hd hp => by cases (hgone project hd).symm.trans hp) (fun _ p hp hreturned => ⟨p, hp, hreturned⟩)

theorem goOn (h : Inv s) (hok : CallOk s.projects s.nextId call) (hsame : call.owns = (s.calls.get id).bind Call.owns)
    (hdiscards : ∀ project, (s.calls.get id).bind Call.discards = some project → call.discards = some project) :
    Inv (s.goOn id call) where
  __ := h
  owners := h.owners.goOn hok hsame
  discarded := h.discarded.goOn hdiscards

theorem setTenant (h : Inv s) {tenant : Option ResourceTicket}
    (htenant : ∀ ticket, tenant = some ticket → Accounts ticket s.projects s.accepted s.returned) :
    Inv { s with tenant := tenant } := { h with accounts := htenant }

theorem rejected (h : Inv s) {ticket : ResourceTicket} {cost : Items} (hticket : s.tenant = some ticket)
    (hrejected : (ticket.consumeQuota cost).2.isSome = true) :
    Inv { s with tenant := some (ticket.consumeQuota cost).1 } := by
  refine h.setTenant (fun t ht => ?_)
  cases ht
  exact (h.accounts ticket hticket).rejected hrejected

variable {project : Nat}

theorem limits_put (h : Inv s) (hp : s.projects.get project = some p) (quota : QuotaState) :
    ∀ c q, (s.projects.put project { p with quota := quota }).get c = some q →
      NonNeg q.ticket.limitMap ∧ WellKeyed q.ticket.limitMap := by
  intro c q hq
  rcases get_put_cases hq with ⟨-, rfl⟩ | ⟨-, hq⟩
  · exact h.limits project p hp
  · exact h.limits c q hq

theorem limits_remove (h : Inv s) (project : Nat) :
    ∀ c q, (s.projects.remove project).get c = some q → NonNeg q.ticket.limitMap ∧ WellKeyed q.ticket.limitMap :=
  fun c q hq => h.limits c q (get_of_get_remove hq)

theorem post (h : Inv s) (hcall : s.calls.get id = some (.post limits)) :
    Inv (s.perform id (.post limits) .served) := by
  have hlimits : ∀ qli ∈ limits, 0 ≤ qli.value := h.owners.ok id _ hcall
  have habsent : s.projects.get s.nextId = none := by
    cases hget : s.projects.get s.nextId with
    | none => rfl
    | some p => exact absurd (h.owners.ids s.nextId p hget) (Nat.lt_irrefl _)
  refine ⟨h.subperm, fun project p hp => ?_, fun ticket hticket => ?_, ?_, ?_⟩
  · have hget : (s.projects.put s.nextId ⟨newTicket (some s.tenantId) limits, .pending⟩).get project = some p := hp
    rcases get_put_cases hget with ⟨-, rfl⟩ | ⟨-, hget⟩
    · exact ⟨nonNeg_quotaCost hlimits, wellKeyed_quotaCost limits⟩
    · exact h.limits project p hget
  · exact (h.accounts ticket hticket).addProject habsent nofun
  · exact h.owners.post hcall rfl rfl rfl
  · refine h.discarded.update (fun i hi => (get_put _ _ _ _).trans (if_neg hi))
      (fun project p hp hreturned => .inr ⟨?_, ?_⟩)
    · rcases get_put_cases hp with ⟨-, rfl⟩ | ⟨-, hp⟩
      · cases hreturned
      · exact ⟨p, hp, hreturned⟩
    · intro c hc hdiscards
      cases hcall.symm.trans hc
      cases hdiscards

variable {answer : Answer}

section

variable (h : Inv s)
include h

theorem charge (hcall : s.calls.get id = some (.charge limits project)) (hanswer : answer ≠ .failed .xenon) :
    Inv (s.performCharge id limits project answer) := by
  obtain ⟨p, hp, hpending, hlimits⟩ := h.owners.ok id _ hcall
  have hgoOn : ∀ tenant, (∀ ticket, tenant = some ticket → Accounts ticket s.projects s.accepted s.returned) →
      Inv ({ s with tenant := tenant }.goOn id (.compensate project false)) := by
    intro tenant htenant
    refine (h.setTenant htenant).goOn ⟨p, hp, hpending⟩ ?_ ?_ <;> simp only [hcall]
    · rfl
    · exact nofun
  rcases consumeQuota_cases s.tenant (quotaCost limits) answer with
    ⟨ticket, hticket, rfl, haccepted, hresult⟩ | ⟨ticket, e, hticket, hrejected, hresult⟩ | ⟨hxenon, _⟩ | ⟨e, hresult⟩
  · simp only [performCharge, hresult, setQuota_eq hp]
    rw [← hlimits] at haccepted ⊢
    refine ⟨h.subperm, h.limits_put hp .charged, fun t ht => ?_, ?_, ?_⟩
    · cases ht
      exact (h.accounts ticket hticket).chargeProject hp hpending haccepted
    · exact h.owners.settle hcall rfl (Owners.settles_put hp .charged nofun (by simp [hpending]))
    · refine h.discarded.finish hcall nofun (fun c q hq hreturned => ?_)
      rcases get_put_cases hq with ⟨-, rfl⟩ | ⟨-, hq⟩
      · cases hreturned
      · exact ⟨q, hq, hreturned⟩
  · simp only [performCharge, hresult]
    exact hgoOn _ (h.rejected hticket hrejected).accounts
  · exact absurd hxenon hanswer
  · simp only [performCharge, hresult]
    exact hgoOn _ h.accounts

theorem consume {charge : Charge} (hcall : s.calls.get id = some (.consume charge))
    (hanswer : answer ≠ .failed .xenon) : Inv (s.performConsume id charge answer) := by
  rcases consumeQuota_cases s.tenant charge.cost answer with
    ⟨ticket, hticket, rfl, haccepted, hresult⟩ | ⟨ticket, e, hticket, hrejected, hresult⟩ | ⟨hxenon, _⟩ | ⟨e, hresult⟩
  · simp only [performConsume, hresult]
    refine ⟨h.subperm.trans (List.sublist_cons_self _ _).subperm, h.limits, fun t ht => ?_, h.owners.finish hcall rfl,
      h.discarded.finish hcall nofun (fun _ q hq hreturned => ⟨q, hq, hreturned⟩)⟩
    cases ht
    exact (h.accounts ticket hticket).chargeDirect haccepted
  · simp only [performConsume, hresult]
    exact (h.rejected hticket hrejected).finish hcall rfl nofun
  · exact absurd hxenon hanswer
  · simp only [performConsume, hresult]
    exact h.finish hcall rfl nofun

theorem returnProject {cost : Items} (hcall : s.calls.get id = some (.returnProject project cost true))
    (hcharged : ∃ p, s.projects.get project = some p ∧ p.quota = .charged) :
    Inv (s.perform id (.returnProject project cost true) answer) := by
  obtain ⟨p, hp, hquota⟩ := hcharged
  rcases returnQuota_cases s.tenant cost answer with ⟨ticket, ticket', hticket, hreturn, hresult⟩ | ⟨e, hresult⟩
  · simp only [perform, hresult, setQuota_eq hp, if_true]
    have howners := h.owners.change hp (by simp [hquota]) (Owners.settles_put hp .returned nofun (fun _ => rfl))
    refine ⟨h.subperm, h.limits_put hp .returned, fun t ht => ?_, ?_, ?_⟩
    · obtain ⟨t', ht', haccounts⟩ := (h.accounts ticket hticket).returnProject hp hquota (h.limits project p hp).1
        ((h.owners.ok id _ hcall).2 p hp)
      cases hreturn.symm.trans ht'
      cases ht
      exact haccounts
    · refine howners.goOn ⟨h.owners.ids project p hp, fun q hq => ?_⟩ (by rw [hcall]; rfl)
      cases hq.symm.trans ((get_put _ _ _ _).trans (if_pos rfl))
      rfl
    · -- the ticket is returned from here on, and this call is the one that discards it
      refine h.discarded.update (fun i hi => (get_put _ _ _ _).trans (if_neg hi)) (fun c q hq hreturned => ?_)
      rcases get_put_cases hq with ⟨rfl, -⟩ | ⟨-, hq⟩
      · exact .inl ⟨_, (get_put _ _ _ _).trans (if_pos rfl), rfl⟩
      · refine .inr ⟨⟨q, hq, hreturned⟩, fun call hc hdiscards => ?_⟩
        cases hcall.symm.trans hc
        cases hdiscards
  · simp only [perform, hresult]
    exact h.finish hcall rfl nofun

theorem giveBack {charge : Charge} (hcall : s.calls.get id = some (.giveBack charge))
    (hout : (charge :: s.returned).Subperm s.accepted) : Inv (s.perform id (.giveBack charge) answer) := by
  rcases returnQuota_cases s.tenant charge.cost answer with ⟨ticket, ticket', hticket, hreturn, hresult⟩ | ⟨e, hresult⟩
  · simp only [perform, hresult]
    refine ⟨hout, h.limits, fun t ht => ?_, h.owners.finish hcall rfl,
      h.discarded.finish hcall nofun (fun _ q hq hreturned => ⟨q, hq, hreturned⟩)⟩
    obtain ⟨t', ht', haccounts⟩ := (h.accounts ticket hticket).giveBack hout
    cases hreturn.symm.trans ht'
    cases ht
    exact haccounts
  · simp only [perform, hresult]
    exact h.finish hcall rfl nofun

theorem discarded_remove (hcall : s.calls.get id = some call) (honly : ∀ c, call.discards = some c → c = project) :
    Discarded (s.projects.remove project) (s.calls.remove id) := by
  refine h.discarded.finish hcall (fun c p hd hp => ?_) (fun c p hp hreturned => ⟨p, get_of_get_remove hp, hreturned⟩)
  rw [honly c hd, get_remove, if_pos rfl] at hp
  cases hp

theorem compensate (hcall : s.calls.get id = some (.compensate project true)) :
    Inv ((s.removeProject project).finish id) := by
  obtain ⟨p, hp, hpending⟩ := h.owners.ok id _ hcall
  refine ⟨h.subperm, h.limits_remove project, fun t ht => ?_, ?_, h.discarded_remove hcall nofun⟩
  · exact (h.accounts t ht).removeProject hp (by simp [hpending])
  · exact h.owners.settle hcall rfl Owners.settles_remove

theorem delete (hcall : s.calls.get id = some call) (hno : call.owns = none)
    (honly : ∀ c, call.discards = some c → c = project)
    (hreturned : ∀ p, s.projects.get project = some p → p.quota = .returned) :
      Inv ((s.removeProject project).finish id) := by
  have howners : Owners (s.projects.remove project) s.nextId (s.calls.remove id) := by
    cases hp : s.projects.get project with
    | none =>
      rw [LinkedMap.remove_of_absent _ _ hp]
      exact h.owners.finish hcall hno
    | some p => exact (h.owners.change hp (by simp [hreturned p hp]) Owners.settles_remove).finish hcall hno
  refine ⟨h.subperm, h.limits_remove project, fun t ht => ?_, howners, h.discarded_remove hcall honly⟩
  cases hp : s.projects.get project with
  | none =>
    have hsame : (s.removeProject project).projects = s.projects := LinkedMap.remove_of_absent _ _ hp
    show Accounts t (s.removeProject project).projects s.accepted s.returned
    rw [hsame]
    exact h.accounts t ht
  | some p => exact (h.accounts t ht).removeProject hp (by simp [hreturned p hp])

theorem callOk_returnProject (hp : s.projects.get project = some p) (deletes : Bool) :
    CallOk s.projects s.nextId (.returnProject project (quotaCost (entityLimits p.ticket).values) deletes) := by
  refine ⟨h.owners.ids project p hp, fun q hq key => ?_⟩
  cases hp.symm.trans hq
  rw [entityLimits, get_quotaCost_values (wellKeyed_quotaCost _), get_quotaCost_values (h.limits project p hp).2]

theorem next (hcall : s.calls.get id = some call) {after : Call} (hok : CallOk s.projects s.nextId after)
    (hsame : after.owns = call.owns) (hdiscards : after.discards = call.discards) : Inv (s.goOn id after) := by
  refine h.goOn hok ?_ fun project hproject => ?_
  · rw [hcall, hsame]
    rfl
  · rw [hcall] at hproject
    exact hdiscards.trans hproject

theorem subdividePercent {percent : ℚ} (hcall : s.calls.get id = some (.subdividePercent percent)) :
    Inv (s.perform id (.subdividePercent percent) .served) := by
  obtain ⟨hpercent, -⟩ := h.owners.ok id _ hcall
  simp only [Tenancy.perform]
  cases hticket : s.tenant with
  | none => exact h.finish hcall rfl nofun
  | some ticket =>
    dsimp only
    split
    · exact h.finish hcall rfl nofun
    · exact h.next hcall (nonneg_shareOf (h.accounts ticket hticket).nonneg (zero_le_one.trans hpercent)) rfl rfl

theorem subdivide (hcall : s.calls.get id = some (.subdivide limits)) :
    Inv (s.perform id (.subdivide limits) .served) := by
  have hok := h.owners.ok id _ hcall
  simp only [Tenancy.perform]
  cases s.tenant with
  | none => exact h.finish hcall rfl nofun
  | some ticket =>
    dsimp only
    split
    · exact h.next hcall hok rfl rfl
    · exact h.finish hcall rfl nofun

theorem discard {stage : Discard} (hcall : s.calls.get id = some (.discard project stage)) :
    Inv (s.perform id (.discard project stage) .served) := by
  have hok := h.owners.ok id _ hcall
  cases stage with
  | tombstone | document => exact h.next hcall hok rfl rfl
  | find =>
    simp only [Tenancy.perform]
    cases hp : s.projects.get project with
    | none =>
      refine h.finish hcall rfl fun c hc => ?_
      cases hc
      exact hp
    | some p => exact h.next hcall hok rfl rfl
  | delete => exact h.delete hcall rfl (fun c hc => (Option.some.inj hc).symm) hok.2

theorem perform (hcall : s.calls.get id = some call)
    (hcareful : Careful s (.advance id answer)) : Inv (s.perform id call answer) := by
  have hfinish : call.owns = none → (∀ project, call.discards = some project → s.projects.get project = none) →
      Inv (s.finish id) := h.finish hcall
  simp only [Careful, hcall] at hcareful
  cases call with
  | subdividePercent percent =>
    cases answer with
    | failed failure => exact hfinish rfl nofun
    | served => exact h.subdividePercent hcall
  | subdivide limits =>
    cases answer with
    | failed failure => exact hfinish rfl nofun
    | served => exact h.subdivide hcall
  | post limits =>
    cases answer with
    | failed failure => exact hfinish rfl nofun
    | served => exact h.post hcall
  | charge limits project => exact h.charge hcall hcareful
  | compensate project found =>
    subst hcareful
    cases found with
    | false =>
      obtain ⟨p, hp, hpending⟩ := h.owners.ok id _ hcall
      simp only [Tenancy.perform, hp]
      exact h.next hcall ⟨p, hp, hpending⟩ rfl rfl
    | true => exact h.compensate hcall
  | deleteProject project =>
    cases answer with
    | failed failure => exact hfinish rfl nofun
    | served =>
      simp only [Tenancy.perform]
      cases hp : s.projects.get project with
      | none => exact hfinish rfl nofun
      | some p => exact h.next hcall (h.callOk_returnProject hp true) rfl rfl
  | returnProject project cost deletes =>
    obtain ⟨rfl, hcharged⟩ := hcareful
    exact h.returnProject hcall hcharged
  | discard project stage =>
    subst hcareful
    exact h.discard hcall
  | delete project found =>
    cases answer with
    | failed failure => cases found <;> exact hfinish rfl nofun
    | served =>
      cases found with
      | false =>
        simp only [Tenancy.perform]
        cases s.projects.get project with
        | none => exact hfinish rfl nofun
        | some p => exact h.next hcall trivial rfl rfl
      | true => exact h.delete hcall rfl nofun hcareful
  | consume charge => exact h.consume hcall hcareful
  | giveBack charge => exact h.giveBack hcall hcareful
  | deleteTenant found =>
    cases answer with
    | failed failure => cases found <;> exact hfinish rfl nofun
    | served =>
      cases found with
      | false =>
        simp only [Tenancy.perform]
        cases s.tenant with
        | none => exact hfinish rfl nofun
        | some ticket => exact h.next hcall trivial rfl rfl
      | true =>
        exact ⟨h.subperm, h.limits, fun t ht => (nomatch ht), (hfinish rfl nofun).owners, (hfinish rfl nofun).discarded⟩

end

theorem start {request : Request} (h : Inv s) (hfree : s.calls.get id = none)
    (hcareful : Careful s (.start id request)) : Inv (s.start id request) := by
  have hgoOn : ∀ call, CallOk s.projects s.nextId call → call.owns = none → Inv (s.goOn id call) :=
    fun call hok hno => h.goOn hok (by rw [hfree, hno]; rfl) (by rw [hfree]; exact nofun)
  cases request with
  | subdividePercent percent => exact hgoOn _ hcareful rfl
  | returnProject project =>
    simp only [Tenancy.start]
    cases hp : s.projects.get project with
    | none => exact h
    | some p => exact hgoOn _ (h.callOk_returnProject hp false) rfl
  | deleteProject project | delete project | consume charge | giveBack charge | deleteTenant =>
    exact hgoOn _ trivial rfl

/-- **Every careful step keeps the books.** -/
theorem step (h : Inv s) {e : Event} (hcareful : Careful s e) : Inv (s.step e) := by
  cases e with
  | start id request =>
    simp only [Tenancy.step]
    split
    · exact h
    · rename_i hfree
      exact h.start (by simpa using hfree) hcareful
  | advance id answer =>
    simp only [Tenancy.step]
    cases hcall : s.calls.get id with
    | none => exact h
    | some call => exact h.perform hcall hcareful

end Inv

/-! ## Whole runs -/

/-- No call is in progress. -/
def Quiescent (s : Tenancy) : Prop := ∀ id, s.calls.get id = none

/-- A percentage that is out of range is rejected, and a charge that returns normally is one the store has accepted. -/
def Sound (s : Tenancy) : Event → Prop
  | .start _ (.subdividePercent percentOfLimit) =>
    ¬ (1 ≤ percentOfLimit ∧ percentOfLimit ≤ 100) → rejectsPercent percentOfLimit = true
  | .start _ _ => True
  | .advance id answer =>
    match s.calls.get id with
    | some (.charge limits _) =>
      (consumeQuota s.tenant (quotaCost limits) answer).2 = .ok () → Accepts s.tenant (quotaCost limits) answer
    | some (.consume charge) =>
      (consumeQuota s.tenant charge.cost answer).2 = .ok () → Accepts s.tenant charge.cost answer
    | _ => True

theorem Inv.create (tenantId : String) (spec : TicketSpec) : Inv (create tenantId spec) where
  subperm := List.nil_subperm
  limits _ _ hp := nomatch hp
  accounts ticket hticket := by
    cases hticket
    exact Accounts.newTicket none spec
  owners := Owners.start
  discarded _ _ hp := nomatch hp

theorem Inv.charged (h : Inv s) (hquiescent : Quiescent s) (hp : s.projects.get project = some p) :
    p.quota = .charged := by
  cases hquota : p.quota with
  | pending =>
    obtain ⟨id, call, hcall, _⟩ := h.owners.owned project p hp hquota
    cases (hquiescent id).symm.trans hcall
  | charged => rfl
  | returned =>
    obtain ⟨id, call, hcall, _⟩ := h.discarded project p hp hquota
    cases (hquiescent id).symm.trans hcall

end Tenancy
end Photon.ApiFrontend
