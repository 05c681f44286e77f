import Mathlib.Data.List.Induction
import Mathlib.Data.List.Infix
/-!
# ReplicaList — the addresses of the ZooKeeper replicas

`MiscUtils.generateReplicaList` joins the addresses of the replicas, each with the port.  It leaves an address out if it
finds it in the text it has built, and writes a comma after an entry unless the address is the last of the list.  An
address can be found inside a longer one, and the last address may be one that is left out.
-/
namespace Photon.Deployer.ReplicaList

open List

abbrev Text := List Char

def entry (port ip : Text) : Text := ip ++ ':' :: port

def appendReplicas (port : Text) : List Text → Text → Text
  | [], builder => builder
  | ip :: ips, builder =>
    appendReplicas port ips (if ip <:+: builder then builder
      else builder ++ entry port ip ++ if ips = [] then [] else [','])

def generateReplicaList (replicaIps : List Text) (port : Text) : Text := appendReplicas port replicaIps []

def text (port : Text) (ips : List Text) : Text := ips.flatMap fun ip => entry port ip ++ [',']

/-- What the list is for: the entries of the distinct addresses, in the order in which they occur first, with commas
between. -/
def replicaList (replicaIps : List Text) (port : Text) : Text := (text port replicaIps.eraseDups).dropLast

/-- Digits and dots, with a dot: all that is used of an IPv4 address. -/
def IsAddress (ip : Text) : Prop := '.' ∈ ip ∧ ∀ c ∈ ip, c.isDigit = true ∨ c = '.'

def IsPort (port : Text) : Prop := ∀ c ∈ port, c.isDigit = true

/-- No address lies inside an earlier one when it occurs for the first time. -/
def NoneInside (ips : List Text) : Prop :=
  ∀ before ip, before ++ [ip] <+: ips → ip ∉ before → ∀ other ∈ before, ¬ ip <:+: other

def LastNew (ips : List Text) : Prop := ∀ ip ∈ ips.getLast?, ip ∉ ips.dropLast

/-! ## What the text holds -/

variable {port ip : Text} {ips kept : List Text}

theorem text_concat (kept : List Text) : text port (kept ++ [ip]) = text port kept ++ entry port ip ++ [','] := by
  rw [text, flatMap_append, flatMap_singleton, append_assoc, text]

theorem infix_or_of_not_mem {c : Char} {x before after : Text} (hc : c ∉ x) (h : x <:+: before ++ c :: after) :
    x <:+: before ∨ x <:+: after := by
  have hnil : ∀ y, c ∉ y → y <+: c :: after → y = [] := by
    intro y hy hpre
    rcases prefix_cons_iff.1 hpre with hnil | ⟨t, rfl, -⟩
    · exact hnil
    · exact absurd mem_cons_self hy
  rcases infix_append_iff.1 h with hbefore | hafter | ⟨l, r, rfl, hl, hr⟩
  · exact .inl hbefore
  · rcases infix_cons_iff.1 hafter with hpre | hafter
    · exact .inl (hnil x hc hpre ▸ nil_infix)
    · exact .inr hafter
  · rw [hnil r (fun hmem => hc (mem_append_right l hmem)) hr, append_nil]
    exact .inl hl.isInfix

theorem infix_text_iff (hport : IsPort port) (hip : IsAddress ip) :
    ip <:+: text port kept ↔ ∃ other ∈ kept, ip <:+: other := by
  constructor
  · intro h
    induction kept with
    | nil => exact absurd (infix_nil.1 h ▸ hip.1) not_mem_nil
    | cons other kept ih =>
      rw [text, flatMap_cons, entry, append_assoc, append_assoc, cons_append] at h
      rcases infix_or_of_not_mem (fun hmem => absurd (hip.2 _ hmem) (by decide)) h with h | h
      · exact ⟨other, mem_cons_self, h⟩
      · rcases infix_or_of_not_mem (fun hmem => absurd (hip.2 _ hmem) (by decide)) h with h | h
        · exact absurd (hport _ (h.subset hip.1)) (by decide)
        · obtain ⟨other', hmem, hinside⟩ := ih h
          exact ⟨other', mem_cons_of_mem other hmem, hinside⟩
  · rintro ⟨other, hmem, hinside⟩
    refine hinside.trans (IsInfix.trans ?_ (infix_of_mem_flatten (mem_map_of_mem hmem)))
    exact ⟨[], ':' :: port ++ [','], by simp [entry]⟩

theorem count_text (hport : IsPort port) (hips : ∀ ip ∈ kept, IsAddress ip) :
    (text port kept).count ':' = kept.length := by
  have hzero : port.count ':' = 0 := count_eq_zero.2 fun hmem => absurd (hport _ hmem) (by decide)
  induction kept with
  | nil => rfl
  | cons ip kept ih =>
    rw [forall_mem_cons] at hips
    have hip : ip.count ':' = 0 := count_eq_zero.2 fun hmem => absurd (hips.1.2 _ hmem) (by decide)
    rw [text, flatMap_cons, ← text, count_append, ih hips.2, entry, count_append, count_append, hip,
      count_cons, hzero, length_cons, Nat.add_comm]
    rfl

/-! ## The addresses that are kept -/

def keep (kept : List Text) (ip : Text) : List Text :=
  if ∃ other ∈ kept, ip <:+: other then kept else kept ++ [ip]

/-- Where the last address is left out, the list ends with the comma of the entry before. -/
theorem appendReplicas_concat (hport : IsPort port) (hip : IsAddress ip) : ∀ (ips : List Text) (kept : List Text),
    (∀ ip ∈ ips, IsAddress ip) → appendReplicas port (ips ++ [ip]) (text port kept) ++ [','] =
      text port ((ips ++ [ip]).foldl keep kept) ++ if ∃ other ∈ ips.foldl keep kept, ip <:+: other then [','] else []
  | [], kept, _ => by
    rw [nil_append, appendReplicas, appendReplicas, if_congr (infix_text_iff hport hip) rfl rfl, if_pos rfl,
      append_nil, foldl_nil, foldl_cons, foldl_nil, keep]
    split
    · rfl
    · rw [text_concat, append_nil]
  | first :: ips, kept, hips => by
    rw [forall_mem_cons] at hips
    have hmore : ips ++ [ip] ≠ [] := by simp
    have hnext : (if first <:+: text port kept then text port kept else text port kept ++ entry port first ++
        if ips ++ [ip] = [] then [] else [',']) = text port (keep kept first) := by
      rw [if_congr (infix_text_iff hport hips.1) rfl rfl, if_neg hmore, keep, apply_ite (text port), text_concat]
    rw [cons_append, appendReplicas, hnext, appendReplicas_concat hport hip ips _ hips.2, foldl_cons, foldl_cons]

theorem eraseDups_concat (ips : List Text) (ip : Text) :
    (ips ++ [ip]).eraseDups = if ip ∈ ips then ips.eraseDups else ips.eraseDups ++ [ip] := by
  rw [eraseDups_append, removeAll]
  split <;> rename_i hmem <;> simp [hmem, eraseDups_cons]

theorem noneInside_concat_iff :
    NoneInside (ips ++ [ip]) ↔ NoneInside ips ∧ (ip ∉ ips → ∀ other ∈ ips, ¬ ip <:+: other) := by
  refine ⟨fun h => ⟨fun before x hx => h before x (hx.trans (prefix_append _ _)), h ips ip prefix_rfl⟩, ?_⟩
  rintro ⟨h, hlast⟩ before x hx
  rcases prefix_concat_iff.1 hx with heq | hx
  · obtain ⟨rfl, rfl⟩ := append_singleton_inj.1 heq
    exact hlast
  · exact h before x hx

/-- **The kept addresses**: each address lies inside one of them, and they are the distinct ones exactly if none lies
inside an earlier one. -/
theorem kept_spec (ips : List Text) : (∀ ip ∈ ips, ∃ other ∈ ips.foldl keep [], ip <:+: other) ∧
    (ips.foldl keep []).Sublist ips.eraseDups ∧ (ips.foldl keep [] = ips.eraseDups ↔ NoneInside ips) := by
  induction ips using reverseRecOn with
  | nil => exact ⟨nofun, Sublist.refl _, iff_of_true rfl (by simp [NoneInside])⟩
  | append_singleton ips ip ih =>
    obtain ⟨hcovers, hsub, hiff⟩ := ih
    rw [foldl_append, foldl_cons, foldl_nil, keep, eraseDups_concat, noneInside_concat_iff, ← hiff,
      forall_mem_append, forall_mem_singleton]
    by_cases hin : ∃ other ∈ ips.foldl keep [], ip <:+: other
    · rw [if_pos hin]
      refine ⟨⟨hcovers, hin⟩, ?_⟩
      by_cases hold : ip ∈ ips
      · rw [if_pos hold]
        exact ⟨hsub, (and_iff_left fun hnew => absurd hold hnew).symm⟩
      · rw [if_neg hold]
        refine ⟨hsub.trans (sublist_append_left _ _), iff_of_false (fun heq => ?_) fun h => ?_⟩
        · have hlen := hsub.length_le
          rw [heq, length_append, length_singleton] at hlen
          omega
        · obtain ⟨other, hother, hinside⟩ := hin
          exact h.2 hold other (mem_eraseDups.1 (hsub.subset hother)) hinside
    · have hnew : ip ∉ ips := fun hold => hin (hcovers ip hold)
      rw [if_neg hin, if_neg hnew, append_left_inj]
      refine ⟨⟨fun x hx => ?_, ip, mem_append_right _ (mem_singleton_self ip), infix_rfl⟩,
        hsub.append (Sublist.refl _), (and_iff_left fun _ other hother hinside => ?_).symm⟩
      · obtain ⟨other, hother, hinside⟩ := hcovers x hx
        exact ⟨other, mem_append_left _ hother, hinside⟩
      · obtain ⟨k, hk, hk'⟩ := hcovers other hother
        exact hin ⟨k, hk, hinside.trans hk'⟩

/-- **The list of the replicas is right exactly if** no address lies inside an earlier one when it occurs for the first
time, and the last address has not occurred before. -/
theorem generateReplicaList_eq_iff (replicaIps : List Text) (port : Text) (hips : ∀ ip ∈ replicaIps, IsAddress ip)
    (hport : IsPort port) :
    generateReplicaList replicaIps port = replicaList replicaIps port ↔ NoneInside replicaIps ∧ LastNew replicaIps := by
  rcases eq_nil_or_concat replicaIps with rfl | ⟨ips, ip, rfl⟩
  · exact iff_of_true rfl ⟨by simp [NoneInside], by simp [LastNew]⟩
  rw [concat_eq_append] at hips ⊢
  obtain ⟨-, hsub, hiff⟩ := kept_spec (ips ++ [ip])
  obtain ⟨hcovers, hkept, -⟩ := kept_spec ips
  have hgenerate : appendReplicas port (ips ++ [ip]) [] ++ [','] = _ :=
    appendReplicas_concat hport (hips ip (by simp)) ips [] fun x hx => hips x (mem_append_left _ hx)
  have hreplicas : replicaList (ips ++ [ip]) port ++ [','] = text port (ips ++ [ip]).eraseDups := by
    obtain ⟨l, x, hl⟩ := (eq_nil_or_concat (ips ++ [ip]).eraseDups).resolve_left
      (ne_nil_of_mem (mem_eraseDups.2 (mem_append_right ips (mem_singleton_self ip))))
    rw [replicaList, hl, concat_eq_append, text_concat, dropLast_concat]
  have hlast : LastNew (ips ++ [ip]) ↔ ip ∉ ips := by simp [LastNew]
  rw [← append_left_inj [','], hreplicas, generateReplicaList, hgenerate, hlast]
  constructor
  · intro heq
    have hcount := congrArg (count ':') heq
    rw [count_append, count_text hport fun x hx => hips x (mem_eraseDups.1 (hsub.subset hx)),
      count_text hport fun x hx => hips x (mem_eraseDups.1 hx)] at hcount
    have hsame := hsub.eq_of_length (by split at hcount <;> simpa using hcount)
    refine ⟨hiff.1 hsame, fun hold => ?_⟩
    rw [hsame, if_pos (hcovers ip hold), append_right_eq_self] at heq
    cases heq
  · rintro ⟨hnone, hlast⟩
    rw [hiff.2 hnone, if_neg, append_nil]
    rintro ⟨other, hother, hinside⟩
    exact (noneInside_concat_iff.1 hnone).2 hlast other (mem_eraseDups.1 (hkept.subset hother)) hinside

theorem generateReplicaList_two : generateReplicaList ["10.0.0.1".toList, "10.0.0.2".toList] "2181".toList =
    replicaList ["10.0.0.1".toList, "10.0.0.2".toList] "2181".toList := by
  have hone : NoneInside ["10.0.0.1".toList] := (@noneInside_concat_iff _ []).2 ⟨by simp [NoneInside], by simp⟩
  exact (generateReplicaList_eq_iff _ _ (by simp [IsAddress]) (by simp [IsPort])).2
    ⟨(@noneInside_concat_iff _ ["10.0.0.1".toList]).2 ⟨hone, by decide⟩, by simp [LastNew]⟩

/-- The second address is taken to be in the list, and a repetition at the end leaves a comma. -/
theorem generateReplicaList_wrong :
    generateReplicaList ["10.0.0.11".toList, "10.0.0.1".toList] "2181".toList ≠
      replicaList ["10.0.0.11".toList, "10.0.0.1".toList] "2181".toList ∧
    generateReplicaList ["10.0.0.1".toList, "10.0.0.1".toList] "2181".toList = "10.0.0.1:2181,".toList := by
  decide

end Photon.Deployer.ReplicaList
