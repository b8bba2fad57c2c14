import Switchyard.EntryLifetime
set_option autoImplicit false

/-!
What one goroutine's Redis commands lead to when they are executed in turn and
keys may expire between any two of them.
-/

namespace Switchyard.Cache
open RedisData CallTree

def Stable (P : Redis → Prop) : Prop := ∀ s now,s.now ≤ now → P s → P (s.at now)

variable {P : Redis → Prop}

theorem Stable.ran (h : Stable P) {s u : Redis} {tr : List (Event Op Ans)}
    (hrun : Ran s tr u) (hkeep : ∀ e ∈ tr,∀ m,P m → P (m.after e.op)) (hs : P s) : P u := by
  refine hrun.keeps (P := fun x => ∀ m,P m → P (m.after x.event.op)) ?_ ?_ (by simpa using hkeep) hs
  · intro m x t hm hx hexec
    obtain ⟨-,rfl⟩ := hexec
    split
    · exact hx m hm
    · exact hm
  · intro m t hm htick
    obtain ⟨now,hnow,rfl⟩ := htick
    exact h m now hnow hm

/-- Executed in turn, the commands lead from P to Q. -/
def Leads (P : Redis → Prop) (ops : List Op) (Q : Redis → Prop) : Prop :=
  ∀ s tr u,tr.map Event.op = ops → (∀ e ∈ tr,executed e = true) → Ran s tr u → P s → Q u

theorem leads_keep {ops : List Op} (hP : Stable P)
    (hkeep : ∀ op ∈ ops,∀ s,P s → P (s.after op)) : Leads P ops P := by
  intro s tr u hops _ hrun hs
  refine hP.ran hrun (fun e he => hkeep e.op ?_) hs
  rw [← hops]
  exact List.mem_map_of_mem he

theorem Leads.cons {M Q : Redis → Prop} {op : Op} {ops : List Op} (h : Leads M ops Q)
    (hP : Stable P) (hop : ∀ s,P s → M (s.after op)) : Leads P (op :: ops) Q := by
  intro s tr u hops hex hrun hs
  obtain ⟨e,tr,rfl,rfl,rfl⟩ := List.map_eq_cons_iff.1 hops
  obtain ⟨m,hidle,-,hrest⟩ := ran_cons hrun (hex e List.mem_cons_self)
  have hm : P m := hP.ran hidle (by simp) hs
  exact h _ _ _ rfl (fun x hx => hex x (List.mem_cons_of_mem _ hx)) hrest (hop m hm)

def Until (T : Int) (P : Redis → Prop) (s : Redis) : Prop := s.now ≤ T → P s

theorem stable_until {T : Int}
    (h : ∀ s now,s.now ≤ now → now ≤ T → P s → P (s.at now)) : Stable (Until T P) :=
  fun s now hnow hs hT => h s now hnow hT (hs (hnow.trans hT))

theorem Until.after {T : Int} {Q : Redis → Prop} {s : Redis} {op : Op} (hs : Until T P s)
    (hop : P s → Q (s.after op)) : Until T Q (s.after op) := by
  intro hT
  rw [after_now] at hT
  exact hop (hs hT)

def Leaves : Op → Prop
  | .hSet _ _ => False
  | .hIncrBy _ _ _ => False
  | .expire (.entry _) _ => False
  | _ => True

theorem entries_leaves {op : Op} (h : Leaves op) (s : Redis) (id : String) :
    (s.after op).entries id = s.entries id ∨ (s.after op).entries id = none := by
  have hchange := entryChange_after s op id
  generalize (s.after op).entries id = v at hchange
  cases hchange with
  | put fields => exact h.elim
  | counted hm => exact h.elim
  | dated hpos => exact h.elim
  | gone op => exact .inr rfl
  | kept hset hexpire => exact .inl rfl

def Skips (key : ZKey) : Op → Prop
  | .zAdd k _ _ => k ≠ key
  | .zRem k _ => k ≠ key
  | .zRemRangeByRank k _ _ => k ≠ key
  | .expire (.zset k) _ => k ≠ key
  | .del keys => .zset key ∉ keys
  | _ => True

theorem zsets_skips {key : ZKey} {op : Op} (h : Skips key op) (s : Redis) :
    (s.after op).zsets key = s.zsets key := by
  cases op with
  | zAdd k score member => exact Function.update_of_ne (Ne.symm h) _ _
  | zRem k members => exact Function.update_of_ne (Ne.symm h) _ _
  | zRemRangeByRank k start stop => exact Function.update_of_ne (Ne.symm h) _ _
  | hIncrBy id field n =>
    simp only [Redis.after]
    split <;> rfl
  | expire k ttl =>
    simp only [Redis.after,Redis.expire]
    cases k with
    | entry id => split <;> rfl
    | zset k =>
      split
      · exact Function.update_of_ne (Ne.symm h) _ _
      · exact Function.update_of_ne (Ne.symm h) _ _
  | del keys =>
    simp only [Redis.after]
    replace h : .zset key ∉ keys := h
    induction keys generalizing s with
    | nil => rfl
    | cons k keys ih =>
      simp only [List.mem_cons,not_or] at h
      rw [List.foldl_cons,ih _ h.2]
      cases k with
      | entry id => rfl
      | zset k => exact Function.update_of_ne (fun he => h.1 (by rw [he])) _ _
  | _ => rfl

theorem members_skips {key : ZKey} {op : Op} (h : Skips key op) (s : Redis) :
    (s.after op).members key = s.members key := by
  rw [Redis.members,Redis.members,zsets_skips h]

theorem members_setMembers (s : Redis) (key : ZKey) (z : ZSet) :
    (s.setMembers key z).members key = z := by
  by_cases hz : z = []
  · simp [Redis.setMembers,Redis.members,hz]
  · simp [Redis.setMembers,Redis.members,hz]

theorem deadline_setMembers {s : Redis} {key : ZKey} {z : ZSet} {y : Timed ZSet} {d : Int}
    (hy : (s.setMembers key z).zsets key = some y) (hd : y.deadline = some d) :
    ∃ w,s.zsets key = some w ∧ w.deadline = some d := by
  simp only [Redis.setMembers,Function.update_self] at hy
  split at hy
  · cases hy
  · obtain rfl := Option.some.inj hy
    exact Option.bind_eq_some_iff.1 hd

theorem zsets_at {s : Redis} {key : ZKey} {now : Int}
    (h : ∀ z d,s.zsets key = some z → z.deadline = some d → now < d) :
    (s.at now).zsets key = s.zsets key := by
  cases hz : s.zsets key with
  | none => simp [Redis.at,hz]
  | some z =>
    refine Option.filter_eq_some_iff.2 ⟨hz,?_⟩
    unfold Timed.aliveAt
    split
    · rfl
    · rename_i d hd
      exact decide_eq_true (h z d hz hd)

theorem members_at_sublist (s : Redis) (key : ZKey) (now : Int) :
    ((s.at now).members key).Sublist (s.members key) := by
  cases hz : s.zsets key with
  | none => simp [Redis.members,Redis.at,hz]
  | some z =>
    by_cases halive : z.aliveAt now = true
    · simp [Redis.members,Redis.at,hz,Option.filter_some,halive]
    · simp [Redis.members,Redis.at,hz,Option.filter_some,halive]

end Switchyard.Cache
