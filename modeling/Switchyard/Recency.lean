import Mathlib.Data.List.Sublists
import Switchyard.RedisData
set_option autoImplicit false

/-!
Sorted sets that are filled in the order of their scores: the members, newest
first, are among the records of what was added last.
-/

namespace Recency
open RedisData

/-- One addition of a member to a sorted set, with what it stands for. -/
structure Filed (κ β : Type) where
  member : String
  score : κ
  data : β
  deriving DecidableEq, Repr

variable {α κ β : Type}

def Filed.scored (p : Filed κ β) : κ × String := (p.score,p.member)

/-- Of the additions, newest first, the newest of each member. -/
def latest : List (Filed κ β) → List (Filed κ β)
  | [] => []
  | p :: ps => p :: (latest ps).filter (·.member ≠ p.member)

theorem latest_sublist (ps : List (Filed κ β)) : (latest ps).Sublist ps := by
  induction ps with
  | nil => exact .slnil
  | cons p ps ih => exact (List.filter_sublist.trans ih).cons_cons p

theorem latest_members_nodup (ps : List (Filed κ β)) : ((latest ps).map Filed.member).Nodup := by
  induction ps with
  | nil => exact List.nodup_nil
  | cons p ps ih =>
    rw [latest,List.map_cons,List.nodup_cons]
    refine ⟨fun hm => ?_,ih.sublist (List.filter_sublist.map _)⟩
    obtain ⟨q,hq,hqm⟩ := List.mem_map.1 hm
    have hne := (List.mem_filter.1 hq).2
    simp [hqm] at hne

variable {ps : List (Filed κ β)} {p : Filed κ β}

theorem eq_of_mem_latest {q : Filed κ β} (hp : p ∈ latest ps)
    (hq : q ∈ latest ps) (h : p.member = q.member) : p = q :=
  List.inj_on_of_nodup_map (latest_members_nodup ps) hp hq h

theorem mem_take_of_filter (hd : (ps.map Filed.member).Nodup)
    {p : Filed κ β} {member : String} {n : Nat} (h : p ∈ (ps.filter (·.member ≠ member)).take n) :
    p ∈ ps.take (n+1) := by
  induction ps generalizing n with
  | nil => simp at h
  | cons q ps ih =>
    rw [List.map_cons,List.nodup_cons] at hd
    rw [List.take_succ_cons]
    by_cases hq : q.member = member
    · have hrest : ps.filter (·.member ≠ member) = ps := by
        refine List.filter_eq_self.2 fun r hr => ?_
        have hne : r.member ≠ q.member := fun heq => hd.1 (heq ▸ List.mem_map_of_mem hr)
        simpa [← hq] using hne
      rw [List.filter_cons_of_neg (by simpa using hq),hrest] at h
      exact List.mem_cons_of_mem _ h
    · rw [List.filter_cons_of_pos (by simpa using hq)] at h
      cases n with
      | zero => simp at h
      | succ n =>
        obtain rfl | h := List.mem_cons.1 h
        · exact List.mem_cons_self
        · exact List.mem_cons_of_mem _ (ih hd.2 h)

def Newest (n : Nat) (ps : List (Filed κ β)) (member : String) : Prop :=
  member ∈ ((latest ps).take n).map Filed.member

theorem newest_cons {n : Nat} (hn : 0 < n) (p : Filed κ β) (ps : List (Filed κ β)) (m : String) :
    Newest n (p :: ps) m ↔ (Newest n (p :: ps) m ∧ m ≠ p.member) ∨ m = p.member := by
  constructor
  · intro h
    by_cases hm : m = p.member
    · exact .inr hm
    · exact .inl ⟨h,hm⟩
  · rintro (⟨h,-⟩ | rfl)
    · exact h
    · obtain ⟨k,rfl⟩ := Nat.exists_eq_succ_of_ne_zero hn.ne'
      exact List.mem_cons_self

theorem Newest.before {n : Nat} {m : String}
    (h : Newest n (p :: ps) m) (hm : m ≠ p.member) : ∃ q ∈ (latest ps).take n,q.member = m := by
  obtain ⟨q,hq,rfl⟩ := List.mem_map.1 h
  refine ⟨q,?_,rfl⟩
  cases n with
  | zero => simp at hq
  | succ n =>
    rw [latest,List.take_succ_cons,List.mem_cons] at hq
    obtain rfl | hq := hq
    · exact absurd rfl hm
    · exact mem_take_of_filter (latest_members_nodup ps) hq

/-- The members of the set, newest first, are in the order of these records. -/
def InOrder (z : List (κ × String)) (ps : List (Filed κ β)) : Prop :=
  z.reverse.Sublist (ps.map Filed.scored)

variable {z : List (κ × String)}

theorem InOrder.sublist {z' : List (κ × String)} (h : InOrder z ps)
    (hz : z'.Sublist z) : InOrder z' ps := hz.reverse.trans h

theorem InOrder.records (h : InOrder z ps) :
    ∃ rs : List (Filed κ β),rs.Sublist ps ∧ z.reverse = rs.map Filed.scored :=
  List.sublist_map_iff.1 h

theorem InOrder.record (h : InOrder z ps) {q : κ × String} (hq : q ∈ z) : ∃ p ∈ ps,p.scored = q :=
  List.mem_map.1 (h.subset (List.mem_reverse.2 hq))

theorem mem_names (h : p.scored ∈ z) : p.member ∈ z.map Prod.snd :=
  List.mem_map_of_mem h

theorem InOrder.scored_mem
    (h : InOrder z (latest ps)) (hp : p ∈ latest ps) (hname : p.member ∈ z.map Prod.snd) :
    p.scored ∈ z := by
  obtain ⟨q,hq,hqp⟩ := List.mem_map.1 hname
  obtain ⟨p',hp',rfl⟩ := h.record hq
  rwa [eq_of_mem_latest hp hp' hqp.symm]

section Added

variable [LinearOrder κ]

variable {z : List (κ × String)}

theorem insertScored_last {score : κ} {member : String}
    (h : ∀ q ∈ z,q.1 < score) : insertScored score member z = z ++ [(score,member)] := by
  induction z with
  | nil => rfl
  | cons q z ih =>
    obtain ⟨s,m⟩ := q
    have hs : s < score := h (s,m) List.mem_cons_self
    have hnot : ¬(score < s ∨ score = s ∧ member < m) := by
      rintro (hlt | ⟨rfl,-⟩)
      · exact lt_asymm hs hlt
      · exact lt_irrefl _ hs
    rw [insertScored,if_neg hnot,ih fun q hq => h q (List.mem_cons_of_mem _ hq)]
    rfl

theorem zAdd_last {p : Filed κ β} (hnew : ∀ q ∈ z,q.2 ≠ p.member → q.1 < p.score) :
    zAdd z p.score p.member = z.filter (·.2 ≠ p.member) ++ [p.scored] := by
  refine insertScored_last fun q hq => ?_
  obtain ⟨hq,hne⟩ := List.mem_filter.1 hq
  exact hnew q hq (by simpa using hne)

theorem InOrder.zAdd {p : Filed κ β} {ps : List (Filed κ β)}
    (h : InOrder z ps) (hnew : ∀ q ∈ z,q.2 ≠ p.member → q.1 < p.score) :
    InOrder (RedisData.zAdd z p.score p.member) (p :: ps.filter (·.member ≠ p.member)) := by
  rw [zAdd_last hnew,InOrder,List.reverse_append,List.reverse_singleton,List.singleton_append,
    List.map_cons,← List.filter_reverse]
  have hfilter : (ps.map Filed.scored).filter (·.2 ≠ p.member) =
      (ps.filter (·.member ≠ p.member)).map Filed.scored := by
    rw [List.filter_map]
    rfl
  rw [← hfilter]
  exact (h.filter _).cons_cons _

end Added

theorem mem_take_of_sublist {l l' : List α} {a : α} {n : Nat} (h : l.Sublist l') (hd : l'.Nodup)
    (ha : a ∈ l) (hn : a ∈ l'.take n) : a ∈ l.take n := by
  induction h generalizing n with
  | slnil => exact hn
  | @cons l l' b h ih =>
    cases n with
    | zero => simp at hn
    | succ n =>
      rw [List.take_succ_cons,List.mem_cons] at hn
      obtain rfl | hn := hn
      · exact absurd (h.subset ha) (List.nodup_cons.1 hd).1
      · exact List.take_subset_take_left l (Nat.le_succ n) (ih (List.nodup_cons.1 hd).2 ha hn)
  | @cons_cons l l' b h ih =>
    cases n with
    | zero => simp at hn
    | succ n =>
      rw [List.take_succ_cons,List.mem_cons] at hn ⊢
      obtain rfl | hn := hn
      · exact .inl rfl
      · obtain rfl | ha := List.mem_cons.1 ha
        · exact .inl rfl
        · exact .inr (ih (List.nodup_cons.1 hd).2 ha hn)

theorem sliceOut_reverse (z : List α) (n : Nat) :
    (sliceOut z 0 (-n-1)).reverse = z.reverse.take n := by
  have hstop : rank z.length (-n-1) = z.length-n-1 := by
    simp only [rank]
    omega
  have hstart : rank z.length 0 = 0 := rfl
  unfold sliceOut
  rw [hstop,hstart]
  split
  · rw [List.take_of_length_le]
    rw [List.length_reverse]
    omega
  · rw [Int.toNat_zero,List.take_zero,List.nil_append]
    have hkeep : ((z.length : Int)-n-1+1).toNat = z.length-n := by omega
    rw [hkeep,List.take_reverse]

theorem slice_take (z : List α) {n : Nat} (hn : 0 < n) : slice z 0 (n-1) = z.take n := by
  have hstop : (rank z.length ((n : Int)-1)+1).toNat = n := by
    simp only [rank]
    omega
  have hstart : (rank z.length 0).toNat = 0 := rfl
  rw [slice,hstop,hstart,List.drop_zero]

end Recency
