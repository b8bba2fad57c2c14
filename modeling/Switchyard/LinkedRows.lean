import Mathlib.Data.List.Nodup
import Mathlib.Logic.Relation
set_option autoImplicit false

/-!
Tables whose rows may name a successor row of the same owner: rows are appended,
and a row's link is set once, together with the row it leads to.
-/

namespace LinkedRows

variable {α κ ω : Type} (key : α → κ) (link : α → Option κ) (owner : α → ω)

/-- Each link leads to a later row, of the same owner. -/
def Forward : List α → Prop
  | [] => True
  | a :: l => (∀ k,link a = some k → ∃ b ∈ l,key b = k ∧ owner b = owner a) ∧ Forward l

/-- Distinct keys, forward links, and no row is named twice. -/
structure Threaded (l : List α) : Prop where
  distinct : (l.map key).Nodup
  forward : Forward key link owner l
  apart : ∀ a ∈ l,∀ b ∈ l,∀ k,link a = some k → link b = some k → a = b

def Follows (l : List α) (a b : α) : Prop := a ∈ l ∧ b ∈ l ∧ link a = some (key b)

variable {key link owner}

variable {l : List α}

theorem Forward.successor (h : Forward key link owner l) {a : α} (ha : a ∈ l) {k : κ}
    (hk : link a = some k) : ∃ b ∈ l,key b = k ∧ owner b = owner a := by
  induction l with
  | nil => cases ha
  | cons c l ih =>
    have hin : ∃ b ∈ l,key b = k ∧ owner b = owner a := by
      cases ha with
      | head => exact h.1 k hk
      | tail _ ha => exact ih h.2 ha
    obtain ⟨b,hb,hrest⟩ := hin
    exact ⟨b,List.mem_cons_of_mem _ hb,hrest⟩

theorem eq_of_key (h : (l.map key).Nodup) {a b : α} (ha : a ∈ l) (hb : b ∈ l) (hk : key a = key b) :
    a = b := List.inj_on_of_nodup_map h ha hb hk

theorem Forward.idxOf_lt [DecidableEq κ] (hd : (l.map key).Nodup)
    (h : Forward key link owner l) {a : α} (ha : a ∈ l) {k : κ} (hk : link a = some k) :
    (l.map key).idxOf (key a) < (l.map key).idxOf k := by
  induction l with
  | nil => cases ha
  | cons c l ih =>
    have hnew : key c ∉ l.map key := (List.nodup_cons.1 hd).1
    have hin : k ∈ l.map key := by
      cases ha with
      | head =>
        obtain ⟨b,hb,hkey,-⟩ := h.1 k hk
        exact hkey ▸ List.mem_map_of_mem hb
      | tail _ ha =>
        obtain ⟨b,hb,hkey,-⟩ := h.2.successor ha hk
        exact hkey ▸ List.mem_map_of_mem hb
    have hpast : key c ≠ k := fun he => hnew (he ▸ hin)
    rw [List.map_cons,List.idxOf_cons_ne _ hpast]
    cases ha with
    | head =>
      rw [List.idxOf_cons_self]
      omega
    | tail _ ha =>
      have hother : key c ≠ key a := fun he => hnew (he ▸ List.mem_map_of_mem ha)
      rw [List.idxOf_cons_ne _ hother]
      have := ih (List.nodup_cons.1 hd).2 h.2 ha
      omega

theorem Threaded.acyclic (h : Threaded key link owner l) (a : α) :
    ¬Relation.TransGen (Follows key link l) a a := by
  classical
  have hrank : ∀ b,Relation.TransGen (Follows key link l) a b →
      (l.map key).idxOf (key a) < (l.map key).idxOf (key b) := by
    intro b hab
    induction hab with
    | single hstep => exact h.forward.idxOf_lt h.distinct hstep.1 hstep.2.2
    | tail _ hstep ih => exact Nat.lt_trans ih (h.forward.idxOf_lt h.distinct hstep.1 hstep.2.2)
  exact fun hcycle => Nat.lt_irrefl _ (hrank a hcycle)

/-- A change of rows in place, and what it may do to a link: keep it, or lead
from a row without one to a key that is new. -/
structure Relinks (key : α → κ) (link : α → Option κ) (owner : α → ω) (l : List α) (f : α → α)
    (new : List α) : Prop where
  keeps : ∀ a ∈ l,key (f a) = key a
  owned : ∀ a ∈ l,owner (f a) = owner a
  leads : ∀ a ∈ l,link (f a) = link a ∨
    link a = none ∧ ∃ b ∈ new,link (f a) = some (key b) ∧ owner b = owner a
  once : ∀ a ∈ l,∀ b ∈ l,link a = none → link b = none → ∀ k,link (f a) = some k →
    link (f b) = some k → a = b

theorem Relinks.tail {a : α} {f : α → α} {new : List α}
    (h : Relinks key link owner (a :: l) f new) : Relinks key link owner l f new where
  keeps b hb := h.keeps b (List.mem_cons_of_mem _ hb)
  owned b hb := h.owned b (List.mem_cons_of_mem _ hb)
  leads b hb := h.leads b (List.mem_cons_of_mem _ hb)
  once b hb c hc := h.once b (List.mem_cons_of_mem _ hb) c (List.mem_cons_of_mem _ hc)

theorem forward_of_unlinked {new : List α} (h : ∀ b ∈ new,link b = none) :
    Forward key link owner new := by
  induction new with
  | nil => trivial
  | cons b new ih =>
    constructor
    · intro k hk
      rw [h b List.mem_cons_self] at hk
      cases hk
    · exact ih fun c hc => h c (List.mem_cons_of_mem _ hc)

theorem Forward.relink {f : α → α} {new : List α} (h : Forward key link owner l)
    (hf : Relinks key link owner l f new) (hnew : ∀ b ∈ new,link b = none) :
    Forward key link owner (l.map f ++ new) := by
  induction l with
  | nil => exact forward_of_unlinked hnew
  | cons a l ih =>
    constructor
    · intro k hk
      rw [hf.owned a List.mem_cons_self]
      cases hf.leads a List.mem_cons_self with
      | inl hsame =>
        obtain ⟨b,hb,hkey,howner⟩ := h.1 k (hsame ▸ hk)
        have hb' := List.mem_cons_of_mem a hb
        exact ⟨f b,List.mem_append_left _ (List.mem_map_of_mem hb),(hf.keeps b hb').trans hkey,
          (hf.owned b hb').trans howner⟩
      | inr hset =>
        obtain ⟨-,b,hb,hlink,howner⟩ := hset
        rw [hlink] at hk
        cases hk
        exact ⟨b,List.mem_append_right _ hb,rfl,howner⟩
    · exact ih h.2 hf.tail

theorem Threaded.relink {f : α → α} {new : List α} (h : Threaded key link owner l)
    (hf : Relinks key link owner l f new) (hnew : ∀ b ∈ new,link b = none)
    (hd : (new.map key).Nodup) (hfresh : ∀ b ∈ new,key b ∉ l.map key) :
    Threaded key link owner (l.map f ++ new) := by
  have hkeys : (l.map f).map key = l.map key := by
    rw [List.map_map]
    exact List.map_congr_left hf.keeps
  constructor
  · rw [List.map_append,hkeys]
    apply h.distinct.append hd
    intro k hk hk'
    obtain ⟨b,hb,rfl⟩ := List.mem_map.1 hk'
    exact hfresh b hb hk
  · exact h.forward.relink hf hnew
  · -- a linked row of the new table is the image of one of the old
    have hold : ∀ c ∈ l.map f ++ new,∀ k,link c = some k → ∃ a ∈ l,f a = c := by
      intro c hc k hk
      cases List.mem_append.1 hc with
      | inl hc => exact List.mem_map.1 hc
      | inr hc =>
        rw [hnew c hc] at hk
        cases hk
    -- a link that was there leads to an old key, one that was set to a new key
    have hcross : ∀ a ∈ l,∀ b ∈ l,∀ k,link a = some k → link b = none →
        link (f b) = some k → False := by
      intro a ha b hb k hak hbn hbk
      obtain ⟨c,hc,rfl,-⟩ := h.forward.successor ha hak
      cases hf.leads b hb with
      | inl hsame =>
        rw [hsame,hbn] at hbk
        cases hbk
      | inr hset =>
        obtain ⟨-,d,hd,hlink,-⟩ := hset
        rw [hlink] at hbk
        exact hfresh d hd (Option.some.inj hbk ▸ List.mem_map_of_mem hc)
    have hkeep : ∀ a ∈ l,∀ k,link (f a) = some k → link a = some k ∨ link a = none := by
      intro a ha k hk
      cases hf.leads a ha with
      | inl hsame => exact .inl (hsame ▸ hk)
      | inr hset => exact .inr hset.1
    intro c hc d hd k hck hdk
    obtain ⟨a,ha,rfl⟩ := hold c hc k hck
    obtain ⟨b,hb,rfl⟩ := hold d hd k hdk
    cases hkeep a ha k hck with
    | inl hak =>
      cases hkeep b hb k hdk with
      | inl hbk => rw [h.apart a ha b hb k hak hbk]
      | inr hbn => exact (hcross a ha b hb k hak hbn hdk).elim
    | inr han =>
      cases hkeep b hb k hdk with
      | inl hbk => exact (hcross b hb a ha k hbk han hck).elim
      | inr hbn => rw [hf.once a ha b hb han hbn k hck hdk]

end LinkedRows
