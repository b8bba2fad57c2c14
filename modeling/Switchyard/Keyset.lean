import Mathlib.Data.Finset.Card
import Mathlib.Data.List.Sort
set_option autoImplicit false

/-!
Keyset pagination: pages of the rows below a cursor, in descending order of a
key and each read from the table as it is at that moment. One row more than the
page holds tells whether another page follows.
-/

namespace Keyset

variable {ρ κ : Type} [LinearOrder κ] (key : ρ → κ)

def descending (cursor : Option κ) (rows : List ρ) : List ρ :=
  (rows.filter fun r => cursor.all fun k => decide (key r < k)).insertionSort
    fun a b => key b ≤ key a

def page (limit : Nat) (cursor : Option κ) (rows : List ρ) : List ρ × Option ρ :=
  let found := (descending key cursor rows).take (limit+1)
  if limit < found.length then (found.take limit,(found.take limit).getLast?) else (found,none)

/-- The pages from a cursor to the one that nothing follows, each read from the
next of the tables. -/
inductive Walk (limit : Nat) : Option κ → List (List ρ) → List (List ρ) → Prop where
  | last {cursor : Option κ} {rows p : List ρ} :
      page key limit cursor rows = (p,none) → Walk limit cursor [rows] [p]
  | next {cursor : Option κ} {rows p : List ρ} {r : ρ} {tables pages : List (List ρ)} :
      page key limit cursor rows = (p,some r) → Walk limit (some (key r)) tables pages →
      Walk limit cursor (rows :: tables) (p :: pages)

/-- What a walk has to return: no page above its size, each from its table, all
keys strictly descending, and once each key that every table has. -/
structure Complete (limit : Nat) (tables pages : List (List ρ)) : Prop where
  sizes : ∀ p ∈ pages,p.length ≤ limit
  sources : List.Forall₂ (fun p rows => p ⊆ rows) pages tables
  descends : (pages.flatten.map key).Pairwise (· > ·)
  once : ∀ k,(∀ rows ∈ tables,∃ r ∈ rows,key r = k) → (pages.flatten.map key).count k = 1

variable {key} {limit : Nat} {cursor : Option κ} {rows : List ρ}

theorem mem_descending {r : ρ} :
    r ∈ descending key cursor rows ↔ r ∈ rows ∧ ∀ k ∈ cursor,key r < k := by
  cases cursor <;> simp [descending]

theorem descending_pairwise (hd : (rows.map key).Nodup) :
    (descending key cursor rows).Pairwise fun a b => key b < key a := by
  have htotal : Std.Total fun a b : ρ => key b ≤ key a := ⟨fun a b => le_total _ _⟩
  have htrans : IsTrans ρ fun a b => key b ≤ key a := ⟨fun _ _ _ h h' => h'.trans h⟩
  have hsorted : (descending key cursor rows).Pairwise fun a b => key b ≤ key a :=
    List.pairwise_insertionSort _ _
  have hperm := List.perm_insertionSort (fun a b : ρ => key b ≤ key a)
    (rows.filter fun r => cursor.all fun k => decide (key r < k))
  have hnodup : ((descending key cursor rows).map key).Nodup :=
    (hperm.map key).nodup_iff.2 (hd.sublist (List.filter_sublist.map key))
  have hne : (descending key cursor rows).Pairwise fun a b => key a ≠ key b :=
    List.pairwise_map.1 hnodup
  exact hsorted.imp₂ (fun a b hle hne => lt_of_le_of_ne hle hne.symm) hne

theorem page_eq (limit : Nat) (cursor : Option κ) (rows : List ρ) :
    page key limit cursor rows =
      if limit < (descending key cursor rows).length then
        ((descending key cursor rows).take limit,((descending key cursor rows).take limit).getLast?)
      else (descending key cursor rows,none) := by
  have htake : ∀ l : List ρ,(l.take (limit+1)).take limit = l.take limit := by
    intro l
    rw [List.take_take,Nat.min_eq_left (Nat.le_succ limit)]
  simp only [page,htake,List.length_take]
  by_cases h : limit < (descending key cursor rows).length
  · rw [if_pos h,if_pos (by omega)]
  · rw [if_neg h,if_neg (by omega),List.take_of_length_le (by omega)]

theorem page_last {p : List ρ} (hpos : 0 < limit) (h : page key limit cursor rows = (p,none)) :
    p = descending key cursor rows ∧ p.length ≤ limit := by
  rw [page_eq] at h
  split at h
  · rename_i hlt
    have hempty : (descending key cursor rows).take limit = [] :=
      List.getLast?_eq_none_iff.1 (Prod.mk.inj h).2
    have hlen := congrArg List.length hempty
    simp only [List.length_take,List.length_nil] at hlen
    omega
  · obtain rfl := (Prod.mk.inj h).1
    exact ⟨rfl,by omega⟩

theorem page_next {p : List ρ} {r : ρ} (h : page key limit cursor rows = (p,some r)) :
    p.length ≤ limit ∧ ∃ p' rest,p = p' ++ [r] ∧
      descending key cursor rows = p ++ rest := by
  rw [page_eq] at h
  split at h
  · obtain ⟨rfl,hlast⟩ := Prod.mk.inj h
    obtain ⟨p',hp'⟩ := List.getLast?_eq_some_iff.1 hlast
    exact ⟨List.length_take_le _ _,p',_,hp',(List.take_append_drop limit _).symm⟩
  · simp at h

theorem page_next_subset {p : List ρ} {r : ρ} (h : page key limit cursor rows = (p,some r)) :
    r ∈ p ∧ p ⊆ descending key cursor rows := by
  obtain ⟨-,p',rest,rfl,hsplit⟩ := page_next h
  rw [hsplit]
  exact ⟨by simp,List.subset_append_left _ _⟩

theorem page_next_parts {p : List ρ} {r : ρ} (h : page key limit cursor rows = (p,some r))
    (hd : (rows.map key).Nodup) :
    p.Pairwise (fun a b => key b < key a) ∧ (∀ a ∈ p,key r ≤ key a) ∧
      ∀ a ∈ descending key cursor rows,a ∉ p → key a < key r := by
  obtain ⟨-,p',rest,rfl,hsplit⟩ := page_next h
  have hsorted : (descending key cursor rows).Pairwise fun a b => key b < key a :=
    descending_pairwise hd
  rw [hsplit] at hsorted ⊢
  obtain ⟨hpage,-,hleft⟩ := List.pairwise_append.1 hsorted
  refine ⟨hpage,fun a ha => ?_,fun a ha hnot => ?_⟩
  · obtain ha | ha := List.mem_append.1 ha
    · exact ((List.pairwise_append.1 hpage).2.2 a ha r (by simp)).le
    · rw [List.mem_singleton.1 ha]
  · exact hleft r (by simp) a ((List.mem_append.1 ha).resolve_left hnot)

variable {tables pages : List (List ρ)}

theorem Walk.sizes (hpos : 0 < limit) (h : Walk key limit cursor tables pages) :
    ∀ p ∈ pages,p.length ≤ limit := by
  induction h with
  | last hp => simpa using (page_last hpos hp).2
  | next hp _ ih => simpa using ⟨(page_next hp).1,ih⟩

theorem Walk.sources (hpos : 0 < limit) (h : Walk key limit cursor tables pages) :
    List.Forall₂ (fun p rows => p ⊆ rows) pages tables := by
  induction h with
  | last hp =>
    obtain ⟨rfl,-⟩ := page_last hpos hp
    exact .cons (fun r hr => (mem_descending.1 hr).1) .nil
  | next hp _ ih =>
    obtain ⟨-,hsub⟩ := page_next_subset hp
    exact .cons (fun r hr => (mem_descending.1 (hsub hr)).1) ih

theorem Walk.descends (hpos : 0 < limit) (h : Walk key limit cursor tables pages)
    (hd : ∀ rows ∈ tables,(rows.map key).Nodup) :
    pages.flatten.Pairwise (fun a b => key b < key a) ∧
      ∀ r ∈ pages.flatten,∀ k ∈ cursor,key r < k := by
  induction h with
  | last hp =>
    obtain ⟨rfl,-⟩ := page_last hpos hp
    simp only [List.flatten_cons,List.flatten_nil,List.append_nil]
    exact ⟨descending_pairwise (hd _ (by simp)),fun r hr => (mem_descending.1 hr).2⟩
  | @next cursor rows p r tables pages hp _ ih =>
    obtain ⟨hr,hsub⟩ := page_next_subset hp
    obtain ⟨hpage,hlast,-⟩ := page_next_parts hp (hd rows (by simp))
    obtain ⟨hrest,hbelow⟩ := ih fun rows hrows => hd rows (by simp [hrows])
    rw [List.flatten_cons]
    constructor
    · refine List.pairwise_append.2 ⟨hpage,hrest,fun a ha b hb => ?_⟩
      exact (hbelow b hb (key r) rfl).trans_le (hlast a ha)
    · intro a ha k hk
      obtain ha | ha := List.mem_append.1 ha
      · exact (mem_descending.1 (hsub ha)).2 k hk
      · exact (hbelow a ha (key r) rfl).trans ((mem_descending.1 (hsub hr)).2 k hk)

theorem Walk.finds (hpos : 0 < limit) (h : Walk key limit cursor tables pages)
    (hd : ∀ rows ∈ tables,(rows.map key).Nodup) {k : κ} (hk : ∀ c ∈ cursor,k < c)
    (hall : ∀ rows ∈ tables,∃ r ∈ rows,key r = k) : ∃ r ∈ pages.flatten,key r = k := by
  induction h with
  | @last cursor rows p hp =>
    obtain ⟨rfl,-⟩ := page_last hpos hp
    obtain ⟨r,hr,rfl⟩ := hall rows (by simp)
    exact ⟨r,by simpa using mem_descending.2 ⟨hr,hk⟩,rfl⟩
  | @next cursor rows p last tables pages hp _ ih =>
    obtain ⟨-,-,hleft⟩ := page_next_parts hp (hd rows (by simp))
    obtain ⟨r,hr,hrk⟩ := hall rows (by simp)
    have hmem : r ∈ descending key cursor rows := mem_descending.2 ⟨hr,hrk ▸ hk⟩
    by_cases hpage : r ∈ p
    · exact ⟨r,List.mem_append_left _ hpage,hrk⟩
    · have hbelow : key r < key last := hleft r hmem hpage
      obtain ⟨a,ha,hak⟩ := ih (fun rows hrows => hd rows (by simp [hrows]))
        (fun c hc => Option.some.inj hc ▸ hrk ▸ hbelow)
        (fun rows hrows => hall rows (by simp [hrows]))
      exact ⟨a,by simp [ha],hak⟩

theorem Walk.complete (hpos : 0 < limit) (h : Walk key limit none tables pages)
    (hd : ∀ rows ∈ tables,(rows.map key).Nodup) : Complete key limit tables pages := by
  have hdesc : (pages.flatten.map key).Pairwise (· > ·) :=
    List.pairwise_map.2 (h.descends hpos hd).1
  refine ⟨h.sizes hpos,h.sources hpos,hdesc,fun k hall => ?_⟩
  obtain ⟨r,hr,hrk⟩ := h.finds hpos hd (by simp) hall
  have hnodup : (pages.flatten.map key).Nodup := hdesc.imp fun hgt => (ne_of_lt hgt).symm
  exact List.count_eq_one_of_mem hnodup (List.mem_map.2 ⟨r,hr,hrk⟩)

/-- A walk ends if the keys ever seen are finitely many: each page takes the
cursor below one of them. -/
theorem exists_walk (limit : Nat) (K : Finset κ) {T : Nat → List ρ}
    (hK : ∀ i,∀ r ∈ T i,key r ∈ K) (cursor : Option κ) :
    ∃ n pages,Walk key limit cursor ((List.range (n+1)).map T) pages := by
  induction hm : (K.filter fun k => cursor.all fun c => decide (k < c)).card using
    Nat.strong_induction_on generalizing cursor T with
  | _ m ih =>
    cases hp : page key limit cursor (T 0) with
    | mk p r =>
      cases r with
      | none => exact ⟨0,[p],.last hp⟩
      | some r =>
        obtain ⟨hlast,hsub⟩ := page_next_subset hp
        obtain ⟨hr,hbelow⟩ := mem_descending.1 (hsub hlast)
        have hfewer : (K.filter fun k => (some (key r)).all fun c => decide (k < c)).card < m := by
          rw [← hm]
          refine Finset.card_lt_card (Finset.ssubset_iff_of_subset ?_ |>.2 ⟨key r,?_,?_⟩)
          · intro k hk
            simp only [Finset.mem_filter,Option.all_some,decide_eq_true_eq] at hk
            refine Finset.mem_filter.2 ⟨hk.1,?_⟩
            cases cursor with
            | none => rfl
            | some c => exact decide_eq_true (hk.2.trans (hbelow c rfl))
          · refine Finset.mem_filter.2 ⟨hK 0 r hr,?_⟩
            cases cursor with
            | none => rfl
            | some c => exact decide_eq_true (hbelow c rfl)
          · simp
        obtain ⟨n,pages,hwalk⟩ := ih _ hfewer (T := fun i => T (i+1)) (fun i => hK (i+1))
          (some (key r)) rfl
        refine ⟨n+1,p :: pages,?_⟩
        rw [List.range_succ_eq_map,List.map_cons,List.map_map]
        exact .next hp hwalk

section Tokens

variable {τ θ ε : Type}

/-- A reader that follows the tokens it is given until it gets the empty one,
each page read from the next of the stores. -/
inductive Follows (read : τ → θ → Except ε (List ρ × θ)) (done : θ) :
    θ → List τ → List (List ρ) → Prop where
  | last {t : τ} {token : θ} {p : List ρ} :
      read t token = .ok (p,done) → Follows read done token [t] [p]
  | next {t : τ} {token token' : θ} {p : List ρ} {ts : List τ} {pages : List (List ρ)} :
      read t token = .ok (p,token') → token' ≠ done → Follows read done token' ts pages →
      Follows read done token (t :: ts) (p :: pages)

variable {read : τ → θ → Except ε (List ρ × θ)} {table : τ → List ρ} {V : ρ → Prop}

/-- Where each read is a page and its token stands for the page's last row,
following the tokens is the walk. -/
theorem follows_iff_walk (token : Option ρ → θ) (hvalid : ∀ t,∀ r ∈ table t,V r)
    (hread : ∀ t c,(∀ r ∈ c,V r) → read t (token c) =
      .ok ((page key limit (c.map key) (table t)).1,token (page key limit (c.map key) (table t)).2))
    (htoken : ∀ r,V r → token (some r) ≠ token none) {c : Option ρ} (hc : ∀ r ∈ c,V r)
    {ts : List τ} :
    Follows read (token none) (token c) ts pages ↔
      Walk key limit (c.map key) (ts.map table) pages := by
  have hlast : ∀ {t : τ} {c : Option ρ} {p : List ρ} {r : ρ},
      page key limit (c.map key) (table t) = (p,some r) → V r := by
    intro t c p r hp
    obtain ⟨hr,hsub⟩ := page_next_subset hp
    exact hvalid t r (mem_descending.1 (hsub hr)).1
  induction ts generalizing c pages with
  | nil =>
    constructor
    · intro h
      cases h
    · intro h
      cases h
  | cons t ts ih =>
    have ht := hread t c hc
    cases hp : page key limit (c.map key) (table t) with
    | mk p next =>
      rw [hp] at ht
      constructor
      · intro h
        cases h with
        | last hr =>
          obtain ⟨rfl,hn⟩ := Prod.mk.inj (Except.ok.inj (ht.symm.trans hr))
          cases next with
          | none => exact .last hp
          | some r => exact absurd hn (htoken r (hlast hp))
        | next hr hne hrest =>
          obtain ⟨rfl,rfl⟩ := Prod.mk.inj (Except.ok.inj (ht.symm.trans hr))
          cases next with
          | none => exact absurd rfl hne
          | some r =>
            refine .next hp ((ih (c := some r) ?_).1 hrest)
            simpa using hlast hp
      · intro h
        rw [List.map_cons] at h
        generalize htables : table t :: ts.map table = tables at h
        cases h with
        | last hp' =>
          obtain ⟨rfl,hts⟩ := List.cons.inj htables
          obtain rfl := List.map_eq_nil_iff.1 hts
          obtain ⟨rfl,rfl⟩ := Prod.mk.inj (hp.symm.trans hp')
          exact .last ht
        | @next _ _ _ r _ _ hp' hrest =>
          obtain ⟨rfl,rfl⟩ := List.cons.inj htables
          obtain ⟨rfl,rfl⟩ := Prod.mk.inj (hp.symm.trans hp')
          refine .next ht (htoken r (hlast hp)) ((ih (c := some r) ?_).2 hrest)
          simpa using hlast hp

end Tokens

end Keyset
