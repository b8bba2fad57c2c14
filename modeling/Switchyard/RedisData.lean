import Mathlib.Data.List.Basic
import Mathlib.Order.Lattice
set_option autoImplicit false

/-!
Redis hashes and sorted sets, and values that carry a deadline.
-/

namespace RedisData

/-- A hash: distinct fields with byte-string values. -/
structure Hash where
  fields : List (String × List UInt8)
  deriving DecidableEq, Repr

def Hash.empty : Hash := ⟨[]⟩

def Hash.get? (h : Hash) (f : String) : Option (List UInt8) := h.fields.lookup f

def Hash.put (h : Hash) (f : String) (v : List UInt8) : Hash :=
  ⟨(f,v) :: h.fields.filter (·.1 ≠ f)⟩

def Hash.putAll (h : Hash) (fs : List (String × List UInt8)) : Hash :=
  fs.foldl (fun h p => h.put p.1 p.2) h

theorem lookup_filter_ne {f g : String} (hne : g ≠ f) (l : List (String × List UInt8)) :
    (l.filter (·.1 ≠ f)).lookup g = l.lookup g := by
  induction l with
  | nil => rfl
  | cons p l ih =>
    obtain ⟨k,v⟩ := p
    by_cases hk : k = f
    · have hgk : (g == k) = false := by simp [hk,hne]
      simp only [hk,ne_eq,not_true,decide_false,Bool.false_eq_true,not_false_iff,
        List.filter_cons_of_neg] at ih ⊢
      rw [ih,List.lookup_cons,← hk,hgk]
    · rw [List.filter_cons_of_pos (by simpa using hk),List.lookup_cons,List.lookup_cons,ih]

theorem Hash.get?_put (h : Hash) (f g : String) (v : List UInt8) :
    (h.put f v).get? g = if g = f then some v else h.get? g := by
  by_cases hg : g = f
  · simp [Hash.put,Hash.get?,hg]
  · simp only [Hash.put,Hash.get?,List.lookup_cons,beq_eq_false_iff_ne.2 hg,hg,ite_false]
    exact lookup_filter_ne hg _

theorem Hash.get?_putAll_of_notMem (h : Hash) {fs : List (String × List UInt8)} {g : String}
    (hg : g ∉ fs.map Prod.fst) : (h.putAll fs).get? g = h.get? g := by
  induction fs generalizing h with
  | nil => rfl
  | cons p fs ih =>
    simp only [List.map_cons,List.mem_cons,not_or] at hg
    have hrest := ih (h.put p.1 p.2) hg.2
    rw [Hash.get?_put,if_neg hg.1] at hrest
    exact hrest

theorem Hash.get?_putAll (h : Hash) {fs : List (String × List UInt8)} {g : String}
    {v : List UInt8} (hd : (fs.map Prod.fst).Nodup) (hm : (g,v) ∈ fs) :
    (h.putAll fs).get? g = some v := by
  induction fs generalizing h with
  | nil => simp at hm
  | cons p fs ih =>
    simp only [List.map_cons,List.nodup_cons] at hd
    obtain rfl | hm := List.mem_cons.1 hm
    · have hfirst := Hash.get?_putAll_of_notMem (h.put g v) hd.1
      rw [Hash.get?_put,if_pos rfl] at hfirst
      exact hfirst
    · exact ih (h.put p.1 p.2) hd.2 hm

/-- A rank as Redis reads it, a negative one counting from the end. -/
def rank (length : Nat) (i : Int) : Int := if i < 0 then i+length else i

def slice {α : Type} (l : List α) (start stop : Int) : List α :=
  (l.take (rank l.length stop+1).toNat).drop (rank l.length start).toNat

theorem mem_of_mem_slice {α : Type} {l : List α} {start stop : Int} {a : α}
    (h : a ∈ slice l start stop) : a ∈ l := List.mem_of_mem_take (List.mem_of_mem_drop h)

theorem slice_all {α : Type} (l : List α) : slice l 0 (-1) = l := by
  have hstop : (rank l.length (-1)+1).toNat = l.length := by
    simp only [rank]
    omega
  rw [slice,hstop,List.take_length]
  rfl

def sliceOut {α : Type} (l : List α) (start stop : Int) : List α :=
  if rank l.length stop < rank l.length start then l
  else l.take (rank l.length start).toNat ++ l.drop (rank l.length stop+1).toNat

theorem mem_of_mem_sliceOut {α : Type} {l : List α} {start stop : Int} {a : α}
    (h : a ∈ sliceOut l start stop) : a ∈ l := by
  unfold sliceOut at h
  split at h
  · exact h
  · obtain h | h := List.mem_append.1 h
    · exact List.mem_of_mem_take h
    · exact List.mem_of_mem_drop h

variable {κ : Type} [LinearOrder κ]

/-- A sorted set: members ascending by score, then by name. -/
def insertScored (score : κ) (member : String) : List (κ × String) → List (κ × String)
  | [] => [(score,member)]
  | (s,m) :: rest =>
    if score < s ∨ (score = s ∧ member < m) then (score,member) :: (s,m) :: rest
    else (s,m) :: insertScored score member rest

def zAdd (z : List (κ × String)) (score : κ) (member : String) : List (κ × String) :=
  insertScored score member (z.filter (·.2 ≠ member))

theorem mem_insertScored {score : κ} {member : String} {z : List (κ × String)}
    {p : κ × String} (h : p ∈ insertScored score member z) : p = (score,member) ∨ p ∈ z := by
  induction z with
  | nil => simpa [insertScored] using h
  | cons q z ih =>
    obtain ⟨s,m⟩ := q
    simp only [insertScored] at h
    split at h
    · simpa using h
    · obtain rfl | h := List.mem_cons.1 h
      · simp
      · obtain h | h := ih h
        · exact .inl h
        · simp [h]

theorem subset_insertScored (score : κ) (member : String) (z : List (κ × String)) :
    (score,member) :: z ⊆ insertScored score member z := by
  induction z with
  | nil => simp [insertScored]
  | cons q z ih =>
    simp only [insertScored]
    split
    · exact List.Subset.refl _
    · simp only [List.cons_subset] at ih ⊢
      exact ⟨List.mem_cons_of_mem _ ih.1,List.mem_cons_self,
        List.Subset.trans ih.2 (List.subset_cons_self _ _)⟩

theorem names_zAdd (z : List (κ × String)) (score : κ) (member : String) :
    member :: z.map Prod.snd ⊆ (zAdd z score member).map Prod.snd := by
  have hsub := List.map_subset Prod.snd
    (subset_insertScored score member (z.filter (·.2 ≠ member)))
  intro m hm
  by_cases hne : m = member
  · exact hsub (by simp [hne])
  · obtain ⟨p,hp,rfl⟩ := List.mem_map.1 ((List.mem_cons.1 hm).resolve_left hne)
    have hkept : p ∈ z.filter (·.2 ≠ member) := List.mem_filter.2 ⟨hp,by simpa using hne⟩
    exact hsub (List.mem_cons_of_mem _ (List.mem_map_of_mem hkept))

theorem mem_zAdd {score : κ} {member : String} {z : List (κ × String)} {p : κ × String}
    (h : p ∈ zAdd z score member) : p = (score,member) ∨ p ∈ z := by
  obtain h | h := mem_insertScored h
  · exact .inl h
  · exact .inr (List.mem_of_mem_filter h)

def zRem (z : List (κ × String)) (members : List String) : List (κ × String) :=
  z.filter fun p => p.2 ∉ members

/-- A value with the time at which it disappears, if any. -/
structure Timed (α : Type) where
  value : α
  deadline : Option Int
  deriving DecidableEq, Repr

theorem Timed.deadline_of_bind {α : Type} {o : Option (Timed α)} {x : Timed α} {d : Int}
    (h : o.bind Timed.deadline = some d) (hx : o = some x) : x.deadline = some d := by
  rwa [hx] at h

def Timed.aliveAt {α : Type} (now : Int) (t : Timed α) : Bool :=
  match t.deadline with
  | none => true
  | some d => now < d

end RedisData
