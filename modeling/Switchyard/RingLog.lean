import Mathlib.Data.List.Nodup
import Mathlib.Data.List.Perm.Subperm
import Mathlib.Data.List.Induction
import Mathlib.Data.Option.Basic
set_option autoImplicit false

/-!
A log of bounded length in a fixed array that is written round and round. What
can be read back is the end of all that was written.
-/

/-- Of count entries the latest stands before next, those before it backwards
from there and around the array's end. -/
structure RingLog (α : Type) (n : Nat) where
  entries : Vector α n
  next : Nat
  count : Nat
  next_lt : next < n
  count_le : count ≤ n

namespace RingLog

variable {α : Type} {n : Nat}

def empty (zero : α) (h : 0 < n) : RingLog α n := ⟨Vector.replicate n zero,0,0,h,Nat.zero_le n⟩

variable (r : RingLog α n)

def append (x : α) : RingLog α n where
  entries := r.entries.set r.next x r.next_lt
  next := (r.next+1)%n
  count := if r.count < n then r.count+1 else r.count
  next_lt := Nat.mod_lt _ (Nat.zero_lt_of_lt r.next_lt)
  count_le := by
    have := r.count_le
    split <;> omega

def back (i : Nat) : Fin n := ⟨(r.next+n-1-i)%n,Nat.mod_lt _ (Nat.zero_lt_of_lt r.next_lt)⟩

def recent : List α := (List.range r.count).map fun i => r.entries[r.back i]

theorem recent_length : r.recent.length = r.count := by simp [recent]

theorem back_val {i : Nat} (hi : i < n) :
    (r.back i).val = if i < r.next then r.next-1-i else r.next+n-1-i := by
  have hnext := r.next_lt
  simp only [back]
  split
  · have hwrap : r.next+n-1-i = r.next-1-i+n := by omega
    rw [hwrap,Nat.add_mod_right,Nat.mod_eq_of_lt (by omega)]
  · exact Nat.mod_eq_of_lt (by omega)

theorem append_next (x : α) : (r.append x).next = if r.next+1 = n then 0 else r.next+1 := by
  have hnext := r.next_lt
  simp only [append]
  split
  · rename_i hfull
    rw [hfull,Nat.mod_self]
  · exact Nat.mod_eq_of_lt (by omega)

/-- The entry just written is the latest, and all others move one back. -/
theorem back_append (x : α) {i : Nat} (hi : i < n) :
    ((r.append x).back i).val = if i = 0 then r.next else (r.back (i-1)).val := by
  have hnext := r.next_lt
  have hstart := r.append_next x
  rw [back_val _ hi,back_val r (by omega : i-1 < n)]
  split at hstart <;> repeat' split
  all_goals omega

theorem back_ne_next {i : Nat} (hi : i+1 < n) : (r.back i).val ≠ r.next := by
  have hnext := r.next_lt
  rw [back_val r (by omega)]
  split <;> omega

theorem get_append (x : α) {i : Nat} (hi : i < n) :
    (r.append x).entries[(r.append x).back i] =
      if i = 0 then x else r.entries[r.back (i-1)] := by
  have hback := r.back_append x hi
  simp only [Fin.getElem_fin,hback]
  split
  · simp [append]
  · rename_i hlater
    have hother := r.back_ne_next (by omega : i-1+1 < n)
    simp [append,hother.symm]

theorem recent_append (x : α) : (r.append x).recent = (x :: r.recent).take n := by
  have hcount := r.count_le
  have hlength : (r.append x).count = min n (r.count+1) := by
    simp only [append]
    split <;> omega
  refine List.ext_getElem ?_ fun i hi hi' => ?_
  · simp [recent_length,hlength]
  · rw [recent_length,hlength] at hi
    have hread := r.get_append x (by omega : i < n)
    cases i with
    | zero => simpa [recent] using hread
    | succ i => simpa [recent] using hread

theorem recent_append_of {xs : List α} (h : r.recent = xs.take n) (x : α) :
    (r.append x).recent = (x :: xs).take n := by
  have hnext := r.next_lt
  obtain ⟨m,rfl⟩ : ∃ m,n = m+1 := ⟨n-1,by omega⟩
  rw [recent_append,h,List.take_succ_cons,List.take_take,List.take_succ_cons]
  simp

def appendAll (xs : List α) : RingLog α n := xs.foldl append r

theorem recent_appendAll (xs : List α) (h : r.recent = []) :
    (r.appendAll xs).recent = xs.reverse.take n := by
  induction xs using List.reverseRecOn with
  | nil => simpa [appendAll] using h
  | append_singleton xs x ih =>
    rw [appendAll,List.foldl_concat,List.reverse_concat]
    exact recent_append_of _ ih x

def last : Option α := if r.count = 0 then none else some r.entries[r.back 0]

theorem last_eq : r.last = r.recent.head? := by
  rw [last,recent]
  split
  · simp [*]
  · rename_i hcount
    rw [← Nat.succ_pred hcount,List.range_succ_eq_map]
    rfl

/-- Written from the array's start, and around it only once it is full. -/
def Packed : Prop := r.count = n ∨ r.next = r.count

variable {r}

theorem Packed.append (h : r.Packed) (x : α) : (r.append x).Packed := by
  have hnext := r.next_lt
  have hcount := r.count_le
  have hwrap := r.append_next x
  unfold Packed at h ⊢
  simp only [RingLog.append] at hwrap ⊢
  split at hwrap <;> split <;> omega

theorem Packed.appendAll (h : r.Packed) (xs : List α) : (r.appendAll xs).Packed := by
  induction xs generalizing r with
  | nil => exact h
  | cons x xs ih => exact ih (h.append x)

theorem Packed.back_perm (h : r.Packed) :
    ((List.range r.count).map fun i => (r.back i).val).Perm (List.range r.count) := by
  have hnext := r.next_lt
  have hcount := r.count_le
  have hback : ∀ i < r.count,(r.back i).val = if i < r.next then r.next-1-i else r.next+n-1-i :=
    fun i hi => r.back_val (by omega)
  have hnodup : ((List.range r.count).map fun i => (r.back i).val).Nodup := by
    refine List.Nodup.map_on (fun i hi j hj heq => ?_) List.nodup_range
    rw [List.mem_range] at hi hj
    rw [hback i hi,hback j hj] at heq
    split at heq <;> split at heq <;> omega
  refine (List.subperm_of_subset hnodup fun p hp => ?_).perm_of_length_le (by simp)
  obtain ⟨i,hi,rfl⟩ := List.mem_map.1 hp
  rw [List.mem_range] at hi ⊢
  rw [hback i hi]
  unfold Packed at h
  split <;> omega

theorem Packed.recent_perm (h : r.Packed) : r.recent.Perm (r.entries.toList.take r.count) := by
  have hcount := r.count_le
  refine (List.map_perm_map_iff (Option.some_injective α)).1 ?_
  have hrecent : r.recent.map some =
      ((List.range r.count).map fun i => (r.back i).val).map (r.entries.toList[·]?) := by
    rw [recent,List.map_map,List.map_map]
    refine List.map_congr_left fun i _ => ?_
    simp
  have hstored : (r.entries.toList.take r.count).map some =
      (List.range r.count).map (r.entries.toList[·]?) := by
    refine List.ext_getElem (by simp [hcount]) fun i hi hi' => ?_
    simp at hi ⊢
  rw [hrecent,hstored]
  exact h.back_perm.map _

end RingLog
