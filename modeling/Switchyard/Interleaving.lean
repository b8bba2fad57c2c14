set_option autoImplicit false

/-!
Threads on nodes against one server. What a thread does in one go depends on the
server, on the memory of its node and on where the thread stands, and changes
these three only.
-/

namespace Interleaving

structure Thread (π : Type) where
  id : Nat
  node : Nat
  point : π
  deriving Repr

structure System (ν μ π : Type) where
  server : ν
  nodes : Nat → μ
  threads : List (Thread π)

/-- What a thread leaves behind; it has ended where there is no next point. -/
structure Outcome (ν μ π : Type) where
  server : ν
  node : μ
  point : Option π

namespace System

variable {ν μ π : Type} (s : System ν μ π)

def thread (id : Nat) : Option (Thread π) := s.threads.find? (·.id = id)

def others (id : Nat) : List (Thread π) := s.threads.filter (·.id ≠ id)

def settle (id node : Nat) (o : Outcome ν μ π) : System ν μ π :=
  { server := o.server
    nodes := fun n => if n = node then o.node else s.nodes n
    threads := match o.point with
      | some p => ⟨id,node,p⟩ :: s.others id
      | none => s.others id }

variable {s} {id node : Nat} {o : Outcome ν μ π} {t : Thread π}

theorem thread_mem (h : s.thread id = some t) : t ∈ s.threads := List.mem_of_find?_eq_some h

theorem others_mem (h : t ∈ s.others id) : t ∈ s.threads := (List.mem_filter.1 h).1

theorem mem_settle (h : t ∈ (s.settle id node o).threads) :
    o.point = some t.point ∨ t ∈ s.others id := by
  unfold settle at h
  cases hpoint : o.point with
  | none =>
    simp only [hpoint] at h
    exact .inr h
  | some p =>
    simp only [hpoint,List.mem_cons] at h
    obtain heq | hmem := h
    · exact .inl (by rw [heq])
    · exact .inr hmem

/-- An invariant in three parts: of the server, of every node's memory and of
every thread, the latter two beside the server. -/
structure Kept (G : ν → Prop) (Q : ν → μ → Prop) (R : ν → π → Prop) (s : System ν μ π) : Prop where
  server : G s.server
  nodes : ∀ n,Q s.server (s.nodes n)
  threads : ∀ t ∈ s.threads,R s.server t.point

variable {G : ν → Prop} {Q : ν → μ → Prop} {R : ν → π → Prop}

/-- One thread's outcome is checked at its server, its node and its next point;
the rest needs that the change of the server does no harm. -/
theorem Kept.settle (h : Kept G Q R s) (hserver : G o.server) (hnode : Q o.server o.node)
    (hpoint : ∀ p,o.point = some p → R o.server p) (hnodes : ∀ m,Q s.server m → Q o.server m)
    (hthreads : ∀ t ∈ s.others id,R s.server t.point → R o.server t.point) :
    Kept G Q R (s.settle id node o) := by
  refine ⟨hserver,fun n => ?_,fun t ht => ?_⟩
  · by_cases hn : n = node
    · simpa [System.settle,hn] using hnode
    · simpa [System.settle,hn] using hnodes _ (h.nodes n)
  · obtain hnew | hold := mem_settle ht
    · exact hpoint _ hnew
    · exact hthreads t hold (h.threads t (others_mem hold))

theorem Kept.serve (h : Kept G Q R s) {v : ν} (hserver : G v) (hnodes : ∀ m,Q s.server m → Q v m)
    (hthreads : ∀ t ∈ s.threads,R s.server t.point → R v t.point) :
    Kept G Q R { s with server := v } :=
  ⟨hserver,fun n => hnodes _ (h.nodes n),fun t ht => hthreads t ht (h.threads t ht)⟩

end System

end Interleaving
