set_option autoImplicit false

/-!
Programs that act through atomic calls, and the interleavings of several of them
over a shared store. A program is a tree: it returns, or it makes a call and
goes on with the answer. What one thread did is the list of its calls and
answers; a history of several threads is a list whose part for each thread is
such a list.
-/

namespace CallTree

inductive Prog (Op : Type) (Ans : Op → Type) (α : Type) : Type where
  | ret (a : α)
  | call (op : Op) (k : Ans op → Prog Op Ans α)

variable {Op Op' : Type} {Ans : Op → Type} {Ans' : Op' → Type} {α β σ : Type}

def Prog.bind : Prog Op Ans α → (α → Prog Op Ans β) → Prog Op Ans β
  | .ret a,f => f a
  | .call op k,f => .call op fun ans => (k ans).bind f

instance : Monad (Prog Op Ans) where
  pure := .ret
  bind := Prog.bind

def perform (op : Op) : Prog Op Ans (Ans op) := .call op .ret

structure Event (Op : Type) (Ans : Op → Type) where
  op : Op
  ans : Ans op

/-- `p.After tr q`: having made the calls tr, p goes on as q. -/
inductive Prog.After : Prog Op Ans α → List (Event Op Ans) → Prog Op Ans α → Prop where
  | start (p : Prog Op Ans α) : After p [] p
  | next {op : Op} {k : Ans op → Prog Op Ans α} {ans : Ans op} {tr : List (Event Op Ans)}
      {q : Prog Op Ans α} : After (k ans) tr q → After (.call op k) (⟨op,ans⟩ :: tr) q

/-- `p.Returns tr a`: p makes the calls tr and then returns a. -/
def Prog.Returns (p : Prog Op Ans α) (tr : List (Event Op Ans)) (a : α) : Prop :=
  p.After tr (.ret a)

variable {tr : List (Event Op Ans)}

@[simp] theorem returns_ret {a b : α} :
    (Prog.ret a : Prog Op Ans α).Returns tr b ↔ tr = [] ∧ a = b := by
  constructor
  · intro h
    cases h
    exact ⟨rfl,rfl⟩
  · intro h
    obtain ⟨rfl,rfl⟩ := h
    exact .start _

@[simp] theorem returns_pure {a b : α} :
    (pure a : Prog Op Ans α).Returns tr b ↔ tr = [] ∧ a = b := returns_ret

@[simp] theorem returns_call {op : Op} {k : Ans op → Prog Op Ans α} {b : α} :
    (Prog.call op k).Returns tr b ↔ ∃ ans rest,tr = ⟨op,ans⟩ :: rest ∧ (k ans).Returns rest b := by
  constructor
  · intro h
    cases h with
    | next h => exact ⟨_,_,rfl,h⟩
  · intro h
    obtain ⟨ans,rest,rfl,h⟩ := h
    exact .next h

@[simp] theorem returns_perform {op : Op} {b : Ans op} :
    (perform op).Returns tr b ↔ tr = [⟨op,b⟩] := by
  constructor
  · intro h
    obtain ⟨ans,rest,rfl,hrest⟩ := returns_call.1 h
    obtain ⟨rfl,rfl⟩ := returns_ret.1 hrest
    rfl
  · intro h
    exact returns_call.2 ⟨b,[],h,returns_ret.2 ⟨rfl,rfl⟩⟩

theorem returns_perform_bind {op : Op} {f : Ans op → Prog Op Ans β} {b : β} :
    (perform op >>= f).Returns tr b ↔
      ∃ ans rest,tr = [⟨op,ans⟩] ++ rest ∧ (f ans).Returns rest b := returns_call

variable {f : α → Prog Op Ans β}

@[simp] theorem returns_bind {p : Prog Op Ans α} {b : β} :
    (p >>= f).Returns tr b ↔
      ∃ tr₁ a tr₂,tr = tr₁ ++ tr₂ ∧ p.Returns tr₁ a ∧ (f a).Returns tr₂ b := by
  induction p generalizing tr with
  | ret a =>
    constructor
    · intro h
      exact ⟨[],a,tr,rfl,returns_ret.2 ⟨rfl,rfl⟩,h⟩
    · intro h
      obtain ⟨tr₁,a',tr₂,rfl,h₁,h₂⟩ := h
      obtain ⟨rfl,rfl⟩ := returns_ret.1 h₁
      exact h₂
  | call op k ih =>
    constructor
    · intro h
      obtain ⟨ans,rest,rfl,hrest⟩ := returns_call.1 h
      obtain ⟨tr₁,a,tr₂,rfl,h₁,h₂⟩ := (ih ans).1 hrest
      exact ⟨⟨op,ans⟩ :: tr₁,a,tr₂,rfl,.next h₁,h₂⟩
    · intro h
      obtain ⟨tr₁,a,tr₂,rfl,h₁,h₂⟩ := h
      obtain ⟨ans,rest,rfl,hrest⟩ := returns_call.1 h₁
      exact .next ((ih ans).2 ⟨rest,a,tr₂,rfl,hrest,h₂⟩)

theorem Prog.Returns.rest {p : Prog Op Ans α} {a : α} {b : β}
    {tr₁ tr₂ : List (Event Op Ans)} (hp : p.Returns tr₁ a) (h : (p >>= f).Returns (tr₁ ++ tr₂) b) :
    (f a).Returns tr₂ b := by
  induction p generalizing tr₁ with
  | ret c =>
    obtain ⟨rfl,rfl⟩ := returns_ret.1 hp
    exact h
  | call op k ih =>
    obtain ⟨ans,rest,rfl,hrest⟩ := returns_call.1 hp
    obtain ⟨ans',rest',heq,h'⟩ := returns_call.1 h
    obtain ⟨hev,rfl⟩ := List.cons.inj heq
    cases hev
    exact ih ans hrest h'

variable {γ ε δ : Type}

/-- Goes on with the value of a part that succeeded; an error ends the program
with that error reworded. -/
def orFail (p : Prog Op Ans (Except ε α)) (reword : ε → δ) (k : α → Prog Op Ans (Except δ γ)) :
    Prog Op Ans (Except δ γ) :=
  p >>= fun r => match r with
    | .error e => pure (.error (reword e))
    | .ok a => k a

variable {p : Prog Op Ans (Except ε α)} {k : α → Prog Op Ans (Except δ γ)}

variable {reword : ε → δ}

theorem returns_orFail_cases {c : Except δ γ} (h : (orFail p reword k).Returns tr c) :
    (∃ e,p.Returns tr (.error e) ∧ c = .error (reword e)) ∨
      ∃ tr₁ a tr₂,tr = tr₁ ++ tr₂ ∧ p.Returns tr₁ (.ok a) ∧ (k a).Returns tr₂ c := by
  obtain ⟨tr₁,r,tr₂,rfl,h₁,h₂⟩ := returns_bind.1 h
  cases r with
  | error e =>
    obtain ⟨rfl,rfl⟩ := returns_pure.1 h₂
    exact .inl ⟨e,by rwa [List.append_nil],rfl⟩
  | ok a => exact .inr ⟨tr₁,a,tr₂,rfl,h₁,h₂⟩

theorem returns_orFail {c : γ} (h : (orFail p reword k).Returns tr (.ok c)) :
    ∃ tr₁ a tr₂,tr = tr₁ ++ tr₂ ∧ p.Returns tr₁ (.ok a) ∧ (k a).Returns tr₂ (.ok c) := by
  obtain ⟨e,-,he⟩ | hsplit := returns_orFail_cases h
  · simp at he
  · exact hsplit

def Prog.Calls (P : Op → Prop) : Prog Op Ans α → Prop
  | .ret _ => True
  | .call op k => P op ∧ ∀ ans,(k ans).Calls P

variable {P : Op → Prop}

theorem Prog.After.calls {p q : Prog Op Ans α} (h : p.After tr q) (hp : p.Calls P) :
    ∀ e ∈ tr,P e.op := by
  induction h with
  | start p => simp
  | next _ ih =>
    intro e he
    obtain rfl | he := List.mem_cons.1 he
    · exact hp.1
    · exact ih (hp.2 _) e he

@[simp] theorem calls_pure (a : α) : (pure a : Prog Op Ans α).Calls P := trivial

@[simp] theorem calls_perform {op : Op} : (perform op : Prog Op Ans (Ans op)).Calls P ↔ P op := by
  simp [perform,Prog.Calls]

theorem calls_any {p : Prog Op Ans α} (hP : ∀ op,P op) : p.Calls P := by
  induction p with
  | ret a => trivial
  | call op k ih => exact ⟨hP op,ih⟩

theorem calls_bind {p : Prog Op Ans α} (hp : p.Calls P) (hf : ∀ a,(f a).Calls P) :
    (p >>= f).Calls P := by
  induction p with
  | ret a => exact hf a
  | call op k ih => exact ⟨hp.1,fun ans => ih ans (hp.2 ans)⟩

theorem calls_orFail (hp : p.Calls P) (hk : ∀ a,(k a).Calls P) : (orFail p reword k).Calls P := by
  refine calls_bind hp fun r => ?_
  cases r with
  | error e => trivial
  | ok a => exact hk a

theorem Prog.Calls.mono {Q : Op → Prop} {p : Prog Op Ans α} (hp : p.Calls P)
    (himp : ∀ op,P op → Q op) : p.Calls Q := by
  induction p with
  | ret a => trivial
  | call op k ih => exact ⟨himp op hp.1,fun ans => ih ans (hp.2 ans)⟩

/-- The first call is first, and every later one meets P. -/
def Prog.Opens (first : Op) (P : Op → Prop) : Prog Op Ans α → Prop
  | .ret _ => False
  | .call op k => op = first ∧ ∀ ans,(k ans).Calls P

theorem opens_bind {first : Op} {p : Prog Op Ans α}
    (hp : p.Opens first P) (hf : ∀ a,(f a).Calls P) : (p >>= f).Opens first P := by
  cases p with
  | ret a => exact hp.elim
  | call op k => exact ⟨hp.1,fun ans => calls_bind (hp.2 ans) hf⟩

theorem opens_orFail {first : Op} (hp : p.Opens first P) (hk : ∀ a,(k a).Calls P) :
    (orFail p reword k).Opens first P := by
  refine opens_bind hp fun r => ?_
  cases r with
  | error e => trivial
  | ok a => exact hk a

theorem Prog.Opens.head {first : Op} {p q : Prog Op Ans α} {e : Event Op Ans}
    {a b : List (Event Op Ans)} (hp : p.Opens first P) (h : p.After (a ++ e :: b) q)
    (he : ¬P e.op) : a = [] := by
  cases a with
  | nil => rfl
  | cons e' a =>
    cases h with
    | next h => exact absurd (h.calls (hp.2 _) e (by simp)) he

def Prog.exec (world : σ → (op : Op) → Ans op × σ) :
    Prog Op Ans α → σ → List (Event Op Ans) × α × σ
  | .ret a,s => ([],a,s)
  | .call op k,s =>
    let rest := (k (world s op).1).exec world (world s op).2
    (⟨op,(world s op).1⟩ :: rest.1,rest.2)

theorem returns_exec (world : σ → (op : Op) → Ans op × σ) (p : Prog Op Ans α) (s : σ) :
    p.Returns (p.exec world s).1 (p.exec world s).2.1 := by
  induction p generalizing s with
  | ret a => exact .start _
  | call op k ih => exact .next (ih _ _)

theorem exec_bind (world : σ → (op : Op) → Ans op × σ) (p : Prog Op Ans α)
    (f : α → Prog Op Ans β) (s : σ) :
    ((p >>= f).exec world s).2 =
      ((f (p.exec world s).2.1).exec world (p.exec world s).2.2).2 := by
  induction p generalizing s with
  | ret a => rfl
  | call op k ih => exact ih _ _

variable {s : σ} {world : σ → (op : Op) → Ans op × σ}

theorem exec_orFail {a : α} (h : (p.exec world s).2.1 = .ok a) (reword : ε → δ)
    (k : α → Prog Op Ans (Except δ γ)) :
    ((orFail p reword k).exec world s).2 = ((k a).exec world (p.exec world s).2.2).2 := by
  rw [orFail,exec_bind,h]

theorem mem_exec {p : Prog Op Ans α} {e : Event Op Ans} (he : e ∈ (p.exec world s).1) :
    ∃ t,e = ⟨e.op,(world t e.op).1⟩ := by
  induction p generalizing s with
  | ret a => simp [Prog.exec] at he
  | call op k ih =>
    obtain rfl | he := List.mem_cons.1 he
    · exact ⟨s,rfl⟩
    · exact ih _ he

/-- A program over one set of calls inside a larger set. -/
def Prog.embed (f : Op → Op') (g : (op : Op) → Ans' (f op) → Ans op) :
    Prog Op Ans α → Prog Op' Ans' α
  | .ret a => .ret a
  | .call op k => .call (f op) fun ans => (k (g op ans)).embed f g

structure Step (Op : Type) (Ans : Op → Type) where
  thread : Nat
  event : Event Op Ans

def traceOf (i : Nat) (h : List (Step Op Ans)) : List (Event Op Ans) :=
  (h.filter fun s => s.thread = i).map Step.event

/-- A history of the threads: each one's calls are those of its program so far. -/
def Interleaves (threads : List (Prog Op Ans α)) (h : List (Step Op Ans)) : Prop :=
  ∀ s ∈ h,∃ p ∈ threads[s.thread]?,∃ q,p.After (traceOf s.thread h) q

theorem mem_traceOf {i : Nat} {h : List (Step Op Ans)} {e : Event Op Ans} :
    e ∈ traceOf i h ↔ ⟨i,e⟩ ∈ h := by
  simp only [traceOf,List.mem_map,List.mem_filter,decide_eq_true_eq]
  constructor
  · intro hm
    obtain ⟨⟨j,e'⟩,⟨hs,rfl⟩,rfl⟩ := hm
    exact hs
  · intro hs
    exact ⟨⟨i,e⟩,⟨hs,rfl⟩,rfl⟩

theorem traceOf_append (i : Nat) (g h : List (Step Op Ans)) :
    traceOf i (g ++ h) = traceOf i g ++ traceOf i h := by
  simp [traceOf]

theorem traceOf_cons_self (x : Step Op Ans) (h : List (Step Op Ans)) :
    traceOf x.thread (x :: h) = x.event :: traceOf x.thread h := by
  simp [traceOf]

theorem traceOf_map_self (i : Nat) (tr : List (Event Op Ans)) :
    traceOf i (tr.map (Step.mk i)) = tr := by
  simp [traceOf,List.filter_map,Function.comp_def]

theorem traceOf_map_of_ne {i j : Nat} (hne : j ≠ i) (tr : List (Event Op Ans)) :
    traceOf i (tr.map (Step.mk j)) = [] := by
  simp [traceOf,List.filter_map,Function.comp_def,hne]

theorem traceOf_inTurn (a b : List (Event Op Ans)) :
    traceOf 0 (a.map (Step.mk 0) ++ b.map (Step.mk 1)) = a ∧
      traceOf 1 (a.map (Step.mk 0) ++ b.map (Step.mk 1)) = b := by
  constructor
  · rw [traceOf_append,traceOf_map_self,traceOf_map_of_ne (by decide),List.append_nil]
  · rw [traceOf_append,traceOf_map_self,traceOf_map_of_ne (by decide),List.nil_append]

/-- Two threads, of which the second starts where the first has stopped. -/
theorem interleaves_inTurn {p₀ p₁ q₀ q₁ : Prog Op Ans α} {a b : List (Event Op Ans)}
    (h₀ : p₀.After a q₀) (h₁ : p₁.After b q₁) :
    Interleaves [p₀,p₁] (a.map (Step.mk 0) ++ b.map (Step.mk 1)) := by
  intro x hx
  obtain ⟨hfirst,hsecond⟩ := traceOf_inTurn a b
  obtain hx | hx := List.mem_append.1 hx
  · obtain ⟨e,-,rfl⟩ := List.mem_map.1 hx
    exact ⟨_,rfl,q₀,hfirst.symm ▸ h₀⟩
  · obtain ⟨e,-,rfl⟩ := List.mem_map.1 hx
    exact ⟨_,rfl,q₁,hsecond.symm ▸ h₁⟩

/-- The store answers the calls of a history in turn; between two calls the
environment may act on its own. -/
inductive Served (exec : σ → Event Op Ans → σ → Prop) (env : σ → σ → Prop) :
    σ → List (Step Op Ans) → σ → Prop where
  | done (s : σ) : Served exec env s [] s
  | call {s t u : σ} {x : Step Op Ans} {h : List (Step Op Ans)} : exec s x.event t →
      Served exec env t h u → Served exec env s (x :: h) u
  | env {s t u : σ} {h : List (Step Op Ans)} : env s t →
      Served exec env t h u → Served exec env s h u

variable {exec : σ → Event Op Ans → σ → Prop} {env : σ → σ → Prop}

/-- What every call and every act of the environment preserve holds at the end.
The invariant may speak of the calls made so far. -/
theorem Served.invariant {I : List (Step Op Ans) → σ → Prop} {ok : Step Op Ans → Prop}
    (hcall : ∀ past s x t,I past s → ok x → exec s x.event t → I (past ++ [x]) t)
    (henv : ∀ past s t,I past s → env s t → I past t)
    {u : σ} {h : List (Step Op Ans)} (hrun : Served exec env s h u) (hok : ∀ x ∈ h,ok x)
    {past : List (Step Op Ans)} (hs : I past s) : I (past ++ h) u := by
  induction hrun generalizing past with
  | done s => simpa using hs
  | @call s t u x h hexec _ ih =>
    have hx := hcall past s x t hs (hok x (by simp)) hexec
    have hrest := ih (fun y hy => hok y (by simp [hy])) hx
    simpa using hrest
  | env he _ ih => exact ih hok (henv _ _ _ hs he)

theorem Served.keeps {I : σ → Prop} {P : Step Op Ans → Prop}
    (hcall : ∀ s x t,I s → P x → exec s x.event t → I t) (henv : ∀ s t,I s → env s t → I t) {u : σ}
    {h : List (Step Op Ans)} (hrun : Served exec env s h u) (hP : ∀ x ∈ h,P x) (hs : I s) :
    I u := by
  induction hrun with
  | done s => exact hs
  | call hexec _ ih =>
    exact ih (fun y hy => hP y (by simp [hy])) (hcall _ _ _ hs (hP _ (by simp)) hexec)
  | env he _ ih => exact ih hP (henv _ _ hs he)

theorem Served.split {u : σ} {a b : List (Step Op Ans)} {x : Step Op Ans}
    (h : Served exec env s (a ++ x :: b) u) :
    ∃ t t',Served exec env s a t ∧ exec t x.event t' ∧ Served exec env t' b u := by
  generalize hl : a ++ x :: b = l at h
  induction h generalizing a with
  | done s => simp at hl
  | @call s t u y h hexec hrest ih =>
    cases a with
    | nil =>
      simp only [List.nil_append,List.cons.injEq] at hl
      obtain ⟨rfl,rfl⟩ := hl
      exact ⟨s,t,.done s,hexec,hrest⟩
    | cons z a =>
      simp only [List.cons_append,List.cons.injEq] at hl
      obtain ⟨rfl,rfl⟩ := hl
      obtain ⟨v,v',h₁,h₂,h₃⟩ := ih rfl
      exact ⟨v,v',.call hexec h₁,h₂,h₃⟩
  | env he _ ih =>
    obtain ⟨v,v',h₁,h₂,h₃⟩ := ih hl
    exact ⟨v,v',.env he h₁,h₂,h₃⟩

theorem Served.cut {u : σ} {a b : List (Step Op Ans)} (h : Served exec env s (a ++ b) u) :
    ∃ t,Served exec env s a t ∧ Served exec env t b u := by
  generalize hl : a ++ b = l at h
  induction h generalizing a with
  | done s =>
    obtain ⟨rfl,rfl⟩ := List.append_eq_nil_iff.1 hl
    exact ⟨s,.done s,.done s⟩
  | @call s t u y h hexec hrest ih =>
    cases a with
    | nil =>
      obtain rfl : b = y :: h := hl
      exact ⟨s,.done s,.call hexec hrest⟩
    | cons z a =>
      obtain ⟨rfl,rfl⟩ := List.cons.inj hl
      obtain ⟨v,h₁,h₂⟩ := ih rfl
      exact ⟨v,.call hexec h₁,h₂⟩
  | env he _ ih =>
    obtain ⟨v,h₁,h₂⟩ := ih hl
    exact ⟨v,.env he h₁,h₂⟩

theorem Served.append {t u : σ} {g h : List (Step Op Ans)} (hg : Served exec env s g t)
    (hh : Served exec env t h u) : Served exec env s (g ++ h) u := by
  induction hg with
  | done s => exact hh
  | call hexec _ ih => exact .call hexec (ih hh)
  | env henv _ ih => exact .env henv (ih hh)

theorem Served.imp {exec' : σ → Event Op Ans → σ → Prop} (himp : ∀ s x t,exec s x t → exec' s x t)
    {u : σ} {h : List (Step Op Ans)} (hrun : Served exec env s h u) : Served exec' env s h u := by
  induction hrun with
  | done s => exact .done s
  | call hexec _ ih => exact .call (himp _ _ _ hexec) ih
  | env henv _ ih => exact .env henv ih

/-- The calls on one part of the store, when the others leave the store alone. -/
theorem Served.filterMap {exec' : σ → Event Op' Ans' → σ → Prop}
    {f : Step Op Ans → Option (Step Op' Ans')}
    (hkept : ∀ s x y t,f x = some y → exec s x.event t → exec' s y.event t)
    (hdropped : ∀ s x t,f x = none → exec s x.event t → t = s)
    {u : σ} {h : List (Step Op Ans)} (hrun : Served exec env s h u) :
    Served exec' env s (h.filterMap f) u := by
  induction hrun with
  | done s => exact .done s
  | @call s t u x h hexec _ ih =>
    cases hx : f x with
    | none =>
      obtain rfl := hdropped s x t hx hexec
      rw [List.filterMap_cons_none hx]
      exact ih
    | some y =>
      rw [List.filterMap_cons_some hx]
      exact .call (hkept s x y t hx hexec) ih
  | env henv _ ih => exact .env henv ih

/-- One thread in a world that answers each call and may then act on its own. -/
theorem served_exec (i : Nat) {I : σ → Prop}
    (hworld : ∀ s op,I s → I (world s op).2 ∧ ∃ t,exec s ⟨op,(world s op).1⟩ t ∧
      ((world s op).2 = t ∨ env t (world s op).2)) (p : Prog Op Ans α) (hs : I s) :
    Served exec env s ((p.exec world s).1.map (Step.mk i)) (p.exec world s).2.2 := by
  induction p generalizing s with
  | ret a => exact .done s
  | call op k ih =>
    obtain ⟨hI,t,hexec,heq | henv⟩ := hworld s op hs
    · exact .call hexec (heq ▸ ih _ hI)
    · exact .call hexec (.env henv (ih _ hI))

end CallTree
