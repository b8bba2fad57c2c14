import Switchyard.CallTree
set_option autoImplicit false

/-!
One program alone with its store: what holds whatever the store answers, and
what some answers lead to.
-/

namespace CallTree

variable {Op : Type} {Ans : Op → Type} {α β γ δ ε σ : Type}

/-- `p.Runs exec s q t`: from the store s, p gets to q with the store t. -/
inductive Prog.Runs (exec : σ → Event Op Ans → σ → Prop) :
    Prog Op Ans α → σ → Prog Op Ans α → σ → Prop where
  | start (p : Prog Op Ans α) (s : σ) : Runs exec p s p s
  | next {op : Op} {k : Ans op → Prog Op Ans α} {ans : Ans op} {s t u : σ} {q : Prog Op Ans α} :
      exec s ⟨op,ans⟩ t → Runs exec (k ans) t q u → Runs exec (.call op k) s q u

variable (exec : σ → Event Op Ans → σ → Prop)

/-- Whatever the store answers, I holds at every moment and Q where p returns. -/
def Prog.Always (I : σ → Prop) (Q : α → σ → Prop) : Prog Op Ans α → σ → Prop
  | .ret a,s => I s ∧ Q a s
  | .call op k,s => I s ∧ ∀ ans t,exec s ⟨op,ans⟩ t → (k ans).Always I Q t

/-- With some answers of the store p returns, and Q holds there. -/
def Prog.Can (Q : α → σ → Prop) : Prog Op Ans α → σ → Prop
  | .ret a,s => Q a s
  | .call op k,s => ∃ ans t,exec s ⟨op,ans⟩ t ∧ (k ans).Can Q t

variable {exec} {I : σ → Prop} {s t : σ}

variable {p : Prog Op Ans α} {Q : α → σ → Prop}

theorem Prog.Always.here (h : p.Always exec I Q s) : I s := by
  cases p <;> exact h.1

theorem always_bind {f : α → Prog Op Ans β} {Q : β → σ → Prop} :
    (p >>= f).Always exec I Q s ↔ p.Always exec I (fun a t => (f a).Always exec I Q t) s := by
  induction p generalizing s with
  | ret a => exact ⟨fun h => ⟨h.here,h⟩,fun h => h.2⟩
  | call op k ih =>
    exact and_congr_right fun _ => forall_congr' fun ans => forall_congr' fun t =>
      imp_congr_right fun _ => ih ans

theorem always_perform {op : Op} {Q : Ans op → σ → Prop} :
    (perform op : Prog Op Ans _).Always exec I Q s ↔
      I s ∧ ∀ ans t,exec s ⟨op,ans⟩ t → I t ∧ Q ans t := Iff.rfl

theorem Prog.Always.mono {J : σ → Prop} {Q' : α → σ → Prop}
    (h : p.Always exec I Q s) (hI : ∀ s,I s → J s) (hQ : ∀ a s,I s → Q a s → Q' a s) :
    p.Always exec J Q' s := by
  induction p generalizing s with
  | ret a => exact ⟨hI s h.1,hQ a s h.1 h.2⟩
  | call op k ih => exact ⟨hI s h.1,fun ans t ht => ih ans (h.2 ans t ht)⟩

theorem always_orFail {p : Prog Op Ans (Except ε α)} {reword : ε → δ}
    {k : α → Prog Op Ans (Except δ γ)} {Q : Except δ γ → σ → Prop}
    (h : p.Always exec I (fun r t => match r with
      | .error e => Q (.error (reword e)) t
      | .ok a => (k a).Always exec I Q t) s) : (orFail p reword k).Always exec I Q s := by
  refine always_bind.2 (h.mono (fun _ hs => hs) fun r t ht hr => ?_)
  cases r with
  | error e => exact ⟨ht,hr⟩
  | ok a => exact hr

theorem Prog.Always.runs {q : Prog Op Ans α} (h : p.Always exec I Q s) (hrun : p.Runs exec s q t) :
    q.Always exec I Q t := by
  induction hrun with
  | start p s => exact h
  | next hexec _ ih => exact ih (h.2 _ _ hexec)

theorem can_bind {f : α → Prog Op Ans β} {Q : β → σ → Prop} :
    (p >>= f).Can exec Q s ↔ p.Can exec (fun a t => (f a).Can exec Q t) s := by
  induction p generalizing s with
  | ret a => exact Iff.rfl
  | call op k ih =>
    exact exists_congr fun ans => exists_congr fun t => and_congr_right fun _ => ih ans

theorem Prog.Can.mono {Q' : α → σ → Prop} (h : p.Can exec Q s) (hQ : ∀ a s,Q a s → Q' a s) :
    p.Can exec Q' s := by
  induction p generalizing s with
  | ret a => exact hQ a s h
  | call op k ih =>
    obtain ⟨ans,t,hexec,hrest⟩ := h
    exact ⟨ans,t,hexec,ih ans hrest⟩

theorem Prog.Can.runs (h : p.Can exec Q s) : ∃ a t,p.Runs exec s (.ret a) t ∧ Q a t := by
  induction p generalizing s with
  | ret a => exact ⟨a,s,.start _ _,h⟩
  | call op k ih =>
    obtain ⟨ans,t,hexec,hrest⟩ := h
    obtain ⟨a,u,hrun,hq⟩ := ih ans hrest
    exact ⟨a,u,.next hexec hrun,hq⟩

end CallTree
