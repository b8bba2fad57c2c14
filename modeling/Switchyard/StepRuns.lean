set_option autoImplicit false

/-!
Runs of a system whose actions are taken one at a time. An action may be
refused, and a run may be restricted to actions that meet a condition on the
state they are taken in.
-/

namespace StepRuns

variable {σ α : Type}

/-- `Reaches step ok s as t`: the actions as, in order, lead from s to t; each
is accepted and meets ok in the state it is taken in. -/
inductive Reaches (step : σ → α → Option σ) (ok : σ → α → Prop) : σ → List α → σ → Prop where
  | stop (s : σ) : Reaches step ok s [] s
  | next {s t u : σ} {a : α} {as : List α} : ok s a → step s a = some t →
      Reaches step ok t as u → Reaches step ok s (a :: as) u

def run (step : σ → α → Option σ) (ok : σ → α → Prop) [∀ s a, Decidable (ok s a)] :
    σ → List α → Option σ
  | s,[] => some s
  | s,a :: as => if ok s a then (step s a).bind (run step ok · as) else none

variable {step : σ → α → Option σ} {ok ok' : σ → α → Prop}

theorem Reaches.of_run [∀ s a, Decidable (ok s a)] {s t : σ} {as : List α}
    (h : run step ok s as = some t) : Reaches step ok s as t := by
  induction as generalizing s with
  | nil =>
    simp only [run,Option.some.injEq] at h
    exact h ▸ .stop s
  | cons a as ih =>
    simp only [run] at h
    by_cases hok : ok s a
    · rw [if_pos hok] at h
      obtain ⟨u,hst,hrest⟩ := Option.bind_eq_some_iff.1 h
      exact .next hok hst (ih hrest)
    · simp [hok] at h

theorem Reaches.exists_of_run [∀ s a, Decidable (ok s a)] {P : σ → Prop} [DecidablePred P] {s : σ}
    {as : List α} (h : ((run step ok s as).any fun t => P t) = true) :
    ∃ t,Reaches step ok s as t ∧ P t := by
  cases hrun : run step ok s as with
  | none => simp [hrun] at h
  | some t => exact ⟨t,.of_run hrun,by simpa [hrun] using h⟩

theorem Reaches.invariant {I : σ → Prop} (hstep : ∀ s a t, I s → ok s a → step s a = some t → I t)
    {s t : σ} {as : List α} (h : Reaches step ok s as t) (hs : I s) : I t := by
  induction h with
  | stop s => exact hs
  | next hok hst _ ih => exact ih (hstep _ _ _ hs hok hst)

theorem Reaches.append {s t u : σ} {as bs : List α} (h : Reaches step ok s as t)
    (h' : Reaches step ok t bs u) : Reaches step ok s (as ++ bs) u := by
  induction h with
  | stop s => exact h'
  | next hok hst _ ih => exact .next hok hst (ih h')

theorem Reaches.mono (himp : ∀ s a, ok s a → ok' s a) {s t : σ} {as : List α}
    (h : Reaches step ok s as t) : Reaches step ok' s as t := by
  induction h with
  | stop s => exact .stop s
  | next hok hst _ ih => exact .next (himp _ _ hok) hst ih

theorem Reaches.mono_invariant {I : σ → Prop}
    (hstep : ∀ s a t, I s → ok s a → step s a = some t → I t) (himp : ∀ s a, I s → ok s a → ok' s a)
    {s t : σ} {as : List α} (h : Reaches step ok s as t) (hs : I s) : Reaches step ok' s as t := by
  induction h with
  | stop s => exact .stop s
  | next hok hst _ ih => exact .next (himp _ _ hs hok) hst (ih (hstep _ _ _ hs hok hst))

theorem Reaches.unique {s t u : σ} {as : List α} (h : Reaches step ok s as t)
    (h' : Reaches step ok' s as u) : t = u := by
  induction h with
  | stop s =>
    cases h'
    rfl
  | next _ hst _ ih =>
    cases h' with
    | next _ hst' hrest =>
      rw [hst] at hst'
      cases hst'
      exact ih hrest

/-- The part of a state that some actions own: if they act on it alone and the
others leave it, a run is on that part the run of its own actions. -/
theorem Reaches.project {I : σ → Prop} {own : α → Bool} {p : σ → σ}
    (hI : ∀ s a t,I s → ok s a → step s a = some t → I t)
    (hown : ∀ s a t,I s → ok s a → step s a = some t → own a = true → step (p s) a = some (p t))
    (hother : ∀ s a t,I s → ok s a → step s a = some t → own a = false → p t = p s)
    {s t : σ} {as : List α} (h : Reaches step ok s as t) (hs : I s) :
    Reaches step (fun _ _ => True) (p s) (as.filter own) (p t) := by
  induction h with
  | stop s => exact .stop _
  | @next s t u a as hok hst _ ih =>
    have hrest := ih (hI _ _ _ hs hok hst)
    cases ha : own a with
    | true =>
      rw [List.filter_cons_of_pos ha]
      exact .next trivial (hown _ _ _ hs hok hst ha) hrest
    | false =>
      rw [List.filter_cons_of_neg (by simp [ha]),← hother _ _ _ hs hok hst ha]
      exact hrest

theorem Reaches.split {s t : σ} {as bs : List α} (h : Reaches step ok s (as ++ bs) t) :
    ∃ u,Reaches step ok s as u ∧ Reaches step ok u bs t := by
  induction as generalizing s with
  | nil => exact ⟨s,.stop s,h⟩
  | cons a as ih =>
    cases h with
    | next hok hst hrest =>
      obtain ⟨u,has,hbs⟩ := ih hrest
      exact ⟨u,.next hok hst has,hbs⟩

/-- A view of the state that only some actions change: two runs that take the
same ones of these show the same at the end. -/
theorem Reaches.view_eq {ω : Type} {view : σ → ω} (own : α → Bool)
    (hown : ∀ s s' a t t',own a = true → ok s a → ok s' a → view s = view s' →
      step s a = some t → step s' a = some t' → view t = view t')
    (hother : ∀ s a t,ok s a → step s a = some t → own a = false → view t = view s)
    {s s' t t' : σ} {as as' : List α} (h : Reaches step ok s as t) (h' : Reaches step ok s' as' t')
    (hview : view s = view s') (hsame : as.filter own = as'.filter own) : view t = view t' := by
  have hidle : ∀ {u u' : σ} {bs : List α},Reaches step ok u bs u' → (∀ a ∈ bs,own a = false) →
      view u' = view u := by
    intro u u' bs hrun hbs
    induction hrun with
    | stop _ => rfl
    | next hok hst _ ih =>
      rw [List.forall_mem_cons] at hbs
      exact (ih hbs.2).trans (hother _ _ _ hok hst hbs.1)
  induction h generalizing s' as' with
  | stop s => exact hview.trans (hidle h' (by simpa using hsame.symm)).symm
  | @next s u t a as hok hst hrest ih =>
    cases ha : own a with
    | false =>
      rw [List.filter_cons_of_neg (by simp [ha])] at hsame
      exact ih h' ((hother _ _ _ hok hst ha).trans hview) hsame
    | true =>
      rw [List.filter_cons_of_pos ha] at hsame
      -- the other run comes to the same action after some that change nothing
      obtain ⟨before,after,rfl,hbefore,-,hafter⟩ := List.filter_eq_cons_iff.1 hsame.symm
      obtain ⟨w,hwait,h'⟩ := h'.split
      cases h' with
      | next hok' hst' hrest' =>
        have hw := hidle hwait (by simpa using hbefore)
        exact ih hrest' (hown _ _ _ _ _ ha hok hok' (hview.trans hw.symm) hst hst') hafter.symm

theorem foldlM_invariant {ε : Type} {f : σ → α → Except ε σ} {I : List α → σ → Prop}
    (hstep : ∀ d s a t,I d s → f s a = .ok t → I (d ++ [a]) t) {as d : List α} {s t : σ}
    (h : as.foldlM f s = .ok t) (hs : I d s) : I (d ++ as) t := by
  induction as generalizing d s with
  | nil =>
    cases h
    simpa using hs
  | cons a as ih =>
    rw [List.foldlM_cons] at h
    cases ha : f s a with
    | error e => simp [ha,bind,Except.bind] at h
    | ok u =>
      simp only [ha,bind,Except.bind] at h
      simpa using ih h (hstep d s a u hs ha)

variable {β τ : Type}

/-- The replies of a system to the actions in order, and where it ends. -/
def replies (f : σ → α → β × σ) : σ → List α → List β × σ
  | s,[] => ([],s)
  | s,a :: as => ((f s a).1 :: (replies f (f s a).2 as).1,(replies f (f s a).2 as).2)

variable {f : σ → α → β × σ} {g : τ → α → β × τ} {R : σ → τ → Prop}

/-- Two systems whose related states reply alike to the actions of a kind and
stay related. -/
theorem replies_related_on {p : α → Prop}
    (hstep : ∀ s t a,R s t → p a → (f s a).1 = (g t a).1 ∧ R (f s a).2 (g t a).2) {s : σ} {t : τ}
    (h : R s t) {as : List α} (has : ∀ a ∈ as,p a) :
    (replies f s as).1 = (replies g t as).1 ∧ R (replies f s as).2 (replies g t as).2 := by
  induction as generalizing s t with
  | nil => exact ⟨rfl,h⟩
  | cons a as ih =>
    obtain ⟨hreply,hnext⟩ := hstep s t a h (has a List.mem_cons_self)
    obtain ⟨hrest,hend⟩ := ih hnext fun b hb => has b (List.mem_cons_of_mem a hb)
    exact ⟨by rw [replies,replies,hreply,hrest],hend⟩

theorem replies_related (hstep : ∀ s t a,R s t → (f s a).1 = (g t a).1 ∧ R (f s a).2 (g t a).2)
    {s : σ} {t : τ} (h : R s t) (as : List α) :
    (replies f s as).1 = (replies g t as).1 ∧ R (replies f s as).2 (replies g t as).2 :=
  replies_related_on (p := fun _ => True) (fun s t a hst _ => hstep s t a hst) h fun _ _ => trivial

theorem Reaches.replies_related {step : τ → α → Option τ} {ok : τ → α → Prop}
    (hg : ∀ t a,step t a = some (g t a).2)
    (hstep : ∀ s t a,R s t → ok t a → (f s a).1 = (g t a).1 ∧ R (f s a).2 (g t a).2)
    {s : σ} {t u : τ} {as : List α} (h : Reaches step ok t as u) (hR : R s t) :
    (replies f s as).1 = (replies g t as).1 := by
  induction h generalizing s with
  | stop t => rfl
  | @next t _ _ a as hok hst _ ih =>
    obtain ⟨hreply,hnext⟩ := hstep s t a hR hok
    rw [hg] at hst
    cases hst
    rw [replies,replies,hreply,ih hnext]

/-- A run without some of its actions: if leaving one out does not show in what
is related, the others are taken and answered as before. -/
theorem Reaches.replies_without {R : σ → σ → Prop} {q : α → β → Prop}
    (hf : ∀ t a,step t a = some (f t a).2)
    (hkeep : ∀ s t a,R s t → ok t a → ok s a ∧ (f s a).1 = (f t a).1 ∧ R (f s a).2 (f t a).2)
    (hidle : ∀ s t a,R s t → ok t a → q a (f t a).1 → R s (f t a).2)
    {s t u : σ} {as : List (α × Bool)} (h : Reaches step ok t (as.map Prod.fst) u) (hR : R s t)
    (hleft : ∀ x ∈ as.zip (replies f t (as.map Prod.fst)).1,x.1.2 = false → q x.1.1 x.2) :
    (replies f s ((as.filter Prod.snd).map Prod.fst)).1 =
      ((as.zip (replies f t (as.map Prod.fst)).1).filter (·.1.2)).map Prod.snd ∧
    ∃ v,Reaches step ok s ((as.filter Prod.snd).map Prod.fst) v ∧ R v u := by
  induction as generalizing s t with
  | nil =>
    cases h
    exact ⟨rfl,s,.stop s,hR⟩
  | cons x as ih =>
    obtain ⟨a,kept⟩ := x
    simp only [List.map_cons] at h
    cases h with
    | next hok hst hrest =>
      rw [hf] at hst
      cases hst
      simp only [List.map_cons,replies,List.zip_cons_cons,List.forall_mem_cons] at hleft
      cases kept with
      | false =>
        exact ih hrest (hidle s t a hR hok (hleft.1 rfl)) hleft.2
      | true =>
        obtain ⟨hoks,hreply,hnext⟩ := hkeep s t a hR hok
        obtain ⟨hreplies,v,hrun,hend⟩ := ih hrest hnext hleft.2
        refine ⟨?_,v,.next hoks (hf s a) hrun,hend⟩
        simp only [List.filter_cons_of_pos,List.map_cons,replies,List.zip_cons_cons]
        rw [hreply,hreplies]

end StepRuns
