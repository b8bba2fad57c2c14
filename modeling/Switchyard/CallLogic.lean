import Switchyard.CallTree
set_option autoImplicit false

/-!
A program logic for call trees, and actions: call trees with a state of their
own that may panic and may defer functions.
-/

namespace CallTree

variable {Op Op' : Type} {Ans : Op → Type} {Ans' : Op' → Type} {α β σ : Type}

/-- With the calls h behind it, p makes only calls that G allows at that point
and returns only what Q allows. -/
def Prog.Spec (G : List (Event Op Ans) → Op → Prop) (Q : List (Event Op Ans) → α → Prop) :
    Prog Op Ans α → List (Event Op Ans) → Prop
  | .ret a,h => Q h a
  | .call op k,h => G h op ∧ ∀ ans,(k ans).Spec G Q (h ++ [⟨op,ans⟩])

variable {G : List (Event Op Ans) → Op → Prop} {h : List (Event Op Ans)}

variable {p : Prog Op Ans α}

theorem spec_bind {f : α → Prog Op Ans β} {Q : List (Event Op Ans) → β → Prop} :
    (p >>= f).Spec G Q h ↔ p.Spec G (fun h a => (f a).Spec G Q h) h := by
  induction p generalizing h with
  | ret a => rfl
  | call op k ih => exact and_congr_right fun _ => forall_congr' fun ans => ih ans

variable {Q : List (Event Op Ans) → α → Prop}

theorem Prog.Spec.mono {Q' : List (Event Op Ans) → α → Prop}
    (hp : p.Spec G Q h) (himp : ∀ h a,Q h a → Q' h a) : p.Spec G Q' h := by
  induction p generalizing h with
  | ret a => exact himp h a hp
  | call op k ih => exact ⟨hp.1,fun ans => ih ans (hp.2 ans)⟩

theorem Prog.Spec.and {G' : List (Event Op Ans) → Op → Prop}
    {Q' : List (Event Op Ans) → α → Prop} (hp : p.Spec G Q h) (hp' : p.Spec G' Q' h) :
    p.Spec G (fun h a => Q h a ∧ Q' h a) h := by
  induction p generalizing h with
  | ret a => exact ⟨hp,hp'⟩
  | call op k ih => exact ⟨hp.1,fun ans => ih ans (hp.2 ans) (hp'.2 ans)⟩

/-- A program is specified by the calls it can make and by its runs. -/
theorem spec_of_calls {P : Op → Prop} (hp : p.Calls P) (hG : ∀ h op,P op → G h op)
    (hQ : ∀ tr a,(∀ e ∈ tr,P e.op) → p.Returns tr a → Q (h ++ tr) a) : p.Spec G Q h := by
  induction p generalizing h with
  | ret a =>
    have hnil := hQ [] a (by simp) (.start _)
    rwa [List.append_nil] at hnil
  | call op k ih =>
    refine ⟨hG h op hp.1,fun ans => ih ans (hp.2 ans) fun tr a htr hret => ?_⟩
    simpa using hQ (⟨op,ans⟩ :: tr) a (by simpa [hp.1] using htr) (.next hret)

theorem Prog.Spec.returns_any (p : Prog Op Ans α) (h : List (Event Op Ans)) :
    p.Spec (fun _ _ => True) (fun _ _ => True) h :=
  spec_of_calls (P := fun _ => True) (calls_any fun _ => trivial) (fun _ _ _ => trivial)
    fun _ _ _ _ => trivial

theorem Prog.Spec.extends (hp : p.Spec G Q h) :
    p.Spec G (fun h' a => (∃ tr,h' = h ++ tr) ∧ Q h' a) h := by
  induction p generalizing h with
  | ret a => exact ⟨⟨[],by simp⟩,hp⟩
  | call op k ih =>
    refine ⟨hp.1,fun ans => (ih ans (hp.2 ans)).mono ?_⟩
    rintro h' a ⟨⟨tr,rfl⟩,hq⟩
    exact ⟨⟨⟨op,ans⟩ :: tr,by simp⟩,hq⟩

variable {tr : List (Event Op Ans)}

theorem Prog.Spec.after {q : Prog Op Ans α} (hp : p.Spec G Q h) (hrun : p.After tr q) :
    q.Spec G Q (h ++ tr) ∧ ∀ a e b,tr = a ++ e :: b → G (h ++ a) e.op := by
  induction hrun generalizing h with
  | start p => simpa using hp
  | @next op k ans tr q _ ih =>
    obtain ⟨hq,hall⟩ := ih (hp.2 ans)
    refine ⟨by simpa using hq,fun a e b hsplit => ?_⟩
    cases a with
    | nil =>
      obtain ⟨rfl,-⟩ := List.cons.inj hsplit
      simpa using hp.1
    | cons x a =>
      obtain ⟨rfl,hrest⟩ := List.cons.inj hsplit
      simpa using hall a e b hrest

theorem Prog.Spec.returns {a : α} (hp : p.Spec G Q h) (hrun : p.Returns tr a) : Q (h ++ tr) a :=
  (hp.after hrun).1

/-- What every allowed call and every allowed return finds holds along a run. -/
theorem Prog.Spec.along {K : List (Event Op Ans) → Prop} {q : Prog Op Ans α} (hp : p.Spec G Q h)
    (hrun : p.After tr q) (hcall : ∀ h op,G h op → K h) (hret : ∀ h a,Q h a → K h) :
    K (h ++ tr) := by
  have hq := (hp.after hrun).1
  cases q with
  | ret a => exact hret _ _ hq
  | call op k => exact hcall _ _ hq.1

/-- A call of a history was allowed by what its thread had behind it. -/
theorem Prog.Spec.interleaved {threads : List (Prog Op Ans α)} {a b : List (Step Op Ans)}
    {x : Step Op Ans} (hint : Interleaves threads (a ++ x :: b)) (hp : threads[x.thread]? = some p)
    (hspec : p.Spec G Q []) : G (traceOf x.thread a) x.event.op := by
  obtain ⟨p',hp',q,hafter⟩ := hint x (by simp)
  obtain rfl : p = p' := Option.some.inj (hp.symm.trans hp')
  have hall := (hspec.after hafter).2 (traceOf x.thread a) x.event (traceOf x.thread b)
  rw [traceOf_append,traceOf_cons_self] at hall
  simpa using hall rfl

/-- The calls an embedded program makes for the calls tr. -/
inductive Lifts (f : Op → Op') (g : (op : Op) → Ans' (f op) → Ans op) :
    List (Event Op Ans) → List (Event Op' Ans') → Prop where
  | nil : Lifts f g [] []
  | cons {tr : List (Event Op Ans)} {tr' : List (Event Op' Ans')} (op : Op) (ans : Ans' (f op)) :
      Lifts f g tr tr' → Lifts f g (⟨op,g op ans⟩ :: tr) (⟨f op,ans⟩ :: tr')

theorem Lifts.mem {f : Op → Op'} {g : (op : Op) → Ans' (f op) → Ans op}
    {tr' : List (Event Op' Ans')} (hl : Lifts f g tr tr') {e : Event Op Ans} (he : e ∈ tr) :
    ∃ ans,g e.op ans = e.ans ∧ ⟨f e.op,ans⟩ ∈ tr' := by
  induction hl with
  | nil => simp at he
  | cons op ans _ ih =>
    obtain rfl | he := List.mem_cons.1 he
    · exact ⟨ans,rfl,by simp⟩
    · obtain ⟨ans',hg,hm⟩ := ih he
      exact ⟨ans',hg,by simp [hm]⟩

theorem returns_embed {f : Op → Op'} {g : (op : Op) → Ans' (f op) → Ans op}
    {tr' : List (Event Op' Ans')} {a : α} (h : (p.embed f g).Returns tr' a) :
    ∃ tr,Lifts f g tr tr' ∧ p.Returns tr a := by
  induction p generalizing tr' with
  | ret b =>
    obtain ⟨rfl,rfl⟩ := returns_ret.1 h
    exact ⟨[],.nil,.start _⟩
  | call op k ih =>
    obtain ⟨ans,rest,rfl,hrest⟩ := returns_call.1 h
    obtain ⟨tr,hl,hret⟩ := ih _ hrest
    exact ⟨_,.cons op ans hl,.next hret⟩

theorem calls_embed {P : Op' → Prop} {f : Op → Op'} {g : (op : Op) → Ans' (f op) → Ans op}
    (hp : p.Calls fun op => P (f op)) : (p.embed f g).Calls P := by
  induction p with
  | ret a => trivial
  | call op k ih => exact ⟨hp.1,fun ans => ih _ (hp.2 _)⟩

/-- Reads and changes a state of its own; an error is a panic. -/
def Act (Op : Type) (Ans : Op → Type) (σ α : Type) : Type :=
  σ → Prog Op Ans (Except String α × σ)

namespace Act

instance : Monad (Act Op Ans σ) where
  pure a := fun s => pure (.ok a,s)
  bind x f := fun s => x s >>= fun r => match r with
    | (.ok a,s) => f a s
    | (.error p,s) => pure (.error p,s)

def call (op : Op) : Act Op Ans σ (Ans op) := fun s => .call op fun ans => .ret (.ok ans,s)

def get : Act Op Ans σ σ := fun s => pure (.ok s,s)

def modify (f : σ → σ) : Act Op Ans σ Unit := fun s => pure (.ok (),f s)

def panic (p : String) : Act Op Ans σ α := fun s => pure (.error p,s)

def lift (p : Prog Op Ans α) : Act Op Ans σ α := fun s => p >>= fun a => pure (.ok a,s)

/-- Runs `last` once `body` has returned or panicked. A panic of `last` replaces
the outcome. -/
def defer (last : Act Op Ans σ Unit) (body : Act Op Ans σ α) : Act Op Ans σ α := fun s =>
  body s >>= fun r => last r.2 >>= fun r' => match r' with
    | (.ok _,s) => pure (r.1,s)
    | (.error p,s) => pure (.error p,s)

def Spec (G : List (Event Op Ans) → Op → Prop) (x : Act Op Ans σ α)
    (Q : List (Event Op Ans) → Except String α → σ → Prop) (s : σ) (h : List (Event Op Ans)) :
    Prop :=
  (x s).Spec G (fun h r => Q h r.1 r.2) h

variable {x : Act Op Ans σ α} {Q Q' : List (Event Op Ans) → Except String α → σ → Prop} {s : σ}

variable {r : Except String β} {f : α → Act Op Ans σ β}

variable {s' : σ}

/-- A run of a sequence: the first part returned, or its panic ended the run. -/
theorem returns_seq (hrun : ((x >>= f) s).Returns tr (r,s')) :
    (∃ tr₁ a s₁ tr₂,tr = tr₁ ++ tr₂ ∧ (x s).Returns tr₁ (.ok a,s₁) ∧
      (f a s₁).Returns tr₂ (r,s')) ∨
    ∃ p,r = .error p ∧ (x s).Returns tr (.error p,s') := by
  obtain ⟨tr₁,⟨o,s₁⟩,tr₂,rfl,hx,hrest⟩ := returns_bind.1 hrun
  cases o with
  | ok a => exact .inl ⟨tr₁,a,s₁,tr₂,rfl,hx,hrest⟩
  | error p =>
    obtain ⟨rfl,heq⟩ := returns_pure.1 hrest
    cases heq
    exact .inr ⟨p,rfl,by simpa using hx⟩

theorem returns_lift {r : Except String α}
    (hrun : (lift p s).Returns tr (r,s')) : ∃ a,r = .ok a ∧ s' = s ∧ p.Returns tr a := by
  obtain ⟨tr₁,a,tr₂,rfl,hp,hrest⟩ := returns_bind.1 hrun
  obtain ⟨rfl,heq⟩ := returns_pure.1 hrest
  cases heq
  exact ⟨a,rfl,rfl,by simpa using hp⟩

theorem returns_lift_seq (hrun : ((lift p >>= f) s).Returns tr (r,s')) :
    ∃ tr₁ a tr₂,tr = tr₁ ++ tr₂ ∧ p.Returns tr₁ a ∧ (f a s).Returns tr₂ (r,s') := by
  obtain ⟨tr₁,a,s₁,tr₂,rfl,hx,hrest⟩ | ⟨e,-,hx⟩ := returns_seq hrun
  · obtain ⟨a',ha,rfl,hp⟩ := returns_lift hx
    cases ha
    exact ⟨tr₁,a,tr₂,rfl,hp,hrest⟩
  · obtain ⟨a,ha,-,-⟩ := returns_lift hx
    cases ha

variable {op : Op}

theorem returns_call_seq {f : Ans op → Act Op Ans σ β}
    (hrun : ((call op >>= f) s).Returns tr (r,s')) :
    ∃ ans rest,tr = ⟨op,ans⟩ :: rest ∧ (f ans s).Returns rest (r,s') := returns_call.1 hrun

theorem returns_modify_seq {u : σ → σ} {f : Unit → Act Op Ans σ β}
    (hrun : ((modify u >>= f) s).Returns tr (r,s')) :
    (f () (u s)).Returns tr (r,s') := hrun

/-! A call or a state change at the head of a sequence. -/

theorem spec_call_bind {f : Ans op → Act Op Ans σ α} :
    Spec G (call op >>= f) Q s h ↔ G h op ∧ ∀ ans,Spec G (f ans) Q s (h ++ [⟨op,ans⟩]) := Iff.rfl

theorem spec_get_bind {f : σ → Act Op Ans σ α} :
    Spec G (get >>= f) Q s h ↔ Spec G (f s) Q s h := Iff.rfl

theorem spec_modify_bind {u : σ → σ} {f : Unit → Act Op Ans σ α} :
    Spec G (modify u >>= f) Q s h ↔ Spec G (f ()) Q (u s) h := Iff.rfl

theorem spec_lift :
    Spec G (lift p) Q s h ↔ p.Spec G (fun h a => Q h (.ok a) s) h := spec_bind

theorem Spec.mono (hx : Spec G x Q s h) (himp : ∀ h r s,Q h r s → Q' h r s) : Spec G x Q' s h :=
  Prog.Spec.mono hx fun h r => himp h r.1 r.2

theorem Spec.and {G' : List (Event Op Ans) → Op → Prop} (hx : Spec G x Q s h)
    (hx' : Spec G' x Q' s h) : Spec G x (fun h r s => Q h r s ∧ Q' h r s) s h :=
  Prog.Spec.and hx hx'

theorem Spec.extends (hx : Spec G x Q s h) :
    Spec G x (fun h' r s => (∃ tr,h' = h ++ tr) ∧ Q h' r s) s h := Prog.Spec.extends hx

theorem spec_lift_of {P : List (Event Op Ans) → α → Prop} (hp : p.Spec G P h) :
    Spec G (lift p) (fun h' r s' => s' = s ∧ ∃ a,r = .ok a ∧ P h' a) s h :=
  spec_lift.2 (hp.mono fun _ a ha => ⟨rfl,a,rfl,ha⟩)

theorem Spec.bind {P : List (Event Op Ans) → Except String β → σ → Prop}
    (hx : Spec G x Q s h) (hok : ∀ h a s,Q h (.ok a) s → Spec G (f a) P s h)
    (hpanic : ∀ h p s,Q h (.error p) s → P h (.error p) s) : Spec G (x >>= f) P s h := by
  refine spec_bind.2 (Prog.Spec.mono hx fun h r hr => ?_)
  obtain ⟨r,s⟩ := r
  cases r with
  | error p => exact hpanic h p s hr
  | ok a => exact hok h a s hr

/-- The deferred function starts where the body ended, however it ended. -/
theorem Spec.defer {last : Act Op Ans σ Unit} (hx : Spec G x Q s h)
    (hlast : ∀ h r s,Q h r s → Spec G last (fun h r' s => match r' with
      | .ok _ => Q' h r s
      | .error p => Q' h (.error p) s) s h) : Spec G (Act.defer last x) Q' s h := by
  refine spec_bind.2 (Prog.Spec.mono hx fun h r hr => ?_)
  refine spec_bind.2 (Prog.Spec.mono (hlast h r.1 r.2 hr) fun h r' hr' => ?_)
  obtain ⟨r',s'⟩ := r'
  cases r' <;> exact hr'

/-- What an action may rely on and has to keep: the calls it may make, an
invariant, and a preorder along which history and state move. -/
structure Contract (Op : Type) (Ans : Op → Type) (σ : Type) where
  allows : List (Event Op Ans) → Op → Prop
  inv : List (Event Op Ans) → σ → Prop
  rel : List (Event Op Ans) → σ → List (Event Op Ans) → σ → Prop
  refl : ∀ h s,rel h s h s
  trans : ∀ {h s h₁ s₁ h₂ s₂},rel h s h₁ s₁ → rel h₁ s₁ h₂ s₂ → rel h s h₂ s₂

/-- From the invariant, x makes allowed calls only and ends with the invariant,
related to where it started. -/
def Honours (C : Contract Op Ans σ) (x : Act Op Ans σ α) : Prop :=
  ∀ s h,C.inv h s → Spec C.allows x (fun h' _ s' => C.inv h' s' ∧ C.rel h s h' s') s h

/-- A call that is always allowed and whose answer disturbs nothing. -/
def Contract.Step (C : Contract Op Ans σ) (op : Op) : Prop :=
  ∀ h s,C.inv h s → C.allows h op ∧
    ∀ ans,C.inv (h ++ [⟨op,ans⟩]) s ∧ C.rel h s (h ++ [⟨op,ans⟩]) s

variable {C : Contract Op Ans σ}

theorem honours_pure (a : α) : Honours C (pure a) := fun s h hi => ⟨hi,C.refl h s⟩

theorem honours_panic (p : String) : Honours C (panic p : Act Op Ans σ α) :=
  fun s h hi => ⟨hi,C.refl h s⟩

theorem honours_get : Honours C get := fun s h hi => ⟨hi,C.refl h s⟩

theorem honours_modify {f : σ → σ} (hf : ∀ h s,C.inv h s → C.inv h (f s) ∧ C.rel h s h (f s)) :
    Honours C (modify f) :=
  fun s h hi => hf h s hi

theorem honours_call (hop : C.Step op) : Honours C (call op) :=
  fun s h hi => hop h s hi

/-- A program without a state, made of undisturbing calls: besides the contract,
what it returned is known. -/
theorem spec_lift_of_calls (hp : p.Calls C.Step) (hi : C.inv h s) :
    Spec C.allows (lift p) (fun h' r s' => s' = s ∧ (C.inv h' s ∧ C.rel h s h' s) ∧
      ∃ tr a,h' = h ++ tr ∧ r = .ok a ∧ p.Returns tr a) s h := by
  rw [spec_lift]
  induction p generalizing h with
  | ret a => exact ⟨rfl,⟨hi,C.refl h s⟩,[],a,by simp,rfl,.start _⟩
  | call op k ih =>
    obtain ⟨hallow,hans⟩ := hp.1 h s hi
    refine ⟨hallow,fun ans => (ih ans (hp.2 ans) (hans ans).1).mono ?_⟩
    rintro h' a ⟨-,hq,tr,b,rfl,hb,hret⟩
    exact ⟨rfl,⟨hq.1,C.trans (hans ans).2 hq.2⟩,⟨op,ans⟩ :: tr,b,by simp,hb,.next hret⟩

theorem honours_lift (hp : p.Calls C.Step) : Honours C (lift p) := by
  intro s h hi
  refine (spec_lift_of_calls hp hi).mono ?_
  rintro h' r s' ⟨rfl,hq,-⟩
  exact hq

theorem Honours.bind (hx : Honours C x) (hf : ∀ a,Honours C (f a)) : Honours C (x >>= f) := by
  intro s h hi
  refine (hx s h hi).bind (fun h' a s' hq => ?_) fun h' p s' hq => hq
  exact (hf a s' h' hq.1).mono fun h'' r s'' hq' => ⟨hq'.1,C.trans hq.2 hq'.2⟩

theorem Honours.defer {last : Act Op Ans σ Unit} (hlast : Honours C last) (hx : Honours C x) :
    Honours C (Act.defer last x) := by
  intro s h hi
  refine Spec.defer (hx s h hi) fun h' r s' hq => ?_
  refine (hlast s' h' hq.1).mono fun h'' r' s'' hq' => ?_
  have hend : C.inv h'' s'' ∧ C.rel h s h'' s'' := ⟨hq'.1,C.trans hq.2 hq'.2⟩
  cases r' <;> exact hend

/-- An invariant to keep, with nothing said about how history and state move. -/
def Contract.keeping (G : List (Event Op Ans) → Op → Prop)
    (I : List (Event Op Ans) → σ → Prop) : Contract Op Ans σ where
  allows := G
  inv := I
  rel _ _ _ _ := True
  refl _ _ := trivial
  trans _ _ := trivial

def Contract.onHistory (σ : Type) (G : List (Event Op Ans) → Op → Prop)
    (K : List (Event Op Ans) → Prop) : Contract Op Ans σ :=
  .keeping G fun h _ => K h

variable {K : List (Event Op Ans) → Prop}

theorem onHistory_modify (f : σ → σ) : Honours (Contract.onHistory σ G K) (modify f) :=
  honours_modify fun _ _ hi => ⟨hi,trivial⟩

theorem onHistory_step (hop : ∀ h,K h → G h op ∧ ∀ ans,K (h ++ [⟨op,ans⟩])) :
    (Contract.onHistory σ G K).Step op :=
  fun h _ hi => ⟨(hop h hi).1,fun ans => ⟨(hop h hi).2 ans,trivial⟩⟩

def Yields (P : α → Prop) (x : Act Op Ans σ α) : Prop :=
  ∀ s h,Spec (fun _ _ => True) x (fun _ r _ => ∀ a,r = .ok a → P a) s h

theorem yields_pure {P : α → Prop} {a : α} (ha : P a) :
    Yields P (pure a : Act Op Ans σ α) := fun _ _ _ hb => Except.ok.inj hb ▸ ha

theorem yields_panic {P : α → Prop} (p : String) : Yields P (panic p : Act Op Ans σ α) :=
  fun _ _ _ hb => by cases hb

theorem yields_bind {P : β → Prop} (hf : ∀ a,Yields P (f a)) : Yields P (x >>= f) := by
  intro s h
  have hx : Spec (fun _ _ => True) x (fun _ _ _ => True) s h := Prog.Spec.returns_any (x s) h
  exact hx.bind (fun h' a s' _ => hf a s' h') fun h' p s' _ b hb => by cases hb

def Calm (x : Act Op Ans σ α) : Prop :=
  ∀ s h,Spec (fun _ _ => True) x (fun _ r _ => ∃ a,r = .ok a) s h

theorem calm_pure (a : α) : Calm (pure a : Act Op Ans σ α) := fun _ _ => ⟨a,rfl⟩

theorem calm_get : Calm (get : Act Op Ans σ σ) := fun s _ => ⟨s,rfl⟩

theorem calm_modify (f : σ → σ) : Calm (modify f : Act Op Ans σ Unit) := fun _ _ => ⟨(),rfl⟩

theorem calm_call (op : Op) : Calm (call op : Act Op Ans σ (Ans op)) :=
  fun _ _ => ⟨trivial,fun ans => ⟨ans,rfl⟩⟩

theorem calm_lift (p : Prog Op Ans α) : Calm (lift p : Act Op Ans σ α) :=
  fun _ h => spec_lift.2 ((Prog.Spec.returns_any p h).mono fun _ a _ => ⟨a,rfl⟩)

theorem Calm.bind (hx : Calm x) (hf : ∀ a,Calm (f a)) : Calm (x >>= f) := by
  intro s h
  refine (hx s h).bind (fun h' a s' _ => hf a s' h') ?_
  rintro h' p s' ⟨a,ha⟩
  cases ha

theorem Calm.returns_seq (hx : Calm x) (hrun : ((x >>= f) s).Returns tr (r,s')) :
    ∃ tr₁ a s₁ tr₂,tr = tr₁ ++ tr₂ ∧ (x s).Returns tr₁ (.ok a,s₁) ∧
      (f a s₁).Returns tr₂ (r,s') := by
  obtain hok | ⟨p,-,hpanic⟩ := Act.returns_seq hrun
  · exact hok
  · obtain ⟨a,ha⟩ := Prog.Spec.returns (hx s []) hpanic
    cases ha

/-- From the invariant on, x ends with Q, whatever it returns. -/
def Leads (C : Contract Op Ans σ) (Q : List (Event Op Ans) → Except String α → σ → Prop)
    (x : Act Op Ans σ α) : Prop :=
  ∀ s h,C.inv h s → Spec C.allows x Q s h

theorem Honours.bind_leads {Q : List (Event Op Ans) → Except String β → σ → Prop} (hx : Honours C x)
    (hf : ∀ a,Leads C Q (f a)) (hexit : ∀ h r s,C.inv h s → Q h r s) : Leads C Q (x >>= f) :=
  fun s h hi => (hx s h hi).bind (fun h' a s' hq => hf a s' h' hq.1)
    fun h' _ s' hq => hexit h' _ s' hq.1

/-- Under a contract with one more fact about the history, which later calls
cannot undo. -/
def Contract.assume (C : Contract Op Ans σ) (K : List (Event Op Ans) → Prop) :
    Contract Op Ans σ where
  allows := C.allows
  inv h s := C.inv h s ∧ K h
  rel := C.rel
  refl := C.refl
  trans := C.trans

theorem Contract.Step.assume (hop : C.Step op) (hK : ∀ h e,K h → K (h ++ [e])) :
    (C.assume K).Step op := by
  intro h s hi
  obtain ⟨hallow,hans⟩ := hop h s hi.1
  exact ⟨hallow,fun ans => ⟨⟨(hans ans).1,hK _ _ hi.2⟩,(hans ans).2⟩⟩

theorem Honours.assume (hx : Honours C x) (hK : ∀ h e,K h → K (h ++ [e])) :
    Honours (C.assume K) x := by
  have hgrow : ∀ (tr h : List (Event Op Ans)),K h → K (h ++ tr) := by
    intro tr
    induction tr with
    | nil => intro h hk; simpa using hk
    | cons e tr ih => intro h hk; simpa using ih _ (hK h e hk)
  intro s h hi
  refine (hx s h hi.1).extends.mono ?_
  rintro _ r s' ⟨⟨tr,rfl⟩,hq⟩
  exact ⟨⟨hq.1,hgrow tr h hi.2⟩,hq.2⟩

/-- What holds when an action under C has ended with a result c. -/
structure Ending (C : Contract Op Ans σ) (γ : Type) where
  done : List (Event Op Ans) → σ → γ → List (Event Op Ans) → σ → Prop
  after : ∀ {h s h₁ s₁ c h₂ s₂},C.rel h s h₁ s₁ → done h₁ s₁ c h₂ s₂ → done h s c h₂ s₂

variable {γ : Type} {E : Ending C γ} {out : α → Option γ} {out' : β → Option γ}

def Ending.post (E : Ending C γ) (out : α → Option γ) (h : List (Event Op Ans)) (s : σ)
    (h' : List (Event Op Ans)) (r : Except String α) (s' : σ) : Prop :=
  match r.toOption.bind out with
  | some c => E.done h s c h' s'
  | none => C.inv h' s' ∧ C.rel h s h' s'

/-- Beyond the contract, a result c comes with the fact K c about the history. -/
def Ending.gain (C : Contract Op Ans σ) (K : γ → List (Event Op Ans) → Prop) : Ending C γ :=
  ⟨fun h s c h' s' => (C.inv h' s' ∧ K c h') ∧ C.rel h s h' s',
    fun hrel hq => ⟨hq.1,C.trans hrel hq.2⟩⟩

def Ending.assume (E : Ending C γ) (K : List (Event Op Ans) → Prop) : Ending (C.assume K) γ :=
  ⟨E.done,E.after⟩

theorem Ending.post_of_assume {h s h' s'} {r : Except String α}
    (hpost : (E.assume K).post out h s h' r s') : E.post out h s h' r s' := by
  unfold Ending.post at hpost ⊢
  generalize r.toOption.bind out = c at hpost ⊢
  cases c with
  | none => exact ⟨hpost.1.1,hpost.2⟩
  | some c => exact hpost

def Ending.comap {δ : Type} (E : Ending C γ) (f : δ → γ) : Ending C δ :=
  ⟨fun h s c h' s' => E.done h s (f c) h' s',E.after⟩

def Ending.Step (E : Ending C γ) (op : Op) : Prop :=
  ∀ h s c h' s',E.done h s c h' s' →
    C.allows h' op ∧ ∀ ans,E.done h s c (h' ++ [⟨op,ans⟩]) s'

def Until (E : Ending C γ) (out : α → Option γ) (x : Act Op Ans σ α) : Prop :=
  ∀ s h,C.inv h s → Spec C.allows x (E.post out h s) s h

theorem Ending.post_some {a : α} {c : γ} (ha : out a = some c) {h s h' s'} :
    E.post out h s h' (.ok a) s' ↔ E.done h s c h' s' := by
  simp only [Ending.post,Except.toOption,Option.bind_some,ha]

theorem Ending.post_none {a : α} (ha : out a = none) {h s h' s'} :
    E.post out h s h' (.ok a) s' ↔ C.inv h' s' ∧ C.rel h s h' s' := by
  simp only [Ending.post,Except.toOption,Option.bind_some,ha]

theorem gain_step {K : γ → List (Event Op Ans) → Prop} (hop : C.Step op)
    (hK : ∀ c h e,K c h → K c (h ++ [e])) : (Ending.gain C K).Step op := by
  intro h s c h' s' hdone
  obtain ⟨hallow,hans⟩ := hop h' s' hdone.1.1
  exact ⟨hallow,fun ans => ⟨⟨(hans ans).1,hK c h' _ hdone.1.2⟩,C.trans hdone.2 (hans ans).2⟩⟩

theorem until_call_gain {K : γ → List (Event Op Ans) → Prop} {out : Ans op → Option γ}
    (hop : C.Step op) (hK : ∀ h s ans c,C.inv h s → out ans = some c → K c (h ++ [⟨op,ans⟩])) :
    Until (Ending.gain C K) out (call op) := by
  intro s h hi
  obtain ⟨hallow,hans⟩ := hop h s hi
  refine ⟨hallow,fun ans => ?_⟩
  cases hout : out ans with
  | none => exact (Ending.post_none hout).2 (hans ans)
  | some c => exact (Ending.post_some hout).2 ⟨⟨(hans ans).1,hK h s ans c hi hout⟩,(hans ans).2⟩

def Ending.keep (C : Contract Op Ans σ) (γ : Type) : Ending C γ :=
  ⟨fun h s _ h' s' => C.inv h' s' ∧ C.rel h s h' s',fun hrel hq => ⟨hq.1,C.trans hrel hq.2⟩⟩

theorem Ending.post_keep {h s h' s'} {r : Except String α} :
    (Ending.keep C γ).post out h s h' r s' ↔ C.inv h' s' ∧ C.rel h s h' s' := by
  unfold Ending.post
  cases r.toOption.bind out <;> exact Iff.rfl

theorem honours_iff_until (out : α → Option γ) : Honours C x ↔ Until (Ending.keep C γ) out x :=
  forall_congr' fun _ => forall_congr' fun _ => imp_congr_right fun _ =>
    ⟨fun hx => hx.mono fun _ _ _ => Ending.post_keep.2,
      fun hx => hx.mono fun _ _ _ => Ending.post_keep.1⟩

theorem keep_step (hop : C.Step op) : (Ending.keep C γ).Step op := by
  intro h s c h' s' hdone
  obtain ⟨hallow,hans⟩ := hop h' s' hdone.1
  exact ⟨hallow,fun ans => ⟨(hans ans).1,C.trans hdone.2 (hans ans).2⟩⟩

theorem until_pure {a : α} (ha : out a = none) : Until E out (pure a) :=
  fun s h hi => (Ending.post_none ha).2 ⟨hi,C.refl h s⟩

theorem until_panic (p : String) : Until E out (panic p) := fun s h hi => ⟨hi,C.refl h s⟩

theorem Ending.post_after {h s h₁ s₁ h₂ s₂} {r : Except String α} (hrel : C.rel h s h₁ s₁)
    (hpost : E.post out h₁ s₁ h₂ r s₂) : E.post out h s h₂ r s₂ := by
  unfold Ending.post at hpost ⊢
  generalize r.toOption.bind out = c at hpost ⊢
  cases c with
  | none => exact ⟨hpost.1,C.trans hrel hpost.2⟩
  | some c => exact E.after hrel hpost

theorem Honours.bind_until (hx : Honours C x) (hf : ∀ a,Until E out' (f a)) :
    Until E out' (x >>= f) := by
  intro s h hi
  refine (hx s h hi).bind (fun h' a s' hq => ?_) fun h' p s' hq => hq
  exact (hf a s' h' hq.1).mono fun h'' r s'' hq' => Ending.post_after hq.2 hq'

theorem Until.bind (hx : Until E out x)
    (hsome : ∀ a c h s h' s',out a = some c → E.done h s c h' s' →
      Spec C.allows (f a) (E.post out' h s) s' h')
    (hnone : ∀ a,out a = none → Until E out' (f a)) : Until E out' (x >>= f) := by
  intro s h hi
  refine Spec.bind (hx s h hi) (fun h' a s' hq => ?_) fun h' p s' hq => hq
  cases hout : out a with
  | some c => exact hsome a c h s h' s' hout ((Ending.post_some hout).1 hq)
  | none =>
    replace hq := (Ending.post_none hout).1 hq
    exact (hnone a hout s' h' hq.1).mono fun h'' r s'' hq' => Ending.post_after hq.2 hq'

theorem Until.bind_honours {K : γ → List (Event Op Ans) → Prop} (hx : Until (Ending.gain C K) out x)
    (hsome : ∀ a c,out a = some c → Honours (C.assume (K c)) (f a))
    (hnone : ∀ a,out a = none → Honours C (f a)) : Honours C (x >>= f) := by
  refine (honours_iff_until fun _ => (none : Option Unit)).2 fun s h hi => ?_
  refine Spec.bind (hx s h hi) (fun h' a s' hq => ?_) fun h' p s' hq => hq
  cases hout : out a with
  | some c =>
    replace hq := (Ending.post_some hout).1 hq
    refine (hsome a c hout s' h' hq.1).mono fun h'' r s'' hq' => Ending.post_keep.2 ?_
    exact ⟨hq'.1.1,C.trans hq.2 hq'.2⟩
  | none =>
    replace hq := (Ending.post_none hout).1 hq
    refine (hnone a hout s' h' hq.1).mono fun h'' r s'' hq' => Ending.post_keep.2 ?_
    exact ⟨hq'.1,C.trans hq.2 hq'.2⟩

end Act

end CallTree
