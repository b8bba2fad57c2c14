import Mathlib.Data.List.Sort
import Mathlib.Data.String.Basic
import Switchyard.GoText
import Switchyard.StoreLogic
set_option autoImplicit false

/-!
The schema migrations (internal/logstore/migrate.go). The SQL of a file is known
by the file's name; what Postgres has committed of it is kept in order.
-/

namespace Switchyard.Migrations
open GoText CallTree

structure MigrationFile where
  version : Int
  name : String
  deriving DecidableEq, Repr

def migrationFile (name : String) : Except String MigrationFile :=
  match cut name '_' with
  | none => .error s!"migration {quote name} has no version_ prefix"
  | some (digits,_) =>
    match atoi digits with
    | (_,some err) =>
      .error s!"migration {quote name}: parsing version {quote digits}: {err}"
    | (v,none) => .ok ⟨v,name⟩

/-- `fs.Glob` for *.sql, over the names of one directory. -/
def glob (names : List String) : List String :=
  names.filter fun name => ".sql".toList <:+ name.toList

def migrationFiles (names : List String) : Except String (List MigrationFile) :=
  ((glob names).insertionSort (· ≤ ·)).mapM migrationFile

structure Transaction where
  ran : List String
  rows : List MigrationFile
  deriving DecidableEq, Repr

/-- `rows` is the table schema_migrations, once it exists. -/
structure Database where
  rows : Option (List MigrationFile)
  committed : List String
  tx : Option Transaction
  deriving DecidableEq, Repr

def Database.fresh : Database := ⟨none,[],none⟩

inductive Op where
  | lock
  | unlock
  | createTable
  | selectVersions
  | readFile (name : String)
  | beginTx
  | execBody (name : String)
  | insertRow (f : MigrationFile)
  | commit
  | rollback
  deriving DecidableEq, Repr

inductive ReadStage where
  | query
  | scan
  | rows
  deriving DecidableEq, Repr

/-- An error; Postgres may have executed the statement all the same. -/
structure Fault where
  text : String
  executed : Bool
  stage : ReadStage
  deriving DecidableEq, Repr

abbrev Reply : Op → Type
  | .selectVersions => List Int
  | _ => Unit

abbrev Ans (op : Op) : Type := Except Fault (Reply op)

abbrev Program := Prog Op Ans

def MigrationFile.Fits (f : MigrationFile) :
    Prop := -2147483648 ≤ f.version ∧ f.version ≤ 2147483647

instance (f : MigrationFile) : Decidable f.Fits := inferInstanceAs (Decidable (_ ∧ _))

def Database.table (db : Database) : List MigrationFile := db.rows.getD []

/-- Statements Postgres may execute: version is the primary key of a table that
has to exist. -/
def Database.Accepts (db : Database) : Op → Prop
  | .selectVersions => db.rows ≠ none
  | .insertRow f => db.rows ≠ none ∧ f.Fits ∧
      ∀ g,g ∈ db.table ∨ (∃ t ∈ db.tx,g ∈ t.rows) → g.version ≠ f.version
  | _ => True

def Database.after (db : Database) : Op → Database
  | .createTable => { db with rows := some db.table }
  | .beginTx => { db with tx := some ⟨[],[]⟩ }
  | .execBody name => { db with tx := db.tx.map fun t => { t with ran := t.ran ++ [name] } }
  | .insertRow f => { db with tx := db.tx.map fun t => { t with rows := t.rows ++ [f] } }
  | .commit =>
    match db.tx with
    | none => db
    | some t => ⟨some (db.table ++ t.rows),db.committed ++ t.ran,none⟩
  | .rollback => { db with tx := none }
  | _ => db

def Database.Replies (db : Database) : (op : Op) → Reply op → Prop
  | .selectVersions,vs => vs = db.table.map MigrationFile.version
  | .lock,_ => True
  | .unlock,_ => True
  | .createTable,_ => True
  | .readFile _,_ => True
  | .beginTx,_ => True
  | .execBody _,_ => True
  | .insertRow _,_ => True
  | .commit,_ => True
  | .rollback,_ => True

def executed (e : Event Op Ans) : Bool :=
  match e.ans with
  | .ok _ => true
  | .error f => f.executed

def Exec (db : Database) (e : Event Op Ans) (db' : Database) : Prop :=
  (executed e = true → db.Accepts e.op) ∧ (∀ r,e.ans = .ok r → db.Replies e.op r) ∧
    db' = if executed e then db.after e.op else db

def applyBody (f : MigrationFile) : Program (Except String Unit) :=
  orFail (perform (.execBody f.name)) (fun e => s!"applying migration {quote f.name}: {e.text}")
    fun _ =>
  orFail (perform (.insertRow f)) (fun e => s!"recording migration {quote f.name}: {e.text}")
    fun _ =>
  orFail (perform .commit) (fun e => s!"committing migration {quote f.name}: {e.text}") fun _ =>
  pure (.ok ())

def applyOne (f : MigrationFile) : Program (Except String Unit) :=
  orFail (perform (.readFile f.name)) (fun e => s!"reading migration {quote f.name}: {e.text}")
    fun _ =>
  orFail (perform .beginTx) (fun e => s!"beginning migration {quote f.name}: {e.text}") fun _ => do
    let r ← applyBody f
    let _ ← perform .rollback
    pure r

/-- The loop of `Migrate`, with the names applied so far. -/
def applyPending (applied : List Int) :
    List String → List MigrationFile → Program (List String × Option String)
  | ran,[] => pure (ran,none)
  | ran,f :: fs =>
    if f.version ∈ applied then applyPending applied ran fs
    else do
      match ← applyOne f with
      | .error e => pure (ran,some e)
      | .ok _ => applyPending applied (ran ++ [f.name]) fs

def versionsError (e : Fault) : String :=
  match e.stage with
  | .query => "reading applied migrations: " ++ e.text
  | .scan => "scanning applied migration: " ++ e.text
  | .rows => e.text

def migrateLocked (names : List String) : Program (List String × Option String) := do
  match ← perform .createTable with
  | .error e => pure ([],some ("creating schema_migrations: " ++ e.text))
  | .ok _ => do
    match ← perform .selectVersions with
    | .error e => pure ([],some (versionsError e))
    | .ok applied =>
      match migrationFiles names with
      | .error e => pure ([],some e)
      | .ok files => applyPending applied [] files

/-- `Migrate`: the names of the files it applied, and its error. -/
def migrate (names : List String) : Program (List String × Option String) := do
  match ← perform .lock with
  | .error e => pure ([],some ("acquiring migration lock: " ++ e.text))
  | .ok _ => do
    let r ← migrateLocked names
    let _ ← perform .unlock
    pure r

/-- What a sequence of runs can leave. A run may be killed at any statement. -/
inductive Migrated (names : List String) : Database → Prop where
  | fresh : Migrated names .fresh
  | run {db db' : Database} {q : Program (List String × Option String)} : Migrated names db →
      (migrate names).Runs Exec db q db' → Migrated names db'

variable {db : Database}

theorem exec_ok {db' : Database} {op : Op} {r : Reply op} (h : Exec db ⟨op,.ok r⟩ db') :
    db.Accepts op ∧ db.Replies op r ∧ db' = db.after op := ⟨h.1 rfl,h.2.1 r rfl,h.2.2⟩

theorem exec_answer {op : Op} {r : Reply op} (hacc : db.Accepts op) (hrep : db.Replies op r) :
    Exec db ⟨op,.ok r⟩ (db.after op) := by
  refine ⟨fun _ => hacc,fun r' hr => ?_,rfl⟩
  rwa [← Except.ok.inj hr]

theorem exec_cases {db' : Database} {e : Event Op Ans} (h : Exec db e db') :
    db' = db ∨ db.Accepts e.op ∧ db' = db.after e.op := by
  obtain ⟨hacc,-,rfl⟩ := h
  by_cases he : executed e = true
  · exact .inr ⟨hacc he,if_pos he⟩
  · exact .inl (if_neg he)

structure Same (db db' : Database) : Prop where
  table : db'.table = db.table
  committed : db'.committed = db.committed
  created : db.rows ≠ none → db'.rows ≠ none

/-- One file more, committed with its row. -/
structure Gains (db : Database) (f : MigrationFile) (db' : Database) : Prop where
  table : db'.table = db.table ++ [f]
  committed : db'.committed = db.committed ++ [f.name]
  created : db'.rows ≠ none
  fits : f.Fits
  unused : ∀ g ∈ db.table,g.version ≠ f.version

theorem Same.refl (db : Database) : Same db db := ⟨rfl,rfl,id⟩

theorem Same.trans {d d' : Database} (h : Same db d) (h' : Same d d') : Same db d' :=
  ⟨h'.table.trans h.table,h'.committed.trans h.committed,h'.created ∘ h.created⟩

theorem Same.gains {d d' : Database} {f : MigrationFile} (h : Same db d) (h' : Gains d f d') :
    Gains db f d' := by
  refine ⟨h.table ▸ h'.table,h.committed ▸ h'.committed,h'.created,h'.fits,?_⟩
  rw [← h.table]
  exact h'.unused

theorem Gains.same {d d' : Database} {f : MigrationFile} (h : Gains db f d) (h' : Same d d') :
    Gains db f d' :=
  ⟨h'.table.trans h.table,h'.committed.trans h.committed,h'.created h.created,h.fits,h.unused⟩

theorem same_after (db : Database) (op : Op) (hop : op ≠ .commit) : Same db (db.after op) := by
  cases op with
  | commit => exact absurd rfl hop
  | createTable => exact ⟨rfl,rfl,fun _ => by simp [Database.after]⟩
  | _ => exact ⟨rfl,rfl,id⟩

theorem same_exec {db' : Database} {e : Event Op Ans} (h : Exec db e db') (he : e.op ≠ .commit) :
    Same db db' := by
  obtain rfl | ⟨-,rfl⟩ := exec_cases h
  · exact .refl _
  · exact same_after db _ he

section File

variable {db d : Database} {f : MigrationFile}

theorem gains_commit (hfit : f.Fits) (hunused : ∀ g ∈ d.table,g.version ≠ f.version)
    (htx : d.tx = some ⟨[f.name],[f]⟩) : Gains d f (d.after .commit) := by
  simp only [Database.after,htx]
  exact ⟨rfl,rfl,by simp,hfit,hunused⟩

/-- What a part of `applyOne` that starts after db may leave. -/
def Left (db : Database) (f : MigrationFile) (d : Database) : Prop := Same db d ∨ Gains db f d

theorem Left.same {d' : Database} (h : Left db f d) (h' : Same d d') : Left db f d' :=
  h.imp (·.trans h') (·.same h')

theorem applyBody_always (hsame : Same db d) (htx : d.tx = some ⟨[],[]⟩) :
    (applyBody f).Always Exec (Left db f) (fun r d' => r = .ok () → Gains db f d') d := by
  refine always_orFail (always_perform.2 ⟨.inl hsame,fun ans d₁ hexec₁ => ?_⟩)
  have hsame₁ := hsame.trans (same_exec hexec₁ (by simp))
  refine ⟨.inl hsame₁,?_⟩
  cases ans with
  | error e => simp
  | ok _ =>
  obtain ⟨-,-,rfl⟩ := exec_ok hexec₁
  refine always_orFail (always_perform.2 ⟨.inl hsame₁,fun ans d₂ hexec₂ => ?_⟩)
  have hsame₂ := hsame₁.trans (same_exec hexec₂ (by simp))
  refine ⟨.inl hsame₂,?_⟩
  cases ans with
  | error e => simp
  | ok _ =>
  obtain ⟨⟨-,hfit,hfree⟩,-,rfl⟩ := exec_ok hexec₂
  have hgains : Gains _ f (Database.after _ .commit) :=
    gains_commit (d := (d.after (.execBody f.name)).after (.insertRow f)) hfit
      (fun g hg => hfree g (.inl hg)) (by simp [Database.after,htx])
  refine always_orFail (always_perform.2 ⟨.inl hsame₂,fun ans d₃ hexec₃ => ?_⟩)
  have hleft : Left db f d₃ := by
    obtain rfl | ⟨-,rfl⟩ := exec_cases hexec₃
    · exact .inl hsame₂
    · exact .inr (hsame₂.gains hgains)
  refine ⟨hleft,?_⟩
  cases ans with
  | error e => simp
  | ok _ =>
    obtain ⟨-,-,rfl⟩ := exec_ok hexec₃
    exact ⟨hleft,fun _ => hsame₂.gains hgains⟩

/-- Whatever fails, a file's SQL and its row are committed together or not at
all, and they are if no error is returned. -/
theorem applyOne_always :
    (applyOne f).Always Exec (Left db f) (fun r d => r = .ok () → Gains db f d) db := by
  have hstart : Left db f db := .inl (.refl db)
  refine always_orFail (always_perform.2 ⟨hstart,fun ans d₁ hexec₁ => ?_⟩)
  have hsame₁ : Same db d₁ := same_exec hexec₁ (by simp)
  refine ⟨.inl hsame₁,?_⟩
  cases ans with
  | error e => simp
  | ok _ =>
  refine always_orFail (always_perform.2 ⟨.inl hsame₁,fun ans d₂ hexec₂ => ?_⟩)
  have hsame₂ := hsame₁.trans (same_exec hexec₂ (by simp))
  refine ⟨.inl hsame₂,?_⟩
  cases ans with
  | error e => simp
  | ok _ =>
  obtain ⟨-,-,rfl⟩ := exec_ok hexec₂
  refine always_bind.2 ((applyBody_always hsame₂ rfl).mono (fun _ h => h) ?_)
  intro r d₃ hleft hr
  refine always_bind.2 (always_perform.2 ⟨hleft,fun ans d₄ hexec₄ => ?_⟩)
  have hsame₄ : Same d₃ d₄ := same_exec hexec₄ (by simp)
  exact ⟨hleft.same hsame₄,hleft.same hsame₄,fun hok => (hr hok).same hsame₄⟩

theorem applyOne_can (hrows : db.rows ≠ none) (hfit : f.Fits)
    (hunused : ∀ g ∈ db.table,g.version ≠ f.version) :
    (applyOne f).Can Exec (fun r d => r = .ok () ∧ Gains db f d) db := by
  let d := ((db.after .beginTx).after (.execBody f.name)).after (.insertRow f)
  have hgains : Gains d f (d.after .commit) := gains_commit hfit hunused rfl
  have hsame : Same db d := (same_after db .beginTx (by simp)).trans
    ((same_after _ (.execBody f.name) (by simp)).trans (same_after _ (.insertRow f) (by simp)))
  have hfree : ((db.after .beginTx).after (.execBody f.name)).Accepts (.insertRow f) := by
    refine ⟨hrows,hfit,fun g hg => ?_⟩
    obtain hg | ⟨t,ht,hg⟩ := hg
    · exact hunused g hg
    · obtain rfl : ⟨[f.name],[]⟩ = t := by simpa [Database.after] using ht
      simp at hg
  refine ⟨.ok (),_,exec_answer trivial trivial,.ok (),_,exec_answer trivial trivial,?_⟩
  refine ⟨.ok (),_,exec_answer trivial trivial,.ok (),_,exec_answer hfree trivial,?_⟩
  refine ⟨.ok (),_,exec_answer trivial trivial,.ok (),_,exec_answer trivial trivial,rfl,?_⟩
  exact (hsame.gains hgains).same (same_after _ .rollback (by simp))

theorem applyOne_refused : (applyOne f).Can Exec (fun r d => r ≠ .ok () ∧ Same db d) db := by
  refine ⟨.ok (),_,exec_answer trivial trivial,.ok (),_,exec_answer trivial trivial,?_⟩
  refine ⟨.ok (),_,exec_answer trivial trivial,.error ⟨"",false,.query⟩,_,⟨by simp [executed],
    by simp,rfl⟩,.ok (),_,exec_answer trivial trivial,by simp,?_⟩
  exact (same_after db .beginTx (by simp)).trans
    ((same_after _ (.execBody f.name) (by simp)).trans (same_after _ .rollback (by simp)))

end File

/-- Every file committed has its row, and no version is there twice. -/
structure Sound (files : List MigrationFile) (d : Database) : Prop where
  names : d.committed = d.table.map MigrationFile.name
  keys : (d.table.map MigrationFile.version).Nodup
  fits : ∀ g ∈ d.table,g.Fits
  known : d.table ⊆ files

section Loop

variable {files : List MigrationFile} {db d : Database} {f : MigrationFile}

theorem Sound.same (h : Sound files db) (hs : Same db d) : Sound files d := by
  refine ⟨?_,hs.table ▸ h.keys,hs.table ▸ h.fits,hs.table ▸ h.known⟩
  rw [hs.committed,hs.table]
  exact h.names

theorem Sound.gains (h : Sound files db) (hf : f ∈ files) (hg : Gains db f d) : Sound files d := by
  obtain ⟨htable,hcommitted,-,hfit,hunused⟩ := hg
  constructor
  · simp [htable,hcommitted,h.names]
  · rw [htable,List.map_append,List.nodup_append]
    refine ⟨h.keys,by simp,fun v hv w hw hvw => ?_⟩
    obtain ⟨g,hg,rfl⟩ := List.mem_map.1 hv
    obtain rfl : w = f.version := by simpa using hw
    exact hunused g hg hvw
  · rw [htable]
    simpa [or_imp,forall_and,hfit] using h.fits
  · rw [htable]
    simpa [hf] using h.known

theorem Sound.left (h : Sound files db) (hf : f ∈ files) (hleft : Left db f d) : Sound files d := by
  obtain hs | hg := hleft
  · exact h.same hs
  · exact h.gains hf hg

variable {fs : List MigrationFile} {ran : List String}

theorem applyPending_always {applied : List Int} (hfs : fs ⊆ files) (hd : Sound files d)
    {K : List Int} (happlied : applied ⊆ K) (hK : K ⊆ d.table.map MigrationFile.version) :
    (applyPending applied ran fs).Always Exec (Sound files) (fun r d' => r.2 = none →
      K ++ fs.map MigrationFile.version ⊆ d'.table.map MigrationFile.version) d := by
  induction fs generalizing ran d K with
  | nil => exact ⟨hd,fun _ => by simpa using hK⟩
  | cons f fs ih =>
    obtain ⟨hf,hfs⟩ := List.cons_subset.1 hfs
    unfold applyPending
    split
    · rename_i hskip
      refine (ih hfs hd happlied hK).mono (fun _ h => h) fun r d' _ hr hnone => ?_
      have hcover := hr hnone
      simp only [List.append_subset,List.map_cons,List.cons_subset] at hcover ⊢
      exact ⟨hcover.1,hcover.1 (happlied hskip),hcover.2⟩
    · refine always_bind.2 (applyOne_always.mono (fun d' h => hd.left hf h) fun r d' hleft hr => ?_)
      cases r with
      | error e => exact ⟨hd.left hf hleft,by simp⟩
      | ok _ =>
        obtain ⟨htable,-⟩ := hr rfl
        have hK' : K ++ [f.version] ⊆ d'.table.map MigrationFile.version := by
          rw [htable,List.map_append,List.append_subset]
          exact ⟨List.Subset.trans hK (List.subset_append_left _ _),List.subset_append_right _ _⟩
        have happlied' := List.Subset.trans happlied (List.subset_append_left K [f.version])
        refine (ih hfs (hd.left hf hleft) happlied' hK').mono (fun _ h => h)
          fun r d'' _ hr hnone => ?_
        simpa using hr hnone

/-- The first n files are committed, in their order, and no others. -/
structure Recorded (files : List MigrationFile) (n : Nat) (d : Database) : Prop where
  table : d.table = files.take n
  committed : d.committed = (files.take n).map MigrationFile.name

theorem Recorded.same {n : Nat} (h : Recorded files n db) (hs : Same db d) : Recorded files n d :=
  ⟨hs.table.trans h.table,hs.committed.trans h.committed⟩

theorem Recorded.gains {i : Nat} (h : Recorded files i db)
    (hfs : files.drop i = f :: fs) (hg : Gains db f d) : Recorded files (i+1) d := by
  have hi : files[i]? = some f := by
    rw [← List.head?_drop,hfs]
    rfl
  have htake : files.take (i+1) = files.take i ++ [f] := by rw [List.take_add_one,hi]; rfl
  refine ⟨by rw [hg.table,h.table,htake],?_⟩
  rw [hg.committed,h.committed,htake,List.map_append]
  rfl

theorem version_mem_take {n i : Nat}
    (hgrow : files.Pairwise fun a b => a.version < b.version) (hfs : files.drop i = f :: fs) :
    f.version ∈ (files.take n).map MigrationFile.version ↔ i < n := by
  have hi : files[i]? = some f := by
    rw [← List.head?_drop,hfs]
    rfl
  constructor
  · intro hmem
    by_contra hle
    obtain ⟨g,hg,hversion⟩ := List.mem_map.1 hmem
    rw [← List.take_append_drop n files,List.pairwise_append] at hgrow
    have hf : f ∈ files.drop n := by
      refine List.mem_of_getElem? (i := i-n) ?_
      rw [List.getElem?_drop,← hi]
      congr 1
      omega
    have hlt := hgrow.2.2 g hg f hf
    omega
  · intro hlt
    refine List.mem_map_of_mem (List.mem_of_getElem? (i := i) ?_)
    rw [List.getElem?_take_of_lt hlt,hi]

/-- From the i-th file on, with the first n applied before the run. -/
theorem applyPending_grows {n i : Nat} (hgrow : files.Pairwise fun a b => a.version < b.version)
    (hfs : files.drop i = fs) (hd : Recorded files (max n i) d) :
    (applyPending ((files.take n).map MigrationFile.version) ran fs).Always Exec
      (fun d' => ∃ m,Recorded files m d')
      (fun r d' => r.2 = none → Recorded files files.length d') d := by
  induction fs generalizing i ran d with
  | nil =>
    refine ⟨⟨_,hd⟩,fun _ => ?_⟩
    have hlen : files.length ≤ i := List.drop_eq_nil_iff.1 hfs
    have htake : files.take (max n i) = files.take files.length := by
      rw [List.take_length,List.take_of_length_le (by omega)]
    exact ⟨htake ▸ hd.table,htake ▸ hd.committed⟩
  | cons f fs ih =>
    have hnext : files.drop (i+1) = fs := by
      rw [← List.drop_drop,hfs]
      rfl
    unfold applyPending
    split
    · rename_i hskip
      have hlt := (version_mem_take hgrow hfs).1 hskip
      refine ih hnext ?_
      rwa [show max n (i+1) = max n i by omega]
    · rename_i hnew
      have hle : ¬i < n := fun hlt => hnew ((version_mem_take hgrow hfs).2 hlt)
      rw [show max n i = i by omega] at hd
      refine always_bind.2 (applyOne_always.mono (fun d' hleft => ?_) fun r d' hleft hr => ?_)
      · obtain hs | hg := hleft
        · exact ⟨i,hd.same hs⟩
        · exact ⟨i+1,hd.gains hfs hg⟩
      · cases r with
        | error e =>
          obtain hs | hg := hleft
          · exact ⟨⟨i,hd.same hs⟩,by simp⟩
          · exact ⟨⟨i+1,hd.gains hfs hg⟩,by simp⟩
        | ok _ =>
          refine ih hnext ?_
          rw [show max n (i+1) = i+1 by omega]
          exact hd.gains hfs (hr rfl)

/-- With no failure the loop ends without an error, or after it has added rows:
then it met a version it had itself committed. -/
theorem applyPending_can {old extra : List MigrationFile}
    (hfs : ∀ f ∈ fs,f.Fits) (hrows : d.rows ≠ none) (hd : d.table = old ++ extra) :
    (applyPending (old.map MigrationFile.version) ran fs).Can Exec
      (fun r d' => r.2 = none ∨ old.length < d'.table.length) d := by
  induction fs generalizing ran d extra with
  | nil => exact .inl rfl
  | cons f fs ih =>
    rw [List.forall_mem_cons] at hfs
    unfold applyPending
    split
    · exact ih hfs.2 hrows hd
    · rename_i hnew
      by_cases htaken : ∀ g ∈ d.table,g.version ≠ f.version
      · refine can_bind.2 ((applyOne_can hrows hfs.1 htaken).mono ?_)
        rintro _ d' ⟨rfl,hg⟩
        have htable : d'.table = old ++ (extra ++ [f]) := by simp [hg.table,hd]
        exact ih hfs.2 hg.created htable
      · refine can_bind.2 (applyOne_refused.mono fun r d' hr => ?_)
        obtain ⟨hne,hs⟩ := hr
        cases r with
        | ok _ => exact absurd rfl hne
        | error e =>
          right
          simp only [ne_eq,not_forall,not_not] at htaken
          obtain ⟨g,hg,hversion⟩ := htaken
          rw [hs.table,hd,List.length_append]
          -- the version is not among the old rows, so some row was added
          have hextra : extra ≠ [] := by
            rintro rfl
            rw [hd,List.append_nil] at hg
            exact hnew (hversion ▸ List.mem_map_of_mem hg)
          have := List.length_pos_iff.2 hextra
          omega

theorem applyPending_clean (hfs : ∀ f ∈ fs,f.Fits)
    (hrows : d.rows ≠ none) (hnew : (fs.map MigrationFile.version).Nodup)
    (hfree : ∀ f ∈ fs,∀ g ∈ d.table,g.version ≠ f.version) :
    (applyPending [] ran fs).Can Exec (fun r d' => r.2 = none ∧ d'.table = d.table ++ fs ∧
      d'.committed = d.committed ++ fs.map MigrationFile.name) d := by
  induction fs generalizing ran d with
  | nil => exact ⟨rfl,by simp,by simp⟩
  | cons f fs ih =>
    rw [List.forall_mem_cons] at hfs hfree
    rw [List.map_cons,List.nodup_cons] at hnew
    unfold applyPending
    rw [if_neg (by simp)]
    refine can_bind.2 ((applyOne_can hrows hfs.1 hfree.1).mono ?_)
    rintro _ d' ⟨rfl,hg⟩
    refine (ih hfs.2 hg.created hnew.2 fun h hh g hgt => ?_).mono ?_
    · rw [hg.table,List.mem_append,List.mem_singleton] at hgt
      obtain hgt | rfl := hgt
      · exact hfree.2 h hh g hgt
      · exact fun heq => hnew.1 (heq ▸ List.mem_map_of_mem hh)
    · rintro r d'' ⟨hnone,htable,hcommitted⟩
      exact ⟨hnone,by simp [htable,hg.table],by simp [hcommitted,hg.committed]⟩

end Loop

section Run

variable {names : List String} {files : List MigrationFile} {d : Database}

theorem migrate_always (hfiles : migrationFiles names = .ok files) {I : Database → Prop}
    {Q : List String × Option String → Database → Prop} (hI : ∀ a b,Same a b → I a → I b)
    (hQ : ∀ r a b,Same a b → Q r a → Q r b) (hfail : ∀ ran e a,Q (ran,some e) a) (hd : I d)
    (hloop : ∀ d',Same d d' → d'.rows ≠ none →
      (applyPending (d'.table.map MigrationFile.version) [] files).Always Exec I Q d') :
    (migrate names).Always Exec I Q d := by
  refine always_bind.2 (always_perform.2 ⟨hd,fun ans d₁ hexec₁ => ?_⟩)
  have hsame₁ : Same d d₁ := same_exec hexec₁ (by simp)
  refine ⟨hI _ _ hsame₁ hd,?_⟩
  cases ans with
  | error e => exact ⟨hI _ _ hsame₁ hd,hfail _ _ _⟩
  | ok _ =>
  refine always_bind.2 (Prog.Always.mono (Q := Q) ?_ (fun _ h => h) fun r d' hi hr => ?_)
  · refine always_bind.2 (always_perform.2 ⟨hI _ _ hsame₁ hd,fun ans d₂ hexec₂ => ?_⟩)
    have hsame₂ := hsame₁.trans (same_exec hexec₂ (by simp))
    refine ⟨hI _ _ hsame₂ hd,?_⟩
    cases ans with
    | error e => exact ⟨hI _ _ hsame₂ hd,hfail _ _ _⟩
    | ok _ =>
    refine always_bind.2 (always_perform.2 ⟨hI _ _ hsame₂ hd,fun ans d₃ hexec₃ => ?_⟩)
    have hsame₃ := hsame₂.trans (same_exec hexec₃ (by simp))
    refine ⟨hI _ _ hsame₃ hd,?_⟩
    cases ans with
    | error e => exact ⟨hI _ _ hsame₃ hd,hfail _ _ _⟩
    | ok applied =>
      obtain ⟨hrows,rfl,rfl⟩ := exec_ok hexec₃
      simp only [hfiles]
      exact hloop _ hsame₃ hrows
  · refine always_bind.2 (always_perform.2 ⟨hi,fun ans d'' hexec => ?_⟩)
    have hsame : Same d' d'' := same_exec hexec (by simp)
    exact ⟨hI _ _ hsame hi,hI _ _ hsame hi,hQ _ _ _ hsame hr⟩

theorem migrate_can (hfiles : migrationFiles names = .ok files)
    {Q : List String × Option String → Database → Prop} (hQ : ∀ r a b,Same a b → Q r a → Q r b)
    (hloop : ∀ d',Same d d' → d'.rows ≠ none →
      (applyPending (d'.table.map MigrationFile.version) [] files).Can Exec Q d') :
    (migrate names).Can Exec Q d := by
  have hsame : Same d (d.after .createTable) := same_after d .createTable (by simp)
  have hrows : (d.after .createTable).rows ≠ none := by simp [Database.after]
  refine ⟨.ok (),_,exec_answer trivial trivial,can_bind.2 ?_⟩
  refine ⟨.ok (),_,exec_answer trivial trivial,.ok _,_,exec_answer hrows rfl,?_⟩
  simp only [hfiles]
  refine (can_bind (p := applyPending _ [] files)).2 ((hloop _ hsame hrows).mono fun r d' hr => ?_)
  exact ⟨.ok (),_,exec_answer trivial trivial,hQ r _ _ (same_after d' .unlock (by simp)) hr⟩

theorem migrationFile_name {name : String} {f : MigrationFile} (h : migrationFile name = .ok f) :
    f.name = name := by
  unfold migrationFile at h
  split at h
  · cases h
  split at h
  · cases h
  · obtain rfl := Except.ok.inj h
    rfl

theorem migrationFiles_names (hfiles : migrationFiles names = .ok files) :
    files.map MigrationFile.name = (glob names).insertionSort (· ≤ ·) := by
  unfold migrationFiles at hfiles
  generalize (glob names).insertionSort (· ≤ ·) = sorted at hfiles ⊢
  induction sorted generalizing files with
  | nil =>
    cases hfiles
    rfl
  | cons name sorted ih =>
    rw [List.mapM_cons] at hfiles
    cases hf : migrationFile name with
    | error e => simp [hf,bind,Except.bind] at hfiles
    | ok f =>
      cases hrest : sorted.mapM migrationFile with
      | error e => simp [hf,hrest,bind,Except.bind] at hfiles
      | ok fs =>
        simp only [hf,hrest,bind,Except.bind,pure,Except.pure,Except.ok.injEq] at hfiles
        rw [← hfiles,List.map_cons,migrationFile_name hf,ih hrest]

theorem migrationFiles_nodup (hnames : names.Nodup) (hfiles : migrationFiles names = .ok files) :
    (files.map MigrationFile.name).Nodup := by
  rw [migrationFiles_names hfiles,(List.perm_insertionSort _ _).nodup_iff]
  exact hnames.filter _

theorem migrate_sound (hfiles : migrationFiles names = .ok files) (hd : Sound files d) :
    (migrate names).Always Exec (Sound files) (fun r d' => r.2 = none →
      files.map MigrationFile.version ⊆ d'.table.map MigrationFile.version) d := by
  refine migrate_always hfiles (fun a b hs ha => ha.same hs) (fun r a b hs hr => ?_) (by simp) hd ?_
  · rw [hs.table]
    exact hr
  · intro d' hs _
    refine (applyPending_always (List.Subset.refl files) (hd.same hs) (List.Subset.refl _)
      (List.Subset.refl _)).mono (fun _ h => h) fun r d'' _ hr hnone => ?_
    exact (List.append_subset.1 (hr hnone)).2

theorem migrate_grows (hfiles : migrationFiles names = .ok files)
    (hgrow : files.Pairwise fun f g => f.version < g.version) {n : Nat} (hd : Recorded files n d) :
    (migrate names).Always Exec (fun d' => ∃ m,Recorded files m d')
      (fun r d' => r.2 = none → Recorded files files.length d') d := by
  refine migrate_always hfiles (fun a b hs ⟨m,hm⟩ => ⟨m,hm.same hs⟩)
    (fun r a b hs hr hnone => (hr hnone).same hs) (by simp) ⟨n,hd⟩ fun d' hs _ => ?_
  rw [hs.table,hd.table]
  exact applyPending_grows hgrow (i := 0) rfl (by simpa using hd.same hs)

theorem Migrated.invariant {I : Database → Prop} (hfresh : I .fresh)
    (hrun : ∀ d,I d → ∃ Q,(migrate names).Always Exec I Q d) (h : Migrated names db) : I db := by
  induction h with
  | fresh => exact hfresh
  | run _ hruns ih =>
    obtain ⟨Q,hQ⟩ := hrun _ ih
    exact (hQ.runs hruns).here

theorem Migrated.sound (hfiles : migrationFiles names = .ok files) (h : Migrated names db) :
    Sound files db := by
  refine h.invariant ⟨rfl,List.nodup_nil,by simp [Database.fresh,Database.table],?_⟩
    fun d hd => ⟨_,migrate_sound hfiles hd⟩
  simp [Database.fresh,Database.table]

theorem Migrated.recorded (hfiles : migrationFiles names = .ok files)
    (hgrow : files.Pairwise fun f g => f.version < g.version) (h : Migrated names db) :
    ∃ n,Recorded files n db :=
  h.invariant (I := fun d => ∃ n,Recorded files n d) ⟨0,rfl,rfl⟩
    fun _ ⟨_,hn⟩ => ⟨_,migrate_grows hfiles hgrow hn⟩

theorem Sound.length_le (h : Sound files db) : db.table.length ≤ files.length := by
  have hnodup : db.table.Nodup := h.keys.of_map
  exact (List.subperm_of_subset hnodup h.known).length_le

theorem migrate_progress (hfiles : migrationFiles names = .ok files) (hfit : ∀ f ∈ files,f.Fits)
    (db : Database) : ∃ ran err d',(migrate names).Runs Exec db (.ret (ran,err)) d' ∧
      (err = none ∨ db.table.length < d'.table.length) := by
  have hcan : (migrate names).Can Exec
      (fun r d' => r.2 = none ∨ db.table.length < d'.table.length) db := by
    refine migrate_can hfiles (fun r a b hs hr => hs.table ▸ hr) fun d' hs hrows => ?_
    exact hs.table ▸ applyPending_can hfit hrows (List.append_nil _).symm
  obtain ⟨⟨ran,err⟩,d',hruns,hend⟩ := hcan.runs
  exact ⟨ran,err,d',hruns,hend⟩

theorem exists_clean_run (hfiles : migrationFiles names = .ok files) (hfit : ∀ f ∈ files,f.Fits)
    (room : Nat) (h : Migrated names db) (hroom : files.length ≤ db.table.length+room) :
    ∃ d d' ran,Migrated names d ∧ (migrate names).Runs Exec d (.ret (ran,none)) d' := by
  induction room generalizing db with
  | zero =>
    obtain ⟨ran,err,d',hruns,rfl | hlt⟩ := migrate_progress hfiles hfit db
    · exact ⟨db,d',ran,h,hruns⟩
    · have hle := ((h.run hruns).sound hfiles).length_le
      omega
  | succ room ih =>
    obtain ⟨ran,err,d',hruns,rfl | hlt⟩ := migrate_progress hfiles hfit db
    · exact ⟨db,d',ran,h,hruns⟩
    · exact ih (h.run hruns) (by omega)

/-- Every file's SQL committed once, and none after a file of a larger version. -/
structure Lawful (files : List MigrationFile) (db : Database) : Prop where
  once : ∀ f ∈ files,db.committed.count f.name = 1
  ordered : ∀ f ∈ files,∀ g ∈ files,g.version < f.version → ¬[f.name,g.name].Sublist db.committed

def KeepsLaw (names : List String) (files : List MigrationFile) : Prop :=
  ∀ db db' ran,Migrated names db → (migrate names).Runs Exec db (.ret (ran,none)) db' →
    Lawful files db'

theorem lawful_of_grows (hnames : (files.map MigrationFile.name).Nodup)
    (hgrow : files.Pairwise fun f g => f.version < g.version)
    (hcommitted : db.committed = files.map MigrationFile.name) : Lawful files db := by
  refine ⟨fun f hf => ?_,fun f hf g hg hlt hsub => ?_⟩
  · rw [hcommitted]
    exact List.count_eq_one_of_mem hnames (List.mem_map_of_mem hf)
  · rw [hcommitted] at hsub
    obtain ⟨fg,hfiles,hfg⟩ := List.sublist_map_iff.1 hsub
    have hinj := List.inj_on_of_nodup_map hnames
    obtain ⟨f',rest,rfl,hf',hrest⟩ := List.map_eq_cons_iff.1 hfg.symm
    obtain ⟨g',rest,rfl,hg',hrest⟩ := List.map_eq_cons_iff.1 hrest
    obtain rfl := List.map_eq_nil_iff.1 hrest
    obtain rfl : f' = f := hinj (hfiles.subset (by simp)) hf hf'
    obtain rfl : g' = g := hinj (hfiles.subset (by simp)) hg hg'
    have hpair := hgrow.sublist hfiles
    simp only [List.pairwise_cons,List.mem_singleton,forall_eq] at hpair
    omega

theorem Sound.versions_nodup (hnames : (files.map MigrationFile.name).Nodup)
    (h : Sound files db) (hall : ∀ f ∈ files,f.name ∈ db.committed) :
    (files.map MigrationFile.version).Nodup := by
  have hsub : files ⊆ db.table := by
    intro f hf
    have hmem := hall f hf
    rw [h.names] at hmem
    obtain ⟨g,hg,hname⟩ := List.mem_map.1 hmem
    rwa [← List.inj_on_of_nodup_map hnames (h.known hg) hf hname]
  refine (List.nodup_map_iff_inj_on hnames.of_map).2 fun f hf g hg heq => ?_
  exact List.inj_on_of_nodup_map h.keys (hsub hf) (hsub hg) heq

/-- The law holds for every sequence of runs exactly if the versions grow along
the sorted file names, or one does not fit the version column: then no run ever
returns without an error. -/
theorem keepsLaw_iff (hnames : names.Nodup) (hfiles : migrationFiles names = .ok files) :
    KeepsLaw names files ↔
      (files.Pairwise fun f g => f.version < g.version) ∨ ∃ f ∈ files,¬f.Fits := by
  have hnodup := migrationFiles_nodup hnames hfiles
  constructor
  · intro hlaw
    by_cases hfit : ∀ f ∈ files,f.Fits
    · left
      -- some run ends without an error, so no version is there twice
      obtain ⟨d,d',ran,hd,hruns⟩ := exists_clean_run hfiles hfit files.length .fresh (by omega)
      have honce := (hlaw d d' ran hd hruns).once
      have hversions := ((hd.run hruns).sound hfiles).versions_nodup hnodup fun f hf =>
        List.count_pos_iff.1 (by rw [honce f hf]; exact Nat.one_pos)
      -- then the first run commits all files in the order of their names
      have hcan : (migrate names).Can Exec (fun r db => r.2 = none ∧
          db.committed = files.map MigrationFile.name) .fresh := by
        refine migrate_can hfiles (fun r a b hs hr => hs.committed ▸ hr) fun d' hs hrows => ?_
        have hempty : d'.table = [] := hs.table
        have hnone : d'.committed = [] := hs.committed
        rw [hempty]
        refine (applyPending_clean hfit hrows hversions (by simp [hempty])).mono ?_
        rintro r db ⟨hr,-,hc⟩
        exact ⟨hr,by simpa [hnone] using hc⟩
      obtain ⟨⟨ran,err⟩,db,hfirst,rfl,hcommitted⟩ := hcan.runs
      have hordered := (hlaw _ _ _ .fresh hfirst).ordered
      rw [List.pairwise_iff_forall_sublist]
      intro f g hsub
      have hf : f ∈ files := hsub.subset (by simp)
      have hg : g ∈ files := hsub.subset (by simp)
      have hne : f.version ≠ g.version := by
        have hpair := hversions.sublist (hsub.map MigrationFile.version)
        simpa using hpair
      have hnot : ¬g.version < f.version := by
        intro hlt
        refine hordered f hf g hg hlt ?_
        rw [hcommitted]
        exact hsub.map MigrationFile.name
      omega
    · right
      simpa using hfit
  · intro hcond db db' ran hdb hruns
    obtain hgrow | ⟨f,hf,hfit⟩ := hcond
    · obtain ⟨n,hn⟩ := hdb.recorded hfiles hgrow
      have hend := ((migrate_grows hfiles hgrow hn).runs hruns).2 rfl
      exact lawful_of_grows hnodup hgrow (by simpa using hend.committed)
    · exfalso
      have hsound := hdb.sound hfiles
      have hcover := ((migrate_sound hfiles hsound).runs hruns).2 rfl
      obtain ⟨g,hg,hversion⟩ := List.mem_map.1 (hcover (List.mem_map_of_mem hf))
      have hgfit := ((hdb.run hruns).sound hfiles).fits g hg
      exact hfit (by rwa [MigrationFile.Fits,← hversion])

theorem keepsLaw_padded :
    KeepsLaw ["0002_b.sql","0001_a.sql"] [⟨1,"0001_a.sql"⟩,⟨2,"0002_b.sql"⟩] :=
  (keepsLaw_iff (by decide) (by decide +kernel)).2 (.inl (by decide))

/-- Of two files of one version the first run commits one and fails at the row
of the other; the next run takes both for applied and returns no error. -/
theorem duplicate_version_skipped : ∃ db db',Migrated ["0001_a.sql","0001_b.sql"] db ∧
    (migrate ["0001_a.sql","0001_b.sql"]).Runs Exec db (.ret ([],none)) db' ∧
    db'.committed = ["0001_a.sql"] := by
  let a : MigrationFile := ⟨1,"0001_a.sql"⟩
  let b : MigrationFile := ⟨1,"0001_b.sql"⟩
  have hfiles : migrationFiles ["0001_a.sql","0001_b.sql"] = .ok [a,b] := by decide +kernel
  have hfirst : (migrate ["0001_a.sql","0001_b.sql"]).Can Exec
      (fun _ d => d.table = [a] ∧ d.committed = ["0001_a.sql"]) .fresh := by
    refine migrate_can hfiles (fun _ x y hs hr => ?_) fun d hs hrows => ?_
    · rw [hs.table,hs.committed]
      exact hr
    have hempty : d.table = [] := hs.table
    have hnone : d.committed = [] := hs.committed
    rw [hempty]
    refine can_bind.2 ((applyOne_can (f := a) hrows (by decide) (by simp [hempty])).mono ?_)
    rintro _ d₁ ⟨rfl,hg⟩
    refine can_bind.2 ((applyOne_refused (f := b)).mono ?_)
    rintro r d₂ ⟨hr,hs₂⟩
    have hend : d₂.table = [a] ∧ d₂.committed = ["0001_a.sql"] := by
      rw [hs₂.table,hs₂.committed,hg.table,hg.committed,hempty,hnone]
      exact ⟨rfl,rfl⟩
    cases r with
    | error e => exact hend
    | ok _ => exact absurd rfl hr
  obtain ⟨r,db,hruns,htable,hcommitted⟩ := hfirst.runs
  have hsecond : (migrate ["0001_a.sql","0001_b.sql"]).Can Exec
      (fun r d => r = ([],none) ∧ d.committed = ["0001_a.sql"]) db := by
    refine migrate_can hfiles (fun _ x y hs hr => hs.committed ▸ hr) fun d hs _ => ?_
    rw [hs.table,htable]
    exact ⟨rfl,hs.committed.trans hcommitted⟩
  obtain ⟨_,db',hruns',rfl,hcommitted'⟩ := hsecond.runs
  exact ⟨db,db',.run .fresh hruns,hruns',hcommitted'⟩

theorem not_keepsLaw_duplicate :
    ¬KeepsLaw ["0001_a.sql","0001_b.sql"] [⟨1,"0001_a.sql"⟩,⟨1,"0001_b.sql"⟩] := by
  intro hlaw
  obtain ⟨db,db',hdb,hruns,hcommitted⟩ := duplicate_version_skipped
  have honce := (hlaw db db' [] hdb hruns).once ⟨1,"0001_b.sql"⟩ (by simp)
  rw [hcommitted] at honce
  exact absurd honce (by decide)

end Run

end Switchyard.Migrations
