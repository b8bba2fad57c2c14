import Switchyard.AdminTeams
set_option autoImplicit false

/-! The ID that `Slug` derives from a team's name (internal/auth/team.go). -/

namespace Switchyard.Admin
open GoText

/-- `unicode.ToLower`, past ASCII by its table. -/
def lowerRune (table : Char → Char) (c : Char) : Char :=
  if c.toNat < 128 then if 'A' ≤ c ∧ c ≤ 'Z' then Char.ofNat (c.toNat+32) else c else table c

/-- `strings.ToLower`. A byte that is not UTF-8 is read as the rune U+FFFD, and
becomes it. -/
def toLower (table : Char → Char) (s : String) : String :=
  String.ofList (s.toList.map (lowerRune table))

def groups (cs : List Char) : List (List Char) :=
  (cs.splitOnP fun c => !isAlnum c).filter (· ≠ [])

/-- Every hyphen stands between two letters or digits. -/
inductive Dashed : List Char → Prop where
  | nil : Dashed []
  | word {c : Char} {cs : List Char} : isAlnum c = true → Dashed cs → Dashed (c :: cs)
  | hyphen {c : Char} {cs : List Char} : isAlnum c = true → cs ≠ [] → Dashed cs →
      Dashed (c :: '-' :: cs)

section Dashed

variable {c : Char} {cs out : List Char}

theorem Dashed.append_word (h : Dashed cs) (hc : isAlnum c = true) : Dashed (cs ++ [c]) := by
  induction h with
  | nil => exact .word hc .nil
  | word ha _ ih => exact .word ha ih
  | hyphen ha _ _ ih => exact .hyphen ha (by simp) ih

theorem Dashed.append_hyphen (h : Dashed cs) (hne : cs ≠ []) (hc : isAlnum c = true) :
    Dashed (cs ++ ['-',c]) := by
  induction h with
  | nil => exact absurd rfl hne
  | @word a cs ha _ ih =>
    cases cs with
    | nil => exact .hyphen ha (by simp) (.word hc .nil)
    | cons b cs => exact .word ha (ih (by simp))
  | hyphen ha hcs _ ih => exact .hyphen ha (by simp) (ih hcs)

theorem Dashed.reverse (h : Dashed cs) : Dashed cs.reverse := by
  induction h with
  | nil => exact .nil
  | word hc _ ih =>
    rw [List.reverse_cons]
    exact ih.append_word hc
  | hyphen hc hcs _ ih =>
    rw [List.reverse_cons,List.reverse_cons,List.append_assoc]
    exact ih.append_hyphen (by simpa using hcs) hc

theorem Dashed.mem (h : Dashed cs) : ∀ c ∈ cs,isAlnum c = true ∨ c = '-' := by
  induction h with
  | nil => simp
  | word hc _ ih => exact List.forall_mem_cons.2 ⟨.inl hc,ih⟩
  | hyphen hc _ _ ih => exact List.forall_mem_cons.2 ⟨.inl hc,List.forall_mem_cons.2 ⟨.inr rfl,ih⟩⟩

theorem ne_hyphen (hc : isAlnum c = true) : c ≠ '-' := by
  rintro rfl
  cases hc

/-- What is written so far, reversed, stays dashed; a hyphen is pending only
after a letter or digit. -/
theorem slugFrom_dashed {pending : Bool} (h : Dashed out) (hpending : pending = true → out ≠ []) :
    Dashed (slugFrom out pending cs).reverse := by
  induction cs generalizing out pending with
  | nil => simpa [slugFrom] using h
  | cons c cs ih =>
    rw [slugFrom]
    split
    · rename_i hc
      refine ih ?_ (by simp)
      cases pending with
      | false => exact .word hc h
      | true => exact .hyphen hc (hpending rfl) h
    · exact ih h (by simp)

/-- Cut at any place and without the hyphens at the cut, it is dashed again. -/
theorem Dashed.cut (h : Dashed cs) (n : Nat) :
    Dashed ((cs.drop n).dropWhile (· = '-')) ∧
      (n < cs.length → (cs.drop n).dropWhile (· = '-') ≠ []) := by
  induction h generalizing n with
  | nil => exact ⟨by simpa using .nil,by simp⟩
  | @word a cs ha hcs ih =>
    cases n with
    | zero => simpa [ne_hyphen ha] using .word ha hcs
    | succ n => simpa using ih n
  | @hyphen a cs ha hne hcs ih =>
    match n with
    | 0 => simpa [ne_hyphen ha] using .hyphen ha hne hcs
    | 1 =>
      have hstart := ih 0
      simp only [List.drop_zero,List.length_pos_iff] at hstart
      exact ⟨by simpa using hstart.1,fun _ => by simpa using hstart.2 hne⟩
    | n+2 => simpa using ih n

theorem Dashed.slugFrom_eq (h : Dashed cs) (out : List Char) :
    slugFrom out false cs = out.reverse ++ cs := by
  induction h generalizing out with
  | nil => simp [slugFrom]
  | word hc _ ih => simp [slugFrom,hc,ih]
  | @hyphen c cs hc hne hcs ih =>
    -- the pending hyphen is written before the next letter or digit
    have hwrite : slugFrom (c :: out) true cs = slugFrom ('-' :: c :: out) false cs := by
      cases hcs with
      | nil => exact absurd rfl hne
      | word ha _ => simp [slugFrom,ha]
      | hyphen ha _ _ => simp [slugFrom,ha]
    have hhyphen : isAlnum '-' = false := rfl
    simp [slugFrom,hc,hhyphen,hwrite,ih]

end Dashed

section Groups

theorem intercalate_cons (g : List Char) (gs : List (List Char)) :
    ['-'].intercalate (g :: gs) = g ++ gs.flatMap ('-' :: ·) := by
  induction gs generalizing g with
  | nil => simp
  | cons a gs ih => rw [List.intercalate_cons_cons,ih]; simp

theorem slugFrom_groups {o : List Char} (ho : o ≠ []) (cs : List Char) :
    (∃ g gs,cs.splitOnP (fun c => !isAlnum c) = g :: gs ∧
      slugFrom o false cs = o.reverse ++ g ++ (gs.filter (· ≠ [])).flatMap ('-' :: ·)) ∧
    slugFrom o true cs = o.reverse ++ (groups cs).flatMap ('-' :: ·) := by
  induction cs generalizing o with
  | nil => exact ⟨⟨[],[],by simp,by simp [slugFrom]⟩,by simp [slugFrom,groups]⟩
  | cons c cs ih =>
    have hsplit := List.splitOnP_cons_eq_if_modifyHead (p := fun c => !isAlnum c) c cs
    by_cases hc : isAlnum c = true
    · obtain ⟨⟨g,gs,hrest,hfalse⟩,-⟩ := ih (o := c :: o) (by simp)
      obtain ⟨⟨g',gs',hrest',htrue⟩,-⟩ := ih (o := c :: '-' :: o) (by simp)
      obtain ⟨rfl,rfl⟩ := List.cons.inj (hrest.symm.trans hrest')
      refine ⟨⟨c :: g,gs,by simp [hsplit,hc,hrest],by simp [slugFrom,hc,hfalse]⟩,?_⟩
      simp [slugFrom,hc,htrue,groups,hsplit,hrest]
    · obtain ⟨-,hskip⟩ := ih ho
      have hstarted : o.isEmpty = false := List.isEmpty_eq_false_iff.2 ho
      refine ⟨⟨[],cs.splitOnP (fun c => !isAlnum c),by simp [hsplit,hc],?_⟩,?_⟩
      · simpa [slugFrom,hc,hstarted,groups] using hskip
      · simpa [slugFrom,hc,hstarted,groups,hsplit] using hskip

theorem slugFrom_eq (cs : List Char) : slugFrom [] false cs = ['-'].intercalate (groups cs) := by
  induction cs with
  | nil => simp [slugFrom,groups]
  | cons c cs ih =>
    have hsplit := List.splitOnP_cons_eq_if_modifyHead (p := fun c => !isAlnum c) c cs
    by_cases hc : isAlnum c = true
    · obtain ⟨⟨g,gs,hrest,hloop⟩,-⟩ := slugFrom_groups (o := [c]) (by simp) cs
      simp [slugFrom,hc,hloop,groups,hsplit,hrest,intercalate_cons]
    · simpa [slugFrom,hc,groups,hsplit] using ih

variable {cs : List Char}

theorem mem_splitOnP {g : List Char} (h : g ∈ cs.splitOnP fun c => !isAlnum c) :
    ∀ c ∈ g,isAlnum c = true := by
  induction cs generalizing g with
  | nil => simp_all
  | cons c cs ih =>
    rw [List.splitOnP_cons_eq_if_modifyHead] at h
    split at h
    · obtain rfl | h := List.mem_cons.1 h
      · simp
      · exact ih h
    · rename_i hc
      cases hsplit : cs.splitOnP fun c => !isAlnum c with
      | nil => simp [hsplit] at h
      | cons a as =>
        rw [hsplit] at h ih
        obtain rfl | h := List.mem_cons.1 h
        · exact List.forall_mem_cons.2 ⟨by simpa using hc,ih List.mem_cons_self⟩
        · exact ih (List.mem_cons_of_mem _ h)

theorem groups_eq_nil : groups cs = [] ↔ ∀ c ∈ cs,isAlnum c = false := by
  induction cs with
  | nil => simp [groups]
  | cons c cs ih =>
    have hsplit := List.splitOnP_cons_eq_if_modifyHead (p := fun c => !isAlnum c) c cs
    cases hc : isAlnum c with
    | false => simpa [groups,hsplit,hc] using ih
    | true =>
      obtain ⟨⟨g,gs,hrest,-⟩,-⟩ := slugFrom_groups (o := [c]) (by simp) cs
      simp [groups,hsplit,hc,hrest]

theorem mem_groups {g : List Char} (h : g ∈ groups cs) : g ≠ [] ∧ ∀ c ∈ g,isAlnum c = true := by
  obtain ⟨hsplit,hne⟩ := List.mem_filter.1 h
  exact ⟨by simpa using hne,mem_splitOnP hsplit⟩

theorem slugFrom_eq_nil : slugFrom [] false cs = [] ↔ ∀ c ∈ cs,isAlnum c = false := by
  rw [slugFrom_eq,← groups_eq_nil]
  cases hgs : groups cs with
  | nil => simp
  | cons g gs =>
    have hne : g ≠ [] := (mem_groups (hgs ▸ List.mem_cons_self)).1
    simp [intercalate_cons,hne]

end Groups

section Slug

variable (table : Char → Char) {cs : List Char}

theorem Dashed.ascii (h : Dashed cs) : ∀ c ∈ cs,c.toNat < 128 ∧ ¬('A' ≤ c ∧ c ≤ 'Z') := by
  intro c hc
  obtain hc | rfl := h.mem c hc
  · simp only [isAlnum,Bool.or_eq_true,Bool.and_eq_true,decide_eq_true_eq,Char.le_def,
      UInt32.le_iff_toNat_le] at hc ⊢
    change c.val.toNat < 128 ∧ _
    have hbounds : 'a'.val.toNat = 97 ∧ 'z'.val.toNat = 122 ∧ '0'.val.toNat = 48 ∧
        '9'.val.toNat = 57 ∧ 'A'.val.toNat = 65 ∧ 'Z'.val.toNat = 90 := by decide
    omega
  · decide

theorem Dashed.lower (h : Dashed cs) : cs.map (lowerRune table) = cs := by
  have hsame : ∀ c ∈ cs,lowerRune table c = c := fun c hc => by
    rw [lowerRune,if_pos (h.ascii c hc).1,if_neg (h.ascii c hc).2]
  exact (List.map_congr_left hsame).trans (List.map_id cs)

theorem Dashed.bytes_length (h : Dashed cs) : (bytes (String.ofList cs)).length = cs.length := by
  have hascii := h.ascii
  clear h
  rw [GoText.bytes_length]
  induction cs with
  | nil => rfl
  | cons c cs ih =>
    obtain ⟨⟨hc,-⟩,hcs⟩ := List.forall_mem_cons.1 hascii
    have hone : c.utf8Size = 1 := by
      have hval : c.val ≤ 127 := UInt32.le_iff_toNat_le.2 (Nat.le_of_lt_succ hc)
      simp [Char.utf8Size,hval]
    rw [String.ofList_cons,String.utf8ByteSize_append,ih hcs,List.length_cons]
    simp [hone]
    omega

theorem slug_dashed (name : String) : Dashed (slug (toLower table) name).toList ∧
    (slug (toLower table) name).toList.length ≤ maxIDLength ∧
    ((slug (toLower table) name).toList = [] ↔
      slugFrom [] false (toLower table name).toList = []) := by
  have hwritten : Dashed (slugFrom [] false (toLower table name).toList).reverse :=
    slugFrom_dashed .nil (by simp)
  simp only [slug,String.toList_ofList]
  generalize slugFrom [] false (toLower table name).toList = id at hwritten
  split
  · rename_i hlong
    obtain ⟨hcut,hne⟩ := hwritten.cut (id.length-maxIDLength)
    rw [← List.reverse_take] at hcut hne
    have hpos : 0 < maxIDLength := by decide
    have hsome := hne (by rw [List.length_reverse]; omega)
    refine ⟨hcut.reverse,?_,fun h => absurd (List.reverse_eq_nil_iff.1 h) hsome,fun h => ?_⟩
    · rw [List.length_reverse]
      exact (List.dropWhile_sublist _).length_le.trans (by simp)
    · simp [h] at hlong
  · rename_i hshort
    exact ⟨by simpa using hwritten.reverse,by omega,Iff.rfl⟩

end Slug

/-- A slug is groups of letters and digits joined by single hyphens, at most 48
bytes long and empty only for names without a letter or digit. It is its own
slug, and depends on the name's groups alone. -/
theorem slug_laws (table : Char → Char) (name : String) :
    (∃ gs : List (List Char),(slug (toLower table) name).toList = ['-'].intercalate gs ∧
      ∀ g ∈ gs,g ≠ [] ∧ ∀ c ∈ g,isAlnum c = true) ∧
    (bytes (slug (toLower table) name)).length ≤ 48 ∧
    (slug (toLower table) name = "" ↔ ∀ c ∈ (toLower table name).toList,isAlnum c = false) ∧
    slug (toLower table) (slug (toLower table) name) = slug (toLower table) name ∧
    ∀ other,groups (toLower table other).toList = groups (toLower table name).toList →
      slug (toLower table) other = slug (toLower table) name := by
  have hother : ∀ other,groups (toLower table other).toList = groups (toLower table name).toList →
      slug (toLower table) other = slug (toLower table) name := by
    intro other hsame
    simp only [slug,slugFrom_eq,hsame]
  obtain ⟨hdashed,hlength,hempty⟩ := slug_dashed table name
  generalize slug (toLower table) name = id at *
  have hself : slugFrom [] false id.toList = id.toList := hdashed.slugFrom_eq []
  have hbytes := hdashed.bytes_length
  rw [String.ofList_toList] at hbytes
  refine ⟨⟨groups id.toList,hself.symm.trans (slugFrom_eq _),fun _ => mem_groups⟩,?_,?_,?_,hother⟩
  · rw [hbytes]
    exact hlength
  · rw [← slugFrom_eq_nil,← hempty,String.toList_eq_nil_iff]
  · have hlower : (toLower table id).toList = id.toList := by
      rw [toLower,String.toList_ofList,hdashed.lower]
    rw [slug,hlower,hself,if_neg (not_lt.2 hlength),String.ofList_toList]

theorem slug_laws_acme : slug (toLower id) "Acme  Corp!" = "acme-corp" ∧
    slug (toLower id) "Acme  Corp!" = slug (toLower id) "ACME/corp" := by
  obtain ⟨-,-,-,-,hsame⟩ := slug_laws id "ACME/corp"
  exact ⟨by decide,hsame "Acme  Corp!" (by decide)⟩

end Switchyard.Admin
