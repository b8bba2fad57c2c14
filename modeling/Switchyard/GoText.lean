import Mathlib.Algebra.Group.Int.Defs
import Mathlib.Data.List.TakeWhile
set_option autoImplicit false

/-!
The text functions of Go's standard library that the gateway's messages and
keys go through.
-/

namespace GoText

def hexDigit (n : Nat) : Char :=
  if n < 10 then Char.ofNat (48+n) else Char.ofNat (87+n)

/-- One rune of `strconv.Quote`. Runes past ASCII are taken as printable. -/
def quoteChar (c : Char) : List Char :=
  if c = '"' then ['\\','"']
  else if c = '\\' then ['\\','\\']
  else if c.toNat = 7 then ['\\','a']
  else if c.toNat = 8 then ['\\','b']
  else if c.toNat = 9 then ['\\','t']
  else if c.toNat = 10 then ['\\','n']
  else if c.toNat = 11 then ['\\','v']
  else if c.toNat = 12 then ['\\','f']
  else if c.toNat = 13 then ['\\','r']
  else if c.toNat < 32 ∨ c.toNat = 127 then
    ['\\','x',hexDigit (c.toNat/16),hexDigit (c.toNat%16)]
  else [c]

def quote (s : String) : String := String.ofList ('"' :: s.toList.flatMap quoteChar ++ ['"'])

/-- The bytes of a Go string. -/
def bytes (s : String) : List UInt8 := s.toByteArray.data.toList

theorem bytes_inj {s t : String} (h : bytes s = bytes t) : s = t := by
  apply String.toByteArray_inj.1
  apply ByteArray.ext
  exact Array.toList_inj.1 h

theorem bytes_length (s : String) : (bytes s).length = s.utf8ByteSize := rfl

theorem bytes_ofList_le (cs : List Char) : (bytes (String.ofList cs)).length ≤ 4*cs.length := by
  rw [bytes_length]
  induction cs with
  | nil => decide
  | cons c cs ih =>
    have hc := c.utf8Size_le_four
    rw [String.ofList_cons]
    simp
    omega

/-- A byte string as a Go string; one that is not UTF-8 is not represented. -/
def textOf (bs : List UInt8) : String := (String.fromUTF8? ⟨⟨bs⟩⟩).getD ""

@[simp] theorem textOf_bytes (s : String) : textOf (bytes s) = s := by
  have h : (⟨⟨bytes s⟩⟩ : ByteArray) = s.toByteArray := rfl
  simp [textOf,h,String.fromUTF8?,s.isValidUTF8,String.fromUTF8]

/-- The decimal digits of a positive n before acc, at most room of them. -/
def decimalDigits : Nat → Int → List Char → List Char
  | 0,_,acc => acc
  | room+1,n,acc =>
    if 0 < n then decimalDigits room (n/10) (Char.ofNat (48+(n%10).toNat) :: acc) else acc

def digitsValue (start : Nat) (cs : List Char) : Nat :=
  cs.foldl (fun a c => 10*a+(c.toNat-48)) start

theorem digitChar_toNat : ∀ d < 10,(Char.ofNat (48+d)).toNat = 48+d := by decide

theorem decimalDigits_value {room : Nat} {n : Int} (acc : List Char) (h0 : 0 ≤ n)
    (h : n < 10^room) : digitsValue 0 (decimalDigits room n acc) = digitsValue n.toNat acc := by
  induction room generalizing n acc with
  | zero =>
    have : n = 0 := by simp at h; omega
    simp [decimalDigits,this]
  | succ room ih =>
    by_cases hpos : 0 < n
    · have hchar := digitChar_toNat (n%10).toNat (by omega)
      rw [Int.pow_succ] at h
      rw [decimalDigits,if_pos hpos,ih _ (by omega) (by omega)]
      simp only [digitsValue,List.foldl_cons,hchar]
      congr 1
      omega
    · have : n = 0 := by omega
      simp [decimalDigits,this]

def isDigit (c : Char) : Bool := 48 ≤ c.toNat && c.toNat ≤ 57

theorem decimalDigits_digits (room : Nat) (n : Int) {acc : List Char} (h : ∀ c ∈ acc,isDigit c) :
    ∀ c ∈ decimalDigits room n acc,isDigit c := by
  induction room generalizing n acc with
  | zero => exact h
  | succ room ih =>
    by_cases hpos : 0 < n
    · rw [decimalDigits,if_pos hpos]
      apply ih _
      intro c hc
      obtain rfl | hc := List.mem_cons.1 hc
      · have hchar := digitChar_toNat (n%10).toNat (by omega)
        simp [isDigit,hchar]
        omega
      · exact h c hc
    · rw [decimalDigits,if_neg hpos]
      exact h

theorem decimalDigits_ne_nil (room : Nat) {n : Int} (acc : List Char) (h : 0 < n) :
    decimalDigits (room+1) n acc ≠ [] := by
  have grow : ∀ room n (acc : List Char),acc ≠ [] → decimalDigits room n acc ≠ [] := by
    intro room
    induction room with
    | zero => intro n acc hacc; exact hacc
    | succ room ih =>
      intro n acc hacc
      rw [decimalDigits]
      split
      · exact ih _ _ (by simp)
      · exact hacc
  rw [decimalDigits,if_pos h]
  exact grow _ _ _ (by simp)

/-- The digits of a non-negative int64. -/
def digits (n : Int) : List Char := if n = 0 then ['0'] else decimalDigits 20 n []

/-- `strconv.FormatInt` in base 10. -/
def formatInt (n : Int) : String :=
  if n < 0 then String.ofList ('-' :: digits (-n)) else String.ofList (digits n)

/-- The digits of `strconv.ParseInt`, after the sign. -/
def parseDigits (cs : List Char) : Option Int :=
  if cs ≠ [] ∧ cs.all isDigit then some (digitsValue 0 cs) else none

def parseError (s reason : String) : String :=
  "strconv.ParseInt: parsing " ++ quote s ++ ": " ++ reason

/-- `strconv.ParseInt` in base 10 for 64 bits: the value and the error. A value
out of range is clamped. -/
def parseInt (s : String) : Int × Option String :=
  let value := match s.toList with
    | '-' :: cs => (parseDigits cs).map Neg.neg
    | '+' :: cs => parseDigits cs
    | cs => parseDigits cs
  match value with
  | none => (0,some (parseError s "invalid syntax"))
  | some n =>
    if n < -9223372036854775808 then
      (-9223372036854775808,some (parseError s "value out of range"))
    else if 9223372036854775807 < n then
      (9223372036854775807,some (parseError s "value out of range"))
    else (n,none)

/-- `strconv.Atoi`: as `ParseInt`, with the error under its own name. -/
def atoi (s : String) : Int × Option String :=
  match parseInt s with
  | (n,none) => (n,none)
  | (n,some _) =>
    let reason := if n = 0 then "invalid syntax" else "value out of range"
    (n,some ("strconv.Atoi: parsing " ++ quote s ++ ": " ++ reason))

theorem parseDigits_digits {n : Int} (h0 : 0 ≤ n) (h : n < 10^20) :
    parseDigits (digits n) = some n := by
  by_cases hz : n = 0
  · subst hz; decide
  · have hv := decimalDigits_value [] h0 h
    have hd := decimalDigits_digits 20 n (by simp : ∀ c ∈ [],isDigit c)
    have hne := decimalDigits_ne_nil 19 (n := n) [] (by omega)
    rw [digits,if_neg hz,parseDigits,if_pos ⟨hne,List.all_eq_true.2 hd⟩,hv]
    simp [digitsValue]
    omega

theorem isDigit_of_mem_digits {n : Int} (h0 : 0 ≤ n) (h : n < 10^20) {c : Char}
    (hc : c ∈ digits n) : isDigit c := by
  have hp := parseDigits_digits h0 h
  unfold parseDigits at hp
  split at hp
  · rename_i hd
    exact List.all_eq_true.1 hd.2 c hc
  · simp at hp

theorem mem_formatInt {n : Int} (hlo : -9223372036854775808 ≤ n)
    (hhi : n ≤ 9223372036854775807) {c : Char} (hc : c ∈ (formatInt n).toList) :
    c = '-' ∨ isDigit c := by
  unfold formatInt at hc
  split at hc
  · simp only [String.toList_ofList,List.mem_cons] at hc
    exact hc.imp id (isDigit_of_mem_digits (by omega) (by omega))
  · simp only [String.toList_ofList] at hc
    exact .inr (isDigit_of_mem_digits (by omega) (by omega) hc)

theorem parseInt_formatInt {n : Int} (hlo : -9223372036854775808 ≤ n)
    (hhi : n ≤ 9223372036854775807) : parseInt (formatInt n) = (n,none) := by
  by_cases hneg : n < 0
  · have hp := parseDigits_digits (n := -n) (by omega) (by omega)
    simp [parseInt,formatInt,hneg,hp,Int.not_lt.2 hlo,Int.not_lt.2 hhi]
  · have hp := parseDigits_digits (n := n) (by omega) (by omega)
    cases hd : digits n with
    | nil => simp [hd,parseDigits] at hp
    | cons c cs =>
      have hc : isDigit c := isDigit_of_mem_digits (n := n) (by omega) (by omega) (by simp [hd])
      have hminus : c ≠ '-' := by intro he; subst he; revert hc; decide
      have hplus : c ≠ '+' := by intro he; subst he; revert hc; decide
      rw [hd] at hp
      simp [parseInt,formatInt,hneg,hd,hminus,hplus,hp,Int.not_lt.2 hlo,Int.not_lt.2 hhi]

/-- `hex.EncodeToString`. -/
def hexEncode (bs : List UInt8) : String :=
  String.ofList (bs.flatMap fun b => [hexDigit (b.toNat/16),hexDigit (b.toNat%16)])

theorem hexEncode_length (bs : List UInt8) : (hexEncode bs).toList.length = 2*bs.length := by
  simp only [hexEncode,String.toList_ofList]
  induction bs with
  | nil => rfl
  | cons b bs ih => simp [ih]; omega

theorem hexDigit_inj : ∀ m < 16,∀ n < 16,hexDigit m = hexDigit n → m = n := by decide

theorem hexEncode_inj {bs cs : List UInt8} (h : hexEncode bs = hexEncode cs) : bs = cs := by
  replace h := String.ofList_injective h
  induction bs generalizing cs with
  | nil =>
    cases cs with
    | nil => rfl
    | cons c cs => simp at h
  | cons b bs ih =>
    cases cs with
    | nil => simp at h
    | cons c cs =>
      simp only [List.flatMap_cons,List.cons_append,List.nil_append,List.cons.injEq] at h
      have hb := b.toNat_lt
      have hc := c.toNat_lt
      have hhigh := hexDigit_inj _ (by omega) _ (by omega) h.1
      have hlow := hexDigit_inj _ (by omega) _ (by omega) h.2.1
      have hbyte : b = c := UInt8.toNat.inj (by omega)
      rw [hbyte,ih h.2.2]

/-- `unicode.IsSpace`. -/
def isSpace (c : Char) : Bool :=
  let n := c.toNat
  (9 ≤ n && n ≤ 13) || n == 32 || n == 0x85 || n == 0xa0 || n == 0x1680 ||
    (0x2000 ≤ n && n ≤ 0x200a) || n == 0x2028 || n == 0x2029 || n == 0x202f ||
    n == 0x205f || n == 0x3000

/-- `strings.TrimSpace` -/
def trimSpace (s : String) : String :=
  String.ofList (((s.toList.dropWhile isSpace).reverse.dropWhile isSpace).reverse)

def hasPrefix (s p : String) : Bool := p.toList.isPrefixOf s.toList

def trimPrefix (s p : String) : String :=
  if hasPrefix s p then String.ofList (s.toList.drop p.toList.length) else s

@[simp] theorem hasPrefix_append (p s : String) : hasPrefix (p ++ s) p := by
  simp [hasPrefix]

@[simp] theorem trimPrefix_append (p s : String) : trimPrefix (p ++ s) p = s := by
  rw [trimPrefix,if_pos (hasPrefix_append p s),String.toList_append,List.drop_left,
    String.ofList_toList]

theorem dropWhile_space_append {pad cs : List Char} (h : ∀ c ∈ pad,isSpace c) :
    (pad ++ cs).dropWhile isSpace = cs.dropWhile isSpace := by
  rw [List.dropWhile_append,List.dropWhile_eq_nil_iff.2 h]
  rfl

theorem trimSpace_padded {lead trail : List Char} (s : String) (hlead : ∀ c ∈ lead,isSpace c)
    (htrail : ∀ c ∈ trail,isSpace c) :
    trimSpace (String.ofList (lead ++ s.toList ++ trail)) = trimSpace s := by
  have hrev : ∀ c ∈ trail.reverse,isSpace c := fun c hc => htrail c (List.mem_reverse.1 hc)
  simp only [trimSpace,String.toList_ofList,List.append_assoc]
  rw [dropWhile_space_append hlead,List.dropWhile_append]
  by_cases hs : (s.toList.dropWhile isSpace).isEmpty
  · have hnil := List.isEmpty_iff.1 hs
    rw [if_pos hs,hnil,List.dropWhile_eq_nil_iff.2 htrail]
  · rw [if_neg hs,List.reverse_append,dropWhile_space_append hrev]

/-- `strings.Fields`, with the field being read reversed in the first argument. -/
def fieldsFrom : List Char → List Char → List String
  | [],[] => []
  | cur,[] => [String.ofList cur.reverse]
  | cur,c :: cs =>
    if isSpace c then
      if cur.isEmpty then fieldsFrom [] cs else String.ofList cur.reverse :: fieldsFrom [] cs
    else fieldsFrom (c :: cur) cs

def fields (s : String) : List String := fieldsFrom [] s.toList

def cutChars (sep : Char) : List Char → Option (List Char × List Char)
  | [] => none
  | c :: cs => if c = sep then some ([],cs) else (cutChars sep cs).map fun x => (c :: x.1,x.2)

theorem cutChars_iff {sep : Char} {cs a b : List Char} :
    cutChars sep cs = some (a,b) ↔ cs = a ++ sep :: b ∧ sep ∉ a := by
  induction cs generalizing a b with
  | nil => simp [cutChars]
  | cons c cs ih =>
    unfold cutChars
    by_cases hc : c = sep
    · rw [if_pos hc]
      subst hc
      constructor
      · intro h
        cases h
        simp
      · intro h
        cases a with
        | nil => simpa using h
        | cons x a =>
          obtain ⟨rfl,-⟩ := List.cons.inj h.1
          exact absurd List.mem_cons_self h.2
    · rw [if_neg hc,Option.map_eq_some_iff]
      constructor
      · intro h
        obtain ⟨⟨x,y⟩,hx,heq⟩ := h
        obtain ⟨rfl,rfl⟩ := Prod.mk.inj heq
        obtain ⟨rfl,hnot⟩ := ih.1 hx
        exact ⟨rfl,by simpa [Ne.symm hc] using hnot⟩
      · intro h
        cases a with
        | nil => exact absurd (List.cons.inj h.1).1 hc
        | cons x a =>
          obtain ⟨rfl,hcs⟩ := List.cons.inj h.1
          exact ⟨(a,b),ih.2 ⟨hcs,fun hm => h.2 (List.mem_cons_of_mem _ hm)⟩,rfl⟩

/-- `strings.Cut` at a separator of one character. -/
def cut (s : String) (sep : Char) : Option (String × String) :=
  (cutChars sep s.toList).map fun x => (String.ofList x.1,String.ofList x.2)

/-- The text before and after `strings.LastIndex`. -/
def cutLast (s : String) (sep : Char) : Option (String × String) :=
  (cutChars sep s.toList.reverse).map fun x =>
    (String.ofList x.2.reverse,String.ofList x.1.reverse)

theorem cut_iff {s a b : String} {sep : Char} :
    cut s sep = some (a,b) ↔ s.toList = a.toList ++ sep :: b.toList ∧ sep ∉ a.toList := by
  rw [cut,Option.map_eq_some_iff,← cutChars_iff]
  constructor
  · intro h
    obtain ⟨x,hx,heq⟩ := h
    obtain ⟨rfl,rfl⟩ := Prod.mk.inj heq
    simpa using hx
  · exact fun h => ⟨_,h,by simp⟩

theorem cutLast_iff {s a b : String} {sep : Char} :
    cutLast s sep = some (a,b) ↔ s.toList = a.toList ++ sep :: b.toList ∧ sep ∉ b.toList := by
  have hrev : s.toList = a.toList ++ sep :: b.toList ∧ sep ∉ b.toList ↔
      cutChars sep s.toList.reverse = some (b.toList.reverse,a.toList.reverse) := by
    rw [cutChars_iff,List.reverse_eq_iff]
    simp
  rw [cutLast,Option.map_eq_some_iff,hrev]
  constructor
  · intro h
    obtain ⟨x,hx,heq⟩ := h
    obtain ⟨rfl,rfl⟩ := Prod.mk.inj heq
    simpa using hx
  · exact fun h => ⟨_,h,by simp⟩

end GoText
