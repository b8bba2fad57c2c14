import Switchyard.GoText
import Switchyard.MachineInt
set_option autoImplicit false

/-!
JSON strings and integers as encoding/json writes them, and a reader of that
form. Each reader returns what it read and the text that follows.
-/

namespace JSONText
open GoText

/-- One character inside a JSON string; HTML's characters are escaped too. -/
def escape (c : Char) : List Char :=
  if c = '"' then ['\\','"']
  else if c = '\\' then ['\\','\\']
  else if c.toNat = 8 then ['\\','b']
  else if c.toNat = 12 then ['\\','f']
  else if c.toNat = 10 then ['\\','n']
  else if c.toNat = 13 then ['\\','r']
  else if c.toNat = 9 then ['\\','t']
  else if c.toNat < 32 ∨ c = '<' ∨ c = '>' ∨ c = '&' then
    ['\\','u','0','0',hexDigit (c.toNat/16),hexDigit (c.toNat%16)]
  else if c.toNat = 0x2028 then ['\\','u','2','0','2','8']
  else if c.toNat = 0x2029 then ['\\','u','2','0','2','9']
  else [c]

def quote (s : String) : List Char := '"' :: s.toList.flatMap escape ++ ['"']

def hexValue (c : Char) : Option Nat :=
  if '0' ≤ c ∧ c ≤ '9' then some (c.toNat-48)
  else if 'a' ≤ c ∧ c ≤ 'f' then some (c.toNat-87)
  else if 'A' ≤ c ∧ c ≤ 'F' then some (c.toNat-55)
  else none

/-- The character after a backslash, `\u` apart. -/
def unescape : Char → Option Char
  | '"' => some '"'
  | '\\' => some '\\'
  | '/' => some '/'
  | 'b' => some (Char.ofNat 8)
  | 'f' => some (Char.ofNat 12)
  | 'n' => some '\n'
  | 'r' => some '\r'
  | 't' => some '\t'
  | _ => none

def hex4 (a b c d : Char) : Option Char := do
  let w ← hexValue a
  let x ← hexValue b
  let y ← hexValue c
  let z ← hexValue d
  return Char.ofNat (4096*w+256*x+16*y+z)

def readChars : List Char → Option (List Char × List Char)
  | [] => none
  | '"' :: rest => some ([],rest)
  | '\\' :: 'u' :: a :: b :: c :: d :: rest =>
    (hex4 a b c d).bind fun x => (readChars rest).map fun y => (x :: y.1,y.2)
  | '\\' :: e :: rest => (unescape e).bind fun x => (readChars rest).map fun y => (x :: y.1,y.2)
  | c :: rest => (readChars rest).map fun y => (c :: y.1,y.2)

def readString : List Char → Option (String × List Char)
  | '"' :: rest => (readChars rest).map fun x => (String.ofList x.1,x.2)
  | _ => none

def readText (text cs : List Char) : Option (List Char) :=
  if text <+: cs then some (cs.drop text.length) else none

/-- The name of an object's member and what stands before it: an opening brace
or a comma. -/
def memberName (before : Char) (name : String) : List Char := before :: quote name ++ [':']

def formatBool (b : Bool) : List Char :=
  if b then ['t','r','u','e'] else ['f','a','l','s','e']

def readBool (cs : List Char) : Option (Bool × List Char) :=
  ((readText (formatBool true) cs).map (true,·)).or ((readText (formatBool false) cs).map (false,·))

def isIntChar (c : Char) : Bool := c = '-' || isDigit c

def readInt (cs : List Char) : Option (Int × List Char) :=
  match parseInt (String.ofList (cs.takeWhile isIntChar)) with
  | (n,none) => some (n,cs.dropWhile isIntChar)
  | (_,some _) => none

theorem readText_append (text rest : List Char) : readText text (text ++ rest) = some rest := by
  simp [readText]

theorem readBool_format (b : Bool) (rest : List Char) :
    readBool (formatBool b ++ rest) = some (b,rest) := by
  cases b with
  | true => simp [readBool,formatBool,readText]
  | false => simp [readBool,formatBool,readText]

theorem isIntChar_formatInt (n : Int) : ∀ c ∈ (formatInt n).toList,isIntChar c = true := by
  have hdigits : ∀ m : Int,∀ c ∈ digits m,isDigit c = true := by
    intro m c hc
    unfold digits at hc
    split at hc
    · obtain rfl := List.mem_singleton.1 hc
      decide
    · exact decimalDigits_digits 20 m (by simp) c hc
  intro c hc
  unfold formatInt at hc
  split at hc
  · rw [String.toList_ofList] at hc
    obtain rfl | hc := List.mem_cons.1 hc
    · decide
    · simp [isIntChar,hdigits _ c hc]
  · rw [String.toList_ofList] at hc
    simp [isIntChar,hdigits _ c hc]

theorem readInt_format {n : Int} (h : MachineInt.InRange n) {c : Char} (hc : isIntChar c = false)
    (rest : List Char) : readInt ((formatInt n).toList ++ c :: rest) = some (n,c :: rest) := by
  have hall := isIntChar_formatInt n
  have htake : ((formatInt n).toList ++ c :: rest).takeWhile isIntChar = (formatInt n).toList := by
    rw [List.takeWhile_append_of_pos hall]
    simp [hc]
  have hdrop : ((formatInt n).toList ++ c :: rest).dropWhile isIntChar = c :: rest := by
    rw [List.dropWhile_append_of_pos hall]
    simp [hc]
  rw [readInt,htake,hdrop,String.ofList_toList,parseInt_formatInt h.1 h.2]

theorem readInt_member {n : Int} (h : MachineInt.InRange n) {before : Char}
    (hb : isIntChar before = false) (name : String) (rest : List Char) :
    readInt ((formatInt n).toList ++ (memberName before name ++ rest)) =
      some (n,memberName before name ++ rest) := by
  simp only [memberName,List.cons_append,readInt_format h hb]

theorem hex4_low :
    ∀ n < 128,hex4 '0' '0' (hexDigit (n/16)) (hexDigit (n%16)) = some (Char.ofNat n) := by
  decide

/-- The three ways to write a character. -/
inductive Escaped (c : Char) : List Char → Prop where
  | short {e : Char} : e ≠ 'u' → unescape e = some c → Escaped c ['\\',e]
  | hex {w x y z : Char} : hex4 w x y z = some c → Escaped c ['\\','u',w,x,y,z]
  | plain : c ≠ '"' → c ≠ '\\' → Escaped c [c]

theorem escaped (c : Char) : Escaped c (escape c) := by
  have hof : ∀ {n},c.toNat = n → some (Char.ofNat n) = some c :=
    fun h => congrArg some (h ▸ Char.ofNat_toNat c)
  unfold escape
  by_cases hquote : c = '"'
  · rw [if_pos hquote]
    exact .short (by decide) (congrArg some hquote.symm)
  rw [if_neg hquote]
  by_cases hback : c = '\\'
  · rw [if_pos hback]
    exact .short (by decide) (congrArg some hback.symm)
  rw [if_neg hback]
  by_cases h8 : c.toNat = 8
  · rw [if_pos h8]
    exact .short (by decide) (hof h8)
  rw [if_neg h8]
  by_cases h12 : c.toNat = 12
  · rw [if_pos h12]
    exact .short (by decide) (hof h12)
  rw [if_neg h12]
  by_cases h10 : c.toNat = 10
  · rw [if_pos h10]
    exact .short (by decide) (hof h10)
  rw [if_neg h10]
  by_cases h13 : c.toNat = 13
  · rw [if_pos h13]
    exact .short (by decide) (hof h13)
  rw [if_neg h13]
  by_cases h9 : c.toNat = 9
  · rw [if_pos h9]
    exact .short (by decide) (hof h9)
  rw [if_neg h9]
  by_cases hlow : c.toNat < 32 ∨ c = '<' ∨ c = '>' ∨ c = '&'
  · rw [if_pos hlow]
    have hsmall : c.toNat < 128 := by
      obtain h | rfl | rfl | rfl := hlow
      · omega
      all_goals decide
    exact .hex ((hex4_low _ hsmall).trans (hof rfl))
  rw [if_neg hlow]
  by_cases hline : c.toNat = 0x2028
  · rw [if_pos hline]
    exact .hex (hof hline)
  rw [if_neg hline]
  by_cases hparagraph : c.toNat = 0x2029
  · rw [if_pos hparagraph]
    exact .hex (hof hparagraph)
  · rw [if_neg hparagraph]
    exact .plain hquote hback

theorem readChars_escape (c : Char) (rest : List Char) :
    readChars (escape c ++ rest) = (readChars rest).map fun x => (c :: x.1,x.2) := by
  have hescaped := escaped c
  generalize escape c = text at hescaped ⊢
  cases hescaped with
  | short hne he => exact (readChars.eq_4 _ _ fun _ _ _ _ _ hu _ => hne hu).trans (by rw [he]; rfl)
  | hex hhex => exact (readChars.eq_3 _ _ _ _ _).trans (by rw [hhex]; rfl)
  | plain hquote hback =>
    exact readChars.eq_5 c rest hquote (fun _ _ _ _ _ h _ => hback h) fun _ _ h _ => hback h

theorem readString_quote (s : String) (rest : List Char) :
    readString (quote s ++ rest) = some (s,rest) := by
  have hchars : ∀ cs : List Char,
      readChars (cs.flatMap escape ++ '"' :: rest) = some (cs,rest) := by
    intro cs
    induction cs with
    | nil => rfl
    | cons c cs ih => rw [List.flatMap_cons,List.append_assoc,readChars_escape,ih,Option.map_some]
  have hsplit : quote s ++ rest = '"' :: (s.toList.flatMap escape ++ '"' :: rest) := by simp [quote]
  rw [hsplit,readString,hchars,Option.map_some,String.ofList_toList]

end JSONText
