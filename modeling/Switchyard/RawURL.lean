set_option autoImplicit false

/-!
Unpadded base64 in the URL alphabet, with a decoder that skips line breaks and
ignores the unused bits of the last character, as Go's `base64.RawURLEncoding`.
-/

namespace RawURL

def letter (n : Nat) : Char :=
  if n < 26 then Char.ofNat (65+n)
  else if n < 52 then Char.ofNat (71+n)
  else if n < 62 then Char.ofNat (n-4)
  else if n = 62 then '-'
  else '_'

def sextet (c : Char) : Option Nat :=
  if 'A' ≤ c ∧ c ≤ 'Z' then some (c.toNat-65)
  else if 'a' ≤ c ∧ c ≤ 'z' then some (c.toNat-71)
  else if '0' ≤ c ∧ c ≤ '9' then some (c.toNat+4)
  else if c = '-' then some 62
  else if c = '_' then some 63
  else none

theorem sextet_letter : ∀ n < 64,sextet (letter n) = some n := by decide

def isBreak (c : Char) : Bool := c = '\r' || c = '\n'

theorem letter_plain : ∀ n < 64,isBreak (letter n) = false ∧ letter n ≠ '.' := by decide

def groupSextets (val : Nat) : List Nat := [val/262144%64,val/4096%64,val/64%64,val%64]

def groupBytes (val : Nat) : List UInt8 :=
  [UInt8.ofNat (val/65536),UInt8.ofNat (val/256),UInt8.ofNat val]

def encodeSextets : List UInt8 → List Nat
  | [] => []
  | [a] => (groupSextets (65536*a.toNat)).take 2
  | [a,b] => (groupSextets (65536*a.toNat+256*b.toNat)).take 3
  | a :: b :: c :: rest =>
    groupSextets (65536*a.toNat+256*b.toNat+c.toNat) ++ encodeSextets rest

/-- A group of one character is refused. -/
def decodeSextets : List Nat → Option (List UInt8)
  | [] => some []
  | [_] => none
  | [a,b] => some ((groupBytes (262144*a+4096*b)).take 1)
  | [a,b,c] => some ((groupBytes (262144*a+4096*b+64*c)).take 2)
  | a :: b :: c :: d :: rest =>
    (decodeSextets rest).map (groupBytes (262144*a+4096*b+64*c+d) ++ ·)

def encode (bs : List UInt8) : String := String.ofList ((encodeSextets bs).map letter)

def decode (s : String) : Option (List UInt8) :=
  ((s.toList.filter (!isBreak ·)).mapM sextet).bind decodeSextets

theorem ofNat_eq {n : Nat} {a : UInt8} (h : n%256 = a.toNat) : UInt8.ofNat n = a := by
  rw [← UInt8.toNat_inj,UInt8.toNat_ofNat',h]

theorem decodeSextets_encodeSextets (bs : List UInt8) :
    decodeSextets (encodeSextets bs) = some bs := by
  induction bs using encodeSextets.induct with
  | case1 => rfl
  | case2 a =>
    have ha := a.toNat_lt
    simp only [encodeSextets,groupSextets,List.take,decodeSextets,groupBytes]
    rw [ofNat_eq (a := a) (by omega)]
  | case3 a b =>
    have ha := a.toNat_lt
    have hb := b.toNat_lt
    simp only [encodeSextets,groupSextets,List.take,decodeSextets,groupBytes]
    rw [ofNat_eq (a := a) (by omega),ofNat_eq (a := b) (by omega)]
  | case4 a b c rest ih =>
    have ha := a.toNat_lt
    have hb := b.toNat_lt
    have hc := c.toNat_lt
    simp only [encodeSextets,groupSextets,List.cons_append,List.nil_append,decodeSextets,ih,
      groupBytes,Option.map_some]
    rw [ofNat_eq (a := a) (by omega),ofNat_eq (a := b) (by omega),ofNat_eq (a := c) (by omega)]

theorem groupSextets_lt {val n : Nat} (h : n ∈ groupSextets val) : n < 64 := by
  simp only [groupSextets,List.mem_cons,List.not_mem_nil,or_false] at h
  omega

theorem encodeSextets_lt {bs : List UInt8} {n : Nat} (h : n ∈ encodeSextets bs) : n < 64 := by
  induction bs using encodeSextets.induct with
  | case1 => exact absurd h List.not_mem_nil
  | case2 a => exact groupSextets_lt (List.mem_of_mem_take h)
  | case3 a b => exact groupSextets_lt (List.mem_of_mem_take h)
  | case4 a b c rest ih =>
    obtain h | h := List.mem_append.1 h
    · exact groupSextets_lt h
    · exact ih h

theorem mapM_letter {ns : List Nat} (h : ∀ n ∈ ns,n < 64) :
    (ns.map letter).mapM sextet = some ns := by
  induction ns with
  | nil => rfl
  | cons n ns ih =>
    have hn := sextet_letter n (h n List.mem_cons_self)
    simp [List.mapM_cons,hn,ih fun m hm => h m (List.mem_cons_of_mem n hm)]

theorem encode_plain {bs : List UInt8} {c : Char} (h : c ∈ (encode bs).toList) :
    isBreak c = false ∧ c ≠ '.' := by
  simp only [encode,String.toList_ofList,List.mem_map] at h
  obtain ⟨n,hn,rfl⟩ := h
  exact letter_plain n (encodeSextets_lt hn)

theorem dot_not_mem_encode (bs : List UInt8) : '.' ∉ (encode bs).toList :=
  fun h => (encode_plain h).2 rfl

theorem decode_encode (bs : List UInt8) : decode (encode bs) = some bs := by
  have hkeep : (encode bs).toList.filter (!isBreak ·) = (encode bs).toList :=
    List.filter_eq_self.2 fun c hc => by simp [(encode_plain hc).1]
  rw [decode,hkeep,encode,String.toList_ofList,mapM_letter fun n => encodeSextets_lt]
  exact decodeSextets_encodeSextets bs

theorem encode_length (bs : List UInt8) : (encode bs).length = (4*bs.length+2)/3 := by
  have h : (encodeSextets bs).length = (4*bs.length+2)/3 := by
    induction bs using encodeSextets.induct with
    | case1 => rfl
    | case2 a => simp [encodeSextets,groupSextets]
    | case3 a b => simp [encodeSextets,groupSextets]
    | case4 a b c rest ih =>
      simp only [encodeSextets,groupSextets,List.length_append,List.length_cons,List.length_nil,ih]
      omega
  rw [encode,String.length_ofList,List.length_map,h]

theorem dot_not_mem_of_decode {s : String} {bs : List UInt8} (h : decode s = some bs) :
    '.' ∉ s.toList := by
  intro hdot
  obtain ⟨ns,hns,-⟩ := Option.bind_eq_some_iff.1 h
  have hall : ∀ {cs : List Char} {ns : List Nat},cs.mapM sextet = some ns → '.' ∉ cs := by
    intro cs
    induction cs with
    | nil => exact fun _ => List.not_mem_nil
    | cons c cs ih =>
      intro ns hm
      simp only [List.mapM_cons,Option.bind_eq_bind,Option.bind_eq_some_iff] at hm
      obtain ⟨n,hn,ms,hms,-⟩ := hm
      intro hmem
      obtain rfl | hmem := List.mem_cons.1 hmem
      · exact nomatch hn
      · exact ih hms hmem
  exact hall hns (List.mem_filter.2 ⟨hdot,by decide⟩)

end RawURL
