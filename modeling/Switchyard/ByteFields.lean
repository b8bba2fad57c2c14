import Mathlib.Algebra.Group.Nat.Defs
set_option autoImplicit false

/-!
Length-prefixed fields. A field is framed by an eight-byte big-endian length, a
name, a zero byte and a value. A sequence of framed fields can be read back in
one way only.
-/

namespace ByteFields

/-- The n low-order bytes of x, most significant first. -/
def bigEndian : Nat → Nat → List UInt8
  | 0,_ => []
  | n+1,x => bigEndian n (x/256) ++ [UInt8.ofNat x]

@[simp] theorem bigEndian_length (n x : Nat) : (bigEndian n x).length = n := by
  induction n generalizing x with
  | zero => rfl
  | succ n ih => simp [bigEndian,ih]

theorem bigEndian_inj {n x y : Nat} (hx : x < 256^n) (hy : y < 256^n)
    (h : bigEndian n x = bigEndian n y) : x = y := by
  induction n generalizing x y with
  | zero => simp at hx hy; omega
  | succ n ih =>
    simp only [bigEndian] at h
    have hsplit := List.append_inj h (by simp)
    have hhigh := ih (Nat.div_lt_of_lt_mul (by rw [Nat.pow_succ] at hx; omega))
      (Nat.div_lt_of_lt_mul (by rw [Nat.pow_succ] at hy; omega)) hsplit.1
    have hlow : x%2^8 = y%2^8 := by
      have hb := congrArg UInt8.toNat (List.cons.inj hsplit.2).1
      simpa only [UInt8.toNat_ofNat'] using hb
    omega

def bigEndianValue (bs : List UInt8) : Nat := bs.foldl (fun a b => 256*a+b.toNat) 0

theorem bigEndianValue_bigEndian {n x : Nat} (h : x < 256^n) :
    bigEndianValue (bigEndian n x) = x := by
  induction n generalizing x with
  | zero => simp at h; simp [bigEndianValue,bigEndian,h]
  | succ n ih =>
    have hhigh := ih (Nat.div_lt_of_lt_mul (by rw [Nat.pow_succ] at h; omega) : x/256 < 256^n)
    simp only [bigEndianValue] at hhigh ⊢
    simp only [bigEndian,List.foldl_append,hhigh,List.foldl_cons,List.foldl_nil,
      UInt8.toNat_ofNat']
    omega

structure Field where
  name : List UInt8
  value : List UInt8
  deriving DecidableEq, Repr

def Field.frame (f : Field) : List UInt8 :=
  bigEndian 8 (f.name.length+f.value.length+1) ++ (f.name ++ 0 :: f.value)

/-- The name holds no zero byte and the length fits its eight bytes. -/
structure Field.Framed (f : Field) : Prop where
  name : 0 ∉ f.name
  size : f.name.length+f.value.length+1 < 256^8

theorem split_at_zero {a b v w : List UInt8} (ha : 0 ∉ a) (hb : 0 ∉ b)
    (h : a ++ 0 :: v = b ++ 0 :: w) : a = b ∧ v = w := by
  induction a generalizing b with
  | nil =>
    cases b with
    | nil => simpa using h
    | cons y b => simp at h hb; exact absurd h.1 hb.1
  | cons x a ih =>
    cases b with
    | nil => simp at h ha; exact absurd h.1.symm ha.1
    | cons y b =>
      simp only [List.cons_append,List.cons.injEq] at h
      simp only [List.mem_cons,not_or] at ha hb
      have hrest := ih ha.2 hb.2 h.2
      simp [h.1,hrest.1,hrest.2]

theorem Field.frame_append_inj {f g : Field} {r s : List UInt8} (hf : f.Framed) (hg : g.Framed)
    (h : f.frame ++ r = g.frame ++ s) : f = g ∧ r = s := by
  simp only [Field.frame,List.append_assoc] at h
  have hlen := List.append_inj h (by simp)
  have hsize := bigEndian_inj hf.size hg.size hlen.1
  have hbody : (f.name ++ 0 :: f.value) ++ r = (g.name ++ 0 :: g.value) ++ s := by
    simpa using hlen.2
  have hsame := List.append_inj hbody (by simp; omega)
  have hsplit := split_at_zero hf.name hg.name hsame.1
  refine ⟨?_,hsame.2⟩
  cases f; cases g
  simp only [Field.mk.injEq]
  exact hsplit

def encode (fs : List Field) : List UInt8 := fs.flatMap Field.frame

theorem Field.frame_ne_nil (f : Field) : f.frame ≠ [] := by
  simp [Field.frame]

theorem encode_inj {fs gs : List Field} (hf : ∀ f ∈ fs,f.Framed) (hg : ∀ g ∈ gs,g.Framed)
    (h : encode fs = encode gs) : fs = gs := by
  induction fs generalizing gs with
  | nil =>
    cases gs with
    | nil => rfl
    | cons g gs => simp [encode,Field.frame_ne_nil] at h
  | cons f fs ih =>
    cases gs with
    | nil => simp [encode,Field.frame_ne_nil] at h
    | cons g gs =>
      simp only [encode,List.flatMap_cons] at h
      have hstep := Field.frame_append_inj (hf f (by simp)) (hg g (by simp)) h
      have hrest := ih (fun x hx => hf x (by simp [hx])) (fun x hx => hg x (by simp [hx])) hstep.2
      rw [hstep.1,hrest]

end ByteFields
