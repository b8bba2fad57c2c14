import Mathlib.Algebra.GroupWithZero.Nat
import Mathlib.Data.List.TakeWhile
set_option autoImplicit false

/-!
The lines of a text as a scanner with a bounded buffer returns them
(`bufio.Scanner` with `ScanLines`), and texts written line by line.
-/

namespace LineScan

/-- The text cut at its line feeds. What follows the last of them is a line too,
unless it is empty. -/
def rawLines : List Char → List (List Char)
  | [] => []
  | c :: cs =>
    if c = '\n' then [] :: rawLines cs
    else
      match rawLines cs with
      | [] => [[c]]
      | l :: ls => (c :: l) :: ls

def dropCR (l : List Char) : List Char := if l.getLast? = some '\r' then l.dropLast else l

def byteSize (l : List Char) : Nat := (l.map Char.utf8Size).sum

/-- A scanner: the tokens it has left, and what `Err` reports after them. -/
structure Scanner where
  tokens : List String
  err : Option String
  deriving DecidableEq, Repr

/-- The scanner over a text whose reader then ends, or fails with readErr. A line
of max bytes does not fit the buffer, and scanning stops before it. -/
def scanner (max : Nat) (text : List Char) (readErr : Option String) : Scanner :=
  let short := fun l => decide (byteSize l < max)
  ⟨((rawLines text).takeWhile short).map fun l => String.ofList (dropCR l),
    if (rawLines text).all short then readErr else some "bufio.Scanner: token too long"⟩

/-- Lines written with LF or CRLF endings; the last needs none. -/
inductive Prints : List (List Char) → List Char → Prop
  | nil : Prints [] []
  | last {l : List Char} : l ≠ [] → Prints [l] l
  | lf {l : List Char} {ls : List (List Char)} {t : List Char} :
      Prints ls t → Prints (l :: ls) (l ++ '\n' :: t)
  | crlf {l : List Char} {ls : List (List Char)} {t : List Char} :
      Prints ls t → Prints (l :: ls) (l ++ '\r' :: '\n' :: t)

def Unbroken (l : List Char) : Prop := '\n' ∉ l ∧ '\r' ∉ l

instance (l : List Char) : Decidable (Unbroken l) := inferInstanceAs (Decidable (_ ∧ _))

variable {l : List Char}

theorem Unbroken.append {m : List Char} (hl : Unbroken l) (hm : Unbroken m) :
    Unbroken (l ++ m) := by
  simp only [Unbroken,List.mem_append,not_or]
  exact ⟨⟨hl.1,hm.1⟩,hl.2,hm.2⟩

theorem unbroken_of_mem_splitOn {t : List Char} (ht : '\r' ∉ t) (hl : l ∈ t.splitOn '\n') :
    Unbroken l := by
  induction t generalizing l with
  | nil =>
    rw [List.splitOn_nil,List.mem_singleton] at hl
    simp [hl,Unbroken]
  | cons c t ih =>
    simp only [List.mem_cons,not_or] at ht
    rw [List.splitOn_cons_eq_if_modifyHead] at hl
    split at hl
    · obtain rfl | hl := List.mem_cons.1 hl
      · simp [Unbroken]
      · exact ih ht.2 hl
    · rename_i hc
      obtain ⟨m,ms,hm⟩ := List.exists_cons_of_ne_nil (List.splitOn_ne_nil '\n' t)
      rw [hm] at hl ih
      obtain rfl | hl := List.mem_cons.1 hl
      · have hrest := ih ht.2 List.mem_cons_self
        have hne : '\n' ≠ c := fun he => hc (beq_iff_eq.2 he.symm)
        simp only [Unbroken,List.mem_cons,not_or]
        exact ⟨⟨hne,hrest.1⟩,ht.1,hrest.2⟩
      · exact ih ht.2 (List.mem_cons_of_mem _ hl)

theorem rawLines_append (h : '\n' ∉ l) (t : List Char) :
    rawLines (l ++ '\n' :: t) = l :: rawLines t := by
  induction l with
  | nil => simp [rawLines]
  | cons c l ih =>
    simp only [List.mem_cons,not_or] at h
    rw [List.cons_append,rawLines,if_neg (Ne.symm h.1),ih h.2]

theorem rawLines_of_unended (hne : l ≠ []) (h : '\n' ∉ l) : rawLines l = [l] := by
  induction l with
  | nil => exact absurd rfl hne
  | cons c l ih =>
    simp only [List.mem_cons,not_or] at h
    rw [rawLines,if_neg (Ne.symm h.1)]
    cases l with
    | nil => rfl
    | cons d l => rw [ih (by simp) h.2]

theorem dropCR_of_notMem (h : '\r' ∉ l) : dropCR l = l := by
  rw [dropCR,if_neg]
  intro hlast
  exact h (List.mem_of_getLast? hlast)

theorem dropCR_append (l : List Char) : dropCR (l ++ ['\r']) = l := by simp [dropCR]

theorem rawLines_prints {ls : List (List Char)} {t : List Char} (h : Prints ls t)
    (hls : ∀ l ∈ ls,Unbroken l) : (rawLines t).map dropCR = ls := by
  induction h with
  | nil => rfl
  | @last l hne =>
    have hl := hls l List.mem_cons_self
    rw [rawLines_of_unended hne hl.1,List.map_singleton,dropCR_of_notMem hl.2]
  | @lf l ls t _ ih =>
    have hl := hls l List.mem_cons_self
    rw [rawLines_append hl.1,List.map_cons,dropCR_of_notMem hl.2,
      ih fun m hm => hls m (List.mem_cons_of_mem _ hm)]
  | @crlf l ls t _ ih =>
    have hl := hls l List.mem_cons_self
    have hcr : '\n' ∉ l ++ ['\r'] := by simp [hl.1]
    have hraw := rawLines_append hcr t
    rw [List.append_assoc] at hraw
    rw [List.singleton_append] at hraw
    rw [hraw,List.map_cons,dropCR_append,ih fun m hm => hls m (List.mem_cons_of_mem _ hm)]

theorem scanner_prints {max : Nat} {ls : List (List Char)} {t : List Char} (h : Prints ls t)
    (hls : ∀ l ∈ ls,Unbroken l) (hfit : ∀ l ∈ rawLines t,byteSize l < max)
    (readErr : Option String) : scanner max t readErr = ⟨ls.map String.ofList,readErr⟩ := by
  have hshort : ∀ l ∈ rawLines t,decide (byteSize l < max) = true := by
    intro l hl
    exact decide_eq_true (hfit l hl)
  have htake := List.takeWhile_eq_self_iff.2 hshort
  rw [scanner,htake,if_pos (List.all_eq_true.2 hshort),← rawLines_prints h hls,List.map_map]
  rfl

end LineScan
