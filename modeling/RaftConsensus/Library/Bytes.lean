import Mathlib.Data.Nat.Digits.Defs
import Mathlib.Data.Nat.Digits.Lemmas
import Mathlib.Data.List.Infix
import Mathlib.Data.List.DropRight

/-!
# Byte strings: decimal numbers and lines

The text encodings a program that keeps numbers and records in byte strings relies on.

* `decimal` prints an integer, `parseDecimal` reads one back; `padded` is `decimal` filled with
  zeros on the left.  Both printers are injective (`decimal_injective`, `padded_injective`).
* `lines` splits a text at newlines and `pairLines` reads it as alternating key and value lines.
  `pairLines_dumpLines` says that this inverts writing them when the newline byte does not occur
  in what is written, and `newline_notMem_pairLines` that it never yields anything else.
-/

/-- A byte. -/
abbrev Byte := Fin 256

/-- A byte string. -/
abbrev Bytes := List Byte

namespace Bytes

instance neZero_256 : NeZero 256 := ⟨by decide⟩

/-- The bytes of an ASCII literal. -/
def ascii (s : String) : Bytes := s.toList.map fun c => Fin.ofNat 256 c.toNat

/-! ## Decimal numbers -/

/-- The digit byte of a number below ten. -/
def digit (d : ℕ) : Byte := Fin.ofNat 256 (48 + d)

/-- The decimal digits of a natural number, most significant first. -/
def natDecimal (n : ℕ) : Bytes :=
  if n = 0 then [48] else ((Nat.digits 10 n).map digit).reverse

/-- The decimal text of an integer, with a leading minus sign when negative. -/
def decimal : ℤ → Bytes
  | .ofNat n => natDecimal n
  | .negSucc n => 45 :: natDecimal (n + 1)

/-- `decimal`, filled with zeros on the left to at least `w` columns. -/
def padded (w : ℕ) (n : ℤ) : Bytes := (decimal n).leftpad w 48

/-- The number at the start of a text: white space, an optional sign, then the digits up to the
first other byte.  A text without digits reads as zero. -/
def parseDecimal (b : Bytes) : ℤ :=
  let b := b.dropWhile fun c => c = 32 ∨ 9 ≤ c ∧ c ≤ 13
  let value := fun ds : Bytes =>
    ((ds.takeWhile fun c => 48 ≤ c ∧ c ≤ 57).foldl (fun n c => 10 * n + (c.val - 48)) 0 : ℕ)
  match b with
  | 45 :: ds => - (value ds : ℤ)
  | 43 :: ds => value ds
  | ds => value ds

/-- The digits `parseDecimal` reads. -/
def leadingDigits (b : Bytes) : Bytes :=
  let b := b.dropWhile fun c => c = 32 ∨ 9 ≤ c ∧ c ≤ 13
  let unsigned := match b with
    | 45 :: ds => ds
    | 43 :: ds => ds
    | ds => ds
  unsigned.takeWhile fun c => 48 ≤ c ∧ c ≤ 57

/-- `parseDecimal` into 32 bits: there is no number without digits, and none out of range. -/
def parseInt32 (b : Bytes) : Option ℤ :=
  if leadingDigits b = [] then none
  else if -2 ^ 31 ≤ parseDecimal b ∧ parseDecimal b < 2 ^ 31 then some (parseDecimal b)
  else none

lemma digit_val {d : ℕ} (h : d < 10) : (digit d).val = 48 + d := by
  have h256 : 48 + d < 256 := by omega
  simp [digit, Fin.ofNat, Nat.mod_eq_of_lt h256]

lemma digit_inj {d e : ℕ} (hd : d < 10) (he : e < 10) (h : digit d = digit e) : d = e := by
  have := congrArg Fin.val h
  rw [digit_val hd, digit_val he] at this
  omega

lemma map_digit_inj {l r : List ℕ} (hl : ∀ d ∈ l, d < 10) (hr : ∀ d ∈ r, d < 10)
    (h : l.map digit = r.map digit) : l = r := by
  induction l generalizing r with
  | nil => simpa using h.symm
  | cons d l ih =>
      cases r with
      | nil => simp at h
      | cons e r =>
          rw [List.map_cons, List.map_cons, List.cons.injEq] at h
          have hde := digit_inj (hl d (by simp)) (hr e (by simp)) h.1
          rw [hde, ih (fun x hx => hl x (by simp [hx])) (fun x hx => hr x (by simp [hx])) h.2]

/-- The first digit of a positive number is not a zero. -/
lemma natDecimal_cons {n : ℕ} (hn : n ≠ 0) : ∃ c ds, natDecimal n = c :: ds ∧ 48 < c.val := by
  have hne : Nat.digits 10 n ≠ [] := Nat.digits_ne_nil_iff_ne_zero.mpr hn
  have hlast := Nat.getLast_digit_ne_zero 10 hn
  have hlt : (Nat.digits 10 n).getLast hne < 10 :=
    Nat.digits_lt_base (by norm_num) (List.getLast_mem hne)
  refine ⟨digit ((Nat.digits 10 n).getLast hne),
    ((Nat.digits 10 n).dropLast.map digit).reverse, ?_, ?_⟩
  · rw [natDecimal, if_neg hn]
    conv_lhs => rw [← List.dropLast_append_getLast hne]
    simp
  · rw [digit_val hlt]
    omega

lemma natDecimal_ge (n : ℕ) : ∀ c ∈ natDecimal n, 48 ≤ c.val := by
  intro c hc
  by_cases hn : n = 0
  · simp [natDecimal, hn] at hc
    simp [hc]
  · simp only [natDecimal, if_neg hn, List.mem_reverse, List.mem_map] at hc
    obtain ⟨d, hd, rfl⟩ := hc
    rw [digit_val (Nat.digits_lt_base (by norm_num) hd)]
    omega

lemma natDecimal_injective : Function.Injective natDecimal := by
  intro m n h
  by_cases hm : m = 0
  · by_cases hn : n = 0
    · rw [hm, hn]
    · obtain ⟨c, ds, hc, hlt⟩ := natDecimal_cons hn
      rw [hc, hm] at h
      simp only [natDecimal, if_true, List.cons.injEq] at h
      rw [← h.1] at hlt
      exact absurd hlt (by decide)
  · by_cases hn : n = 0
    · obtain ⟨c, ds, hc, hlt⟩ := natDecimal_cons hm
      rw [hc, hn] at h
      simp only [natDecimal, if_true, List.cons.injEq] at h
      rw [h.1] at hlt
      exact absurd hlt (by decide)
    · simp only [natDecimal, if_neg hm, if_neg hn] at h
      have hdig := map_digit_inj (fun d hd => Nat.digits_lt_base (by norm_num) hd)
        (fun d hd => Nat.digits_lt_base (by norm_num) hd) (List.reverse_injective h)
      exact Nat.digits_inj_iff.mp hdig

/-- Different integers print differently. -/
theorem decimal_injective : Function.Injective decimal := by
  have hsign : ∀ m n : ℕ, natDecimal m ≠ 45 :: natDecimal n := by
    intro m n h
    have := natDecimal_ge m 45 (by simp [h])
    exact absurd this (by decide)
  intro m n h
  cases m with
  | ofNat m =>
      cases n with
      | ofNat n => rw [natDecimal_injective h]
      | negSucc n => exact absurd h (hsign m (n + 1))
  | negSucc m =>
      cases n with
      | ofNat n => exact absurd h.symm (hsign n (m + 1))
      | negSucc n =>
          have hmn : m + 1 = n + 1 := natDecimal_injective (List.cons.inj h).2
          rw [Nat.succ_injective hmn]

lemma natDecimal_le (n : ℕ) : ∀ c ∈ natDecimal n, c.val ≤ 57 := by
  intro c hc
  by_cases hn : n = 0
  · simp [natDecimal, hn] at hc
    simp [hc]
  · simp only [natDecimal, if_neg hn, List.mem_reverse, List.mem_map] at hc
    obtain ⟨d, hd, rfl⟩ := hc
    have hlt : d < 10 := Nat.digits_lt_base (by norm_num) hd
    rw [digit_val hlt]
    omega

/-- Reading digits from the most significant one on. -/
lemma foldl_natDecimal (n : ℕ) :
    (natDecimal n).foldl (fun n c => 10 * n + (c.val - 48)) 0 = n := by
  by_cases hn : n = 0
  · subst hn
    rfl
  · have hfold : ∀ ds : List ℕ, (∀ d ∈ ds, d < 10) →
        (ds.map digit).foldr (fun c n => 10 * n + (c.val - 48)) 0 = Nat.ofDigits 10 ds := by
      intro ds
      induction ds with
      | nil => exact fun _ => rfl
      | cons d ds ih =>
          intro hlt
          rw [List.map_cons, List.foldr_cons, ih (fun e he => hlt e (by simp [he])),
            digit_val (hlt d (by simp)), Nat.ofDigits_cons]
          omega
    rw [natDecimal, if_neg hn, List.foldl_reverse,
      hfold _ fun d hd => Nat.digits_lt_base (by norm_num) hd, Nat.ofDigits_digits]

lemma takeWhile_natDecimal (n : ℕ) :
    (natDecimal n).takeWhile (fun c => 48 ≤ c ∧ c ≤ 57) = natDecimal n := by
  rw [List.takeWhile_eq_self_iff]
  intro c hc
  simpa using ⟨natDecimal_ge n c hc, natDecimal_le n c hc⟩

/-- A printed natural number starts with a digit. -/
lemma natDecimal_eq_cons (n : ℕ) : ∃ c ds, natDecimal n = c :: ds ∧ 48 ≤ c.val := by
  cases hn : natDecimal n with
  | nil =>
      by_cases h : n = 0
      · simp [natDecimal, h] at hn
      · obtain ⟨c, ds, hc, -⟩ := natDecimal_cons h
        rw [hn] at hc
        cases hc
  | cons c ds => exact ⟨c, ds, rfl, natDecimal_ge n c (by simp [hn])⟩

/-- A digit is neither white space nor a sign. -/
lemma digit_not_special {c : Byte} (hc : 48 ≤ c.val) :
    ¬ (c = 32 ∨ 9 ≤ c ∧ c ≤ 13) ∧ c ≠ 45 ∧ c ≠ 43 := by
  refine ⟨?_, ?_, ?_⟩
  · rintro (rfl | ⟨-, h⟩)
    · exact absurd hc (by decide)
    · have : c.val ≤ 13 := h
      omega
  · rintro rfl
    exact absurd hc (by decide)
  · rintro rfl
    exact absurd hc (by decide)

/-- Printed natural numbers are read back. -/
lemma parseDecimal_natDecimal (n : ℕ) : parseDecimal (natDecimal n) = n := by
  have hfold := foldl_natDecimal n
  have htake := takeWhile_natDecimal n
  obtain ⟨c, ds, hd, hc⟩ := natDecimal_eq_cons n
  obtain ⟨hspace, h45, h43⟩ := digit_not_special hc
  rw [hd] at htake hfold ⊢
  simp only [parseDecimal, List.dropWhile_cons, hspace, decide_false, Bool.false_eq_true, if_false]
  split
  · rename_i heq
    exact absurd (List.cons.inj heq).1 h45
  · rename_i heq
    exact absurd (List.cons.inj heq).1 h43
  · rw [htake, hfold]

/-- **Printed integers are read back.** -/
theorem parseDecimal_decimal (n : ℤ) : parseDecimal (decimal n) = n := by
  cases n with
  | ofNat n => exact parseDecimal_natDecimal n
  | negSucc n =>
      have hdrop : (decimal (.negSucc n)).dropWhile (fun c => c = 32 ∨ 9 ≤ c ∧ c ≤ 13) =
          45 :: natDecimal (n + 1) := rfl
      simp only [parseDecimal, hdrop, takeWhile_natDecimal, foldl_natDecimal]
      omega

lemma leadingDigits_natDecimal (n : ℕ) : leadingDigits (natDecimal n) = natDecimal n := by
  have htake := takeWhile_natDecimal n
  obtain ⟨c, ds, hd, hc⟩ := natDecimal_eq_cons n
  obtain ⟨hspace, h45, h43⟩ := digit_not_special hc
  rw [hd] at htake ⊢
  simp only [leadingDigits, List.dropWhile_cons, hspace, decide_false, Bool.false_eq_true, if_false]
  split
  · rename_i heq
    exact absurd (List.cons.inj heq).1 h45
  · rename_i heq
    exact absurd (List.cons.inj heq).1 h43
  · exact htake

/-- A printed integer has digits. -/
lemma leadingDigits_decimal (n : ℤ) : leadingDigits (decimal n) ≠ [] := by
  have hne : ∀ m, natDecimal m ≠ [] := by
    intro m hm
    obtain ⟨c, ds, hd, -⟩ := natDecimal_eq_cons m
    rw [hm] at hd
    cases hd
  cases n with
  | ofNat n =>
      rw [decimal, leadingDigits_natDecimal]
      exact hne n
  | negSucc n =>
      have hdigits : leadingDigits (decimal (.negSucc n)) =
          (natDecimal (n + 1)).takeWhile (fun c => 48 ≤ c ∧ c ≤ 57) := rfl
      rw [hdigits, takeWhile_natDecimal]
      exact hne (n + 1)

/-- A number that is read is the one `parseDecimal` finds. -/
lemma eq_of_parseInt32 {b : Bytes} {n : ℤ} (h : parseInt32 b = some n) : n = parseDecimal b := by
  rw [parseInt32] at h
  split_ifs at h
  exact (Option.some.inj h).symm

/-- **Printed 32-bit integers are read back.** -/
theorem parseInt32_decimal {n : ℤ} (h : -2 ^ 31 ≤ n ∧ n < 2 ^ 31) :
    parseInt32 (decimal n) = some n := by
  rw [parseInt32, if_neg (leadingDigits_decimal n), parseDecimal_decimal, if_pos h]

example : parseInt32 (ascii " -12x") = some (-12) ∧ parseInt32 (ascii "abc") = none ∧
    parseInt32 (ascii "2147483648") = none := by decide

/-- The zeros on the left of a padded number can be removed again. -/
lemma dropWhile_padded (w : ℕ) (n : ℤ) :
    (padded w n).dropWhile (· = 48) = if n = 0 then [] else decimal n := by
  have hrep : (padded w n).dropWhile (· = 48) = (decimal n).dropWhile (· = 48) := by
    rw [padded, List.leftpad]
    generalize w - (decimal n).length = k
    induction k with
    | zero => rfl
    | succ k ih => simp [List.replicate_succ, ih]
  rw [hrep]
  match n with
  | .ofNat 0 => simp [decimal, natDecimal]
  | .ofNat (m + 1) =>
      obtain ⟨c, ds, hc, hlt⟩ := natDecimal_cons (Nat.succ_ne_zero m)
      have hne : c ≠ 48 := by
        rintro rfl
        exact absurd hlt (by decide)
      have hz : (Int.ofNat (m + 1)) ≠ 0 := by
        rw [Int.ofNat_eq_natCast]
        omega
      rw [if_neg hz]
      simp [decimal, hc, hne]
  | .negSucc m => simp [decimal]

/-- Padding loses nothing: different integers have different padded texts. -/
theorem padded_injective (w : ℕ) : Function.Injective (padded w) := by
  have hne : ∀ n : ℤ, decimal n ≠ [] := by
    intro n h
    match n with
    | .ofNat 0 => simp [decimal, natDecimal] at h
    | .ofNat (m + 1) =>
        obtain ⟨c, ds, hc, -⟩ := natDecimal_cons (Nat.succ_ne_zero m)
        simp [decimal, hc] at h
    | .negSucc m => simp [decimal] at h
  intro m n h
  have hdrop := congrArg (List.dropWhile (· = 48)) h
  rw [dropWhile_padded, dropWhile_padded] at hdrop
  by_cases hm : m = 0 <;> by_cases hn : n = 0
  · rw [hm, hn]
  · rw [if_pos hm, if_neg hn] at hdrop
    exact absurd hdrop.symm (hne n)
  · rw [if_neg hm, if_pos hn] at hdrop
    exact absurd hdrop (hne m)
  · rw [if_neg hm, if_neg hn] at hdrop
    exact decimal_injective hdrop

/-! ## Lines -/

/-- The newline byte. -/
def newline : Byte := 10

/-- The lines of a text, as successive reads up to the next newline return them: the newline is
consumed and not part of the line, and a last line without one still counts. -/
def lines : Bytes → List Bytes
  | [] => []
  | c :: b =>
      if c = newline then [] :: lines b
      else
        match lines b with
        | [] => [[c]]
        | l :: ls => (c :: l) :: ls

/-- Pairs up consecutive lines; an unpaired last line is dropped. -/
def pairUp : List Bytes → List (Bytes × Bytes)
  | key :: value :: ls => (key, value) :: pairUp ls
  | _ => []

/-- A text read as alternating key and value lines. -/
def pairLines (b : Bytes) : List (Bytes × Bytes) := pairUp (lines b)

/-- Writes pairs as alternating key and value lines. -/
def dumpLines (ps : List (Bytes × Bytes)) : Bytes :=
  ps.flatMap fun p => p.1 ++ newline :: (p.2 ++ [newline])

/-- A newline-free line in front of a text is its first line. -/
lemma lines_append {l rest : Bytes} (h : newline ∉ l) :
    lines (l ++ newline :: rest) = l :: lines rest := by
  induction l with
  | nil => simp [lines]
  | cons c l ih =>
      rw [List.mem_cons, not_or] at h
      rw [List.cons_append, lines, if_neg (Ne.symm h.1), ih h.2]

/-- **Reading inverts writing** when no key and no value contains a newline. -/
theorem pairLines_dumpLines {ps : List (Bytes × Bytes)}
    (h : ∀ p ∈ ps, newline ∉ p.1 ∧ newline ∉ p.2) : pairLines (dumpLines ps) = ps := by
  induction ps with
  | nil => rfl
  | cons p ps ih =>
      obtain ⟨hk, hv⟩ := h p (by simp)
      have hdump : dumpLines (p :: ps)
          = p.1 ++ newline :: (p.2 ++ newline :: dumpLines ps) := by
        simp [dumpLines]
      have hih : pairUp (lines (dumpLines ps)) = ps := ih fun q hq => h q (by simp [hq])
      rw [pairLines, hdump, lines_append hk, lines_append hv, pairUp, hih]

/-- Lines contain no newline, whatever text they were read from. -/
lemma newline_notMem_lines (b : Bytes) : ∀ l ∈ lines b, newline ∉ l := by
  induction b with
  | nil => simp [lines]
  | cons c b ih =>
      intro l hl
      rw [lines] at hl
      split at hl
      · rcases List.mem_cons.mp hl with rfl | hl
        · simp
        · exact ih l hl
      · rename_i hc
        cases hb : lines b with
        | nil =>
            rw [hb] at hl
            rw [List.mem_singleton.mp hl]
            simpa using Ne.symm hc
        | cons l' ls =>
            rw [hb] at hl ih
            rcases List.mem_cons.mp hl with rfl | hl
            · simp only [List.mem_cons, not_or]
              exact ⟨Ne.symm hc, ih l' (by simp)⟩
            · exact ih l (by simp [hl])

lemma mem_of_mem_pairUp {ls : List Bytes} {p : Bytes × Bytes} (h : p ∈ pairUp ls) :
    p.1 ∈ ls ∧ p.2 ∈ ls := by
  induction ls using pairUp.induct with
  | case1 key value ls ih =>
      rcases List.mem_cons.mp h with rfl | h
      · simp
      · obtain ⟨h₁, h₂⟩ := ih h
        exact ⟨by simp [h₁], by simp [h₂]⟩
  | case2 ls hls =>
      rw [pairUp.eq_def] at h
      split at h
      · exact absurd rfl (hls _ _ _)
      · simp at h

/-- Nothing read as a key or a value contains a newline. -/
lemma newline_notMem_pairLines {b : Bytes} {p : Bytes × Bytes} (h : p ∈ pairLines b) :
    newline ∉ p.1 ∧ newline ∉ p.2 :=
  ⟨newline_notMem_lines b _ (mem_of_mem_pairUp h).1,
    newline_notMem_lines b _ (mem_of_mem_pairUp h).2⟩

end Bytes
