import Mathlib.Algebra.Group.Nat.Defs
import Workflow.Store.Files

/-! The names of files. A name begins with the number of the files before it, with eight digits while there are that
    few, so names sort in the order of writing whatever ids they end with (`fileName_lt`). Beyond that they are still
    told apart (`eq_of_fileName_eq`) and ordered (`fileName_lt_iff`) by their numbers alone. -/

namespace Workflow.Store.Files

variable {k m n : Nat} {as bs cs ds : List Char}

/-! ### Digits -/

/-- The last `k` decimal digits of a number. -/
def lastDigits : Nat → Nat → List Char
  | 0, _ => []
  | k + 1, n => lastDigits k (n / 10) ++ [(n % 10).digitChar]

theorem length_lastDigits (k n : Nat) : (lastDigits k n).length = k := by
  induction k generalizing n with
  | zero => rfl
  | succ k ih => rw [lastDigits, List.length_append, ih, List.length_singleton]

theorem lastDigits_zero (k : Nat) : lastDigits k 0 = List.replicate k '0' := by
  induction k with
  | zero => rfl
  | succ k ih =>
    rw [lastDigits, Nat.zero_div, ih, List.replicate_succ']
    rfl

theorem lastDigits_of_lt (h : n < 10) : lastDigits (k + 1) n = List.replicate k '0' ++ [n.digitChar] := by
  rw [lastDigits, Nat.div_eq_of_lt h, lastDigits_zero, Nat.mod_eq_of_lt h]

/-- A number of at most `k` digits, with zeros before them. -/
theorem lastDigits_eq_toDigits (h : n < 10 ^ (k + 1)) : (Nat.toDigits 10 n).length ≤ k + 1 ∧
    lastDigits (k + 1) n = List.replicate (k + 1 - (Nat.toDigits 10 n).length) '0' ++ Nat.toDigits 10 n := by
  induction k generalizing n with
  | zero =>
    have small : n < 10 := by simpa using h
    rw [Nat.toDigits_of_lt_base small, lastDigits_of_lt small]
    exact ⟨Nat.le_refl 1, rfl⟩
  | succ k ih =>
    by_cases small : n < 10
    · rw [Nat.toDigits_of_lt_base small, lastDigits_of_lt small]
      refine ⟨?_, rfl⟩
      rw [List.length_singleton]
      omega
    · obtain ⟨hlen, hdigits⟩ := ih (n := n / 10) (by rw [Nat.pow_succ] at h; omega)
      rw [Nat.toDigits_of_base_le (by decide) (Nat.not_lt.mp small), lastDigits, hdigits, List.length_append,
        List.length_singleton, Nat.add_sub_add_right, List.append_assoc]
      exact ⟨by omega, rfl⟩

/-! ### Order -/

theorem append_lt_append (h : as < bs) (hlen : as.length = bs.length) : as ++ cs < bs ++ ds := by
  induction as generalizing bs with
  | nil =>
    cases bs with
    | nil => exact absurd h (List.lt_irrefl [])
    | cons => cases hlen
  | cons a as ih =>
    cases bs with
    | nil => cases hlen
    | cons b bs =>
      rw [List.cons_append, List.cons_append, List.cons_lt_cons_iff]
      rcases List.cons_lt_cons_iff.mp h with hlt | ⟨rfl, hlt⟩
      · exact .inl hlt
      · exact .inr ⟨rfl, ih hlt (Nat.succ.inj hlen)⟩

theorem digitChar_lt (h : m < n) (hn : n < 10) : m.digitChar < n.digitChar := by
  have table : ∀ n < 10, ∀ m < n, m.digitChar < n.digitChar := by decide
  exact table n hn m h

theorem lastDigits_lt (h : m < n) (hn : n < 10 ^ k) : lastDigits k m < lastDigits k n := by
  induction k generalizing m n with
  | zero => omega
  | succ k ih =>
    -- The digits before the last one decide, or are the same.
    rcases Nat.lt_or_ge (m / 10) (n / 10) with hlt | hge
    · refine append_lt_append (ih hlt (by rw [Nat.pow_succ] at hn; omega)) ?_
      rw [length_lastDigits, length_lastDigits]
    · have same : m / 10 = n / 10 := by omega
      rw [lastDigits, lastDigits, same]
      refine List.append_left_lt ?_
      exact List.cons_lt_cons_iff.mpr (.inl (digitChar_lt (by omega) (Nat.mod_lt n (by decide))))

theorem toList_eightDigits (n : Nat) : (eightDigits n).toList =
    List.replicate (8 - (Nat.toDigits 10 n).length) '0' ++ Nat.toDigits 10 n := by
  rw [eightDigits, Nat.toString_eq_repr, String.toList_append, Number.zeros, String.toList_ofList, Nat.toList_repr,
    ← String.length_toList, Nat.toList_repr]

theorem toList_eightDigits_of_lt (h : n < 10 ^ 8) : (eightDigits n).toList = lastDigits 8 n := by
  rw [(lastDigits_eq_toDigits h).2, toList_eightDigits]

/-- The file of a later number has a later name. -/
theorem fileName_lt (h : m < n) (hn : n < 10 ^ 8) (i j : String) : fileName m i < fileName n j := by
  show (fileName m i).toList < (fileName n j).toList
  simp only [fileName, String.toList_append, List.append_assoc, toList_eightDigits_of_lt (Nat.lt_trans h hn),
    toList_eightDigits_of_lt hn]
  exact append_lt_append (lastDigits_lt h hn) ((length_lastDigits 8 m).trans (length_lastDigits 8 n).symm)

theorem takeWhile_eightDigits (n : Nat) (cs : List Char) :
    ((eightDigits n).toList ++ '_' :: cs).takeWhile (· != '_') = (eightDigits n).toList := by
  have none : ∀ c ∈ (eightDigits n).toList, (c != '_') = true := by
    intro c hc
    rw [bne_iff_ne]
    rintro rfl
    rw [toList_eightDigits, List.mem_append, List.mem_replicate] at hc
    exact hc.elim (fun zero => absurd zero.2 (by decide)) Nat.underscore_not_in_toDigits
  rw [List.takeWhile_append_of_pos none]
  exact List.append_nil _

/-- Numbers with the same digits up to the underscore are the same. -/
theorem eq_of_eightDigits (h : (eightDigits m).toList ++ '_' :: cs = (eightDigits n).toList ++ '_' :: ds) : m = n := by
  have number : ∀ n, Nat.ofDigitChars 10 (eightDigits n).toList 0 = n := by
    intro n
    rw [toList_eightDigits, Nat.ofDigitChars_append, Nat.ofDigitChars_replicate_zero, Nat.mul_zero,
      Nat.ofDigitChars_ten_toDigits]
  calc
    m = Nat.ofDigitChars 10 (eightDigits m).toList 0 := (number m).symm
    _ = Nat.ofDigitChars 10 (eightDigits n).toList 0 := by
      rw [← takeWhile_eightDigits m cs, h, takeWhile_eightDigits]
    _ = n := number n

theorem toList_fileName (n : Nat) (id : String) :
    (fileName n id).toList = (eightDigits n).toList ++ '_' :: (id.toList ++ ".json".toList) := by
  rw [fileName, String.toList_append, String.toList_append, String.toList_append, List.append_assoc, List.append_assoc]
  rfl

/-- However many there are, files of different numbers have different names. -/
theorem eq_of_fileName_eq {i j : String} (h : fileName m i = fileName n j) : m = n := by
  have same := congrArg String.toList h
  rw [toList_fileName, toList_fileName] at same
  exact eq_of_eightDigits same

theorem append_lt_append_iff (ha : ¬ as <+: bs) (hb : ¬ bs <+: as) : as ++ cs < bs ++ ds ↔ as < bs := by
  induction as generalizing bs with
  | nil => exact absurd List.nil_prefix ha
  | cons a as ih =>
    cases bs with
    | nil => exact absurd List.nil_prefix hb
    | cons b bs =>
      rw [List.cons_append, List.cons_append, List.cons_lt_cons_iff, List.cons_lt_cons_iff]
      refine or_congr_right (and_congr_right ?_)
      rintro rfl
      exact ih (fun h => ha (List.cons_prefix_cons.mpr ⟨rfl, h⟩)) fun h => hb (List.cons_prefix_cons.mpr ⟨rfl, h⟩)

/-- However many there are, the names of files of different numbers are ordered by these numbers alone. -/
theorem fileName_lt_iff (h : m ≠ n) (i i' j j' : String) :
    fileName m i < fileName n j ↔ fileName m i' < fileName n j' := by
  have apart : ∀ {m n}, m ≠ n → ¬ (eightDigits m).toList ++ ['_'] <+: (eightDigits n).toList ++ ['_'] := by
    rintro m n differs ⟨cs, same⟩
    rw [List.append_assoc] at same
    exact differs (eq_of_eightDigits same)
  have named : ∀ n id, (fileName n id).toList = ((eightDigits n).toList ++ ['_']) ++ (id.toList ++ ".json".toList) := by
    intro n id
    rw [toList_fileName, List.append_assoc]
    rfl
  show (fileName m i).toList < (fileName n j).toList ↔ (fileName m i').toList < (fileName n j').toList
  simp only [named]
  rw [append_lt_append_iff (apart h) (apart h.symm), append_lt_append_iff (apart h) (apart h.symm)]

end Workflow.Store.Files
