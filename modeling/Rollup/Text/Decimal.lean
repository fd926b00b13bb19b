/-!
Decimal text of natural numbers. Writing uses no leading zero; reading accepts any digits.
The main statements are that reading undoes writing, so a written number names one value, and that
writing undoes reading but for zeros that lead.
-/
namespace Rollup.Decimal

def digitChar (d : Nat) : Char := Char.ofNat ('0'.toNat + d)

def digitValue (c : Char) : Nat := c.toNat - '0'.toNat

def digits (n : Nat) : List Char :=
  if n < 10 then [digitChar n] else digits (n / 10) ++ [digitChar (n % 10)]
termination_by n
decreasing_by omega

def value (ds : List Char) : Nat := ds.foldl (fun v c => 10 * v + digitValue c) 0

def text (n : Nat) : String := String.ofList (digits n)

def withoutZeros : List Char → List Char
  | '0' :: d :: rest => withoutZeros (d :: rest)
  | ds => ds

def nat? (ds : List Char) : Option Nat :=
  if ds ≠ [] ∧ ds.all Char.isDigit then some (value ds) else none

def word? (ds : List Char) : Option UInt64 :=
  match nat? ds with
  | some n => if n < UInt64.size then some (UInt64.ofNat n) else none
  | none => none

theorem digit_value_char {d : Nat} (h : d < 10) : digitValue (digitChar d) = d := by
  revert d
  decide

theorem digit_char_is_digit {d : Nat} (h : d < 10) : (digitChar d).isDigit = true := by
  revert d
  decide

theorem value_append (ds : List Char) (c : Char) :
    value (ds ++ [c]) = 10 * value ds + digitValue c := by
  simp [value]

theorem value_digits (n : Nat) : value (digits n) = n := by
  induction n using Nat.strongRecOn with
  | ind n ih =>
    rw [digits]
    split
    · rename_i small
      simp [value, digit_value_char small]
    · rename_i large
      rw [value_append, ih (n / 10) (by omega), digit_value_char (Nat.mod_lt n (by omega))]
      omega

theorem digits_nonempty (n : Nat) : digits n ≠ [] := by
  rw [digits]
  split <;> simp

theorem digits_all_digits (n : Nat) : ∀ c ∈ digits n, c.isDigit = true := by
  induction n using Nat.strongRecOn with
  | ind n ih =>
    rw [digits]
    split
    · rename_i small
      simp [digit_char_is_digit small]
    · rename_i large
      intro c mem
      rcases List.mem_append.mp mem with front | last
      · exact ih (n / 10) (by omega) c front
      · rw [List.mem_singleton.mp last]
        exact digit_char_is_digit (Nat.mod_lt n (by omega))

theorem nat_digits (n : Nat) : nat? (digits n) = some n := by
  simp only [nat?, value_digits, ite_eq_left_iff, not_and]
  intro h
  exact absurd (List.all_eq_true.mpr (digits_all_digits n)) (h (digits_nonempty n))

theorem word_digits (w : UInt64) : word? (digits w.toNat) = some w := by
  simp [word?, nat_digits, w.toNat_lt_size]

theorem digit_char_value {c : Char} (digit : c.isDigit = true) :
    digitChar (digitValue c) = c ∧ digitValue c < 10 := by
  have range : '0'.toNat ≤ c.toNat ∧ c.toNat ≤ '9'.toNat := by
    simpa [Char.isDigit, UInt32.le_iff_toNat_le] using digit
  have ends : '0'.toNat = 48 ∧ '9'.toNat = 57 := by decide
  have back : '0'.toNat + (c.toNat - '0'.toNat) = c.toNat := by omega
  simp only [digitChar, digitValue, back, Char.ofNat_toNat]
  exact ⟨trivial, by omega⟩

theorem digit_value_pos {c : Char} (digit : c.isDigit = true) (other : c ≠ '0') :
    0 < digitValue c := by
  refine Nat.pos_of_ne_zero fun zero => other ?_
  rw [← (digit_char_value digit).1, zero]
  rfl

theorem digits_read_on {v : Nat} (positive : 0 < v) {ds : List Char}
    (all : ∀ c ∈ ds, c.isDigit = true) :
    digits (ds.foldl (fun v c => 10 * v + digitValue c) v) = digits v ++ ds := by
  induction ds generalizing v with
  | nil => simp
  | cons c rest ih =>
    obtain ⟨same, small⟩ := digit_char_value (all c (by simp))
    have next : digits (10 * v + digitValue c) = digits v ++ [c] := by
      rw [digits, if_neg (by omega), show (10 * v + digitValue c) / 10 = v by omega,
        show (10 * v + digitValue c) % 10 = digitValue c by omega, same]
    rw [List.foldl_cons, ih (by omega) fun d member => all d (by simp [member]), next,
      List.append_assoc, List.singleton_append]

/-- Writing undoes reading, but for zeros that lead. -/
theorem digits_value {ds : List Char} (nonempty : ds ≠ []) (all : ∀ c ∈ ds, c.isDigit = true) :
    digits (value ds) = withoutZeros ds := by
  fun_induction withoutZeros ds with
  | case1 d rest ih =>
    have same : value ('0' :: d :: rest) = value (d :: rest) := by simp [value, digitValue]
    rw [same, ih (by simp) fun c member => all c (by simp [member])]
  | case2 ds plain =>
    match ds, plain with
    | [], _ => exact absurd rfl nonempty
    | c :: rest, plain =>
      obtain ⟨same, small⟩ := digit_char_value (all c (by simp))
      have one : digits (digitValue c) = [c] := by rw [digits, if_pos small, same]
      cases rest with
      | nil => simpa [value] using one
      | cons d rest =>
        have other : c ≠ '0' := fun zero => plain d rest (zero ▸ rfl)
        have later : ∀ e ∈ d :: rest, e.isDigit = true := fun e member =>
          all e (List.mem_cons_of_mem c member)
        have read := digits_read_on (digit_value_pos (all c (by simp)) other) later
        rw [one] at read
        simpa [value] using read

theorem without_zeros_plain {ds rest : List Char} (zero : withoutZeros ds = '0' :: rest) :
    rest = [] := by
  fun_induction withoutZeros ds with
  | case1 d more ih => exact ih zero
  | case2 ds plain =>
    cases rest with
    | nil => rfl
    | cons d rest => exact (plain d rest zero).elim

theorem digits_plain {n : Nat} {rest : List Char} (zero : digits n = '0' :: rest) : rest = [] := by
  have same := digits_value (digits_nonempty n) (digits_all_digits n)
  rw [value_digits, zero] at same
  exact without_zeros_plain same.symm

theorem nat_eq_some {ds : List Char} {n : Nat} :
    nat? ds = some n ↔ ds ≠ [] ∧ (∀ c ∈ ds, c.isDigit = true) ∧ value ds = n := by
  simp [nat?, and_assoc]

theorem word_eq_some {ds : List Char} {w : UInt64} :
    word? ds = some w ↔ nat? ds = some w.toNat := by
  constructor
  · intro read
    simp only [word?] at read
    split at read
    · rename_i n found
      split at read
      · rename_i fits
        obtain rfl := Option.some.inj read
        rw [found, UInt64.toNat_ofNat_of_lt' fits]
      · simp at read
    · simp at read
  · intro found
    simp [word?, found, w.toNat_lt_size]

end Rollup.Decimal
