/-! Decimal digits of a natural, most significant first and without leading zeros. -/

namespace MeshNumbering.Decimal

def digitChar (d : Nat) : Char := Char.ofNat (48 + d)

def digitValue (c : Char) : Nat := c.toNat - 48

def isDigit (c : Char) : Bool := 48 ≤ c.toNat && c.toNat ≤ 57

def digits (n : Nat) : List Char :=
  if n < 10 then [digitChar n] else digits (n / 10) ++ [digitChar (n % 10)]
termination_by n
decreasing_by omega

def ofDigits (l : List Char) : Nat := l.foldl (fun n c => 10 * n + digitValue c) 0

theorem toNat_digitChar {d : Nat} (h : d < 10) : (digitChar d).toNat = 48 + d := by
  have : ∀ d < 10, (digitChar d).toNat = 48 + d := by decide
  exact this d h

theorem isDigit_digitChar {d : Nat} (h : d < 10) : isDigit (digitChar d) = true := by
  simp [isDigit, toNat_digitChar h]
  omega

theorem ofDigits_concat (l : List Char) (c : Char) :
    ofDigits (l ++ [c]) = 10 * ofDigits l + digitValue c := by
  simp [ofDigits]

theorem ofDigits_digits (n : Nat) : ofDigits (digits n) = n := by
  fun_induction digits n with
  | case1 n h => simp [ofDigits, digitValue, toNat_digitChar h]
  | case2 n h ih =>
    rw [ofDigits_concat, ih, digitValue, toNat_digitChar (Nat.mod_lt _ (by decide))]
    omega

theorem isDigit_of_mem_digits {n : Nat} {c : Char} (h : c ∈ digits n) : isDigit c = true := by
  fun_induction digits n with
  | case1 n hn =>
    obtain rfl := List.mem_singleton.1 h
    exact isDigit_digitChar hn
  | case2 n _ ih =>
    rcases List.mem_append.1 h with h | h
    · exact ih h
    · obtain rfl := List.mem_singleton.1 h
      exact isDigit_digitChar (Nat.mod_lt _ (by decide))

theorem digits_ne_nil (n : Nat) : digits n ≠ [] := by
  unfold digits
  split <;> simp

theorem head?_digits_ne_zero {n : Nat} (h : 0 < n) : (digits n).head? ≠ some '0' := by
  fun_induction digits n with
  | case1 n hn =>
    have : ∀ d < 10, 0 < d → digitChar d ≠ '0' := by decide
    simpa using this n hn h
  | case2 n hn ih =>
    cases hd : digits (n / 10) with
    | nil => exact absurd hd (digits_ne_nil _)
    | cons c l => simpa [hd] using ih (by omega)

end MeshNumbering.Decimal
