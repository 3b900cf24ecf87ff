import RadarTimeline.Number.Layout
import RadarTimeline.Proofs.Expr.Scanning
import RadarTimeline.Proofs.Number.Shortest

namespace RadarTimeline.Number

open RadarTimeline.Expr (Digits Exponent)

variable {cs ds : List Char} {c : Char} {v : ℚ} {d : Decimal}

def Numeral.decimal (n : Numeral) : Decimal :=
  let fraction := n.fraction.getD []
  ⟨digitsValue 10 (n.whole ++ fraction), exponentValue n.exponent - fraction.length⟩

/-- A text is a numeral without sign of a value. -/
def Spells (cs : List Char) (v : ℚ) : Prop :=
  ∃ n, scanNumeral? cs = some (n, []) ∧ n.decimal.value = v

/-- A text is a numeral without sign that writes a decimal. -/
def Scans (cs : List Char) (d : Decimal) : Prop :=
  ∃ n, scanNumeral? cs = some (n, []) ∧ n.decimal = d

theorem Scans.spells (h : Scans cs d) : Spells cs d.value := by
  obtain ⟨n, hn, rfl⟩ := h
  exact ⟨n, hn, rfl⟩

theorem digitValue?_of_isDigit (h : isDigit c = true) :
    digitValue? 10 c = some (c.toNat - '0'.toNat) := by
  grind [isDigit, digitValue?]

theorem digitsValue_eq_ofDigitChars (h : Digits cs) :
    digitsValue 10 cs = Nat.ofDigitChars 10 cs 0 := by
  induction cs using List.reverseRecOn with
  | nil => rfl
  | append_singleton cs c ih =>
    have hc := digitValue?_of_isDigit (h c (by simp))
    have hcs := ih fun d hd => h d (by simp [hd])
    rw [digitsValue] at hcs ⊢
    rw [List.foldl_append, hcs, Nat.ofDigitChars_append]
    simp [Nat.ofDigitChars, hc]

theorem digitsValue_append (hc : Digits cs) (hd : Digits ds) :
    digitsValue 10 (cs ++ ds) = digitsValue 10 cs * 10 ^ ds.length + digitsValue 10 ds := by
  rw [digitsValue_eq_ofDigitChars hc, digitsValue_eq_ofDigitChars hd,
    digitsValue_eq_ofDigitChars (List.forall_mem_append.2 ⟨hc, hd⟩), Nat.ofDigitChars_append,
    Nat.ofDigitChars_eq_ofDigitChars_zero, mul_comm]

theorem digitsValue_lt (h : Digits cs) : digitsValue 10 cs < 10 ^ cs.length := by
  induction cs using List.reverseRecOn with
  | nil => decide
  | append_singleton cs c ih =>
    obtain ⟨hcs, hc⟩ := List.forall_mem_append.1 h
    have hlast : digitsValue 10 [c] < 10 := by grind [isDigit, digitValue?, digitsValue]
    have hfirst := ih hcs
    rw [digitsValue_append hcs hc, List.length_append, List.length_singleton, pow_succ]
    omega

theorem digits_zeros (k : ℕ) : Digits (zeros k) := by
  intro c hc
  rw [List.eq_of_mem_replicate hc]
  decide

theorem digitsValue_zeros (k : ℕ) : digitsValue 10 (zeros k) = 0 := by
  rw [digitsValue_eq_ofDigitChars (digits_zeros k), zeros,
    Nat.ofDigitChars_replicate_zero, mul_zero]

theorem digits_digitChars (n : ℕ) : Digits (digitChars n) := by
  intro c hc
  rw [Expr.isDigit_eq]
  exact Nat.isDigit_of_mem_toDigits (by decide) (by decide) hc

theorem digitChars_ne_nil (n : ℕ) : digitChars n ≠ [] := Nat.toDigits_ne_nil

theorem digitsValue_digitChars (n : ℕ) : digitsValue 10 (digitChars n) = n := by
  rw [digitsValue_eq_ofDigitChars (digits_digitChars n), digitChars, Nat.ofDigitChars_ten_toDigits]

theorem scans_whole {exponent : List Char} (h : Digits cs) (hne : cs ≠ [])
    (hexponent : Exponent exponent) :
    Scans (cs ++ exponent) ⟨digitsValue 10 cs, exponentValue exponent⟩ := by
  have hscan := Expr.scanNumeral?_whole h hne hexponent Expr.gap_nil
  rw [List.append_nil] at hscan
  exact ⟨_, hscan, by simp [Numeral.decimal]⟩

theorem scans_fraction {exponent : List Char} (hc : Digits cs) (hne : cs ≠ []) (hd : Digits ds)
    (hexponent : Exponent exponent) :
    Scans (cs ++ '.' :: (ds ++ exponent)) ⟨digitsValue 10 (cs ++ ds), exponentValue exponent -
      ds.length⟩ := by
  have hscan := Expr.scanNumeral?_fraction hc hd (.inl hne) hexponent Expr.gap_nil
  rw [List.append_nil] at hscan
  exact ⟨_, hscan, rfl⟩

/-- Digits with a point after some of them, which the exponent makes up for. -/
theorem scans_withPoint {exponent : List Char} {point : ℕ} (h : Digits cs) (hpos : 0 < point)
    (hle : point ≤ cs.length) (hexponent : Exponent exponent) :
    Scans (withPoint cs point ++ exponent)
      ⟨digitsValue 10 cs, exponentValue exponent - (cs.length - point : ℕ)⟩ := by
  unfold withPoint
  split
  · next hdrop =>
    have hnone : cs.length - point = 0 := by rw [← List.length_drop, hdrop, List.length_nil]
    rw [hnone, Nat.cast_zero, sub_zero]
    exact scans_whole h (by rintro rfl; simp at hle; omega) hexponent
  · have htake : cs.take point ≠ [] := by
      intro hnil
      have := congrArg List.length hnil
      rw [List.length_take, List.length_nil] at this
      omega
    have hfront : Digits (cs.take point) := fun c hc => h c (List.mem_of_mem_take hc)
    have hback : Digits (cs.drop point) := fun c hc => h c (List.mem_of_mem_drop hc)
    have hfraction := scans_fraction hfront htake hback hexponent
    rw [List.take_append_drop, List.length_drop] at hfraction
    rwa [List.append_assoc]

theorem exponent_text (z : ℤ) :
    Exponent ('e' :: (if z < 0 then '-' else '+') :: digitChars z.natAbs) ∧
      exponentValue ('e' :: (if z < 0 then '-' else '+') :: digitChars z.natAbs) = z := by
  have hdigits := digitsValue_digitChars z.natAbs
  split
  · refine ⟨.some (.inl rfl) (.inr (.inr rfl)) (digits_digitChars _) (digitChars_ne_nil _), ?_⟩
    simp only [exponentValue, List.drop_succ_cons, List.drop_zero, scanSign, if_pos, hdigits]
    omega
  · refine ⟨.some (.inl rfl) (.inr (.inl rfl)) (digits_digitChars _) (digitChars_ne_nil _), ?_⟩
    simp only [exponentValue, List.drop_succ_cons, List.drop_zero, scanSign, hdigits]
    simp
    omega

/-- The layout of a decimal writes the decimal itself, or all digits of a whole one. -/
theorem scans_layout (d : Decimal) :
    ∃ d', Scans d.layout d' ∧ d'.value = d.value ∧ min d.exponent 0 ≤ d'.exponent := by
  have hdigits := digits_digitChars d.digits
  have hvalue := digitsValue_digitChars d.digits
  have hlength := List.length_pos_iff.2 (digitChars_ne_nil d.digits)
  have hnone : exponentValue [] = 0 := rfl
  unfold Decimal.layout
  dsimp only
  generalize hpoint : ((digitChars d.digits).length : ℤ) + d.exponent = point
  split
  · next h =>
    simp only [Bool.and_eq_true, decide_eq_true_eq] at h
    have hall :
      Digits (digitChars d.digits ++ zeros (point - (digitChars d.digits).length).toNat) :=
      List.forall_mem_append.2 ⟨hdigits, digits_zeros _⟩
    have hwhole := scans_whole hall (by simp [digitChars_ne_nil]) .none
    have hzeros : (((point - (digitChars d.digits).length).toNat : ℕ) : ℤ) = d.exponent := by omega
    rw [List.append_nil, digitsValue_append hdigits (digits_zeros _), digitsValue_zeros, hvalue,
      hnone] at hwhole
    refine ⟨_, hwhole, ?_, min_le_right _ _⟩
    simp [Decimal.value, zeros, ← hzeros]
  · refine ⟨d, ?_, rfl, min_le_left _ _⟩
    split
    · next h h' =>
      simp only [Bool.and_eq_true, decide_eq_true_eq] at h h'
      have hpart : Scans (withPoint (digitChars d.digits) point.toNat ++ []) _ :=
        scans_withPoint hdigits (by omega) (by omega) .none
      have hexponent : 0 - (((digitChars d.digits).length - point.toNat : ℕ) : ℤ) = d.exponent := by
        omega
      rwa [List.append_nil, hvalue, hnone, hexponent] at hpart
    split
    · next h =>
      simp only [Bool.and_eq_true, decide_eq_true_eq] at h
      have hall : Digits (zeros (-point).toNat ++ digitChars d.digits) :=
        List.forall_mem_append.2 ⟨digits_zeros _, hdigits⟩
      have hpart := scans_fraction (digits_zeros 1) (by decide) hall .none
      have hexponent : 0 - ((zeros (-point).toNat ++ digitChars d.digits).length : ℤ) =
        d.exponent := by
        simp only [zeros, List.length_append, List.length_replicate]
        omega
      rw [List.append_nil, digitsValue_append (digits_zeros 1) hall,
        digitsValue_append (digits_zeros _) hdigits, digitsValue_zeros, digitsValue_zeros, hvalue,
        hnone, hexponent, zero_mul, zero_mul, zero_add, zero_add] at hpart
      exact hpart
    · obtain ⟨hexponent, heq⟩ := exponent_text (point - 1)
      have hpart := scans_withPoint hdigits one_pos hlength hexponent
      have hshift : point - 1 - (((digitChars d.digits).length - 1 : ℕ) : ℤ) = d.exponent := by
        omega
      rw [hvalue, heq, hshift] at hpart
      simpa using hpart

theorem mem_withPoint {point : ℕ} (h : c ∈ withPoint cs point) : c ∈ cs ∨ c = '.' := by
  unfold withPoint at h
  split at h
  · exact .inl h
  · rw [List.mem_append, List.mem_cons] at h
    rcases h with h | h | h
    · exact .inl (List.mem_of_mem_take h)
    · exact .inr h
    · exact .inl (List.mem_of_mem_drop h)

/-- The characters of decimals. -/
theorem mem_layout (h : c ∈ d.layout) : isDigit c = true ∨ c ∈ ['.', 'e', '-', '+'] := by
  have hdigits := digits_digitChars d.digits
  have hpoint : ∀ {point}, c ∈ withPoint (digitChars d.digits) point →
      isDigit c = true ∨ c ∈ ['.', 'e', '-', '+'] := by
    intro point h
    rcases mem_withPoint h with h | rfl
    · exact .inl (hdigits c h)
    · exact .inr (by decide)
  unfold Decimal.layout at h
  dsimp only at h
  split at h
  · rcases List.mem_append.1 h with h | h
    · exact .inl (hdigits c h)
    · exact .inl (digits_zeros _ c h)
  split at h
  · exact hpoint h
  split at h
  · rcases List.mem_cons.1 h with rfl | h
    · exact .inl (by decide)
    rcases List.mem_cons.1 h with rfl | h
    · exact .inr (by decide)
    rcases List.mem_append.1 h with h | h
    · exact .inl (digits_zeros _ c h)
    · exact .inl (hdigits c h)
  · rcases List.mem_append.1 h with h | h
    · rcases List.mem_append.1 h with h | h
      · exact hpoint h
      · refine .inr ?_
        split at h <;> grind
    · exact .inl (digits_digitChars _ c h)

/-- A numeral of digits only has the same value with a fraction of zero. -/
theorem Scans.point_zero (h : Scans cs d) (hdigits : Digits cs) :
    ∃ d', Scans (cs ++ ['.', '0']) d' ∧ d'.value = d.value ∧ -1 ≤ d'.exponent := by
  obtain ⟨n, hn, rfl⟩ := h
  have hne : cs ≠ [] := by
    rintro rfl
    cases hn
  obtain ⟨n', hn', hwhole⟩ := scans_whole hdigits hne .none
  rw [List.append_nil, hn] at hn'
  cases hn'
  have hpart := scans_fraction hdigits hne (digits_zeros 1) .none
  have hnone : exponentValue [] = 0 := rfl
  rw [digitsValue_append hdigits (digits_zeros 1), digitsValue_zeros] at hpart
  refine ⟨_, hpart, ?_, by simp [zeros, hnone]⟩
  rw [hwhole]
  simp [Decimal.value, zeros, hnone, zpow_neg]

theorem Scans.scanSign (h : Scans cs d) : Number.scanSign cs = (false, cs) := by
  obtain ⟨n, hn, -⟩ := h
  unfold Number.scanSign
  split
  · cases hn
  · cases hn
  · rfl

theorem Spells.unique {w : ℚ} (h : Spells cs v) (h' : Spells cs w) : v = w := by
  obtain ⟨n, hn, rfl⟩ := h
  obtain ⟨n', hn', rfl⟩ := h'
  rw [hn] at hn'
  cases hn'
  rfl

/-- A text is a numeral of a value, with a sign in front if the value is negative. -/
def SpellsSigned (cs : List Char) (negative : Bool) (v : ℚ) : Prop :=
  ∃ body, scanSign cs = (negative, body) ∧ Spells body v

theorem SpellsSigned.unique {w : ℚ} {negative negative' : Bool} (h : SpellsSigned cs negative v)
    (h' : SpellsSigned cs negative' w) : negative = negative' ∧ v = w := by
  obtain ⟨body, hscan, hspells⟩ := h
  obtain ⟨body', hscan', hspells'⟩ := h'
  rw [hscan] at hscan'
  cases hscan'
  exact ⟨rfl, hspells.unique hspells'⟩

/-- A text is a numeral that writes a decimal, with a sign in front if it is negative. -/
def ScansSigned (cs : List Char) (negative : Bool) (d : Decimal) : Prop :=
  ∃ body, scanSign cs = (negative, body) ∧ Scans body d

variable {negative : Bool}

theorem ScansSigned.spells (h : ScansSigned cs negative d) : SpellsSigned cs negative d.value := by
  obtain ⟨body, hscan, hscans⟩ := h
  exact ⟨body, hscan, hscans.spells⟩

theorem Scans.signed (h : Scans cs d) (negative : Bool) :
    ScansSigned (if negative then '-' :: cs else cs) negative d := by
  cases negative with
  | false => exact ⟨cs, h.scanSign, h⟩
  | true => exact ⟨cs, rfl, h⟩

theorem ScansSigned.readDecimal? (h : ScansSigned cs negative d) :
    Number.readDecimal? cs = some (withSign negative (scaled d.digits d.exponent)) := by
  obtain ⟨body, hscan, n, hn, rfl⟩ := h
  rw [Number.readDecimal?, hscan]
  dsimp only
  rw [hn]
  rfl

theorem Scans.unmarked {x : Char} (h : Scans ('0' :: x :: cs) d) : x ≠ 'x' ∧ x ≠ 'X' := by
  obtain ⟨n, hn, -⟩ := h
  constructor
  all_goals
    rintro rfl
    simp [scanNumeral?, splitExponent, isDigit, digitValue?] at hn

/-- A numeral that is not of digits only is no integer, in neither base. -/
theorem ScansSigned.readInteger? (h : ScansSigned cs negative d)
    (hdigits : (scanSign cs).2.all isDigit = false) :
    Number.readInteger? cs = none := by
  obtain ⟨body, hscan, hscans⟩ := h
  rw [hscan] at hdigits
  have hnone : readDigits? 10 body = none := by
    change body.all (fun c => (digitValue? 10 c).isSome) = false at hdigits
    rw [readDigits?, hdigits]
    simp
  unfold Number.readInteger?
  cases negative
  all_goals
    simp only [hscan, Bool.false_eq_true, if_false, if_true]
    split
    · next x rest =>
      obtain ⟨hx, hX⟩ := hscans.unmarked
      rw [if_neg (by simp [hx, hX]), hnone]
      rfl
    · rw [hnone]
      rfl

/-- A point after a text is not its sign. -/
theorem scanSign_append_point (cs : List Char) :
    scanSign (cs ++ ['.', '0']) = ((scanSign cs).1, (scanSign cs).2 ++ ['.', '0']) := by
  cases cs with
  | nil => rfl
  | cons c cs =>
    rw [List.cons_append]
    unfold scanSign
    split
    · next heq =>
      cases heq
      rfl
    · next heq =>
      cases heq
      rfl
    · next hminus hplus =>
      split
      · next heq => exact (hminus _ (congrArg (· ++ ['.', '0']) heq)).elim
      · next heq => exact (hplus _ (congrArg (· ++ ['.', '0']) heq)).elim
      · rfl

theorem ScansSigned.point_zero (h : ScansSigned cs negative d) (hdigits : Digits (scanSign cs).2) :
    ∃ d', ScansSigned (cs ++ ['.', '0']) negative d' ∧ d'.value = d.value ∧ -1 ≤ d'.exponent := by
  obtain ⟨body, hscan, hscans⟩ := h
  rw [hscan] at hdigits
  obtain ⟨d', hd', hvalue, hexponent⟩ := hscans.point_zero hdigits
  refine ⟨d', ⟨body ++ ['.', '0'], ?_, hd'⟩, hvalue, hexponent⟩
  rw [scanSign_append_point, hscan]

end RadarTimeline.Number
