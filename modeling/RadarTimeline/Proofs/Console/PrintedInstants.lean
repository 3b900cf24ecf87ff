import RadarTimeline.Proofs.Console.Calendar
import RadarTimeline.Proofs.Expr.Sums
import RadarTimeline.Proofs.Expr.ValueText
import RadarTimeline.Proofs.Number.Values

namespace RadarTimeline.Console

open Number RadarTimeline.Expr

variable {options : List String} {seconds : Float} {places : ℕ} {v w : ℚ}

section Reading

variable {mark : Char} {a b c : List Char} {i j k : ℕ}

def readNumbers? (mark : Char) (cs : List Char) : Option (List ℕ) :=
  (cs.splitOn mark).mapM (readDigits? 10)

/-- The seconds since 1970 that `DD-MM-YYYY hh:mm:ss.f` stands for, if there is such an instant. -/
def readInstant? (text : String) : Option ℚ := do
  let [date, time] := text.toList.splitOn ' ' | none
  let [clock, fraction] := time.splitOn '.' | none
  let [day, month, year] ← readNumbers? '-' date | none
  let [hours, minutes, seconds] ← readNumbers? ':' clock | none
  let units ← readDigits? 10 fraction
  if IsDate year month day ∧ hours < 24 ∧ minutes < 60 ∧ seconds < 60 then
    some ((daysBefore year month day * 86400 + hours * 3600 + minutes * 60 + seconds : ℕ) +
      units / 10 ^ fraction.length)
  else none

/-- Numbers are written with a mark between them, and with nothing else but digits. -/
structure Written (mark : Char) (cs : List Char) (ns : List ℕ) : Prop where
  read : readNumbers? mark cs = some ns
  chars : ∀ x ∈ cs, isDigit x = true ∨ x = mark

theorem Written.not_mem {x : Char} {cs : List Char} {ns : List ℕ} (h : Written mark cs ns)
    (hdigit : isDigit x = false) (hmark : x ≠ mark) : x ∉ cs := fun hmem =>
  (h.chars x hmem).elim (by simp [hdigit]) hmark

theorem not_mem_of_digits {x : Char} {cs : List Char} (h : Digits cs) (hx : isDigit x = false) :
    x ∉ cs := fun hmem =>
  absurd (h x hmem) (by simp [hx])

theorem written_three (hmark : isDigit mark = false) (ha : readDigits? 10 a = some i)
    (hb : readDigits? 10 b = some j) (hc : readDigits? 10 c = some k) :
    Written mark (a ++ mark :: (b ++ mark :: c)) [i, j, k] := by
  have hdigits : ∀ {cs n}, readDigits? 10 cs = some n → Digits cs :=
    fun h => (digits_of_readDigits? h).1
  have hsolid : ∀ {cs n}, readDigits? 10 cs = some n → mark ∉ cs :=
    fun h => not_mem_of_digits (hdigits h) hmark
  constructor
  · rw [readNumbers?, List.splitOn_append_cons_self, List.splitOn_append_cons_self,
      List.splitOn_eq_singleton (hsolid ha), List.splitOn_eq_singleton (hsolid hb),
      List.splitOn_eq_singleton (hsolid hc)]
    simp [ha, hb, hc]
  · intro x hx
    simp only [List.mem_append, List.mem_cons] at hx
    rcases hx with hx | hx | hx | hx | hx
    · exact .inl (hdigits ha x hx)
    · exact .inr hx
    · exact .inl (hdigits hb x hx)
    · exact .inr hx
    · exact .inl (hdigits hc x hx)

theorem digits_padded (k n : ℕ) :
    Digits (zeros k ++ digitChars n) ∧ digitsValue 10 (zeros k ++ digitChars n) = n := by
  refine ⟨List.forall_mem_append.2 ⟨digits_zeros k, digits_digitChars n⟩, ?_⟩
  rw [digitsValue_append (digits_zeros k) (digits_digitChars n), digitsValue_zeros,
    zero_mul, zero_add, digitsValue_digitChars]

theorem readDigits?_twoDigits (n : ℕ) : readDigits? 10 (twoDigits n).toList = some n := by
  have htext : (toString (n : ℤ)).toList = digitChars n := Nat.toList_repr
  unfold twoDigits
  dsimp only
  split
  · obtain ⟨hdigits, hvalue⟩ := digits_padded 1 n
    rw [String.toList_append, htext]
    exact (readDigits?_digits hdigits (List.cons_ne_nil _ _)).trans (congrArg some hvalue)
  · rw [htext, readDigits?_digitChars]

theorem readInstant?_eq {text : String} {date clock fraction : List Char}
    {year month day hours minutes secs : ℕ}
    (htext : text.toList = date ++ ' ' :: (clock ++ '.' :: fraction))
    (hdate : Written '-' date [day, month, year])
    (hclock : Written ':' clock [hours, minutes, secs]) (hfraction : Digits fraction)
    (hne : fraction ≠ []) (hvalid : IsDate year month day ∧ hours < 24 ∧ minutes < 60 ∧ secs < 60) :
    readInstant? text =
      some ((daysBefore year month day * 86400 + hours * 3600 + minutes * 60 + secs : ℕ) +
      digitsValue 10 fraction / 10 ^ fraction.length : ℚ) := by
  have hblank : ' ' ∉ clock ++ '.' :: fraction := by
    simp [hclock.not_mem (by decide : isDigit ' ' = false) (by decide),
      not_mem_of_digits hfraction (by decide : isDigit ' ' = false)]
  have hwords : text.toList.splitOn ' ' = [date, clock ++ '.' :: fraction] := by
    rw [htext, List.splitOn_append_cons_self,
      List.splitOn_eq_singleton (hdate.not_mem (by decide : isDigit ' ' = false) (by decide)),
      List.splitOn_eq_singleton hblank]
    rfl
  have htime : (clock ++ '.' :: fraction).splitOn '.' = [clock, fraction] := by
    rw [List.splitOn_append_cons_self,
      List.splitOn_eq_singleton (hclock.not_mem (by decide : isDigit '.' = false) (by decide)),
      List.splitOn_eq_singleton (not_mem_of_digits hfraction (by decide))]
    rfl
  simp only [readInstant?, hwords, htime, hdate.read, hclock.read, readDigits?_digits hfraction hne]
  exact if_pos hvalid

end Reading

section Parts

theorem exists_parts (n : ℕ) : ∃ year month day hours minutes secs : ℕ,
    Instant.ofSeconds n =
      ⟨twoDigits day, twoDigits month, toString (year : ℤ), twoDigits hours, twoDigits minutes,
      twoDigits secs⟩ ∧
    (IsDate year month day ∧ hours < 24 ∧ minutes < 60 ∧ secs < 60) ∧
    daysBefore year month day * 86400 + hours * 3600 + minutes * 60 + secs = n := by
  obtain ⟨year, month, day, hdate, hvalid, hdays⟩ := exists_ofDays (n / 86400)
  refine ⟨year, month, day, n % 86400 / 3600, n % 86400 / 60 % 60, n % 86400 % 60, ?_,
    ⟨hvalid, by omega, by omega, by omega⟩, by omega⟩
  have hdate : Date.ofDays ((n : ℤ) / 86400) = ⟨year, month, day⟩ := hdate
  rw [Instant.ofSeconds, hdate]
  rfl

/-- Behind the point stand the last digits, and they make up what is left of the number without
those in front. -/
theorem drop_withPoint {cs : List Char} (hplaces : 0 < places) (hlength : cs.length = places + 1)
    (hdigits : Digits cs) :
    ∃ ds, (withPoint cs 1).drop 1 = '.' :: ds ∧ Digits ds ∧ ds.length = places ∧
      digitsValue 10 ds = digitsValue 10 cs % 10 ^ places := by
  obtain ⟨first, ds, rfl⟩ : ∃ first ds, cs = first :: ds :=
    List.exists_cons_of_length_eq_add_one hlength
  obtain ⟨hfirst, hds⟩ := List.forall_mem_cons.1 hdigits
  have hlen : ds.length = places := Nat.succ_injective hlength
  obtain ⟨x, xs, rfl⟩ : ∃ x xs, ds = x :: xs := List.exists_cons_of_length_pos (hlen ▸ hplaces)
  refine ⟨x :: xs, rfl, hds, hlen, ?_⟩
  have hvalue := digitsValue_append (List.forall_mem_singleton.2 hfirst : Digits [first]) hds
  have hbelow := digitsValue_lt hds
  rw [List.singleton_append, hlen] at hvalue
  rw [hlen] at hbelow
  rw [hvalue, Nat.mul_add_mod', Nat.mod_eq_of_lt hbelow]

/-- The digits of a fraction stand behind the point; those of a whole unit are all zero. -/
theorem drop_placesText {units : ℕ} (hplaces : 0 < places) (hunits : units ≤ 10 ^ places) :
    ∃ ds, (placesText units places).drop 1 = '.' :: ds ∧ Digits ds ∧ ds.length = places ∧
      digitsValue 10 ds = units % 10 ^ places := by
  obtain ⟨cs, hcs⟩ : ∃ cs, cs = zeros (places + 1 - (digitChars units).length) ++
    digitChars units := ⟨_, rfl⟩
  have hlength : cs.length = places + 1 := by
    have hle : (digitChars units).length ≤ places + 1 :=
      (Nat.length_toDigits_le_iff (by decide) (Nat.succ_pos _)).2
        (hunits.trans_lt (Nat.pow_lt_pow_right (by decide) (Nat.lt_succ_self _)))
    rw [hcs, List.length_append, zeros, List.length_replicate]
    omega
  obtain ⟨hdigits, hvalue⟩ : Digits cs ∧ digitsValue 10 cs = units := hcs ▸ digits_padded _ units
  have htext : placesText units places = withPoint cs 1 := by
    rw [placesText, ← hcs, hlength, Nat.add_sub_cancel_left]
  rw [htext, ← hvalue]
  exact drop_withPoint hplaces hlength hdigits

end Parts

section Rounding

def fractionUnits (places : ℕ) (v : ℚ) : ℕ := ⌊Int.fract v * 10 ^ places + 1 / 2⌋₊

/-- The fraction of an instant rounds up to a whole second. -/
def Carries (places : ℕ) (v : ℚ) : Prop := 1 - 1 / (2 * 10 ^ places) ≤ Int.fract v

instance (places : ℕ) (v : ℚ) : Decidable (Carries places v) := inferInstanceAs (Decidable (_ ≤ _))

/-- The instant that is printed: the whole seconds, and the digits of the fraction after the
point. -/
def printed (places : ℕ) (v : ℚ) : ℚ :=
  ⌊v⌋ + (fractionUnits places v % 10 ^ places : ℕ) / 10 ^ places

theorem fractionUnits_le (places : ℕ) (v : ℚ) : fractionUnits places v ≤ 10 ^ places := by
  have hpos : (0 : ℚ) < 10 ^ places := by positivity
  have hlt := Int.fract_lt_one v
  refine Nat.lt_succ_iff.1 ((Nat.floor_lt' (Nat.succ_ne_zero _)).2 ?_)
  push_cast
  nlinarith

theorem carries_iff : Carries places v ↔ fractionUnits places v = 10 ^ places := by
  have hpos : (0 : ℚ) < 10 ^ places := by positivity
  have hhalf : (1 - 1 / (2 * 10 ^ places) : ℚ) * 10 ^ places = 10 ^ places - 1 / 2 := by field_simp
  have hnonneg : 0 ≤ Int.fract v * 10 ^ places + 1 / 2 := by
    have := mul_nonneg (Int.fract_nonneg v) hpos.le
    linarith
  have hge : fractionUnits places v = 10 ^ places ↔ 10 ^ places ≤ fractionUnits places v :=
    ⟨Eq.ge, (fractionUnits_le places v).antisymm⟩
  rw [hge, fractionUnits, Nat.le_floor_iff hnonneg, Carries, ← mul_le_mul_iff_left₀ hpos, hhalf,
    sub_le_iff_le_add, Nat.cast_pow, Nat.cast_ofNat]

theorem printed_of_carries (h : Carries places v) : printed places v = ⌊v⌋ := by
  rw [printed, carries_iff.1 h, Nat.mod_self, Nat.cast_zero, zero_div, add_zero]

theorem fractionUnits_lt (h : ¬ Carries places v) : fractionUnits places v < 10 ^ places :=
  (fractionUnits_le places v).lt_of_ne (mt carries_iff.2 h)

theorem printed_of_not_carries (h : ¬ Carries places v) :
    printed places v = ⌊v⌋ + fractionUnits places v / 10 ^ places := by
  rw [printed, Nat.mod_eq_of_lt (fractionUnits_lt h)]

/-- What is printed is at most half a unit of the last decimal away exactly if no second is lost. -/
theorem printed_near_iff (hplaces : 0 < places) :
    |printed places v - v| ≤ 1 / (2 * 10 ^ places) ↔ ¬ Carries places v := by
  have hpos : (0 : ℚ) < 10 ^ places := by positivity
  have hsplit := Int.floor_add_fract v
  constructor
  · intro hnear hcarries
    have hten : (10 : ℚ) ≤ 10 ^ places := le_self_pow₀ (by norm_num) hplaces.ne'
    have hhalf : (1 / (2 * 10 ^ places) : ℚ) ≤ 1 / 20 :=
      one_div_le_one_div_of_le (by norm_num) (by linarith)
    rw [printed_of_carries hcarries, abs_le] at hnear
    unfold Carries at hcarries
    linarith [hnear.1]
  · intro hcarries
    have hnonneg : 0 ≤ Int.fract v * 10 ^ places + 1 / 2 := by
      have := mul_nonneg (Int.fract_nonneg v) hpos.le
      linarith
    have hle := Nat.floor_le hnonneg
    have hlt := Nat.lt_floor_add_one (Int.fract v * 10 ^ places + 1 / 2)
    have hunits : |(fractionUnits places v : ℚ) - Int.fract v * 10 ^ places| ≤ 1 / 2 := by
      unfold fractionUnits
      rw [abs_le]
      constructor <;> linarith
    have hscaled : printed places v - v =
        (fractionUnits places v - Int.fract v * 10 ^ places) / 10 ^ places := by
      rw [printed_of_not_carries hcarries, sub_div, mul_div_cancel_right₀ _ hpos.ne']
      linarith
    rw [hscaled, abs_div, abs_of_pos hpos, ← div_div]
    exact div_le_div_of_nonneg_right hunits hpos.le

theorem printed_lt (places : ℕ) (v : ℚ) : printed places v < ⌊v⌋ + 1 := by
  have hpos : (0 : ℚ) < 10 ^ places := by positivity
  have hmod : ((fractionUnits places v % 10 ^ places : ℕ) : ℚ) < 10 ^ places := by
    exact_mod_cast Nat.mod_lt _ (Nat.pow_pos (by decide))
  rw [printed, add_lt_add_iff_left, div_lt_one hpos]
  exact hmod

/-- Instants are printed in their order as long as the later one loses no second. -/
theorem printed_le (hle : v ≤ w) (hw : ¬ Carries places w) :
    printed places v ≤ printed places w := by
  -- the earlier instant may lose its second only if the later one is in another
  rcases (Int.floor_le_floor hle).lt_or_eq with hlt | heq
  · have hnext : (⌊v⌋ + 1 : ℚ) ≤ ⌊w⌋ := by exact_mod_cast hlt
    have hfraction : (0 : ℚ) ≤ (fractionUnits places w % 10 ^ places : ℕ) / 10 ^ places := by
      positivity
    have := printed_lt places v
    have hw' : (⌊w⌋ : ℚ) ≤ printed places w := le_add_of_nonneg_right hfraction
    linarith
  · have hfract : Int.fract v ≤ Int.fract w := by
      rw [Int.fract, Int.fract, heq]
      linarith
    have hunits : fractionUnits places v ≤ fractionUnits places w := Nat.floor_le_floor (by gcongr)
    have hv : ¬ Carries places v := fun hcarries => hw (hcarries.trans hfract)
    rw [printed_of_not_carries hv, printed_of_not_carries hw, heq]
    gcongr

end Rounding

section Printing

/-- An instant in the range of dates, and its value. -/
structure Dated (seconds : Float) (v : ℚ) : Prop where
  value : value? seconds = some v
  since : 0 ≤ v
  until_last : ⌊v⌋ ≤ 8640000000000

theorem Dated.instant (h : Dated seconds v) : Instant.of seconds = .ofSeconds ⌊v⌋ := by
  have hlast : value? lastMillisecond = some 8640000000000000 := by decide +kernel
  have hlater := h.until_last
  have hproduct :=
    value?_floorFloat_mul (n := 1000) h.value h.since (by decide) (by decide) (by omega)
  have hnonneg : (0 : ℚ) ≤ ⌊v⌋ * (1000 : ℕ) :=
    mul_nonneg (Int.cast_nonneg (Int.floor_nonneg.2 h.since)) (by norm_num)
  have hrange : (⌊v⌋ * (1000 : ℕ) : ℚ) ≤ 8640000000000000 := by
    have : (⌊v⌋ : ℚ) ≤ 8640000000000 := by exact_mod_cast hlater
    push_cast
    linarith
  have hvalid : (floorFloat seconds * 1000).abs ≤ lastMillisecond :=
    (le_iff_value (value?_abs hproduct hnonneg) hlast).2 hrange
  rw [Instant.of, if_pos hvalid, floor_eq h.value]

/-- The text of an instant stands for what is printed of it. -/
theorem Dated.readInstant?_timestampText (h : Dated seconds v) (hdate : "-nodate" ∉ options)
    (hyear : "-noyear" ∉ options) (hplaces : 0 < decimals options) :
    readInstant? (timestampText seconds options) = some (printed (decimals options) v) := by
  obtain ⟨n, hn⟩ := Int.eq_ofNat_of_zero_le (Int.floor_nonneg.2 h.since)
  obtain ⟨year, month, day, hours, minutes, secs, hparts, hvalid, htotal⟩ := exists_parts n
  have hinstant : Instant.of seconds = _ :=
    (h.instant.trans (congrArg Instant.ofSeconds hn)).trans hparts
  have hlater := h.until_last
  have hfraction := value?_sub_floorFloat h.value h.since (by omega)
  have hfixed := fixedText_eq (decimals options) hfraction (Int.fract_nonneg v) (Int.fract_lt_one v)
  obtain ⟨ds, hdrop, hdigits, hlength, hvalue⟩ :=
    drop_placesText hplaces (fractionUnits_le (decimals options) v)
  have hdecimals : (fixedText (seconds - floorFloat seconds) (decimals options)).toList.drop 1 =
    '.' :: ds := by
    rw [hfixed, String.toList_ofList]
    exact hdrop
  have htext : (timestampText seconds options).toList =
      ((twoDigits day).toList ++ '-' ::
        ((twoDigits month).toList ++ '-' :: (toString (year : ℤ)).toList)) ++
        ' ' :: (((twoDigits hours).toList ++ ':' ::
          ((twoDigits minutes).toList ++ ':' :: (twoDigits secs).toList)) ++
          '.' :: ds) := by
    have htoString : ∀ text : String, toString text = text := fun _ => rfl
    simp [timestampText, hinstant, hdate, hyear, hplaces.ne', hdecimals, htoString]
  have hyearText : readDigits? 10 (toString (year : ℤ)).toList = some year := by
    rw [show (toString (year : ℤ)).toList =
      digitChars year from Nat.toList_repr, readDigits?_digitChars]
  have hread := readInstant?_eq htext
    (written_three (by decide) (readDigits?_twoDigits day) (readDigits?_twoDigits month) hyearText)
    (written_three (by decide) (readDigits?_twoDigits hours) (readDigits?_twoDigits minutes)
      (readDigits?_twoDigits secs))
    hdigits (List.ne_nil_of_length_pos (hlength ▸ hplaces)) hvalid
  rw [hread, htotal, hvalue, hlength, printed, hn, Int.cast_natCast]

/-- A text with a date stands for an instant, which is at most half a unit of its last decimal away
from the given one exactly unless the fraction rounds up to a whole second; then it is the beginning
of the second that is left. No instant is printed later than a later one, unless the later one loses
its second. -/
theorem timestampText_near_iff (options : List String) (hdate : "-nodate" ∉ options)
    (hyear : "-noyear" ∉ options) (hplaces : 0 < decimals options) :
    (∀ seconds v, Dated seconds v → ∃ t, readInstant? (timestampText seconds options) = some t ∧
      (|t - v| ≤ 1 / (2 * 10 ^ decimals options) ↔ ¬ Carries (decimals options) v) ∧
      (Carries (decimals options) v → t = ⌊v⌋)) ∧
    ∀ seconds later v w, Dated seconds v → Dated later w → v ≤ w → ¬ Carries (decimals options) w →
      ∃ t u, readInstant? (timestampText seconds options) = some t ∧
        readInstant? (timestampText later options) = some u ∧ t ≤ u := by
  constructor
  · intro seconds v h
    exact ⟨_, h.readInstant?_timestampText hdate hyear hplaces, printed_near_iff hplaces,
      printed_of_carries⟩
  · intro seconds later v w h hlater hle hw
    exact ⟨_, _, h.readInstant?_timestampText hdate hyear hplaces,
      hlater.readInstant?_timestampText hdate hyear hplaces, printed_le hle hw⟩

theorem timestampText_near_thousandths :
    ∃ t u, readInstant? (timestampText 0.96 ["-3"]) = some t ∧
    readInstant? (timestampText 1.5 ["-3"]) = some u ∧
      |u - 3 / 2| ≤ 1 / (2 * 10 ^ 3) ∧ t ≤ u := by
  have hearlier : Dated 0.96 (8646911284551352 / 9007199254740992) := by
    constructor <;> decide +kernel
  have hlater : Dated 1.5 (3 / 2) := by constructor <;> decide +kernel
  have hkept : ¬ Carries (decimals ["-3"]) (3 / 2) := by decide +kernel
  obtain ⟨hnear, horder⟩ := timestampText_near_iff ["-3"] (by decide) (by decide) (by decide)
  obtain ⟨t, u, ht, hu, hle⟩ := horder _ _ _ _ hearlier hlater (by norm_num) hkept
  obtain ⟨u', hu', hiff, -⟩ := hnear _ _ hlater
  obtain rfl : u = u' := Option.some_inj.1 (hu.symm.trans hu')
  exact ⟨t, u, ht, hu, hiff.2 hkept, hle⟩

theorem timestampText_drops_second :
    ∃ v, Dated 0.96 v ∧ readInstant? (timestampText 0.96 ["-1"]) = some 0 ∧
      ¬ |0 - v| ≤ 1 / (2 * 10 ^ decimals ["-1"]) ∧
      (0.9 : Float) < 0.96 ∧ readInstant? (timestampText 0.9 ["-1"]) = some (9 / 10) := by
  refine ⟨8646911284551352 / 9007199254740992, by constructor <;> decide +kernel, ?_⟩
  decide +kernel

end Printing

end RadarTimeline.Console
