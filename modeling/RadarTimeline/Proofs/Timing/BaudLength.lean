import RadarTimeline.Proofs.Number.Difference
import RadarTimeline.Proofs.Timing.RecordedEvents

namespace RadarTimeline.PhaseHistory

open Float.Model

def timesIn (iv : Interval) (events : List (Timed Phase)) : List Float :=
  (events.map (·.time)).filter fun t => decide (iv.start ≤ t) && decide (t ≤ iv.stop)

def neighbours {α : Type} (l : List α) : List (α × α) := l.zip l.tail

def nanoseconds (p : Float × Float) : Float := (p.2 - p.1) / 1e-9

def divided (p : Gap × Gap) : Gap × Gap := (p.2, p.1.remainder p.2)

def wholeGaps (times : List Float) : List ℕ :=
  (neighbours times).map fun p => (Number.round (nanoseconds p)).natAbs

def commonDivisors (times : List Float) : Set ℕ :=
  {d | ∀ p ∈ neighbours times, (d : ℤ) ∣ Number.round (nanoseconds p)}

/-- One gap of the code in an interval is infinite in nanoseconds, and another one is not zero. -/
def Unmeasurable (h : PhaseHistory) (iv : Interval) : Prop :=
  .infinite ∈ gaps (timesIn iv h.events) ∧ 2 ≤ (gaps (timesIn iv h.events)).countP (· ≠ .whole 0)

variable {h : PhaseHistory} {iv : Interval} {times times' : List Float} {a b a' b' : Float}

section Divisor

theorem commonDivisor_whole (x y : ℕ) :
    commonDivisor (.whole x) (.whole y) = .ok (.whole (x.gcd y)) := by
  induction y using Nat.strongRecOn generalizing x with
  | ind y ih =>
    cases y with
    | zero => rw [commonDivisor, Nat.gcd_zero_right]
    | succ n =>
      have hlt : x % (n + 1) < n + 1 := Nat.mod_lt x n.succ_pos
      rw [commonDivisor, Gap.remainder, ih _ hlt, Nat.gcd_comm, ← Nat.gcd_rec, Nat.gcd_comm]

/-- Between whole numbers the division ends, after no more turns than the divisor counts. -/
theorem exists_divided (x y : ℕ) :
    ∃ n ≤ y, divided^[n] (.whole x, .whole y) = (.whole (x.gcd y), .whole 0) := by
  induction y using Nat.strongRecOn generalizing x with
  | ind y ih =>
    cases y with
    | zero => exact ⟨0, le_rfl, by rw [Nat.gcd_zero_right]; rfl⟩
    | succ m =>
      have hlt : x % (m + 1) < m + 1 := Nat.mod_lt x m.succ_pos
      obtain ⟨n, hn, hdivided⟩ := ih _ hlt (m + 1)
      refine ⟨n + 1, by omega, ?_⟩
      rw [Function.iterate_succ_apply, divided, Gap.remainder, hdivided, Nat.gcd_comm,
        ← Nat.gcd_rec, Nat.gcd_comm]

theorem divided_undefined (x : Gap) (n : ℕ) : (divided^[n] (x, .undefined)).2 = .undefined := by
  induction n generalizing x with
  | zero => rfl
  | succ n ih =>
    have hturn : divided (x, .undefined) = (.undefined, .undefined) := by cases x <;> rfl
    rw [Function.iterate_succ_apply, hturn, ih]

/-- The division has a result where it reaches a zero, and it is endless where it reaches none. -/
theorem commonDivisor_cases (x y : Gap) :
    (∃ g n, commonDivisor x y = .ok g ∧ divided^[n] (x, y) = (g, .whole 0)) ∨
      commonDivisor x y = .error ⟨⟩ ∧ ∀ n, (divided^[n] (x, y)).2 ≠ .whole 0 := by
  fun_induction commonDivisor x y with
  | case1 x => exact .inl ⟨x, 0, rfl, rfl⟩
  | case2 x =>
    refine .inr ⟨rfl, fun n => ?_⟩
    rw [divided_undefined]
    simp
  | case3 | case4 =>
    rename_i ih
    refine ih.imp ?_ (And.imp_right fun hnever n => ?_)
    · rintro ⟨g, n, hok, hn⟩
      exact ⟨g, n + 1, hok, hn⟩
    · cases n with
      | zero => simp
      | succ n => exact hnever n

theorem commonDivisor_endless_iff (x y : Gap) :
    commonDivisor x y = .error ⟨⟩ ↔ ∀ n, (divided^[n] (x, y)).2 ≠ .whole 0 := by
  rcases commonDivisor_cases x y with ⟨g, n, hok, hn⟩ | ⟨herror, hnever⟩
  · rw [hok]
    exact iff_of_false (by simp) fun hnever => hnever n (by rw [hn])
  · exact iff_of_true herror hnever

theorem dvd_foldl_gcd (d : ℕ) (gs : List ℕ) (g : ℕ) :
    d ∣ gs.foldl Nat.gcd g ↔ d ∣ g ∧ ∀ g' ∈ gs, d ∣ g' := by
  induction gs generalizing g with
  | nil => simp
  | cons g' gs ih => rw [List.foldl_cons, ih, Nat.dvd_gcd_iff, List.forall_mem_cons, and_assoc]

theorem foldl_gcd_eq_zero_iff (gs : List ℕ) : gs.foldl Nat.gcd 0 = 0 ↔ ∀ g ∈ gs, g = 0 := by
  have hdvd := fun d => dvd_foldl_gcd d gs 0
  constructor
  · intro hzero g hg
    exact Nat.eq_zero_of_zero_dvd (((hdvd 0).1 (by rw [hzero])).2 g hg)
  · intro hall
    refine Nat.eq_zero_of_zero_dvd ((hdvd 0).2 ⟨dvd_rfl, fun g hg => ?_⟩)
    rw [hall g hg]

theorem foldlM_whole (gs : List ℕ) (g : ℕ) :
    (gs.map Gap.whole).foldlM commonDivisor (.whole g) = .ok (.whole (gs.foldl Nat.gcd g)) := by
  induction gs generalizing g with
  | nil => rfl
  | cons g' gs ih =>
    rw [List.map_cons, List.foldlM_cons, commonDivisor_whole]
    exact ih _

theorem commonDivisor_infinite (x : ℕ) :
    commonDivisor (.whole x) .infinite = if x = 0 then .ok .infinite else .error ⟨⟩ := by
  cases x <;> simp [commonDivisor, Gap.remainder]

theorem infinite_commonDivisor (y : Gap) :
    commonDivisor .infinite y = if y = .whole 0 then .ok .infinite else .error ⟨⟩ := by
  rcases y with (_ | n) | _ | _ <;> simp [commonDivisor, Gap.remainder]

theorem commonDivisor_undefined (x : Gap) : commonDivisor x .undefined = .error ⟨⟩ := by
  rw [commonDivisor]

/-- Two gaps have no divisor if one is undefined, or if one is infinite and neither is zero. -/
theorem commonDivisor_gaps {x : Gap} (hx : x ≠ .undefined) (y : Gap) :
    (commonDivisor x y = .error ⟨⟩ ∧
      (y = .undefined ∨ (x = .infinite ∨ y = .infinite) ∧ x ≠ .whole 0 ∧ y ≠ .whole 0)) ∨
    ∃ d, commonDivisor x y = .ok d ∧ d ≠ .undefined ∧ y ≠ .undefined ∧
      (d = .infinite ↔ x = .infinite ∨ y = .infinite) ∧
      (d = .whole 0 ↔ x = .whole 0 ∧ y = .whole 0) ∧
      (d = .infinite → x = .whole 0 ∨ y = .whole 0) := by
  rcases x with x | _ | _
  · rcases y with y | _ | _
    · exact .inr ⟨_, commonDivisor_whole x y, by simp, by simp, by simp, by simp, by simp⟩
    · rw [commonDivisor_infinite]
      split_ifs with h
      · exact .inr ⟨_, rfl, by simp [h]⟩
      · exact .inl ⟨rfl, by simp [h]⟩
    · exact .inl ⟨commonDivisor_undefined _, .inl rfl⟩
  · rw [infinite_commonDivisor]
    split_ifs with h
    · exact .inr ⟨_, rfl, by simp [h]⟩
    · exact .inl ⟨rfl, by simp [h]⟩
  · exact (hx rfl).elim

/-- The search for a divisor is endless if a gap is undefined, or if one is infinite and another is
not zero. -/
theorem foldlM_endless_iff (gs : List Gap) {g : Gap} (hg : g ≠ .undefined) :
    gs.foldlM commonDivisor g = .error ⟨⟩ ↔
      .undefined ∈ gs ∨ .infinite ∈ g :: gs ∧ 2 ≤ (g :: gs).countP (· ≠ .whole 0) := by
  induction gs generalizing g with
  | nil =>
    have hcount : [g].countP (· ≠ .whole 0) ≤ 1 := List.countP_le_length
    simp only [List.foldlM_nil, List.not_mem_nil, false_or]
    exact iff_of_false (by simp [pure, Except.pure]) fun h => by omega
  | cons g' gs ih =>
    rw [List.foldlM_cons]
    rcases commonDivisor_gaps hg g' with ⟨herror, hgaps⟩ | ⟨d, hok, hd, hg', hinf, hzero, hone⟩
    · rw [herror]
      refine iff_of_true rfl (hgaps.imp (by rintro rfl; simp) ?_)
      rintro ⟨hmem, hx, hy⟩
      refine ⟨?_, ?_⟩
      · simp only [List.mem_cons]
        tauto
      · simp [hx, hy]
    · -- the divisor is counted once if one of the gaps is; where both are, neither is infinite, and
      -- an infinite gap is counted after them
      have hrest : .infinite ∈ gs → 1 ≤ gs.countP (· ≠ .whole 0) := fun hmem =>
        List.countP_pos_iff.2 ⟨_, hmem, by simp⟩
      rw [hok]
      refine (ih hd).trans ?_
      simp only [List.mem_cons, List.countP_cons]
      by_cases hx : g = .whole 0 <;> by_cases hy : g' = .whole 0 <;> grind

end Divisor

section Gaps

theorem nanosecond_finite : ∃ s m e hm, (1e-9 : Float).toModel.unpack = .finite s m e hm := by
  rcases Number.finite_cases (x := 1e-9) (by decide +kernel) with ⟨s, hs⟩ | ⟨s, m, e, hm, hs, -⟩
  · have hzero : ((1e-9 : Float) == 0) = true := Number.beq_zero_iff.2 ⟨s, hs⟩
    exact absurd hzero (by decide +kernel)
  · exact ⟨s, m, e, hm, hs⟩

theorem gaps_eq (times : List Float) :
    gaps times = (neighbours times).map fun p => .between p.1 p.2 := by
  fun_induction gaps times with
  | case1 a b rest ih =>
    rw [ih]
    rfl
  | case2 times hshort =>
    rcases times with _ | ⟨a, _ | ⟨b, rest⟩⟩
    · rfl
    · rfl
    · exact (hshort a b rest rfl).elim

theorem between_of_isFinite (hfinite : (nanoseconds (a, b)).isFinite) :
    Gap.between a b = .whole (Number.round (nanoseconds (a, b))).natAbs :=
  if_pos hfinite

theorem baudLength_of_finite
    (hfinite : ∀ p ∈ neighbours (timesIn iv h.events), (nanoseconds p).isFinite) :
    h.baudLength iv = .ok
      (if (wholeGaps (timesIn iv h.events)).foldl Nat.gcd 0 = 0 then none
      else some (Number.ofInt ((wholeGaps (timesIn iv h.events)).foldl Nat.gcd 0 : ℕ) / 1e9)) := by
  have hgaps : gaps (timesIn iv h.events) = (wholeGaps (timesIn iv h.events)).map .whole := by
    rw [gaps_eq, wholeGaps, List.map_map]
    exact List.map_congr_left fun p hp => between_of_isFinite (hfinite p hp)
  rw [baudLength, ← timesIn, hgaps, foldlM_whole]
  simp only [bind, Except.bind, pure, Except.pure, Gap.whole.injEq, Gap.toFloat]

theorem between_ne_undefined (ha : a.isFinite) (hb : b.isFinite) :
    Gap.between a b ≠ .undefined := by
  have hnumber : ((b - a) / 1e-9).isNaN = false := by
    obtain ⟨s, m, e, hm, hns⟩ := nanosecond_finite
    have hdiv := (Number.isNaN_mul_div (Number.isNaN_sub hb ha) s m e hm).2
    rw [← hns] at hdiv
    exact Number.isNaN_unpack_pack hdiv
  unfold Gap.between
  simp only [hnumber, Bool.false_eq_true, if_false]
  split_ifs <;> simp

theorem mem_timesIn {t : Float} {events : List (Timed Phase)} (h : t ∈ timesIn iv events) :
    iv.start ≤ t ∧ t ≤ iv.stop := by
  have hin := (List.mem_filter.1 h).2
  rwa [Bool.and_eq_true, decide_eq_true_iff, decide_eq_true_iff] at hin

theorem baudLength_endless_iff (h : PhaseHistory) (iv : Interval) :
    h.baudLength iv = .error ⟨⟩ ↔ h.Unmeasurable iv := by
  have hfinite : ∀ t ∈ timesIn iv h.events, t.isFinite := fun t ht =>
    Number.isFinite_of_between iv.valid.1 iv.valid.2.1 (mem_timesIn ht).1 (mem_timesIn ht).2
  have hdefined : .undefined ∉ gaps (timesIn iv h.events) := by
    rw [gaps_eq, List.mem_map]
    rintro ⟨p, hp, hgap⟩
    obtain ⟨hleft, hright⟩ := List.of_mem_zip hp
    exact between_ne_undefined (hfinite _ hleft) (hfinite _ (List.mem_of_mem_tail hright)) hgap
  have hfold := foldlM_endless_iff (gaps (timesIn iv h.events)) (g := .whole 0) (by simp)
  rw [or_iff_right hdefined, List.mem_cons, or_iff_right (by simp),
    List.countP_cons_of_neg (by simp)] at hfold
  rw [Unmeasurable, ← hfold, baudLength, ← timesIn]
  cases (gaps (timesIn iv h.events)).foldlM commonDivisor (.whole 0) <;>
    simp [bind, Except.bind, pure, Except.pure]

/-- Two events a microsecond apart, and one that is further away than a number can say in
nanoseconds. -/
example : (ofEvents [⟨0, .deg0⟩, ⟨1e-6, .deg180⟩, ⟨1e302, .deg0⟩]).baudLength
    ⟨0, 1e302, by decide +kernel⟩ = .error ⟨⟩ := by
  decide +kernel

theorem neighbours_eq_nil_iff {α : Type} (l : List α) : neighbours l = [] ↔ l.length < 2 := by
  rcases l with _ | ⟨a, _ | ⟨b, l⟩⟩ <;> simp [neighbours]

theorem baudLength_eq_none_iff
    (hfinite : ∀ p ∈ neighbours (timesIn iv h.events), (nanoseconds p).isFinite) :
    h.baudLength iv = .ok none ↔ (timesIn iv h.events).length < 2 ∨
      ∀ p ∈ neighbours (timesIn iv h.events), Number.round (nanoseconds p) = 0 := by
  have hnone : (timesIn iv h.events).length < 2 →
      ∀ p ∈ neighbours (timesIn iv h.events), Number.round (nanoseconds p) = 0 := by
    intro hshort
    rw [(neighbours_eq_nil_iff _).2 hshort]
    simp
  rw [baudLength_of_finite hfinite, or_iff_right_of_imp hnone]
  simp only [Except.ok.injEq, ite_eq_left_iff, reduceCtorEq, imp_false, not_not,
    foldl_gcd_eq_zero_iff, wholeGaps, List.forall_mem_map, Int.natAbs_eq_zero]

theorem mem_commonDivisors {d : ℕ} : d ∈ commonDivisors times ↔ ∀ g ∈ wholeGaps times, d ∣ g := by
  rw [wholeGaps, List.forall_mem_map]
  exact forall₂_congr fun p _ => Int.natCast_dvd

theorem isGreatest_of_baudLength
    (hfinite : ∀ p ∈ neighbours (timesIn iv h.events), (nanoseconds p).isFinite)
    {baud : Float} (hbaud : h.baudLength iv = .ok (some baud)) :
    ∃ g, IsGreatest (commonDivisors (timesIn iv h.events)) g ∧ baud = Number.ofInt g / 1e9 := by
  rw [baudLength_of_finite hfinite, Except.ok.injEq] at hbaud
  split_ifs at hbaud with hzero
  have hdvd := fun d => dvd_foldl_gcd d (wholeGaps (timesIn iv h.events)) 0
  refine ⟨_, ⟨?_, fun d hd => ?_⟩, (Option.some_inj.1 hbaud).symm⟩
  · exact mem_commonDivisors.2 ((hdvd _).1 dvd_rfl).2
  · exact Nat.le_of_dvd (Nat.pos_of_ne_zero hzero)
      ((hdvd d).2 ⟨dvd_zero d, mem_commonDivisors.1 hd⟩)

end Gaps

section Times

theorem between_congr (ha : (a == a') = true) (hb : (b == b') = true) :
    Gap.between a b = Gap.between a' b' := by
  obtain ⟨s, m, e, hm, hns⟩ := nanosecond_finite
  have hsub : Number.Alike (b - a).toModel.unpack (b' - a').toModel.unpack :=
    ((Number.alike_of_beq hb).sub (Number.alike_of_beq ha)).unpack_pack
  have hgap : Number.Alike ((b - a) / 1e-9).toModel.unpack ((b' - a') / 1e-9).toModel.unpack := by
    have hdiv := (hsub.div_finite s e hm).unpack_pack
    rwa [← hns] at hdiv
  unfold Gap.between
  simp only [hgap.isFinite_eq, hgap.isNaN_eq]
  split_ifs with hfinite
  · rw [hgap.round_eq (by rwa [hgap.isFinite_eq])]
  · rfl
  · rfl

theorem gaps_congr (h : List.Forall₂ (fun t t' => (t == t') = true) times times') :
    gaps times = gaps times' := by
  induction h with
  | nil => rfl
  | cons ht hrest ih =>
    cases hrest with
    | nil => rfl
    | cons hu _ => rw [gaps, gaps, between_congr ht hu, ih]

def key (t : Float) : ℤ ×ₗ ℤ ×ₗ ℤ := (Number.rank t).getD (toLex (0, toLex (0, 0)))

theorem le_iff_key (ha : a ≤ a) (hb : b ≤ b) : a ≤ b ↔ key a ≤ key b := by
  obtain ⟨x, hx, -⟩ := Number.le_iff_rank.1 ha
  obtain ⟨y, hy, -⟩ := Number.le_iff_rank.1 hb
  rw [Option.mem_def] at hx hy
  rw [Number.le_iff_rank, key, key, hx, hy]
  simp

theorem forall₂_of_map_key (hp : ∀ t ∈ times, t ≤ t) (hp' : ∀ t ∈ times', t ≤ t)
    (hkeys : times.map key = times'.map key) :
    List.Forall₂ (fun t t' => (t == t') = true) times times' := by
  induction times generalizing times' with
  | nil => rw [List.map_eq_nil_iff.1 hkeys.symm]; exact .nil
  | cons t times ih =>
    obtain ⟨t', times', rfl, ht, hrest⟩ := List.map_eq_cons_iff.1 hkeys.symm
    obtain ⟨hpt, hp⟩ := List.forall_mem_cons.1 hp
    obtain ⟨hpt', hp'⟩ := List.forall_mem_cons.1 hp'
    refine .cons (Number.beq_iff_le.2 ⟨?_, ?_⟩) (ih hp hp' hrest.symm)
    · exact (le_iff_key hpt hpt').2 ht.ge
    · exact (le_iff_key hpt' hpt).2 ht.le

theorem forall₂_of_perm (hp : ∀ t ∈ times, t ≤ t) (hs : times.Pairwise (· ≤ ·))
    (hs' : times'.Pairwise (· ≤ ·))
    (hperm : times.Perm times') : List.Forall₂ (fun t t' => (t == t') = true) times times' := by
  have hp' : ∀ t ∈ times', t ≤ t := fun t ht => hp t (hperm.mem_iff.2 ht)
  have hsorted : (times.map key).Pairwise (· ≤ ·) :=
    List.pairwise_map.2 (hs.imp_of_mem fun ha hb hab => (le_iff_key (hp _ ha) (hp _ hb)).1 hab)
  have hsorted' : (times'.map key).Pairwise (· ≤ ·) :=
    List.pairwise_map.2 (hs'.imp_of_mem fun ha hb hab => (le_iff_key (hp' _ ha) (hp' _ hb)).1 hab)
  exact forall₂_of_map_key hp hp' ((hperm.map key).eq_of_pairwise' hsorted hsorted')

theorem timesIn_sorted (hs : h.events.Pairwise fun e e' => e.time ≤ e'.time) (iv : Interval) :
    (timesIn iv h.events).Pairwise (· ≤ ·) :=
  (List.pairwise_map.2 hs).filter _

theorem baudLength_congr {events events' : List (Timed Phase)} (hp : ∀ e ∈ events, e.time ≤ e.time)
    (hp' : ∀ e ∈ events', e.time ≤ e.time) (hperm : (timesIn iv events).Perm (timesIn iv events')) :
    (ofEvents events).baudLength iv = (ofEvents events').baudLength iv := by
  have hs := stablySorted_ofEvents hp
  have hs' := stablySorted_ofEvents hp'
  have hkept : (timesIn iv (ofEvents events).events).Perm (timesIn iv (ofEvents events').events) :=
    ((hs.perm.map _).filter _).trans (hperm.trans ((hs'.perm.map _).filter _).symm)
  have hproper : ∀ t ∈ timesIn iv (ofEvents events).events, t ≤ t := fun t ht =>
    Number.le_self_of_le_right (mem_timesIn ht).1
  have hsame :=
    forall₂_of_perm hproper (timesIn_sorted hs.sorted iv) (timesIn_sorted hs'.sorted iv) hkept
  rw [baudLength, baudLength, ← timesIn, ← timesIn, gaps_congr hsame]

end Times

/-- With finite gaps between the events in an interval there is a time unit unless fewer than two
are there or all gaps are zero nanoseconds, and it is the greatest whole number of nanoseconds that
divides all of them; the division that finds it ends. If no event is set at `NaN`, events with the
same times in the interval have the same unit, in whatever order they are set. -/
theorem baudLength_of_events {events : List (Timed Phase)}
    (hfinite : ∀ p ∈ neighbours (timesIn iv (ofEvents events).events), (nanoseconds p).isFinite) :
    (∃ baud, (ofEvents events).baudLength iv = .ok baud) ∧
      ((ofEvents events).baudLength iv = .ok none ↔
        (timesIn iv (ofEvents events).events).length < 2 ∨
        ∀ p ∈ neighbours (timesIn iv (ofEvents events).events), Number.round (nanoseconds p) = 0) ∧
      (∀ baud, (ofEvents events).baudLength iv = .ok (some baud) →
        ∃ g, IsGreatest (commonDivisors (timesIn iv (ofEvents events).events)) g ∧
          baud = Number.ofInt g / 1e9) ∧
      (∀ x y : ℕ, ∃ n ≤ y, ∃ g, divided^[n] (.whole x, .whole y) = (g, .whole 0) ∧
        commonDivisor (.whole x) (.whole y) = .ok g) ∧
      (∀ x y, commonDivisor x y = .error ⟨⟩ ↔ ∀ n, (divided^[n] (x, y)).2 ≠ .whole 0) ∧
      ((∀ e ∈ events, e.time.isNaN = false) → ∀ events' : List (Timed Phase),
        (∀ e ∈ events', e.time.isNaN = false) → (timesIn iv events).Perm (timesIn iv events') →
        (ofEvents events).baudLength iv = (ofEvents events').baudLength iv) := by
  refine ⟨⟨_, baudLength_of_finite hfinite⟩, baudLength_eq_none_iff hfinite,
    fun baud => isGreatest_of_baudLength hfinite, fun x y => ?_, commonDivisor_endless_iff,
    fun hp events' hp' => baudLength_congr ?_ ?_⟩
  · obtain ⟨n, hn, hdivided⟩ := exists_divided x y
    exact ⟨n, hn, _, hdivided, commonDivisor_whole x y⟩
  · exact fun e he => Number.le_self_of_isNaN (hp e he)
  · exact fun e he => Number.le_self_of_isNaN (hp' e he)

/-- A code with units of 10 and 15 microseconds, set in no order of time. -/
def unorderedCode : List (Timed Phase) := [⟨25e-6, .deg0⟩, ⟨0, .deg0⟩, ⟨10e-6, .deg180⟩]

/-- A code with the same times in order, and an event after them. -/
def orderedCode : List (Timed Phase) := [⟨0, .deg180⟩, ⟨10e-6, .deg0⟩, ⟨25e-6, .deg180⟩, ⟨2, .deg0⟩]

def firstSecond : Interval := ⟨0, 1, by decide⟩

theorem baudLength_of_unorderedCode :
    (∀ p ∈ neighbours (timesIn firstSecond (ofEvents unorderedCode).events),
      (nanoseconds p).isFinite) ∧
      (∃ g, IsGreatest (commonDivisors (timesIn firstSecond (ofEvents unorderedCode).events)) g ∧
        5e-6 = Number.ofInt g / 1e9) ∧
      (ofEvents unorderedCode).baudLength firstSecond = .ok (some 5e-6) ∧
      (ofEvents orderedCode).baudLength firstSecond = .ok (some 5e-6) := by
  have hfinite : ∀ p ∈ neighbours (timesIn firstSecond (ofEvents unorderedCode).events),
      (nanoseconds p).isFinite := by decide +kernel
  obtain ⟨-, -, hsome, -, -, hsame⟩ := baudLength_of_events hfinite
  have hbaud : (ofEvents unorderedCode).baudLength firstSecond = .ok (some 5e-6) := by
    decide +kernel
  refine ⟨hfinite, hsome _ hbaud, hbaud, ?_⟩
  rw [← hsame (by decide +kernel) orderedCode (by decide +kernel) (by decide +kernel), hbaud]

/-- Three events less than a nanosecond apart, and one at `NaN` that keeps them from being put in
order. -/
def disturbedCode : List (Timed Phase) :=
  [⟨8e-10, .deg0⟩, ⟨Number.nan, .deg0⟩, ⟨0, .deg0⟩, ⟨4e-10, .deg0⟩]

theorem baudLength_of_disturbedCode :
    timesIn firstSecond disturbedCode =
      timesIn firstSecond (disturbedCode.filter fun e => !e.time.isNaN) ∧
      (ofEvents disturbedCode).baudLength firstSecond = .ok (some 1e-9) ∧
      (ofEvents (disturbedCode.filter fun e => !e.time.isNaN)).baudLength firstSecond =
        .ok none := by
  decide +kernel

end RadarTimeline.PhaseHistory
