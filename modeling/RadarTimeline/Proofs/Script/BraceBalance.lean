import RadarTimeline.Proofs.Script.Groups
import RadarTimeline.Proofs.Script.ListWords
import Mathlib.Order.Bounds.Basic

namespace RadarTimeline.Text

theorem units_append (a b : List Char) : units (a ++ b) = units a ++ units b := List.flatMap_append

theorem length_units (cs : List Char) : (units cs).length = unitLength cs := by
  induction cs with
  | nil => rfl
  | cons c cs ih =>
    have hc : (charUnits c).length = unitCount c := by
      unfold charUnits unitCount
      dsimp only
      split <;> rfl
    rw [units, List.flatMap_cons, List.length_append, hc, unitLength_cons]
    exact congrArg _ ih

theorem charUnits_cases (c : Char) :
    charUnits c = [c.toNat] ∨ ∃ high low, charUnits c = [high, low] ∧ 0xD800 ≤ high ∧
    0xD800 ≤ low := by
  unfold charUnits
  dsimp only
  split
  · exact .inl rfl
  · exact .inr ⟨_, _, rfl, by omega, by omega⟩

end RadarTimeline.Text

namespace RadarTimeline.Script

section Same

/-- The indentation behind a joined line break holds no brace. -/
theorem closeBrace?_gaps (depth : ℤ) {gap : List Char} (h : ∀ c ∈ gap, isGap c = true)
    (cs : List Char) :
    closeBrace? depth (gap ++ cs) = (closeBrace? depth cs).map (cover gap) := by
  induction gap with
  | nil =>
    rw [List.nil_append]
    cases closeBrace? depth cs <;> rfl
  | cons c gap ih =>
    obtain ⟨hc, hgap⟩ := List.forall_mem_cons.1 h
    have hne : c ≠ '\\' ∧ c ≠ '{' ∧ c ≠ '}' := by
      refine ⟨?_, ?_, ?_⟩ <;>
      · rintro rfl
        exact absurd hc (by decide)
    rw [List.cons_append, closeBrace?, if_neg hne.2.1, if_neg hne.2.2, ih hgap]
    · cases closeBrace? depth cs <;> rfl
    · simp [hne.1]

/-- What the reader takes for the rest of a braced word is what the search takes for the rest of a
group. -/
theorem closeBrace?_eq_bracedBody (depth : ℕ) (cs : List Char) :
    closeBrace? (depth + 1) cs = (bracedBody depth cs).map fun t => (t.span, t.rest) := by
  have hcover : ∀ (pre text : List Char) (x : Option Taken),
      (x.map (Taken.cover pre text)).map (fun t => (t.span, t.rest)) =
        (x.map fun t => (t.span, t.rest)).map (cover pre) := by
    intro pre text x
    cases x <;> rfl
  fun_induction bracedBody depth cs with
  | case1 => rfl
  | case2 depth cs ih =>
    have hgaps := closeBrace?_gaps (depth + 1) (List.all_eq_true.1 (List.all_takeWhile (l := cs)))
      (cs.dropWhile isGap)
    rw [List.takeWhile_append_dropWhile] at hgaps
    rw [closeBrace?, hgaps, ih, hcover, Option.map_map]
    rfl
  | case3 depth c cs _ ih => rw [closeBrace?, ih, hcover]
  | case4 cs => simp [closeBrace?]
  | case5 cs depth _ _ ih =>
    have hinner : (depth : ℤ) + 1 ≠ 0 := by omega
    rw [hcover, ← ih]
    simp [closeBrace?, hinner]
  | case6 depth c cs _ hescape hclose ih =>
    simp only [dite_eq_ite] at ih
    rw [hcover, ← ih, closeBrace?, if_neg hclose]
    · split <;> push_cast <;> rfl
    · exact hescape

end Same

section Balance

def escaped (us : List ℕ) : Bool := (us.reverse.takeWhile (· == '\\'.toNat)).length % 2 == 1

/-- How often a character stands among units without being escaped. -/
def unescaped (c : Char) (us : List ℕ) : ℕ :=
  (List.range us.length).countP fun i => us[i]? == some c.toNat && !escaped (us.take i)

def balance (us : List ℕ) : ℤ := unescaped '{' us - unescaped '}' us

variable {pre us vs : List ℕ} {u : ℕ} {depth : ℤ}

theorem escaped_concat (us : List ℕ) (u : ℕ) :
    escaped (us ++ [u]) = (u == '\\'.toNat && !escaped us) := by
  unfold escaped
  rw [List.reverse_append, List.reverse_singleton, List.singleton_append, List.takeWhile_cons]
  generalize '\\'.toNat = backslash
  by_cases hu : u = backslash
  · simp only [hu, beq_self_eq_true, if_true, List.length_cons, Bool.true_and]
    grind
  · simp [hu]

theorem unescaped_concat (c : Char) (us : List ℕ) (u : ℕ) :
    unescaped c (us ++ [u]) = unescaped c us + if u = c.toNat ∧ escaped us = false then 1
    else 0 := by
  unfold unescaped
  rw [List.length_append, List.length_singleton, List.range_succ, List.countP_append]
  congr 1
  · refine List.countP_congr fun i hi => ?_
    have hlt := List.mem_range.1 hi
    rw [List.getElem?_append_left hlt, List.take_append_of_le_length hlt.le]
  · simp [List.countP_singleton]

theorem balance_concat (us : List ℕ) (u : ℕ) :
    balance (us ++ [u]) = balance us +
      if escaped us then 0 else if u = '{'.toNat then 1 else if u = '}'.toNat then -1 else 0 := by
  unfold balance
  rw [unescaped_concat, unescaped_concat]
  have hne : '{'.toNat ≠ '}'.toNat := by decide
  generalize '{'.toNat = opening at hne
  generalize '}'.toNat = closing at hne
  grind

/-- The depth that units lead to, with nothing escaped after them. -/
def At (us : List ℕ) (depth : ℤ) : Prop := balance us = depth ∧ escaped us = false

/-- Nowhere in a stretch are as many braces closed as opened, counted from what stands before it. -/
def Unbalanced (pre us : List ℕ) : Prop :=
  ∀ k, 0 < k → k ≤ us.length → balance (pre ++ us.take k) ≠ 0

theorem unbalanced_nil (pre : List ℕ) : Unbalanced pre [] := by
  intro k hpos hle
  exact absurd hle (by rw [List.length_nil]; omega)

theorem Unbalanced.append (h : Unbalanced pre us) (h' : Unbalanced (pre ++ us) vs) :
    Unbalanced pre (us ++ vs) := by
  intro k hpos hle
  rw [List.length_append] at hle
  rcases Nat.lt_or_ge us.length k with hlt | hge
  · have hrest := h' (k - us.length) (by omega) (by omega)
    rwa [List.append_assoc, ← List.take_length_add_append, Nat.add_sub_of_le hlt.le] at hrest
  · rw [List.take_append_of_le_length hge]
    exact h k hpos hge

theorem unbalanced_singleton (h : balance (pre ++ [u]) ≠ 0) : Unbalanced pre [u] := by
  intro k hpos hle
  obtain rfl : k = 1 := by
    rw [List.length_singleton] at hle
    omega
  exact h

/-- A stretch is passed without coming back to zero. -/
structure Passes (pre us : List ℕ) (depth : ℤ) : Prop where
  unbalanced : Unbalanced pre us
  reached : At (pre ++ us) depth

theorem Passes.append {depth' : ℤ} (h : Passes pre us depth) (h' : Passes (pre ++ us) vs depth') :
    Passes pre (us ++ vs) depth' :=
  ⟨h.unbalanced.append h'.unbalanced, by rw [← List.append_assoc]; exact h'.reached⟩

theorem passes_unit {depth' : ℤ} (h : At pre depth) (hu : u ≠ '\\'.toNat) (hne : depth' ≠ 0)
    (hdepth : depth' = depth + if u = '{'.toNat then 1 else if u = '}'.toNat then -1 else 0) :
    Passes pre [u] depth' := by
  have hbalance := balance_concat pre u
  rw [h.1, h.2, if_neg (by decide), ← hdepth] at hbalance
  refine ⟨unbalanced_singleton (hbalance.trans_ne hne), hbalance, ?_⟩
  rw [escaped_concat, beq_false_of_ne hu, Bool.false_and]

theorem passes_plain (h : At pre depth) (hdepth : 0 < depth) (hu : u ≠ '\\'.toNat)
    (hopen : u ≠ '{'.toNat)
    (hclose : u ≠ '}'.toNat) : Passes pre [u] depth :=
  passes_unit h hu hdepth.ne' (by rw [if_neg hopen, if_neg hclose, Int.add_zero])

theorem half_plain (hu : 0xD800 ≤ u) : u ≠ '\\'.toNat ∧ u ≠ '{'.toNat ∧ u ≠ '}'.toNat := by
  have hcodes : '\\'.toNat < 0xD800 ∧ '{'.toNat < 0xD800 ∧ '}'.toNat < 0xD800 := by decide
  omega

variable {c : Char}

theorem passes_char (h : At pre depth) (hdepth : 0 < depth) (hc : c ≠ '\\')
    (hopen : c ≠ '{') (hclose : c ≠ '}') :
    Passes pre (Text.charUnits c) depth := by
  obtain hunits | ⟨high, low, hunits, hhigh, hlow⟩ := Text.charUnits_cases c
  · rw [hunits]
    exact passes_plain h hdepth (fun h => hc (Char.toNat_inj.1 h)) (fun h =>
      hopen (Char.toNat_inj.1 h))
      (fun h => hclose (Char.toNat_inj.1 h))
  · obtain ⟨hh, hh', hh''⟩ := half_plain hhigh
    obtain ⟨hl, hl', hl''⟩ := half_plain hlow
    have hfirst := passes_plain h hdepth hh hh' hh''
    rw [hunits]
    exact hfirst.append (passes_plain hfirst.reached hdepth hl hl' hl'')

/-- A backslash counts for nothing, and neither does the unit after it. -/
theorem passes_escape (h : At pre depth) (hdepth : 0 < depth) (u : ℕ) :
    Passes pre ['\\'.toNat, u] depth := by
  have hbackslash : balance (pre ++ ['\\'.toNat]) = depth := by
    rw [balance_concat, h.1, h.2]
    exact Int.add_zero depth
  have hescaped : escaped (pre ++ ['\\'.toNat]) = true := by
    rw [escaped_concat, h.2]
    rfl
  have hnext : At (pre ++ ['\\'.toNat] ++ [u]) depth := by
    refine ⟨?_, ?_⟩
    · rw [balance_concat, hbackslash, hescaped, if_pos rfl, Int.add_zero]
    · rw [escaped_concat, hescaped, Bool.not_true, Bool.and_false]
  have hpasses : Unbalanced pre (['\\'.toNat] ++ [u]) :=
    (unbalanced_singleton (hbackslash.trans_ne hdepth.ne')).append
      (unbalanced_singleton (hnext.1.trans_ne hdepth.ne'))
  exact ⟨hpasses, by rw [List.append_assoc] at hnext; exact hnext⟩

theorem passes_escapedChar (h : At pre depth) (hdepth : 0 < depth) (c : Char) :
    Passes pre ('\\'.toNat :: Text.charUnits c) depth := by
  obtain hunits | ⟨high, low, hunits, -, hlow⟩ := Text.charUnits_cases c
  · rw [hunits]
    exact passes_escape h hdepth _
  · obtain ⟨hl, hl', hl''⟩ := half_plain hlow
    have hfirst := passes_escape h hdepth high
    rw [hunits]
    exact hfirst.append (passes_plain hfirst.reached hdepth hl hl' hl'')

/-- What is found of a group from inside of it: it ends where the count is back at zero, or there is
no such place. -/
def Closed (pre : List ℕ) (cs : List Char) : Option (List Char × List Char) → Prop
  | none => Unbalanced pre (Text.units cs)
  | some (span, _) => balance (pre ++ Text.units span) = 0 ∧
      ∃ inner u, Text.units span = inner ++ [u] ∧ Unbalanced pre inner

theorem Closed.cover {a cs : List Char} {found : Option (List Char × List Char)}
    (h : Unbalanced pre (Text.units a)) (hfound : Closed (pre ++ Text.units a) cs found) :
    Closed pre (a ++ cs) (found.map (Script.cover a)) := by
  rcases found with _ | ⟨span, rest⟩
  · change Unbalanced pre (Text.units (a ++ cs))
    rw [Text.units_append]
    exact h.append hfound
  · obtain ⟨hzero, inner, u, hspan, hinner⟩ := hfound
    change balance (pre ++ Text.units (a ++ span)) = 0 ∧ _
    rw [Text.units_append]
    refine ⟨by rwa [← List.append_assoc], Text.units a ++ inner, u, ?_, h.append hinner⟩
    rw [hspan, List.append_assoc]

/-- The search for the end of a group stops as soon as the count is back at zero. -/
theorem closed_closeBrace? (h : At pre depth) (hdepth : 0 < depth) (cs : List Char) :
    Closed pre cs (closeBrace? depth cs) := by
  fun_induction closeBrace? depth cs generalizing pre with
  | case1 => exact unbalanced_nil pre
  | case2 depth c cs ih =>
    have hpasses := passes_escapedChar h hdepth c
    have hunits : Text.units ['\\', c] = '\\'.toNat :: Text.charUnits c := by
      rw [Text.units, List.flatMap_cons, List.flatMap_singleton]
      rfl
    rw [← hunits] at hpasses
    exact (ih hpasses.reached hdepth).cover hpasses.unbalanced
  | case3 depth cs _ ih =>
    have hpasses : Passes pre (Text.units ['{']) (depth + 1) :=
      passes_unit h (by decide) (by omega) rfl
    exact (ih hpasses.reached (by omega)).cover hpasses.unbalanced
  | case4 depth cs hzero =>
    refine ⟨?_, [], '}'.toNat, rfl, unbalanced_nil pre⟩
    change balance (pre ++ ['}'.toNat]) = 0
    rw [balance_concat, h.1, h.2]
    exact hzero
  | case5 depth cs hne _ _ ih =>
    have hpasses : Passes pre (Text.units ['}']) (depth - 1) := passes_unit h (by decide) hne rfl
    exact (ih hpasses.reached (by omega)).cover hpasses.unbalanced
  | case6 depth c cs hescape hopen hclose ih =>
    by_cases hc : c = '\\'
    · -- a backslash at the end of the text escapes nothing
      have hend : cs = [] := by
        cases cs with
        | nil => rfl
        | cons d ds => exact (hescape d ds hc rfl).elim
      subst hc hend
      refine unbalanced_singleton ?_
      rw [balance_concat, h.1, h.2]
      exact (Int.add_zero depth).trans_ne hdepth.ne'
    · have hpasses := passes_char h hdepth hc hopen hclose
      rw [← List.flatMap_singleton (f := Text.charUnits)] at hpasses
      exact (ih hpasses.reached hdepth).cover hpasses.unbalanced

end Balance

section Index

variable {before body cs span rest : List Char} {i : ℕ}

/-- From an index on the braces are in balance up to another one. -/
def Returns (us : List ℕ) (start i : ℕ) : Prop :=
  start ≤ i ∧ i < us.length ∧ balance ((us.drop start).take (i + 1 - start)) = 0

theorem closed_braceGroup? (body : List Char) :
    Closed [] ('{' :: body) (braceGroup? ('{' :: body)) := by
  have hopen : Passes [] (Text.units ['{']) 1 := passes_unit ⟨rfl, rfl⟩ (by decide) (by decide) rfl
  have hbody := closed_closeBrace? hopen.reached (by decide) body
  exact hbody.cover hopen.unbalanced

theorem returns_iff : Returns (Text.units (before ++ cs)) (Text.unitLength before) i ↔
    ∃ k, i = Text.unitLength before + k ∧ k < (Text.units cs).length ∧
    balance ((Text.units cs).take (k + 1)) = 0 := by
  have hdrop : (Text.units (before ++ cs)).drop (Text.unitLength before) = Text.units cs := by
    rw [Text.units_append, ← Text.length_units, List.drop_left]
  have hlength : (Text.units (before ++ cs)).length =
    Text.unitLength before + (Text.units cs).length := by
    rw [Text.units_append, List.length_append, Text.length_units before]
  rw [Returns, hdrop, hlength]
  constructor
  · rintro ⟨hle, hlt, hzero⟩
    refine ⟨i - Text.unitLength before, by omega, by omega, ?_⟩
    rwa [← Nat.sub_add_comm hle]
  · rintro ⟨k, rfl, hlt, hzero⟩
    refine ⟨by omega, by omega, ?_⟩
    rwa [show Text.unitLength before + k + 1 - Text.unitLength before = k + 1 by omega]

theorem not_returns (h : Closed [] cs none) :
    ¬ Returns (Text.units (before ++ cs)) (Text.unitLength before) i := by
  rw [returns_iff]
  rintro ⟨k, -, hlt, hzero⟩
  exact h (k + 1) (by omega) (by omega) hzero

theorem isLeast_returns (before : List Char) (h : Closed [] cs (some (span, rest)))
    (happend : span ++ rest = cs) :
    IsLeast {i | Returns (Text.units (before ++ cs)) (Text.unitLength before) i}
      (Text.unitLength before + Text.unitLength span - 1) := by
  obtain ⟨hzero, inner, u, hspan, hinner⟩ := h
  have hlength : (Text.units span).length = inner.length + 1 := by
    rw [hspan, List.length_append, List.length_singleton]
  have hunits : Text.units cs = Text.units span ++ Text.units rest := by
    rw [← happend, Text.units_append]
  rw [← Text.length_units span, hlength]
  constructor
  · refine returns_iff.2 ⟨inner.length, by omega, ?_, ?_⟩
    · rw [hunits, List.length_append]
      omega
    · rwa [hunits, ← hlength, List.take_left]
  · rintro j hj
    obtain ⟨k, rfl, hlt, hback⟩ := returns_iff.1 hj
    by_contra hless
    refine hinner (k + 1) (by omega) (by omega) ?_
    rwa [hunits, hspan, List.append_assoc, List.take_append_of_le_length (by omega)] at hback

theorem closeIndex?_braceGroup? (before cs : List Char) :
    closeIndex? braceGroup? (String.ofList (before ++ cs)) (Text.unitLength before) =
      (braceGroup? cs).map fun found => Text.unitLength before + Text.unitLength found.1 - 1 := by
  have hstart : Position.floorIndex? (Text.unitLength before) = some (Text.unitLength before) := rfl
  rw [closeIndex?, hstart, String.toList_ofList, Option.bind_eq_bind, Option.bind_some,
    Text.dropUnits_append]
  dsimp only
  cases braceGroup? cs <;> rfl

theorem readWord_braceGroup? (body : List Char) :
    match braceGroup? ('{' :: body) with
    | none => readWord ('{' :: body) = .error (.missing .brace)
    | some (span, rest) => ∃ text, readWord ('{' :: body) = .ok (.braced, ⟨span, text, rest⟩) := by
  have hgroup : braceGroup? ('{' :: body) = (closeBrace? 1 body).map (cover ['{']) := rfl
  have hbody : closeBrace? 1 body = _ := closeBrace?_eq_bracedBody 0 body
  rw [hgroup, hbody, readWord]
  cases bracedBody 0 body with
  | none => rfl
  | some t => exact ⟨t.text, rfl⟩

/-- A word that starts with an opening brace, wherever it stands in a text, has its closing brace
where the search for the end of a group finds it, or it has none and the search finds none. That is
where for the first time as many braces have been closed as opened, not counting those that a
backslash escapes. -/
theorem bracedWord_closed (before body : List Char) :
    let text := String.ofList (before ++ '{' :: body)
    let start := Text.unitLength before
    (readWord ('{' :: body) = .error (.missing .brace) ↔
      closeIndex? braceGroup? text start = none) ∧
      (∀ kind t, readWord ('{' :: body) = .ok (kind, t) →
        closeIndex? braceGroup? text start = some (start + Text.unitLength t.span - 1)) ∧
      ∀ i, closeIndex? braceGroup? text start = some i ↔
        IsLeast {i | Returns (Text.units text.toList) start i} i := by
  intro text start
  have hindex : closeIndex? braceGroup? text start = _ :=
    closeIndex?_braceGroup? before ('{' :: body)
  have hread := readWord_braceGroup? body
  have hclosed := closed_braceGroup? body
  have htext : text.toList = before ++ '{' :: body := String.toList_ofList
  rw [hindex, htext]
  cases hgroup : braceGroup? ('{' :: body) with
  | none =>
    rw [hgroup] at hread hclosed
    refine ⟨by simp [hread], fun kind t h => ?_, fun i => ⟨fun h => ?_, fun h => ?_⟩⟩
    · cases hread.symm.trans h
    · cases h
    · exact (not_returns hclosed h.1).elim
  | some found =>
    obtain ⟨span, rest⟩ := found
    rw [hgroup] at hread hclosed
    obtain ⟨source, hread⟩ := hread
    have hleast := isLeast_returns before hclosed (braceGroup?_append hgroup)
    refine ⟨by simp [hread], fun kind t h => ?_, fun i => ⟨fun h => ?_, fun h => ?_⟩⟩
    · cases hread.symm.trans h
      rfl
    · cases h
      exact hleast
    · exact congrArg some (hleast.unique h)

end Index

end RadarTimeline.Script
