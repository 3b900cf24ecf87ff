import RadarTimeline.Proofs.Expr.Scanning

namespace RadarTimeline.Text

variable {a b : List Char}

theorem unitCount_pos (c : Char) : 0 < unitCount c := by
  unfold unitCount
  split <;> decide

theorem foldl_unitCount (n : Nat) (cs : List Char) :
    cs.foldl (fun n c => n + unitCount c) n = n + unitLength cs := by
  induction cs generalizing n with
  | nil => rfl
  | cons c cs ih =>
    rw [unitLength, List.foldl_cons, List.foldl_cons, ih, ih, Nat.zero_add, Nat.add_assoc]

theorem unitLength_cons (c : Char) (cs : List Char) :
    unitLength (c :: cs) = unitCount c + unitLength cs := by
  rw [unitLength, List.foldl_cons, foldl_unitCount, Nat.zero_add]

theorem unitLength_append (a b : List Char) :
    unitLength (a ++ b) = unitLength a + unitLength b := by
  rw [unitLength, List.foldl_append, foldl_unitCount, foldl_unitCount, Nat.zero_add]

theorem unitLength_pos (h : a ≠ []) : 0 < unitLength a := by
  obtain ⟨c, cs, rfl⟩ := List.exists_cons_of_ne_nil h
  rw [unitLength_cons]
  exact Nat.add_pos_left (unitCount_pos c) _

theorem eq_of_unitLength_eq {a' b' : List Char} (happend : a ++ b = a' ++ b')
    (h : unitLength a = unitLength a') : a = a' ∧ b = b' := by
  have hmore : ∀ c : List Char, unitLength (a ++ c) = unitLength a → c = [] := by
    intro c hc
    by_contra hne
    have := unitLength_pos hne
    rw [unitLength_append] at hc
    omega
  obtain ⟨c, rfl, rfl⟩ | ⟨c, rfl, rfl⟩ := List.append_eq_append_iff.1 happend
  · obtain rfl := hmore c h.symm
    simp
  · rw [unitLength_append] at h
    have hc : c = [] := by
      by_contra hne
      have := unitLength_pos hne
      omega
    subst hc
    simp

theorem dropUnits_append (a b : List Char) : dropUnits (unitLength a) (a ++ b) = (b, 0) := by
  induction a with
  | nil => exact dropUnits.eq_1 b
  | cons c a ih =>
    obtain ⟨n, hn⟩ : ∃ n, unitLength (c :: a) = n + 1 :=
      Nat.exists_eq_add_one.2 (unitLength_pos (List.cons_ne_nil c a))
    have hcons := unitLength_cons c a
    have hpos := unitCount_pos c
    rw [hn, List.cons_append, dropUnits, if_neg, show n + 1 - unitCount c =
      unitLength a by omega, ih]
    simp only [Bool.and_eq_true, decide_eq_true_eq]
    omega

end RadarTimeline.Text

namespace RadarTimeline.Script

variable {cs : List Char} {depth : Int} {split : List Char × List Char}

/-- A brace group is closed where it ends, and not before. -/
theorem closeBrace?_self (h : closeBrace? depth cs = some split) :
    closeBrace? depth split.1 = some (split.1, []) := by
  fun_induction closeBrace? depth cs generalizing split with
  | case1 => cases h
  | case2 depth c cs ih =>
    obtain ⟨split, hsplit, rfl⟩ := Option.map_eq_some_iff.1 h
    simp [closeBrace?, ih hsplit, cover]
  | case3 depth cs _ ih =>
    obtain ⟨split, hsplit, rfl⟩ := Option.map_eq_some_iff.1 h
    simp [closeBrace?, ih hsplit, cover]
  | case4 depth cs hdepth =>
    cases h
    simp [closeBrace?, hdepth]
  | case5 depth cs hdepth _ _ ih =>
    obtain ⟨split, hsplit, rfl⟩ := Option.map_eq_some_iff.1 h
    simp [closeBrace?, hdepth, ih hsplit, cover]
  | case6 depth c cs hescape hopen hclose ih =>
    obtain ⟨split, hsplit, rfl⟩ := Option.map_eq_some_iff.1 h
    have hne := Expr.ne_backslash hescape rfl hsplit
    simp [closeBrace?, hne, hopen, hclose, ih hsplit, cover]

theorem closeBrace?_getLast (h : closeBrace? depth cs = some split) :
    split.1.getLast? = some '}' := by
  fun_induction closeBrace? depth cs generalizing split with
  | case1 => cases h
  | case4 =>
    cases h
    rfl
  | case2 _ _ _ ih | case3 _ _ _ ih | case5 _ _ _ _ _ ih | case6 _ _ _ _ _ _ ih =>
    obtain ⟨split, hsplit, rfl⟩ := Option.map_eq_some_iff.1 h
    simp [cover, List.getLast?_cons, ih hsplit]

variable {search : List Char → Option (List Char × List Char)}

/-- A group that opens after `before` is closed by the last character of a span exactly if the
search for its end splits the text after the span. -/
theorem closeIndex?_eq_iff
    (happend : ∀ {cs split}, search cs = some split → split.1 ++ split.2 = cs)
    (hne : ∀ {cs split}, search cs = some split → split.1 ≠ []) {text : String}
    {before span rest : List Char}
    (htext : text.toList = before ++ (span ++ rest)) (hspan : span ≠ []) :
    closeIndex? search text (Text.unitLength before) = some (Text.unitLength (before ++ span) - 1) ↔
      search (span ++ rest) = some (span, rest) := by
  have hindex : closeIndex? search text (Text.unitLength before) =
      (search (span ++ rest)).map fun split => Text.unitLength before +
        Text.unitLength split.1 - 1 := by
    have hstart : Position.floorIndex? (Text.unitLength before) = some (Text.unitLength before) :=
      rfl
    rw [closeIndex?, hstart, htext, Option.bind_eq_bind, Option.bind_some, Text.dropUnits_append]
    dsimp only
    cases search (span ++ rest) <;> rfl
  rw [hindex, Option.map_eq_some_iff]
  constructor
  · rintro ⟨⟨group, more⟩, hsearch, h⟩
    have hgroup := Text.unitLength_pos (hne hsearch)
    have hspan := Text.unitLength_pos hspan
    rw [Text.unitLength_append] at h
    obtain ⟨rfl, rfl⟩ :=
      Text.eq_of_unitLength_eq (happend hsearch) (by dsimp only at h hgroup ⊢; omega)
    exact hsearch
  · intro hsearch
    exact ⟨(span, rest), hsearch, by rw [Text.unitLength_append]⟩

end RadarTimeline.Script
