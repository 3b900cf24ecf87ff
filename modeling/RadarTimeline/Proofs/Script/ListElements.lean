import RadarTimeline.Proofs.Script.Groups
import RadarTimeline.Proofs.Script.ListWords

namespace RadarTimeline.Script

def inBraces (x : String) : String := "\x7b" ++ x ++ "\x7d"

/-- A text that a list text has to put between braces. The empty text is written as braces alone. -/
def Braced (x : String) : Prop := x ≠ "" ∧ elementText x = inBraces x

/-- Between braces, the last one closes the first. -/
def BraceSafe (x : String) : Prop :=
  closeIndex? braceGroup? (inBraces x) 0 = some (Text.unitLength (inBraces x).toList - 1)

instance : DecidablePred Braced :=
  fun x => inferInstanceAs (Decidable (x ≠ "" ∧ elementText x = inBraces x))

instance : DecidablePred BraceSafe := fun x => inferInstanceAs (Decidable
  (closeIndex? braceGroup? (inBraces x) 0 = some (Text.unitLength (inBraces x).toList - 1)))

variable {x : String} {xs ys : List String} {cs rest : List Char} {c : Char}

theorem toList_inBraces (x : String) : (inBraces x).toList = '{' :: (x.toList ++ ['}']) := by
  simp [inBraces]

theorem braceSafe_iff : BraceSafe x ↔
    braceGroup? ('{' :: (x.toList ++ ['}'])) = some ('{' :: (x.toList ++ ['}']), []) := by
  have htext : (inBraces x).toList = [] ++ ('{' :: (x.toList ++ ['}']) ++ []) := by
    rw [toList_inBraces, List.nil_append, List.append_nil]
  have h := @closeIndex?_eq_iff braceGroup? closeBrace?_append closeBrace?_ne_nil _ _ _ _ htext
    (List.cons_ne_nil _ _)
  rw [List.nil_append, List.append_nil] at h
  rw [BraceSafe, toList_inBraces]
  exact h

theorem BraceSafe.group (h : BraceSafe x) (rest : List Char) :
    braceGroup? ('{' :: (x.toList ++ '}' :: rest)) = some ('{' :: (x.toList ++ ['}']), rest) := by
  have hmore := Expr.closeBrace?_append_right (braceSafe_iff.1 h) rest
  rw [List.cons_append, List.append_assoc] at hmore
  exact hmore

theorem not_braced_of_bare (h : elementText x = x) : ¬Braced x := by
  rintro ⟨-, hbraced⟩
  have hlength := congrArg (fun s : String => s.toList.length) (h.symm.trans hbraced)
  simp only [toList_inBraces, List.length_cons, List.length_append, List.length_nil] at hlength
  omega

theorem inside_inBraces (cs : List Char) : inside ('{' :: (cs ++ ['}'])) = cs := by
  simp [inside]

theorem braceSafe_of_inside {group : List Char} (h : braceGroup? ('{' :: cs) = some (group, rest))
    (hinside : inside group = x.toList) : BraceSafe x := by
  have hself : braceGroup? group = some (group, []) := closeBrace?_self h
  have hlast : group.getLast? = some '}' := closeBrace?_getLast h
  obtain ⟨c, inner, rfl⟩ := List.exists_cons_of_ne_nil (closeBrace?_ne_nil h)
  obtain ⟨rfl, -⟩ := List.cons.inj (closeBrace?_append h)
  have hne : inner ≠ [] := by
    rintro rfl
    exact absurd hlast (by decide)
  have hclose : inner.getLast hne = '}' := by
    rw [List.getLast?_cons_of_ne_nil hne, List.getLast?_eq_some_getLast hne] at hlast
    exact Option.some.inj hlast
  have hinner : inner = x.toList ++ ['}'] := by
    rw [← hinside, ← hclose]
    exact (List.dropLast_append_getLast hne).symm
  rw [braceSafe_iff, ← hinner]
  exact hself

theorem braceSafe_empty : BraceSafe "" := by decide

theorem upToBlank_cons (h : c ≠ '\\') (cs : List Char) :
    upToBlank (c :: cs) = if Text.isBlank c then ([], c :: cs) else cover [c] (upToBlank cs) := by
  rw [upToBlank.eq_def]
  split
  · next heq => cases heq
  · next heq => exact absurd (List.cons.inj heq).1 h
  · next heq =>
    obtain ⟨rfl, rfl⟩ := List.cons.inj heq
    rfl

theorem upToBlank_plain (h : Plain cs) (hrest : Apart rest) :
    upToBlank (cs ++ rest) = (cs, rest) := by
  induction cs with
  | nil =>
    cases rest with
    | nil => rfl
    | cons c rest =>
      have hgap := hrest c rfl
      have hescape : c ≠ '\\' := by
        rintro rfl
        exact absurd hgap (by decide)
      rw [List.nil_append, upToBlank_cons hescape, if_pos (isBlank_of_isGap hgap)]
  | cons c cs ih =>
    obtain ⟨hc, hcs⟩ := plain_cons.1 h
    obtain ⟨-, -, -, hescape, -⟩ := ne_of_plain hc
    obtain ⟨hblank, -⟩ : Text.isBlank c = false ∧ _ := Bool.or_eq_false_iff.1 hc
    rw [List.cons_append, upToBlank_cons hescape, if_neg (by simp [hblank]), ih hcs]
    rfl

theorem elements_space (cs : List Char) : elements (' ' :: cs) = elements cs := by
  rw [elements.eq_def]
  exact dif_pos (by decide)

theorem listElements_listText (xs : List String) :
    listElements (listText xs) = elements (gapped xs) := by
  cases xs with
  | nil => rfl
  | cons x xs => rw [listElements, toList_listText_cons, gapped_cons, elements_space]

theorem elements_plain (h : Plain (c :: cs)) (hrest : Apart rest) :
    elements (c :: cs ++ rest) = (elements rest).map (String.ofList (c :: cs) :: ·) := by
  have hc := (plain_cons.1 h).1
  obtain ⟨-, -, -, -, -, hopen, -, hquote, -⟩ := ne_of_plain hc
  obtain ⟨hblank, -⟩ : Text.isBlank c = false ∧ _ := Bool.or_eq_false_iff.1 hc
  have hend := upToBlank_plain h hrest
  rw [List.cons_append] at hend ⊢
  rw [elements.eq_def]
  dsimp only
  rw [dif_neg (by simp [hblank]), if_neg hopen, if_neg hquote, hend]

theorem elements_brace (cs : List Char) : elements ('{' :: cs) =
    match braceGroup? ('{' :: cs) with
    | none => .error .openBrace
    | some (group, rest) => (elements rest).map (String.ofList (inside group) :: ·) := by
  rw [elements.eq_def]
  dsimp only
  rw [dif_neg (by decide), if_pos rfl]
  split <;> simp_all

theorem map_cons_eq_ok_iff {x y : String} {r : Except ListFault (List String)} :
    r.map (x :: ·) = .ok (y :: ys) ↔ x = y ∧ r = .ok ys := by
  rw [map_eq_ok_iff]
  constructor
  · rintro ⟨zs, hr, hcons⟩
    obtain ⟨rfl, rfl⟩ := List.cons.inj hcons
    exact ⟨rfl, hr⟩
  · rintro ⟨rfl, hr⟩
    exact ⟨ys, hr, rfl⟩

/-- An element comes back in front of the others exactly if it needs no braces, or they hold it. -/
theorem elements_gapped_cons : elements (gapped (x :: xs)) = .ok (x :: ys) ↔
    (Braced x → BraceSafe x) ∧ elements (gapped xs) = .ok ys := by
  rw [gapped_cons, elements_space]
  rcases elementText_cases x with ⟨c, cs, hchars, -, hplain, hbare⟩ | hbraces
  · have hnot : ¬Braced x := not_braced_of_bare hbare
    rw [hbare, hchars, elements_plain hplain (apart_gapped xs), ← hchars, String.ofList_toList,
      map_cons_eq_ok_iff]
    simp [hnot]
  · rw [hbraces, List.cons_append, List.append_assoc, List.singleton_append]
    have hsafe : (Braced x → BraceSafe x) ↔ BraceSafe x := by
      have htext : elementText x = inBraces x := by
        rw [← String.toList_inj, hbraces, toList_inBraces]
      refine ⟨fun h => ?_, fun h _ => h⟩
      rcases eq_or_ne x "" with rfl | hne
      · exact braceSafe_empty
      · exact h ⟨hne, htext⟩
    rw [hsafe]
    constructor
    · intro h
      rw [elements_brace] at h
      cases hgroup : braceGroup? ('{' :: (x.toList ++ '}' :: gapped xs)) with
      | none => simp [hgroup] at h
      | some split =>
        obtain ⟨group, rest⟩ := split
        simp only [hgroup, map_cons_eq_ok_iff] at h
        obtain ⟨hinside, hrest⟩ := h
        have hsafe : BraceSafe x :=
          braceSafe_of_inside hgroup (by rw [← hinside, String.toList_ofList])
        -- so the group is closed where it should be, and the rest is the rest of the list
        rw [hsafe.group] at hgroup
        obtain ⟨rfl, rfl⟩ := Prod.mk.inj (Option.some.inj hgroup)
        exact ⟨hsafe, hrest⟩
    · rintro ⟨hsafe, hrest⟩
      rw [elements_brace, hsafe.group]
      simp only [inside_inBraces, String.ofList_toList, map_cons_eq_ok_iff]
      exact ⟨trivial, hrest⟩

theorem elements_gapped_iff : elements (gapped xs) = .ok xs ↔ ∀ x ∈ xs, Braced x → BraceSafe x := by
  induction xs with
  | nil => simp [gapped, elements.eq_def]
  | cons x xs ih => rw [elements_gapped_cons, ih, List.forall_mem_cons]

/-- A list comes back from its text exactly if braces hold every element that stands between them.
Where an element needs none, the list comes back with it exactly if it comes back without it. -/
theorem listElements_listText_iff (xs : List String) :
    (listElements (listText xs) = .ok xs ↔ ∀ x ∈ xs, Braced x → BraceSafe x) ∧
      ∀ before x after, xs = before ++ x :: after → ¬ Braced x →
        (listElements (listText xs) = .ok xs ↔
          listElements (listText (before ++ after)) = .ok (before ++ after)) := by
  simp only [listElements_listText, elements_gapped_iff, true_and]
  rintro before x after rfl hbare
  simp only [List.forall_mem_append, List.forall_mem_cons, hbare, false_implies, true_and]

theorem listElements_listText_nested :
    listElements (listText ["a \x7bb c\x7d", "", "x[1]"]) = .ok ["a \x7bb c\x7d", "", "x[1]"] ∧
      ¬ Braced "plain" ∧ listElements (listText ["\x7d\x7b", "plain"]) ≠
        .ok ["\x7d\x7b", "plain"] := by
  have hbare : ¬ Braced "plain" := by decide
  have hunsafe : ¬ ∀ x ∈ ["\x7d\x7b"], Braced x → BraceSafe x := by decide
  refine ⟨(listElements_listText_iff _).1.2 (by decide), hbare, fun h => hunsafe ?_⟩
  exact (listElements_listText_iff _).1.1
    (((listElements_listText_iff _).2 ["\x7d\x7b"] _ [] rfl hbare).1 h)

end RadarTimeline.Script
