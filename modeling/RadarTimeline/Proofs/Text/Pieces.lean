import RadarTimeline.Text.Blank
import Mathlib.Data.List.Basic

namespace RadarTimeline.Text

/-- The pieces between separators that are not empty. -/
def pieces (isSep : Char → Bool) (cs : List Char) : List (List Char) :=
  (splitAt isSep cs).filter (!·.isEmpty)

/-- A text is laid out as pieces, none of them empty or with a separator in it, with separators
between any two of them and possibly at both ends. -/
inductive LaidOut (isSep : Char → Bool) : List (List Char) → List Char → Prop
  | nil {gap : List Char} (gap_sep : ∀ c ∈ gap, isSep c = true) : LaidOut isSep [] gap
  | cons {gap piece rest : List Char} {ps : List (List Char)} (gap_sep : ∀ c ∈ gap, isSep c = true)
      (ne_nil : piece ≠ []) (solid : ∀ c ∈ piece, isSep c = false)
      (ends : ∀ c ∈ rest.head?, isSep c = true)
      (tail : LaidOut isSep ps rest) : LaidOut isSep (piece :: ps) (gap ++ piece ++ rest)

variable {isSep p q : Char → Bool} {cs rest gap piece : List Char}
    {ps : List (List Char)} {c : Char}

theorem splitAt_eq (isSep : Char → Bool) (cs : List Char) :
    splitAt isSep cs = cs.splitOnP isSep := by
  induction cs with
  | nil => rfl
  | cons c cs ih =>
    rw [splitAt, List.splitOnP_cons_eq_if_modifyHead, ← ih]
    cases hs : splitAt isSep cs with
    | nil => exact (splitAt_ne_nil isSep cs hs).elim
    | cons => rfl

theorem splitAt_cons (isSep : Char → Bool) (c : Char) (cs : List Char) : splitAt isSep (c :: cs) =
    if isSep c then [] :: splitAt isSep cs else (splitAt isSep cs).modifyHead (c :: ·) := by
  simp only [splitAt_eq, List.splitOnP_cons_eq_if_modifyHead]

theorem splitAt_or (p q : Char → Bool) (cs : List Char) :
    splitAt (fun c => p c || q c) cs = (splitAt p cs).flatMap (splitAt q) := by
  induction cs with
  | nil => rfl
  | cons c cs ih =>
    obtain ⟨first, others, hp⟩ := List.exists_cons_of_ne_nil (splitAt_ne_nil p cs)
    obtain ⟨part, parts, hq⟩ := List.exists_cons_of_ne_nil (splitAt_ne_nil q first)
    rw [splitAt_cons, splitAt_cons p, ih, hp]
    by_cases hpc : p c
    · simp [hpc, splitAt]
    · by_cases hqc : q c
      · simp [hpc, hqc, splitAt_cons]
      · simp [hpc, hqc, splitAt_cons, hq]

theorem words_eq (cs : List Char) : words cs = pieces isBlank cs := rfl

theorem pieces_nil : pieces isSep [] = [] := rfl

theorem pieces_or (p q : Char → Bool) (cs : List Char) :
    pieces (fun c => p c || q c) cs = (pieces p cs).flatMap (pieces q) := by
  have hnil (parts : List (List Char)) :
      (parts.filter (!·.isEmpty)).flatMap (pieces q) = parts.flatMap (pieces q) := by
    induction parts with
    | nil => rfl
    | cons part parts ih => cases part <;> simp [pieces_nil, ih]
  rw [pieces, splitAt_or, List.filter_flatMap, pieces, hnil]
  rfl

theorem pieces_separator (hc : isSep c = true) (cs rest : List Char) :
    pieces isSep (cs ++ c :: rest) = pieces isSep cs ++ pieces isSep rest := by
  simp only [pieces, splitAt_eq, List.splitOnP_append_cons cs rest hc, List.filter_append]

theorem pieces_gap (hgap : ∀ c ∈ gap, isSep c = true) (cs : List Char) :
    pieces isSep (gap ++ cs) = pieces isSep cs := by
  induction gap with
  | nil => rfl
  | cons c gap ih =>
    obtain ⟨hc, hgap⟩ := List.forall_mem_cons.1 hgap
    exact (pieces_separator hc [] (gap ++ cs)).trans (ih hgap)

theorem pieces_solid (hne : piece ≠ []) (hsolid : ∀ c ∈ piece, isSep c = false) :
    pieces isSep piece = [piece] := by
  rw [pieces, splitAt_eq, List.splitOnP_eq_singleton hsolid]
  simpa using hne

theorem pieces_cons (hne : piece ≠ []) (hsolid : ∀ c ∈ piece, isSep c = false)
    (hends : ∀ c ∈ rest.head?, isSep c = true) :
    pieces isSep (piece ++ rest) = piece :: pieces isSep rest := by
  cases rest with
  | nil => rw [List.append_nil, pieces_solid hne hsolid, pieces_nil]
  | cons c rest =>
    have hc : isSep c = true := hends c rfl
    have hrest : pieces isSep (c :: rest) = pieces isSep rest := pieces_separator hc [] rest
    rw [pieces_separator hc, pieces_solid hne hsolid, hrest, List.singleton_append]

theorem LaidOut.pieces_eq (h : LaidOut isSep ps cs) : pieces isSep cs = ps := by
  induction h with
  | @nil gap hgap =>
    rw [← List.append_nil gap, pieces_gap hgap]
    rfl
  | cons hgap hne hsolid hends _ ih =>
    rw [List.append_assoc, pieces_gap hgap, pieces_cons hne hsolid hends, ih]

theorem LaidOut.separator (h : LaidOut isSep ps cs) (hc : isSep c = true) :
    LaidOut isSep ps (c :: cs) := by
  cases h with
  | nil hgap => exact .nil (List.forall_mem_cons.2 ⟨hc, hgap⟩)
  | @cons gap piece rest ps hgap hne hsolid hends tail =>
    change LaidOut isSep _ (c :: gap ++ piece ++ rest)
    exact .cons (List.forall_mem_cons.2 ⟨hc, hgap⟩) hne hsolid hends tail

theorem LaidOut.front (h : LaidOut isSep ps rest) (hne : piece ≠ [])
    (hsolid : ∀ c ∈ piece, isSep c = false)
    (hends : ∀ c ∈ rest.head?, isSep c = true) : LaidOut isSep (piece :: ps) (piece ++ rest) := by
  rw [← List.nil_append piece]
  exact .cons (by simp) hne hsolid hends h

theorem exists_laidOut (isSep : Char → Bool) (cs : List Char) : ∃ ps, LaidOut isSep ps cs := by
  induction cs with
  | nil => exact ⟨[], .nil (by simp)⟩
  | cons c cs ih =>
    obtain ⟨ps, h⟩ := ih
    by_cases hc : isSep c = true
    · exact ⟨ps, h.separator hc⟩
    have halone : ∀ d ∈ [c], isSep d = false := by simpa using hc
    -- the character belongs to the first piece, or is one of its own if a separator follows
    cases h with
    | nil hgap =>
      have hends : ∀ d ∈ cs.head?, isSep d = true := fun d hd => hgap d (List.mem_of_mem_head? hd)
      exact ⟨[[c]], (LaidOut.nil hgap).front (by simp) halone hends⟩
    | @cons gap piece rest ps hgap hne hsolid hends tail =>
      cases gap with
      | nil =>
        have hsolid : ∀ d ∈ c :: piece, isSep d = false :=
          List.forall_mem_cons.2 ⟨by simpa using hc, hsolid⟩
        exact ⟨(c :: piece) :: ps, tail.front (by simp) hsolid hends⟩
      | cons d gap =>
        have hd : ∀ x ∈ (d :: gap ++ piece ++ rest).head?, isSep x = true := by
          simpa using (List.forall_mem_cons.1 hgap).1
        exact ⟨[c] :: piece :: ps, (LaidOut.cons hgap hne hsolid hends tail).front
          (by simp) halone hd⟩

theorem pieces_eq_iff : pieces isSep cs = ps ↔ LaidOut isSep ps cs := by
  refine ⟨fun h => ?_, LaidOut.pieces_eq⟩
  obtain ⟨ps', h'⟩ := exists_laidOut isSep cs
  rwa [← h, h'.pieces_eq]

theorem LaidOut.forall_mem {P : Char → Prop} (h : LaidOut isSep ps cs)
    (hsep : ∀ c, isSep c = true → P c) (hps : ∀ piece ∈ ps, ∀ c ∈ piece, P c) : ∀ c ∈ cs, P c := by
  induction h with
  | nil hgap => exact fun c hc => hsep c (hgap c hc)
  | cons hgap _ _ _ _ ih =>
    obtain ⟨hpiece, hps⟩ := List.forall_mem_cons.1 hps
    refine List.forall_mem_append.2 ⟨List.forall_mem_append.2 ⟨fun c hc => ?_, hpiece⟩, ih hps⟩
    exact hsep c (hgap c hc)

theorem words_eq_iff : words cs = ps ↔ LaidOut isBlank ps cs := pieces_eq_iff

theorem lines_ne_nil (cs : List Char) : lines cs ≠ [] := by
  fun_cases lines cs <;> simp

/-- A character that is no line end and does not begin one belongs to the first line. -/
theorem lines_cons (hc : c ≠ '\n') (hcs : c = '\r' → cs.head? ≠ some '\n') :
    lines (c :: cs) = (lines cs).modifyHead (c :: ·) := by
  rw [lines.eq_def]
  split
  · contradiction
  · next h =>
    cases h
    exact (hcs rfl rfl).elim
  · next h =>
    cases h
    exact (hc rfl).elim
  · next h =>
    cases h
    cases hl : lines cs with
    | nil => exact (lines_ne_nil cs hl).elim
    | cons => rfl

/-- A line feed behind a text ends its last line; a carriage return at the end of that belongs to
the line end then. -/
theorem lines_newline (cs rest : List Char) : ∃ init last kept, lines cs = init ++ [last] ∧
    lines (cs ++ '\n' :: rest) = init ++ kept :: lines rest ∧
    (last = kept ∨ last = kept ++ ['\r']) := by
  fun_induction lines cs with
  | case1 => exact ⟨[], [], [], rfl, rfl, .inl rfl⟩
  | case2 cs ih =>
    obtain ⟨init, last, kept, hcs, hrest, hkept⟩ := ih
    exact ⟨[] :: init, last, kept, by rw [hcs]; rfl, by simp [lines, hrest], hkept⟩
  | case3 cs ih =>
    obtain ⟨init, last, kept, hcs, hrest, hkept⟩ := ih
    exact ⟨[] :: init, last, kept, by rw [hcs]; rfl, by simp [lines, hrest], hkept⟩
  | case4 c cs _ _ hl => exact (lines_ne_nil cs hl).elim
  | case5 c cs hreturn hfeed line others hl ih =>
    by_cases hlast : c = '\r' ∧ cs = []
    · obtain ⟨rfl, rfl⟩ := hlast
      cases hl
      exact ⟨[], ['\r'], [], rfl, rfl, .inr rfl⟩
    have hhead : c = '\r' → (cs ++ '\n' :: rest).head? ≠ some '\n' := by
      rintro rfl
      obtain ⟨d, cs, rfl⟩ := List.exists_cons_of_ne_nil fun h => hlast ⟨rfl, h⟩
      simpa using fun hd => hreturn cs rfl (by rw [hd])
    obtain ⟨init, last, kept, hcs, hrest, hkept⟩ := ih
    rw [List.cons_append, lines_cons hfeed hhead, hrest]
    cases init with
    | nil =>
      cases hl.symm.trans hcs
      exact ⟨[], c :: line, c :: kept, rfl, rfl, hkept.imp (congrArg _) (congrArg _)⟩
    | cons first init =>
      cases hl.symm.trans hcs
      exact ⟨(c :: line) :: init, last, kept, rfl, rfl, hkept⟩

theorem lines_return (cs rest : List Char) :
    lines (cs ++ '\r' :: '\n' :: rest) = lines cs ++ lines rest := by
  fun_induction lines cs with
  | case1 => rfl
  | case2 cs ih => simp [lines, ih]
  | case3 cs ih => simp [lines, ih]
  | case4 c cs _ _ hl => exact (lines_ne_nil cs hl).elim
  | case5 c cs hreturn hfeed line others hl ih =>
    have hhead : c = '\r' → (cs ++ '\r' :: '\n' :: rest).head? ≠ some '\n' := by
      rintro rfl
      cases cs with
      | nil => simp
      | cons d cs => simpa using fun hd => hreturn cs rfl (by rw [hd])
    rw [List.cons_append, lines_cons hfeed hhead, ih, hl]
    rfl

end RadarTimeline.Text
