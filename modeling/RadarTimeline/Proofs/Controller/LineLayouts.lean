import RadarTimeline.Proofs.Controller.SourceLines
import RadarTimeline.Proofs.Text.Pieces

namespace RadarTimeline.Controller

/-- A word that can be a time: it reads as a number that is finite and not negative. -/
structure ValidTime (token : List Char) : Prop where
  finite : (Number.read token).isFinite
  nonneg : 0 ≤ Number.read token

def dividesMnemonics (c : Char) : Bool := Text.isBlank c || c = ','

/-- A line that gives mnemonics a time: `AT`, a word for the time, and the mnemonics with any blanks
and commas around them, of which the first is a blank. A comment may follow. -/
inductive AtLine (time : List Char) (names : List String) : List Char → Prop
  | intro {lead gap list comment : List Char} (lead_blank : ∀ c ∈ lead, Text.isBlank c = true)
      (gap_ne : gap ≠ []) (gap_blank : ∀ c ∈ gap, Text.isBlank c = true)
      (time_ne : time ≠ []) (time_solid : ∀ c ∈ time, Text.isBlank c = false ∧ c ≠ '%')
      (blank : ∃ c ∈ list.head?, Text.isBlank c = true)
      (laidOut : Text.LaidOut dividesMnemonics (names.map String.toList) list)
      (unmarked : ∀ name ∈ names, '%' ∉ name.toList)
      (comment_marked : ∀ c ∈ comment.head?, c = '%') :
      AtLine time names (lead ++ "AT".toList ++ gap ++ time ++ list ++ comment)

/-- The code of a line that parses: no word at all, `AT` with a time and at least one word more, or
`SETTCR` with a time. -/
inductive Accepted (code : List Char) : Prop
  | blank (words : Text.LaidOut Text.isBlank [] code)
  | commands {time token : List Char} {tokens : List (List Char)} (valid : ValidTime time)
      (words : Text.LaidOut Text.isBlank ("AT".toList :: time :: token :: tokens) code)
  | reset {time : List Char} {tokens : List (List Char)} (valid : ValidTime time)
      (words : Text.LaidOut Text.isBlank ("SETTCR".toList :: time :: tokens) code)

variable {time code source list : List Char} {names : List String} {pos : Position}

theorem ValidTime.readTime_eq (h : ValidTime time) :
    readTime time pos = .ok (Number.read time * microsecond) := by
  have hpos : ¬ Number.read time < 0 := Number.not_lt_of_le h.nonneg
  simp [readTime, readTime?, h.finite, hpos]

theorem validTime_of_readTime {x : Float} (h : readTime time pos = .ok x) : ValidTime time := by
  have hread := readTime_eq_ok h
  simp only [readTime?] at hread
  split_ifs at hread with hv
  obtain ⟨hfinite, hpos⟩ := Bool.and_eq_true_iff.1 hv
  exact ⟨hfinite, Number.le_of_not_lt (by decide) hfinite (by simpa using hpos)⟩

theorem flatMap_mnemonics (h : Text.LaidOut dividesMnemonics (names.map String.toList) list) :
    (Text.words list).flatMap mnemonics = names := by
  calc (Text.words list).flatMap mnemonics
      = ((Text.words list).flatMap (Text.pieces (· = ','))).map String.ofList :=
      List.map_flatMap.symm
    _ = (Text.pieces dividesMnemonics list).map String.ofList := by
      rw [Text.words_eq, ← Text.pieces_or]
      rfl
    _ = names := by
      rw [h.pieces_eq, List.map_map]
      exact List.map_id'' (fun name => String.ofList_toList) names

theorem ne_marker_of_blank {c : Char} (h : Text.isBlank c = true) : c ≠ '%' := by
  rintro rfl
  exact absurd h (by decide)

theorem ne_marker_of_divides {c : Char} (h : dividesMnemonics c = true) : c ≠ '%' := by
  rintro rfl
  exact absurd h (by decide)

theorem beforeMarker_append (hcode : ∀ c ∈ code, c ≠ '%') {comment : List Char}
    (hcomment : ∀ c ∈ comment.head?, c = '%') : Text.beforeMarker '%' (code ++ comment) = code := by
  rw [Text.beforeMarker, List.takeWhile_append_of_pos (by simpa using hcode)]
  cases comment with
  | nil => exact List.append_nil code
  | cons c comment =>
    have hc : c = '%' := hcomment c rfl
    simp [hc]

/-- A line of this form gives its mnemonics as commands. -/
theorem AtLine.readLine_eq (h : AtLine time names source) (hnames : names ≠ [])
    (ht : ValidTime time) :
    readLine source pos =
      .ok (names.map fun name => ⟨Number.read time * microsecond, name, pos⟩) := by
  cases h with
  | @intro lead gap list comment hlead hne hgap htime hsolid hblank hlist hunmarked hcomment =>
    have hlist_unmarked : ∀ c ∈ list, c ≠ '%' := by
      refine hlist.forall_mem (fun c => ne_marker_of_divides) fun piece hpiece c hc => ?_
      obtain ⟨name, hname, rfl⟩ := List.mem_map.1 hpiece
      exact fun h => hunmarked name hname (h ▸ hc)
    have hcode : ∀ c ∈ lead ++ "AT".toList ++ gap ++ time ++ list, c ≠ '%' := by
      simp only [List.forall_mem_append]
      exact ⟨⟨⟨⟨fun c hc => ne_marker_of_blank (hlead c hc), by simp⟩,
        fun c hc => ne_marker_of_blank (hgap c hc)⟩, fun c hc => (hsolid c hc).2⟩, hlist_unmarked⟩
    have hwords : Text.words (lead ++ "AT".toList ++ gap ++ time ++ list) =
        "AT".toList :: time :: Text.words list := by
      obtain ⟨d, hd, hd_blank⟩ := hblank
      obtain ⟨g, gap, rfl⟩ := List.exists_cons_of_ne_nil hne
      have htail : Text.LaidOut Text.isBlank (time :: Text.words list) (g :: gap ++ time ++ list) :=
        .cons hgap htime (fun c hc => (hsolid c hc).1)
          (fun c hc => by rwa [Option.mem_unique hc hd]) (Text.words_eq_iff.1 rfl)
      rw [Text.words_eq_iff, List.append_assoc _ (g :: gap), List.append_assoc]
      have hword : ∀ c ∈ "AT".toList, Text.isBlank c = false := by
        simp only [String.reduceToList, List.forall_mem_cons]
        exact ⟨by decide, by decide, by simp⟩
      exact .cons hlead (by simp) hword (by simpa using hgap g List.mem_cons_self)
        (by simpa using htail)
    have hmnemonics := flatMap_mnemonics hlist
    unfold readLine
    rw [beforeMarker_append hcode hcomment, hwords]
    cases hw : Text.words list with
    | nil =>
      rw [hw] at hmnemonics
      exact (hnames hmnemonics.symm).elim
    | cons token tokens =>
      rw [hw] at hmnemonics
      simp only [readWords, if_true, ht.readTime_eq, hmnemonics, bind, Except.bind]
      rfl

/-- The lines that parse are told by the words in front of the comment. -/
theorem readLine_ok_iff :
    (∃ cs, readLine source pos = .ok cs) ↔ Accepted (Text.beforeMarker '%' source) := by
  constructor
  · rintro ⟨cs, h⟩
    unfold readLine at h
    generalize hw : Text.words (Text.beforeMarker '%' source) = ws at h
    rw [Text.words_eq_iff] at hw
    unfold readWords at h
    split at h
    · exact .blank hw
    split_ifs at h with hat hreset
    · subst hat
      split at h
      · obtain ⟨x, hx, -⟩ := bind_eq_ok_iff.1 h
        exact .commands (validTime_of_readTime hx) hw
      · cases h
    · subst hreset
      split at h
      · obtain ⟨x, hx, -⟩ := bind_eq_ok_iff.1 h
        exact .reset (validTime_of_readTime hx) hw
      · cases h
  · intro h
    unfold readLine
    cases h with
    | blank words => exact ⟨[], by rw [Text.words_eq_iff.2 words, readWords]⟩
    | commands valid words =>
      rw [Text.words_eq_iff.2 words, readWords, if_pos rfl, valid.readTime_eq]
      exact ⟨_, rfl⟩
    | @reset time tokens valid words =>
      have hword : "SETTCR".toList ≠ "AT".toList := by decide
      simp only [Text.words_eq_iff.2 words, readWords, hword, if_false, if_true, valid.readTime_eq]
      exact ⟨_, rfl⟩

/-- In every layout a line gives one command for each of its mnemonics, in their order, with the
time of the line in seconds and its number. A line parses exactly if its code is blank, starts with
`AT`, a valid time and a word more, or starts with `SETTCR` and a valid time. -/
theorem readLine_layouts (pos : Position) :
    (∀ time names source, AtLine time names source → names ≠ [] → ValidTime time →
      readLine source pos =
        .ok (names.map fun name => ⟨Number.read time * microsecond, name, pos⟩)) ∧
    ∀ source, (∃ cs, readLine source pos = .ok cs) ↔ Accepted (Text.beforeMarker '%' source) :=
  ⟨fun _ _ _ h hnames ht => h.readLine_eq hnames ht, fun _ => readLine_ok_iff⟩

/-- Commas at both ends and in a row, blanks around them and a comment. -/
theorem readLine_layouts_transmit :
    let source := "\tAT  10 ,RFON,,CH1 PHA0 , % on, AT 20".toList
    AtLine "10".toList ["RFON", "CH1", "PHA0"] source ∧ ValidTime "10".toList ∧
      readLine source 3 = .ok (["RFON", "CH1", "PHA0"].map fun name =>
        ⟨Number.read "10".toList * microsecond, name, 3⟩) := by
  intro source
  have hline : AtLine "10".toList ["RFON", "CH1", "PHA0"] source := by
    have hlist : Text.LaidOut dividesMnemonics (["RFON", "CH1", "PHA0"].map String.toList)
        " ,RFON,,CH1 PHA0 , ".toList := Text.pieces_eq_iff.1 (by decide)
    exact @AtLine.intro _ _ "\t".toList "  ".toList _ "% on, AT 20".toList (by simp [Text.isBlank])
      (by simp) (by simp [Text.isBlank]) (by simp) (by simp [Text.isBlank])
      ⟨' ', rfl, by decide⟩ hlist (by simp) (by simp)
  have htime : ValidTime "10".toList := ⟨by decide +kernel, by decide +kernel⟩
  exact ⟨hline, htime, (readLine_layouts 3).1 _ _ _ hline (by simp) htime⟩

end RadarTimeline.Controller
