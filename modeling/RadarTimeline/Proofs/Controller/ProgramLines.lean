import RadarTimeline.Proofs.Controller.LineLayouts

namespace RadarTimeline.Controller

/-- The result of line `j`, which has the number `j + 1`. -/
def ReadsAs (lines : List (List Char)) (j : ℕ) (r : Except ProgramError (List Command)) : Prop :=
  ∃ source, lines[j]? = some source ∧ readLine source ((j + 1 : ℕ) : Position) = r

/-- Line `j` yields a `REP`. -/
def YieldsEnd (lines : List (List Char)) (j : ℕ) : Prop :=
  ∃ cs, ReadsAs lines j (.ok cs) ∧ ∃ c ∈ cs, c.mnemonic = "REP"

/-- Line `j` is there, and none before it yields a `REP`. -/
structure Counts (lines : List (List Char)) (j : ℕ) : Prop where
  lt : j < lines.length
  before : ∀ i < j, ¬ YieldsEnd lines i

/-- Commands up to the first `REP`, which is the last of them. -/
def throughEnd (cs : List Command) : List Command :=
  cs.takeWhile (·.mnemonic ≠ "REP") ++ (cs.find? (·.mnemonic = "REP")).toList

variable {lines a b : List (List Char)} {parts : List (List Command)}
    {cs before rest program : List Command}
  {c : Command} {e : ProgramError} {text : String}
    {r r' : Except ProgramError (List Command)} {j k n : ℕ}

theorem ReadsAs.unique (h : ReadsAs lines j r) (h' : ReadsAs lines j r') : r = r' := by
  obtain ⟨source, hsource, rfl⟩ := h
  obtain ⟨source', hsource', rfl⟩ := h'
  rw [hsource] at hsource'
  cases hsource'
  rfl

theorem ReadsAs.lt (h : ReadsAs lines j r) : j < lines.length := by
  obtain ⟨source, hsource, -⟩ := h
  exact (List.getElem?_eq_some_iff.1 hsource).1

theorem YieldsEnd.lt (h : YieldsEnd lines k) : k < lines.length := by
  obtain ⟨cs, hread, -⟩ := h
  exact hread.lt

theorem Parsed.readsAs (h : Parsed lines parts) (hj : parts[j]? = some cs) :
    ReadsAs lines j (.ok cs) :=
  h.read j cs hj

theorem throughEnd_of_none (h : ∀ c ∈ cs, c.mnemonic ≠ "REP") : throughEnd cs = cs := by
  have hfind : cs.find? (·.mnemonic = "REP") = none := List.find?_eq_none.2 (by simpa using h)
  rw [throughEnd, List.takeWhile_eq_self_iff.2 (by simpa using h), hfind]
  exact List.append_nil cs

theorem throughEnd_of_first (h : ∀ c ∈ before, c.mnemonic ≠ "REP") (hc : c.mnemonic = "REP") :
    throughEnd (before ++ c :: rest) = before ++ [c] := by
  have hfind : before.find? (·.mnemonic = "REP") = none := List.find?_eq_none.2 (by simpa using h)
  rw [throughEnd, List.takeWhile_append_of_pos (by simpa using h), List.find?_append, hfind]
  simp [hc]

theorem throughEnd_append (h : ∃ c ∈ cs, c.mnemonic = "REP") (rest : List Command) :
    throughEnd (cs ++ rest) = throughEnd cs := by
  rcases untilEnd_cases cs with ⟨before, c, after, rfl, hbefore, hc, -⟩ | ⟨hnone, -⟩
  · rw [List.append_assoc, List.cons_append, throughEnd_of_first hbefore hc,
      throughEnd_of_first hbefore hc]
  · obtain ⟨c, hmem, hc⟩ := h
    exact (hnone c hmem hc).elim

theorem exists_first_yieldsEnd (h : ∃ k, YieldsEnd lines k) :
    ∃ k, YieldsEnd lines k ∧ ∀ i < k, ¬ YieldsEnd lines i := by
  classical
  exact ⟨Nat.find h, Nat.find_spec h, fun i hi => Nat.find_min h hi⟩

theorem counts_iff_le (hk : YieldsEnd lines k) (hfirst : ∀ i < k, ¬ YieldsEnd lines i) :
    Counts lines j ↔ j ≤ k := by
  refine ⟨fun h => Nat.le_of_not_lt fun hlt => h.before k hlt hk, fun hle => ?_⟩
  exact ⟨lt_of_le_of_lt hle hk.lt, fun i hi => hfirst i (by omega)⟩

theorem Parsed.exists_end (h : Parsed lines parts) (hk : YieldsEnd lines k)
    (hlt : k < parts.length) :
    ∃ c ∈ parts[k], c.mnemonic = "REP" := by
  obtain ⟨cs, hread, hend⟩ := hk
  cases hread.unique (h.readsAs (List.getElem?_eq_getElem hlt))
  exact hend

theorem Parsed.exists_yieldsEnd (h : Parsed lines parts) (hc : c ∈ parts.flatten)
    (hend : c.mnemonic = "REP") :
    ∃ k < parts.length, YieldsEnd lines k := by
  obtain ⟨cs, hcs, hc⟩ := List.mem_flatten.1 hc
  obtain ⟨k, hk⟩ := List.mem_iff_getElem?.1 hcs
  exact ⟨k, (List.getElem?_eq_some_iff.1 hk).1, cs, h.readsAs hk, c, hc, hend⟩

/-- The program of a text is made of the lines that count. -/
theorem Readable.exists_parts (h : Readable lines program) : ∃ parts : List (List Command),
    (∀ j, j < parts.length ↔ Counts lines j) ∧
    (∀ j cs, parts[j]? = some cs → ReadsAs lines j (.ok cs)) ∧
      program = throughEnd parts.flatten := by
  cases h with
  | @unended parts parsed whole hnone =>
    have hends : ∀ j, ¬ YieldsEnd lines j := by
      intro j hj
      have hlt : j < parts.length := whole ▸ hj.lt
      obtain ⟨c, hc, hend⟩ := parsed.exists_end hj hlt
      exact hnone c (List.mem_flatten.2 ⟨_, List.getElem_mem hlt, hc⟩) hend
    refine ⟨parts, fun j => ?_, fun j cs => parsed.readsAs, (throughEnd_of_none hnone).symm⟩
    exact ⟨fun hj => ⟨whole ▸ hj, fun i _ => hends i⟩, fun hj => whole ▸ hj.lt⟩
  | @ended parts before rest c parsed split hfirst hend =>
    have hc : c ∈ parts.flatten := by
      rw [split]
      simp
    obtain ⟨i, hi, hyields⟩ := parsed.exists_yieldsEnd hc hend
    -- parts from lines behind the first with a `REP` do not matter
    obtain ⟨k, hk, hmin⟩ := exists_first_yieldsEnd ⟨i, hyields⟩
    have hki : k ≤ i := Nat.le_of_not_lt fun hlt => hmin i hlt hyields
    have hlt : k < parts.length := lt_of_le_of_lt hki hi
    refine ⟨parts.take (k + 1), fun j => ?_, fun j cs hj => ?_, ?_⟩
    · rw [counts_iff_le hk hmin, List.length_take]
      omega
    · rw [List.getElem?_take] at hj
      split_ifs at hj
      exact parsed.readsAs hj
    · have hlast : ∃ d ∈ (parts.take (k + 1)).flatten, d.mnemonic = "REP" := by
        obtain ⟨d, hd, hrep⟩ := parsed.exists_end hk hlt
        refine ⟨d, List.mem_flatten.2 ⟨_, ?_, hd⟩, hrep⟩
        exact List.mem_take_iff_getElem.2 ⟨k, by omega, rfl⟩
      rw [← throughEnd_append hlast (parts.drop (k + 1)).flatten, ← List.flatten_append,
        List.take_append_drop, split, throughEnd_of_first hfirst hend]

theorem readable_of_ok (h : readProgram text = .ok program) :
    Readable (Text.lines text.toList) program := by
  rcases readProgram_cases text with ⟨k, e, herror, -⟩ | ⟨program', hok, hread⟩
  · cases h.symm.trans herror
  · cases h.symm.trans hok
    exact hread

theorem unreadable_of_error (h : readProgram text = .error e) :
    ∃ k, Unreadable (Text.lines text.toList) k e := by
  rcases readProgram_cases text with ⟨k, e', herror, hk⟩ | ⟨program, hok, -⟩
  · cases h.symm.trans herror
    exact ⟨k, hk⟩
  · cases h.symm.trans hok

theorem Unreadable.counts (h : Unreadable lines k e) : Counts lines k := by
  obtain ⟨source, hsource, -⟩ := h.here
  refine ⟨(List.getElem?_eq_some_iff.1 hsource).1, fun i hi => ?_⟩
  rintro ⟨cs, hread, c, hc, hend⟩
  obtain ⟨source, cs', hsource, hread', hnone⟩ := h.before i hi
  cases hread.unique ⟨source, hsource, hread'⟩
  exact hnone c hc hend

theorem Unreadable.readsAs (h : Unreadable lines k e) :
    ReadsAs lines k (.error e) ∧ ∀ j < k, ∃ cs, ReadsAs lines j (.ok cs) := by
  refine ⟨h.here, fun j hj => ?_⟩
  obtain ⟨source, cs, hsource, hread, -⟩ := h.before j hj
  exact ⟨cs, source, hsource, hread⟩

theorem readLine_return (source : List Char) : readLine (source ++ ['\r']) = readLine source := by
  funext pos
  have hwords : Text.words (source ++ ['\r']) = Text.words source :=
    (Text.pieces_separator (by decide) source []).trans (List.append_nil _)
  unfold readLine Text.beforeMarker
  rw [List.takeWhile_append]
  split_ifs with hall
  · have hwhole := (List.takeWhile_prefix (· != '%')).eq_of_length hall
    change readWords pos (Text.words (source ++ ['\r'])) = _
    rw [hwords, hwhole]
  · rfl

theorem readLines_congr (h : a.map readLine = b.map readLine) (n : ℕ) :
    readLines n a = readLines n b := by
  induction a generalizing b n with
  | nil =>
    rw [List.map_eq_nil_iff.1 h.symm]
  | cons source a ih =>
    obtain ⟨source', b, rfl, hsource, hmap⟩ := List.map_eq_cons_iff.1 h.symm
    rw [readLines, readLines, hsource, ih hmap.symm]

/-- Lines behind one with a `REP` are not read. -/
theorem readLines_append (hk : ∃ source cs, a[k]? = some source ∧
      readLine source ((n + k : ℕ) : Position) = .ok cs ∧ ∃ c ∈ cs, c.mnemonic = "REP")
    (more : List (List Char)) : readLines n (a ++ more) = readLines n a := by
  induction a generalizing n k with
  | nil => simp at hk
  | cons source a ih =>
    rw [List.cons_append, readLines, readLines]
    cases hread : readLine source ((n : ℕ) : Position) with
    | error e => rfl
    | ok cs =>
      rcases untilEnd_cases cs with ⟨first, c, rest, -, -, -, hu⟩ | ⟨hnone, hu⟩
      · simp only [bind, Except.bind, hu]
        rfl
      · cases k with
        | zero =>
          obtain ⟨source', cs', hsource, hread', c, hc, hend⟩ := hk
          cases hsource
          cases hread.symm.trans hread'
          exact (hnone c hc hend).elim
        | succ k =>
          rw [List.getElem?_cons_succ, Nat.add_comm k, ← Nat.add_assoc] at hk
          simp only [bind, Except.bind, hu]
          rw [ih hk]

def lineEnds : List String := ["\n", "\r\n"]

theorem map_readLine_lines {lineEnd : String} (h : lineEnd ∈ lineEnds) (text more : String) :
    (Text.lines (text ++ lineEnd ++ more).toList).map readLine =
      (Text.lines text.toList ++ Text.lines more.toList).map readLine := by
  simp only [lineEnds, List.mem_cons, List.not_mem_nil, or_false] at h
  rcases h with rfl | rfl
  · obtain ⟨init, last, kept, htext, hall, hkept⟩ := Text.lines_newline text.toList more.toList
    have hread : readLine last = readLine kept := by
      rcases hkept with rfl | rfl
      · rfl
      · exact readLine_return kept
    have hlines : Text.lines (text ++ "\n" ++ more).toList =
      init ++ kept :: Text.lines more.toList := by
      rw [← hall, String.toList_append, String.toList_append, List.append_assoc]
      rfl
    rw [hlines, htext]
    simp [hread]
  · have hlines : Text.lines (text ++ "\r\n" ++ more).toList =
        Text.lines text.toList ++ Text.lines more.toList := by
      rw [← Text.lines_return, String.toList_append, String.toList_append, List.append_assoc]
      rfl
    rw [hlines]

theorem readProgram_lineEnd (hk : YieldsEnd (Text.lines text.toList) k) {lineEnd : String}
    (h : lineEnd ∈ lineEnds)
    (more : String) : readProgram (text ++ lineEnd ++ more) = readProgram text := by
  obtain ⟨cs, ⟨source, hsource, hread⟩, hend⟩ := hk
  rw [readProgram, readLines_congr (map_readLine_lines h text more)]
  exact readLines_append ⟨source, cs, hsource, by rwa [Nat.add_comm 1], hend⟩ _

/-- A text reads as a program exactly if all lines parse up to the first that yields a `REP`. Their
commands, numbered by their lines and cut off behind that `REP`, are the program then; otherwise the
error is that of the first of these lines that does not parse and has its number. So only the last
command can be `REP`, and what follows a line with a `REP` makes no difference. -/
theorem readProgram_counts (text : String) :
    let lines := Text.lines text.toList
    ((∃ program, readProgram text = .ok program) ↔ ∀ j, Counts lines j →
      ∃ cs, ReadsAs lines j (.ok cs)) ∧
      (∀ program, readProgram text = .ok program →
        (∃ parts : List (List Command), (∀ j, j < parts.length ↔ Counts lines j) ∧
          (∀ j cs, parts[j]? = some cs → ReadsAs lines j (.ok cs)) ∧
          program = throughEnd parts.flatten) ∧
        ∀ c ∈ program.dropLast, c.mnemonic ≠ "REP") ∧
      (∀ e, readProgram text = .error e → ∃ k, Counts lines k ∧ ReadsAs lines k (.error e) ∧
        (∀ j < k, ∃ cs, ReadsAs lines j (.ok cs)) ∧ e.line = ((k + 1 : ℕ) : Position)) ∧
      ∀ k, YieldsEnd lines k → ∀ lineEnd ∈ lineEnds, ∀ more,
        readProgram (text ++ lineEnd ++ more) = readProgram text := by
  intro lines
  refine ⟨⟨?_, fun hall => ?_⟩, fun program hok => ?_, fun e herror => ?_, ?_⟩
  · rintro ⟨program, hok⟩ j hj
    obtain ⟨parts, hcounts, hparts, -⟩ := (readable_of_ok hok).exists_parts
    have hlt : j < parts.length := (hcounts j).2 hj
    exact ⟨parts[j], hparts j _ (List.getElem?_eq_getElem hlt)⟩
  · rcases readProgram_cases text with ⟨k, e, -, hk⟩ | ⟨program, hok, -⟩
    · obtain ⟨cs, hread⟩ := hall k hk.counts
      cases hread.unique hk.readsAs.1
    · exact ⟨program, hok⟩
  · have hread := readable_of_ok hok
    exact ⟨hread.exists_parts, hread.dropLast⟩
  · obtain ⟨k, hk⟩ := unreadable_of_error herror
    exact ⟨k, hk.counts, hk.readsAs.1, hk.readsAs.2, hk.line⟩
  · exact fun k hk lineEnd h more => readProgram_lineEnd hk h more

/-- A line behind one with a `REP` need not parse. -/
theorem readProgram_counts_malformed : YieldsEnd (Text.lines "AT 20 REP,CH1".toList) 0 ∧
    readProgram ("AT 20 REP,CH1" ++ "\r\n" ++ "this is not parsed") =
      readProgram "AT 20 REP,CH1" := by
  have hlist : Text.LaidOut dividesMnemonics (["REP", "CH1"].map String.toList) " REP,CH1".toList :=
    Text.pieces_eq_iff.1 (by decide)
  have hline : AtLine "20".toList ["REP", "CH1"] "AT 20 REP,CH1".toList :=
    @AtLine.intro _ _ [] " ".toList _ [] (by simp) (by simp) (by simp [Text.isBlank]) (by simp)
      (by simp [Text.isBlank]) ⟨' ', rfl, by decide⟩ hlist (by simp) (by simp)
  have hread : readLine "AT 20 REP,CH1".toList 1 = .ok _ :=
    hline.readLine_eq (by simp) ⟨by decide +kernel, by decide +kernel⟩
  have hends : YieldsEnd (Text.lines "AT 20 REP,CH1".toList) 0 :=
    ⟨_, ⟨_, rfl, hread⟩, _, List.mem_cons_self, rfl⟩
  exact ⟨hends, (readProgram_counts "AT 20 REP,CH1").2.2.2 0 hends "\r\n" (by decide) _⟩

end RadarTimeline.Controller
