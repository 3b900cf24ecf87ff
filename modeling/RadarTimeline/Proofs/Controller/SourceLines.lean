import RadarTimeline.Proofs.Controller.Times
import RadarTimeline.Proofs.Number.Magnitude

namespace RadarTimeline.Controller

/-- A line that does not parse, after lines that do and have no `REP`. -/
structure Unreadable (lines : List (List Char)) (k : ℕ) (e : ProgramError) : Prop where
  before : ∀ j < k, ∃ source cs, lines[j]? = some source ∧
    readLine source ((j + 1 : ℕ) : Position) = .ok cs ∧
    ∀ c ∈ cs, c.mnemonic ≠ "REP"
  here : ∃ source, lines[k]? = some source ∧ readLine source ((k + 1 : ℕ) : Position) = .error e

/-- Lines read one by one, each with its number, from the first on. -/
structure Parsed (lines : List (List Char)) (parts : List (List Command)) : Prop where
  length : parts.length ≤ lines.length
  read : ∀ j cs, parts[j]? = some cs →
    ∃ source, lines[j]? = some source ∧ readLine source ((j + 1 : ℕ) : Position) = .ok cs

/-- The commands of lines up to the first `REP`, or of all lines if there is none. -/
inductive Readable (lines : List (List Char)) : List Command → Prop
  | ended {parts : List (List Command)} {before rest : List Command} {c : Command}
      (parsed : Parsed lines parts) (split : parts.flatten = before ++ c :: rest)
      (first : ∀ c ∈ before, c.mnemonic ≠ "REP") (last : c.mnemonic = "REP") :
      Readable lines (before ++ [c])
  | unended {parts : List (List Command)} (parsed : Parsed lines parts)
      (whole : parts.length = lines.length) (none : ∀ c ∈ parts.flatten, c.mnemonic ≠ "REP") :
      Readable lines parts.flatten

/-- A command of one of the lines. It has the number of the line, and its time is far below the
largest number. -/
structure Command.Sourced (lines : List (List Char)) (c : Command) : Prop where
  timely : c.Timely
  small : Number.Below 953 c.time.toModel.unpack
  line : ∃ (j : ℕ) (source : List Char) (cs : List Command), lines[j]? = some source ∧
    readLine source ((j + 1 : ℕ) : Position) = .ok cs ∧ c ∈ cs ∧ c.line = ((j + 1 : ℕ) : Position)

variable {lines : List (List Char)} {parts : List (List Command)} {program : List Command}
    {c : Command}
  {e : ProgramError} {pos : Position} {source token : List Char}

theorem below_microsecond : Number.Below (-72) microsecond.toModel.unpack := by
  decide +kernel

theorem readTime?_eq_some {time : Float} (h : readTime? token = some time) :
    Number.Below 953 time.toModel.unpack ∧ ¬ time < 0 := by
  simp only [readTime?] at h
  split_ifs at h with hv
  obtain ⟨hfin, hpos⟩ := Bool.and_eq_true_iff.1 hv
  cases h
  refine ⟨Number.below_mul_small hfin below_microsecond, ?_⟩
  exact Number.not_mul_lt_zero (by simpa using hpos) (by decide +kernel)

theorem readTime_eq_error (h : readTime token pos = .error e) : e.line = pos := by
  unfold readTime at h
  cases ht : readTime? token with
  | none =>
    rw [ht] at h
    cases h
    rfl
  | some time =>
    rw [ht] at h
    cases h

theorem readTime_eq_ok {time : Float} (h : readTime token pos = .ok time) :
    readTime? token = some time := by
  unfold readTime at h
  cases ht : readTime? token with
  | none =>
    rw [ht] at h
    cases h
  | some time' =>
    rw [ht] at h
    cases h
    rfl

theorem bind_eq_error_iff {ε α β : Type} {x : Except ε α} {f : α → Except ε β} {e : ε} :
    x >>= f = .error e ↔ x = .error e ∨ ∃ a, x = .ok a ∧ f a = .error e := by
  cases x <;> simp [bind, Except.bind]

theorem readLine_eq_error (h : readLine source pos = .error e) : e.line = pos := by
  unfold readLine readWords at h
  split at h
  · cases h
  split_ifs at h
  · split at h
    · rcases bind_eq_error_iff.1 h with h | ⟨time, -, h⟩
      · exact readTime_eq_error h
      · cases h
    · cases h
      rfl
  · split at h
    · rcases bind_eq_error_iff.1 h with h | ⟨time, -, h⟩
      · exact readTime_eq_error h
      · cases h
    · cases h
      rfl
  · cases h
    rfl

/-- The commands of a line have the same time, one that is read, and its number. -/
theorem readLine_eq_ok {cs : List Command} (h : readLine source pos = .ok cs) :
    ∀ c ∈ cs, c.line = pos ∧ ∃ token, readTime? token = some c.time := by
  unfold readLine readWords at h
  split at h
  · cases h
    simp
  split_ifs at h
  · split at h
    · obtain ⟨time, ht, h⟩ := bind_eq_ok_iff.1 h
      cases h
      intro c hc
      obtain ⟨mnemonic, -, rfl⟩ := List.mem_map.1 hc
      exact ⟨rfl, _, readTime_eq_ok ht⟩
    · cases h
  · split at h
    · obtain ⟨time, ht, h⟩ := bind_eq_ok_iff.1 h
      cases h
      intro c hc
      cases List.mem_singleton.1 hc
      exact ⟨rfl, _, readTime_eq_ok ht⟩
    · cases h

theorem Parsed.sourced (h : Parsed lines parts) : ∀ c ∈ parts.flatten, c.Sourced lines := by
  intro c hc
  obtain ⟨cs, hcs, hc⟩ := List.mem_flatten.1 hc
  obtain ⟨j, hj⟩ := List.mem_iff_getElem?.1 hcs
  obtain ⟨source, hsource, hread⟩ := h.read j cs hj
  obtain ⟨hline, token, htime⟩ := readLine_eq_ok hread c hc
  obtain ⟨hsmall, hpos⟩ := readTime?_eq_some htime
  exact ⟨⟨hsmall.isFinite, hpos⟩, hsmall, j, source, cs, hsource, hread, hc, hline⟩

theorem Readable.sourced (h : Readable lines program) : ∀ c ∈ program, c.Sourced lines := by
  cases h with
  | @ended parts before rest c parsed split =>
    intro c' hc'
    refine parsed.sourced c' ?_
    rw [split]
    rcases List.mem_append.1 hc' with hc' | hc'
    · exact List.mem_append_left _ hc'
    · rw [List.mem_singleton.1 hc']
      simp
  | unended parsed => exact parsed.sourced

theorem Readable.dropLast (h : Readable lines program) :
    ∀ c ∈ program.dropLast, c.mnemonic ≠ "REP" := by
  cases h with
  | ended _ _ first =>
    rw [List.dropLast_concat]
    exact first
  | unended _ _ none => exact fun c hc => none c (List.mem_of_mem_dropLast hc)

theorem untilEnd_cases (cs : List Command) :
    (∃ before c rest, cs = before ++ c :: rest ∧ (∀ c ∈ before, c.mnemonic ≠ "REP") ∧
        c.mnemonic = "REP" ∧ untilEnd cs = (before ++ [c], true)) ∨
      (∀ c ∈ cs, c.mnemonic ≠ "REP") ∧ untilEnd cs = (cs, false) := by
  induction cs with
  | nil => exact .inr ⟨by simp, rfl⟩
  | cons c cs ih =>
    rw [untilEnd]
    by_cases hc : c.mnemonic = "REP"
    · rw [if_pos hc]
      exact .inl ⟨[], c, cs, rfl, by simp, hc, rfl⟩
    rw [if_neg hc]
    rcases ih with ⟨before, d, rest, rfl, hbefore, hd, hu⟩ | ⟨hnone, hu⟩
    · refine .inl ⟨c :: before, d, rest, rfl, List.forall_mem_cons.2 ⟨hc, hbefore⟩, hd, ?_⟩
      rw [hu]
      rfl
    · refine .inr ⟨List.forall_mem_cons.2 ⟨hc, hnone⟩, ?_⟩
      rw [hu]

theorem Parsed.concat {source : List Char} {cs : List Command} {before after : List (List Char)}
    (h : Parsed (before ++ source :: after) parts) (hlen : parts.length = before.length)
    (hread : readLine source ((before.length + 1 : ℕ) : Position) = .ok cs) :
    Parsed (before ++ source :: after) (parts ++ [cs]) := by
  refine ⟨by simp [hlen], fun j cs' hj => ?_⟩
  rw [List.getElem?_append] at hj
  split_ifs at hj with hlt
  · exact h.read j cs' hj
  · obtain ⟨hj0, rfl⟩ : j - parts.length = 0 ∧ cs = cs' := by
      simpa [List.getElem?_singleton] using hj
    have hj : j = before.length := by omega
    subst hj
    exact ⟨source, by simp, hread⟩

/-- The lines from one on are read up to the first that does not parse or has `REP`, if those before
parse and have none. -/
theorem readLines_reads (before : List (List Char)) {after : List (List Char)}
    (h : Parsed (before ++ after) parts)
    (hlen : parts.length = before.length) (hnone : ∀ c ∈ parts.flatten, c.mnemonic ≠ "REP") :
    (∃ k e, readLines (before.length + 1) after = .error e ∧ Unreadable (before ++ after) k e) ∨
      ∃ program, readLines (before.length + 1) after = .ok program ∧
        Readable (before ++ after) (parts.flatten ++ program) := by
  induction after generalizing before parts with
  | nil =>
    refine .inr ⟨[], rfl, ?_⟩
    rw [List.append_nil] at h ⊢
    rw [List.append_nil]
    exact .unended h hlen hnone
  | cons source after ih =>
    rw [readLines]
    cases hread : readLine source ((before.length + 1 : ℕ) : Position) with
    | error e =>
      refine .inl ⟨before.length, e, rfl, fun j hj => ?_, source, by simp, hread⟩
      have hpart : parts[j]? = some parts[j] := List.getElem?_eq_getElem (hlen ▸ hj)
      obtain ⟨source', hsource, hread'⟩ := h.read j _ hpart
      exact ⟨source', _, hsource, hread', fun c hc =>
        hnone c (List.mem_flatten.2 ⟨_, List.mem_of_getElem? hpart, hc⟩)⟩
    | ok cs =>
      have hparsed := h.concat hlen hread
      rcases untilEnd_cases cs with ⟨first, c, rest, hcs, hfirst, hc, hu⟩ | ⟨hcs, hu⟩
      · refine .inr ⟨first ++ [c], ?_, ?_⟩
        · simp only [bind, Except.bind, hu]
          rfl
        · rw [← List.append_assoc]
          have hsplit : (parts ++ [cs]).flatten = (parts.flatten ++ first) ++ c :: rest := by
            simp [hcs]
          exact .ended hparsed hsplit (List.forall_mem_append.2 ⟨hnone, hfirst⟩) hc
      · have hnone' : ∀ c ∈ (parts ++ [cs]).flatten, c.mnemonic ≠ "REP" := by
          rw [List.flatten_append, List.flatten_singleton]
          exact List.forall_mem_append.2 ⟨hnone, hcs⟩
        have hnext : Parsed ((before ++ [source]) ++ after) (parts ++ [cs]) := by
          rwa [List.append_assoc]
        have hstep := ih (before ++ [source]) hnext (by simp [hlen]) hnone'
        simp only [List.append_assoc, List.singleton_append, List.length_append,
          List.length_singleton]
          at hstep
        simp only [bind, Except.bind, hu]
        rcases hstep with ⟨k, e, herr, hk⟩ | ⟨program, hok, hprogram⟩
        · refine .inl ⟨k, e, ?_, hk⟩
          rw [herr]
          rfl
        · refine .inr ⟨cs ++ program, ?_, by simpa using hprogram⟩
          rw [hok]
          rfl

theorem readProgram_cases (text : String) :
    (∃ k e, readProgram text = .error e ∧ Unreadable (Text.lines text.toList) k e) ∨
      ∃ program, readProgram text = .ok program ∧ Readable (Text.lines text.toList) program := by
  have hparsed : Parsed ([] ++ Text.lines text.toList) [] := ⟨Nat.zero_le _, by simp⟩
  exact readLines_reads [] hparsed rfl (by simp)

theorem Unreadable.line {k : ℕ} (h : Unreadable lines k e) : e.line = ((k + 1 : ℕ) : Position) := by
  obtain ⟨source, -, hread⟩ := h.here
  exact readLine_eq_error hread

theorem Readable.readLine_nil (h : Readable lines []) {j : ℕ} (hj : lines[j]? = some source) :
    readLine source ((j + 1 : ℕ) : Position) = .ok [] := by
  generalize hp : ([] : List Command) = program at h
  cases h with
  | ended => simp at hp
  | @unended parts parsed whole =>
    have hlt : j < parts.length := whole ▸ (List.getElem?_eq_some_iff.1 hj).1
    obtain ⟨source', hsource, hread⟩ := parsed.read j parts[j] (List.getElem?_eq_getElem hlt)
    rw [hj] at hsource
    cases hsource
    rw [hread, List.flatten_eq_nil_iff.1 hp.symm parts[j] (List.getElem_mem hlt), ← hp]

theorem Readable.not_sourced (h : Readable lines []) (c : Command) : ¬ c.Sourced lines := by
  rintro ⟨-, -, j, source, cs, hsource, hread, hc, -⟩
  rw [h.readLine_nil hsource] at hread
  cases hread
  cases hc

theorem Unreadable.not_parsed {k : ℕ} (h : Unreadable lines k e) (hp : Parsed lines parts) :
    parts.length ≤ k := by
  by_contra hlt
  obtain ⟨source, hsource, herror⟩ := h.here
  obtain ⟨source', hsource', hread⟩ :=
    hp.read k parts[k] (List.getElem?_eq_getElem (Nat.lt_of_not_le hlt))
  rw [hsource] at hsource'
  cases hsource'
  rw [herror] at hread
  cases hread

/-- A text that reads as a program has no line before its end that does not parse. -/
theorem Readable.not_unreadable (h : Readable lines program) {k : ℕ} : ¬ Unreadable lines k e := by
  intro hu
  cases h with
  | unended parsed whole =>
    obtain ⟨source, hsource, -⟩ := hu.here
    have hk := (List.getElem?_eq_some_iff.1 hsource).1
    have := hu.not_parsed parsed
    omega
  | @ended parts before rest c parsed split _ last =>
    -- the line with the `REP` would be one of those before without any
    have hc : c ∈ parts.flatten := by
      rw [split]
      simp
    obtain ⟨cs, hcs, hc⟩ := List.mem_flatten.1 hc
    obtain ⟨j, hj⟩ := List.mem_iff_getElem?.1 hcs
    obtain ⟨source, hsource, hread⟩ := parsed.read j cs hj
    have hlt : j < k := (List.getElem?_eq_some_iff.1 hj).1.trans_le (hu.not_parsed parsed)
    obtain ⟨source', cs', hsource', hread', hnone⟩ := hu.before j hlt
    rw [hsource] at hsource'
    cases hsource'
    rw [hread] at hread'
    cases hread'
    exact hnone c hc last

theorem numbered_ne_zero (n : ℕ) : ((n + 1 : ℕ) : Position) ≠ 0 := by
  intro h
  have : ((n + 1 : ℕ) : ℤ) = 0 := Position.whole.inj h
  omega

theorem Command.Sourced.line_ne_zero (h : c.Sourced lines) : c.line ≠ 0 := by
  obtain ⟨j, source, cs, -, -, -, hline⟩ := h.line
  rw [hline]
  exact numbered_ne_zero j

end RadarTimeline.Controller
