import RadarTimeline.Receiver.FrequencyTable
import RadarTimeline.Proofs.Number.Indices
import RadarTimeline.Proofs.Text.Pieces

namespace RadarTimeline.FrequencyTable

/-- The lines of a text that say something in front of comments, with their numbers from 1 on and
without outer blanks. -/
structure Says (lines : List (List Char)) (said : List (ℕ × List Char)) : Prop where
  ascending : said.Pairwise fun a b => a.1 < b.1
  mem_iff : ∀ n code, (n, code) ∈ said ↔ code ≠ [] ∧ ∃ i line, n = i + 1 ∧ lines[i]? = some line ∧
    Text.trim (Text.beforeMarker '%' line) = code

/-- A line has these words. -/
def HasWords (code : List Char) (words : List String) : Prop :=
  Text.LaidOut Text.isBlank (words.map String.toList) code

/-- A line is the version of the file. -/
def IsVersion (code : List Char) : Prop := HasWords code ["NCOPAR_VS", "0.1"]

/-- A line has the form of the entry `index`: three words, of which the first is `NCO` and the
second reads as the index. -/
def IsNumbered (index : ℕ) (code : List Char) (frequency : String) : Prop :=
  ∃ number : String, HasWords code ["NCO", number, frequency] ∧
    Number.value? (Number.read number.toList) = some (index : ℚ)

/-- A line is the entry `index`, whose third word reads as a number. -/
def IsEntry (index : ℕ) (code : List Char) (value : Float) : Prop :=
  ∃ frequency : String, IsNumbered index code frequency ∧ Number.read frequency.toList = value ∧
    value.isNaN = false

/-- The first check that a line fails as the entry `index`. -/
inductive Fails (index : ℕ) (code : List Char) : String → Prop
  | malformed (form : ∀ frequency, ¬ IsNumbered index code frequency) : Fails index code "malformed"
  | frequency {frequency : String} (form : IsNumbered index code frequency)
      (nan : (Number.read frequency.toList).isNaN = true) : Fails index code "frequency"

/-- The lines of a file are its version and the entries with these frequencies, in order of their
indices. -/
structure Accepted (said : List (ℕ × List Char)) (values : List Float) : Prop where
  version : ∃ n code, said[0]? = some (n, code) ∧ IsVersion code
  length : said.length = values.length + 1
  entries : ∀ j n code, said[j + 1]? = some (n, code) →
    ∃ value, values[j]? = some value ∧ IsEntry j code value

/-- The first line that breaks the form of a file, with the check that it fails. -/
inductive Refused (said : List (ℕ × List Char)) : String → ℕ → Prop
  | empty (none : said = []) : Refused said "version" 0
  | version {n : ℕ} {code : List Char} (here : said[0]? = some (n, code))
    (fails : ¬ IsVersion code) :
      Refused said "version" n
  | entry {j n : ℕ} {code : List Char} {kind : String}
      (version : ∃ n code, said[0]? = some (n, code) ∧ IsVersion code)
      (before : ∀ i < j, ∃ n code value, said[i + 1]? = some (n, code) ∧ IsEntry i code value)
      (here : said[j + 1]? = some (n, code)) (fails : Fails j code kind) : Refused said kind n

variable {entries : List (ℕ × List Char)} {code : List Char} {words : List String} {index : ℕ}
    {value : Float}
  {values : List Float} {fault : Fault} {e : Error}

theorem tokens_eq_iff : tokens code = words ↔ HasWords code words := by
  rw [HasWords, ← Text.words_eq_iff, tokens]
  constructor
  · rintro rfl
    simp [Function.comp_def]
  · intro h
    simp [h, Function.comp_def]

theorem isVersion_iff : tokens code = versionWords ↔ IsVersion code := tokens_eq_iff

theorem isNumbered_iff {frequency : String} : IsNumbered index code frequency ↔ ∃ number,
    tokens code = ["NCO", number, frequency] ∧ Number.toIndex? (Number.read number.toList) =
      some index := by
  simp only [IsNumbered, tokens_eq_iff, Number.toIndex?_eq_some_iff]

/-- What is said in a text are the lines that are left without comments and blanks. -/
theorem says_significant (text : String) : Says (Text.lines text.toList) (significant text) := by
  refine ⟨List.Pairwise.filter _ ?_, fun n code => ?_⟩
  · rw [List.pairwise_iff_getElem]
    intro i j hi hj hij
    simpa using hij
  · simp only [significant, List.mem_filter, List.mem_mapIdx, Prod.mk.injEq, Bool.not_eq_true',
      List.isEmpty_eq_false_iff]
    constructor
    · rintro ⟨⟨i, hi, rfl, rfl⟩, hne⟩
      exact ⟨hne, i, _, rfl, List.getElem?_eq_getElem hi, rfl⟩
    · rintro ⟨hne, i, line, rfl, hline, rfl⟩
      obtain ⟨hi, rfl⟩ := List.getElem?_eq_some_iff.1 hline
      exact ⟨⟨i, hi, rfl, rfl⟩, hne⟩

theorem readEntry_ok_iff : readEntry index code = .ok value ↔ IsEntry index code value := by
  constructor
  · intro h
    unfold readEntry at h
    split at h
    · next number frequency htokens =>
      split_ifs at h with hindex
      cases hnan : (Number.read frequency.toList).isNaN <;> simp only [hnan] at h <;> cases h
      exact ⟨frequency, isNumbered_iff.2 ⟨number, htokens, hindex⟩, rfl, hnan⟩
    · cases h
  · rintro ⟨frequency, hform, rfl, hnan⟩
    obtain ⟨number, htokens, hindex⟩ := isNumbered_iff.1 hform
    rw [readEntry, htokens]
    simp only [hindex, if_true, hnan]
    rfl

theorem readEntry_fails (h : readEntry index code = .error fault) :
    Fails index code fault.kind := by
  unfold readEntry at h
  split at h
  · next number frequency htokens =>
    split_ifs at h with hindex
    · cases hnan : (Number.read frequency.toList).isNaN <;> simp only [hnan] at h <;> cases h
      exact .frequency (isNumbered_iff.2 ⟨number, htokens, hindex⟩) hnan
    · cases h
      refine .malformed fun frequency' hform => ?_
      obtain ⟨number', htokens', hindex'⟩ := isNumbered_iff.1 hform
      cases htokens.symm.trans htokens'
      exact hindex hindex'
  · next hnone =>
    cases h
    refine .malformed fun frequency hform => ?_
    obtain ⟨number, htokens, -⟩ := isNumbered_iff.1 hform
    exact hnone number frequency htokens

theorem readEntries_cons_ok_iff {n : ℕ} : readEntries index ((n, code) :: entries) = .ok values ↔
    ∃ value rest, values = value :: rest ∧ IsEntry index code value ∧
      readEntries (index + 1) entries = .ok rest := by
  constructor
  · intro h
    rw [readEntries] at h
    cases hvalue : readEntry index code with
    | error fault =>
      rw [hvalue] at h
      cases h
    | ok value =>
      rw [hvalue] at h
      cases hrest : readEntries (index + 1) entries with
      | error e =>
        rw [hrest] at h
        cases h
      | ok rest =>
        rw [hrest] at h
        cases h
        exact ⟨value, rest, rfl, readEntry_ok_iff.1 hvalue, rfl⟩
  · rintro ⟨value, rest, rfl, hentry, hrest⟩
    have hfirst : readEntry index code = .ok value := readEntry_ok_iff.2 hentry
    rw [readEntries, hfirst, hrest]
    rfl

/-- Lines are read as entries if each of them is the one with the next index. -/
theorem readEntries_ok_iff : readEntries index entries = .ok values ↔
    entries.length = values.length ∧
    ∀ j n code, entries[j]? = some (n, code) →
      ∃ value, values[j]? = some value ∧ IsEntry (index + j) code value := by
  induction entries generalizing index values with
  | nil =>
    constructor
    · rintro ⟨⟩
      simp
    · rintro ⟨hlength, -⟩
      rw [List.eq_nil_of_length_eq_zero hlength.symm]
      rfl
  | cons line entries ih =>
    obtain ⟨n, code⟩ := line
    rw [readEntries_cons_ok_iff]
    constructor
    · rintro ⟨value, values, rfl, hvalue, hvalues⟩
      obtain ⟨hlength, hentries⟩ := ih.1 hvalues
      refine ⟨congrArg Nat.succ hlength, fun j m c hj => ?_⟩
      cases j with
      | zero =>
        cases hj
        exact ⟨value, rfl, hvalue⟩
      | succ j =>
        have hnext := hentries j m c hj
        rwa [Nat.add_right_comm] at hnext
    · rintro ⟨hlength, hentries⟩
      obtain ⟨value, values, rfl⟩ := List.exists_cons_of_length_eq_add_one hlength.symm
      obtain ⟨first, hfirst, hentry⟩ := hentries 0 n code rfl
      cases hfirst
      refine ⟨value, values, rfl, hentry, ih.2 ⟨Nat.succ_inj.1 hlength, fun j m c hj => ?_⟩⟩
      rw [Nat.add_right_comm]
      exact hentries (j + 1) m c hj

/-- Lines are refused for the first that is not the entry with the next index. -/
theorem readEntries_fails (h : readEntries index entries = .error e) : ∃ j code,
    entries[j]? = some (e.line, code) ∧ Fails (index + j) code e.fault.kind ∧
      ∀ i < j, ∃ n code value, entries[i]? = some (n, code) ∧ IsEntry (index + i) code value := by
  induction entries generalizing index with
  | nil => cases h
  | cons line entries ih =>
    obtain ⟨n, code⟩ := line
    rw [readEntries] at h
    cases hvalue : readEntry index code with
    | error fault =>
      rw [hvalue] at h
      cases h
      exact ⟨0, code, rfl, readEntry_fails hvalue, by simp⟩
    | ok value =>
      rw [hvalue] at h
      cases hrest : readEntries (index + 1) entries with
      | ok rest =>
        rw [hrest] at h
        cases h
      | error e' =>
        rw [hrest] at h
        cases h
        obtain ⟨j, code', hj, hfails, hbefore⟩ := ih hrest
        rw [Nat.add_right_comm] at hfails
        refine ⟨j + 1, code', hj, hfails, fun i hi => ?_⟩
        cases i with
        | zero => exact ⟨n, code, value, rfl, readEntry_ok_iff.1 hvalue⟩
        | succ i =>
          have hnext := hbefore i (Nat.lt_of_succ_lt_succ hi)
          rwa [Nat.add_right_comm] at hnext

theorem parse_ok_iff {text : String} :
    parse text = .ok values ↔ Accepted (significant text) values := by
  unfold parse
  cases significant text with
  | nil =>
    constructor
    · rintro ⟨⟩
    · rintro ⟨⟨n, code, hnone, -⟩, -, -⟩
      cases hnone
  | cons line entries =>
    obtain ⟨n, code⟩ := line
    constructor
    · intro h
      dsimp only at h
      split_ifs at h with hversion
      obtain ⟨hlength, hentries⟩ := readEntries_ok_iff.1 h
      simp only [Nat.zero_add] at hentries
      exact ⟨⟨n, code, rfl, isVersion_iff.1 hversion⟩, congrArg Nat.succ hlength, hentries⟩
    · rintro ⟨⟨n', code', hhere, hversion⟩, hlength, hentries⟩
      cases hhere
      dsimp only
      rw [if_pos (isVersion_iff.2 hversion), readEntries_ok_iff]
      simp only [Nat.zero_add]
      exact ⟨Nat.succ_inj.1 hlength, hentries⟩

theorem parse_refused {text : String} (h : parse text = .error e) :
    Refused (significant text) e.fault.kind e.line := by
  unfold parse at h
  cases hsaid : significant text with
  | nil =>
    rw [hsaid] at h
    cases h
    exact .empty rfl
  | cons line entries =>
    obtain ⟨n, code⟩ := line
    rw [hsaid] at h
    dsimp only at h
    split_ifs at h with hversion
    · obtain ⟨j, code', hj, hfails, hbefore⟩ := readEntries_fails h
      rw [Nat.zero_add] at hfails
      simp only [Nat.zero_add] at hbefore
      exact .entry ⟨n, code, rfl, isVersion_iff.1 hversion⟩ hbefore hj hfails
    · cases h
      exact .version rfl fun h => hversion (isVersion_iff.2 h)

/-- A text is a file with these frequencies exactly if the lines that say something are its version
and, one for each index from 0 on, the entries with these frequencies. Otherwise it is refused for
the first line that breaks this, or as a file without version if no line is left. -/
theorem parse_verdict (text : String) :
    Says (Text.lines text.toList) (significant text) ∧
      (∀ values, parse text = .ok values ↔ Accepted (significant text) values) ∧
      ∀ e, parse text = .error e → Refused (significant text) e.fault.kind e.line := by
  refine ⟨says_significant text, fun values => ?_, fun e h => ?_⟩
  · exact parse_ok_iff
  · exact parse_refused h

end RadarTimeline.FrequencyTable
