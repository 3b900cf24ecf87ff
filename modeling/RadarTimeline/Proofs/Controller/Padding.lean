import RadarTimeline.Proofs.Controller.Heedless

namespace RadarTimeline.Controller

namespace Command

/-- A command that is not known or of no interest. -/
def Idle (c : Command) : Prop :=
  c.mnemonic ≠ "SETTCR" ∧ c.mnemonic ≠ "REP" ∧ ∀ a ∈ Action.ofMnemonic? c.mnemonic, a = .nothing

instance (c : Command) : Decidable c.Idle := inferInstanceAs (Decidable (_ ∧ _))

/-- A `SETTCR 0`. -/
def IsReset (c : Command) : Prop := c.mnemonic = "SETTCR" ∧ c.time = 0

end Command

/-- An old program, what is put into it, and the new program. Idle commands come anywhere before the
first `REP`, and resets right before it. -/
inductive Padded : List Command → List Command → List Command → Prop
  | ending {rest tail : List Command} (hrest : ∀ c ∈ rest.head?, c.mnemonic = "REP")
      (htail : ∀ c ∈ tail, c.Idle ∨ c.IsReset) : Padded rest tail (tail ++ rest)
  | keep {old extra new : List Command} {c : Command} (hc : c.mnemonic ≠ "REP")
      (h : Padded old extra new) : Padded (c :: old) extra (c :: new)
  | idle {old extra new : List Command} {c : Command} (hc : c.Idle) (h : Padded old extra new) :
      Padded old (c :: extra) (c :: new)

variable {keep : Bool} {m m' : Machine} {c : Command} {cs lead old extra new : List Command}

theorem Padded.perm (h : Padded old extra new) : new.Perm (old ++ extra) := by
  induction h with
  | ending => exact List.perm_append_comm
  | keep _ _ ih => exact ih.cons _
  | idle _ _ ih => exact (ih.cons _).trans List.perm_middle.symm

/-- A program ends the cycle with its last command. -/
def EndsCycle (cs : List Command) : Prop := ∃ last, cs.getLast? = some last ∧ last.mnemonic = "REP"

theorem endsCycle_cons (hc : c.mnemonic ≠ "REP") : EndsCycle (c :: cs) ↔ EndsCycle cs := by
  cases cs with
  | nil => simp [EndsCycle, hc]
  | cons d cs => simp [EndsCycle, List.getLast?_cons_cons]

theorem endsCycle_append (hcs : ∀ c ∈ cs, c.mnemonic ≠ "REP") :
    EndsCycle (cs ++ old) ↔ EndsCycle old := by
  induction cs with
  | nil => rfl
  | cons c cs ih =>
    obtain ⟨hc, hcs⟩ := List.forall_mem_cons.1 hcs
    rw [List.cons_append, endsCycle_cons hc, ih hcs]

theorem not_end_of_skipped (h : c.Idle ∨ c.IsReset) : c.mnemonic ≠ "REP" := by
  rcases h with h | h
  · exact h.2.1
  · exact not_end_of_setTime h.1

theorem Padded.endsCycle_iff (h : Padded old extra new) : EndsCycle new ↔ EndsCycle old := by
  induction h with
  | ending _ htail => exact endsCycle_append fun c hc => not_end_of_skipped (htail c hc)
  | keep hc _ ih => rw [endsCycle_cons hc, endsCycle_cons hc, ih]
  | idle hc _ ih => rw [endsCycle_cons hc.2.1, ih]

section Steps

theorem running_muted : (m.muted keep).core.Running ↔ m.core.Running :=
  ⟨fun h => ⟨h.cycle, h.subcycle, h.unfinished⟩, fun h => ⟨h.cycle, h.subcycle, h.unfinished⟩⟩

theorem running_of_muted (h : m'.muted keep = m.muted keep) (hm : m.core.Running) :
    m'.core.Running := by
  rw [← running_muted, ← h] at hm
  exact running_muted.1 hm

theorem muted_of_muted (h : m'.muted true = m.muted true) : m'.muted keep = m.muted keep := by
  cases keep with
  | true => exact h
  | false =>
    have hfalse : (m'.muted true).muted false = (m.muted true).muted false := by rw [h]
    exact hfalse

theorem forM_append (before rest : List Command) :
    (before ++ rest).forM step = before.forM step >>= fun _ => rest.forM step :=
  List.forM_append

theorem step_idle (hc : c.Idle) (hm : m.core.Running) :
    ∃ m', step c m = .ok () m' ∧ m'.muted true = m.muted true := by
  rw [step_of_begun hm.cycle hm.unfinished, if_neg hc.1, if_neg hc.2.1, execute_eq,
    if_pos (show m.cycle.isOn = true from hm.cycle), if_pos (show m.subcycles.isOn =
    true from hm.subcycle), dispatch]
  cases ha : Action.ofMnemonic? c.mnemonic with
  | none => exact ⟨_, rfl, rfl⟩
  | some a =>
    obtain rfl := hc.2.2 a ha
    exact ⟨m, rfl, rfl⟩

theorem step_reset (hc : c.IsReset) (hm : m.core.Running) :
    step c m = .ok () { m with register := 0 } := by
  have ht : ¬ c.time > 0 := by
    rw [hc.2]
    decide
  rw [step_of_begun hm.cycle hm.unfinished, if_pos hc.1, setRegister_of_not_pos ht, hc.2]

/-- Idle commands and resets change nothing but the register, and nothing at all if that is zero. -/
theorem forM_skipped (hcs : ∀ c ∈ cs, c.Idle ∨ c.IsReset ∧ (keep = false ∨ m.register = 0))
    (hm : m.core.Running) : ∃ m', cs.forM step m = .ok () m' ∧ m'.muted keep = m.muted keep := by
  induction cs generalizing m with
  | nil => exact ⟨m, rfl, rfl⟩
  | cons c cs ih =>
    obtain ⟨hc, hcs⟩ := List.forall_mem_cons.1 hcs
    obtain ⟨m₁, h₁, hm₁, hzero⟩ : ∃ m₁, step c m = .ok () m₁ ∧ m₁.muted keep = m.muted keep ∧
        (m.register = 0 → m₁.register = 0) := by
      rcases hc with hc | ⟨hc, hr⟩
      · obtain ⟨m₁, h₁, hm₁⟩ := step_idle hc hm
        exact ⟨m₁, h₁, muted_of_muted hm₁, (congrArg Machine.register hm₁).trans⟩
      · refine ⟨_, step_reset hc hm, ?_, fun _ => rfl⟩
        rcases hr with rfl | hr
        · rfl
        · rw [← hr]
    obtain ⟨m₂, h₂, hm₂⟩ :=
      ih (fun d hd => (hcs d hd).imp_right fun h => ⟨h.1, h.2.imp_right hzero⟩)
      (running_of_muted hm₁ hm)
    exact ⟨m₂, (bind_of_ok h₁).trans h₂, hm₂.trans hm₁⟩

/-- The end of the cycle does not depend on the register, and nothing can follow it. -/
theorem forM_end (hcs : ∀ c ∈ cs.head?, c.mnemonic = "REP") (hm : m.core.Running)
    (h : m'.muted keep = m.muted keep) :
    muffled keep (cs.forM step m') = muffled keep (cs.forM step m) := by
  cases cs with
  | nil => exact congrArg (EStateM.Result.ok ()) h
  | cons c cs =>
    have hr : c.mnemonic = "REP" := hcs c rfl
    have hm' := running_of_muted h hm
    have hfinish : ∀ n : Machine, n.core.Running → step c n = finish c n := by
      intro n hn
      rw [step_of_begun hn.cycle hn.unfinished, if_neg (not_setTime_of_end hr), if_pos hr]
    have hfinished : ∀ n n' : Machine, n.core.Running → step c n = .ok () n' →
      n'.finished = true := by
      intro n n' hn hstep
      generalize hk : n'.core = k at *
      have hs : Step n.core c k := (step_iff hn).1 ⟨n', hstep, hk⟩
      change n'.core.finished = true
      rw [hk]
      cases hs with
      | act _ hr' => exact (hr' hr).elim
      | reset hs => exact (not_setTime_of_end hr hs).elim
      | split hs => exact (not_setTime_of_end hr hs).elim
      | finish => rfl
    refine muffled_bind ?_ fun _ n n' h₁ h₂ hn => ?_
    · rw [hfinish m' hm', hfinish m hm]
      exact (silenced_finish c).heedless.congr h
    · cases cs with
      | nil => exact congrArg (EStateM.Result.ok ()) hn
      | cons d cs =>
        have hd := fun n hn =>
          bind_of_error (f := fun _ => cs.forM step) (step_of_finished (c := d) (m := n) hn)
        change muffled keep ((step d >>= fun _ => cs.forM step) n) =
          muffled keep ((step d >>= fun _ => cs.forM step) n')
        rw [hd n (hfinished m' n hm' h₁), hd n' (hfinished m n' hm h₂)]
        exact congrArg (EStateM.Result.error _) hn

theorem running_of_step (hc : c.mnemonic ≠ "REP") (hm : m.core.Running) (h : step c m = .ok () m') :
    m'.core.Running := by
  obtain ⟨k, hk⟩ : ∃ k, m'.core = k := ⟨_, rfl⟩
  have hs : Step m.core c k := (step_iff hm).1 ⟨m', h, hk⟩
  rw [hk]
  cases hs with
  | act _ _ hp => exact hp.running hm
  | reset => exact ⟨hm.cycle, hm.subcycle, hm.unfinished⟩
  | split => exact ⟨hm.cycle, rfl, hm.unfinished⟩
  | finish hr => exact (hc hr).elim

/-- The steps of the new program do what those of the old one do. -/
theorem Padded.forM (h : Padded old extra new) (hextra : ∀ c ∈ extra, c.Idle ∨ keep = false)
    (hm : m.core.Running) (hmm : m'.muted true = m.muted true) :
    muffled keep (new.forM step m') = muffled keep (old.forM step m) := by
  induction h generalizing m m' with
  | @ending rest tail hrest htail =>
    have hm' := running_of_muted hmm hm
    obtain ⟨m₁, h₁, hm₁⟩ : ∃ m₁, tail.forM step m' = .ok () m₁ ∧ m₁.muted keep = m'.muted keep := by
      refine forM_skipped (fun c hc => ?_) hm'
      rcases htail c hc with hi | hr
      · exact .inl hi
      · exact (hextra c hc).imp_right fun hk => ⟨hr, .inl hk⟩
    rw [forM_append, bind_of_ok h₁]
    exact forM_end hrest hm (hm₁.trans (muted_of_muted hmm))
  | @keep old extra new c hc h ih =>
    change muffled _ ((step c >>= fun _ => new.forM step) m') =
      muffled _ ((step c >>= fun _ => old.forM step) m)
    rcases muffled_cases ((heedless_step c).congr hmm) with ⟨_, n', n, h₁, h₂, hn⟩
      | ⟨e, n', n, h₁, h₂, hn⟩
    · rw [bind_of_ok h₁, bind_of_ok h₂]
      exact ih hextra (running_of_step hc hm h₂) hn
    · rw [bind_of_error h₁, bind_of_error h₂]
      exact congrArg (EStateM.Result.error e) (muted_of_muted hn)
  | @idle old extra new c hc h ih =>
    obtain ⟨hidle, hextra⟩ := List.forall_mem_cons.1 hextra
    obtain ⟨m₁, h₁, hm₁⟩ := step_idle hc (running_of_muted hmm hm)
    change muffled _ ((step c >>= fun _ => new.forM step) m') = _
    rw [bind_of_ok h₁]
    exact ih hextra hm (hm₁.trans hmm)

end Steps

section Run

variable {o : Oscillators} {tables : Channel → Option (List Float)}

def Machine.begun (o : Oscillators) (tables : Channel → Option (List Float)) : Machine :=
  { Machine.initial o tables with cycle := ⟨#[], some 0⟩, subcycles := ⟨⟨#[], some 0⟩, #[]⟩ }

theorem running_begun : (Machine.begun o tables).core.Running := ⟨rfl, rfl, rfl⟩

theorem checkEnd_of_endsCycle (h : EndsCycle cs) (m : Machine) :
    ∃ m', checkEnd cs m = .ok () m' ∧ m'.muted true = m.muted true ∧ m'.warnings = m.warnings := by
  obtain ⟨last, hl, hr⟩ := h
  let said := s!"Program finished after {m.subcycles.count} subcycle(s)"
  refine ⟨{ m with log := m.log.push (.debug, said) }, ?_, rfl, rfl⟩
  unfold checkEnd
  rw [hl]
  exact if_pos hr

theorem endsCycle_of_checkEnd (h : checkEnd cs m = .ok () m') : EndsCycle cs :=
  (checkEnd_iff.1 ⟨m', h, rfl⟩).1

theorem stepAll_muffled (cs : List Command) (h : m'.muted true = m.muted true) :
    muffled true (stepAll cs m') = muffled true (cs.forM step m) := by
  induction cs generalizing m m' with
  | nil => exact congrArg (EStateM.Result.ok ()) h
  | cons c cs ih =>
    obtain ⟨m₁, h₁, hm₁⟩ : ∃ m₁, (if isMisplaced c cs then warn c misplacedReset else pure ()) m' =
        .ok () m₁ ∧ m₁.muted true = m'.muted true := by
      split_ifs
      · exact ⟨_, rfl, rfl⟩
      · exact ⟨m', rfl, rfl⟩
    rw [stepAll_bind, bind_of_ok h₁]
    exact muffled_bind ((heedless_step c).congr (hm₁.trans h)) fun _ _ _ _ _ hn => ih hn

/-- A program is replayed if it ends the cycle and its commands can be replayed one by one. -/
theorem run_muted_iff {k : Machine} :
    (∃ m, run cs (Machine.initial o tables) = .ok () m ∧ m.muted true = k) ↔
      EndsCycle cs ∧ ∃ n, cs.forM step (Machine.begun o tables) = .ok () n ∧ n.muted true = k := by
  cases cs with
  | nil =>
    constructor
    · rintro ⟨_, ⟨⟩, -⟩
    · rintro ⟨⟨_, ⟨⟩, -⟩, -⟩
  | cons c cs =>
    -- the first command opens the cycle, and each run goes the same way from there
    have hfirst : step c (Machine.initial o tables) = step c (Machine.begun o tables) :=
      step_of_new rfl rfl rfl
    have hrest : muffled true ((step c >>= fun _ => stepAll cs) (Machine.initial o tables)) =
        muffled true ((c :: cs).forM step (Machine.begun o tables)) :=
      muffled_bind (g := fun _ => cs.forM step) (congrArg (muffled true) hfirst)
        fun _ _ _ _ _ hn => stepAll_muffled cs hn
    have hrun : run (c :: cs) = (step c >>= fun _ => stepAll cs) >>=
      fun _ => checkEnd (c :: cs) := by
      rw [run_cons]
      exact (bind_assoc _ _ _).symm
    rw [hrun]
    constructor
    · rintro ⟨m, h, rfl⟩
      obtain ⟨_, m₁, h₁, h₂⟩ := bind_eq_ok.1 h
      have hends := endsCycle_of_checkEnd h₂
      obtain ⟨m₂, h₂', hm₂, -⟩ := checkEnd_of_endsCycle hends m₁
      rw [h₂] at h₂'
      cases h₂'
      rw [h₁] at hrest
      rcases muffled_cases hrest with ⟨_, _, n, ⟨⟩, hn, hmuted⟩ | ⟨_, _, _, ⟨⟩, -, -⟩
      exact ⟨hends, n, hn, hmuted.symm.trans hm₂.symm⟩
    · rintro ⟨hends, n, hn, rfl⟩
      rw [hn] at hrest
      rcases muffled_cases hrest with ⟨_, m₁, _, h₁, ⟨⟩, hmuted⟩ | ⟨_, _, _, -, ⟨⟩, -⟩
      obtain ⟨m₂, h₂, hm₂, -⟩ := checkEnd_of_endsCycle hends m₁
      exact ⟨m₂, (bind_of_ok h₁).trans h₂, hm₂.trans hmuted⟩

/-- The warnings about commands that are not known. -/
def Machine.reported (m : Machine) : List Warning :=
  m.warnings.toList.filter fun w => w.mnemonic ≠ "SETTCR"

theorem reported_of_warnings {ws : List Warning}
    (h : m'.warnings.toList = m.warnings.toList ++ ws) :
    m'.reported = m.reported ++ ws.filter fun w => w.mnemonic ≠ "SETTCR" := by
  rw [Machine.reported, h, List.filter_append]
  rfl

theorem filter_unknown? (c : Command) :
    c.unknown?.toList.filter (fun w => w.mnemonic ≠ "SETTCR") = c.unknown?.toList := by
  rw [Command.unknown?]
  split_ifs with hc ha
  · rfl
  · rfl
  · simp [(not_or.1 hc).1]

theorem filterMap_unknown?_cons (c : Command) (cs : List Command) :
    (c :: cs).filterMap Command.unknown? = c.unknown?.toList ++ cs.filterMap Command.unknown? := by
  cases hc : c.unknown? with
  | none => exact List.filterMap_cons_none hc
  | some w => exact List.filterMap_cons_some hc

theorem reported_stepAll (h : stepAll cs m = .ok () m') :
    m'.reported = m.reported ++ cs.filterMap Command.unknown? := by
  induction cs generalizing m with
  | nil =>
    cases h
    exact (List.append_nil _).symm
  | cons c cs ih =>
    rw [stepAll_bind] at h
    obtain ⟨_, m₁, h₁, h⟩ := bind_eq_ok.1 h
    obtain ⟨_, m₂, h₂, h⟩ := bind_eq_ok.1 h
    -- the warning about a reset is none of those
    have hm₁ : m₁.reported = m.reported := by
      split_ifs at h₁ with hw
      · cases h₁
        have hs : c.mnemonic = "SETTCR" := by
          simp only [isMisplaced, Bool.and_eq_true, beq_iff_eq] at hw
          exact hw.1.1
        have hpush : (m.warnings.push ⟨c.line, c.mnemonic, misplacedReset⟩).toList =
            m.warnings.toList ++ [⟨c.line, c.mnemonic, misplacedReset⟩] := Array.toList_push
        rw [reported_of_warnings hpush]
        simp [hs]
      · cases h₁
        rfl
    rw [ih h, reported_of_warnings (step_warnings h₂), filter_unknown?, hm₁,
      filterMap_unknown?_cons, List.append_assoc]

/-- A replay reports each command that is not known, in the order of the program. -/
theorem reported_run (h : run cs (Machine.initial o tables) = .ok () m) :
    m.reported = cs.filterMap Command.unknown? := by
  cases cs with
  | nil => cases h
  | cons c cs =>
    rw [run_cons] at h
    obtain ⟨_, m₁, h₁, h⟩ := bind_eq_ok.1 h
    obtain ⟨_, m₂, h₂, h⟩ := bind_eq_ok.1 h
    obtain ⟨m₃, h₃, -, hw⟩ := checkEnd_of_endsCycle (endsCycle_of_checkEnd h) m₂
    rw [h] at h₃
    cases h₃
    have hnew : (Machine.initial o tables).reported = [] := rfl
    rw [Machine.reported, hw, ← Machine.reported, reported_stepAll h₂,
      reported_of_warnings (step_warnings h₁), filter_unknown?, hnew, List.nil_append,
      filterMap_unknown?_cons]

theorem eq_of_muted (h : m'.muted keep = m.muted keep) :
    m' = { m with register := m'.register, warnings := m'.warnings, log := m'.log } := by
  have hwith : ({ m'.muted keep with
      register := m'.register, warnings := m'.warnings, log := m'.log } : Machine) =
      { m.muted keep with register := m'.register, warnings := m'.warnings, log := m'.log } := by
    rw [h]
  exact hwith

/-- The replay of a program with idle commands and resets put into it goes the same way. -/
theorem Padded.muted_run (hlead : ∀ c ∈ lead, c.Idle ∨ c.IsReset) (h : Padded old extra new)
    (hextra : ∀ c ∈ extra, c.Idle ∨ keep = false) (k : Machine) :
    (∃ m, run (lead ++ new) (Machine.initial o tables) = .ok () m ∧ m.muted keep = k) ↔
      ∃ m, run old (Machine.initial o tables) = .ok () m ∧ m.muted keep = k := by
  have hkeep : ∀ cs, (∃ m, run cs (Machine.initial o tables) = .ok () m ∧ m.muted keep = k) ↔
      EndsCycle cs ∧ ∃ n, cs.forM step (Machine.begun o tables) = .ok () n ∧ n.muted keep = k := by
    intro cs
    constructor
    · rintro ⟨m, hm, rfl⟩
      obtain ⟨hends, n, hn, hmuted⟩ := run_muted_iff.1 ⟨m, hm, rfl⟩
      exact ⟨hends, n, hn, muted_of_muted hmuted⟩
    · rintro ⟨hends, n, hn, rfl⟩
      obtain ⟨m, hm, hmuted⟩ := run_muted_iff.2 ⟨hends, n, hn, rfl⟩
      exact ⟨m, hm, muted_of_muted hmuted⟩
  obtain ⟨m₁, h₁, hm₁⟩ : ∃ m₁, lead.forM step (Machine.begun o tables) = .ok () m₁ ∧
      m₁.muted true = (Machine.begun o tables).muted true :=
    forM_skipped (fun c hc => (hlead c hc).imp_right fun hr => ⟨hr, .inr rfl⟩) running_begun
  have hsame := h.forM hextra running_begun hm₁
  rw [hkeep, hkeep, endsCycle_append fun c hc => not_end_of_skipped (hlead c hc), h.endsCycle_iff,
    forM_append, bind_of_ok h₁]
  refine and_congr_right fun _ => ?_
  constructor
  · rintro ⟨n, hn, rfl⟩
    rw [hn] at hsame
    rcases muffled_cases hsame with ⟨_, _, n', ⟨⟩, hn', hmuted⟩ | ⟨_, _, _, ⟨⟩, -, -⟩
    exact ⟨n', hn', hmuted.symm⟩
  · rintro ⟨n', hn', rfl⟩
    rw [hn'] at hsame
    rcases muffled_cases hsame with ⟨_, n, _, hn, ⟨⟩, hmuted⟩ | ⟨_, _, _, -, ⟨⟩, -⟩
    exact ⟨n, hn, hmuted⟩

/-- Commands that are not known or of no interest can be put anywhere into a program before its
first `REP`, and resets at its start or right before that `REP`. The new program is replayed exactly
if the old one is. Then nothing of the machine differs but the register, the warnings and the log;
the register differs only if a reset was put in before the `REP`; and each command that is not known
adds its one warning. -/
theorem run_padded (hlead : ∀ c ∈ lead, c.Idle ∨ c.IsReset) (h : Padded old extra new)
    (o : Oscillators) (tables : Channel → Option (List Float)) :
    succeeds (run (lead ++ new) (Machine.initial o tables)) =
        succeeds (run old (Machine.initial o tables)) ∧
      ∀ m m', run old (Machine.initial o tables) = .ok () m →
        run (lead ++ new) (Machine.initial o tables) = .ok () m' →
        m' = { m with register := m'.register, warnings := m'.warnings, log := m'.log } ∧
          ((∀ c ∈ extra, c.Idle) → m'.register = m.register) ∧
          m'.reported.Perm (m.reported ++ (lead ++ extra).filterMap Command.unknown?) := by
  have hmuted : ∀ keep, (∀ c ∈ extra, c.Idle ∨ keep = false) → ∀ m m',
      run old (Machine.initial o tables) = .ok () m →
      run (lead ++ new) (Machine.initial o tables) = .ok () m' → m'.muted keep = m.muted keep := by
    intro keep hextra m m' hm hm'
    obtain ⟨n, hn, hmuted⟩ := (h.muted_run hlead hextra _).1 ⟨m', hm', rfl⟩
    rw [hm] at hn
    cases hn
    exact hmuted.symm
  refine ⟨Bool.eq_iff_iff.2 ⟨fun hs => ?_, fun hs => ?_⟩, fun m m' hm hm' =>
    ⟨?_, fun hidle => ?_, ?_⟩⟩
  · obtain ⟨m', hm'⟩ := exists_ok hs
    obtain ⟨m, hm, -⟩ := (h.muted_run hlead (fun _ _ => .inr rfl) _).1 ⟨m', hm', rfl⟩
    rw [hm]
    rfl
  · obtain ⟨m, hm⟩ := exists_ok hs
    obtain ⟨m', hm', -⟩ := (h.muted_run hlead (fun _ _ => .inr rfl) _).2 ⟨m, hm, rfl⟩
    rw [hm']
    rfl
  · exact eq_of_muted (hmuted false (fun _ _ => .inr rfl) m m' hm hm')
  · have hsame := hmuted true (fun c hc => .inl (hidle c hc)) m m' hm hm'
    have hregister : (m'.muted true).register = (m.muted true).register := by rw [hsame]
    exact hregister
  · rw [reported_run hm, reported_run hm', ← List.filterMap_append]
    refine List.Perm.filterMap _ ((h.perm.append_left lead).trans ?_)
    rw [← List.append_assoc, ← List.append_assoc]
    exact List.perm_append_comm.append_right extra

def transmitting : List Command := [⟨1, "RFON", 3⟩, ⟨2, "RFOFF", 5⟩, ⟨4, "REP", 7⟩]

/-- The transmission with a command that is not known in it and a reset after it. -/
def interrupted : List Command :=
  [⟨1, "RFON", 3⟩, ⟨5, "HOLD", 4⟩, ⟨2, "RFOFF", 5⟩, ⟨0, "SETTCR", 6⟩, ⟨4, "REP", 7⟩]

theorem interrupted_padded :
    Padded transmitting [⟨5, "HOLD", 4⟩, ⟨0, "SETTCR", 6⟩] interrupted := by
  refine .keep (by decide) (.idle (by decide +kernel) (.keep (by decide) ?_))
  refine .ending (by decide) fun c hc => ?_
  rw [List.mem_singleton.1 hc]
  exact .inr ⟨rfl, rfl⟩

theorem run_interrupted :
    succeeds (run ([⟨0, "SETTCR", 1⟩] ++ interrupted)
      (Machine.initial ⟨[some 812], [some 128]⟩ fun _ => none)) = true ∧
    ∀ m m', run transmitting (Machine.initial ⟨[some 812], [some 128]⟩ fun _ => none) = .ok () m →
      run ([⟨0, "SETTCR", 1⟩] ++ interrupted)
        (Machine.initial ⟨[some 812], [some 128]⟩ fun _ => none) = .ok () m' →
      m'.subcycles = m.subcycles ∧
        m'.reported.Perm
          [⟨4, "HOLD", "Command HOLD, called from line 4 is not implemented"⟩] := by
  have hlead : ∀ c ∈ [(⟨0, "SETTCR", 1⟩ : Command)], c.Idle ∨ c.IsReset := by
    intro c hc
    rw [List.mem_singleton.1 hc]
    exact .inr ⟨rfl, rfl⟩
  obtain ⟨hsucceeds, hsame⟩ :=
    run_padded hlead interrupted_padded ⟨[some 812], [some 128]⟩ fun _ => none
  refine ⟨hsucceeds.trans (by decide +kernel), fun m m' hm hm' => ?_⟩
  obtain ⟨heq, -, hreported⟩ := hsame m m' hm hm'
  refine ⟨by rw [heq], ?_⟩
  rw [reported_run hm] at hreported
  exact hreported.trans (.of_eq (by decide +kernel))

end Run

end RadarTimeline.Controller
