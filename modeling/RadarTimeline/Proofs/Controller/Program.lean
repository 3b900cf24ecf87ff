import RadarTimeline.Proofs.Controller.Transition

namespace RadarTimeline

namespace Gate

/-- The mnemonics that turn a gate on. -/
def onNames : Gate → List String
  | .rf => ["RFON"]
  | .setting .rxprot => ["RXPROT"]
  | .setting .loprot => ["LOPROT"]
  | .setting .cal => ["CALON", "CAL100"]
  | .setting .beam => ["BEAMON"]
  | .channel c => [Channel.name c]

/-- The mnemonics that turn only this gate off. -/
def offNames : Gate → List String
  | .rf => ["RFOFF"]
  | .setting .rxprot => ["RXPOFF"]
  | .setting .loprot => ["LOPOFF"]
  | .setting .cal => ["CALOFF", "CAL0"]
  | .setting .beam => ["BEAMOFF"]
  | .channel c => [Channel.name c ++ "OFF"]

/-- The mnemonics that turn a gate off if it is on. -/
def releaseNames : Gate → List String
  | .channel _ => ["ALLOFF"]
  | _ => []

def toggle (g : Gate) (mnemonic : String) : Toggle :=
  if mnemonic ∈ g.onNames then .on
  else if mnemonic ∈ g.offNames then .off
  else if mnemonic ∈ g.releaseNames then .release
  else .keep

theorem toggle_ne_hold (g : Gate) (mnemonic : String) : g.toggle mnemonic ≠ .hold := by
  unfold toggle
  split_ifs <;> exact Toggle.noConfusion

theorem mem_all (g : Gate) : g ∈ all := by
  rcases g with _ | s | c
  · decide
  · cases s <;> decide
  · revert c
    decide

end Gate

namespace Controller

def phaseOf? (mnemonic : String) : Option Phase :=
  if mnemonic = "PHA0" then some .deg0
  else if mnemonic = "PHA180" then some .deg180
  else none

def pathOf? (mnemonic : String) : Option Nat :=
  if mnemonic = "AD1L" ∨ mnemonic = "AD1R" then some 0
  else if mnemonic = "AD2L" ∨ mnemonic = "AD2R" then some 1
  else none

namespace Action

def phase? : Action → Option Phase
  | phase p => some p
  | _ => none

def path? : Action → Option Nat
  | route path _ => some path
  | _ => none

end Action

def switching : List (String × Action) := fixedActions ++ Channel.all.flatMap channelActions

theorem switching_toggle :
    ∀ entry ∈ switching, ∀ g ∈ Gate.all, entry.2.toggle (.gate g) = g.toggle entry.1 := by
  decide +kernel

theorem switching_phase : ∀ entry ∈ switching, entry.2.phase? = phaseOf? entry.1 := by
  decide +kernel

theorem switching_path : ∀ entry ∈ switching, entry.2.path? = pathOf? entry.1 := by
  decide +kernel

theorem names_switching (g : Gate) :
    ∀ n ∈ g.onNames ++ g.offNames ++ g.releaseNames, n ∈ switching.map Prod.fst := by
  have h : ∀ g ∈ Gate.all, ∀ n ∈ g.onNames ++ g.offNames ++ g.releaseNames,
      n ∈ switching.map Prod.fst := by
    decide +kernel
  exact h g g.mem_all

theorem sharedNames_switching :
    ∀ n ∈ ["PHA0", "PHA180", "AD1L", "AD1R", "AD2L", "AD2R"],
      n ∈ switching.map Prod.fst := by
  decide +kernel

/-- The other mnemonics are those of an action that switches no gate, holds no phase and routes
nothing. -/
theorem quiet_of_not_switching {mnemonic : String} (h : switching.lookup mnemonic = none)
    (g : Gate) :
    let a := (Action.ofMnemonic? mnemonic).getD .nothing
    a.toggle (.gate g) = .keep ∧ a.phase? = none ∧ a.path? = none := by
  have hsplit : actions = switching ++ (silentMnemonics.map (·, .nothing) ++
      (List.range transmitterFrequencies).map (fun i => (s!"F{i}", .transmit i)) ++
      (List.range selectableEntries).map (fun i => (s!"NCOSEL{i}", .selectEntry i))) := by
    simp only [actions, switching, List.append_assoc]
  -- what is left of the table does nothing, transmits or selects
  rw [Action.ofMnemonic?, hsplit, List.lookup_append, h, Option.none_or]
  cases ha : List.lookup mnemonic _ with
  | none => exact ⟨rfl, rfl, rfl⟩
  | some a =>
    obtain ⟨before, rest, hl, -⟩ := List.lookup_eq_some_iff.1 ha
    have hm : (mnemonic, a) ∈ before ++ (mnemonic, a) :: rest := by simp
    rw [← hl, List.mem_append, List.mem_append] at hm
    rcases hm with (hm | hm) | hm <;> obtain ⟨i, -, he⟩ := List.mem_map.1 hm <;> cases he <;>
      exact ⟨rfl, rfl, rfl⟩

theorem toggle_of_not_switching {mnemonic : String} (h : mnemonic ∉ switching.map Prod.fst)
    (g : Gate) :
    g.toggle mnemonic = .keep ∧ phaseOf? mnemonic = none ∧ pathOf? mnemonic = none := by
  have hg : mnemonic ∉ g.onNames ++ g.offNames ++ g.releaseNames :=
    fun hm => h (names_switching g _ hm)
  have hn : ∀ n ∈ ["PHA0", "PHA180", "AD1L", "AD1R", "AD2L", "AD2R"], mnemonic ≠ n :=
    fun n hn he => h (he ▸ sharedNames_switching n hn)
  simp only [List.mem_append, not_or] at hg
  obtain ⟨⟨hon, hoff⟩, hrelease⟩ := hg
  simp only [List.forall_mem_cons, List.not_mem_nil] at hn
  obtain ⟨h0, h180, h1l, h1r, h2l, h2r, -⟩ := hn
  refine ⟨?_, ?_, ?_⟩
  · rw [Gate.toggle, if_neg hon, if_neg hoff, if_neg hrelease]
  · rw [phaseOf?, if_neg h0, if_neg h180]
  · rw [pathOf?, if_neg (not_or.2 ⟨h1l, h1r⟩), if_neg (not_or.2 ⟨h2l, h2r⟩)]

theorem action_means (c : Command) (g : Gate) :
    c.action.toggle (.gate g) = g.toggle c.mnemonic ∧ c.action.phase? = phaseOf? c.mnemonic ∧
      c.action.path? = pathOf? c.mnemonic := by
  cases h : switching.lookup c.mnemonic with
  | none =>
    have hm : c.mnemonic ∉ switching.map Prod.fst := by
      intro hm
      obtain ⟨entry, he, hc⟩ := List.mem_map.1 hm
      exact absurd hc.symm (by simpa using List.lookup_eq_none_iff.1 h entry he)
    obtain ⟨ht, hp, hr⟩ := toggle_of_not_switching hm g
    rw [ht, hp, hr]
    exact quiet_of_not_switching h g
  | some a =>
    have ha : c.action = a := by
      rw [Command.action, Action.ofMnemonic?, actions, ← switching, List.append_assoc,
        List.append_assoc, List.lookup_append, h]
      rfl
    obtain ⟨before, rest, hl, -⟩ := List.lookup_eq_some_iff.1 h
    have hm : (c.mnemonic, a) ∈ switching := by
      rw [hl]
      simp
    rw [ha]
    exact ⟨switching_toggle _ hm g g.mem_all, switching_phase _ hm, switching_path _ hm⟩

theorem toggle_phase_line (a : Action) (p : Phase) :
    a.toggle (.phase p) =
      match a.phase? with
      | some q => if p = q then .hold else .release
      | none => .keep := by
  cases a <;> rfl

theorem history_eq (a : Action) (time : Float) (h : PhaseHistory) :
    a.history time h =
      match a.phase? with
      | some p => h.set time p
      | none => h := by
  cases a <;> rfl

theorem fed_iff (a : Action) (o : Oscillators) :
    a.Fed o ↔ ∀ path ∈ a.path?, (o.onPath? path).isSome := by
  cases a <;> simp [Action.Fed, Action.path?]

/-- The time of a command is a number that is finite and not negative. -/
def Command.Timely (c : Command) : Prop := c.time.isFinite ∧ ¬ c.time < 0

instance (c : Command) : Decidable c.Timely := inferInstanceAs (Decidable (_ ∧ _))

/-- A program cut at every `SETTCR` with a positive time. Commands carry the time they are resolved
to, the register plus their own. -/
def parts (register : Float) : List Command → List (List (Timed Command))
  | [] => [[]]
  | c :: cs =>
    if c.mnemonic = "SETTCR" then
      if c.time > 0 then [] :: parts c.time cs else parts c.time cs
    else (parts register cs).modifyHead (⟨register + c.time, c⟩ :: ·)

theorem parts_ne_nil (register : Float) (cs : List Command) : parts register cs ≠ [] := by
  induction cs generalizing register with
  | nil => exact List.cons_ne_nil _ _
  | cons c cs ih =>
    rw [parts]
    split_ifs
    · exact List.cons_ne_nil _ _
    · exact ih c.time
    · exact mt List.modifyHead_eq_nil_iff.1 (ih register)

section Parts

variable {register : Float} {c : Command} {cs : List Command}

theorem parts_reset (hs : c.mnemonic = "SETTCR") (ht : ¬ c.time > 0) :
    parts register (c :: cs) = parts c.time cs := by
  rw [parts, if_pos hs, if_neg ht]

theorem parts_split (hs : c.mnemonic = "SETTCR") (ht : c.time > 0) :
    parts register (c :: cs) = [] :: parts c.time cs := by
  rw [parts, if_pos hs, if_pos ht]

theorem parts_act (hs : c.mnemonic ≠ "SETTCR") :
    parts register (c :: cs) = (parts register cs).modifyHead (⟨register + c.time, c⟩ :: ·) := by
  rw [parts, if_neg hs]

end Parts

/-- The pairs of on and off times by which commands switch a gate. -/
def periods (g : Gate) : Option Float → List (Timed Command) → List (Float × Float)
  | _, [] => []
  | held, e :: es =>
    match g.toggle e.event.mnemonic with
    | .on => periods g (some e.time) es
    | .off | .release => (held.map (·, e.time)).toList ++ periods g none es
    | .hold | .keep => periods g held es

/-- Commands turn a gate on and off in turns and leave it off. -/
def Alternates (g : Gate) : Option Float → List (Timed Command) → Prop
  | held, [] => held = none
  | held, e :: es =>
    match g.toggle e.event.mnemonic with
    | .on => held = none ∧ Alternates g (some e.time) es
    | .off => held ≠ none ∧ Alternates g none es
    | .release => Alternates g none es
    | .hold | .keep => Alternates g held es

instance (g : Gate) : (held : Option Float) → (es : List (Timed Command)) →
    Decidable (Alternates g held es)
  | none, [] => isTrue rfl
  | some _, [] => isFalse (Option.some_ne_none _)
  | held, e :: es =>
    have (held' : Option Float) : Decidable (Alternates g held' es) :=
      instDecidableAlternates g held' es
    match ht : g.toggle e.event.mnemonic with
    | .on =>
      decidable_of_iff (held = none ∧ Alternates g (some e.time) es) (by simp [Alternates, ht])
    | .off => decidable_of_iff (held ≠ none ∧ Alternates g none es) (by simp [Alternates, ht])
    | .release => decidable_of_iff (Alternates g none es) (by simp [Alternates, ht])
    | .hold | .keep => decidable_of_iff (Alternates g held es) (by simp [Alternates, ht])

/-- The times of the boundaries: positive `SETTCR`s and `REP`. -/
def boundaryTimes : List Command → List Float
  | [] => []
  | c :: cs =>
    if c.mnemonic = "REP" ∨ c.mnemonic = "SETTCR" ∧ c.time > 0 then c.time :: boundaryTimes cs
    else boundaryTimes cs

/-- What bears on the held phase: boundaries, which are `none`, and commands that ask for a
phase. -/
def phaseMarks (register : Float) : List Command → List (Timed (Option Phase))
  | [] => []
  | c :: cs =>
    if c.mnemonic = "SETTCR" then
      if c.time > 0 then ⟨c.time, none⟩ :: phaseMarks c.time cs else phaseMarks c.time cs
    else if c.mnemonic = "REP" then ⟨c.time, none⟩ :: phaseMarks register cs
    else match phaseOf? c.mnemonic with
      | some p => ⟨register + c.time, some p⟩ :: phaseMarks register cs
      | none => phaseMarks register cs

def heldNext (held : Option (Timed Phase)) (time : Float) (p : Phase) : Timed Phase :=
  match held with
  | some e => if e.event = p then e else ⟨time, p⟩
  | none => ⟨time, p⟩

/-- For how long each phase is held. A phase lasts to the command that changes it or to a boundary,
where the one that the history then has in effect is taken up. -/
def phasePeriods (h : PhaseHistory) (held : Option (Timed Phase)) :
    List (Timed (Option Phase)) → List (Float × Float)
  | [] => []
  | ⟨time, none⟩ :: ms =>
    (held.map (·.time, time)).toList ++ phasePeriods h ((h.at? time).map (⟨time, ·⟩)) ms
  | ⟨time, some p⟩ :: ms =>
    ((held.filter (·.event ≠ p)).map (·.time, time)).toList ++
      phasePeriods (h.set time p) (heldNext held time p) ms

end Controller

end RadarTimeline
