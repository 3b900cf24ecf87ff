import RadarTimeline.Proofs.Console.LoadOrder
import Mathlib.Data.List.Basic

namespace RadarTimeline.Console

variable {s base entry depth : Nat} {st st₁ st' : State} {names : List String}

def Event.invocation? : Event → Option (Nat × List String)
  | .command scope words _ => some (scope, words)
  | .jump scope words => some (scope, words)
  | .printed _ => none
  | .logged _ => none

def noted (scopes : Nat → Bool) (names : List String) (events : List Event) : List (List String) :=
  (((events.filterMap Event.invocation?).filter fun call => scopes call.1).map Prod.snd).filter
    fun words => names.contains (words.headD "")

theorem noted_append (scopes : Nat → Bool) (names : List String) (first second : List Event) :
    noted scopes names (first ++ second) =
      noted scopes names first ++ noted scopes names second := by
  simp [noted]

theorem noted_eq_nil {scopes : Nat → Bool} {events : List Event}
    (h : ∀ e ∈ events, ∀ id words, e.invocation? = some (id, words) → scopes id = false) :
    noted scopes names events = [] := by
  have hnone : (events.filterMap Event.invocation?).filter (fun call => scopes call.1) = [] := by
    refine List.filter_eq_nil_iff.2 fun call hcall => ?_
    obtain ⟨e, he, hinvocation⟩ := List.mem_filterMap.1 hcall
    rw [h e he call.1 call.2 hinvocation]
    exact Bool.false_ne_true
  rw [noted, hnone]
  rfl

theorem Event.Shown.invocation? {e : Event} (h : e.Shown) : e.invocation? = none := by
  cases e with
  | printed | logged => rfl
  | command | jump => exact h.elim

namespace State

/-- What a log says of each command: its words, and the scope of the call it made. -/
def links (st : State) (id : Nat) : List (List String × Option Nat) :=
  (st.scope id).log.toList.map fun e => (e.words, e.call)

def callsOf (st : State) (names : List String) (depth : Nat) (link : List String × Option Nat) :
    List (List String) :=
  (if names.contains (link.1.headD "") then [link.1] else []) ++
    (link.2.map (st.callsIn names depth)).getD []

theorem callsIn_zero (st : State) (names : List String) (id : Nat) :
    st.callsIn names 0 id =
      ((st.links id).map Prod.fst).filter fun words => names.contains (words.headD "") := by
  rw [callsIn, links, List.map_map, List.filter_map]
  rfl

theorem callsIn_succ (st : State) (names : List String) (depth id : Nat) :
    st.callsIn names (depth + 1) id = (st.links id).flatMap (st.callsOf names depth) := by
  rw [callsIn, links, List.flatMap_map]
  rfl

theorem flatMap_callsOf (st : State) (names : List String) (depth : Nat)
    (added : List (List String)) :
    (added.map fun words => (words, none)).flatMap (st.callsOf names depth) =
      added.filter fun words => names.contains (words.headD "") := by
  induction added with
  | nil => rfl
  | cons words rest ih =>
    rw [List.map_cons, List.flatMap_cons, ih, List.filter_cons, callsOf]
    split <;> rfl

end State

/-- The scopes of a console as calls have opened them: an entry leads to a later scope that is
there, and every scope but the root was opened from an earlier one. -/
structure Nested (st : State) : Prop where
  calls : ∀ id < st.scopes.size, ∀ words child, (words, some child) ∈ st.links id →
    id < child ∧ child < st.scopes.size
  parents : ∀ id < st.scopes.size, id ≠ 0 → ∃ p < id, (st.scope id).parent = some p

/-- What a log leads to depends only on the scope and later ones. -/
theorem callsIn_congr (hnested : Nested st) {id : Nat} (hid : id < st.scopes.size)
    (h : ∀ i, id ≤ i → i < st.scopes.size → st'.links i = st.links i) :
    st'.callsIn names depth id = st.callsIn names depth id := by
  induction depth generalizing id with
  | zero => rw [State.callsIn_zero, State.callsIn_zero, h id le_rfl hid]
  | succ depth ih =>
    rw [State.callsIn_succ, State.callsIn_succ, h id le_rfl hid]
    refine List.flatMap_congr fun link hlink => ?_
    obtain ⟨words, call⟩ := link
    cases call with
    | none => rfl
    | some child =>
      -- the scope of a call is later than its caller, so all from there on is the same too
      obtain ⟨hlt, hchild⟩ := hnested.calls id hid words child hlink
      have hcalls := ih hchild fun i hi => h i (hlt.le.trans hi)
      exact congrArg _ hcalls

theorem callsOf_congr (hnested : Nested st) (hs : s < st.scopes.size)
    (hlater : ∀ i, s < i → i < st.scopes.size → st'.links i = st.links i)
    {link : List String × Option Nat} (hlink : link ∈ st.links s) :
    st'.callsOf names depth link = st.callsOf names depth link := by
  obtain ⟨words, call⟩ := link
  cases call with
  | none => rfl
  | some child =>
    obtain ⟨hlt, hchild⟩ := hnested.calls s hs words child hlink
    have hcalls : st'.callsIn names depth child = st.callsIn names depth child :=
      callsIn_congr hnested hchild fun i hi => hlater i (hlt.trans_le hi)
    exact congrArg _ hcalls

/-- Between two states the events `ran` were recorded, and they are what the log of a scope leads to
since. Those that were not recorded in the scope itself were in scopes that have been opened. -/
structure Logged (s : Nat) (ran : List Event) (st st' : State) : Prop where
  trace : st'.trace.toList = st.trace.toList ++ ran
  size_le : st.scopes.size ≤ st'.scopes.size
  nested : Nested st'
  scopes : ∀ e ∈ ran, ∀ id words, e.invocation? = some (id, words) →
    id = s ∨ st.scopes.size ≤ id ∧ id < st'.scopes.size
  own : ∀ names, st'.callsIn names 0 s = st.callsIn names 0 s ++ noted (· = s) names ran
  all : ∀ names depth, st'.scopes.size ≤ s + depth →
    st'.callsIn names depth s = st.callsIn names depth s ++ noted (fun _ => true) names ran

namespace Logged

variable {ran more : List Event}

theorem refl (s : Nat) (h : Nested st) : Logged s [] st st :=
  ⟨by simp, le_rfl, h, nofun, fun _ => by simp [noted], fun _ _ _ => by simp [noted]⟩

theorem trans (h : Logged s ran st st₁) (h' : Logged s more st₁ st') :
    Logged s (ran ++ more) st st' where
  trace := by rw [h'.trace, h.trace, List.append_assoc]
  size_le := h.size_le.trans h'.size_le
  nested := h'.nested
  scopes e he id words hid := by
    rcases List.mem_append.1 he with he | he
    · have := h.scopes e he id words hid
      have := h'.size_le
      omega
    · have := h'.scopes e he id words hid
      have := h.size_le
      omega
  own names := by rw [h'.own, h.own, noted_append, List.append_assoc]
  all names depth hdepth := by
    rw [h'.all names depth hdepth, h.all names depth (h'.size_le.trans hdepth), noted_append,
      List.append_assoc]

/-- A change that opens no scope and at most adds entries to the log of one. -/
theorem of_links (added : List (List String)) (hs : s < st.scopes.size) (hnested : Nested st)
    (htrace : st'.trace.toList = st.trace.toList ++ ran) (hsize : st'.scopes.size = st.scopes.size)
    (hparent : ∀ id < st.scopes.size, (st'.scope id).parent = (st.scope id).parent)
    (hown : st'.links s = st.links s ++ added.map fun words => (words, none))
    (hothers : ∀ id, id ≠ s → st'.links id = st.links id)
    (hran : ran.filterMap Event.invocation? = added.map fun words => (s, words)) :
    Logged s ran st st' where
  trace := htrace
  size_le := hsize.ge
  nested := by
    refine ⟨fun id hid words child hlink => ?_, fun id hid hne => ?_⟩
    · rw [hsize] at hid ⊢
      by_cases hids : id = s
      · subst hids
        rw [hown, List.mem_append] at hlink
        rcases hlink with hlink | hlink
        · exact hnested.calls id hid words child hlink
        · simp at hlink
      · exact hnested.calls id hid words child (hothers id hids ▸ hlink)
    · rw [hsize] at hid
      rw [hparent id hid]
      exact hnested.parents id hid hne
  scopes e he id words hid := by
    have hmem : (id, words) ∈ ran.filterMap Event.invocation? := List.mem_filterMap.2 ⟨e, he, hid⟩
    rw [hran] at hmem
    obtain ⟨_, -, heq⟩ := List.mem_map.1 hmem
    exact .inl (congrArg Prod.fst heq).symm
  own names := by
    rw [State.callsIn_zero, State.callsIn_zero, hown, noted, hran]
    simp [List.filter_map, Function.comp_def]
  all names depth hdepth := by
    cases depth with
    | zero => omega
    | succ depth =>
      have hbefore : (st.links s).flatMap (st'.callsOf names depth) =
          (st.links s).flatMap (st.callsOf names depth) :=
        List.flatMap_congr fun link => callsOf_congr hnested hs fun i hi _ => hothers i hi.ne'
      rw [State.callsIn_succ, State.callsIn_succ, hown, List.flatMap_append, hbefore,
        State.flatMap_callsOf, noted, hran]
      simp [List.filter_map, Function.comp_def]

theorem record (hs : s < st.scopes.size) (hnested : Nested st) {e : Event} (h : e.Shown) :
    Logged s [e] st (st.record e) :=
  of_links [] hs hnested (by simp) rfl (fun _ _ => rfl) (List.append_nil _).symm (fun _ _ => rfl)
    (by simp [h.invocation?])

/-- A change of a scope that its log does not show. -/
theorem modifyScope (hs : s < st.scopes.size) (hnested : Nested st) {f : Scope → Scope}
    (hparent : (f (st.scope s)).parent = (st.scope s).parent)
    (hlinks : ((f (st.scope s)).log.toList.map fun e => (e.words, e.call)) = st.links s) :
    Logged s [] st (st.modifyScope s f) := by
  refine of_links [] hs hnested (by simp) (st.size_modifyScope f s) (fun id hid => ?_) ?_
    (fun id hne => ?_) rfl
  · by_cases hids : id = s
    · rw [hids, st.scope_modifyScope f hs, hparent]
    · rw [st.scope_modifyScope_ne f hids]
  · rw [State.links, st.scope_modifyScope f hs, hlinks]
    simp
  · rw [State.links, st.scope_modifyScope_ne f hne]
    rfl

theorem entered (hs : s < st.scopes.size) (hnested : Nested st) {e : Event} {words : List String}
    (h : e.invocation? = some (s, words)) : Logged s [e] st ((st.withEntry s words).record e) := by
  refine of_links [words] hs hnested (by simp [State.withEntry]) (by simp [State.withEntry])
    (fun id hid => ?_) ?_ (fun id hne => ?_) (by simp [h])
  · rw [State.scope_record, State.withEntry]
    by_cases hids : id = s
    · rw [hids, st.scope_modifyScope _ hs]
    · rw [st.scope_modifyScope_ne _ hids]
  · rw [State.links, State.scope_record, State.withEntry, st.scope_modifyScope _ hs]
    simp [State.links]
  · rw [State.links, State.scope_record, State.withEntry, st.scope_modifyScope_ne _ hne]
    rfl

end Logged

theorem links_withResult (st : State) (s entry : Nat) (result : String) :
    (((st.scope s).log.modify entry fun e => { e with result }).toList.map fun e =>
      (e.words, e.call)) = st.links s := by
  refine List.ext_getElem (by simp [State.links]) fun i _ _ => ?_
  simp only [State.links, List.getElem_map, Array.getElem_toList, Array.getElem_modify]
  split <;> rfl

theorem Move.logged (h : Move s base st st') (hs : s < st.scopes.size) (hnested : Nested st) :
    ∃ ran, Logged s ran st st' := by
  cases h with
  | shown he => exact ⟨_, .record hs hnested he⟩
  | assigned => exact ⟨_, .modifyScope hs hnested rfl rfl⟩
  | defined => exact ⟨_, .modifyScope hs hnested rfl rfl⟩
  | supplied => exact ⟨_, .modifyScope hs hnested rfl rfl⟩
  | ran words handler =>
    have hbegin : Logged s _ st (st.begin s words handler) := .entered hs hnested rfl
    exact ⟨_, hbegin.trans (.modifyScope (hs.trans_le hbegin.size_le) hbegin.nested rfl rfl)⟩
  | jumped words => exact ⟨_, .entered hs hnested rfl⟩
  | settled _ result => exact ⟨_, .modifyScope hs hnested rfl (links_withResult st s _ result)⟩

/-- The scope of a call begins without a log, and the last entry of the caller leads to it. -/
theorem links_openCall (hs : s < st.scopes.size) (fresh : st.Fresh s entry) (name : String)
    (bindings : List (String × String)) :
    ∃ before words, st.links s = before ++ [(words, none)] ∧
      (st.openCall s entry name bindings).links s = before ++ [(words, some st.scopes.size)] ∧
      (st.openCall s entry name bindings).links st.scopes.size = [] := by
  obtain ⟨log, words, hlog, rfl⟩ := fresh
  refine ⟨log.toList.map fun e => (e.words, e.call), words, ?_, ?_, ?_⟩
  · rw [State.links, hlog]
    simp
  · rw [State.links, st.scope_openCall _ name bindings hs, hlog]
    refine List.ext_getElem (by simp) fun i hlt _ => ?_
    simp only [List.getElem_map, Array.getElem_toList, Array.getElem_modify, Array.getElem_push,
      List.getElem_append, List.length_map, Array.length_toList]
    by_cases hi : i < log.size
    · rw [if_neg (Nat.ne_of_gt hi)]
      simp [hi]
    · have hlast : log.size = i := by
        simp at hlt
        omega
      simp [hlast]
  · rw [State.links, st.scope_openCall_child _ name bindings hs]
    rfl

theorem nested_openCall (hs : s < st.scopes.size) (hnested : Nested st) (fresh : st.Fresh s entry)
    (name : String) (bindings : List (String × String)) :
    Nested (st.openCall s entry name bindings) := by
  obtain ⟨before, words, hbefore, hopen, hchild⟩ := links_openCall hs fresh name bindings
  refine ⟨fun id hid words' child hlink => ?_, fun id hid hne => ?_⟩
  · rw [State.size_openCall] at hid ⊢
    by_cases hids : id = s
    · subst hids
      rw [hopen, List.mem_append, List.mem_singleton] at hlink
      rcases hlink with hlink | hlink
      · have := hnested.calls id hs words' child (hbefore ▸ List.mem_append_left _ hlink)
        omega
      · cases hlink
        omega
    · by_cases hnew : id = st.scopes.size
      · rw [hnew, hchild] at hlink
        cases hlink
      · have hold : id < st.scopes.size := by omega
        rw [State.links, st.scope_openCall_ne entry name bindings hold hids] at hlink
        have := hnested.calls id hold words' child hlink
        omega
  · rw [State.size_openCall] at hid
    by_cases hnew : id = st.scopes.size
    · exact ⟨s, hnew ▸ hs, by rw [hnew, st.scope_openCall_child entry name bindings hs]; rfl⟩
    · have hold : id < st.scopes.size := by omega
      have hparent := hnested.parents id hold hne
      by_cases hids : id = s
      · rw [hids] at hparent ⊢
        rwa [st.scope_openCall entry name bindings hs]
      · rwa [st.scope_openCall_ne entry name bindings hold hids]

/-- What a call logs comes after the entry of its command. -/
theorem Logged.of_call {ran : List Event} (hw : Within s base st) (hnested : Nested st)
    (fresh : st.Fresh s entry) {name : String} {bindings : List (String × String)}
    (hisolated : Isolated st.scopes.size 0 (st.openCall s entry name bindings) st₁)
    (h : Logged st.scopes.size ran (st.openCall s entry name bindings) st₁) :
    Logged s ran st st₁ := by
  obtain ⟨before, words, hbefore, hopen, hchild⟩ := links_openCall hw.lt_size fresh name bindings
  have hsize := h.size_le
  rw [State.size_openCall] at hsize
  have hs := hw.lt_size
  -- the caller and all that was there before are as they were when the call was opened
  have hkept : ∀ id < st.scopes.size, st₁.scope id = (st.openCall s entry name bindings).scope id :=
    fun id hid => hisolated.others id (by rw [State.size_openCall]; omega) (Nat.ne_of_lt hid)
  have hown : st₁.links s = before ++ [(words, some st.scopes.size)] := by
    rw [State.links, hkept s hs]
    exact hopen
  refine ⟨h.trace, by omega, h.nested, fun e he id words hid => ?_, fun names => ?_,
    fun names depth hdepth => ?_⟩
  · have := h.scopes e he id words hid
    rw [State.size_openCall] at this
    omega
  · have hothers : noted (· = s) names ran = [] := by
      refine noted_eq_nil fun e he id words hid => ?_
      have := h.scopes e he id words hid
      rw [State.size_openCall] at this
      simp
      omega
    rw [hothers, State.callsIn_zero, State.callsIn_zero, hown, hbefore]
    simp
  · cases depth with
    | zero => omega
    | succ depth =>
      have hlater : ∀ i, s < i → i < st.scopes.size → st₁.links i = st.links i := by
        intro i hsi hi
        rw [State.links, hkept i hi, st.scope_openCall_ne entry name bindings hi hsi.ne']
        rfl
      have hcall := h.all names depth (by omega)
      have hnone : (st.openCall s entry name bindings).callsIn names depth st.scopes.size = [] := by
        cases depth with
        | zero => rw [State.callsIn_zero, hchild]; rfl
        | succ depth => rw [State.callsIn_succ, hchild]; rfl
      rw [hnone, List.nil_append] at hcall
      have hbefore' : before.flatMap (st₁.callsOf names depth) =
        before.flatMap (st.callsOf names depth) :=
        List.flatMap_congr fun link hlink =>
          callsOf_congr hnested hs hlater (hbefore ▸ List.mem_append_left _ hlink)
      rw [State.callsIn_succ, State.callsIn_succ, hown, hbefore, List.flatMap_append,
        List.flatMap_append, hbefore', List.append_assoc, ← hcall]
      simp [State.callsOf]

theorem Trail.logged (h : Trail s base st st') (hw : Within s base st) (hnested : Nested st) :
    ∃ ran, Logged s ran st st' := by
  induction h with
  | nil s base st => exact ⟨[], .refl s hnested⟩
  | move first _ ih =>
    obtain ⟨ran, hran⟩ := first.logged hw.lt_size hnested
    obtain ⟨more, hmore⟩ := ih (first.trail.within hw) hran.nested
    exact ⟨ran ++ more, hran.trans hmore⟩
  | @call s base entry st st₁ st' hb fresh name bindings body _ ihbody ihrest =>
    have hopen := Within.openCall st s entry name bindings
    obtain ⟨ran, hbody⟩ := ihbody hopen (nested_openCall hw.lt_size hnested fresh name bindings)
    have hcall := Logged.of_call hw hnested fresh (body.isolated hopen) hbody
    have hclose : Logged s [] st₁ (st₁.closeCall s st.scopes.size) :=
      .modifyScope (hw.lt_size.trans_le hcall.size_le) hcall.nested rfl rfl
    have htrail : Trail s base st (st₁.closeCall s st.scopes.size) :=
      .call hb fresh name bindings body (.nil ..)
    obtain ⟨more, hmore⟩ := ihrest (htrail.within hw) hclose.nested
    exact ⟨_, (hcall.trans hclose).trans hmore⟩

/-- So does a run that halts, in a call or not. -/
theorem Stop.logged (h : Stop s base st st') (hw : Within s base st) (hnested : Nested st) :
    ∃ ran, Logged s ran st st' := by
  induction h with
  | after before => exact before.logged hw hnested
  | @within s base entry st st₁ st' before hb fresh name bindings body ih =>
    obtain ⟨ran, hran⟩ := before.logged hw hnested
    have hw₁ := before.within hw
    have hopen := Within.openCall st₁ s entry name bindings
    obtain ⟨more, hbody⟩ := ih hopen (nested_openCall hw₁.lt_size hran.nested fresh name bindings)
    exact ⟨_, hran.trans (.of_call hw₁ hran.nested fresh (body.isolated hopen) hbody)⟩
  | @spoiled s base st st₁ before words o t shown hshown =>
    obtain ⟨ran, hran⟩ := before.logged hw hnested
    have hs := (before.within hw).lt_size
    have hbegin : Logged s _ st₁ (st₁.begin s words (some (.operator o))) :=
      .entered hs hran.nested rfl
    have hloaded : Logged s [] _ ((st₁.begin s words (some (.operator o))).withSession s t) :=
      .modifyScope (hs.trans_le hbegin.size_le) hbegin.nested rfl rfl
    have hw₂ : Within s 0 ((st₁.begin s words (some (.operator o))).withSession s t) :=
      ⟨hs.trans_le (hbegin.size_le.trans hloaded.size_le), Nat.zero_le _⟩
    obtain ⟨more, hmore⟩ := (Trail.shown hshown _).logged hw₂ hloaded.nested
    exact ⟨_, hran.trans ((hbegin.trans hloaded).trans hmore)⟩

theorem Run.Follows.logged {α : Type} {x : Run α} (hx : x.Follows s base) (hw : Within s base st)
    (hnested : Nested st) (h : x.LeadsTo st st') : ∃ ran, Logged s ran st st' := by
  rcases h with ⟨a, h⟩ | ⟨halt, h⟩
  · exact ((hx st hw).ends h).logged hw hnested
  · exact ((hx st hw).halts h).logged hw hnested

end RadarTimeline.Console
