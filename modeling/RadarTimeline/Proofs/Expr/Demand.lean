import RadarTimeline.Proofs.Expr.IntegerValues
import RadarTimeline.Proofs.Expr.OperandOrder

namespace RadarTimeline.Expr

/-- A call of the context. -/
inductive Question where
  | variable (name : String)
  | command (script : String)
  | substitute (text : String)

def Operand.question? : Operand → Option Question
  | .variable name => some (.variable name)
  | .command script => some (.command script)
  | .quoted text => some (.substitute text)
  | .number _ | .braced _ | .word _ => none

/-- The value of an operand that asks for nothing. -/
def Operand.literal? : Operand → Option Value
  | .number text | .braced text => some (readValue text)
  | .word name => some (.string name)
  | .variable _ | .command _ | .quoted _ => none

def Context.ask {m : Type → Type} (ctx : Context m) : Question → m String
  | .variable name => ctx.valueOf name
  | .command script => ctx.runScript script
  | .substitute text => ctx.fillIn text

/-- Why an evaluation stops without a value: it fails itself, or the context throws. -/
inductive Stop (ε : Type) where
  | fault (fault : Fault)
  | thrown (error : ε)

abbrev Outcome (ε α : Type) := Except (Stop ε) α

section Semantics

variable {ε σ α : Type}

def settled : Except Fault α → Outcome ε α
  | .ok a => .ok a
  | .error fault => .error (.fault fault)

def Outcome.thrown? : Outcome ε α → Option ε
  | .error (.thrown error) => some error
  | _ => none

/-- The value, or the fault of a left side that has no truth, if the right side does not count. -/
def BinaryOp.decided? (op : BinaryOp) (left : Value) : Option (Except Fault Value) :=
  match op, left.truth with
  | .and, .ok false => some (.ok (.bool false))
  | .or, .ok true => some (.ok (.bool true))
  | .and, .error fault | .or, .error fault => some (.error fault)
  | _, _ => none

/-- The value of an operator that needs both sides, or needs the right one after the left one did
not decide. -/
def BinaryOp.finish (op : BinaryOp) (left right : Value) : Except Fault Value :=
  match op with
  | .and | .or => right.truth.map .bool
  | _ => binaryValue op left right

mutual

/-- What a tree asks a context for, in the order of the calls, with the outcome and the state after
it. -/
inductive Demands (ctx : Context (EStateM ε σ)) : Tree → σ → List Question →
    Outcome ε Value → σ → Prop
  | literal {o v s} (h : o.literal? = some v) : Demands ctx (.operand o) s [] (.ok v) s
  | answered {o q text s s'} (hq : o.question? = some q) (h : ctx.ask q s = .ok text s') :
    Demands ctx (.operand o) s [q] (settled (substituted text)) s'
  | threw {o q error s s'} (hq : o.question? = some q) (h : ctx.ask q s = .error error s') :
    Demands ctx (.operand o) s [q] (.error (.thrown error)) s'
  | unary {op t asked r s s'} (h : Demands ctx t s asked r s') :
    Demands ctx (.unary op t) s asked (r >>= fun v => settled (unaryValue op v)) s'
  | leftStops {op left right asked stop s s'} (h : Demands ctx left s asked (.error stop) s') :
    Demands ctx (.binary op left right) s asked (.error stop) s'
  | leftDecides {op left right asked l d s s'} (h : Demands ctx left s asked (.ok l) s')
    (hd : op.decided? l = some d) : Demands ctx (.binary op left right) s asked (settled d) s'
  | both {op left right asked asked' l r s s' s''} (hl : Demands ctx left s asked (.ok l) s')
    (hd : op.decided? l = none) (hr : Demands ctx right s' asked' r s'') :
    Demands ctx (.binary op left right) s (asked ++ asked')
      (r >>= fun v => settled (op.finish l v)) s''
  | conditionStops {condition yes no asked stop s s'}
    (h : Demands ctx condition s asked (.error stop) s') :
    Demands ctx (.choice condition yes no) s asked (.error stop) s'
  | notBoolean {condition yes no asked v fault s s'} (h : Demands ctx condition s asked (.ok v) s')
    (hv : v.truth = .error fault) : Demands ctx (.choice condition yes no) s asked
      (.error (.fault fault)) s'
  | chosen {condition yes no asked asked' v b r s s' s''}
    (h : Demands ctx condition s asked (.ok v) s')
    (hv : v.truth = .ok b) (hb : Demands ctx (if b then yes else no) s' asked' r s'') :
    Demands ctx (.choice condition yes no) s (asked ++ asked') r s''
  | call {name args asked r s s'} (h : DemandsAll ctx args s asked r s') :
    Demands ctx (.call name args) s asked (r >>= fun vs => settled (callValue name vs)) s'

/-- What arguments ask for, up to the first that has no value. -/
inductive DemandsAll (ctx : Context (EStateM ε σ)) :
    List Tree → σ → List Question → Outcome ε (List Value) → σ → Prop
  | none {s} : DemandsAll ctx [] s [] (.ok []) s
  | stops {t ts asked stop s s'} (h : Demands ctx t s asked (.error stop) s') :
    DemandsAll ctx (t :: ts) s asked (.error stop) s'
  | next {t ts asked asked' v r s s' s''} (h : Demands ctx t s asked (.ok v) s')
    (hs : DemandsAll ctx ts s' asked' r s'') :
    DemandsAll ctx (t :: ts) s (asked ++ asked') (r.map (v :: ·)) s''

end

/-- Calls of a context one after the other, each once; the one that throws is the last. -/
inductive Asked (ctx : Context (EStateM ε σ)) : σ → List Question → Option ε → σ → Prop
  | done {s} : Asked ctx s [] none s
  | threw {q error s s'} (h : ctx.ask q s = .error error s') : Asked ctx s [q] (some error) s'
  | next {q text asked stop s s' s''} (h : ctx.ask q s = .ok text s')
    (hs : Asked ctx s' asked stop s'') :
    Asked ctx s (q :: asked) stop s''

end Semantics

section Runs

variable {ε σ α β : Type}

def Outcome.result (r : Outcome ε α) (s : σ) : EStateM.Result ε σ (Except Fault α) :=
  match r with
  | .ok a => .ok (.ok a) s
  | .error (.fault fault) => .ok (.error fault) s
  | .error (.thrown error) => .error error s

section Bind

variable {x : ExceptT Fault (EStateM ε σ) α} {f : α → ExceptT Fault (EStateM ε σ) β} {a : α}
    {stop : Stop ε}
  {s s' : σ}

theorem run_bind_ok (h : x.run s = Outcome.result (.ok a) s') : (x >>= f).run s = (f a).run s' := by
  change EStateM.bind x.run (ExceptT.bindCont f) s = _
  rw [EStateM.bind, h]
  rfl

theorem run_bind_stop (h : x.run s = Outcome.result (.error stop) s') :
    (x >>= f).run s = Outcome.result (.error stop) s' := by
  change EStateM.bind x.run (ExceptT.bindCont f) s = _
  rw [EStateM.bind, h]
  cases stop <;> rfl

theorem run_settled (r : Except Fault α) (s : σ) :
    (liftM r : ExceptT Fault (EStateM ε σ) α).run s = (settled r).result s := by
  cases r <;> rfl

end Bind

/-- The context that writes down what it is asked for. -/
def Context.recording (ctx : Context (EStateM ε σ)) : Context (EStateM ε (σ × List Question)) :=
  let record (q : Question) : EStateM ε (σ × List Question) String := fun (s, asked) =>
    match ctx.ask q s with
    | .ok text s' => .ok text (s', asked ++ [q])
    | .error error s' => .error error (s', asked ++ [q])
  { valueOf := fun name => record (.variable name)
    runScript := fun script => record (.command script)
    fillIn := fun text => record (.substitute text) }

/-- An action asks these questions: a record of them shows nothing else, and the action does the
same without the record. -/
structure Asks (plain : ExceptT Fault (EStateM ε σ) α)
    (recorded : ExceptT Fault (EStateM ε (σ × List Question)) α)
    (s : σ) (asked : List Question) (r : Outcome ε α) (s' : σ) : Prop where
  plain : plain.run s = r.result s'
  recorded : ∀ before, recorded.run (s, before) = r.result (s', before ++ asked)

namespace Asks

variable {x₀ : ExceptT Fault (EStateM ε σ) α} {x : ExceptT Fault (EStateM ε (σ × List Question)) α}
  {f₀ : α → ExceptT Fault (EStateM ε σ) β} {f : α → ExceptT Fault (EStateM ε (σ × List Question)) β}
  {asked asked' : List Question} {a : α} {stop : Stop ε} {r : Outcome ε β} {s s' s'' : σ}

theorem settled (r : Except Fault α) (s : σ) :
    Asks (liftM r : ExceptT Fault (EStateM ε σ) α) (liftM r) s [] (settled r) s where
  plain := run_settled r s
  recorded before := by rw [run_settled, List.append_nil]

theorem bind_ok (h : Asks x₀ x s asked (.ok a) s') (hf : Asks (f₀ a) (f a) s' asked' r s'') :
    Asks (x₀ >>= f₀) (x >>= f) s (asked ++ asked') r s'' where
  plain := by rw [run_bind_ok h.plain, hf.plain]
  recorded before := by rw [run_bind_ok (h.recorded before), hf.recorded, List.append_assoc]

theorem bind_stop (h : Asks x₀ x s asked (.error stop) s') :
    Asks (x₀ >>= f₀) (x >>= f) s asked (.error stop) s' where
  plain := run_bind_stop h.plain
  recorded before := run_bind_stop (h.recorded before)

theorem bind_done {d : Except Fault β} (h : Asks x₀ x s asked (.ok a) s') (hf₀ : f₀ a = liftM d)
    (hf : f a = liftM d) : Asks (x₀ >>= f₀) (x >>= f) s asked (Expr.settled d) s' := by
  rw [← List.append_nil asked]
  refine h.bind_ok ?_
  rw [hf₀, hf]
  exact settled d s'

theorem bind_settled {r : Outcome ε α} (h : Asks x₀ x s asked r s') (k : α → Except Fault β) :
    Asks (x₀ >>= fun a => liftM (k a)) (x >>= fun a => liftM (k a)) s asked
      (r >>= fun a => Expr.settled (k a)) s' := by
  cases r with
  | error stop => exact h.bind_stop
  | ok a => exact h.bind_done rfl rfl

end Asks

end Runs

section Trees

variable {ε σ : Type} {ctx : Context (EStateM ε σ)}

/-- The two logical operators and all others, in one form. -/
theorem eval_binary_eq {m : Type → Type} [Monad m] [LawfulMonad m] (ctx : Context m) (op : BinaryOp)
    (left right : Tree) : (Tree.binary op left right).eval ctx = left.eval ctx >>= fun l =>
      (op.decided? l).elim (right.eval ctx >>= fun r => liftM (op.finish l r)) liftM := by
  have htruth : ∀ r : Value, (do return .bool (← liftM r.truth) : ExceptT Fault m Value) =
      liftM (r.truth.map .bool) := by
    intro r
    cases r.truth with
    | error fault => exact lift_error_bind fault _
    | ok b => exact lift_ok_bind b _
  by_cases hand : op = .and
  · subst hand
    rw [Tree.eval]
    refine bind_congr fun l => ?_
    dsimp only [BinaryOp.decided?, BinaryOp.finish]
    cases l.truth with
    | error fault => exact lift_error_bind fault _
    | ok b =>
      refine (lift_ok_bind b _).trans ?_
      cases b with
      | true => exact bind_congr fun r => htruth r
      | false => rfl
  by_cases hor : op = .or
  · subst hor
    rw [Tree.eval]
    refine bind_congr fun l => ?_
    dsimp only [BinaryOp.decided?, BinaryOp.finish]
    cases l.truth with
    | error fault => exact lift_error_bind fault _
    | ok b =>
      refine (lift_ok_bind b _).trans ?_
      cases b with
      | true => rfl
      | false => exact bind_congr fun r => htruth r
  rw [eval_strict hand hor]
  refine bind_congr fun l => ?_
  have hdecided : op.decided? l = none := by
    cases op <;> first | rfl | exact absurd rfl hand | exact absurd rfl hor
  have hfinish : op.finish l = binaryValue op l := by
    cases op <;> first | rfl | exact absurd rfl hand | exact absurd rfl hor
  rw [hdecided, hfinish]
  rfl

theorem ask_recording {q : Question} {s s' : σ} {text : String} (h : ctx.ask q s = .ok text s')
    (before : List Question) : ctx.recording.ask q (s, before) = .ok text (s', before ++ [q]) := by
  cases q <;> dsimp only [Context.recording, Context.ask] at h ⊢ <;> rw [h]

theorem ask_recording_error {q : Question} {s s' : σ} {error : ε}
    (h : ctx.ask q s = .error error s') (before : List Question) :
    ctx.recording.ask q (s, before) = .error error (s', before ++ [q]) := by
  cases q <;> dsimp only [Context.recording, Context.ask] at h ⊢ <;> rw [h]

theorem value_of_question {m : Type → Type} [Monad m] {ctx : Context m} {o : Operand} {q : Question}
    (hq : o.question? = some q) :
    o.value ctx = ExceptT.lift (ctx.ask q) >>= fun text => liftM (substituted text) := by
  cases o <;> cases hq <;> rfl

theorem value_of_literal {m : Type → Type} [Monad m] {ctx : Context m} {o : Operand} {v : Value}
    (h : o.literal? = some v) : o.value ctx = liftM (.ok v : Except Fault Value) := by
  cases o <;> cases h <;> rfl

theorem operand_asks {o : Operand} {s s' : σ} {asked : List Question} {r : Outcome ε Value}
    (h : Demands ctx (.operand o) s asked r s') :
    Asks (o.value ctx) (o.value ctx.recording) s asked r s' := by
  cases h with
  | literal h =>
    rw [value_of_literal h, value_of_literal h]
    exact .settled _ _
  | answered hq h =>
    rw [value_of_question hq, value_of_question hq]
    refine Asks.bind_settled (r := .ok _) ⟨?_, fun before => ?_⟩ _
    · change EStateM.map Except.ok _ _ = _
      rw [EStateM.map, h]
      rfl
    · change EStateM.map Except.ok _ _ = _
      rw [EStateM.map, ask_recording h]
      rfl
  | threw hq h =>
    rw [value_of_question hq, value_of_question hq]
    refine Asks.bind_stop ⟨?_, fun before => ?_⟩
    · change EStateM.map Except.ok _ _ = _
      rw [EStateM.map, h]
      rfl
    · change EStateM.map Except.ok _ _ = _
      rw [EStateM.map, ask_recording_error h]
      rfl

mutual

theorem Demands.asks : {t : Tree} → {s s' : σ} → {asked : List Question} → {r : Outcome ε Value} →
    Demands ctx t s asked r s' → Asks (t.eval ctx) (t.eval ctx.recording) s asked r s'
  | .operand o, _, _, _, _, h => by
    rw [Tree.eval, Tree.eval]
    exact operand_asks h
  | .unary op t, _, _, _, _, h => by
    rw [Tree.eval, Tree.eval]
    cases h with
    | unary h => exact h.asks.bind_settled _
  | .binary op left right, _, _, _, _, h => by
    rw [eval_binary_eq, eval_binary_eq]
    cases h with
    | leftStops h => exact h.asks.bind_stop
    | leftDecides h hd => exact h.asks.bind_done (by rw [hd]; rfl) (by rw [hd]; rfl)
    | both hl hd hr =>
      refine hl.asks.bind_ok ?_
      rw [hd]
      exact hr.asks.bind_settled _
  | .choice condition yes no, _, _, _, _, h => by
    rw [Tree.eval, Tree.eval]
    cases h with
    | conditionStops h => exact h.asks.bind_stop
    | notBoolean h hv =>
      refine h.asks.bind_done (d := .error _) ?_ ?_ <;> rw [hv] <;> exact lift_error_bind _ _
    | chosen h hv hb =>
      refine h.asks.bind_ok ?_
      rw [hv, lift_ok_bind, lift_ok_bind]
      split at hb
      · next hb' =>
        rw [if_pos hb', if_pos hb']
        exact hb.asks
      · next hb' =>
        rw [if_neg hb', if_neg hb']
        exact hb.asks
  | .call name args, _, _, _, _, h => by
    rw [Tree.eval, Tree.eval]
    cases h with
    | call h => exact h.asks.bind_settled _

theorem DemandsAll.asks : {ts : List Tree} → {s s' : σ} → {asked : List Question} →
    {r : Outcome ε (List Value)} → DemandsAll ctx ts s asked r s' →
    Asks (evalAll ctx ts) (evalAll ctx.recording ts) s asked r s'
  | [], _, _, _, _, h => by
    rw [evalAll, evalAll]
    cases h
    exact .settled (.ok []) _
  | t :: ts, _, _, _, _, h => by
    rw [evalAll, evalAll]
    cases h with
    | stops h => exact h.asks.bind_stop
    | next h hs =>
      refine h.asks.bind_ok ?_
      exact hs.asks.bind_settled (fun vs => .ok (_ :: vs))

end

mutual

/-- Every evaluation comes to an end. -/
theorem exists_demands (ctx : Context (EStateM ε σ)) :
    (t : Tree) → (s : σ) → ∃ asked r s', Demands ctx t s asked r s'
  | .operand o, s => by
    cases hq : o.question? with
    | none =>
      obtain ⟨v, hv⟩ : ∃ v, o.literal? = some v := by
        cases o <;> first | exact ⟨_, rfl⟩ | cases hq
      exact ⟨_, _, _, .literal hv⟩
    | some q =>
      cases h : ctx.ask q s with
      | ok text s' => exact ⟨_, _, _, .answered hq h⟩
      | error error s' => exact ⟨_, _, _, .threw hq h⟩
  | .unary op t, s => by
    obtain ⟨asked, r, s', h⟩ := exists_demands ctx t s
    exact ⟨_, _, _, .unary h⟩
  | .binary op left right, s => by
    obtain ⟨asked, l, s', hl⟩ := exists_demands ctx left s
    cases l with
    | error stop => exact ⟨_, _, _, .leftStops hl⟩
    | ok l =>
      cases hd : op.decided? l with
      | some d => exact ⟨_, _, _, .leftDecides hl hd⟩
      | none =>
        obtain ⟨asked', r, s'', hr⟩ := exists_demands ctx right s'
        exact ⟨_, _, _, .both hl hd hr⟩
  | .choice condition yes no, s => by
    obtain ⟨asked, v, s', h⟩ := exists_demands ctx condition s
    cases v with
    | error stop => exact ⟨_, _, _, .conditionStops h⟩
    | ok v =>
      cases hv : v.truth with
      | error fault => exact ⟨_, _, _, .notBoolean h hv⟩
      | ok b =>
        obtain ⟨asked', r, s'', hb⟩ : ∃ asked r s'', Demands ctx (if b then yes
          else no) s' asked r s'' := by
          cases b with
          | true => exact exists_demands ctx yes s'
          | false => exact exists_demands ctx no s'
        exact ⟨_, _, _, .chosen h hv hb⟩
  | .call name args, s => by
    obtain ⟨asked, r, s', h⟩ := exists_demandsAll ctx args s
    exact ⟨_, _, _, .call h⟩

theorem exists_demandsAll (ctx : Context (EStateM ε σ)) :
    (ts : List Tree) → (s : σ) → ∃ asked r s', DemandsAll ctx ts s asked r s'
  | [], s => ⟨_, _, _, .none⟩
  | t :: ts, s => by
    obtain ⟨asked, v, s', h⟩ := exists_demands ctx t s
    cases v with
    | error stop => exact ⟨_, _, _, .stops h⟩
    | ok v =>
      obtain ⟨asked', r, s'', hs⟩ := exists_demandsAll ctx ts s'
      exact ⟨_, _, _, .next h hs⟩

end

end Trees

section Order

variable {ε σ α β : Type} {ctx : Context (EStateM ε σ)} {os os' : List Operand}
    {asked asked' : List Question}
  {stop : Option ε} {s s' s'' : σ}

def questionsOf (os : List Operand) : List Question := os.filterMap Operand.question?

theorem Asked.append (h : Asked ctx s asked none s') (h' : Asked ctx s' asked' stop s'') :
    Asked ctx s (asked ++ asked') stop s'' := by
  generalize hnone : (none : Option ε) = end₁ at h
  induction h with
  | done => exact h'
  | threw => cases hnone
  | next h _ ih => exact .next h (ih h' hnone)

/-- Operands are asked for from left to right, each at most once, until the context throws. -/
structure InOrder (ctx : Context (EStateM ε σ)) (os : List Operand) (s : σ) (asked : List Question)
    (stop : Option ε) (s' : σ) : Prop where
  calls : Asked ctx s asked stop s'
  sublist : asked.Sublist (questionsOf os)

namespace InOrder

theorem append (h : InOrder ctx os s asked none s') (h' : InOrder ctx os' s' asked' stop s'') :
    InOrder ctx (os ++ os') s (asked ++ asked') stop s'' where
  calls := h.calls.append h'.calls
  sublist := by
    rw [questionsOf, List.filterMap_append]
    exact h.sublist.append h'.sublist

theorem skip_right (h : InOrder ctx os s asked stop s') (os' : List Operand) :
    InOrder ctx (os ++ os') s asked stop s' where
  calls := h.calls
  sublist := h.sublist.trans ((List.sublist_append_left os os').filterMap _)

theorem skip_left (h : InOrder ctx os s asked stop s') (os' : List Operand) :
    InOrder ctx (os' ++ os) s asked stop s' where
  calls := h.calls
  sublist := h.sublist.trans ((List.sublist_append_right os' os).filterMap _)

end InOrder

@[simp]
theorem thrown?_settled (r : Except Fault α) : (settled r : Outcome ε α).thrown? = none := by
  cases r <;> rfl

@[simp]
theorem thrown?_bind_settled (r : Outcome ε α) (k : α → Except Fault β) :
    Outcome.thrown? (r >>= fun a => settled (k a)) = r.thrown? := by
  cases r with
  | error stop => cases stop <;> rfl
  | ok a => exact thrown?_settled _

@[simp]
theorem thrown?_map (r : Outcome ε α) (f : α → β) : Outcome.thrown? (r.map f) = r.thrown? := by
  rcases r with (fault | error) | a <;> rfl

theorem operand_inOrder {o : Operand} {r : Outcome ε Value}
    (h : Demands ctx (.operand o) s asked r s') :
    InOrder ctx [o] s asked r.thrown? s' := by
  cases h with
  | literal h => exact ⟨.done, List.nil_sublist _⟩
  | answered hq h =>
    rw [thrown?_settled]
    refine ⟨.next h .done, ?_⟩
    rw [questionsOf, List.filterMap_cons_some hq]
    exact List.Sublist.refl _
  | threw hq h =>
    refine ⟨.threw h, ?_⟩
    rw [questionsOf, List.filterMap_cons_some hq]
    exact List.Sublist.refl _

mutual

theorem Demands.inOrder : {t : Tree} → {s s' : σ} → {asked : List Question} →
    {r : Outcome ε Value} →
    Demands ctx t s asked r s' → InOrder ctx t.operands s asked r.thrown? s'
  | .operand o, _, _, _, _, h => operand_inOrder h
  | .unary op t, _, _, _, _, h => by
    cases h with
    | unary h =>
      rw [thrown?_bind_settled]
      exact h.inOrder
  | .binary op left right, _, _, _, _, h => by
    cases h with
    | leftStops h => exact h.inOrder.skip_right _
    | leftDecides h hd =>
      rw [thrown?_settled]
      exact h.inOrder.skip_right _
    | both hl hd hr =>
      rw [thrown?_bind_settled]
      exact hl.inOrder.append hr.inOrder
  | .choice condition yes no, _, _, _, _, h => by
    cases h with
    | conditionStops h => exact h.inOrder.skip_right _
    | notBoolean h hv => exact h.inOrder.skip_right _
    | chosen h hv hb =>
      refine h.inOrder.append ?_
      split at hb
      · exact hb.inOrder.skip_right _
      · exact hb.inOrder.skip_left _
  | .call name args, _, _, _, _, h => by
    cases h with
    | call h =>
      rw [thrown?_bind_settled]
      exact h.inOrder

theorem DemandsAll.inOrder : {ts : List Tree} → {s s' : σ} → {asked : List Question} →
    {r : Outcome ε (List Value)} → DemandsAll ctx ts s asked r s' →
    InOrder ctx (allOperands ts) s asked r.thrown? s'
  | [], _, _, _, _, h => by
    cases h
    exact ⟨.done, List.nil_sublist _⟩
  | t :: ts, _, _, _, _, h => by
    cases h with
    | @stops _ _ _ stop _ _ h =>
      have hstop : Outcome.thrown? (.error stop : Outcome ε (List Value)) =
          Outcome.thrown? (.error stop : Outcome ε Value) := by cases stop <;> rfl
      rw [hstop]
      exact h.inOrder.skip_right _
    | next h hs =>
      rw [thrown?_map]
      exact h.inOrder.append hs.inOrder

end

end Order

section Evaluation

variable {ε σ α : Type} {ctx : Context (EStateM ε σ)} {s s' : σ}

theorem result_injective {r r' : Outcome ε α} (h : r.result s = r'.result s') :
    r = r' ∧ s = s' := by
  rcases r with (fault | error) | a <;> rcases r' with (fault' | error') | a' <;> cases h <;>
    exact ⟨rfl, rfl⟩

theorem demands_unique {t : Tree} {asked asked' : List Question} {r r' : Outcome ε Value} {s'' : σ}
    (h : Demands ctx t s asked r s') (h' : Demands ctx t s asked' r' s'') :
    asked' = asked ∧ r' = r ∧ s'' = s' := by
  have heq := (h'.asks.recorded []).symm.trans (h.asks.recorded [])
  obtain ⟨hr, hs⟩ := result_injective heq
  exact ⟨congrArg Prod.snd hs, hr, congrArg Prod.fst hs⟩

def sourceQuestions (source : String) : List Question :=
  match tokens source with
  | .ok ts => questionsOf (operandsOf ts)
  | .error _ => []

/-- What is no expression asks for nothing. Of all others a record shows exactly the questions that
the tree demands, in the order of the text and of no operand twice; a context that throws is not
asked again. -/
theorem evaluate_asks (ctx : Context (EStateM ε σ)) (source : String) (s : σ) :
    (∀ fault, parse source = .error fault →
      (evaluate ctx source).run s = .ok (.error fault) s ∧
        (evaluate ctx.recording source).run (s, []) = .ok (.error fault) (s, [])) ∧
    ∀ t, parse source = .ok t → ∃ asked r s',
      (∀ asked' r' s'', Demands ctx t s asked' r' s'' ↔ asked' = asked ∧ r' = r ∧ s'' = s') ∧
        (evaluate ctx source).run s = Outcome.result (r.map Value.text) s' ∧
        (evaluate ctx.recording source).run (s, []) = Outcome.result (r.map Value.text)
          (s', asked) ∧
        Asked ctx s asked r.thrown? s' ∧ asked.Sublist (sourceQuestions source) := by
  refine ⟨fun fault hparse => ?_, fun t hparse => ?_⟩
  · have hstop : ∀ {σ : Type} (ctx : Context (EStateM ε σ)) (s : σ),
        (evaluate ctx source).run s = .ok (.error fault) s := by
      intro σ ctx s
      rw [evaluate, hparse]
      exact run_bind_stop (run_settled (.error fault) s)
    exact ⟨hstop ctx s, hstop ctx.recording (s, [])⟩
  · obtain ⟨asked, r, s', h⟩ := exists_demands ctx t s
    have hasks : Asks (evaluate ctx source) (evaluate ctx.recording source) s asked
      (r.map Value.text) s' := by
      have hmap : (r >>= fun v => settled (.ok v.text)) = r.map Value.text := by cases r <;> rfl
      rw [evaluate, evaluate, hparse, lift_ok_bind, lift_ok_bind, ← hmap]
      exact h.asks.bind_settled fun v => .ok v.text
    have hquestions : questionsOf t.operands = sourceQuestions source := by
      obtain ⟨_, -, hparse⟩ := exists_of_bind_ok hparse
      obtain ⟨ts, hts, htree⟩ := exists_of_bind_ok hparse
      rw [sourceQuestions, hts, operands_treeOf htree]
    refine ⟨asked, r, s', fun asked' r' s'' => ⟨demands_unique h, ?_⟩, hasks.plain,
      hasks.recorded [],
      h.inOrder.calls, hquestions ▸ h.inOrder.sublist⟩
    rintro ⟨rfl, rfl, rfl⟩
    exact h

example (ctx : Context (EStateM ε σ)) : ∃ t, parse "1 || [missing]" = .ok t ∧
    Demands ctx t s [] (.ok (.bool true)) s :=
  ⟨.binary .or (.operand (.number "1")) (.operand (.command "missing")), by rfl,
    .leftDecides (l := .int 1) (d := .ok (.bool true)) (.literal rfl) rfl⟩

end Evaluation

end RadarTimeline.Expr
