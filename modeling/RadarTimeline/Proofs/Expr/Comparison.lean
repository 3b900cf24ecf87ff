import RadarTimeline.Expr.Arithmetic
import RadarTimeline.Proofs.Expr.ValueText
import RadarTimeline.Proofs.Number.Difference

namespace RadarTimeline.Expr

open Number (side)

variable {a b : Value} {p q : Numeric}

section Order

/-- The number that a comparison takes a value for. -/
def Value.number? : Value → Option Numeric
  | .int n => some (.int n)
  | .double x => some (.double x)
  | .string s =>
    match readValue s with
    | .int n => some (.int n)
    | .double x => some (.double x)
    | .string _ => none

def Numeric.IsDouble : Numeric → Prop
  | .int _ => False
  | .double _ => True

def Numeric.order : Numeric → Numeric → Option Ordering
  | .int m, .int n => some (compare m n)
  | p, q => side (p.toFloat - q.toFloat).toModel.unpack

theorem number?_eq_some (h : a.number? = some p) :
    a = p.value ∨ ∃ s, a = .string s ∧ readValue s = p.value := by
  rcases a with n | x | s
  · cases h
    exact .inl rfl
  · cases h
    exact .inl rfl
  · rw [Value.number?] at h
    split at h <;> cases h
    · exact .inr ⟨s, rfl, ‹_›⟩
    · exact .inr ⟨s, rfl, ‹_›⟩

theorem number?_eq_none (h : a.number? = none) :
    ∃ s t, a = .string s ∧ readValue s = .string t := by
  rcases a with n | x | s
  · cases h
  · cases h
  · rw [Value.number?] at h
    split at h <;> cases h
    exact ⟨s, _, rfl, ‹_›⟩

theorem differenceOrder_eq_side (d : Float) :
    (if d < 0 then some .lt else if 0 < d then some .gt else if d == 0 then some .eq else none) =
      side d.toModel.unpack := by
  simp only [Number.lt_zero_iff_side, Number.zero_lt_iff_side, Number.beq_zero_iff_side]
  rcases side d.toModel.unpack with _ | _ | _ | _ <;> rfl

theorem compareValues_numbers (ha : a.number? = some p) (hb : b.number? = some q) :
    compareValues a b = p.order q := by
  have hvalues : compareValues p.value q.value = p.order q := by
    rcases p with m | x <;> rcases q with n | y
    · rfl
    all_goals exact differenceOrder_eq_side _
  rw [← hvalues]
  unfold compareValues
  rcases number?_eq_some ha with rfl | ⟨s, rfl, hs⟩ <;>
    rcases number?_eq_some hb with rfl | ⟨t, rfl, ht⟩ <;>
    simp only [*] <;> rcases p with m | x <;> rcases q with n | y <;> rfl

theorem compareValues_texts (h : a.number? = none ∨ b.number? = none) :
    compareValues a b = some (Text.unitCompare a.text b.text) := by
  unfold compareValues
  rcases h with h | h <;> obtain ⟨s, t, rfl, hs⟩ := number?_eq_none h <;> dsimp only <;> rw [hs]
  split <;> first | rfl | cases ‹Value.string _ = _›

theorem Numeric.order_double (h : p.IsDouble ∨ q.IsDouble) :
    p.order q = side (p.toFloat - q.toFloat).toModel.unpack := by
  rcases p with m | x <;> rcases q with n | y <;> first | rfl | exact (h.elim id id).elim

theorem compare_swap (u v : Float.Model.UnpackedFloat) :
    u.compare v = (v.compare u).map Ordering.swap := by
  have hfinite : ∀ (m n : ℕ) (e f : ℤ), (compare e f).then (compare m n) =
      ((compare f e).then (compare n m)).swap := by
    intro m n e f
    rw [Ordering.swap_then, ← Std.OrientedCmp.eq_swap, ← Std.OrientedCmp.eq_swap]
  rcases u with (_ | _) | _ | (_ | _) | ⟨_ | _, m, e, hm⟩ <;>
    rcases v with (_ | _) | _ | (_ | _) | ⟨_ | _, n, f, hn⟩ <;> try rfl
  · exact congrArg (some ·.swap) (hfinite m n e f)
  · exact congrArg some (hfinite m n e f)

theorem Numeric.order_swap (p q : Numeric) : q.order p = (p.order q).map Ordering.swap := by
  by_cases h : p.IsDouble ∨ q.IsDouble
  · rw [order_double h, order_double h.symm]
    by_cases hsame : Number.SameInfinity p.toFloat q.toFloat
    · have hsame' : Number.SameInfinity q.toFloat p.toFloat := hsame.imp fun _ h => h.symm
      rw [Number.side_sub_sameInfinity hsame, Number.side_sub_sameInfinity hsame']
      rfl
    · rw [Number.side_sub hsame, Number.side_sub fun h => hsame (h.imp fun _ h => h.symm)]
      exact compare_swap _ _
  · rcases p with m | x <;> rcases q with n | y
    · exact congrArg some Std.OrientedCmp.eq_swap
    all_goals simp [Numeric.IsDouble] at h

theorem compareValues_swap (a b : Value) :
    compareValues b a = (compareValues a b).map Ordering.swap := by
  have htexts : ∀ x y, Text.unitCompare y x = (Text.unitCompare x y).swap :=
    fun x y => (Std.OrientedCmp.eq_swap : compare (Text.units y.toList) (Text.units x.toList) = _)
  rcases ha : a.number? with _ | p
  · rw [compareValues_texts (.inl ha), compareValues_texts (.inr ha)]
    exact congrArg some (htexts _ _)
  rcases hb : b.number? with _ | q
  · rw [compareValues_texts (.inr hb), compareValues_texts (.inl hb)]
    exact congrArg some (htexts _ _)
  rw [compareValues_numbers ha hb, compareValues_numbers hb ha, Numeric.order_swap]

end Order

section Infinity

/-- Integers, doubles that are numbers, and texts that do not read as `NaN`. -/
def Value.NotNaN : Value → Prop
  | .int _ => True
  | .double x => x.isNaN = false
  | .string s => ∀ x, readValue s = .double x → x.isNaN = false

/-- Two values that are compared as doubles, and are the same infinity as such. -/
def SameInfinity (a b : Value) : Prop :=
  ∃ p ∈ a.number?, ∃ q ∈ b.number?,
    (p.IsDouble ∨ q.IsDouble) ∧ Number.SameInfinity p.toFloat q.toFloat

theorem notNaN_string (s : String) : (Value.string s).NotNaN := fun _ => readValue_double

theorem notNaN_readValue (s : String) : (readValue s).NotNaN := by
  rcases h : readValue s with n | x | t
  · trivial
  · exact readValue_double h
  · exact notNaN_string t

theorem isNaN_toFloat (ha : a.NotNaN) (h : a.number? = some p) : p.toFloat.isNaN = false := by
  rcases p with n | x
  · exact Number.isNaN_ofInt n
  rcases number?_eq_some h with rfl | ⟨s, rfl, hs⟩
  · exact ha
  · exact ha x hs

theorem compare_ne_none {u v : Float.Model.UnpackedFloat} (hu : u.isNaN = false)
    (hv : v.isNaN = false) :
    u.compare v ≠ none := by
  have hne : ∀ w : Float.Model.UnpackedFloat, w.isNaN = false → w ≠ .notANumber := by
    rintro _ h rfl
    cases h
  replace hu := hne u hu
  replace hv := hne v hv
  rcases u with (_ | _) | _ | (_ | _) | ⟨_ | _, m, e, hm⟩ <;>
    rcases v with (_ | _) | _ | (_ | _) | ⟨_ | _, n, f, hn⟩ <;>
    first | exact Option.some_ne_none _ | exact (hu rfl).elim | exact (hv rfl).elim

/-- Only equal infinities have no order. -/
theorem compareValues_eq_none_iff (ha : a.NotNaN) (hb : b.NotNaN) :
    compareValues a b = none ↔ SameInfinity a b := by
  constructor
  · intro h
    rcases hp : a.number? with _ | p
    · rw [compareValues_texts (.inl hp)] at h
      cases h
    rcases hq : b.number? with _ | q
    · rw [compareValues_texts (.inr hq)] at h
      cases h
    rw [compareValues_numbers hp hq] at h
    by_cases hdouble : p.IsDouble ∨ q.IsDouble
    · refine ⟨p, hp, q, hq, hdouble, ?_⟩
      by_contra hsame
      rw [Numeric.order_double hdouble, Number.side_sub hsame] at h
      exact compare_ne_none (isNaN_toFloat ha hp) (isNaN_toFloat hb hq) h
    · rcases p with m | x <;> rcases q with n | y
      · cases h
      all_goals simp [Numeric.IsDouble] at hdouble
  · rintro ⟨p, hp, q, hq, hdouble, hsame⟩
    rw [compareValues_numbers hp hq, Numeric.order_double hdouble,
      Number.side_sub_sameInfinity hsame]

end Infinity

section Operators

/-- Values are less, equal or greater, and the other comparisons say the same. -/
structure Ordered (a b : Value) : Prop where
  one : ∃! op, op ∈ [BinaryOp.less, .equal, .greater] ∧ binaryValue op a b = .ok (.int 1)
  lessEqual : binaryValue .lessEqual a b = .ok (.int 1) ↔ binaryValue .greater a b = .ok (.int 0)
  greaterEqual : binaryValue .greaterEqual a b = .ok (.int 1) ↔ binaryValue .less a b = .ok (.int 0)

theorem bool_eq_one {c : Bool} :
    (.ok (.bool c) : Except Fault Value) = .ok (.int 1) ↔ c = true := by
  cases c <;> simp [Value.bool]

theorem bool_eq_zero {c : Bool} :
    (.ok (.bool c) : Except Fault Value) = .ok (.int 0) ↔ c = false := by
  cases c <;> simp [Value.bool]

def BinaryOp.ofOrdering : Ordering → BinaryOp
  | .lt => .less
  | .eq => .equal
  | .gt => .greater

theorem ofOrdering_iff (o : Ordering) :
    binaryValue (.ofOrdering o) a b = .ok (.int 1) ↔ compareValues a b = some o := by
  cases o <;> exact bool_eq_one.trans decide_eq_true_iff

theorem ofOrdering_swap (o : Ordering) :
    binaryValue (.ofOrdering o) a b = .ok (.int 1) ↔ binaryValue (.ofOrdering o.swap) b a =
      .ok (.int 1) := by
  rw [ofOrdering_iff, ofOrdering_iff, compareValues_swap a b, Option.map_eq_some_iff]
  constructor
  · exact fun h => ⟨o, h, rfl⟩
  · rintro ⟨o', h, hswap⟩
    rw [h, Ordering.swap_inj.1 hswap]

theorem ordered_of_some {o : Ordering} (h : compareValues a b = some o) : Ordered a b where
  one := by
    refine ⟨.ofOrdering o, ⟨by cases o <;> decide, (ofOrdering_iff o).2 h⟩, ?_⟩
    rintro op ⟨hop, hone⟩
    obtain ⟨o', rfl⟩ : ∃ o', op = .ofOrdering o' := by
      simp only [List.mem_cons, List.not_mem_nil, or_false] at hop
      rcases hop with rfl | rfl | rfl
      · exact ⟨.lt, rfl⟩
      · exact ⟨.eq, rfl⟩
      · exact ⟨.gt, rfl⟩
    rw [ofOrdering_iff, h] at hone
    cases hone
    rfl
  lessEqual := by
    simp only [binaryValue, relation, h, bool_eq_one, bool_eq_zero]
    cases o <;> decide
  greaterEqual := by
    simp only [binaryValue, relation, h, bool_eq_one, bool_eq_zero]
    cases o <;> decide

theorem comparisons_of_none (h : compareValues a b = none) :
    ∀ op ∈ [BinaryOp.less, .equal, .greater, .lessEqual, .greaterEqual], binaryValue op a b =
      .ok (.int 0) := by
  intro op hop
  simp only [List.mem_cons, List.not_mem_nil, or_false] at hop
  rcases hop with rfl | rfl | rfl | rfl | rfl <;> simp only [binaryValue, relation, h] <;> rfl

theorem ordered_iff_order : Ordered a b ↔ compareValues a b ≠ none := by
  constructor
  · rintro ⟨⟨op, ⟨hop, hone⟩, -⟩, -, -⟩ h
    rw [comparisons_of_none h op (List.mem_append_left [BinaryOp.lessEqual, .greaterEqual] hop)]
      at hone
    cases hone
  · intro h
    obtain ⟨o, ho⟩ := Option.ne_none_iff_exists'.1 h
    exact ordered_of_some ho

theorem equal_self_iff : binaryValue .equal a a = .ok (.int 1) ↔ compareValues a a ≠ none := by
  have hequal : binaryValue .equal a a = .ok (.int 1) ↔ compareValues a a = some .eq :=
    ofOrdering_iff .eq
  rw [hequal]
  constructor
  · exact fun h => h ▸ Option.some_ne_none _
  · intro h
    obtain ⟨o, ho⟩ := Option.ne_none_iff_exists'.1 h
    have hswap := compareValues_swap a a
    rw [ho] at hswap ⊢
    cases o
    · cases hswap
    · rfl
    · cases hswap

/-- Values that are not `NaN` are ordered exactly if they are not the same infinity, and are equal
to themselves exactly if they are not infinite. To swap them swaps less and greater in any case. -/
theorem ordered_iff (ha : a.NotNaN) (hb : b.NotNaN) :
    (Ordered a b ↔ ¬SameInfinity a b) ∧
      (binaryValue .equal a a = .ok (.int 1) ↔ ¬SameInfinity a a) ∧
      (binaryValue .less a b = .ok (.int 1) ↔ binaryValue .greater b a = .ok (.int 1)) ∧
      (binaryValue .greater a b = .ok (.int 1) ↔ binaryValue .less b a = .ok (.int 1)) ∧
      (SameInfinity a b → ∀ op ∈ [BinaryOp.less, .equal, .greater, .lessEqual, .greaterEqual],
        binaryValue op a b = .ok (.int 0)) := by
  refine ⟨?_, ?_, ofOrdering_swap .lt, ofOrdering_swap .gt, fun h => ?_⟩
  · rw [ordered_iff_order, Ne, compareValues_eq_none_iff ha hb]
  · rw [equal_self_iff, Ne, compareValues_eq_none_iff ha ha]
  · exact comparisons_of_none ((compareValues_eq_none_iff ha hb).2 h)

/-- A text in base ten that stands for an integer, and a double. -/
theorem ordered_ten_and_fraction : (Value.string "10").NotNaN ∧ (Value.double 2.5).NotNaN ∧
    Ordered (.string "10") (.double 2.5) ∧
    binaryValue .less (.double 2.5) (.string "10") = .ok (.int 1) := by
  have hten := notNaN_string "10"
  have hfraction : (Value.double 2.5).NotNaN := by
    change (2.5 : Float).isNaN = false
    decide +kernel
  have hgreater : binaryValue .greater (.string "10") (.double 2.5) = .ok (.int 1) := by
    refine (ofOrdering_iff .gt).2 ?_
    decide +kernel
  obtain ⟨hordered, -, -, hswap, -⟩ := ordered_iff hten hfraction
  refine ⟨hten, hfraction, hordered.2 ?_, hswap.1 hgreater⟩
  rintro ⟨-, -, _, ⟨⟩, -, s, -, hs⟩
  have hinf : (2.5 : Float).isInf = true := congrArg Float.Model.UnpackedFloat.isInf hs
  revert hinf
  decide +kernel

theorem infinity_not_ordered : (readValue "1e999").NotNaN ∧
    binaryValue .less (readValue "1e999") (readValue "1e999") = .ok (.int 0) ∧
    binaryValue .equal (readValue "1e999") (readValue "1e999") = .ok (.int 0) ∧
    binaryValue .greater (readValue "1e999") (readValue "1e999") = .ok (.int 0) := by
  have h : compareValues (readValue "1e999") (readValue "1e999") = none := by decide +kernel
  have hnone := comparisons_of_none h
  exact ⟨notNaN_readValue _, hnone _ (by decide), hnone _ (by decide), hnone _ (by decide)⟩

end Operators

end RadarTimeline.Expr
