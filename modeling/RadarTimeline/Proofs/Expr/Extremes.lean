import RadarTimeline.Expr.Arithmetic
import RadarTimeline.Proofs.Number.Integers

namespace RadarTimeline.Expr

open Number

variable {beats : Float → Float → Bool} {le : ℤ → ℤ → Prop} {n r x : ℤ} {args others later : List ℤ}

/-- An argument whose number beats those of all arguments in front of it and is beaten by no later
one's. -/
def Foremost (beats : Float → Float → Bool) (args : List ℤ) (r : ℤ) (later : List ℤ) : Prop :=
  ∃ front, args = front ++ r :: later ∧ (∀ x ∈ front, beats (ofInt r) (ofInt x) = true) ∧
    ∀ x ∈ later, beats (ofInt x) (ofInt r) = false

/-- To beat the number of an integer is to be farther on in an order of the integers, unless
integers have one number. -/
structure Ranks (beats : Float → Float → Bool) (le : ℤ → ℤ → Prop) : Prop where
  total : ∀ x y, le x y ∨ le y x
  unbeaten : ∀ x y, le x y → beats (ofInt x) (ofInt y) = false
  between : ∀ x y z, beats (ofInt x) (ofInt y) = true →
    beats (ofInt x) (ofInt z) = true ∨ beats (ofInt z) (ofInt y) = true
  same : ∀ x y, beats (ofInt x) (ofInt y) = false → beats (ofInt y) (ofInt x) = false →
    (ofInt x == ofInt y) = true

theorem Ranks.asymm (h : Ranks beats le) {x y : ℤ} (hxy : beats (ofInt x) (ofInt y) = true) :
    beats (ofInt y) (ofInt x) = false := by
  rcases h.total x y with hle | hle
  · rw [h.unbeaten x y hle] at hxy
    contradiction
  · exact h.unbeaten y x hle

theorem ranks_max : Ranks (fun x y => y < x) (· ≤ ·) where
  total := le_total
  unbeaten x y hle := decide_eq_false (not_lt_of_le (ofInt_le_ofInt hle))
  between x y z hlt := by
    simp only [decide_eq_true_eq] at hlt ⊢
    rcases le_or_lt (ofInt_le_ofInt (le_refl x)) (ofInt_le_ofInt (le_refl z)) with hle | hzx
    · exact .inr (lt_of_lt_of_le hlt hle)
    · exact .inl hzx
  same x y hxy hyx := by
    simp only [decide_eq_false_iff_not] at hxy hyx
    have hle :=
      (le_or_lt (ofInt_le_ofInt (le_refl x)) (ofInt_le_ofInt (le_refl y))).resolve_right hxy
    have hge :=
      (le_or_lt (ofInt_le_ofInt (le_refl y)) (ofInt_le_ofInt (le_refl x))).resolve_right hyx
    exact beq_iff_le.2 ⟨hle, hge⟩

theorem Ranks.flip (h : Ranks beats le) : Ranks (fun x y => beats y x) (fun x y => le y x) where
  total x y := h.total y x
  unbeaten x y := h.unbeaten y x
  between x y z hyx := (h.between y x z hyx).symm
  same x y hyx hxy := h.same x y hxy hyx

theorem Foremost.unbeaten (hr : Ranks beats le) (h : Foremost beats args r later) (hx : x ∈ args) :
    beats (ofInt x) (ofInt r) = false := by
  obtain ⟨front, rfl, hfront, hlater⟩ := h
  rcases List.mem_append.1 hx with hx | hx
  · exact hr.asymm (hfront x hx)
  · rcases List.mem_cons.1 hx with rfl | hx
    · exact hr.unbeaten x x ((hr.total x x).elim id id)
    · exact hlater x hx

theorem Foremost.mem (h : Foremost beats args r later) : r ∈ args ∧ ∀ x ∈ later, x ∈ args := by
  obtain ⟨front, rfl, -⟩ := h
  exact ⟨List.mem_append_right _ List.mem_cons_self,
    fun x hx => List.mem_append_right _ (List.mem_cons_of_mem _ hx)⟩

theorem Foremost.cons (h : Foremost beats args r later) (hn : beats (ofInt r) (ofInt n) = true) :
    Foremost beats (n :: args) r later := by
  obtain ⟨front, rfl, hfront, hlater⟩ := h
  exact ⟨n :: front, rfl, List.forall_mem_cons.2 ⟨hn, hfront⟩, hlater⟩

/-- An argument that does not beat the one in front of it may be left out. -/
theorem Foremost.insert (hr : Ranks beats le) (h : Foremost beats (n :: args) r later)
    (hx : beats (ofInt x) (ofInt n) = false) :
    ∃ later, Foremost beats (n :: x :: args) r later := by
  obtain ⟨front, hsplit, hfront, hlater⟩ := h
  cases front with
  | nil =>
    obtain ⟨rfl, rfl⟩ := List.cons.inj hsplit
    exact ⟨x :: args, [], rfl, List.forall_mem_nil _, List.forall_mem_cons.2 ⟨hx, hlater⟩⟩
  | cons m front =>
    obtain ⟨rfl, rfl⟩ := List.cons.inj hsplit
    obtain ⟨hn, hfront⟩ := List.forall_mem_cons.1 hfront
    have hbeats : beats (ofInt r) (ofInt x) = true :=
      (hr.between r n x hn).resolve_right (Bool.eq_false_iff.1 hx)
    have hall : ∀ y ∈ n :: x :: front, beats (ofInt r) (ofInt y) = true :=
      List.forall_mem_cons.2 ⟨hn, List.forall_mem_cons.2 ⟨hbeats, hfront⟩⟩
    exact ⟨later, n :: x :: front, rfl, hall, hlater⟩

theorem pick_cons (x n : ℤ) (others : List ℤ) : pick beats (.int n) ((x :: others).map .int) =
    if beats (ofInt x) (ofInt n) then pick beats (.int x) (others.map .int)
    else pick beats (.int n) (others.map .int) := by
  rw [pick, List.map_cons, List.foldl_cons]
  change Numeric.value (List.foldl _ (if beats (ofInt x) (ofInt n) then _ else _) _) = _
  split <;> rfl

theorem pick_ints (hr : Ranks beats le) (n : ℤ) (others : List ℤ) :
    ∃ r later, pick beats (.int n) (others.map .int) = .int r ∧
    Foremost beats (n :: others) r later := by
  induction others generalizing n with
  | nil => exact ⟨n, [], rfl, [], rfl, List.forall_mem_nil _, List.forall_mem_nil _⟩
  | cons x others ih =>
    rw [pick_cons]
    split
    · next hx =>
      obtain ⟨r, later, hpick, hforemost⟩ := ih x
      have hunbeaten := Bool.eq_false_iff.1 (hforemost.unbeaten hr List.mem_cons_self)
      have hbeats : beats (ofInt r) (ofInt n) = true := (hr.between x n r hx).resolve_left hunbeaten
      exact ⟨r, later, hpick, hforemost.cons hbeats⟩
    · next hx =>
      obtain ⟨r, later, hpick, hforemost⟩ := ih n
      obtain ⟨later, hforemost⟩ := hforemost.insert hr (Bool.eq_false_iff.2 hx)
      exact ⟨r, later, hpick, hforemost⟩

/-- The foremost argument is the most extreme integer exactly if no later one with its number is
beyond it. -/
theorem Foremost.extreme_iff (hr : Ranks beats le) (h : Foremost beats args r later) :
    (∀ x ∈ args, le x r) ↔ ∀ x ∈ later, (ofInt x == ofInt r) = true → le x r := by
  constructor
  · exact fun hall x hx _ => hall x (h.mem.2 x hx)
  · intro hlater x hx
    rcases hr.total x r with hle | hle
    · exact hle
    have hunbeaten := h.unbeaten hr hx
    have hsame := hr.same x r hunbeaten (hr.unbeaten r x hle)
    obtain ⟨front, rfl, hfront, -⟩ := h
    rcases List.mem_append.1 hx with hx | hx
    · have hbeats := hfront x hx
      rw [hr.unbeaten r x hle] at hbeats
      contradiction
    · rcases List.mem_cons.1 hx with rfl | hx
      · exact hle
      · exact hlater x hx hsame

theorem Foremost.extreme_of_le (hr : Ranks beats le) (h : Foremost beats args r later)
    (hall : ∀ x ∈ args, x.natAbs ≤ 2 ^ 53) : ∀ x ∈ args, le x r := by
  rw [h.extreme_iff hr]
  intro x hx hsame
  obtain rfl := (ofInt_beq_ofInt (hall x (h.mem.2 x hx)) (hall r h.mem.1)).1 hsame
  exact (hr.total x x).elim id id

theorem mapM_numeric (name : String) (ns : List ℤ) :
    (ns.map Value.int).mapM (Value.numeric name) = .ok (ns.map .int) := by
  induction ns with
  | nil => rfl
  | cons n ns ih =>
    rw [List.map_cons, List.mapM_cons, ih]
    rfl

theorem callValue_ints {name : String} {f : Numeric → List Numeric → Value}
    (h : function? name = some (.variadic f)) (n : ℤ) (ns : List ℤ) :
    callValue name ((n :: ns).map .int) = .ok (f (.int n) (ns.map .int)) := by
  rw [List.map_cons]
  unfold callValue
  rw [h]
  dsimp only
  rw [mapM_numeric]
  rfl

theorem callValue_max (n : ℤ) (ns : List ℤ) : ∃ largest later,
    callValue "max" ((n :: ns).map .int) = .ok (.int largest) ∧
      Foremost (fun x y => y < x) (n :: ns) largest later := by
  obtain ⟨r, later, hpick, hforemost⟩ := pick_ints ranks_max n ns
  exact ⟨r, later, (callValue_ints rfl n ns).trans (congrArg Except.ok hpick), hforemost⟩

theorem callValue_min (n : ℤ) (ns : List ℤ) : ∃ smallest later,
    callValue "min" ((n :: ns).map .int) = .ok (.int smallest) ∧
      Foremost (fun x y => x < y) (n :: ns) smallest later := by
  obtain ⟨r, later, hpick, hforemost⟩ := pick_ints ranks_max.flip n ns
  exact ⟨r, later, (callValue_ints rfl n ns).trans (congrArg Except.ok hpick), hforemost⟩

end RadarTimeline.Expr
