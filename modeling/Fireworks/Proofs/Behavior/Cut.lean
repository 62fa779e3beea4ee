import Fireworks.Proofs.Behavior.Course

/-! # Windows cut in two

A window may be cut in two: a chain whose calls may be suspended at the cut and resumed there may be
suspended and resumed itself. Its course up to the cut is a part of its whole course, where the child
at hand, if it goes on beyond the cut, has been called for the first part of its own window.
-/
namespace Fireworks
namespace Chain
open Extended
variable {σ : Type}

section
variable (P : Visit Extended σ → Prop) (call : ℕ → Extended → Extended → σ → Status Extended × σ)

/-- How a call may be cut in two: either its child ends in the first part, or it waits for the
second. All calls concerned have the property `P`. -/
inductive Cut (i : ℕ) (a m e : ℚ) (state : σ) : Status Extended × σ → Prop
  | ends {l : ℚ} {after} : P ⟨i,finite a,finite m,.done (finite l),state⟩ → 0 ≤ l → l ≤ m - a →
      call i (finite a) (finite m) state = (.done (finite l),after) →
      Cut i a m e state (.done (finite (l + (e - m))),after)
  | waits {between result} : P ⟨i,finite a,finite m,.running,state⟩ →
      P ⟨i,finite m,finite e,result.1,between⟩ →
      call i (finite a) (finite m) state = (.running,between) →
      call i (finite m) (finite e) between = result → result.1.Timely (e - m) →
      Cut i a m e state result

end

/-- Two chains that go on in the same way: while a child is at hand, the time does not matter. -/
structure Alike (c d : Chain ℚ σ) : Prop where
  offset : d.offset = c.offset
  cursor : d.cursor = c.cursor
  state : d.state = c.state
  now : c.cursor = none → d.now = c.now

theorem Alike.refl (c : Chain ℚ σ) : Alike c c := ⟨rfl,rfl,rfl,fun _ => rfl⟩

theorem Alike.status {c d : Chain ℚ σ} (h : Alike c d) {lifespan : Extended} (hs : lifespan.IsSpan)
    (hc : (c.now : WithTop ℚ) ≤ lifespan.toTop) (hd : (d.now : WithTop ℚ) ≤ lifespan.toTop)
    (stop : ℚ) :
    d.exact.status lifespan (finite stop) = c.exact.status lifespan (finite stop) := by
  cases hi : c.cursor with
  | none => simp only [Chain.status,exact,h.cursor,hi,h.now hi]
  | some i =>
    rw [status_of_some hi,status_of_some (h.cursor.trans hi),Status.settle_of_le hs hc,
      Status.settle_of_le hs hd]

theorem exists_status_of_over {lifespan : Extended} {c : Chain ℚ σ} {m e : ℚ} (hc : c.now ≤ m)
    (hme : m ≤ e) (hover : c.cursor = none ∨ ∃ q, lifespan = finite q ∧ q ≤ m) :
    ∃ l, c.exact.status lifespan (finite m) = .done (finite l) ∧
      c.exact.status lifespan (finite e) = .done (finite (l + (e - m))) := by
  have hce := hc.trans hme
  cases hi : c.cursor with
  | none =>
    refine ⟨m - c.now,status_of_none _ hi hc,?_⟩
    rw [status_of_none _ hi hce]
    congr 2
    ring
  | some i =>
    obtain ⟨q,rfl,hq⟩ := hover.resolve_left (by rw [hi]; exact Option.some_ne_none i)
    refine ⟨m - max q c.now,by rw [status_of_some hi,Status.settle_finite hq hc],?_⟩
    rw [status_of_some hi,Status.settle_finite (hq.trans hme) hce]
    congr 2
    ring

section
variable (P : Visit Extended σ → Prop) (more : ℕ → Bool)
  (call : ℕ → Extended → Extended → σ → Status Extended × σ) (m term : ℚ)

/-- How the course of a chain from `c` to `c'` may be cut at the time `m`, where it has come to
`c₁`. Neither part completes more children than the whole. -/
structure Severed (n : ℕ) (c : Chain ℚ σ) (vs : List (Visit Extended σ)) (c' : Chain ℚ σ)
    (vs₁ : List (Visit Extended σ)) (c₁ : Chain ℚ σ) : Prop where
  course : Course more call m n c vs₁ c₁
  count : completions vs₁ ≤ completions vs
  calls : ∀ v ∈ vs₁, P v
  rest : c₁.cursor = none ∧ c' = c₁ ∨ c₁.cursor ≠ none ∧ ∀ n' ≥ n, ∃ vs₂ c₂,
    Course more call term n' ⟨m,c₁.offset,c₁.cursor,c₁.state⟩ vs₂ c₂ ∧
      completions vs₂ ≤ completions vs ∧ (∀ v ∈ vs₂, P v) ∧ Alike c' c₂

end

variable {P : Visit Extended σ → Prop} {more : ℕ → Bool}
  {call : ℕ → Extended → Extended → σ → Status Extended × σ} {term m : ℚ}

theorem Course.severed_of_eq {n : ℕ} {c c' : Chain ℚ σ} {vs : List (Visit Extended σ)}
    (h : Course more call term (n + 1) c vs c') (hc : c.now = m) (hcursor : c.cursor ≠ none)
    (hP : ∀ v ∈ vs, P v) (hspare : completions vs < n + 1) :
    Severed P more call m term (n + 1) c vs c' [] c := by
  subst hc
  refine ⟨.full le_rfl,Nat.zero_le _,by simp,Or.inr ⟨hcursor,fun n' hn' => ?_⟩⟩
  exact ⟨vs,c',h.mono hspare hn',le_rfl,hP,.refl c'⟩

/-- A chain whose calls may be cut in two may be cut itself. -/
theorem Course.exists_severed {I : Chain ℚ σ → Prop} (hmt : m < term)
    (hcut : ∀ c i, I c → c.cursor = some i → c.now < m →
      P ⟨i,finite (c.now - c.offset),finite (term - c.offset),
        (call i (finite (c.now - c.offset)) (finite (term - c.offset)) c.state).1,c.state⟩ →
      Cut P call i (c.now - c.offset) (m - c.offset) (term - c.offset) c.state
        (call i (finite (c.now - c.offset)) (finite (term - c.offset)) c.state))
    (hnext : ∀ c i q state, I c → c.cursor = some i → c.now < term →
      call i (finite (c.now - c.offset)) (finite (term - c.offset)) c.state =
        (.done (finite q),state) → I ⟨term - q,term - q,following more (i + 1),state⟩)
    {n : ℕ} {c c' : Chain ℚ σ} {vs : List (Visit Extended σ)}
    (h : Course more call term n c vs c') (hc : c.now ≤ m) (hI : I c) (hP : ∀ v ∈ vs, P v)
    (hspare : completions vs < n) : ∃ vs₁ c₁, Severed P more call m term n c vs c' vs₁ c₁ := by
  induction h with
  | tired => exact absurd hspare (Nat.not_lt_zero _)
  | ended hcursor => exact ⟨[],_,.ended hcursor,le_rfl,hP,Or.inl ⟨hcursor,rfl⟩⟩
  | full hle => exact absurd hle (not_le.mpr (hc.trans_lt hmt))
  | @waits n c i state hcursor hlt hcall =>
    have hne : c.cursor ≠ none := by rw [hcursor]; exact Option.some_ne_none i
    rcases hc.eq_or_lt with heq | hlt'
    · exact ⟨[],c,(Course.waits hcursor hlt hcall).severed_of_eq heq hne hP hspare⟩
    · have hc := hcut c i hI hcursor hlt' (by rw [hcall]; exact hP _ List.mem_cons_self)
      rw [hcall] at hc
      cases hc with
      | waits hP₁ hP₂ hfirst hsecond =>
        refine ⟨_,_,.waits hcursor hlt' hfirst,le_rfl,by simpa using hP₁,Or.inr ⟨hne,?_⟩⟩
        intro n' hn'
        obtain ⟨n',rfl⟩ := Nat.exists_eq_add_of_le' (Nat.le_of_add_left_le hn')
        exact ⟨_,_,.waits hcursor hmt hsecond,le_rfl,by simpa using hP₂,rfl,rfl,rfl,
          fun h => absurd h hne⟩
  | @passes n c i state q vs c' hcursor hlt hcall hq hqs h ih =>
    have hne : c.cursor ≠ none := by rw [hcursor]; exact Option.some_ne_none i
    obtain ⟨hPfirst,hPrest⟩ := List.forall_mem_cons.mp hP
    have hspare' : completions vs < n := by simpa [completions,Status.isDone] using hspare
    rcases hc.eq_or_lt with heq | hlt'
    · exact ⟨[],c,(Course.passes hcursor hlt hcall hq hqs h).severed_of_eq heq hne hP hspare⟩
    · have hI' := hnext c i q state hI hcursor hlt hcall
      have hc := hcut c i hI hcursor hlt' (by rw [hcall]; exact hPfirst)
      rw [hcall] at hc
      cases hc with
      | @ends l _ hP₁ hl hlm hfirst =>
        -- The child ends at the same time in both courses, and the chain goes on from there.
        have hnow : term - (l + (term - c.offset - (m - c.offset))) = m - l := by ring
        rw [hnow] at ih hI'
        obtain ⟨vs₁,c₁,hrest⟩ := ih (by simpa using hl) hI' hPrest hspare'
        refine ⟨_,c₁,.passes hcursor hlt' hfirst hl (by linarith) hrest.course,?_,
          List.forall_mem_cons.mpr ⟨hP₁,hrest.calls⟩,hrest.rest.imp_right fun hgoes =>
            ⟨hgoes.1,fun n' hn' => ?_⟩⟩
        · simpa [completions,Status.isDone] using hrest.count
        · obtain ⟨vs₂,c₂,hcourse₂,hcount₂,hP₂,halike⟩ := hgoes.2 n' (Nat.le_of_succ_le hn')
          refine ⟨vs₂,c₂,hcourse₂,hcount₂.trans ?_,hP₂,halike⟩
          rw [completions,completions,List.countP_cons]
          exact Nat.le_add_right _ _
      | waits hP₁ hP₂ hfirst hsecond ht =>
        refine ⟨_,_,.waits hcursor hlt' hfirst,Nat.zero_le _,by simpa using hP₁,Or.inr ⟨hne,?_⟩⟩
        intro n' hn'
        obtain ⟨n',rfl⟩ := Nat.exists_eq_add_of_le' (Nat.le_of_add_left_le hn')
        obtain ⟨q',hq',-,hqt⟩ := ht
        obtain rfl := Extended.finite.inj hq'
        refine ⟨_,_,.passes hcursor hmt hsecond hq (by linarith)
          (h.mono hspare' (Nat.le_of_succ_le_succ hn')),?_,?_,.refl c'⟩
        · simp [completions,Status.isDone]
        · exact List.forall_mem_cons.mpr ⟨hP₂,hPrest⟩

end Chain
end Fireworks
