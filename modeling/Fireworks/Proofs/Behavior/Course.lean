import Fireworks.Proofs.Behavior.Trace
import Fireworks.Proofs.ExactTime

/-! # The course of a chain in exact time

What a chain does in one call, step by step and at rational times: it passes children that end, and
comes to rest when it has none left, when the window is over, when a child waits for more time, or
when it has used up its limit.
-/
namespace Fireworks

namespace Chain
open Extended
variable {σ : Type}

/-- A chain at a rational time. -/
def exact (c : Chain ℚ σ) : Chain Extended σ := ⟨finite c.now,finite c.offset,c.cursor,c.state⟩

section
variable (more : ℕ → Bool) (call : ℕ → Extended → Extended → σ → Status Extended × σ) (term : ℚ)

inductive Course : ℕ → Chain ℚ σ → List (Visit Extended σ) → Chain ℚ σ → Prop
  | tired (c) : Course 0 c [] c
  | ended {n c} : c.cursor = none → Course (n + 1) c [] c
  | full {n c} : term ≤ c.now → Course (n + 1) c [] c
  | waits {n c i state} : c.cursor = some i → c.now < term →
      call i (finite (c.now - c.offset)) (finite (term - c.offset)) c.state = (.running,state) →
      Course (n + 1) c
        [⟨i,finite (c.now - c.offset),finite (term - c.offset),.running,c.state⟩] { c with state }
  | passes {n c i state q vs c'} : c.cursor = some i → c.now < term →
      call i (finite (c.now - c.offset)) (finite (term - c.offset)) c.state =
        (.done (finite q),state) → 0 ≤ q → q ≤ term - c.now →
      Course n ⟨term - q,term - q,following more (i + 1),state⟩ vs c' →
      Course (n + 1) c
        (⟨i,finite (c.now - c.offset),finite (term - c.offset),.done (finite q),c.state⟩ :: vs) c'

end

variable {more : ℕ → Bool} {call : ℕ → Extended → Extended → σ → Status Extended × σ} {term : ℚ}

theorem following_eq_some {i j : ℕ} (h : following more i = some j) : j = i ∧ more i = true := by
  unfold following at h
  split at h
  · exact ⟨(Option.some.inj h).symm,‹_›⟩
  · cases h

theorem more_of_following {i j : ℕ} (h : following more i = some j) : more j = true :=
  (following_eq_some h).1 ▸ (following_eq_some h).2

theorem following_eq_none {i : ℕ} (h : following more i = none) : more i = false := by
  unfold following at h
  split at h
  · cases h
  · exact Bool.eq_false_iff.mpr ‹_›

/-- Every call of a chain takes a course, as long as its children answer in time. -/
theorem exists_course {I : σ → Prop}
    (hcall : ∀ i a b state, more i = true → a < b → I state →
      (call i (finite a) (finite b) state).1.Timely (b - a) ∧
        I (call i (finite a) (finite b) state).2)
    (term : ℚ) (limit : ℕ) (c : Chain ℚ σ) (hI : I c.state)
    (hc : ∀ i, c.cursor = some i → more i = true) :
    ∃ c', Course more call term limit c
        (visits (following more) call (finite term) limit c.exact) c' ∧
      drive (following more) call (finite term) limit c.exact = c'.exact ∧ I c'.state ∧
      ∀ i, c'.cursor = some i → more i = true := by
  induction limit generalizing c with
  | zero => exact ⟨c,.tired c,rfl,hI,hc⟩
  | succ limit ih =>
    rw [visits_succ]
    obtain ⟨now,offset,cursor,state⟩ := c
    cases cursor with
    | none => exact ⟨_,.ended rfl,rfl,hI,hc⟩
    | some i =>
      rcases le_or_gt term now with h | h
      · simp only [exact,drive,finite_le,h,↓reduceIte]
        exact ⟨⟨now,offset,some i,state⟩,.full h,rfl,hI,hc⟩
      · obtain ⟨ht,hs⟩ := hcall i (now - offset) (term - offset) state (hc i rfl) (by linarith) hI
        simp only [exact,drive,finite_le,not_le.mpr h,↓reduceIte,finite_sub]
        cases he : call i (finite (now - offset)) (finite (term - offset)) state with
        | mk status after =>
          rw [he] at ht hs
          cases status with
          | running => exact ⟨_,.waits rfl h he,rfl,hs,hc⟩
          | done leftover =>
            obtain ⟨q,rfl,hq,hqs⟩ := ht
            obtain ⟨c',hcourse,hdrive,hafter⟩ :=
              ih ⟨term - q,term - q,following more (i + 1),after⟩ hs
                fun j hj => more_of_following hj
            simp only [exact,← finite_sub] at hcourse hdrive
            exact ⟨c',.passes rfl h he hq (by linarith) hcourse,hdrive,hafter⟩

theorem Course.now_le {n : ℕ} {c c' : Chain ℚ σ} {vs : List (Visit Extended σ)}
    (h : Course more call term n c vs c') : c.now ≤ c'.now := by
  induction h with
  | tired | ended | full | waits => exact le_rfl
  | passes _ _ _ _ hq _ ih => exact le_trans (by linarith) ih

theorem Course.now_le_term {n : ℕ} {c c' : Chain ℚ σ} {vs : List (Visit Extended σ)}
    (h : Course more call term n c vs c') (hc : c.now ≤ term) : c'.now ≤ term := by
  induction h with
  | tired | ended | full | waits => exact hc
  | passes _ _ _ hq _ _ ih => exact ih (by simpa using hq)

theorem Course.now_le_stop {n : ℕ} {c c' : Chain ℚ σ} {vs : List (Visit Extended σ)} {stop : ℚ}
    (h : Course more call term n c vs c') (hc : c.now ≤ stop) (ht : term ≤ stop) :
    c'.now ≤ stop := by
  induction h with
  | tired | ended | full | waits => exact hc
  | passes _ _ _ hq _ _ ih => exact ih (by linarith)

theorem Course.more_of_mem {n : ℕ} {c c' : Chain ℚ σ} {vs : List (Visit Extended σ)}
    (h : Course more call term n c vs c') (hc : ∀ i, c.cursor = some i → more i = true) :
    ∀ v ∈ vs, more v.place = true := by
  induction h with
  | tired | ended | full => simp
  | waits hcursor => simpa using hc _ hcursor
  | passes hcursor _ _ _ _ _ ih =>
    exact List.forall_mem_cons.mpr ⟨hc _ hcursor,ih fun i hi => more_of_following hi⟩

theorem Course.eq_of_none {n : ℕ} {c c' : Chain ℚ σ} {vs : List (Visit Extended σ)}
    (h : Course more call term n c vs c') (hc : c.cursor = none) : vs = [] ∧ c' = c := by
  cases h with
  | tired | ended | full => exact ⟨rfl,rfl⟩
  | waits hcursor | passes hcursor => rw [hc] at hcursor; cases hcursor

theorem Course.eq_of_le {n : ℕ} {c c' : Chain ℚ σ} {vs : List (Visit Extended σ)}
    (h : Course more call term n c vs c') (hc : term ≤ c.now) : vs = [] ∧ c' = c := by
  cases h with
  | tired | ended | full => exact ⟨rfl,rfl⟩
  | waits _ hlt | passes _ hlt => exact absurd hc (not_le.mpr hlt)

theorem Course.exists_cons {n : ℕ} {c c' : Chain ℚ σ} {vs : List (Visit Extended σ)}
    (h : Course more call term n c vs c') (hn : n ≠ 0) {i : ℕ} (hi : c.cursor = some i)
    (hlt : c.now < term) : ∃ v rest, vs = v :: rest ∧ v.place = i := by
  cases h with
  | tired => exact absurd rfl hn
  | ended hcursor => rw [hi] at hcursor; cases hcursor
  | full hle => exact absurd hle (not_le.mpr hlt)
  | waits hcursor | passes hcursor => exact ⟨_,_,rfl,Option.some.inj (hcursor.symm.trans hi)⟩

theorem status_of_none (lifespan : Extended) {c : Chain ℚ σ} (hc : c.cursor = none) {stop : ℚ}
    (h : c.now ≤ stop) :
    c.exact.status lifespan (finite stop) = .done (finite (stop - c.now)) := by
  simp only [status,exact,hc,finite_sub]
  exact Status.ofLeftover_of_le h

theorem status_of_some {lifespan : Extended} {c : Chain ℚ σ} {i : ℕ} (hc : c.cursor = some i)
    (stop : ℚ) :
    c.exact.status lifespan (finite stop) = .settle lifespan (finite c.now) (finite stop) := by
  simp only [status,exact,hc]

theorem timely_status {lifespan : Extended} (hs : lifespan.IsSpan) (c : Chain ℚ σ) {start : ℚ}
    (h : start ≤ c.now) (stop : ℚ) :
    (c.exact.status lifespan (finite stop)).Timely (stop - start) := by
  cases hc : c.cursor with
  | none =>
    have ht : (Status.ofLeftover (left stop c.now)).Timely (stop - start) :=
      Status.timely_left (WithTop.coe_le_coe.mpr h)
    simpa [status,exact,hc] using ht
  | some i =>
    rw [status_of_some hc]
    exact (Status.timely_settle hs c.now stop).mono (by linarith)

/-- A chain wants more time as long as it has a child at hand and its lifespan goes on. -/
theorem status_eq_running {lifespan : Extended} (hs : lifespan.IsSpan) (c : Chain ℚ σ) {stop : ℚ}
    (h : c.now ≤ stop) :
    c.exact.status lifespan (finite stop) = .running ↔
      c.cursor ≠ none ∧ (stop : WithTop ℚ) < lifespan.toTop := by
  cases hc : c.cursor with
  | none => simp [status_of_none lifespan hc h]
  | some i =>
    rw [status_of_some hc]
    rcases Status.settle_cases hs h with ⟨hlt,hstatus⟩ | ⟨q,rfl,hle,hstatus⟩
    · simp [hstatus,hlt]
    · simpa [hstatus] using hle

theorem Course.eq_drive {n : ℕ} {c c' : Chain ℚ σ} {vs : List (Visit Extended σ)}
    (h : Course more call term n c vs c') :
    visits (following more) call (finite term) n c.exact = vs ∧
      drive (following more) call (finite term) n c.exact = c'.exact := by
  induction h with
  | tired => exact ⟨rfl,rfl⟩
  | ended hcursor => simp [visits_succ,drive,exact,hcursor]
  | @full n c hle => cases h : c.cursor <;> simp [visits_succ,drive,exact,h,hle]
  | waits hcursor hlt hcall => simp [visits_succ,drive,exact,hcursor,not_le.mpr hlt,hcall]
  | passes hcursor hlt hcall _ _ _ ih =>
    simp only [exact] at ih
    simp [visits_succ,drive,exact,hcursor,not_le.mpr hlt,hcall,ih]

/-- A chain that has come to the end of its time stays as it is. -/
theorem drive_of_le (n : ℕ) {c : Chain ℚ σ} (h : term ≤ c.now) :
    drive (following more) call (finite term) n c.exact = c.exact := by
  cases n with
  | zero => rfl
  | succ n => exact (Course.full h).eq_drive.2

theorem exact_injective : Function.Injective (exact : Chain ℚ σ → Chain Extended σ) := by
  rintro ⟨now,offset,cursor,state⟩ ⟨now',offset',cursor',state'⟩ h
  simp only [exact,mk.injEq,finite.injEq] at h
  obtain ⟨rfl,rfl,rfl,rfl⟩ := h
  rfl

theorem Course.unique {n : ℕ} {c c' d : Chain ℚ σ} {vs ws : List (Visit Extended σ)}
    (h : Course more call term n c vs c') (hd : Course more call term n c ws d) :
    vs = ws ∧ c' = d :=
  ⟨h.eq_drive.1.symm.trans hd.eq_drive.1,
    exact_injective (h.eq_drive.2.symm.trans hd.eq_drive.2)⟩

/-- How many children end in the course of a chain. -/
def completions (vs : List (Visit Extended σ)) : ℕ := vs.countP fun v => v.status.isDone

/-- A chain that has not used up its limit does not depend on it. -/
theorem Course.mono {n : ℕ} {c c' : Chain ℚ σ} {vs : List (Visit Extended σ)}
    (h : Course more call term n c vs c') (hspare : completions vs < n) {m : ℕ} (hm : n ≤ m) :
    Course more call term m c vs c' := by
  induction h generalizing m with
  | tired => exact absurd hspare (Nat.not_lt_zero _)
  | ended hcursor =>
    obtain ⟨m,rfl⟩ := Nat.exists_eq_add_of_le' (Nat.le_of_add_left_le hm)
    exact .ended hcursor
  | full hle =>
    obtain ⟨m,rfl⟩ := Nat.exists_eq_add_of_le' (Nat.le_of_add_left_le hm)
    exact .full hle
  | waits hcursor hlt hcall =>
    obtain ⟨m,rfl⟩ := Nat.exists_eq_add_of_le' (Nat.le_of_add_left_le hm)
    exact .waits hcursor hlt hcall
  | passes hcursor hlt hcall hq hqs _ ih =>
    obtain ⟨m,rfl⟩ := Nat.exists_eq_add_of_le' (Nat.le_of_add_left_le hm)
    refine .passes hcursor hlt hcall hq hqs (ih ?_ (Nat.le_of_succ_le_succ hm))
    simpa [completions,Status.isDone] using hspare

end Chain
end Fireworks
