import Fireworks.Proofs.Behavior.OnTime
import Fireworks.Proofs.Behavior.Runs
import Fireworks.Proofs.Plain

/-! # How often a chain starts its children

A child begins a run when its window opens at zero. A chain begins its places one after another, each of
them once, and has begun all of them when it ends. A repetition therefore starts its body once for each
natural number below its limit: for a limit between two natural numbers that is once more than the limit
allows.
-/
namespace Fireworks
open Extended

def Call.starts (calls : List (Call Extended)) : ℕ :=
  (calls.flatMap within).countP fun child => child.2.start == 0

@[simp] theorem Call.starts_nil : starts [] = 0 := rfl

theorem Call.starts_cons (c : Call Extended) (calls : List (Call Extended)) :
    starts (c :: calls) = starts [c] + starts calls := by
  simp only [starts,List.flatMap_cons,List.flatMap_nil,List.append_nil,List.countP_append]

namespace Chain
variable {σ : Type} {more : ℕ → Bool} {call : ℕ → Extended → Extended → σ → Status Extended × σ}
  {term : ℚ}

/-- How many of `n` places have begun by some time. -/
def begun (n : ℕ) (offset : ℚ) (cursor : Option ℕ) (time : ℚ) : ℕ :=
  match cursor with
  | none => n
  | some i => if offset < time then i + 1 else i

theorem begun_le {n : ℕ} (hmore : ∀ i, more i = true ↔ i < n) {cursor : Option ℕ}
    (hcursor : ∀ i, cursor = some i → more i = true) (offset time : ℚ) :
    begun n offset cursor time ≤ n := by
  cases cursor with
  | none => exact le_rfl
  | some i =>
    have hi := (hmore i).mp (hcursor i rfl)
    simp only [begun]
    split_ifs <;> omega

theorem begun_following {n i : ℕ} (hmore : ∀ i, more i = true ↔ i < n) (hi : i ≤ n) (time : ℚ) :
    begun n time (following more i) time = i := by
  rcases hi.eq_or_lt with rfl | hlt
  · have hlast : more i = false := Bool.eq_false_iff.mpr fun h => lt_irrefl _ ((hmore i).mp h)
    simp [following,hlast,begun]
  · simp [following,(hmore i).mpr hlt,begun]

theorem first_add_begun (n : ℕ) {c : Chain ℚ σ} {i : ℕ} (hi : c.cursor = some i) (hle : c.offset ≤ c.now) :
    (if finite (c.now - c.offset) == 0 then 1 else 0) + begun n c.offset c.cursor c.now = i + 1 := by
  rw [hi]
  rcases hle.eq_or_lt with heq | hlt
  · simp [begun,heq,Nat.add_comm]
  · have hne : c.now - c.offset ≠ 0 := by linarith
    simp [begun,hlt,hne]

/-- The children that start in a course are those that have begun after it and had not begun before. -/
theorem Course.starts_add_begun {n : ℕ} (hmore : ∀ i, more i = true ↔ i < n) {limit : ℕ}
    {c c' : Chain ℚ σ} {vs : List (Visit Extended σ)} (h : Course more call term limit c vs c')
    (hspare : completions vs < limit) (hc : c.now ≤ term) (hle : c.offset ≤ c.now)
    (hcursor : ∀ i, c.cursor = some i → more i = true) :
    vs.countP (fun v => v.start == 0) + begun n c.offset c.cursor c.now =
      begun n c'.offset c'.cursor term ∧ c'.offset ≤ term := by
  induction h with
  | tired => exact absurd hspare (Nat.not_lt_zero _)
  | ended hnone =>
    rw [hnone]
    exact ⟨Nat.zero_add _,hle.trans hc⟩
  | full hfull =>
    rw [le_antisymm hfull hc]
    exact ⟨Nat.zero_add _,hle⟩
  | waits hi hlt =>
    have hfirst := first_add_begun n hi hle
    refine ⟨?_,hle.trans hc⟩
    rw [List.countP_singleton,hfirst,hi,begun,if_pos (hle.trans_lt hlt)]
  | @passes limit c i state q vs c' hi hlt hcall hq hqs _ ih =>
    have hspare' : completions vs < limit := by
      simpa [completions,Status.isDone] using hspare
    have hfirst := first_add_begun n hi hle
    have hnext := begun_following hmore (Nat.succ_le_of_lt ((hmore i).mp (hcursor i hi))) (term - q)
    obtain ⟨hrest,hle'⟩ := ih hspare' (by simpa using hq) le_rfl fun j hj => more_of_following hj
    refine ⟨?_,hle'⟩
    rw [hnext] at hrest
    rw [List.countP_cons,Nat.add_assoc,hfirst,hrest]

theorem cursor_of_isDone {lifespan : Extended} (hspan : lifespan = .infinite false) {c : Chain ℚ σ} {stop : ℚ}
    (hc : c.now ≤ stop) (hdone : (c.exact.status lifespan (finite stop)).isDone = true) : c.cursor = none := by
  have hlive : (stop : WithTop ℚ) < lifespan.toTop := by
    rw [hspan]
    exact WithTop.coe_lt_top stop
  by_contra hcursor
  have hrunning := (status_eq_running (hspan ▸ .endless) c hc).mpr ⟨hcursor,hlive⟩
  rw [hrunning] at hdone
  cases hdone

end Chain

section
variable [Elementary Extended] {setting : Setting Extended} {b : Behavior Extended}
  {p : Progress Extended} {calls : List (Call Extended)} {k : Links Extended}

theorem Behavior.starts_trace (h : b.links? = some k) (start stop : Extended) (scene : Scene Extended) :
    Call.starts [b.trace setting p start stop scene] =
      (k.visits setting p start stop scene).countP fun v => v.start == 0 := by
  have hstart : ∀ v, (visit setting k v).2.start = v.start := start_visit setting k
  rw [trace_links setting p start stop scene h,Call.starts,List.flatMap_singleton,Call.within,
    List.countP_map]
  simp only [Function.comp_def,hstart]

theorem Behavior.completions_lt (h : b.links? = some k) {start stop : Extended} {scene : Scene Extended}
    (hspare : (b.trace setting p start stop scene).Spare setting.config.chainLimit) :
    Chain.completions (k.visits setting p start stop scene) < setting.config.chainLimit := by
  rw [trace_links setting p start stop scene h] at hspare
  exact k.countP_visits setting p start stop scene ▸ hspare rfl

/-- In a run without an end of its own, a chain of `n` places starts at most the places that have not begun
before, and all of them if it ends. -/
theorem Run.starts_le (hb : b.Timed) (h : b.links? = some k) (hspan : k.lifespan = .infinite false) {n : ℕ}
    (hmore : ∀ i, k.more i = true ↔ i < n) {start offset : ℚ} {cursor : Option ℕ}
    {states : List (Progress Extended)} (hrun : Run setting b p start calls)
    (henter : ∀ scene, Chain.enter k.more p (finite start) scene =
      Chain.exact ⟨start,offset,cursor,states,scene⟩)
    (hs : AllSound k.parts states) (hcursor : ∀ i, cursor = some i → k.more i = true)
    (hstart : 0 ≤ start) (hle : offset ≤ start)
    (hspare : ∀ c ∈ calls, c.Spare setting.config.chainLimit) :
    Call.starts calls + Chain.begun n offset cursor start ≤ n ∧
      ((∃ c ∈ calls, c.status.isDone = true) →
        Call.starts calls + Chain.begun n offset cursor start = n) := by
  induction hrun generalizing offset cursor states with
  | nil =>
    refine ⟨?_,nofun⟩
    rw [Call.starts_nil,Nat.zero_add]
    exact Chain.begun_le hmore hcursor offset _
  | @cons p calls start stop scene hlt _ ih =>
    obtain ⟨hc,hcalls⟩ := List.forall_mem_cons.mp hspare
    obtain ⟨c',hcourse,hupdate,hs',hcursor'⟩ :=
      hb.exists_course setting h stop (henter scene) hs hcursor
    have hcut : k.lifespan.cut stop = stop := by rw [hspan]; rfl
    rw [hcut] at hcourse
    have hstop : 0 < stop := hstart.trans_lt hlt
    obtain ⟨hbegun,hle'⟩ :=
      hcourse.starts_add_begun hmore (Behavior.completions_lt h hc) hlt.le hle hcursor
    have hbegun : Call.starts [b.trace setting p (finite start) (finite stop) scene] +
        Chain.begun n offset cursor start = Chain.begun n c'.offset c'.cursor stop := by
      rwa [Behavior.starts_trace h]
    have hnow := hcourse.now_le_term hlt.le
    have hstatus : (b.trace setting p (finite start) (finite stop) scene).status.isDone = true →
        c'.cursor = none := by
      rw [Behavior.trace_status,hupdate]
      exact Chain.cursor_of_isDone hspan hnow
    rw [hupdate] at ih
    have henter' := Chain.enter_of_ne_zero k.more c'.offset c'.cursor c'.state.1 hstop.ne'
    obtain ⟨hbound,hdone⟩ := ih henter' hs' hcursor' hstop.le hle' hcalls
    rw [Call.starts_cons]
    refine ⟨by omega,?_⟩
    rintro ⟨c,hmem,hc⟩
    rcases List.mem_cons.mp hmem with rfl | hmem
    · have hall : Chain.begun n c'.offset c'.cursor stop = n := by rw [hstatus hc]; rfl
      omega
    · have hrest := hdone ⟨c,hmem,hc⟩
      omega

/-- A repetition without an end of its own starts its body at most once for each natural number below its
limit, and exactly as often if it ends. That is as often as a natural limit says. It is more often than a
positive limit between two natural numbers allows. -/
theorem Behavior.starts_repetition (setting : Setting Extended) {body : Behavior Extended} (hbody : body.Timed)
    {timing : Timing Extended} (hspan : timing.lifespan = .infinite false) (limit : Extended)
    {windows : List (ℚ × Scene Extended)} (hw : (0 :: windows.map Prod.fst).IsChain (· < ·))
    (hspare : ∀ c ∈ (repetition timing limit body).exactCalls setting windows,
      c.Spare setting.config.chainLimit) :
    let calls := (repetition timing limit body).exactCalls setting windows
    let starts := Call.starts calls
    let ended := ∃ c ∈ calls, c.status.isDone = true
    (∀ n, limit.rounds = some n → starts ≤ n ∧ (ended → starts = n)) ∧
      (∀ n : ℕ, limit = finite n → starts ≤ n ∧ (ended → starts = n)) ∧
      ∀ q : ℚ, limit = finite q → ended → ((starts : ℚ) ≤ max q 0 ↔ q ≤ 0 ∨ ∃ n : ℕ, q = n) := by
  intro calls starts ended
  have hb : (repetition timing limit body).Timed :=
    .intro (show timing.lifespan.IsSpan from hspan ▸ .endless) fun part hpart =>
      List.mem_singleton.mp hpart ▸ hbody
  have hrounds : ∀ n, limit.rounds = some n → starts ≤ n ∧ (ended → starts = n) := by
    intro n hn
    have hmore : ∀ i, (Links.repetition timing limit body).more i = true ↔ i < n :=
      Links.more_iff_of_rounds hn
    have hrun : Run setting (repetition timing limit body) .fresh 0 calls := run_exactCalls hw
    have hfresh := Sound.fresh (repetition timing limit body)
    have hstarts := hrun.starts_le hb rfl hspan hmore (hfresh.enter_zero rfl) (.nil _)
      (fun i hi => Chain.more_of_following hi) le_rfl le_rfl hspare
    rwa [Chain.begun_following hmore (Nat.zero_le n)] at hstarts
  refine ⟨hrounds,fun n hn => hrounds n (by rw [hn,Extended.rounds,Nat.ceil_natCast]),?_⟩
  intro q hq hended
  have hstarts : starts = ⌈q⌉₊ := (hrounds _ (by rw [hq,Extended.rounds])).2 hended
  rw [hstarts]
  constructor
  · intro hle
    rcases le_or_gt q 0 with hneg | hpos
    · exact .inl hneg
    · rw [max_eq_left hpos.le] at hle
      exact .inr ⟨_,le_antisymm (Nat.le_ceil q) hle⟩
  · rintro (hneg | ⟨n,rfl⟩)
    · rw [Nat.ceil_eq_zero.mpr hneg]
      exact le_max_right _ _
    · rw [Nat.ceil_natCast]
      exact le_max_left _ _

end

namespace Plain

/-- A body of duration one, repeated up to a limit between two natural numbers. -/
def halves : Behavior Extended := .repeatUpTo (finite (5 / 2)) (.leaf { lifespan := 1 } (.add .hue 1))

def halvesCalls : List (Call Extended) := halves.exactCalls (setting 5) [(1/2,scene),(5,scene)]

theorem halves_ends : ∃ c ∈ halvesCalls, c.status.isDone = true := by decide +kernel

theorem halves_spare : ∀ c ∈ halvesCalls, c.Spare (setting 5).config.chainLimit := by decide +kernel

theorem starts_halves_le :
    (Behavior.leaf { lifespan := 1 } (.add .hue 1) : Behavior Extended).Timed ∧
      halves.timing.lifespan = .infinite false ∧
      (0 :: [(1/2,scene),(5,scene)].map Prod.fst : List ℚ).IsChain (· < ·) ∧
      (∀ c ∈ halvesCalls, c.Spare (setting 5).config.chainLimit) ∧
      Call.starts halvesCalls ≤ 3 ∧
      ((∃ c ∈ halvesCalls, c.status.isDone = true) → Call.starts halvesCalls = 3) :=
  ⟨by decide,rfl,by decide +kernel,halves_spare,
    (Behavior.starts_repetition (setting 5) (by decide) rfl (finite (5 / 2)) (by decide +kernel)
      halves_spare).1 3 (by decide +kernel)⟩

/-- The body has started more often than the limit allows when the repetition ends. -/
theorem limit_lt_starts_halves : (∃ c ∈ halvesCalls, c.status.isDone = true) ∧
    max (5 / 2) 0 < (Call.starts halvesCalls : ℚ) := by
  have hstarts : Call.starts halvesCalls = 3 := by decide +kernel
  refine ⟨halves_ends,?_⟩
  rw [hstarts]
  norm_num

end Plain
end Fireworks
