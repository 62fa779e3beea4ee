import Fireworks.Proofs.Behavior.Duration

/-! # Runs that are on time

A call takes a run that is on time to the end of its window, or ends it exactly when its duration is
over. This holds as long as no chain uses up its limit of completions.
-/
namespace Fireworks
open Extended

/-- A chain that completes fewer children in a call than it may. -/
def Call.Spare {ν : Type} (limit : ℕ) (c : Call ν) : Prop := c.serial = true → c.completed < limit

instance {ν : Type} (limit : ℕ) (c : Call ν) : Decidable (c.Spare limit) :=
  inferInstanceAs (Decidable (c.serial = true → c.completed < limit))

/-- A run of a behavior has come to time `t`, is not over, and has left this progress. -/
inductive OnTime : Behavior Extended → Progress Extended → ℚ → Prop
  | leaf {timing effect} {t : ℚ} (p) : (t : WithTop ℚ) ≤ (Behavior.leaf timing effect).duration →
      OnTime (.leaf timing effect) p t
  | chain {b k i states} {offset t : ℚ} : b.links? = some k → (t : WithTop ℚ) < k.lifespan.toTop →
      k.more i = true → (∀ j < i, k.more j = true) → k.begins i = (offset : WithTop ℚ) → offset ≤ t →
      (∀ part, k.parts[k.slot i]? = some part → offset < t →
        OnTime part (Progress.part states (k.slot i)) (t - offset)) →
      OnTime b (.chain (finite offset) (some i) states) t
  | lanes {timing lanes ended states} {t : ℚ} :
      (t : WithTop ℚ) ≤ (Behavior.parallel timing lanes).duration →
      (∀ (i : ℕ) (lane : Behavior Extended), lanes[i]? = some lane → isOver ended i = true →
        lane.duration ≤ t) →
      (∀ (i : ℕ) lane, lanes[i]? = some lane → isOver ended i = false →
        OnTime lane (Progress.part states i) t) →
      OnTime (.parallel timing lanes) (.lanes ended states) t

/-- A chain that has come to time `t` stands with a place that is its turn. -/
structure Stands (k : Links Extended) (i : ℕ) (offset : ℚ) (states : List (Progress Extended))
    (t : ℚ) : Prop where
  more : k.more i = true
  before : ∀ j < i, k.more j = true
  begins : k.begins i = offset
  le : offset ≤ t
  part : ∀ part, k.parts[k.slot i]? = some part → offset < t →
    OnTime part (Progress.part states (k.slot i)) (t - offset)

theorem Stands.onTime {b : Behavior Extended} {k : Links Extended} (h : b.links? = some k) {i : ℕ}
    {offset t : ℚ} {states : List (Progress Extended)} (hs : Stands k i offset states t)
    (ht : t < k.lifespan.toTop) : OnTime b (.chain (finite offset) (some i) states) t :=
  .chain h ht hs.more hs.before hs.begins hs.le hs.part

theorem Stands.first {k : Links Extended} (h : k.more 0 = true) (states : List (Progress Extended)) :
    Stands k 0 0 states 0 :=
  ⟨h,fun j hj => absurd hj (Nat.not_lt_zero j),rfl,le_rfl,fun _ _ hlt => absurd hlt (lt_irrefl 0)⟩

/-- As long as the part at hand is on time, its place is not over. -/
theorem le_begins_succ {b : Behavior Extended} {k : Links Extended} (h : b.links? = some k) {i : ℕ}
    (hi : k.more i = true) {offset t : ℚ} (hbegins : k.begins i = offset) (hle : offset ≤ t)
    (hpart : ∀ part, k.parts[k.slot i]? = some part → offset < t →
      ((t - offset : ℚ) : WithTop ℚ) ≤ part.duration) :
    (t : WithTop ℚ) ≤ k.begins (i + 1) := by
  rcases hle.eq_or_lt with rfl | hlt
  · exact hbegins ▸ Links.begins_mono (Nat.le_succ i)
  · obtain ⟨part,hp⟩ := Behavior.exists_part h hi
    have hsum : (t : WithTop ℚ) = offset + ((t - offset : ℚ) : WithTop ℚ) := by
      rw [← WithTop.coe_add,add_sub_cancel]
    rw [Links.begins,hbegins,Links.lasts_of_getElem? hp,hsum]
    exact add_le_add_right (hpart part hp hlt) _

/-- A run that is on time has not lasted longer than it should. -/
theorem OnTime.le {b : Behavior Extended} {p : Progress Extended} {t : ℚ} (h : OnTime b p t) :
    (t : WithTop ℚ) ≤ b.duration := by
  induction h with
  | leaf _ hle => exact hle
  | chain h hlt hi _ hbegins hle _ ih =>
    obtain ⟨total,htotal,hduration⟩ := Links.exists_total h
    rw [hduration]
    exact le_min (hlt.le.trans (le_max_left _ _))
      ((le_begins_succ h hi hbegins hle ih).trans (htotal.begins_le hi))
  | lanes hle => exact hle

theorem Stands.le_begins {b : Behavior Extended} {k : Links Extended} (h : b.links? = some k)
    {i : ℕ} {offset t : ℚ} {states : List (Progress Extended)} (hs : Stands k i offset states t) :
    (t : WithTop ℚ) ≤ k.begins (i + 1) :=
  le_begins_succ h hs.more hs.begins hs.le fun part hp hlt => (hs.part part hp hlt).le

variable [Elementary Extended] (setting : Setting Extended)

/-- From a run that is on time, a call that stays below the limit everywhere leaves a run that is on
time, or ends it when its duration is over. -/
def Settles (b : Behavior Extended) : Prop :=
  ∀ p, Sound b p → ∀ start stop : ℚ, start < stop → start = 0 ∨ 0 < start ∧ OnTime b p start →
    ∀ scene, (b.trace setting p (finite start) (finite stop) scene).Throughout
        (Call.Spare setting.config.chainLimit) →
      ((b.update setting p (finite start) (finite stop) scene).status = .running →
        OnTime b (b.update setting p (finite start) (finite stop) scene).progress stop) ∧
      ∀ l, (b.update setting p (finite start) (finite stop) scene).status = .done l →
        ∃ e : ℚ, b.duration = e ∧ l = finite (stop - e)

variable {setting}

variable (setting) in
theorem Links.countP_visits (k : Links Extended) (p : Progress Extended) (start stop : Extended)
    (scene : Scene Extended) :
    ((k.visits setting p start stop scene).map (Behavior.visit setting k)).countP
        (fun child => child.2.status.isDone) =
      Chain.completions (k.visits setting p start stop scene) := by
  rw [List.countP_map]
  refine List.countP_congr fun v hv => ?_
  have hstatus : (Behavior.visit setting k v).2.status = v.status :=
    (Behavior.status_traceNth ..).trans (Chain.status_of_mem_visits _ _ _ hv).symm
  rw [Function.comp_apply,hstatus]

theorem Behavior.throughout_spare_iff {b : Behavior Extended} {k : Links Extended}
    (h : b.links? = some k) {p : Progress Extended} {start stop : Extended} {scene : Scene Extended} :
    (b.trace setting p start stop scene).Throughout (Call.Spare setting.config.chainLimit) ↔
      Chain.completions (k.visits setting p start stop scene) < setting.config.chainLimit ∧
        ∀ v ∈ k.visits setting p start stop scene, (Behavior.visit setting k v).2.Throughout
          (Call.Spare setting.config.chainLimit) := by
  have hcount := k.countP_visits setting p start stop scene
  rw [trace_links setting p start stop scene h]
  constructor
  · exact fun ht => ⟨hcount ▸ ht.here rfl,fun v hv => ht.child (List.mem_map_of_mem hv)⟩
  · exact fun ht => .intro (fun _ => hcount.trans_lt ht.1) (List.forall_mem_map.mpr ht.2)

theorem Settles.leaf {timing : Timing Extended} {effect : Effect Extended}
    (hspan : timing.lifespan.IsSpan) : Settles setting (.leaf timing effect) := by
  intro p _ start stop hlt hstart scene _
  have hle : 0 ≤ start ∧ (start : WithTop ℚ) ≤ max timing.lifespan.toTop 0 := by
    rcases hstart with rfl | ⟨hpos,ht⟩
    · exact ⟨le_rfl,le_max_right _ _⟩
    · exact ⟨hpos.le,ht.le⟩
  change (Status.settle timing.lifespan (finite start) (finite stop) = .running → _) ∧
    ∀ l, Status.settle timing.lifespan (finite start) (finite stop) = .done l → _
  rcases Status.settle_cases hspan hlt.le with ⟨hstop,hstatus⟩ | ⟨q,hq,hle',hstatus⟩
  · rw [hstatus]
    exact ⟨fun _ => .leaf _ (hstop.le.trans (le_max_left _ _)),nofun⟩
  · rw [hstatus]
    have hmax : max q start = max q 0 := by
      have hstart' : (start : WithTop ℚ) ≤ (max q 0 : ℚ) := by
        rw [WithTop.coe_max]
        simpa [hq] using hle.2
      exact le_antisymm (max_le (le_max_left _ _) (WithTop.coe_le_coe.mp hstart'))
        (max_le_max le_rfl hle.1)
    refine ⟨nofun,fun l hl => ⟨max q 0,?_,?_⟩⟩
    · rw [Behavior.duration,hq]
      rfl
    · rw [← hmax,Status.done.inj hl]

/-- A chain calls the place that is its turn: either it comes to its turn at the end of the window,
or the place has lasted exactly until it ended. -/
theorem Stands.call {b : Behavior Extended} {k : Links Extended} (h : b.links? = some k)
    (hparts : ∀ part ∈ k.parts, Settles setting part) {i : ℕ} {offset now term : ℚ}
    {state after : List (Progress Extended) × Scene Extended} {status : Status Extended}
    (hst : Stands k i offset state.1 now) (hlt : now < term) (hs : AllSound k.parts state.1)
    (hcall : k.call setting i (finite (now - offset)) (finite (term - offset)) state =
      (status,after))
    (hspare : (Behavior.visit setting k ⟨i,finite (now - offset),finite (term - offset),status,
      state⟩).2.Throughout (Call.Spare setting.config.chainLimit)) :
    (status = .running → Stands k i offset after.1 term) ∧
      ∀ q : ℚ, status = .done (finite q) → k.begins (i + 1) = ((term - q : ℚ) : WithTop ℚ) := by
  obtain ⟨part,hpart⟩ := Behavior.exists_part h hst.more
  rw [Behavior.visit_of_getElem? setting hpart] at hspare
  have hturn : now - offset = 0 ∨
      0 < now - offset ∧ OnTime part (Progress.part state.1 (k.slot i)) (now - offset) := by
    rcases hst.le.eq_or_lt with rfl | hpos
    · exact Or.inl (sub_self _)
    · exact Or.inr ⟨sub_pos.mpr hpos,hst.part part hpart hpos⟩
  obtain ⟨hrun,hdone⟩ := hparts part (List.mem_of_getElem? hpart) _ (hs _ _ hpart) _ _
    (sub_lt_sub_right hlt offset) hturn state.2 hspare
  rw [Behavior.call_of_getElem? setting hpart] at hcall
  obtain ⟨rfl,rfl⟩ := Prod.mk.inj hcall
  refine ⟨fun hstatus => ⟨hst.more,hst.before,hst.begins,hst.le.trans hlt.le,?_⟩,fun q hq => ?_⟩
  · intro other hother _
    obtain rfl := Option.some.inj (hpart.symm.trans hother)
    rw [Progress.part_put,if_pos rfl]
    exact hrun hstatus
  · obtain ⟨e,he,hqe⟩ := hdone _ hq
    obtain rfl := Extended.finite.inj hqe
    rw [Links.begins,hst.begins,Links.lasts_of_getElem? hpart,he,← WithTop.coe_add]
    congr 1
    ring

/-- From its turn in one place a chain comes to its turn at the end of the window, or all its places
have lasted before. -/
theorem Stands.course {b : Behavior Extended} (hb : b.Timed) {k : Links Extended}
    (h : b.links? = some k) {total : WithTop ℚ} (htotal : k.Total total)
    (hparts : ∀ part ∈ k.parts, Settles setting part) {term : ℚ} {n : ℕ}
    {c c' : Chain ℚ (List (Progress Extended) × Scene Extended)}
    {vs : List (Chain.Visit Extended (List (Progress Extended) × Scene Extended))}
    (hcourse : Chain.Course k.more (k.call setting) term n c vs c') (hc : c.now ≤ term)
    (hs : AllSound k.parts c.state.1)
    (hspare : ∀ v ∈ vs, (Behavior.visit setting k v).2.Throughout
      (Call.Spare setting.config.chainLimit))
    (hcount : Chain.completions vs < n)
    (hnone : c.cursor = none → total = c.now)
    (hsome : ∀ i, c.cursor = some i → Stands k i c.offset c.state.1 c.now) :
    (c'.cursor = none → total = c'.now) ∧
      ∀ i, c'.cursor = some i → Stands k i c'.offset c'.state.1 term := by
  induction hcourse with
  | tired => exact absurd hcount (Nat.not_lt_zero _)
  | ended hcursor => exact ⟨hnone,fun i hi => by rw [hcursor] at hi; cases hi⟩
  | full hfull => exact ⟨hnone,fun i hi => le_antisymm hc hfull ▸ hsome i hi⟩
  | waits hcursor hlt hcall =>
    refine ⟨fun hi => ?_,fun i hi => ?_⟩
    · rw [show _ = none from hi] at hcursor
      cases hcursor
    · obtain rfl := Option.some.inj (hcursor.symm.trans hi)
      exact ((hsome _ hcursor).call h hparts hlt hs hcall (hspare _ (by simp))).1 rfl
  | @passes n c i state q vs c' hcursor hlt hcall hq hqs _ ih =>
    have hst := hsome i hcursor
    obtain ⟨-,hdone⟩ := hst.call h hparts hlt hs hcall (hspare _ List.mem_cons_self)
    have hbegins := hdone q rfl
    have hbefore : ∀ j < i + 1, k.more j = true := fun j hj =>
      (Nat.lt_succ_iff_lt_or_eq.mp hj).elim (hst.before j) fun heq => heq ▸ hst.more
    have hs' : AllSound k.parts state.1 :=
      hs.of_call h (hb.parts_punctual h) hst.more (sub_lt_sub_right hlt c.offset) hcall
    refine ih (by simpa using hq) hs' (fun v hv => hspare v (List.mem_cons_of_mem _ hv)) ?_ ?_ ?_
    · simpa [Chain.completions,Status.isDone] using hcount
    · exact fun hnext =>
        (htotal.begins_eq (Chain.following_eq_none hnext) hbefore).symm.trans hbegins
    · intro j hj
      obtain ⟨rfl,hmore⟩ := Chain.following_eq_some hj
      exact ⟨hmore,hbefore,hbegins,le_rfl,fun _ _ hlt => absurd hlt (lt_irrefl _)⟩

omit [Elementary Extended] in
theorem exists_turn {b : Behavior Extended} {k : Links Extended} (h : b.links? = some k)
    {total : WithTop ℚ} (htotal : k.Total total) {p : Progress Extended} (hp : Sound b p) {start : ℚ}
    (hstart : start = 0 ∨ 0 < start ∧ OnTime b p start) (scene : Scene Extended) :
    ∃ c : Chain ℚ (List (Progress Extended) × Scene Extended),
      Chain.enter k.more p (finite start) scene = c.exact ∧ c.now = start ∧
        AllSound k.parts c.state.1 ∧ (c.cursor = none → total = c.now) ∧
        (∀ i, c.cursor = some i → Stands k i c.offset c.state.1 c.now) ∧
        (start = 0 ∨ start < k.lifespan.toTop) := by
  rcases hstart with rfl | ⟨hpos,ht⟩
  · refine ⟨_,hp.enter_zero h scene,rfl,hp.allSound_links h,fun hnone => ?_,fun i hi => ?_,Or.inl rfl⟩
    · exact (htotal.begins_eq (Chain.following_eq_none hnone)
        fun j hj => absurd hj (Nat.not_lt_zero j)).symm
    · obtain ⟨rfl,hmore⟩ := Chain.following_eq_some hi
      exact .first hmore _
  · have hs := hp.allSound_links h
    cases ht with
    | leaf | lanes => cases h
    | chain hk hlt hmore hbefore hbegins hle hpart =>
      obtain rfl := Option.some.inj (h.symm.trans hk)
      refine ⟨_,Chain.enter_of_ne_zero _ _ _ _ hpos.ne' scene,rfl,hs,nofun,fun i hi => ?_,Or.inr hlt⟩
      obtain rfl := Option.some.inj hi
      exact ⟨hmore,hbefore,hbegins,hle,hpart⟩

theorem Settles.chain {b : Behavior Extended} (hb : b.Timed) {k : Links Extended}
    (h : b.links? = some k) (hparts : ∀ part ∈ k.parts, Settles setting part) :
    Settles setting b := by
  intro p hp start stop hlt hstart scene hspare
  obtain ⟨total,htotal,hduration⟩ := Links.exists_total h
  have hspan : k.lifespan.IsSpan := Behavior.lifespan_links h ▸ hb.span
  obtain ⟨c,henter,rfl,hs,hnone,hsome,hlive⟩ := exists_turn h htotal hp hstart scene
  obtain ⟨c',hcourse,hupdate,-,-⟩ :=
    hb.exists_course setting h stop henter hs fun i hi => (hsome i hi).more
  obtain ⟨hcount,hvisits⟩ := (Behavior.throughout_spare_iff h).mp hspare
  rw [hupdate,hduration]
  -- A chain that has a window before it follows its course; one whose lifespan is over from the
  -- beginning does nothing.
  rcases lt_or_ge (c.now : WithTop ℚ) k.lifespan.toTop with hlive | hover
  · have hterm : c.now ≤ k.lifespan.cut stop := (lt_cut.mpr ⟨hlive,hlt⟩).le
    have hnow := hcourse.now_le_term hterm
    obtain ⟨hnone',hsome'⟩ :=
      Stands.course hb h htotal hparts hcourse hterm hs hvisits hcount hnone hsome
    cases hcursor : c'.cursor with
    | none =>
      rw [Chain.status_of_none _ hcursor (hnow.trans (cut_le _ _)),hnone' hcursor]
      refine ⟨nofun,fun l hl => ⟨c'.now,min_eq_right ?_,(Status.done.inj hl).symm⟩⟩
      exact ((WithTop.coe_le_coe.mpr hnow).trans (cut_le_toTop _ _)).trans (le_max_left _ _)
    | some i =>
      have hst := hsome' i hcursor
      rw [Chain.status_of_some hcursor]
      rcases Status.settle_cases hspan (hnow.trans (cut_le _ _)) with
        ⟨hstop,hstatus⟩ | ⟨q,hq,hle,hstatus⟩
      · rw [hstatus]
        exact ⟨fun _ => (cut_of_lt hstop ▸ hst).onTime h hstop,nofun⟩
      · have hcut : k.lifespan.cut stop = q := by rw [hq]; exact min_eq_left hle
        rw [hcut] at hst hnow
        rw [hstatus,max_eq_left hnow]
        have hpos : (0 : WithTop ℚ) ≤ q := by
          refine WithTop.coe_le_coe.mpr (le_trans ?_ ((hcourse.now_le).trans hnow))
          exact hstart.elim (fun h0 => h0.ge) fun hlt => hlt.1.le
        have htotal' := (hst.le_begins h).trans (htotal.begins_le hst.more)
        refine ⟨nofun,fun l hl => ⟨q,?_,(Status.done.inj hl).symm⟩⟩
        rw [hq,toTop_finite,max_eq_left hpos,min_eq_left htotal']
  · have hzero : c.now = 0 := hlive.resolve_right (not_lt.mpr hover)
    have hmax : max k.lifespan.toTop 0 = 0 := max_eq_right (by simpa [hzero] using hover)
    obtain ⟨-,rfl⟩ := hcourse.eq_of_le
      (not_lt.mp fun hcut => absurd (lt_cut.mp hcut).1 (not_lt.mpr hover))
    rw [hmax,min_eq_left htotal.nonneg]
    cases hcursor : c'.cursor with
    | none =>
      rw [Chain.status_of_none _ hcursor hlt.le,hzero]
      exact ⟨nofun,fun l hl => ⟨0,rfl,(Status.done.inj hl).symm⟩⟩
    | some i =>
      rw [Chain.status_of_some hcursor]
      rcases Status.settle_cases hspan hlt.le with ⟨hstop,-⟩ | ⟨q,hq,-,hstatus⟩
      · exact absurd (hstop.trans_le hover) (not_lt.mpr (WithTop.coe_le_coe.mpr hlt.le))
      · rw [hq,hzero] at hover
        rw [hstatus,hzero,max_eq_right (WithTop.coe_le_coe.mp hover)]
        exact ⟨nofun,fun l hl => ⟨0,rfl,(Status.done.inj hl).symm⟩⟩

omit [Elementary Extended] in
theorem lanes_turn {timing : Timing Extended} {lanes : List (Behavior Extended)}
    {p : Progress Extended} {start : ℚ}
    (hstart : start = 0 ∨ 0 < start ∧ OnTime (.parallel timing lanes) p start) :
    (start : WithTop ℚ) ≤ (Behavior.parallel timing lanes).duration ∧
      ∀ (i : ℕ) (lane : Behavior Extended), lanes[i]? = some lane →
        (isOver (p.endedLanes (finite start)).1 i = true → lane.duration ≤ start) ∧
        (isOver (p.endedLanes (finite start)).1 i = false → start = 0 ∨
          0 < start ∧ OnTime lane (Progress.part (p.endedLanes (finite start)).2 i) start) := by
  rcases hstart with rfl | ⟨hpos,ht⟩
  · have hnil : (p.endedLanes (finite 0)).1 = [] := by
      cases p <;> simp [Progress.endedLanes]
    refine ⟨Behavior.duration_nonneg _,fun i lane _ => ⟨fun ho => ?_,fun _ => Or.inl rfl⟩⟩
    rw [hnil] at ho
    cases ho
  · cases ht with
    | chain h => cases h
    | lanes hle hended hgoes =>
      rw [Behavior.endedLanes_of_ne_zero hpos.ne']
      exact ⟨hle,fun i lane hi => ⟨hended i lane hi,fun ho => Or.inr ⟨hpos,hgoes i lane hi ho⟩⟩⟩

section
variable {timing : Timing Extended} {lanes : List (Behavior Extended)} {ended : List Bool}
  {states : List (Progress Extended)} {start stop : ℚ} {o : ℕ → Behavior Extended → Outcome Extended}
  (hover : ∀ (i : ℕ) (lane : Behavior Extended), lanes[i]? = some lane → isOver ended i = true →
    lane.duration ≤ start)
  (hdone : ∀ (i : ℕ) lane, lanes[i]? = some lane → isOver ended i = false → ∀ l,
    (o i lane).status = .done l →
      ∃ e : ℚ, lane.duration = e ∧ e ≤ stop ∧ l = finite (stop - e))
include hover hdone

omit [Elementary Extended] in
/-- Once the last of its lanes has ended, a parallel behavior has lasted until the last of all
ends. -/
theorem duration_eq_of_done (hstart : 0 ≤ start)
    (hle : (start : WithTop ℚ) ≤ (Behavior.parallel timing lanes).duration)
    (hall : ∀ (i : ℕ) lane, lanes[i]? = some lane → isOver ended i = false →
      (o i lane).status.isDone = true) {u : WithTop ℚ}
    (hu : ∀ x, u ≤ x ↔ max timing.lifespan.toTop start ≤ x ∧ ∀ i lane, lanes[i]? = some lane →
      isOver ended i = false → ∀ q, (o i lane).status = .done (finite q) →
        ((stop - q : ℚ) : WithTop ℚ) ≤ x) :
    (Behavior.parallel timing lanes).duration = u := by
  have hstart' : (0 : WithTop ℚ) ≤ start := WithTop.coe_le_coe.mpr hstart
  refine eq_of_forall_ge_iff fun x => ?_
  rw [hu]
  constructor
  · intro hx
    have hlanes := hx
    rw [Behavior.duration,max_le_iff,max_le_iff,Behavior.longest_le_iff] at hlanes
    refine ⟨max_le hlanes.1.1 (hle.trans hx),fun i lane hi ho q hq => ?_⟩
    obtain ⟨e,he,-,hqe⟩ := hdone i lane hi ho _ hq
    obtain rfl := Extended.finite.inj hqe
    rw [sub_sub_cancel,← he]
    exact hlanes.2.2 i lane hi
  · rintro ⟨hx,hlanes⟩
    have hx := max_le_iff.mp hx
    have h0 := hstart'.trans hx.2
    rw [Behavior.duration,max_le_iff,max_le_iff,Behavior.longest_le_iff]
    refine ⟨⟨hx.1,h0⟩,h0,fun i lane hi => ?_⟩
    cases ho : isOver ended i with
    | true => exact (hover i lane hi ho).trans hx.2
    | false =>
      cases hs : (o i lane).status with
      | running => exact absurd (hall i lane hi ho) (by rw [hs]; exact Bool.false_ne_true)
      | done l =>
        obtain ⟨e,he,-,rfl⟩ := hdone i lane hi ho l hs
        rw [he,← sub_sub_cancel stop e]
        exact hlanes i lane hi ho _ hs

omit [Elementary Extended] in
theorem OnTime.of_lanes (hlt : start ≤ stop)
    (hle : (stop : WithTop ℚ) ≤ (Behavior.parallel timing lanes).duration)
    (hrun : ∀ (i : ℕ) lane, lanes[i]? = some lane → isOver ended i = false →
      (o i lane).status = .running → OnTime lane (o i lane).progress stop)
    {ended' : List Bool} {states' : List (Progress Extended)}
    (hended : ∀ (i : ℕ) lane, lanes[i]? = some lane →
      isOver ended' i = (isOver ended i || (o i lane).status.isDone))
    (hstates : ∀ (i : ℕ) lane, lanes[i]? = some lane → Progress.part states' i =
      if isOver ended i then Progress.part states i else (o i lane).progress) :
    OnTime (.parallel timing lanes) (.lanes ended' states') stop := by
  refine .lanes hle (fun i lane hi ho => ?_) fun i lane hi ho => ?_
  · cases he : isOver ended i with
    | true => exact (hover i lane hi he).trans (WithTop.coe_le_coe.mpr hlt)
    | false =>
      rw [hended i lane hi,he,Bool.false_or] at ho
      cases hs : (o i lane).status with
      | running => rw [hs] at ho; cases ho
      | done l =>
        obtain ⟨e,hd,hle,-⟩ := hdone i lane hi he l hs
        exact hd ▸ WithTop.coe_le_coe.mpr hle
  · rw [hended i lane hi,Bool.or_eq_false_iff,Status.isDone_eq_false] at ho
    rw [hstates i lane hi,ho.1,if_neg Bool.false_ne_true]
    exact hrun i lane hi ho.1 ho.2

end

theorem Settles.parallel {timing : Timing Extended} {lanes : List (Behavior Extended)}
    (hb : (Behavior.parallel timing lanes).Timed)
    (hlanes : ∀ lane ∈ lanes, Settles setting lane) : Settles setting (.parallel timing lanes) := by
  intro p hp start stop hlt hstart scene hspare
  have hs : AllSound lanes (p.endedLanes (finite start)).2 := hp.endedLanes _ ▸ hp.allSound
  obtain ⟨hle,hturn⟩ := lanes_turn hstart
  have hstart0 : 0 ≤ start := hstart.elim (fun h0 => h0.ge) fun hpos => hpos.1.le
  have hwithin : ∀ child ∈ Behavior.traceLanes setting lanes 0 (p.endedLanes (finite start)).1
      (p.endedLanes (finite start)).2 (finite start) (finite stop) scene,
      child.2.Throughout (Call.Spare setting.config.chainLimit) := fun child hc => hspare.child hc
  have hspan : timing.lifespan.IsSpan := hb.span
  simp only [Behavior.update,hspan.sub_max]
  generalize (p.endedLanes (finite start)).1 = ended at hturn hwithin ⊢
  generalize (p.endedLanes (finite start)).2 = states at hs hturn hwithin ⊢
  have htimely : ∀ i lane, lanes[i]? = some lane → isOver ended i = false →
      (Behavior.laneOutcome setting lanes ended states (finite start) (finite stop) scene i
        lane).status.Timely (stop - start) := fun i lane hi _ =>
    ((hb.part (List.mem_of_getElem? hi)).punctual _ (hs i lane hi) start stop hlt _).1
  have hlane := fun i lane (hi : lanes[i]? = some lane) (ho : isOver ended i = false) =>
    hlanes lane (List.mem_of_getElem? hi) _ (hs i lane hi) start stop hlt ((hturn i lane hi).2 ho) _
      (hwithin _ ((Behavior.mem_traceLanes setting lanes ended states (finite start) (finite stop)
        scene 0 _).mpr ⟨i,lane,hi,ho,rfl⟩))
  have hdone : ∀ (i : ℕ) lane, lanes[i]? = some lane → isOver ended i = false → ∀ l,
      (Behavior.laneOutcome setting lanes ended states (finite start) (finite stop) scene i
        lane).status = .done l → ∃ e : ℚ, lane.duration = e ∧ e ≤ stop ∧ l = finite (stop - e) := by
    intro i lane hi ho l hl
    obtain ⟨e,he,rfl⟩ := (hlane i lane hi ho).2 l hl
    obtain ⟨q,hq,hq0,-⟩ := hl ▸ htimely i lane hi ho
    obtain rfl := Extended.finite.inj hq
    exact ⟨e,he,by linarith,rfl⟩
  have hover := fun i lane hi => (hturn i lane hi).1
  obtain ⟨u,hleft,hu⟩ := Behavior.exists_updateLanes_leftover setting start stop htimely
    (max timing.lifespan.toTop start)
  rw [hleft]
  have hontime := fun (hle' : (stop : WithTop ℚ) ≤ (Behavior.parallel timing lanes).duration) =>
    OnTime.of_lanes hover hdone hlt.le hle' (fun i lane hi ho => (hlane i lane hi ho).1)
      (fun i lane hi => Behavior.updateLanes_ended setting lanes ended states (finite start)
        (finite stop) (left stop (max timing.lifespan.toTop start)) scene i hi)
      (fun i lane hi => Behavior.updateLanes_children setting lanes ended states (finite start)
        (finite stop) (left stop (max timing.lifespan.toTop start)) scene i hi)
  cases hrunning : (Behavior.updateLanes setting lanes ended states (finite start) (finite stop)
    (left stop (max timing.lifespan.toTop start)) scene).running with
  | true =>
    refine ⟨fun _ => hontime ?_,fun l hl => by cases hl⟩
    obtain ⟨i,lane,hi,ho,hgoes⟩ : ∃ i lane, lanes[i]? = some lane ∧ isOver ended i = false ∧
        (Behavior.laneOutcome setting lanes ended states (finite start) (finite stop) scene i
          lane).status = .running := by
      by_contra hnone
      refine Bool.false_ne_true (((Behavior.updateLanes_running ..).mpr ?_).symm.trans hrunning)
      intro i lane hi ho
      by_contra hgoes
      exact hnone ⟨i,lane,hi,ho,Status.isDone_eq_false.mp (Bool.eq_false_iff.mpr hgoes)⟩
    exact ((hlane i lane hi ho).1 hgoes).le.trans (Behavior.duration_le_parallel hi)
  | false =>
    have hduration := duration_eq_of_done hover hdone hstart0 hle
      ((Behavior.updateLanes_running ..).mp hrunning) hu
    rcases le_or_gt u stop with hstop | hstop
    · lift u to ℚ using (hstop.trans_lt (WithTop.coe_lt_top _)).ne
      rw [if_neg Bool.false_ne_true,Status.ofLeftover_of_le (WithTop.coe_le_coe.mp hstop)]
      exact ⟨fun h => (by cases h),fun l hl => ⟨u,hduration,(Status.done.inj hl).symm⟩⟩
    · rw [if_neg Bool.false_ne_true,Status.ofLeftover_of_lt hstop]
      exact ⟨fun _ => hontime (hduration ▸ hstop.le),fun l hl => by cases hl⟩

theorem Behavior.Timed.settles {b : Behavior Extended} (hb : b.Timed) : Settles setting b := by
  induction b using Behavior.induct with
  | leaf timing effect => exact .leaf hb.span
  | chain b k h ih =>
    exact .chain hb h fun part hpart => ih part hpart (hb.part (parts_links h ▸ hpart))
  | parallel timing lanes ih => exact .parallel hb fun lane hlane => ih lane hlane (hb.part hlane)

end Fireworks
