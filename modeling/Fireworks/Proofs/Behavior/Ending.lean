import Fireworks.Proofs.Behavior.Duration

/-! # Behaviors that cannot go on for ever

Windows of one length follow on from any time and any progress, and each finds another scene. If the
duration of a behavior is finite, it ends after finitely many of them: a chain comes from each child
to the next, however late it begins them, and a parallel behavior waits for no lane for ever.
-/
namespace Fireworks
open Extended

section
variable [Elementary Extended] (setting : Setting Extended) (dt : ℚ) (b : Behavior Extended)

/-- Progress at a time from which windows of one length lead to an end, whatever scenes they find. -/
inductive Ends : Progress Extended → ℚ → Prop
  | intro {progress start} : (∀ scene,
      (b.update setting progress (finite start) (finite (start + dt)) scene).status = .running →
      Ends (b.update setting progress (finite start) (finite (start + dt)) scene).progress
        (start + dt)) → Ends progress start

end

namespace Ends
variable [Elementary Extended] {setting : Setting Extended} {dt : ℚ} {b : Behavior Extended}
  {progress : Progress Extended} {start : ℚ}

/-- What goes on only before a deadline ends. -/
theorem of_deadline (hdt : 0 < dt) {I : Progress Extended → ℚ → Prop} (deadline : ℚ)
    (hI : ∀ {progress start} scene, I progress start →
      (b.update setting progress (finite start) (finite (start + dt)) scene).status = .running →
      start + dt < deadline ∧
        I (b.update setting progress (finite start) (finite (start + dt)) scene).progress
          (start + dt)) (h : I progress start) : Ends setting dt b progress start := by
  obtain ⟨n,hn⟩ := Archimedean.arch (deadline - start) hdt
  rw [nsmul_eq_mul] at hn
  induction n generalizing progress start with
  | zero =>
    refine .intro fun scene hrunning => absurd (hI scene h hrunning).1 ?_
    push_cast at hn
    linarith
  | succ n ih =>
    refine .intro fun scene hrunning => ih (hI scene h hrunning).2 ?_
    push_cast at hn
    linarith

theorem of_pos (hb : b.Timed) (hdt : 0 < dt)
    (hpos : ∀ progress start, Sound b progress → 0 < start → Ends setting dt b progress start)
    (h : Sound b progress) : Ends setting dt b progress start := by
  obtain ⟨n,hn⟩ := Archimedean.arch (dt - start) hdt
  rw [nsmul_eq_mul] at hn
  induction n generalizing progress start with
  | zero =>
    push_cast at hn
    exact hpos progress start h (by linarith)
  | succ n ih =>
    refine .intro fun scene _ => ih (hb.punctual _ h _ _ (by linarith) scene).2 ?_
    push_cast at hn
    linarith

theorem congr {other : Progress Extended} (h : Ends setting dt b other start)
    (heq : ∀ scene, b.update setting progress (finite start) (finite (start + dt)) scene =
      b.update setting other (finite start) (finite (start + dt)) scene) :
    Ends setting dt b progress start := by
  cases h with
  | intro h => exact .intro fun scene => by rw [heq]; exact h scene

end Ends

namespace Chain
variable {σ : Type} {more : ℕ → Bool} {term : ℚ}
  {call : ℕ → Extended → Extended → σ → Status Extended × σ}

theorem Course.le_cursor {n : ℕ} {c c' : Chain ℚ σ} {vs : List (Visit Extended σ)}
    (h : Course more call term n c vs c') {m : ℕ} (hm : ∀ i, c.cursor = some i → m ≤ i) :
    ∀ j, c'.cursor = some j → m ≤ j := by
  induction h with
  | tired | ended | full | waits => exact hm
  | passes hcursor _ _ _ _ _ ih =>
    refine ih fun l hl => ?_
    rw [(following_eq_some hl).1]
    exact (hm _ hcursor).trans (Nat.le_succ _)

/-- A chain with time left either waits for its child or comes to a later one. -/
theorem Course.waits_or_lt {n : ℕ} {c c' : Chain ℚ σ} {vs : List (Visit Extended σ)}
    (h : Course more call term n c vs c') (hn : n ≠ 0) {i : ℕ} (hi : c.cursor = some i)
    (hlt : c.now < term) :
    (∃ state, call i (finite (c.now - c.offset)) (finite (term - c.offset)) c.state =
        (.running,state) ∧ c' = { c with state }) ∨ ∀ j, c'.cursor = some j → i < j := by
  cases h with
  | tired => exact absurd rfl hn
  | ended hcursor => rw [hi] at hcursor; cases hcursor
  | full hle => exact absurd hle (not_le.mpr hlt)
  | waits hcursor _ hcall =>
    obtain rfl := Option.some.inj (hi.symm.trans hcursor)
    exact .inl ⟨_,hcall,rfl⟩
  | passes hcursor _ _ _ _ hrest =>
    obtain rfl := Option.some.inj (hi.symm.trans hcursor)
    exact .inr (hrest.le_cursor fun l hl => (following_eq_some hl).1.ge)

end Chain

theorem Config.chainLimit_ne_zero {ν : Type} (config : Config ν) : config.chainLimit ≠ 0 := by
  unfold chainLimit
  omega

section
variable [Elementary Extended] {setting : Setting Extended} {dt : ℚ} {b : Behavior Extended}
  {k : Links Extended} {p : Progress Extended} {start stop : ℚ}

omit [Elementary Extended] in
theorem Sound.more_of_chain (h : b.links? = some k) {offset : ℚ} {i : ℕ}
    {states : List (Progress Extended)} (hp : Sound b (.chain (finite offset) (some i) states)) :
    k.more i = true := by
  cases hp with
  | leaf => cases h
  | chain hk hc => exact Option.some.inj (h.symm.trans hk) ▸ hc i rfl

theorem Behavior.Timed.lt_lifespan (hb : b.Timed) (h : b.links? = some k) (hp : Sound b p)
    (hlt : start < stop) {scene : Scene Extended}
    (hrunning : (b.update setting p (finite start) (finite stop) scene).status = .running) :
    (stop : WithTop ℚ) < k.lifespan.toTop := by
  obtain ⟨c,henter,hnow,hstates,hc⟩ := hp.exists_enter h start scene
  obtain ⟨c',hcourse,hupdate,-,-⟩ :=
    hb.exists_course setting h stop henter (hstates ▸ hp.allSound_links h) hc
  have hspan : k.lifespan.IsSpan := Behavior.lifespan_links h ▸ hb.span
  have hle : c'.now ≤ stop := hcourse.now_le_stop (by linarith) (cut_le _ _)
  rw [hupdate] at hrunning
  exact ((Chain.status_eq_running hspan c' hle).mp hrunning).2

variable (setting) in
/-- Within its lifespan, a chain at one of its places calls the part there. Either that part goes on,
or the chain comes to a later place, or to its end. -/
theorem Behavior.Timed.step_chain (hb : b.Timed) (h : b.links? = some k) {offset : ℚ} {i : ℕ}
    {states : List (Progress Extended)} (hp : Sound b (.chain (finite offset) (some i) states))
    {part : Behavior Extended} (hpart : k.parts[k.slot i]? = some part) (hstart : start ≠ 0)
    (hlt : start < stop) (hlife : (stop : WithTop ℚ) < k.lifespan.toTop) (scene : Scene Extended) :
    ∃ offset' cursor states',
      (b.update setting (.chain (finite offset) (some i) states) (finite start) (finite stop)
        scene).progress = .chain (finite offset') cursor states' ∧
      (cursor = some i ∧ offset' = offset ∧ (part.update setting (Progress.part states (k.slot i))
            (finite (start - offset)) (finite (stop - offset)) scene).status = .running ∧
          Progress.part states' (k.slot i) = (part.update setting (Progress.part states (k.slot i))
            (finite (start - offset)) (finite (stop - offset)) scene).progress ∨
        ∀ j, cursor = some j → i < j) := by
  have hmore : ∀ j, some i = some j → k.more j = true := fun j hj =>
    Option.some.inj hj ▸ hp.more_of_chain h
  obtain ⟨c',hcourse,hupdate,-,-⟩ := hb.exists_course setting h stop
    (Chain.enter_of_ne_zero k.more offset (some i) states hstart scene) (hp.allSound_links h) hmore
  rw [cut_of_lt hlife] at hcourse
  refine ⟨c'.offset,c'.cursor,c'.state.1,by rw [hupdate],?_⟩
  rcases hcourse.waits_or_lt setting.config.chainLimit_ne_zero rfl hlt with ⟨state,hcall,rfl⟩ | hlater
  · rw [Behavior.call_of_getElem? setting hpart] at hcall
    obtain ⟨hstatus,rfl⟩ := Prod.mk.inj hcall
    exact .inl ⟨rfl,rfl,hstatus,by simp [Progress.part_put]⟩
  · exact .inr hlater

variable {timing : Timing Extended} {lanes : List (Behavior Extended)}

variable (setting) in
/-- A parallel behavior calls the lanes that are not over. Once all are over it goes on only before
the end of its lifespan. -/
theorem Behavior.Timed.step_parallel (hb : (parallel timing lanes).Timed) {ended : List Bool}
    (states : List (Progress Extended)) (hstart : start ≠ 0) (hlt : start < stop)
    (scene : Scene Extended) :
    ∃ ended' states', ((parallel timing lanes).update setting (.lanes ended states) (finite start)
        (finite stop) scene).progress = .lanes ended' states' ∧
      (∀ i lane, lanes[i]? = some lane → ∃ seen, isOver ended' i = (isOver ended i ||
          (lane.update setting (Progress.part states i) (finite start) (finite stop)
            seen).status.isDone) ∧ (isOver ended i = false → Progress.part states' i =
          (lane.update setting (Progress.part states i) (finite start) (finite stop)
            seen).progress)) ∧
      ((∀ i lane, lanes[i]? = some lane → isOver ended i) →
        ((parallel timing lanes).update setting (.lanes ended states) (finite start) (finite stop)
          scene).status = .running → (stop : WithTop ℚ) < timing.lifespan.toTop) := by
  have hspan : timing.lifespan.IsSpan := hb.span
  simp only [update,endedLanes_of_ne_zero hstart,hspan.sub_max]
  refine ⟨_,_,rfl,fun i lane hi => ?_,fun hover hrunning => ?_⟩
  · refine ⟨laneScene setting (finite start) (finite stop) lanes ended states scene i,
      updateLanes_ended _ _ _ _ _ _ _ _ _ hi,fun hi' => ?_⟩
    rw [updateLanes_children _ _ _ _ _ _ _ _ _ hi,hi',if_neg Bool.false_ne_true]
    rfl
  · have hnone : ∀ i lane, lanes[i]? = some lane → isOver ended i ≠ false := fun i lane hi =>
      Bool.eq_false_iff.not_left.mpr (hover i lane hi)
    rw [(updateLanes_running setting lanes ended states _ _ _ scene).mpr
      fun i lane hi ho => absurd ho (hnone i lane hi),if_neg Bool.false_ne_true] at hrunning
    obtain ⟨u,hleft,hu⟩ := exists_updateLanes_leftover setting start stop
      (fun i lane hi ho => absurd ho (hnone i lane hi)) (max timing.lifespan.toTop start)
    rw [hleft] at hrunning
    by_contra hle
    have hu : u ≤ stop := (hu stop).mpr ⟨max_le (not_lt.mp hle) (WithTop.coe_le_coe.mpr hlt.le),
      fun i lane hi ho => absurd ho (hnone i lane hi)⟩
    lift u to ℚ using (hu.trans_lt (WithTop.coe_lt_top _)).ne
    rw [Status.ofLeftover_of_le (WithTop.coe_le_coe.mp hu)] at hrunning
    cases hrunning

namespace Ends

theorem of_none (hb : b.Timed) (hdt : 0 < dt) (h : b.links? = some k) {offset : ℚ}
    {states : List (Progress Extended)} (hp : Sound b (.chain (finite offset) none states))
    (hstart : start ≠ 0) : Ends setting dt b (.chain (finite offset) none states) start := by
  refine .intro fun scene hrunning => ?_
  obtain ⟨c',hcourse,hupdate,-,-⟩ := hb.exists_course setting h (start + dt)
    (Chain.enter_of_ne_zero k.more offset none states hstart scene) (hp.allSound_links h) nofun
  obtain ⟨-,rfl⟩ := hcourse.eq_of_none rfl
  have hspan : k.lifespan.IsSpan := Behavior.lifespan_links h ▸ hb.span
  have hle : start ≤ start + dt := by linarith
  rw [hupdate,Chain.status_eq_running hspan _ hle] at hrunning
  exact absurd rfl hrunning.1

/-- A chain without an end of its own ends from each of its places, the last ones first. -/
theorem of_place (hb : b.Timed) (hdt : 0 < dt) (h : b.links? = some k)
    (hlife : k.lifespan.toTop = ⊤) {n : ℕ} (hmore : ∀ i, k.more i = true ↔ i < n)
    (hparts : ∀ i < n, ∀ part, k.parts[k.slot i]? = some part → ∀ progress start,
      Sound part progress → Ends setting dt part progress start) {offset : ℚ} {i : ℕ}
    {states : List (Progress Extended)} (hp : Sound b (.chain (finite offset) (some i) states))
    (hstart : 0 < start) : Ends setting dt b (.chain (finite offset) (some i) states) start := by
  induction hm : n - i using Nat.strong_induction_on generalizing i offset states start with
  | _ m ih =>
    have hi := (hmore i).mp (hp.more_of_chain h)
    obtain ⟨part,hpart⟩ := Behavior.exists_part h (hp.more_of_chain h)
    have hends : Ends setting dt part (Progress.part states (k.slot i)) (start - offset) :=
      hparts i hi part hpart _ _ (hp.allSound_links h _ _ hpart)
    generalize hq : Progress.part states (k.slot i) = q at hends
    generalize hr : start - offset = r at hends
    induction hends generalizing states start with
    | @intro q r _ ihends =>
      refine .intro fun scene _ => ?_
      have hlt : start < start + dt := by linarith
      obtain ⟨offset',cursor,states',hprogress,hcase⟩ := hb.step_chain setting h hp hpart
        hstart.ne' hlt (hlife ▸ WithTop.coe_lt_top _) scene
      rw [hprogress]
      have hsound : Sound b (.chain (finite offset') cursor states') :=
        hprogress ▸ (hb.punctual _ hp _ _ hlt scene).2
      rcases hcase with ⟨rfl,rfl,hrunning,hpart'⟩ | hlater
      · subst hq hr
        rw [add_sub_right_comm] at hrunning hpart'
        exact ihends scene hrunning hsound (by linarith) hpart' (add_sub_right_comm _ _ _)
      · cases cursor with
        | none => exact of_none hb hdt h hsound (by linarith)
        | some j =>
          have hj := (hmore j).mp (hsound.more_of_chain h)
          have hij := hlater j rfl
          exact ih (n - j) (by omega) hsound (by linarith) rfl

/-- A chain ends if its lifespan or all of its places do. -/
theorem of_links (hb : b.Timed) (hdt : 0 < dt) (h : b.links? = some k) (hfinite : b.duration ≠ ⊤)
    (hparts : ∀ part ∈ k.parts, part.duration ≠ ⊤ → ∀ progress start, Sound part progress →
      Ends setting dt part progress start) (hp : Sound b p) : Ends setting dt b p start := by
  have hspan : k.lifespan.IsSpan := Behavior.lifespan_links h ▸ hb.span
  cases hlifespan : k.lifespan with
  | undefined => rw [hlifespan] at hspan; cases hspan
  | finite q =>
    refine of_deadline hdt q (I := fun progress _ => Sound b progress) ?_ hp
    intro progress start scene hp hrunning
    have hlt : start < start + dt := by linarith
    have hlife := hb.lt_lifespan h hp hlt hrunning
    rw [hlifespan,toTop_finite] at hlife
    exact ⟨WithTop.coe_lt_coe.mp hlife,(hb.punctual _ hp _ _ hlt scene).2⟩
  | infinite s =>
    have hlife : k.lifespan.toTop = ⊤ := by rw [hlifespan,toTop_infinite]
    obtain ⟨total,htotal,hduration⟩ := Links.exists_total h
    rw [hlife,max_eq_left le_top,min_eq_right le_top] at hduration
    rw [hduration] at hfinite
    cases htotal with
    | endless => exact absurd rfl hfinite
    | finite n hmore =>
      have hplaces : ∀ i < n, ∀ part, k.parts[k.slot i]? = some part → ∀ progress start,
          Sound part progress → Ends setting dt part progress start := by
        intro i hi part hpart
        refine hparts part (List.mem_of_getElem? hpart) fun htop => hfinite ?_
        have hle : part.duration ≤ k.begins (i + 1) := by
          rw [← Links.lasts_of_getElem? hpart]
          exact le_add_of_nonneg_left (Links.begins_nonneg i)
        exact top_le_iff.mp (htop ▸ hle.trans (Links.begins_mono hi))
      have hchain : ∀ {offset cursor states start}, Sound b (.chain (finite offset) cursor states) →
          0 < start → Ends setting dt b (.chain (finite offset) cursor states) start := by
        intro offset cursor states start hp hstart
        cases cursor with
        | none => exact of_none hb hdt h hp hstart.ne'
        | some i => exact of_place hb hdt h hlife hmore hplaces hp hstart
      refine of_pos hb hdt (fun progress start hp hstart => ?_) hp
      cases hp with
      | leaf | lanes => cases h
      | chain hk hc hs => exact hchain (.chain hk hc hs) hstart
      | fresh =>
        have hfirst : Sound b (.chain (finite 0) (Chain.following k.more 0) []) :=
          .chain h (fun i hi => Chain.more_of_following hi) fun i part _ => .fresh part
        refine (hchain hfirst hstart).congr fun scene => ?_
        rw [Behavior.update_links setting h,Behavior.update_links setting h,Chain.run,Chain.run,
          Chain.enter_of_ne_zero k.more 0 _ [] hstart.ne' scene]
        rfl

/-- A parallel behavior ends once a lane after the other has ended, and its lifespan has passed. -/
theorem of_lanes (hb : (Behavior.parallel timing lanes).Timed) (hdt : 0 < dt) {q : ℚ}
    (hlifespan : timing.lifespan = finite q)
    (hlanes : ∀ lane ∈ lanes, ∀ progress start, Sound lane progress →
      Ends setting dt lane progress start) (j : ℕ) {ended : List Bool}
    {states : List (Progress Extended)} (hp : Sound (.parallel timing lanes) (.lanes ended states))
    (hover : ∀ i lane, lanes[i]? = some lane → j ≤ i → isOver ended i) (hstart : 0 < start) :
    Ends setting dt (.parallel timing lanes) (.lanes ended states) start := by
  have hgoes : ∀ start : ℚ, start < start + dt := fun start => by linarith
  induction j generalizing ended states start with
  | zero =>
    refine of_deadline hdt q (I := fun progress start => 0 < start ∧ ∃ ended states,
      progress = .lanes ended states ∧ ∀ i lane, lanes[i]? = some lane → isOver ended i) ?_
      ⟨hstart,ended,states,rfl,fun i lane hi => hover i lane hi (Nat.zero_le i)⟩
    rintro - start scene ⟨hstart,ended,states,rfl,hover⟩ hrunning
    obtain ⟨ended',states',hprogress,hlane,hlife⟩ :=
      hb.step_parallel setting states hstart.ne' (hgoes start) scene
    have hlife := hlife hover hrunning
    rw [hlifespan,toTop_finite] at hlife
    refine ⟨WithTop.coe_lt_coe.mp hlife,by linarith,ended',states',hprogress,fun i lane hi => ?_⟩
    obtain ⟨seen,hended,-⟩ := hlane i lane hi
    rw [hended,hover i lane hi,Bool.true_or]
  | succ j ih =>
    cases hj : lanes[j]? with
    | none =>
      refine ih hp (fun i lane hi hle => hover i lane hi (hle.lt_of_ne ?_)) hstart
      rintro rfl
      exact absurd (hj.symm.trans hi) (Option.some_ne_none lane).symm
    | some last =>
      have hends : Ends setting dt last (Progress.part states j) start :=
        hlanes last (List.mem_of_getElem? hj) _ _ (hp.allSound j last hj)
      generalize hq : Progress.part states j = q at hends
      induction hends generalizing ended states with
      | @intro q start _ ihends =>
        refine .intro fun scene _ => ?_
        obtain ⟨ended',states',hprogress,hlane,-⟩ :=
          hb.step_parallel setting states hstart.ne' (hgoes start) scene
        rw [hprogress]
        have hsound : Sound (.parallel timing lanes) (.lanes ended' states') :=
          hprogress ▸ (hb.punctual _ hp _ _ (hgoes start) scene).2
        have hlater : ∀ i lane, lanes[i]? = some lane → j + 1 ≤ i → isOver ended' i := by
          intro i lane hi hle
          obtain ⟨seen,hended,-⟩ := hlane i lane hi
          rw [hended,hover i lane hi hle,Bool.true_or]
        obtain ⟨seen,hended,hpart⟩ := hlane j last hj
        by_cases hlast : isOver ended' j
        · refine ih hsound (fun i lane hi hle => ?_) (by linarith)
          rcases hle.eq_or_lt with rfl | hlt
          · exact hlast
          · exact hlater i lane hi hlt
        · rw [hended,Bool.or_eq_true,not_or,Bool.not_eq_true,Bool.not_eq_true] at hlast
          subst hq
          exact ihends seen (Status.isDone_eq_false.mp hlast.2) hsound hlater (by linarith)
            (hpart hlast.1)

end Ends

theorem Behavior.Timed.ends (hb : b.Timed) (hfinite : b.duration ≠ ⊤) (hdt : 0 < dt)
    (hp : Sound b p) : Ends setting dt b p start := by
  induction b using Behavior.induct generalizing p start with
  | leaf timing effect =>
    have hspan : timing.lifespan.IsSpan := hb.span
    cases hlifespan : timing.lifespan with
    | undefined => rw [hlifespan] at hspan; cases hspan
    | infinite s =>
      rw [duration,hlifespan,toTop_infinite,max_eq_left le_top] at hfinite
      exact absurd rfl hfinite
    | finite q =>
      refine Ends.of_deadline hdt q (I := fun progress _ => Sound (.leaf timing effect) progress) ?_ hp
      intro progress start scene _ hrunning
      have hle : start ≤ start + dt := by linarith
      rcases Status.settle_cases hspan hle with ⟨hlt,-⟩ | ⟨_,-,-,hdone⟩
      · rw [hlifespan,toTop_finite] at hlt
        exact ⟨WithTop.coe_lt_coe.mp hlt,.leaf timing effect _⟩
      · rw [show Status.settle _ _ _ = _ from hrunning] at hdone
        cases hdone
  | chain b k h ih =>
    exact .of_links hb hdt h hfinite (fun part hpart hfinite progress start hp =>
      ih part hpart (hb.part (Behavior.parts_links h ▸ hpart)) hfinite hp) hp
  | parallel timing lanes ih =>
    have hspan : timing.lifespan.IsSpan := hb.span
    have hlanes : ∀ lane ∈ lanes, ∀ progress start, Sound lane progress →
        Ends setting dt lane progress start := by
      intro lane hlane progress start hp
      obtain ⟨i,hi⟩ := List.mem_iff_getElem?.mp hlane
      refine ih lane hlane (hb.part hlane) (fun htop => hfinite ?_) hp
      exact top_le_iff.mp (htop ▸ duration_le_parallel hi)
    cases hlifespan : timing.lifespan with
    | undefined => rw [hlifespan] at hspan; cases hspan
    | infinite s =>
      rw [duration,hlifespan,toTop_infinite,max_eq_left le_top,max_eq_left le_top] at hfinite
      exact absurd rfl hfinite
    | finite q =>
      have hall : ∀ {ended states start}, Sound (.parallel timing lanes) (.lanes ended states) →
          0 < start → Ends setting dt (.parallel timing lanes) (.lanes ended states) start := by
        intro ended states start hp hstart
        refine .of_lanes hb hdt hlifespan hlanes lanes.length hp (fun i lane hi hle => ?_) hstart
        exact absurd (List.getElem?_eq_none hle ▸ hi) (Option.some_ne_none lane).symm
      refine .of_pos hb hdt (fun progress start hp hstart => ?_) hp
      cases hp with
      | chain hk => cases hk
      | lanes hs => exact hall (.lanes hs) hstart
      | fresh =>
        have hnone : Sound (.parallel timing lanes) (.lanes [] []) :=
          .lanes fun i lane _ => .fresh lane
        refine (hall hnone hstart).congr fun scene => ?_
        simp only [update,endedLanes_of_ne_zero hstart.ne']
        rfl

end
end Fireworks
