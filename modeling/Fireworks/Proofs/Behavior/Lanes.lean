import Fireworks.Proofs.Behavior.Trace
import Fireworks.Proofs.ExactTime

/-! # Lanes side by side

In one call the lanes that have not ended run one after the other over the same window, each in the
scene that the ones before it leave.
-/
namespace Fireworks
variable {ν : Type}

/-- Whether one of several lanes has ended. -/
def isOver (ended : List Bool) (i : ℕ) : Bool := ended.getD i false

@[simp] theorem isOver_cons_zero (e : Bool) (ended : List Bool) : isOver (e :: ended) 0 = e := rfl

@[simp] theorem isOver_cons_succ (e : Bool) (ended : List Bool) (i : ℕ) :
    isOver (e :: ended) (i + 1) = isOver ended i := rfl

theorem headD_eq_isOver (ended : List Bool) : ended.headD false = isOver ended 0 := by
  cases ended <;> rfl

theorem isOver_succ (ended : List Bool) (i : ℕ) : isOver ended (i + 1) = isOver ended.tail i := by
  cases ended <;> rfl

namespace Behavior

theorem forall_lanes_cons {first : Behavior ν} {rest : List (Behavior ν)} {ended : List Bool}
    {P : ℕ → Behavior ν → Prop} :
    (∀ i lane, (first :: rest)[i]? = some lane → isOver ended i = false → P i lane) ↔
      (isOver ended 0 = false → P 0 first) ∧
        ∀ i lane, rest[i]? = some lane → isOver ended.tail i = false → P (i + 1) lane := by
  constructor
  · exact fun h => ⟨h 0 first rfl,fun i lane hi ho => h (i + 1) lane hi (by rwa [isOver_succ])⟩
  · rintro ⟨hfirst,hrest⟩ i lane hi ho
    cases i with
    | zero =>
      obtain rfl : first = lane := by simpa using hi
      exact hfirst ho
    | succ i => exact hrest i lane hi (by rwa [isOver_succ] at ho)

variable [Arithmetic ν] [Elementary ν] (setting : Setting ν)

/-- The scene that one of several lanes finds. -/
def laneScene (start stop : ν) :
    List (Behavior ν) → List Bool → List (Progress ν) → Scene ν → ℕ → Scene ν
  | [], _, _, scene, _ | _ :: _, _, _, scene, 0 => scene
  | lane :: lanes, ended, states, scene, i + 1 =>
    let after :=
      if isOver ended 0 then scene
      else (lane.update setting (Progress.part states 0) start stop scene).scene
    laneScene start stop lanes ended.tail states.tail after i

section
variable (lanes : List (Behavior ν)) (ended : List Bool) (states : List (Progress ν))
  (start stop leftover : ν) (scene : Scene ν) (i : ℕ) {lane : Behavior ν}

/-- What one of several lanes makes of a window, unless it has ended. -/
def laneOutcome (lane : Behavior ν) : Outcome ν :=
  lane.update setting (Progress.part states i) start stop
    (laneScene setting start stop lanes ended states scene i)

theorem updateLanes_cons_of_isOver (lane : Behavior ν) (he : isOver ended 0 = true) :
    updateLanes setting (lane :: lanes) ended states start stop leftover scene =
      let rest := updateLanes setting lanes ended.tail states.tail start stop leftover scene
      { rest with
        ended := true :: rest.ended, children := Progress.part states 0 :: rest.children } := by
  simp only [updateLanes,headD_eq_isOver,he,↓reduceIte,Progress.part_zero]

theorem updateLanes_cons (lane : Behavior ν) (he : isOver ended 0 = false) :
    updateLanes setting (lane :: lanes) ended states start stop leftover scene =
      let outcome := lane.update setting (Progress.part states 0) start stop scene
      let rest := updateLanes setting lanes ended.tail states.tail start stop
        (match outcome.status with
        | .running => leftover
        | .done l => Arithmetic.minNum leftover l) outcome.scene
      { rest with
        ended := outcome.status.isDone :: rest.ended
        children := outcome.progress :: rest.children
        running := !outcome.status.isDone || rest.running } := by
  rw [Progress.part_zero]
  exact if_neg (by rw [headD_eq_isOver,he]; exact Bool.false_ne_true)

theorem laneOutcome_succ (first : Behavior ν) :
    laneOutcome setting (first :: lanes) ended states start stop scene (i + 1) lane =
      laneOutcome setting lanes ended.tail states.tail start stop
        (if isOver ended 0 then scene
        else (first.update setting (Progress.part states 0) start stop scene).scene) i lane := by
  simp only [laneOutcome,laneScene,Progress.part_succ]

theorem updateLanes_children (h : lanes[i]? = some lane) :
    Progress.part
        (updateLanes setting lanes ended states start stop leftover scene).children i =
      if isOver ended i then Progress.part states i
      else (laneOutcome setting lanes ended states start stop scene i lane).progress := by
  induction lanes generalizing ended states leftover scene i with
  | nil => simp at h
  | cons first rest ih =>
    cases i with
    | zero =>
      obtain rfl : first = lane := by simpa using h
      cases he : isOver ended 0 with
      | true => simp [updateLanes_cons_of_isOver,he,Progress.part]
      | false => simp [updateLanes_cons,he,Progress.part,laneOutcome,laneScene]
    | succ i =>
      have h : rest[i]? = some lane := by simpa using h
      cases he : isOver ended 0 with
      | true =>
        rw [updateLanes_cons_of_isOver _ _ _ _ _ _ _ _ _ he,Progress.part_succ,List.tail_cons,
          ih _ _ _ _ _ h,laneOutcome_succ,isOver_succ,he,Progress.part_succ,if_pos rfl]
      | false =>
        rw [updateLanes_cons _ _ _ _ _ _ _ _ _ he,Progress.part_succ,List.tail_cons,
          ih _ _ _ _ _ h,laneOutcome_succ,isOver_succ,he,Progress.part_succ,
          if_neg Bool.false_ne_true]

theorem updateLanes_ended (h : lanes[i]? = some lane) :
    isOver (updateLanes setting lanes ended states start stop leftover scene).ended i =
      (isOver ended i ||
        (laneOutcome setting lanes ended states start stop scene i lane).status.isDone) := by
  induction lanes generalizing ended states leftover scene i with
  | nil => simp at h
  | cons first rest ih =>
    cases i with
    | zero =>
      obtain rfl : first = lane := by simpa using h
      cases he : isOver ended 0 with
      | true => simp [updateLanes_cons_of_isOver,he]
      | false => simp [updateLanes_cons,he,laneOutcome,laneScene]
    | succ i =>
      have h : rest[i]? = some lane := by simpa using h
      cases he : isOver ended 0 with
      | true =>
        rw [updateLanes_cons_of_isOver _ _ _ _ _ _ _ _ _ he,isOver_cons_succ,
          ih _ _ _ _ _ h,laneOutcome_succ,isOver_succ,he,if_pos rfl]
      | false =>
        rw [updateLanes_cons _ _ _ _ _ _ _ _ _ he,isOver_cons_succ,
          ih _ _ _ _ _ h,laneOutcome_succ,isOver_succ,he,if_neg Bool.false_ne_true]

/-- A parallel behavior goes on as long as one of its lanes does. -/
theorem updateLanes_running :
    (updateLanes setting lanes ended states start stop leftover scene).running = false ↔
      ∀ i lane, lanes[i]? = some lane → isOver ended i = false →
        (laneOutcome setting lanes ended states start stop scene i lane).status.isDone = true := by
  induction lanes generalizing ended states leftover scene with
  | nil => simp [updateLanes]
  | cons first rest ih =>
    rw [forall_lanes_cons]
    simp only [laneOutcome_succ]
    cases he : isOver ended 0 with
    | true =>
      rw [updateLanes_cons_of_isOver _ _ _ _ _ _ _ _ _ he]
      simp only [ih,Bool.true_eq_false,false_implies,true_and,↓reduceIte]
    | false =>
      rw [updateLanes_cons _ _ _ _ _ _ _ _ _ he]
      simp only [Bool.or_eq_false_iff,Bool.not_eq_false',ih,forall_true_left,Bool.false_eq_true,
        ↓reduceIte]
      rfl

theorem traceLanes_cons (lane : Behavior ν) (n : ℕ) :
    traceLanes setting (lane :: lanes) n ended states start stop scene =
      (if isOver ended 0 then []
      else [(n,lane.trace setting (Progress.part states 0) start stop scene)]) ++
        traceLanes setting lanes (n + 1) ended.tail states.tail start stop
          (if isOver ended 0 then scene
          else (lane.update setting (Progress.part states 0) start stop scene).scene) := by
  rw [traceLanes,headD_eq_isOver,← Progress.part_zero]
  cases isOver ended 0 <;> rfl

theorem mem_traceLanes (n : ℕ) (child : ℕ × Call ν) :
    child ∈ traceLanes setting lanes n ended states start stop scene ↔
      ∃ i lane, lanes[i]? = some lane ∧ isOver ended i = false ∧
        child = (n + i,lane.trace setting (Progress.part states i) start stop
          (laneScene setting start stop lanes ended states scene i)) := by
  induction lanes generalizing n ended states scene with
  | nil => simp [traceLanes]
  | cons first rest ih =>
    rw [traceLanes_cons,List.mem_append,ih]
    constructor
    · rintro (h | ⟨i,lane,h,he,rfl⟩)
      · cases he : isOver ended 0 with
        | true => simp [he] at h
        | false =>
          rw [he,if_neg Bool.false_ne_true,List.mem_singleton] at h
          exact ⟨0,first,rfl,he,h⟩
      · exact ⟨i + 1,lane,h,by rwa [isOver_succ],by
          rw [Progress.part_succ,Nat.add_right_comm,Nat.add_assoc]; rfl⟩
    · rintro ⟨i,lane,h,he,rfl⟩
      cases i with
      | zero =>
        obtain rfl : first = lane := by simpa using h
        exact Or.inl (by simp [he,laneScene])
      | succ i =>
        refine Or.inr ⟨i,lane,h,by rwa [isOver_succ] at he,?_⟩
        rw [Progress.part_succ,Nat.add_right_comm,Nat.add_assoc]; rfl

/-- Every lane that has not ended is called once, over the window of the whole. -/
theorem among_traceLanes (n : ℕ) :
    Call.among (n + i) (traceLanes setting lanes n ended states start stop scene) =
      match lanes[i]? with
      | none => []
      | some lane =>
        if isOver ended i then []
        else [lane.trace setting (Progress.part states i) start stop
          (laneScene setting start stop lanes ended states scene i)] := by
  induction lanes generalizing n ended states scene i with
  | nil => simp [traceLanes]
  | cons first rest ih =>
    rw [traceLanes_cons,Call.among_append]
    cases i with
    | zero =>
      have hrest : ∀ ended' states' scene', ∀ child ∈ traceLanes setting rest (n + 1) ended' states'
          start stop scene', child.1 ≠ n + 0 := by
        intro ended' states' scene' child hchild
        obtain ⟨j,lane,-,-,rfl⟩ := (mem_traceLanes _ _ _ _ _ _ _ _ _).mp hchild
        exact Nat.ne_of_gt (by omega)
      rw [Call.among_eq_nil (hrest _ _ _)]
      cases he : isOver ended 0 <;> simp [laneScene]
    | succ i =>
      rw [Call.among_eq_nil,List.nil_append,Nat.add_comm i 1,← Nat.add_assoc,ih,Nat.add_comm 1 i]
      · simp only [List.getElem?_cons_succ,isOver_succ,Progress.part_succ,laneScene]
      · cases isOver ended 0 <;> simp

theorem childCalls_parallel (timing : Timing ν) (progress : Progress ν) :
    ((parallel timing lanes).trace setting progress start stop scene).childCalls i =
      match lanes[i]? with
      | none => []
      | some lane =>
        if isOver (progress.endedLanes start).1 i then []
        else [lane.trace setting (Progress.part (progress.endedLanes start).2 i) start stop
          (laneScene setting start stop lanes (progress.endedLanes start).1
            (progress.endedLanes start).2 scene i)] := by
  have hcalls := among_traceLanes setting lanes (progress.endedLanes start).1
    (progress.endedLanes start).2 start stop scene i 0
  rwa [Nat.zero_add] at hcalls

end

open Extended in
theorem endedLanes_of_ne_zero {start : ℚ} (h : start ≠ 0) (ended : List Bool)
    (states : List (Progress Extended)) :
    (Progress.lanes ended states).endedLanes (finite start) = (ended,states) := by
  simp [Progress.endedLanes,h]

open Extended in
/-- What is left to a parallel behavior is left to it since the last of its ends. -/
theorem exists_updateLanes_leftover [Elementary Extended] (setting : Setting Extended)
    (start stop : ℚ) {lanes : List (Behavior Extended)} {ended : List Bool}
    {states : List (Progress Extended)} {scene : Scene Extended}
    (ht : ∀ i lane, lanes[i]? = some lane → isOver ended i = false →
      (laneOutcome setting lanes ended states (finite start) (finite stop) scene i
        lane).status.Timely (stop - start)) (u : WithTop ℚ) :
    ∃ u', (updateLanes setting lanes ended states (finite start) (finite stop) (left stop u)
        scene).leftover = left stop u' ∧
      ∀ x, u' ≤ x ↔ u ≤ x ∧ ∀ i lane, lanes[i]? = some lane → isOver ended i = false → ∀ q,
        (laneOutcome setting lanes ended states (finite start) (finite stop) scene i
          lane).status = .done (finite q) → ((stop - q : ℚ) : WithTop ℚ) ≤ x := by
  induction lanes generalizing ended states scene u with
  | nil => exact ⟨u,rfl,by simp⟩
  | cons first rest ih =>
    simp only [forall_lanes_cons,laneOutcome_succ] at ht ⊢
    obtain ⟨hfirst,hrest⟩ := ht
    cases he : isOver ended 0 with
    | true =>
      simp only [he,↓reduceIte,Bool.true_eq_false,false_implies,true_and] at hrest ⊢
      obtain ⟨u',hu,hx⟩ := ih hrest u
      rw [updateLanes_cons_of_isOver _ _ _ _ _ _ _ _ _ he]
      exact ⟨u',hu,hx⟩
    | false =>
      simp only [he,↓reduceIte,Bool.false_eq_true,true_implies] at hrest ⊢
      rw [updateLanes_cons _ _ _ _ _ _ _ _ _ he]
      have hscene : (laneOutcome setting (first :: rest) ended states (finite start) (finite stop)
          scene 0 first) = first.update setting (Progress.part states 0) (finite start)
            (finite stop) scene := rfl
      rw [hscene] at hfirst ⊢
      cases hs : (first.update setting (Progress.part states 0) (finite start) (finite stop)
          scene).status with
      | running =>
        obtain ⟨u',hu,hx⟩ := ih hrest u
        exact ⟨u',by simpa only [hs] using hu,by simpa using hx⟩
      | done leftover =>
        obtain ⟨q,rfl,-,-⟩ := hs ▸ hfirst he
        obtain ⟨u',hu,hx⟩ := ih hrest (max u ((stop - q : ℚ) : WithTop ℚ))
        refine ⟨u',by simpa only [hs,minNum_left] using hu,fun x => ?_⟩
        rw [hx,max_le_iff,and_assoc]
        simp

end Behavior
end Fireworks
