import Fireworks.Proofs.Behavior.Tree

/-! # The calls of a run

A call of a behavior calls its children in turn. What is promised of those calls, at every depth, is
said of the tree of calls, which is written down here beside the step that makes them.
-/
namespace Fireworks
variable {ν : Type}

namespace Chain

/-- The call of one place of a chain: its window, its answer, and what it found. -/
structure Visit (ν σ : Type) where
  place : ℕ
  start : ν
  stop : ν
  status : Status ν
  state : σ

variable {σ : Type}

/-- A call that writes itself down. -/
def recorded (call : ℕ → ν → ν → σ → Status ν × σ) (i : ℕ) (start stop : ν)
    (state : σ × List (Visit ν σ)) : Status ν × σ × List (Visit ν σ) :=
  let (status,after) := call i start stop state.1
  (status,after,state.2 ++ [⟨i,start,stop,status,state.1⟩])

/-- A chain together with what was written down so far. -/
def logging (log : List (Visit ν σ)) (chain : Chain ν σ) : Chain ν (σ × List (Visit ν σ)) :=
  ⟨chain.now,chain.offset,chain.cursor,chain.state,log⟩

variable [Arithmetic ν] (next : ℕ → Option ℕ) (call : ℕ → ν → ν → σ → Status ν × σ) (term : ν)

/-- The calls that a chain makes in a window, in order. -/
def visits (limit : ℕ) (chain : Chain ν σ) : List (Visit ν σ) :=
  (drive next (recorded call) term limit (chain.logging [])).state.2

/-- Writing calls down changes nothing else. -/
theorem drive_recorded (limit : ℕ) (chain : Chain ν σ) (log : List (Visit ν σ)) :
    drive next (recorded call) term limit (chain.logging log) =
      (drive next call term limit chain).logging (log ++ visits next call term limit chain) := by
  induction limit generalizing chain log with
  | zero => simp [visits,drive,logging]
  | succ limit ih =>
    obtain ⟨now,offset,cursor,state⟩ := chain
    cases cursor with
    | none => simp [visits,drive,logging]
    | some i =>
      by_cases h : term ≤ now
      · simp [visits,drive,logging,h]
      · cases hc : call i (now - offset) (term - offset) state with
        | mk status after =>
          cases status with
          | running => simp [visits,drive,logging,recorded,h,hc]
          | done leftover =>
            have hstep : ∀ log, drive next (recorded call) term (limit + 1)
                (logging log ⟨now,offset,some i,state⟩) = drive next (recorded call) term limit
                  (logging (log ++ [⟨i,now - offset,term - offset,.done leftover,state⟩])
                    ⟨term - leftover,term - leftover,next (i + 1),after⟩) := by
              intro log
              simp [drive,logging,recorded,h,hc]
            have hv : visits next call term (limit + 1) ⟨now,offset,some i,state⟩ =
                ⟨i,now - offset,term - offset,.done leftover,state⟩ ::
                  visits next call term limit
                    ⟨term - leftover,term - leftover,next (i + 1),after⟩ := by
              rw [visits,hstep,ih]
              rfl
            have hd : drive next call term (limit + 1) ⟨now,offset,some i,state⟩ =
                drive next call term limit
                  ⟨term - leftover,term - leftover,next (i + 1),after⟩ := by
              simp [drive,h,hc]
            rw [hstep,ih,hv,hd,List.append_assoc]
            rfl

theorem visits_succ (limit : ℕ) (chain : Chain ν σ) :
    visits next call term (limit + 1) chain =
      match chain.cursor with
      | none => []
      | some i =>
        if term ≤ chain.now then []
        else
          let start := chain.now - chain.offset
          let stop := term - chain.offset
          let (status,after) := call i start stop chain.state
          ⟨i,start,stop,status,chain.state⟩ ::
            match status with
            | .running => []
            | .done leftover =>
              visits next call term limit ⟨term - leftover,term - leftover,next (i + 1),after⟩ := by
  obtain ⟨now,offset,cursor,state⟩ := chain
  cases cursor with
  | none => simp [visits,drive,logging]
  | some i =>
    by_cases h : term ≤ now
    · simp [visits,drive,logging,h]
    · cases hc : call i (now - offset) (term - offset) state with
      | mk status after =>
        cases status with
        | running => simp [visits,drive,logging,recorded,h,hc]
        | done leftover =>
          have hstep : drive next (recorded call) term (limit + 1)
              (logging [] ⟨now,offset,some i,state⟩) = drive next (recorded call) term limit
                (logging [⟨i,now - offset,term - offset,.done leftover,state⟩]
                  ⟨term - leftover,term - leftover,next (i + 1),after⟩) := by
            simp [drive,logging,recorded,h,hc]
          simp only [h,hc,↓reduceIte]
          rw [visits,hstep,drive_recorded]
          rfl

/-- What is written down of a call is its answer. -/
theorem status_of_mem_visits {limit : ℕ} {chain : Chain ν σ} {v : Visit ν σ}
    (hv : v ∈ visits next call term limit chain) :
    v.status = (call v.place v.start v.stop v.state).1 := by
  induction limit generalizing chain with
  | zero => cases hv
  | succ limit ih =>
    rw [visits_succ] at hv
    split at hv
    · cases hv
    · split at hv
      · cases hv
      · rcases List.mem_cons.mp hv with rfl | hv
        · rfl
        · split at hv
          · cases hv
          · exact ih hv

end Chain

/-- A call of a behavior: its window, its answer, whether it makes its calls of children one after
another in time, and those calls, each with the number of the child. -/
inductive Call (ν : Type) where
  | mk (start stop : ν) (status : Status ν) (serial : Bool) (within : List (ℕ × Call ν))

namespace Call

def start : Call ν → ν | mk start _ _ _ _ => start
def stop : Call ν → ν | mk _ stop _ _ _ => stop
def status : Call ν → Status ν | mk _ _ status _ _ => status
def serial : Call ν → Bool | mk _ _ _ serial _ => serial
def within : Call ν → List (ℕ × Call ν) | mk _ _ _ _ within => within

def completed (c : Call ν) : ℕ := c.within.countP fun child => child.2.status.isDone

/-- The calls of one child among the calls of several. -/
def among (i : ℕ) (within : List (ℕ × Call ν)) : List (Call ν) :=
  within.filterMap fun child => if child.1 = i then some child.2 else none

@[simp] theorem among_nil (i : ℕ) : among i ([] : List (ℕ × Call ν)) = [] := rfl

@[simp] theorem among_cons (i j : ℕ) (c : Call ν) (within : List (ℕ × Call ν)) :
    among i ((j,c) :: within) = if j = i then c :: among i within else among i within := by
  by_cases h : j = i <;> simp [among,h]

theorem among_append (i : ℕ) (within others : List (ℕ × Call ν)) :
    among i (within ++ others) = among i within ++ among i others := List.filterMap_append

theorem among_eq_nil {i : ℕ} {within : List (ℕ × Call ν)} (h : ∀ child ∈ within, child.1 ≠ i) :
    among i within = [] := List.filterMap_eq_nil_iff.mpr fun child hc => if_neg (h child hc)

def childCalls (i : ℕ) (c : Call ν) : List (Call ν) := among i c.within

/-- The calls of the node that a path of child numbers leads to. -/
def descend (calls : List (Call ν)) : List ℕ → List (Call ν)
  | [] => calls
  | i :: path => descend (calls.flatMap (childCalls i)) path

/-- A property of a call and of all calls made during it. -/
inductive Throughout (P : Call ν → Prop) : Call ν → Prop
  | intro {c} : P c → (∀ child ∈ c.within, Throughout P child.2) → Throughout P c

theorem Throughout.here {P : Call ν → Prop} {c : Call ν} (h : c.Throughout P) : P c := by
  cases h with
  | intro h _ => exact h

theorem Throughout.child {P : Call ν → Prop} {c : Call ν} (h : c.Throughout P) {child : ℕ × Call ν}
    (hc : child ∈ c.within) : child.2.Throughout P := by
  cases h with
  | intro _ h => exact h child hc

mutual

def holdsThroughout (P : Call ν → Bool) : Call ν → Bool
  | mk start stop status serial within =>
    P (mk start stop status serial within) && holdsWithin P within

def holdsWithin (P : Call ν → Bool) : List (ℕ × Call ν) → Bool
  | [] => true
  | child :: rest => holdsChild P child && holdsWithin P rest

def holdsChild (P : Call ν → Bool) : ℕ × Call ν → Bool
  | (_,c) => holdsThroughout P c

end

theorem throughout_iff (P : Call ν → Prop) [DecidablePred P] (c : Call ν) :
    c.Throughout P ↔ holdsThroughout (fun d => P d) c = true := by
  refine @Call.rec ν (fun c => c.Throughout P ↔ holdsThroughout (fun d => P d) c = true)
    (fun within => (∀ child ∈ within, child.2.Throughout P) ↔ holdsWithin (fun d => P d) within = true)
    (fun child => child.2.Throughout P ↔ holdsChild (fun d => P d) child = true) ?_ ?_ ?_ ?_ c
  · intro start stop status serial within ih
    rw [holdsThroughout,Bool.and_eq_true,decide_eq_true_iff,← ih]
    exact ⟨fun h => ⟨h.here,fun child => h.child⟩,fun h => .intro h.1 h.2⟩
  · simp [holdsWithin]
  · intro child rest h hs
    rw [holdsWithin,Bool.and_eq_true,← h,← hs,List.forall_mem_cons]
  · exact fun i c h => h

instance (P : Call ν → Prop) [DecidablePred P] (c : Call ν) : Decidable (c.Throughout P) :=
  decidable_of_iff _ (throughout_iff P c).symm

end Call

variable [Arithmetic ν] [Elementary ν]

def Links.visits (setting : Setting ν) (k : Links ν) (progress : Progress ν) (start stop : ν)
    (scene : Scene ν) : List (Chain.Visit ν (List (Progress ν) × Scene ν)) :=
  Chain.visits (Chain.following k.more) (k.call setting) (Arithmetic.minNum k.lifespan stop)
    setting.config.chainLimit (Chain.enter k.more progress start scene)

namespace Behavior

mutual

/-- The call of a behavior over a window, with all calls made during it. -/
def trace (setting : Setting ν) : Behavior ν → Progress ν → (start stop : ν) → Scene ν → Call ν
  | .leaf timing effect, progress, start, stop, scene =>
    .mk start stop ((leaf timing effect).update setting progress start stop scene).status false []
  | .sequence timing children, progress, start, stop, scene =>
    .mk start stop ((sequence timing children).update setting progress start stop scene).status true
      (((Links.sequence timing children).visits setting progress start stop scene).map fun v =>
        (v.place,traceNth setting children v.place v.state.1 v.start v.stop v.state.2))
  | .repetition timing limit body, progress, start, stop, scene =>
    .mk start stop
      ((repetition timing limit body).update setting progress start stop scene).status true
      (((Links.repetition timing limit body).visits setting progress start stop scene).map fun v =>
        (0,body.trace setting (v.state.1.headD .fresh) v.start v.stop v.state.2))
  | .loop timing body, progress, start, stop, scene =>
    .mk start stop ((loop timing body).update setting progress start stop scene).status true
      (((Links.loop timing body).visits setting progress start stop scene).map fun v =>
        (0,body.trace setting (v.state.1.headD .fresh) v.start v.stop v.state.2))
  | .parallel timing lanes, progress, start, stop, scene =>
    let (ended,children) := progress.endedLanes start
    .mk start stop ((parallel timing lanes).update setting progress start stop scene).status false
      (traceLanes setting lanes 0 ended children start stop scene)

def traceNth (setting : Setting ν) :
    List (Behavior ν) → ℕ → List (Progress ν) → (start stop : ν) → Scene ν → Call ν
  | [], _, _, start, stop, _ => .mk start stop .running false []
  | child :: _, 0, states, start, stop, scene =>
    child.trace setting (states.headD .fresh) start stop scene
  | _ :: children, i + 1, states, start, stop, scene =>
    traceNth setting children i states.tail start stop scene

/-- The calls of the lanes from number `n` on. -/
def traceLanes (setting : Setting ν) :
    List (Behavior ν) → (n : ℕ) → List Bool → List (Progress ν) → (start stop : ν) → Scene ν →
      List (ℕ × Call ν)
  | [], _, _, _, _, _, _ => []
  | lane :: lanes, n, ended, states, start, stop, scene =>
    if ended.headD false then
      traceLanes setting lanes (n + 1) ended.tail states.tail start stop scene
    else
      let after := (lane.update setting (states.headD .fresh) start stop scene).scene
      (n,lane.trace setting (states.headD .fresh) start stop scene) ::
        traceLanes setting lanes (n + 1) ended.tail states.tail start stop after

end

/-- The calls of a run: each window goes on where the one before ended, and finds the scene that
stands with it, since others act between two calls. -/
def calls (setting : Setting ν) (b : Behavior ν) :
    Progress ν → (start : ν) → List (ν × Scene ν) → List (Call ν)
  | _, _, [] => []
  | progress, start, (stop,scene) :: windows =>
    b.trace setting progress start stop scene ::
      b.calls setting (b.update setting progress start stop scene).progress stop windows

section
variable (setting : Setting ν) (progress : Progress ν) (start stop : ν) (scene : Scene ν)

@[simp] theorem trace_start (b : Behavior ν) :
    (b.trace setting progress start stop scene).start = start := by
  cases b <;> rfl

@[simp] theorem trace_stop (b : Behavior ν) :
    (b.trace setting progress start stop scene).stop = stop := by
  cases b <;> rfl

@[simp] theorem trace_status (b : Behavior ν) :
    (b.trace setting progress start stop scene).status =
      (b.update setting progress start stop scene).status := by
  cases b <;> rfl

theorem serial_trace (b : Behavior ν) :
    (b.trace setting progress start stop scene).serial = b.links?.isSome := by
  cases b <;> rfl

/-- The call that a chain makes when it visits a place. -/
def visit (k : Links ν) (v : Chain.Visit ν (List (Progress ν) × Scene ν)) : ℕ × Call ν :=
  (k.slot v.place,traceNth setting k.parts (k.slot v.place) v.state.1 v.start v.stop v.state.2)

theorem trace_links {b : Behavior ν} {k : Links ν} (h : b.links? = some k) :
    b.trace setting progress start stop scene =
      .mk start stop (b.update setting progress start stop scene).status true
        ((k.visits setting progress start stop scene).map (visit setting k)) := by
  cases b with
  | leaf | parallel => cases h
  | sequence | repetition | loop => cases h; rfl

end

theorem traceNth_of_getElem? (setting : Setting ν) {parts : List (Behavior ν)} {i : ℕ}
    {b : Behavior ν} (h : parts[i]? = some b) (states : List (Progress ν)) (start stop : ν)
    (scene : Scene ν) :
    traceNth setting parts i states start stop scene =
      b.trace setting (Progress.part states i) start stop scene := by
  induction parts generalizing i states with
  | nil => simp at h
  | cons first rest ih =>
    cases i with
    | zero =>
      obtain rfl : first = b := by simpa using h
      simp [traceNth,Progress.part_zero]
    | succ i => simp [traceNth,ih (by simpa using h),Progress.part_succ]

theorem visit_of_getElem? (setting : Setting ν) {k : Links ν} {i : ℕ} {b : Behavior ν}
    (h : k.parts[k.slot i]? = some b) (start stop : ν) (status : Status ν)
    (state : List (Progress ν) × Scene ν) :
    visit setting k ⟨i,start,stop,status,state⟩ =
      (k.slot i,b.trace setting (Progress.part state.1 (k.slot i)) start stop state.2) :=
  congrArg (k.slot i,·) (traceNth_of_getElem? setting h _ _ _ _)

theorem status_traceNth (setting : Setting ν) (parts : List (Behavior ν)) (i : ℕ)
    (states : List (Progress ν)) (start stop : ν) (scene : Scene ν) :
    (traceNth setting parts i states start stop scene).status =
      (updateNth setting parts i states start stop scene).1 := by
  induction parts generalizing i states with
  | nil => rfl
  | cons first rest ih =>
    cases i with
    | zero => exact trace_status setting _ start stop scene first
    | succ i => exact ih i states.tail

theorem start_visit (setting : Setting ν) (k : Links ν)
    (v : Chain.Visit ν (List (Progress ν) × Scene ν)) : (visit setting k v).2.start = v.start := by
  obtain ⟨i,start,stop,status,states,scene⟩ := v
  simp only [visit]
  generalize k.slot i = i
  induction k.parts generalizing i states with
  | nil => rfl
  | cons first rest ih =>
    cases i with
    | zero => exact trace_start setting _ start stop scene first
    | succ i => exact ih states.tail i

theorem status_of_call (setting : Setting ν) {k : Links ν} {i : ℕ} {b : Behavior ν}
    (h : k.parts[k.slot i]? = some b) {start stop : ν} {status : Status ν}
    {state after : List (Progress ν) × Scene ν}
    (hcall : k.call setting i start stop state = (status,after)) :
    (b.trace setting (Progress.part state.1 (k.slot i)) start stop state.2).status = status := by
  rw [call_of_getElem? setting h] at hcall
  rw [trace_status]
  exact congrArg Prod.fst hcall

end Behavior
end Fireworks
