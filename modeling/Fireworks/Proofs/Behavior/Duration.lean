import Mathlib.Algebra.Order.Archimedean.Basic
import Fireworks.Proofs.Behavior.Sound

/-! # How long a behavior lasts

The duration of a behavior is computed from its tree alone: chains add the durations of their
places, parallel behaviors take the longest, and every lifespan cuts its own node. A run that has
come to some time without an end is on time: the current child of each chain began when all the
places before it have lasted.
-/
namespace Fireworks
open Extended

/-- How often a repetition runs its body: once for each natural number below its limit. -/
def Extended.rounds : Extended → Option ℕ
  | finite q => some ⌈q⌉₊
  | infinite false => none
  | infinite true | undefined => some 0

namespace Behavior

mutual

/-- The time at which a run of a behavior ends, maybe never. -/
def duration : Behavior Extended → WithTop ℚ
  | .leaf timing _ => max timing.lifespan.toTop 0
  | .sequence timing children => min (max timing.lifespan.toTop 0) (total children)
  | .repetition timing limit body =>
    min (max timing.lifespan.toTop 0)
      (match limit.rounds with
      | none => ⊤
      | some n => n • duration body)
  | .loop timing _ => max timing.lifespan.toTop 0
  | .parallel timing lanes => max (max timing.lifespan.toTop 0) (longest lanes)

def total : List (Behavior Extended) → WithTop ℚ
  | [] => 0
  | child :: children => duration child + total children

def longest : List (Behavior Extended) → WithTop ℚ
  | [] => 0
  | lane :: lanes => max (duration lane) (longest lanes)

end

theorem longest_le_iff (lanes : List (Behavior Extended)) (x : WithTop ℚ) :
    longest lanes ≤ x ↔
      0 ≤ x ∧ ∀ (i : ℕ) (lane : Behavior Extended), lanes[i]? = some lane → lane.duration ≤ x := by
  induction lanes with
  | nil => simp [longest]
  | cons lane lanes ih =>
    rw [longest,max_le_iff,ih]
    constructor
    · rintro ⟨hlane,hx,hlanes⟩
      refine ⟨hx,fun i other hi => ?_⟩
      cases i with
      | zero => exact Option.some.inj hi ▸ hlane
      | succ i => exact hlanes i other hi
    · rintro ⟨hx,hall⟩
      exact ⟨hall 0 lane rfl,hx,fun i other hi => hall (i + 1) other hi⟩

theorem duration_le_parallel {timing : Timing Extended} {lanes : List (Behavior Extended)} {i : ℕ}
    {lane : Behavior Extended} (hi : lanes[i]? = some lane) :
    lane.duration ≤ (parallel timing lanes).duration :=
  (((longest_le_iff lanes _).mp le_rfl).2 i lane hi).trans (le_max_right _ _)

theorem duration_nonneg (b : Behavior Extended) : 0 ≤ b.duration := by
  refine @Behavior.rec Extended (fun b => 0 ≤ b.duration) (fun children => 0 ≤ total children)
    ?_ ?_ ?_ ?_ ?_ ?_ ?_ b
  · exact fun timing effect => le_max_right _ _
  · exact fun timing children ih => le_min (le_max_right _ _) ih
  · intro timing limit body ih
    refine le_min (le_max_right _ _) ?_
    cases limit.rounds with
    | none => exact le_top
    | some n => exact nsmul_nonneg ih n
  · exact fun timing body _ => le_max_right _ _
  · exact fun timing lanes _ => (le_max_right _ _).trans (le_max_left _ _)
  · exact le_rfl
  · exact fun child children h hs => add_nonneg h hs

end Behavior

namespace Links
variable (k : Links Extended)

def lasts (i : ℕ) : WithTop ℚ := (k.parts[k.slot i]?.map Behavior.duration).getD 0

/-- The time at which a place begins, when all places before it have lasted. -/
def begins : ℕ → WithTop ℚ
  | 0 => 0
  | i + 1 => begins i + k.lasts i

variable {k}

theorem lasts_of_getElem? {i : ℕ} {part : Behavior Extended} (h : k.parts[k.slot i]? = some part) :
    k.lasts i = part.duration := by
  rw [lasts,h]
  rfl

theorem lasts_nonneg (i : ℕ) : 0 ≤ k.lasts i := by
  unfold lasts
  cases k.parts[k.slot i]? with
  | none => exact le_rfl
  | some part => exact part.duration_nonneg

theorem begins_mono : Monotone k.begins :=
  monotone_nat_of_le_succ fun i => le_add_of_nonneg_right (lasts_nonneg i)

theorem begins_nonneg (i : ℕ) : 0 ≤ k.begins i := begins_mono (Nat.zero_le i)

/-- The time at which all places of a chain have lasted, if there are finitely many. -/
inductive Total (k : Links Extended) : WithTop ℚ → Prop
  | finite (n) : (∀ i, k.more i = true ↔ i < n) → Total k (k.begins n)
  | endless : (∀ i, k.more i = true) → Total k ⊤

theorem Total.begins_le {total : WithTop ℚ} (h : Total k total) {i : ℕ} (hi : k.more i = true) :
    k.begins (i + 1) ≤ total := by
  cases h with
  | finite n hn => exact begins_mono ((hn i).mp hi)
  | endless => exact le_top

theorem Total.begins_eq {total : WithTop ℚ} (h : Total k total) {i : ℕ} (hi : k.more i = false)
    (hbefore : ∀ j < i, k.more j = true) : k.begins i = total := by
  cases h with
  | finite n hn =>
    have hle : n ≤ i := not_lt.mp fun hlt => by simp [(hn i).mpr hlt] at hi
    rcases hle.eq_or_lt with rfl | hlt
    · rfl
    · exact absurd ((hn n).mp (hbefore n hlt)) (lt_irrefl n)
  | endless hall => simp [hall i] at hi

theorem Total.nonneg {total : WithTop ℚ} (h : Total k total) : 0 ≤ total := by
  cases h with
  | finite n => exact begins_nonneg n
  | endless => exact le_top

theorem begins_sequence (timing : Timing Extended) (children : List (Behavior Extended)) :
    (Links.sequence timing children).begins children.length = Behavior.total children := by
  have hprefix : ∀ before rest : List (Behavior Extended), children = before ++ rest →
      (Links.sequence timing children).begins before.length + Behavior.total rest =
        (Links.sequence timing children).begins children.length := by
    intro before rest h
    induction rest generalizing before with
    | nil => simp [h,Behavior.total]
    | cons child rest ih =>
      have hchild : (Links.sequence timing children).lasts before.length = child.duration :=
        lasts_of_getElem? (by simp [Links.sequence,h])
      rw [← ih (before ++ [child]) (by simp [h]),List.length_append,List.length_singleton,begins,
        hchild,Behavior.total,add_assoc]
  rw [← hprefix [] children rfl,List.length_nil,begins,zero_add]

theorem begins_repetition (timing : Timing Extended) (limit : Extended) (body : Behavior Extended)
    (n : ℕ) : (Links.repetition timing limit body).begins n = n • body.duration := by
  induction n with
  | zero => rw [begins,zero_nsmul]
  | succ n ih =>
    rw [begins,ih,succ_nsmul]
    rfl

theorem more_of_rounds_none {timing : Timing Extended} {limit : Extended} {body : Behavior Extended}
    (h : limit.rounds = none) (i : ℕ) : (Links.repetition timing limit body).more i = true := by
  cases limit with
  | finite | undefined => cases h
  | infinite s =>
    cases s with
    | false => rfl
    | true => cases h

theorem more_iff_of_rounds {timing : Timing Extended} {limit : Extended} {body : Behavior Extended}
    {n : ℕ} (h : limit.rounds = some n) (i : ℕ) :
    (Links.repetition timing limit body).more i = true ↔ i < n := by
  cases limit with
  | finite q =>
    obtain rfl : ⌈q⌉₊ = n := Option.some.inj h
    rw [Nat.lt_ceil,← finite_lt]
    exact decide_eq_true_iff
  | undefined =>
    obtain rfl : 0 = n := Option.some.inj h
    exact ⟨nofun,nofun⟩
  | infinite s =>
    cases s with
    | false => cases h
    | true =>
      obtain rfl : 0 = n := Option.some.inj h
      exact ⟨nofun,nofun⟩

/-- The duration of a chain is the time that all its places last, cut by its lifespan. -/
theorem exists_total {b : Behavior Extended} (h : b.links? = some k) :
    ∃ total, k.Total total ∧ b.duration = min (max k.lifespan.toTop 0) total := by
  cases b with
  | leaf | parallel => cases h
  | sequence timing children =>
    cases h
    exact ⟨_,.finite children.length (by simp [Links.sequence]),by
      rw [begins_sequence,Behavior.duration]; rfl⟩
  | repetition timing limit body =>
    cases h
    rw [Behavior.duration]
    cases hrounds : limit.rounds with
    | none => exact ⟨⊤,.endless (more_of_rounds_none hrounds),rfl⟩
    | some n =>
      exact ⟨_,.finite n (more_iff_of_rounds hrounds),by rw [begins_repetition]; rfl⟩
  | loop timing body =>
    cases h
    exact ⟨⊤,.endless fun _ => rfl,by rw [Behavior.duration,min_eq_left le_top]; rfl⟩

end Links
end Fireworks
