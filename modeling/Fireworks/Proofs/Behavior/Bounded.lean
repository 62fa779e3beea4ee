import Fireworks.Proofs.Behavior.Duration
import Fireworks.Proofs.Behavior.Sending
import Fireworks.Proofs.Generator.Choice
import Fireworks.Proofs.Generator.Exact

/-! # Programs without unbounded loops

A loop never ends by itself, but a lifespan around it ends it, also through easings and choices. Where
every loop is such a body, and lifespans and limits are rational numbers, a program only makes behaviors
of finite duration, and the children that they send out are made from smaller programs of this kind.
-/
namespace Fireworks
open Extended

/-- Generators whose constants are rational numbers. -/
inductive NumberGen.IsRational : NumberGen Extended → Prop
  | const (q : ℚ) : IsRational (.const (finite q))
  | range (selection) {low high} : IsRational low → IsRational high →
      IsRational (.range selection low high)
  | angle (selection) : IsRational (.angle selection)
  | choice (selection) {options} : (∀ option ∈ options, IsRational option) →
      IsRational (.choice selection options)

/-- Programs in which every loop is the body of a lifespan, maybe with easings, choices and further
lifespans in between. A loop may only stand on top where a lifespan around it is to limit it. -/
inductive BehaviorGen.Bounded : (limited : Bool) → BehaviorGen Extended → Prop
  | action {limited} (a) : Bounded limited (.action a)
  | property {limited} (blend target value) : Bounded limited (.property blend target value)
  | translate {limited} (offset) : Bounded limited (.translate offset)
  | rotate {limited} (degrees) : Bounded limited (.rotate degrees)
  | emit {limited} (count times parallel) {body} : Bounded false body →
      Bounded limited (.emit count times parallel body)
  | loop {body} : Bounded false body → Bounded true (.loop body)
  | repeated {limited limit body} : limit.IsRational → Bounded false body →
      Bounded limited (.repeated limit body)
  | flair {limited} (count) {body} : Bounded false body → Bounded limited (.flair count body)
  | fireworks {limited} (count) {body} : Bounded false body → Bounded limited (.fireworks count body)
  | character {limited} (word) {body} : Bounded false body → Bounded limited (.character word body)
  | text {limited} (word offset) {body} : Bounded false body →
      Bounded limited (.text word offset body)
  | block {limited lanes} : (∀ lane ∈ lanes, ∀ statement ∈ lane, Bounded false statement) →
      Bounded limited (.block lanes)
  | lifespan {limited span body} : span.IsRational → Bounded true body →
      Bounded limited (.lifespan span body)
  | eased {limited} (easing) {body} : Bounded limited body → Bounded limited (.eased easing body)
  | choice {limited} (selection) {options} : (∀ option ∈ options, Bounded limited option) →
      Bounded limited (.choice selection options)

namespace NumberGen

/-- Rational constants only make rational numbers. -/
theorem IsRational.exists_generate {g : NumberGen Extended} (h : g.IsRational) (k : Index) (rng : Rng) :
    ∃ q, ((g.generate k).run rng).1 = finite q := by
  induction h generalizing rng with
  | const q => exact ⟨q,rfl⟩
  | @range selection low high _ _ ihlow ihhigh =>
    obtain ⟨l,hl⟩ := ihlow rng
    obtain ⟨h,hh⟩ := ihhigh ((low.generate k).run rng).2
    obtain ⟨r,-,hr⟩ := selection.exists_ratio k ((high.generate k).run ((low.generate k).run rng).2).2
    exact ⟨l * (1 - r) + h * r,generate_range_eq hl hh hr⟩
  | angle selection =>
    obtain ⟨q,-,hq⟩ := selection.exists_angle k rng
    exact ⟨q,hq⟩
  | @choice selection options _ ih =>
    let drawn := (selection.pick Extended k options.length).run rng
    change ∃ q, ((generateNth k options drawn.1).run drawn.2).1 = finite q
    rw [generateNth_eq]
    exact elim_getElem?_of_forall (Q := fun x : StateM Rng Extended => ∃ q, (x.run drawn.2).1 = finite q)
      ⟨0,rfl⟩ (fun option hoption => ih option hoption drawn.2) _

end NumberGen

theorem Extended.max_toTop_lt_top (q : ℚ) : max (finite q).toTop 0 < ⊤ :=
  max_lt (WithTop.coe_lt_top q) (WithTop.coe_lt_top 0)

namespace Behavior

theorem total_ne_top {children : List (Behavior Extended)}
    (h : ∀ child ∈ children, child.duration ≠ ⊤) : total children ≠ ⊤ := by
  induction children with
  | nil => exact WithTop.coe_ne_top (a := (0 : ℚ))
  | cons child children ih =>
    obtain ⟨hchild,hrest⟩ := List.forall_mem_cons.mp h
    exact WithTop.add_ne_top.mpr ⟨hchild,ih hrest⟩

theorem longest_ne_top {lanes : List (Behavior Extended)} (h : ∀ lane ∈ lanes, lane.duration ≠ ⊤) :
    longest lanes ≠ ⊤ := by
  induction lanes with
  | nil => exact WithTop.coe_ne_top (a := (0 : ℚ))
  | cons lane lanes ih =>
    obtain ⟨hlane,hrest⟩ := List.forall_mem_cons.mp h
    exact (max_lt hlane.lt_top (ih hrest).lt_top).ne

/-- What programs without unbounded loops make: a behavior that a lifespan ends, and that ends without
one if it need not be limited, and whose children are made from bodies below a given size. -/
structure Bounded (limited : Bool) (size : ℕ) (b : Behavior Extended) : Prop where
  timed : b.Timed
  capped : ∀ q : ℚ, (b.withLifespan (finite q)).duration ≠ ⊤
  ends : limited = false → b.duration ≠ ⊤
  sends : b.Sends fun body => body.Bounded false ∧ sizeOf body < size

section
variable {b : Behavior Extended}

@[simp] theorem parts_withTiming (timing : Timing Extended) : (b.withTiming timing).parts = b.parts := by
  cases b <;> rfl

theorem Timed.withTiming (hb : b.Timed) {timing : Timing Extended} (h : timing.lifespan.IsSpan) :
    (b.withTiming timing).Timed :=
  .intro (by rwa [timing_withTiming]) fun part hpart => hb.part (b.parts_withTiming timing ▸ hpart)

theorem Sends.withTiming {P : BehaviorGen Extended → Prop} (hb : b.Sends P)
    (timing : Timing Extended) : (b.withTiming timing).Sends P := by
  refine .intro ?_ fun part hpart => hb.part (b.parts_withTiming timing ▸ hpart)
  intro timing' effect heq body hbody
  cases b with
  | leaf own effect' =>
    cases heq
    exact hb.here own effect rfl body hbody
  | sequence | repetition | loop | parallel => cases heq

theorem duration_withEasing (easing : Easing) : (b.withEasing easing).duration = b.duration := by
  cases b <;> simp only [withEasing,withTiming,timing,duration]

end

namespace Bounded
variable {limited : Bool} {size : ℕ} {b : Behavior Extended}

theorem mono (hb : b.Bounded limited size) {more : Bool} {larger : ℕ}
    (hmore : more = false → limited = false) (hsize : size ≤ larger) : b.Bounded more larger :=
  ⟨hb.timed,hb.capped,fun h => hb.ends (hmore h),hb.sends.imp fun _ h timing effect heq body hbody =>
    ⟨(h timing effect heq body hbody).1,(h timing effect heq body hbody).2.trans_le hsize⟩⟩

theorem ofEffect {effect : Effect Extended}
    (h : ∀ body, effect.body? = some body → body.Bounded false ∧ sizeOf body < size) :
    (Behavior.ofEffect effect).Bounded limited size where
  timed := .intro (.rational 0) (List.forall_mem_nil _)
  capped q := by
    rw [Behavior.ofEffect,Behavior.withLifespan,withTiming,duration]
    exact (max_toTop_lt_top q).ne
  ends _ := by
    rw [Behavior.ofEffect,duration]
    exact (max_toTop_lt_top 0).ne
  sends := .intro (fun timing other heq => by cases heq; exact h) (List.forall_mem_nil _)

theorem ofBody {effect : Effect Extended} {body : BehaviorGen Extended} (hbody : body.Bounded false)
    (h : effect.body? = some body) (hsize : sizeOf body < size) :
    (Behavior.ofEffect effect).Bounded limited size :=
  ofEffect fun _ hother => Option.some.inj (h.symm.trans hother) ▸ ⟨hbody,hsize⟩

theorem inSequence {children : List (Behavior Extended)}
    (h : ∀ child ∈ children, child.Bounded false size) :
    (Behavior.inSequence children).Bounded limited size where
  timed := .intro .endless fun child hchild => (h child hchild).timed
  capped q := by
    rw [Behavior.inSequence,Behavior.withLifespan,withTiming,duration]
    exact ((min_le_left _ _).trans_lt (max_toTop_lt_top q)).ne
  ends _ := by
    have htotal := total_ne_top fun child hchild => (h child hchild).ends rfl
    rw [Behavior.inSequence,duration]
    exact ((min_le_right _ _).trans_lt htotal.lt_top).ne
  sends := .intro (fun _ _ heq => by cases heq) fun child hchild => (h child hchild).sends

theorem repeatUpTo (hb : b.Bounded false size) (q : ℚ) :
    (Behavior.repeatUpTo (finite q) b).Bounded limited size where
  timed := .intro .endless fun _ hchild => List.mem_singleton.mp hchild ▸ hb.timed
  capped q := by
    rw [Behavior.repeatUpTo,Behavior.withLifespan,withTiming,duration]
    exact ((min_le_left _ _).trans_lt (max_toTop_lt_top q)).ne
  ends _ := by
    have hrounds : ∀ n : ℕ, n • b.duration ≠ ⊤ := by
      intro n
      induction n with
      | zero => exact zero_nsmul b.duration ▸ WithTop.coe_ne_top (a := (0 : ℚ))
      | succ n ih => exact succ_nsmul b.duration n ▸ WithTop.add_ne_top.mpr ⟨ih,hb.ends rfl⟩
    rw [Behavior.repeatUpTo,duration]
    exact ((min_le_right _ _).trans_lt (hrounds ⌈q⌉₊).lt_top).ne
  sends := .intro (fun _ _ heq => by cases heq) fun _ hchild => List.mem_singleton.mp hchild ▸ hb.sends

theorem forever (hb : b.Bounded false size) : (Behavior.forever b).Bounded true size where
  timed := .intro .endless fun _ hchild => List.mem_singleton.mp hchild ▸ hb.timed
  capped q := by
    rw [Behavior.forever,Behavior.withLifespan,withTiming,duration]
    exact (max_toTop_lt_top q).ne
  ends := nofun
  sends := .intro (fun _ _ heq => by cases heq) fun _ hchild => List.mem_singleton.mp hchild ▸ hb.sends

theorem inParallel {lanes : List (Behavior Extended)} (h : ∀ lane ∈ lanes, lane.Bounded false size) :
    (Behavior.inParallel lanes).Bounded limited size := by
  have hlanes := longest_ne_top fun lane hlane => (h lane hlane).ends rfl
  constructor
  · exact .intro (.rational 0) fun lane hlane => (h lane hlane).timed
  · intro q
    rw [Behavior.inParallel,Behavior.withLifespan,withTiming,duration]
    exact (max_lt (max_toTop_lt_top q) hlanes.lt_top).ne
  · intro _
    rw [Behavior.inParallel,duration]
    exact (max_lt (max_toTop_lt_top 0) hlanes.lt_top).ne
  · exact .intro (fun _ _ heq => by cases heq) fun lane hlane => (h lane hlane).sends

/-- A lifespan ends whatever it is put around. -/
theorem withLifespan (hb : b.Bounded true size) (q : ℚ) :
    (b.withLifespan (finite q)).Bounded limited size where
  timed := hb.timed.withTiming (.rational q)
  capped r := by
    have hagain : (b.withLifespan (finite q)).withLifespan (finite r) = b.withLifespan (finite r) := by
      cases b <;> rfl
    rw [hagain]
    exact hb.capped r
  ends _ := hb.capped q
  sends := hb.sends.withTiming _

theorem withEasing (hb : b.Bounded limited size) (easing : Easing) :
    (b.withEasing easing).Bounded limited size where
  timed := hb.timed.withTiming hb.timed.span
  capped q := by
    have hswap : (b.withEasing easing).withLifespan (finite q) =
        (b.withLifespan (finite q)).withEasing easing := by
      cases b <;> rfl
    rw [hswap,duration_withEasing]
    exact hb.capped q
  ends h := by
    rw [duration_withEasing]
    exact hb.ends h
  sends := hb.sends.withTiming _

end Bounded
end Behavior

namespace BehaviorGen

section
variable {ν : Type} [Arithmetic ν] {P : Behavior ν → Prop} (k : Index)

theorem forall_generateLane {lane : List (BehaviorGen ν)}
    (h : ∀ statement ∈ lane, ∀ rng, P ((statement.generate k).run rng).1) (rng : Rng) :
    ∀ b ∈ ((generateLane k lane).run rng).1, P b := by
  induction lane generalizing rng with
  | nil => exact List.forall_mem_nil P
  | cons statement rest ih =>
    obtain ⟨hfirst,hrest⟩ := List.forall_mem_cons.mp h
    exact List.forall_mem_cons.mpr ⟨hfirst rng,ih hrest _⟩

theorem forall_generateLanes {lanes : List (List (BehaviorGen ν))}
    (h : ∀ lane ∈ lanes, ∀ rng, P (.inSequence ((generateLane k lane).run rng).1)) (rng : Rng) :
    ∀ b ∈ ((generateLanes k lanes).run rng).1, P b := by
  induction lanes generalizing rng with
  | nil => exact List.forall_mem_nil P
  | cons lane rest ih =>
    obtain ⟨hfirst,hrest⟩ := List.forall_mem_cons.mp h
    exact List.forall_mem_cons.mpr ⟨hfirst rng,ih hrest _⟩

theorem generateNth_of_forall {options : List (BehaviorGen ν)} (hnop : P .nop)
    (h : ∀ option ∈ options, ∀ rng, P ((option.generate k).run rng).1) (i : ℕ) (rng : Rng) :
    P ((generateNth k options i).run rng).1 := by
  rw [generateNth_eq]
  refine elim_getElem?_of_forall (Q := fun x : StateM Rng (Behavior ν) => P (x.run rng).1) ?_ ?_ i
  · exact hnop
  · exact fun option hoption => h option hoption rng

end

namespace Bounded
variable {limited : Bool} {g : BehaviorGen Extended}

/-- Whatever a program without unbounded loops makes ends. -/
theorem generate (h : g.Bounded limited) (k : Index) (rng : Rng) :
    ((g.generate k).run rng).1.Bounded limited (sizeOf g) := by
  induction h generalizing rng with
  | action a => exact .ofEffect fun body hbody => by cases a <;> cases hbody
  | property blend target value => exact .ofEffect fun body hbody => by cases blend <;> cases hbody
  | translate | rotate => exact .ofEffect nofun
  | emit _ _ _ hbody | flair _ hbody | fireworks _ hbody | character _ hbody | text _ _ hbody =>
    exact .ofBody hbody rfl (by simp)
  | loop _ ih => exact ((ih rng).mono id (by simp)).forever
  | @repeated limited limit body hlimit _ ih =>
    obtain ⟨q,hq⟩ := hlimit.exists_generate k rng
    have hbody : Behavior.Bounded limited (sizeOf body) (.repeatUpTo (finite q) _) :=
      (ih ((limit.generate k).run rng).2).repeatUpTo q
    rw [← hq] at hbody
    exact hbody.mono id (by simp)
  | @block limited lanes _ ih =>
    refine .inParallel (forall_generateLanes k (fun lane hlane rng => .inSequence ?_) rng)
    refine forall_generateLane k (fun statement hstatement rng => ?_) rng
    have hlanes := List.sizeOf_lt_of_mem hlane
    have hsize := List.sizeOf_lt_of_mem hstatement
    exact (ih lane hlane statement hstatement rng).mono id (by simp; omega)
  | @lifespan limited span body hspan _ ih =>
    obtain ⟨q,hq⟩ := hspan.exists_generate k ((body.generate k).run rng).2
    have hbody : Behavior.Bounded limited (sizeOf body) (.withLifespan (finite q) _) :=
      (ih rng).withLifespan q
    rw [← hq] at hbody
    exact hbody.mono id (by simp)
  | @eased limited easing body _ ih =>
    have hbody := (ih rng).withEasing ((easing.generate Extended k).run ((body.generate k).run rng).2).1
    exact hbody.mono id (by simp)
  | choice selection _ ih =>
    refine generateNth_of_forall k (.ofEffect nofun) (fun option hoption rng => ?_) _ _
    have hsize := List.sizeOf_lt_of_mem hoption
    exact (ih option hoption rng).mono id (by simp; omega)

end Bounded
end BehaviorGen
end Fireworks
