import Fireworks.Status

/-! # Children one after another

A chain gives its current child windows of time that count from that child's own beginning. A
child that ends early leaves the rest of the window to the next one, within the same call.
-/
namespace Fireworks

structure Chain (ν σ : Type) where
  /-- The time up to which the chain has come. -/
  now : ν
  /-- The time at which the current child began. -/
  offset : ν
  /-- The current child; none once the last one has ended. -/
  cursor : Option Nat
  state : σ

namespace Chain

variable {ν σ : Type} [Arithmetic ν]

/-- Runs one child after the other up to the time `term`, over at most `limit` calls. -/
def drive (next : Nat → Option Nat) (call : Nat → ν → ν → σ → Status ν × σ) (term : ν) :
    Nat → Chain ν σ → Chain ν σ
  | 0, chain => chain
  | limit + 1, chain =>
    match chain.cursor with
    | none => chain
    | some i =>
      if term ≤ chain.now then chain
      else
        match call i (chain.now - chain.offset) (term - chain.offset) chain.state with
        | (.running, state) => { chain with state }
        | (.done leftover, state) =>
          -- The next child begins where this one ended.
          let now := term - leftover
          drive next call term limit { now, offset := now, cursor := next (i + 1), state }

/-- How a chain stands at the end of a window: it ends with its last child, and otherwise with its
lifespan. -/
def status (lifespan stop : ν) (chain : Chain ν σ) : Status ν :=
  match chain.cursor with
  | some _ => .settle lifespan chain.now stop
  | none => .ofLeftover (stop - chain.now)

end Chain

end Fireworks
